import Knpnl.Lib.Reach
import Knpnl.Net.Receiving

/-!
# Which events of a connection are noticed

An edge-triggered event may report several conditions at once. Dispatch calls one
callback at most, and a connection installs none for errors: what is reported beside the
condition that was chosen is never reported again.
-/
namespace Knpnl.Net

open Lib
open Base (Recv)
open Event

/-- An event: what `epoll_wait` reports, what the kernel and the user will answer, and what
has happened to the connection since the last event. -/
structure Reported (κ : Type*) where
  events : UInt32
  recvs : List Recv
  writevs : List Writev
  onMessageCallback : TcpConnection κ → TcpConnection κ
  since : TcpConnection κ → TcpConnection κ := id

def readable (events : UInt32) : Bool := has events (EPOLLRDHUP ||| EPOLLPRI ||| EPOLLIN)

def writable (events : UInt32) : Bool := has events EPOLLOUT

namespace Reported

variable {κ : Type*} (r : Reported κ) (c : TcpConnection κ)

/-- The connection when the event is reported. -/
def now : TcpConnection κ :=
  { r.since c with mSocket := { (r.since c).mSocket with recvs := r.recvs, writevs := r.writevs } }

/-- `Channel::HandleEvent`; a connection does not guard its channel. -/
def HandleEvent : TcpConnection κ × List Callback :=
  (TcpConnection.callbacks r.onMessageCallback).HandleEventWithGuard r.events (r.now c)

/-- The connection has been closed in the call. -/
def Closed : Prop := (r.now c).isOpen ∧ ¬ (r.HandleEvent c).1.isOpen

/-- What was reported has been seen to, or the connection has been closed in the call. A
failure of an open connection is noticed by closing it or by reading. -/
structure Noticed : Prop where
  read : readable r.events = true → .read ∈ (r.HandleEvent c).2 ∨ r.Closed c
  write : writable r.events = true → .write ∈ (r.HandleEvent c).2 ∨ r.Closed c
  failure : (r.now c).isOpen → has r.events EPOLLERR = true ∨ has r.events EPOLLHUP = true →
    .close ∈ (r.HandleEvent c).2 ∨ .read ∈ (r.HandleEvent c).2

/-- Reading closes the connection: `recv` brings an end, an error or nothing, or the
user's callback closes it. -/
def ReadCloses : Prop :=
  (r.now c).isOpen ∧ ((r.now c).Ends ∨ ¬ (r.onMessageCallback (r.now c).recvMessage.2).isOpen)

/-- Only one thing was reported that an open connection has to see to, and it was not an
error. A hangup without input is enough for an open connection. -/
def Single : Prop :=
  if has r.events EPOLLHUP = true ∧ ¬ has r.events EPOLLIN = true then
    (r.now c).isOpen ∨ ¬ readable r.events = true ∧ ¬ writable r.events = true
  else if has r.events EPOLLERR = true then
    ¬ (r.now c).isOpen ∧ ¬ readable r.events = true ∧ ¬ writable r.events = true
  else ¬ (readable r.events = true ∧ writable r.events = true) ∨ r.ReadCloses c

/-- A run of a connection's channel. -/
def step (c : TcpConnection κ) (r : Reported κ) : TcpConnection κ := (r.HandleEvent c).1

variable {r c}

theorem readable_of_in {events : UInt32} (h : has events EPOLLIN = true) : readable events = true := by
  simp only [has, readable, decide_eq_true_eq] at h ⊢
  intro hnone
  apply h
  calc events &&& EPOLLIN
      = events &&& ((EPOLLRDHUP ||| EPOLLPRI ||| EPOLLIN) &&& EPOLLIN) := rfl
    _ = events &&& (EPOLLRDHUP ||| EPOLLPRI ||| EPOLLIN) &&& EPOLLIN := (UInt32.and_assoc ..).symm
    _ = 0 &&& EPOLLIN := by rw [hnone]
    _ = 0 := rfl

theorem closed_iff_ReadCloses (h : (r.HandleEvent c).1 = (r.now c).handleRead r.onMessageCallback) :
    r.Closed c ↔ r.ReadCloses c := by
  rw [Closed, ReadCloses, h]
  by_cases hends : (r.now c).Ends
  · rw [TcpConnection.handleRead_of_ends hends]
    simp only [hends, true_or, and_true, TcpConnection.not_isOpen_handleClose, not_false_eq_true]
  · rw [TcpConnection.handleRead_of_not_ends hends]
    simp only [hends, false_or]

/-- A hangup without input: the close callback is called. -/
theorem noticed_hangup (h : has r.events EPOLLHUP = true ∧ ¬ has r.events EPOLLIN = true) :
    r.Noticed c ↔ (r.now c).isOpen ∨ ¬ readable r.events = true ∧ ¬ writable r.events = true := by
  have hcall : r.HandleEvent c = ((r.now c).handleClose, [.close]) := if_pos h
  have hclosed : r.Closed c ↔ (r.now c).isOpen := by
    rw [Closed, hcall]
    exact and_iff_left (TcpConnection.not_isOpen_handleClose _)
  constructor
  · intro hnoticed
    by_cases hopen : (r.now c).isOpen
    · exact Or.inl hopen
    · right
      constructor
      · intro hread
        rcases hnoticed.read hread with hran | hc
        · simp [hcall] at hran
        · exact hopen (hclosed.mp hc)
      · intro hwrite
        rcases hnoticed.write hwrite with hran | hc
        · simp [hcall] at hran
        · exact hopen (hclosed.mp hc)
  · rintro (hopen | ⟨hread, hwrite⟩)
    · exact ⟨fun _ => Or.inr (hclosed.mpr hopen), fun _ => Or.inr (hclosed.mpr hopen),
        fun _ _ => Or.inl (by simp [hcall])⟩
    · exact ⟨fun hr => absurd hr hread, fun hw => absurd hw hwrite, fun _ _ => Or.inl (by simp [hcall])⟩

/-- An error: no callback is installed for it. -/
theorem noticed_error (h : ¬ (has r.events EPOLLHUP = true ∧ ¬ has r.events EPOLLIN = true))
    (herr : has r.events EPOLLERR = true) :
    r.Noticed c ↔ ¬ (r.now c).isOpen ∧ ¬ readable r.events = true ∧ ¬ writable r.events = true := by
  have hcall : r.HandleEvent c = (r.now c, []) := (if_neg h).trans (if_pos herr)
  have hclosed : ¬ r.Closed c := by
    rw [Closed, hcall]
    exact fun hc => hc.2 hc.1
  constructor
  · intro hnoticed
    refine ⟨fun hopen => ?_, fun hread => ?_, fun hwrite => ?_⟩
    · have hfailure := hnoticed.failure hopen (Or.inl herr)
      simp [hcall] at hfailure
    · rcases hnoticed.read hread with hran | hc
      · simp [hcall] at hran
      · exact hclosed hc
    · rcases hnoticed.write hwrite with hran | hc
      · simp [hcall] at hran
      · exact hclosed hc
  · rintro ⟨hopen, hread, hwrite⟩
    exact ⟨fun hr => absurd hr hread, fun hw => absurd hw hwrite, fun ho => absurd ho hopen⟩

/-- Input: the read callback is called, and the write callback is not. -/
theorem noticed_input (h : ¬ (has r.events EPOLLHUP = true ∧ ¬ has r.events EPOLLIN = true))
    (herr : ¬ has r.events EPOLLERR = true) (hread : readable r.events = true) :
    r.Noticed c ↔ (writable r.events = true → r.ReadCloses c) := by
  have hcall : r.HandleEvent c = ((r.now c).handleRead r.onMessageCallback, [.read]) :=
    ((if_neg h).trans (if_neg herr)).trans (if_pos hread)
  have hclosed := closed_iff_ReadCloses (r := r) (c := c) (by rw [hcall])
  constructor
  · intro hnoticed hwrite
    rcases hnoticed.write hwrite with hran | hc
    · simp [hcall] at hran
    · exact hclosed.mp hc
  · intro hcloses
    exact ⟨fun _ => Or.inl (by simp [hcall]), fun hwrite => Or.inr (hclosed.mpr (hcloses hwrite)),
      fun _ _ => Or.inr (by simp [hcall])⟩

/-- Without input the write callback is called if it is to be. -/
theorem noticed_output (h : ¬ (has r.events EPOLLHUP = true ∧ ¬ has r.events EPOLLIN = true))
    (herr : ¬ has r.events EPOLLERR = true) (hread : ¬ readable r.events = true) : r.Noticed c := by
  have hhup : ¬ has r.events EPOLLHUP = true := fun hhup =>
    h ⟨hhup, fun hin => hread (readable_of_in hin)⟩
  refine ⟨fun hr => absurd hr hread, fun hwrite => ?_, fun _ hfailure => ?_⟩
  · have hcall : r.HandleEvent c = ((r.now c).handleWrite, [.write]) :=
      (((if_neg h).trans (if_neg herr)).trans (if_neg hread)).trans (if_pos hwrite)
    exact Or.inl (by simp [hcall])
  · rcases hfailure with hf | hf
    · exact absurd hf herr
    · exact absurd hf hhup

theorem noticed_iff_single (c : TcpConnection κ) (r : Reported κ) : r.Noticed c ↔ r.Single c := by
  unfold Single
  by_cases h : has r.events EPOLLHUP = true ∧ ¬ has r.events EPOLLIN = true
  · rw [if_pos h]
    exact noticed_hangup h
  · rw [if_neg h]
    by_cases herr : has r.events EPOLLERR = true
    · rw [if_pos herr]
      exact noticed_error h herr
    · rw [if_neg herr]
      by_cases hread : readable r.events = true
      · rw [noticed_input h herr hread]
        simp only [hread, true_and]
        exact imp_iff_not_or
      · exact iff_of_true (noticed_output h herr hread) (Or.inl fun hboth => hread hboth.1)

/-- In every run of a connection's channel, every event is noticed if and only if every
event is of the kind that one callback sees to. -/
theorem alwaysNoticed_iff (c : TcpConnection κ) (rs : List (Reported κ)) :
    Along step (fun c r => Noticed r c) c rs ↔ Along step (fun c r => Single r c) c rs :=
  along_congr noticed_iff_single c rs

/-- A reset is reported with input, an error and a hangup: nothing is called. -/
theorem alwaysNoticed_reset :
    ¬ Along step (fun c r => Noticed r c)
      ((TcpConnection.new (List.replicate 16 0) (List.replicate 16 0) () ⟨[], [], []⟩ ⟨0, 0⟩
        true).Established id)
      [{ events := EPOLLIN ||| EPOLLERR ||| EPOLLHUP, recvs := [.error], writevs := [],
         onMessageCallback := TcpConnection.DefaultOnMessageCallback }] := by
  rintro ⟨hnoticed, _⟩
  have hfailure := hnoticed.failure (by decide) (by decide)
  revert hfailure
  decide

end Reported
end Knpnl.Net
