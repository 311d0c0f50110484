import Mathlib.Data.List.Induction
import Knpnl.Net.Receiving
import Knpnl.Base.BufferFifo

/-!
# Edge-triggered reads

A read event is reported once for what has arrived since the last one. `Kernel` says what
then stays in the receive queue, with no buffer and no callback: `cap` bytes are taken if
there are as many, and nothing tells the connection that there may be more. A connection
follows it with any callback that consumes what it is passed.
-/
namespace Knpnl.Net

open Lib.CString (Bytes)
open Base (Recv ReadEnd offer)

/-- What happens to a socket: bytes or the end arrive, the connection is closed from
elsewhere, or the loop handles a read event, during which `during` and perhaps the end
arrive before the last call of `recv`. -/
inductive SocketStep where
  | data (bs : Bytes)
  | fin
  | hangup
  | event (during : List Bytes) (fin : Bool)

/-- The bytes not yet received, whether the end has come, whether an event will be
reported, and whether the connection still handles it. -/
structure Kernel where
  queue : Bytes
  fin : Bool
  edge : Bool
  isOpen : Bool

namespace Kernel

def new : Kernel := ⟨[], false, false, true⟩

/-- Nothing arrives after the end. -/
def data (k : Kernel) (bs : Bytes) : Kernel :=
  if k.fin ∨ bs = [] then k else { k with queue := k.queue ++ bs, edge := true }

def shutdown (k : Kernel) : Kernel := { k with fin := true, edge := true }

/-- What arrives while an event is handled. -/
def arrivals (k : Kernel) (during : List Bytes) : List Bytes := if k.fin then [] else during

/-- The bytes that an event finds, with those that arrive while it is handled. -/
def offered (k : Kernel) (during : List Bytes) : Bytes := k.queue ++ (k.arrivals during).flatten

/-- There is something to report. -/
def Reports (k : Kernel) : Prop := k.edge = true ∧ (k.queue ≠ [] ∨ k.fin = true) ∧ k.isOpen = true

instance (k : Kernel) : Decidable k.Reports := inferInstanceAs (Decidable (_ ∧ _))

/-- An event of a reader with room for `cap` bytes. It goes on if there was no room to see
the end. -/
def event (cap : Nat) (k : Kernel) (during : List Bytes) (fin : Bool) : Kernel :=
  if k.Reports then
    { queue := (k.offered during).drop cap
      fin := k.fin || fin
      edge := (k.arrivals during).flatten ≠ [] || fin && !k.fin
      isOpen := cap ≤ (k.offered during).length || !(k.fin || fin) }
  else k

def step (cap : Nat) (k : Kernel) : SocketStep → Kernel
  | .data bs => k.data bs
  | .fin => k.shutdown
  | .hangup => { k with isOpen := false }
  | .event during fin => k.event cap during fin

def run (cap : Nat) (steps : List SocketStep) : Kernel := steps.foldl (step cap) new

end Kernel

namespace Kernel

variable {cap : Nat} {k : Kernel}

theorem run_concat (steps : List SocketStep) (step : SocketStep) :
    run cap (steps ++ [step]) = (run cap steps).step cap step := by
  simp [run]

theorem isOpen_of_step {step : SocketStep} (h : (k.step cap step).isOpen = true) : k.isOpen = true := by
  cases step with
  | data bs =>
    simp only [Kernel.step, data] at h
    split at h <;> exact h
  | fin => exact h
  | hangup => cases h
  | event during fin =>
    by_cases hreports : k.Reports
    · exact hreports.2.2
    · rwa [Kernel.step, event, if_neg hreports] at h

end Kernel

/-- No event finds `cap` bytes. -/
def NeverFull (cap : Nat) (steps : List SocketStep) : Prop :=
  ∀ pre during fin, pre ++ [.event during fin] <+: steps →
    (Kernel.run cap pre).Reports → ((Kernel.run cap pre).offered during).length < cap

/-- A connection and its socket. -/
structure Polled (κ : Type*) where
  conn : TcpConnection κ
  queue : Bytes
  fin : Bool
  edge : Bool

/-- The answers of `recv` that bring some bytes. -/
def answers (bs : Bytes) : List Recv := if bs = [] then [] else [.data bs]

namespace Polled

variable {κ : Type*} (onMessageCallback : TcpConnection κ → TcpConnection κ)

def data (w : Polled κ) (bs : Bytes) : Polled κ :=
  if w.fin ∨ bs = [] then w else { w with queue := w.queue ++ bs, edge := true }

def shutdown (w : Polled κ) : Polled κ := { w with fin := true, edge := true }

/-- What arrives while an event is handled. -/
def arrivals (w : Polled κ) (during : List Bytes) : List Bytes := if w.fin then [] else during

/-- The answers of `recv` while an event is handled. -/
def script (w : Polled κ) (during : List Bytes) (fin : Bool) : List Recv :=
  (w.queue :: w.arrivals during).flatMap answers ++ [if w.fin || fin then .data [] else .eagain]

/-- The connection when the event is handled. -/
def called (w : Polled κ) (during : List Bytes) (fin : Bool) : TcpConnection κ :=
  { w.conn with mSocket := { w.conn.mSocket with recvs := w.script during fin } }

/-- The receive loop of the call. -/
def reading (w : Polled κ) (during : List Bytes) (fin : Bool) : Base.ReadOut :=
  (w.called during fin).mReadBuffer.readFd (w.script during fin)

/-- There is something to report, and the channel is not disabled. -/
def Reports (w : Polled κ) : Prop :=
  w.edge = true ∧ (w.queue ≠ [] ∨ w.fin = true) ∧ w.conn.isOpen

instance (w : Polled κ) : Decidable w.Reports := inferInstanceAs (Decidable (_ ∧ _))

def event (w : Polled κ) (during : List Bytes) (fin : Bool) : Polled κ :=
  if w.Reports then
    { conn := (w.called during fin).handleRead onMessageCallback
      queue := (w.queue ++ (w.arrivals during).flatten).drop (w.reading during fin).last.received.length
      fin := w.fin || fin
      edge := (w.arrivals during).flatten ≠ [] || fin && !w.fin }
  else w

def step (w : Polled κ) : SocketStep → Polled κ
  | .data bs => w.data bs
  | .fin => w.shutdown
  | .hangup => { w with conn := w.conn.handleClose }
  | .event during fin => w.event onMessageCallback during fin

def run (c : TcpConnection κ) (steps : List SocketStep) : Polled κ :=
  steps.foldl (step onMessageCallback) ⟨c, [], false, false⟩

/-- If an event leaves the connection open, `recv` was called until `EAGAIN`, and
what is in the receive queue then will be reported. -/
def Drains (w : Polled κ) (during : List Bytes) (fin : Bool) : Prop :=
  w.Reports → (w.event onMessageCallback during fin).conn.isOpen →
    (w.reading during fin).ended = .drained ∧
      ((w.event onMessageCallback during fin).queue ≠ [] ∨
          (w.event onMessageCallback during fin).fin = true →
        (w.event onMessageCallback during fin).edge = true)

end Polled

/-- Every event of a run drains the receive queue, whatever consuming callback is installed. -/
def AlwaysDrains {κ : Type*} (c : TcpConnection κ) (steps : List SocketStep) : Prop :=
  ∀ onMessageCallback, TcpConnection.Consumes onMessageCallback →
    ∀ pre during fin, pre ++ [.event during fin] <+: steps →
      (Polled.run onMessageCallback c pre).Drains onMessageCallback during fin

section
variable {last : Recv} {e : ReadEnd}

theorem stream_answers (pieces : List Bytes) (hlast : Base.stream [last] = []) :
    Base.stream (pieces.flatMap answers ++ [last]) = pieces.flatten := by
  induction pieces with
  | nil => exact hlast
  | cons bs pieces ih =>
    cases bs with
    | nil => simpa [answers] using ih
    | cons c bs => simp [answers, Base.stream, ← ih]

/-- The loop sees the last answer if there is room for more bytes than come before it. -/
theorem ended_answers (pieces : List Bytes) (hlast : ∀ free, (offer [last] (free + 1)).ended = e)
    {free : Nat} (hfree : 0 < free) :
    (offer (pieces.flatMap answers ++ [last]) free).ended =
      if pieces.flatten.length < free then e else .full := by
  obtain ⟨free, rfl⟩ : ∃ k, free = k + 1 := ⟨free - 1, by omega⟩
  induction pieces generalizing free with
  | nil => simpa using hlast free
  | cons bs pieces ih =>
    cases bs with
    | nil => simpa [answers] using ih free hfree
    | cons c bs =>
      simp only [List.flatMap_cons, answers, reduceCtorEq, if_false, List.cons_append, List.nil_append,
        List.flatten_cons, List.length_append, List.length_cons, offer]
      by_cases hfit : bs.length ≤ free
      · rw [if_pos hfit]
        dsimp only
        rcases Nat.eq_or_lt_of_le hfit with heq | hlt
        · rw [heq, Nat.sub_self, Base.offer_zero, if_neg (by omega)]
        · have hnext := ih (free - bs.length - 1) (by omega)
          rw [Nat.sub_add_cancel (by omega)] at hnext
          rw [hnext]
          congr 1
          simp only [eq_iff_iff]
          omega
      · rw [if_neg hfit, if_neg (by omega)]

end

namespace Polled

variable {κ : Type*} {cap : Nat} {w : Polled κ} {onMessageCallback : TcpConnection κ → TcpConnection κ}

def offered (w : Polled κ) (during : List Bytes) : Bytes := w.queue ++ (w.arrivals during).flatten

theorem offer_script (w : Polled κ) (hcap : 0 < cap) (during : List Bytes) (fin : Bool) :
    (offer (w.script during fin) cap).bytes = (w.offered during).take cap ∧
      (offer (w.script during fin) cap).ended =
        if (w.offered during).length < cap then (if w.fin || fin then .closed else .drained)
        else .full := by
  constructor
  · rw [Base.offer_bytes, script, stream_answers]
    · rfl
    · cases w.fin || fin <;> rfl
  · rw [script, @ended_answers _ (if w.fin || fin then .closed else .drained) _ _ _ hcap]
    · rfl
    · intro free
      cases w.fin || fin <;> rfl

theorem idle_called (h : w.conn.Idle cap) (during : List Bytes) (fin : Bool) :
    (w.called during fin).Idle cap := ⟨h.ok, h.cap_eq, h.empty⟩

theorem reading_ended (h : w.conn.Idle cap) (during : List Bytes) (fin : Bool) :
    (w.reading during fin).ended = (offer (w.script during fin) cap).ended :=
  (idle_called h during fin).ended_eq

/-- What stays in the receive queue. -/
theorem drop_received (h : w.conn.Idle cap) (hcap : 0 < cap) (during : List Bytes) (fin : Bool) :
    (w.offered during).drop (w.reading during fin).last.received.length = (w.offered during).drop cap := by
  have hreceived := (h.ok.readFd (w.script during fin)).took.received
  simp only [Base.FixedBuffer.startRead, h.avail_eq, List.nil_append,
    (w.offer_script hcap during fin).1] at hreceived
  rw [reading, called, hreceived, List.length_take]
  rcases Nat.le_total cap (w.offered during).length with hle | hle
  · rw [Nat.min_eq_left hle]
  · rw [Nat.min_eq_right hle, List.drop_length, List.drop_eq_nil_of_le hle]

/-- An event that leaves the connection open has not seen the end. -/
theorem not_ends_of_open (hreports : w.Reports) {during : List Bytes} {fin : Bool}
    (hopen : (w.event onMessageCallback during fin).conn.isOpen) : ¬ (w.called during fin).Ends := by
  intro hends
  rw [event, if_pos hreports] at hopen
  dsimp only at hopen
  rw [TcpConnection.handleRead_of_ends hends] at hopen
  exact TcpConnection.not_isOpen_handleClose _ hopen

/-- The end is seen, or nothing is received, by an event with room for more and no other. -/
theorem ends_called (h : w.conn.Idle cap) (hcap : 0 < cap) (during : List Bytes) (fin : Bool) :
    (w.called during fin).Ends ↔
      (w.offered during).length < cap ∧ ((w.fin || fin) = true ∨ w.offered during = []) := by
  obtain ⟨hbytes, hended⟩ := w.offer_script hcap during fin
  rw [(idle_called h during fin).ends_iff, called, hbytes, hended, List.take_eq_nil_iff]
  by_cases hlt : (w.offered during).length < cap
  · rw [if_pos hlt]
    cases w.fin || fin <;> simp [hlt]
    omega
  · rw [if_neg hlt]
    have hne : w.offered during ≠ [] := by
      intro hnil
      rw [hnil] at hlt
      exact hlt hcap
    simp [hlt, hne]
    omega

/-- As long as it is open. -/
structure Follows (cap : Nat) (k : Kernel) (w : Polled κ) : Prop where
  isOpen : k.isOpen = true
  queue : k.queue = w.queue
  fin : k.fin = w.fin
  edge : k.edge = w.edge
  idle : w.conn.Idle cap

namespace Follows

variable {k : Kernel}

theorem arrivals_eq (h : Follows cap k w) (during : List Bytes) :
    k.arrivals during = w.arrivals during := by rw [Kernel.arrivals, arrivals, h.fin]

theorem offered_eq (h : Follows cap k w) (during : List Bytes) :
    k.offered during = w.offered during := by
  rw [Kernel.offered, Polled.offered, h.arrivals_eq, h.queue]

theorem reports_iff (h : Follows cap k w) (hopen : w.conn.isOpen) : k.Reports ↔ w.Reports := by
  simp [Kernel.Reports, Polled.Reports, h.isOpen, h.queue, h.fin, h.edge, hopen]

theorem event (h : Follows cap k w) (hcap : 0 < cap) (hcb : TcpConnection.Consumes onMessageCallback)
    (hreports : w.Reports) (during : List Bytes) (fin : Bool)
    (hopen : (w.event onMessageCallback during fin).conn.isOpen) :
    Follows cap (k.event cap during fin) (w.event onMessageCallback during fin) := by
  have hends := not_ends_of_open hreports hopen
  obtain ⟨hidle, _⟩ := (idle_called h.idle during fin).handleRead hcb hends
  rw [ends_called h.idle hcap] at hends
  rw [Kernel.event, if_pos ((h.reports_iff hreports.2.2).mpr hreports), Polled.event, if_pos hreports]
  refine ⟨?_, ?_, ?_, ?_, hidle⟩
  · simp only [h.offered_eq, h.fin]
    rcases Nat.lt_or_ge (w.offered during).length cap with hlt | hge
    · cases hfin : w.fin || fin with
      | true => exact absurd ⟨hlt, Or.inl hfin⟩ hends
      | false => simp
    · simp [hge]
  · exact (congrArg (List.drop cap) (h.offered_eq during)).trans (drop_received h.idle hcap during fin).symm
  · exact congrArg (· || fin) h.fin
  · simp only [h.arrivals_eq, h.fin]

/-- One step, as long as the connection stays open. -/
theorem step (h : Follows cap k w) (hcap : 0 < cap) (hcb : TcpConnection.Consumes onMessageCallback)
    (step : SocketStep) (hbefore : w.conn.isOpen) (hopen : (w.step onMessageCallback step).conn.isOpen) :
    Follows cap (k.step cap step) (w.step onMessageCallback step) := by
  cases step with
  | data bs =>
    simp only [Kernel.step, Polled.step, Kernel.data, Polled.data, h.fin]
    split
    · exact h
    · exact ⟨h.isOpen, congrArg (· ++ bs) h.queue, rfl, rfl, h.idle⟩
  | fin => exact ⟨h.isOpen, h.queue, rfl, rfl, h.idle⟩
  | hangup => exact absurd hopen (TcpConnection.not_isOpen_handleClose _)
  | event during fin =>
    by_cases hreports : w.Reports
    · exact h.event hcap hcb hreports during fin hopen
    · have hnot := (h.reports_iff hbefore).not.mpr hreports
      rw [Polled.step, Polled.event, if_neg hreports, Kernel.step, Kernel.event, if_neg hnot]
      exact h

end Follows

/-- A closed connection stays as it is. -/
theorem isOpen_of_step {step : SocketStep} (h : (w.step onMessageCallback step).conn.isOpen) :
    w.conn.isOpen := by
  cases step with
  | data bs =>
    simp only [Polled.step, Polled.data] at h
    split at h <;> exact h
  | fin => exact h
  | hangup => exact absurd h (TcpConnection.not_isOpen_handleClose _)
  | event during fin =>
    by_cases hreports : w.Reports
    · exact hreports.2.2
    · rwa [Polled.step, Polled.event, if_neg hreports] at h

theorem run_concat (c : TcpConnection κ) (steps : List SocketStep) (step : SocketStep) :
    run onMessageCallback c (steps ++ [step]) =
      (run onMessageCallback c steps).step onMessageCallback step := by
  simp [run]

theorem follows_run {c : TcpConnection κ} (hidle : c.Idle cap) (hcap : 0 < cap)
    (hcb : TcpConnection.Consumes onMessageCallback) (steps : List SocketStep)
    (hopen : (run onMessageCallback c steps).conn.isOpen) :
    Follows cap (Kernel.run cap steps) (run onMessageCallback c steps) := by
  induction steps using List.reverseRecOn with
  | nil => exact ⟨rfl, rfl, rfl, rfl, hidle⟩
  | append_singleton steps step ih =>
    rw [run_concat] at hopen ⊢
    have hbefore := isOpen_of_step hopen
    rw [Kernel.run_concat]
    exact (ih hbefore).step hcap hcb step hbefore hopen

/-- The default callback leaves the connection open if the reader is to go on. -/
theorem isOpen_event_default (hreports : w.Reports) {during : List Bytes} {fin : Bool}
    (hends : ¬ (w.called during fin).Ends) :
    (w.event TcpConnection.DefaultOnMessageCallback during fin).conn.isOpen := by
  rw [event, if_pos hreports]
  dsimp only
  rw [TcpConnection.handleRead_of_not_ends hends]
  exact hreports.2.2

theorem isOpen_default {c : TcpConnection κ} (hidle : c.Idle cap) (hcap : 0 < cap) (hopen : c.isOpen)
    (steps : List SocketStep) (hk : (Kernel.run cap steps).isOpen = true) :
    (run TcpConnection.DefaultOnMessageCallback c steps).conn.isOpen := by
  induction steps using List.reverseRecOn with
  | nil => exact hopen
  | append_singleton steps step ih =>
    rw [Kernel.run_concat] at hk
    have hbefore := ih (Kernel.isOpen_of_step hk)
    have hfollows := follows_run hidle hcap TcpConnection.consumes_default steps hbefore
    rw [run_concat]
    cases step with
    | data bs =>
      rw [step, data]
      split <;> exact hbefore
    | fin => exact hbefore
    | hangup => cases hk
    | event during fin =>
      by_cases hreports : (run TcpConnection.DefaultOnMessageCallback c steps).Reports
      · refine isOpen_event_default hreports ?_
        rw [ends_called hfollows.idle hcap, ← hfollows.offered_eq, ← hfollows.fin]
        rw [Kernel.step, Kernel.event, if_pos ((hfollows.reports_iff hbefore).mpr hreports)] at hk
        have hsome := hreports.2.1
        rw [← hfollows.queue, ← hfollows.fin] at hsome
        generalize Kernel.run cap steps = k at hk hsome
        rintro ⟨hlt, hend⟩
        have hfin : (k.fin || fin) = false := by
          simpa [Nat.not_le.mpr hlt] using hk
        rw [hfin] at hend
        obtain ⟨hqueue, _⟩ := List.append_eq_nil_iff.mp (hend.resolve_left (by decide))
        rw [hsome.resolve_left (fun h => h hqueue)] at hfin
        cases hfin
      · rw [step, event, if_neg hreports]
        exact hbefore

end Polled

/-- Every read event of a run that leaves the connection open has drained the receive
queue, whatever consuming callback is installed, if and only if no event finds as many
bytes as the read buffer holds. -/
theorem alwaysDrains_iff {κ : Type*} {cap : Nat} (hcap : 0 < cap) {c : TcpConnection κ} (hidle : c.Idle cap)
    (hopen : c.isOpen) (steps : List SocketStep) :
    AlwaysDrains c steps ↔ NeverFull cap steps := by
  constructor
  · intro hall pre during fin hpre hreports
    have hw := Polled.isOpen_default hidle hcap hopen pre hreports.2.2
    have hfollows := Polled.follows_run hidle hcap TcpConnection.consumes_default pre hw
    have hdrains := hall _ TcpConnection.consumes_default pre during fin hpre
    rw [hfollows.reports_iff hw] at hreports
    rw [hfollows.offered_eq]
    generalize Polled.run TcpConnection.DefaultOnMessageCallback c pre = w at *
    by_contra hlong
    have hends : ¬ (w.called during fin).Ends := fun hends =>
      hlong ((Polled.ends_called hfollows.idle hcap during fin).mp hends).1
    obtain ⟨hended, _⟩ := hdrains hreports (Polled.isOpen_event_default hreports hends)
    rw [Polled.reading_ended hfollows.idle, (w.offer_script hcap during fin).2, if_neg hlong] at hended
    cases hended
  · intro hnever cb hcb pre during fin hpre hreports hafter
    have hfollows := Polled.follows_run hidle hcap hcb pre hreports.2.2
    have hlt := hnever pre during fin hpre ((hfollows.reports_iff hreports.2.2).mpr hreports)
    rw [hfollows.offered_eq] at hlt
    generalize Polled.run cb c pre = w at *
    have hends := Polled.not_ends_of_open hreports hafter
    rw [Polled.ends_called hfollows.idle hcap, not_and_or, not_or] at hends
    obtain ⟨hfin, _⟩ := hends.resolve_left (fun h => h hlt)
    constructor
    · rw [Polled.reading_ended hfollows.idle, (w.offer_script hcap during fin).2, if_pos hlt, if_neg hfin]
    · intro hleft
      rw [Polled.event, if_pos hreports] at hleft
      dsimp only at hleft
      rw [← Polled.offered, Polled.drop_received hfollows.idle hcap, List.drop_eq_nil_of_le hlt.le] at hleft
      exact absurd (hleft.resolve_left (fun h => h rfl)) hfin

/-- A connection that has been established, with nothing received. -/
def listening (cap : Nat) : TcpConnection Unit :=
  (TcpConnection.new (List.replicate cap 0) [] () ⟨[], [], []⟩ ⟨0, 0⟩ true).Established id

theorem idle_listening {cap : Nat} (h : cap < 2 ^ 31) : (listening cap).Idle cap := by
  have hidle : (listening cap).Idle (List.replicate cap (0 : UInt8)).length :=
    .of_fresh (by rwa [List.length_replicate]) rfl
  rwa [List.length_replicate] at hidle

/-- Three bytes, two of them during the event, into a buffer of four. -/
theorem alwaysDrains_three : AlwaysDrains (listening 4) [.data [104], .event [[105, 33]] false] :=
  (alwaysDrains_iff (by decide) (idle_listening (by decide)) (by decide) _).mpr (by
    rintro (_ | ⟨step, _ | ⟨step', pre⟩⟩) during fin hpre
    · simp at hpre
    · obtain ⟨rfl, rfl, rfl⟩ : step = .data [104] ∧ during = [[105, 33]] ∧ fin = false := by
        simpa using hpre
      decide
    · have := hpre.length_le
      simp at this)

/-- A burst of 1025 bytes: one stays in the receive queue, and no event will tell. -/
theorem alwaysDrains_burst :
    ¬ AlwaysDrains (listening 1024) [.data (List.replicate 1025 104), .event [] false] := by
  intro hall
  have hdrains := hall _ TcpConnection.consumes_default [.data (List.replicate 1025 104)] [] false
    (List.prefix_refl _)
  obtain ⟨hended, _⟩ := hdrains (by decide +kernel) (by decide +kernel)
  revert hended
  decide +kernel

end Knpnl.Net
