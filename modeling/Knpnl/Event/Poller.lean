import Knpnl.Event.Channel
import Knpnl.Lib.Since
import Mathlib.Data.Finmap

/-!
# `event/Poller`: registration and lookup

A poller keeps channels by their descriptor, and gives `epoll_ctl` the same. `C` stands for the
channels, as their addresses tell them apart, and `GetFd` for the descriptor a channel was made with,
which it keeps and which other channels may have had before.
-/
namespace Knpnl.Event

open Lib

variable {C : Type*}

/-- `channelMap`, and for each descriptor the `epoll_event` that `epoll_ctl` was last given. -/
structure Poller (C : Type*) where
  channelMap : Finmap fun _ : Int => C
  epoll : Finmap fun _ : Int => UInt32 × C

/-- The calls of a poller's owner. `Delete` meets each channel idle or not, as `isIdle` says then. -/
inductive PollerCall (C : Type*) where
  | Add (channel : C)
  | Mod (channel : C) (op : UInt32)
  | Delete (channel : C) (isIdle : C → Bool)

namespace Poller

def empty : Poller C := ⟨∅, ∅⟩

variable (GetFd : C → Int)

def Add (p : Poller C) (channel : C) : Poller C :=
  let cFd := GetFd channel
  { channelMap := p.channelMap.insert cFd channel
    epoll := p.epoll.insert cFd (Channel.kNoneEvent, channel) }

def Mod (p : Poller C) (channel : C) (op : UInt32) : Poller C :=
  let cFd := GetFd channel
  { channelMap := p.channelMap.insert cFd channel
    epoll := p.epoll.insert cFd (op, channel) }

def Delete (p : Poller C) (channel : C) : Poller C :=
  let cFd := GetFd channel
  { channelMap := p.channelMap.erase cFd
    epoll := p.epoll.erase cFd }

/-- The value that is returned, if one is: where the descriptor is not found, control leaves the
function at its end. -/
def Find (p : Poller C) (channel : Option C) : Option Bool :=
  match channel with
  | some channel => if GetFd channel ∈ p.channelMap then some true else none
  | none => some false

/-- `EventLoop::HasChannel`. -/
def HasChannel (p : Poller C) (channel : Option C) : Option Bool := p.Find GetFd channel

def step (p : Poller C) : PollerCall C → Poller C
  | .Add channel => p.Add GetFd channel
  | .Mod channel op => p.Mod GetFd channel op
  | .Delete channel _ => p.Delete GetFd channel

/-- The assertions that the call meets. -/
def Asserts (p : Poller C) : PollerCall C → Prop
  | .Add channel => GetFd channel ∉ p.channelMap
  | .Mod channel _ => GetFd channel ∈ p.channelMap
  | .Delete channel isIdle => ∃ stored, p.channelMap.lookup (GetFd channel) = some stored ∧ isIdle stored

instance (p : Poller C) : DecidablePred (p.Asserts GetFd)
  | .Add channel => inferInstanceAs (Decidable (GetFd channel ∉ p.channelMap))
  | .Mod channel _ => inferInstanceAs (Decidable (GetFd channel ∈ p.channelMap))
  | .Delete channel isIdle =>
      match h : p.channelMap.lookup (GetFd channel) with
      | some stored => decidable_of_iff (isIdle stored = true) (by simp [Asserts, h])
      | none => isFalse (by simp [Asserts, h])

end Poller

namespace PollerCall

/-- The call adds such a channel. -/
def Adds (which : C → Prop) : PollerCall C → Prop
  | Add channel => which channel
  | _ => False

/-- The call deletes such a channel. -/
def Deletes (which : C → Prop) : PollerCall C → Prop
  | Delete channel _ => which channel
  | _ => False

instance (which : C → Prop) [DecidablePred which] : DecidablePred (Adds which)
  | Add channel => inferInstanceAs (Decidable (which channel))
  | Mod _ _ | Delete _ _ => isFalse id

instance (which : C → Prop) [DecidablePred which] : DecidablePred (Deletes which)
  | Delete channel _ => inferInstanceAs (Decidable (which channel))
  | Add _ | Mod _ _ => isFalse id

end PollerCall

namespace Poller

variable (GetFd : C → Int) {calls : List (PollerCall C)}

/-- This very channel was added, and it has not been deleted since. -/
def Registered (channel : C) (calls : List (PollerCall C)) : Prop :=
  Since (PollerCall.Adds (· = channel)) (PollerCall.Deletes (· = channel)) calls

/-- A channel of the descriptor was added, and none has been deleted since. -/
def InUse (fd : Int) (calls : List (PollerCall C)) : Prop :=
  Since (PollerCall.Adds (GetFd · = fd)) (PollerCall.Deletes (GetFd · = fd)) calls

/-- `Find` returns a value, which tells whether the channel is registered. -/
def LookupAgrees (calls : List (PollerCall C)) (channel : C) : Prop :=
  ∃ found, (calls.foldl (step GetFd) empty).Find GetFd (some channel) = some found ∧
    (calls.foldl (step GetFd) empty).HasChannel GetFd (some channel) = some found ∧
    (found = true ↔ Registered channel calls)

theorem mem_step {p : Poller C} {call : PollerCall C} (h : p.Asserts GetFd call) (fd : Int) :
    fd ∈ (p.step GetFd call).channelMap ↔
      call.Adds (GetFd · = fd) ∨ fd ∈ p.channelMap ∧ ¬ call.Deletes (GetFd · = fd) := by
  cases call with
  | Add channel =>
    rw [step, Add, Finmap.mem_insert, eq_comm]
    exact or_congr_right (and_iff_left id).symm
  | Mod channel op =>
    have hmem : fd = GetFd channel ∨ fd ∈ p.channelMap ↔ fd ∈ p.channelMap :=
      or_iff_right_of_imp fun hfd => hfd ▸ h
    rw [step, Mod, Finmap.mem_insert, hmem]
    exact ((or_iff_right id).trans (and_iff_left id)).symm
  | Delete channel isIdle =>
    rw [step, Delete, Finmap.mem_erase, and_comm, ne_comm]
    exact (or_iff_right id).symm

/-- The map has the descriptors that are in use. -/
theorem mem_channelMap_iff (h : Along (step GetFd) (Asserts GetFd) empty calls) (fd : Int) :
    fd ∈ (calls.foldl (step GetFd) empty).channelMap ↔ InUse GetFd fd calls :=
  h.since_iff (P := fun p => fd ∈ p.channelMap) Finmap.notMem_empty fun _ _ hasserts =>
    mem_step GetFd hasserts fd

theorem find_eq (h : Along (step GetFd) (Asserts GetFd) empty calls) (channel : C)
    [Decidable (InUse GetFd (GetFd channel) calls)] :
    (calls.foldl (step GetFd) empty).Find GetFd (some channel) =
      if InUse GetFd (GetFd channel) calls then some true else none := by
  rw [Find]
  exact if_congr (mem_channelMap_iff GetFd h _) rfl rfl

/-- In every sequence of calls that meets its assertions, `Find` tells whether a channel is registered
exactly for the registered channels whose descriptor is in use. -/
theorem lookupAgrees_iff (h : Along (step GetFd) (Asserts GetFd) empty calls) (channel : C) :
    LookupAgrees GetFd calls channel ↔ Registered channel calls ∧ InUse GetFd (GetFd channel) calls := by
  classical
  rw [LookupAgrees, HasChannel, find_eq GetFd h]
  constructor
  · intro ⟨found, hfind, _, hfound⟩
    by_cases huse : InUse GetFd (GetFd channel) calls
    · rw [if_pos huse] at hfind
      obtain rfl := Option.some.inj hfind
      exact ⟨hfound.mp rfl, huse⟩
    · rw [if_neg huse] at hfind
      cases hfind
  · intro ⟨hregistered, huse⟩
    rw [if_pos huse]
    exact ⟨true, rfl, rfl, fun _ => hregistered, fun _ => rfl⟩

/-- Two channels that have the descriptor 5 in turn. -/
def descriptorTwice : List (PollerCall Nat) :=
  [.Add 1, .Mod 1 4, .Delete 1 fun _ => true, .Add 2, .Mod 2 4]

theorem lookupAgrees_iff_five :
    LookupAgrees (fun _ => 5) descriptorTwice 2 ∧ ¬ LookupAgrees (fun _ => 5) descriptorTwice 1 := by
  have hasserts : Along (step fun _ => 5) (Asserts fun _ => 5) empty descriptorTwice := by decide +kernel
  constructor
  · rw [lookupAgrees_iff _ hasserts, Registered, InUse]
    decide
  · rw [lookupAgrees_iff _ hasserts, Registered, InUse]
    decide

/-- Whatever the channels are, after every sequence of calls that meets its assertions. -/
def AlwaysLookupAgrees : Prop :=
  ∀ (C : Type) (GetFd : C → Int) (calls : List (PollerCall C)), Along (step GetFd) (Asserts GetFd) empty calls →
    ∀ channel, LookupAgrees GetFd calls channel

/-- For a channel that was never added no value is returned. -/
theorem alwaysLookupAgrees_never_added : ¬ AlwaysLookupAgrees := by
  intro hclaim
  obtain ⟨found, hfind, _⟩ := hclaim Int id [] trivial 5
  have hmem : (5 : Int) ∉ (empty : Poller Int).channelMap := Finmap.notMem_empty
  rw [List.foldl_nil, Find, id, if_neg hmem] at hfind
  cases hfind

end Poller
end Knpnl.Event
