import Knpnl.Base.BufferRead
import Knpnl.Lib.BoundedFifo

/-!
# `FixedBuffer` is a bounded byte queue

The unread bytes are the items of a `BoundedFifo`: `append` is a push, `readFd` a
fill from the socket's bytes, `readPtrMove` a pop. The three paths of `append` (write
at the tail, compact first, refuse) and the compacting loop of `readFd` all agree
with that one queue, over any sequence of operations.
-/
namespace Knpnl.Base

open Lib
open Lib.CString (Bytes)

/-- The bytes a socket delivers before its first answer without any. -/
def stream : List Recv → Bytes
  | .data (c :: bs) :: rest => c :: bs ++ stream rest
  | _ => []

theorem offer_bytes (script : List Recv) (free : Nat) :
    (offer script free).bytes = (stream script).take free := by
  induction script generalizing free with
  | nil => cases free <;> simp [offer, stream]
  | cons a rest ih =>
    cases free with
    | zero => simp
    | succ free =>
      rcases a with (_ | ⟨c, bs⟩) | _ | _
      · simp [offer, stream]
      · simp only [offer, stream]
        split
        · rename_i hle
          simp [List.take_append, ih, List.take_of_length_le hle]
        · rename_i hgt
          simp only [List.cons_append, List.take_succ_cons]
          rw [List.take_append_of_le_length (by omega)]
      · simp [offer, stream]
      · simp [offer, stream]

namespace FixedBuffer

/-- `append` takes all of `str` exactly when it fits, and changes nothing otherwise. -/
structure Append (b : FixedBuffer) (str : Bytes) : Prop where
  accepts : str.length ≤ b.cap - b.used →
    (b.append str).ret = str.length ∧ (b.append str).buf.unread = b.unread ++ str
  refuses : ¬ str.length ≤ b.cap - b.used → (b.append str).ret = 0 ∧ (b.append str).buf = b
  ok : (b.append str).buf.Ok
  cap : (b.append str).buf.cap = b.cap
  writes : ∀ w ∈ (b.append str).writes, w.stop ≤ b.cap

theorem Ok.append {b : FixedBuffer} (h : b.Ok) (str : Bytes) : Append b str := by
  have hav := h.avail_eq
  have htl := h.tail_le_avail
  by_cases htail : b.tail > str.length
  · have hout : b.append str = ⟨str.length, b.put str, [.copyIn b.mWritePtr str.length]⟩ := by
      simp [FixedBuffer.append, htail]
    obtain ⟨hok, hunread⟩ := h.put (show str.length ≤ b.tail by omega)
    have hstop : b.mWritePtr + str.length ≤ b.cap := by have := h.tail_eq; omega
    refine ⟨fun _ => by rw [hout]; exact ⟨rfl, hunread⟩, fun hn => by omega, by rw [hout]; exact hok,
      by rw [hout]; rfl, ?_⟩
    intro w hw
    rw [hout] at hw
    obtain rfl := List.mem_singleton.mp hw
    exact hstop
  · by_cases hfit : b.avail ≥ str.length
    · have hout : b.append str = ⟨str.length, b.compact.put str,
          [.move 0 b.mReadPtr b.used, .copyIn b.compact.mWritePtr str.length]⟩ := by
        simp [FixedBuffer.append, htail, hfit]
      obtain ⟨hcok, hcun, _, hct⟩ := h.compact
      obtain ⟨hok, hunread⟩ := hcok.put (show str.length ≤ b.compact.tail by omega)
      refine ⟨fun _ => by rw [hout]; exact ⟨rfl, hcun ▸ hunread⟩, fun hn => by omega,
        by rw [hout]; exact hok, by rw [hout]; rfl, ?_⟩
      intro w hw
      rw [hout] at hw
      have hu := h.used_le
      simp only [List.mem_cons, List.not_mem_nil, or_false] at hw
      rcases hw with rfl | rfl
      · simp only [Write.stop]; omega
      · simp only [Write.stop, FixedBuffer.compact]; omega
    · have hout : b.append str = ⟨0, b, []⟩ := by simp [FixedBuffer.append, htail, hfit]
      exact ⟨fun hn => by omega, fun _ => by rw [hout]; exact ⟨rfl, rfl⟩, by rw [hout]; exact h,
        by rw [hout], by rw [hout]; simp⟩

/-- An append that returns the length of `str` has stored it. -/
theorem Append.unread_of_ret {b : FixedBuffer} {str : Bytes} (h : Append b str)
    (hret : (b.append str).ret = str.length) : (b.append str).buf.unread = b.unread ++ str := by
  by_cases hfit : str.length ≤ b.cap - b.used
  · exact (h.accepts hfit).2
  · have h0 := (h.refuses hfit).1
    omega

/-- No append takes unread bytes away. -/
theorem Append.used_le {b : FixedBuffer} {str : Bytes} (h : Append b str) (hok : b.Ok) :
    b.used ≤ (b.append str).buf.used := by
  by_cases hfit : str.length ≤ b.cap - b.used
  · rw [← hok.unread_length, ← h.ok.unread_length, (h.accepts hfit).2, List.length_append]
    exact Nat.le_add_right _ _
  · rw [(h.refuses hfit).2]

end FixedBuffer

inductive BufferOp where
  | append (str : Bytes)
  | readFd (script : List Recv)
  | readPtrMove (n : Int)
  | reset

namespace BufferOp

def run (b : FixedBuffer) : BufferOp → FixedBuffer
  | append str => (b.append str).buf
  | readFd script => (b.readFd script).last.buf
  | readPtrMove n => (b.readPtrMove n).2
  | reset => b.reset

def writes (b : FixedBuffer) : BufferOp → List Write
  | append str => (b.append str).writes
  | readFd script => (b.readFd script).last.writes
  | readPtrMove _ | reset => []

/-- A read move stays within the unread bytes. -/
def Legal (b : FixedBuffer) : BufferOp → Prop
  | readPtrMove n => 0 ≤ n ∧ n ≤ b.used
  | _ => True

instance (b : FixedBuffer) (op : BufferOp) : Decidable (op.Legal b) := by
  cases op <;> unfold Legal <;> infer_instance

/-- What the operation means for the queue of unread bytes. -/
def spec {cap : Nat} (q : BoundedFifo UInt8 cap) : BufferOp → BoundedFifo UInt8 cap
  | append str => q.push str
  | readFd script => q.fill (stream script)
  | readPtrMove n => q.pop n.toNat
  | reset => .empty

end BufferOp

def runOps (b : FixedBuffer) (ops : List BufferOp) : FixedBuffer := ops.foldl BufferOp.run b

def specOps {cap : Nat} (q : BoundedFifo UInt8 cap) (ops : List BufferOp) : BoundedFifo UInt8 cap :=
  ops.foldl BufferOp.spec q

def LegalRun : FixedBuffer → List BufferOp → Prop
  | _, [] => True
  | b, op :: ops => op.Legal b ∧ LegalRun (op.run b) ops

instance decidableLegalRun : (b : FixedBuffer) → (ops : List BufferOp) → Decidable (LegalRun b ops)
  | _, [] => isTrue trivial
  | b, op :: ops =>
      have := decidableLegalRun (op.run b) ops
      inferInstanceAs (Decidable (op.Legal b ∧ LegalRun (op.run b) ops))

/-- The buffer's unread bytes are the items of the queue. -/
structure Represents {cap : Nat} (b : FixedBuffer) (q : BoundedFifo UInt8 cap) : Prop where
  ok : b.Ok
  cap_eq : b.cap = cap
  items : b.unread = q.items

namespace Represents

variable {cap : Nat} {b : FixedBuffer} {q : BoundedFifo UInt8 cap}

theorem free_eq (h : Represents b q) : q.free = b.cap - b.used := by
  rw [BoundedFifo.free, ← h.items, h.ok.unread_length, h.cap_eq]

theorem append (h : Represents b q) (str : Bytes) :
    Represents (b.append str).buf (q.push str) := by
  obtain ⟨hacc, href, hok, hcap, _⟩ := h.ok.append str
  by_cases hfit : str.length ≤ b.cap - b.used
  · refine ⟨hok, hcap.trans h.cap_eq, ?_⟩
    rw [(hacc hfit).2, BoundedFifo.items_push (h.free_eq ▸ hfit), h.items]
  · rw [(href hfit).2, BoundedFifo.push_refused (h.free_eq ▸ hfit)]
    exact h

theorem readFd (h : Represents b q) (script : List Recv) :
    Represents (b.readFd script).last.buf (q.fill (stream script)) := by
  have ht := (h.ok.readFd script).took
  refine ⟨ht.ok, ht.cap.trans h.cap_eq, ?_⟩
  rw [ht.unread, BoundedFifo.items_fill, ← h.items, h.free_eq, ← h.ok.avail_eq]
  exact congrArg _ (offer_bytes script b.avail)

theorem readPtrMove (h : Represents b q) {n : Int} (h0 : 0 ≤ n) (hn : n ≤ b.used) :
    Represents (b.readPtrMove n).2 (q.pop n.toNat) := by
  obtain ⟨k, rfl⟩ := Int.eq_ofNat_of_zero_le h0
  obtain ⟨_, hok, hunread⟩ := h.ok.readPtrMove (n := k) (by omega)
  refine ⟨hok, ?_, by rw [hunread, h.items]; rfl⟩
  rw [← h.cap_eq, FixedBuffer.readPtrMove]
  split <;> rfl

theorem reset (h : Represents b q) : Represents b.reset (.empty : BoundedFifo UInt8 cap) :=
  ⟨h.ok.reset, h.cap_eq, h.ok.unread_reset⟩

/-- One legal operation on the buffer is the operation on the queue. -/
theorem step (h : Represents b q) (op : BufferOp) (hop : op.Legal b) :
    Represents (op.run b) (op.spec q) := by
  cases op with
  | append str => exact h.append str
  | readFd script => exact h.readFd script
  | readPtrMove n => exact h.readPtrMove hop.1 hop.2
  | reset => exact h.reset

theorem runOps (h : Represents b q) (ops : List BufferOp) (hops : LegalRun b ops) :
    Represents (Knpnl.Base.runOps b ops) (specOps q ops) := by
  induction ops generalizing b q with
  | nil => exact h
  | cons op ops ih => exact ih (h.step op hops.1) hops.2

theorem writes (h : Represents b q) (op : BufferOp) : ∀ w ∈ op.writes b, w.stop ≤ cap := by
  intro w hw
  rw [← h.cap_eq]
  cases op with
  | append str => exact (h.ok.append str).writes w hw
  | readFd script =>
    rcases (h.ok.readFd script).took.writes w hw with hold | hstop
    · simp [FixedBuffer.startRead] at hold
    · exact hstop
  | readPtrMove n => simp [BufferOp.writes] at hw
  | reset => simp [BufferOp.writes] at hw

end Represents

/-- `readFd` returns, within the free space it met, having compacted at most once. -/
structure ReadBounded (b : FixedBuffer) (script : List Recv) : Prop where
  returns : (b.readFd script).ended ≠ .unfinished
  moves : (b.readFd script).last.moves ≤ 1
  recvs : (b.readFd script).last.recvs ≤ b.cap - b.used
  received : (b.readFd script).last.received = (stream script).take (b.cap - b.used)

theorem FixedBuffer.Ok.readBounded {b : FixedBuffer} (h : b.Ok) (script : List Recv) :
    ReadBounded b script := by
  have ht := (h.readFd script).took
  have hm : b.movable ≤ 1 := by unfold movable; split <;> omega
  have hav := h.avail_eq
  refine ⟨?_, ?_, ?_, ?_⟩
  · have he := ht.ended
    simp only at he
    rw [he]
    exact offer_not_unfinished _ _
  · have := ht.moves
    simp only [startRead] at this
    omega
  · have := ht.recvs
    simp only [startRead] at this
    omega
  · rw [ht.received, ← hav]
    simpa [startRead] using offer_bytes script b.avail

/-- Everything promised of a buffer that holds the queue `q`. -/
structure BoundedByteFifo {cap : Nat} (b : FixedBuffer) (q : BoundedFifo UInt8 cap) : Prop where
  pointers : 0 ≤ b.mReadPtr ∧ b.mReadPtr ≤ b.mWritePtr ∧ b.mWritePtr ≤ cap
  size : b.cap = cap ∧ b.mem.length = cap
  unread : b.unread = q.items
  append : ∀ str, FixedBuffer.Append b str
  writes : ∀ op : BufferOp, ∀ w ∈ op.writes b, w.stop ≤ cap
  readFd : ∀ script, ReadBounded b script

/-- A new buffer is a bounded byte queue after any legal sequence of operations. -/
theorem fixedBuffer_boundedFifo (mem : Bytes) (hcap : mem.length < 2 ^ 31) (ops : List BufferOp)
    (hops : LegalRun (.fresh mem) ops) :
    BoundedByteFifo (runOps (.fresh mem) ops)
      (specOps (.empty : BoundedFifo UInt8 mem.length) ops) := by
  have hok := FixedBuffer.fresh_ok hcap
  have hstart : Represents (.fresh mem) (.empty : BoundedFifo UInt8 mem.length) :=
    ⟨hok, rfl, FixedBuffer.unread_fresh hcap⟩
  have hr := hstart.runOps ops hops
  refine ⟨⟨hr.ok.start_le, hr.ok.ordered, ?_⟩, ⟨hr.cap_eq, ?_⟩, hr.items, hr.ok.append,
    hr.writes, hr.ok.readBounded⟩
  · have := hr.ok.le_end
    rwa [hr.cap_eq] at this
  · exact hr.ok.mem_length.trans hr.cap_eq

/-- All four operations, with a compaction in `append` and a full buffer in `readFd`. -/
theorem fixedBuffer_boundedFifo_four :
    BoundedByteFifo
      (runOps (.fresh [9, 9, 9, 9])
        [.append [1, 2, 3], .readPtrMove 2, .append [4, 5], .readFd [.data [6, 7], .eagain], .reset])
      (specOps (.empty : BoundedFifo UInt8 4)
        [.append [1, 2, 3], .readPtrMove 2, .append [4, 5], .readFd [.data [6, 7], .eagain], .reset]) :=
  fixedBuffer_boundedFifo [9, 9, 9, 9] (by decide) _ (by decide +kernel)

end Knpnl.Base
