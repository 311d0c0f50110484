import Knpnl.Base.Buffer
import Knpnl.Base.BufferFifo
import Knpnl.Lib.Reach

/-!
# The order of the pointers of a `FixedBuffer`

`readPtrMove` moves the pointer before it looks where that leads, and `add` asks for free space
anywhere in the buffer and takes it behind `mWritePtr`. So either may take the pointers out of
the order that the header promises, and a move that is refused has been made.
-/
namespace Knpnl.Base

open Lib
open Lib.CString (Bytes)

/-- The calls that move the pointers. -/
inductive PointerCall where
  | append (str : Bytes)
  | add (len : Nat)
  | readPtrMove (len : Int)
  | reset

namespace PointerCall

def run (b : FixedBuffer) : PointerCall → FixedBuffer
  | append str => (b.append str).buf
  | add len => (b.add len).2
  | readPtrMove len => (b.readPtrMove len).2
  | reset => b.reset

/-- The call returns -1. -/
def Refused (b : FixedBuffer) : PointerCall → Prop
  | add len => (b.add len).1 = -1
  | readPtrMove len => (b.readPtrMove len).1 = -1
  | append _ | reset => False

end PointerCall

namespace FixedBuffer

/-- `_buf<=mReadPtr<=mWritePtr<=_end` -/
def Ordered (b : FixedBuffer) : Prop := 0 ≤ b.mReadPtr ∧ b.mReadPtr ≤ b.mWritePtr ∧ b.mWritePtr ≤ b.cap

/-- After the call the pointers are in order, and if it was refused they have not moved. -/
def KeepsOrder (b : FixedBuffer) (c : PointerCall) : Prop :=
  (c.run b).Ordered ∧
    (c.Refused b → (c.run b).mReadPtr = b.mReadPtr ∧ (c.run b).mWritePtr = b.mWritePtr)

/-- A move of the read pointer leads to a place between `_buf` and `mWritePtr`, and what `add` is
free to take is there behind `mWritePtr`. -/
def StaysInside (b : FixedBuffer) : PointerCall → Prop
  | .readPtrMove len => 0 ≤ b.mReadPtr + len ∧ b.mReadPtr + len ≤ b.mWritePtr
  | .add len => len ≤ b.avail → len ≤ b.tail
  | .append _ | .reset => True

instance (b : FixedBuffer) : (c : PointerCall) → Decidable (c.Refused b)
  | .add _ | .readPtrMove _ => inferInstanceAs (Decidable (_ = _))
  | .append _ | .reset => isFalse id

instance (b : FixedBuffer) : (c : PointerCall) → Decidable (b.StaysInside c)
  | .readPtrMove _ => inferInstanceAs (Decidable (_ ∧ _))
  | .add _ => inferInstanceAs (Decidable (_ → _))
  | .append _ | .reset => isTrue trivial

instance (b : FixedBuffer) (c : PointerCall) : Decidable (b.KeepsOrder c) :=
  inferInstanceAs (Decidable ((_ ∧ _ ∧ _) ∧ (_ → _)))

theorem run_add_of_le {b : FixedBuffer} {len : Nat} (h : len ≤ b.avail) :
    (PointerCall.add len).run b = { b with mWritePtr := b.mWritePtr + len } :=
  congrArg Prod.snd (add_of_le h)

theorem run_add_of_lt {b : FixedBuffer} {len : Nat} (h : b.avail < len) : (PointerCall.add len).run b = b :=
  congrArg Prod.snd (add_of_lt h)

theorem run_readPtrMove (b : FixedBuffer) (len : Int) :
    (PointerCall.readPtrMove len).run b = { b with mReadPtr := b.mReadPtr + len } :=
  readPtrMove_snd b len

theorem Ok.ordered_iff {b : FixedBuffer} (h : b.Ok) {r w : Int} :
    ({ b with mReadPtr := r, mWritePtr := w } : FixedBuffer).Ok ↔ 0 ≤ r ∧ r ≤ w ∧ w ≤ b.cap :=
  ⟨fun hok => ⟨hok.start_le, hok.ordered, hok.le_end⟩,
    fun ⟨hstart, hordered, hend⟩ => ⟨h.mem_length, h.cap_int, hstart, hordered, hend⟩⟩

/-- A read move that is refused has moved the pointer. -/
theorem Ok.keepsOrder_readPtrMove {b : FixedBuffer} (h : b.Ok) (len : Int) :
    b.KeepsOrder (.readPtrMove len) ↔ 0 ≤ b.mReadPtr + len ∧ b.mReadPtr + len ≤ b.mWritePtr := by
  have hend := h.le_end
  rw [KeepsOrder, Ordered, run_readPtrMove]
  constructor
  · intro ⟨⟨hstart, hordered, _⟩, _⟩
    exact ⟨hstart, hordered⟩
  · intro hinside
    refine ⟨⟨hinside.1, hinside.2, hend⟩, fun hrefused => ?_⟩
    have hret : (b.readPtrMove len).1 = 0 := by
      unfold FixedBuffer.readPtrMove
      dsimp only
      rw [if_pos hinside]
    exact absurd (hret.symm.trans hrefused) (by decide)

theorem Ok.keepsOrder_add {b : FixedBuffer} (h : b.Ok) (len : Nat) :
    b.KeepsOrder (.add len) ↔ (len ≤ b.avail → len ≤ b.tail) := by
  obtain ⟨hstart, hordered, hend⟩ : b.Ordered := ⟨h.start_le, h.ordered, h.le_end⟩
  rcases le_or_gt len b.avail with hfit | hlarge
  · have htail := h.tail_eq
    have havail := h.avail_eq
    have hcap := h.cap_int
    rw [KeepsOrder, Ordered, run_add_of_le hfit, forall_prop_of_true hfit]
    dsimp only
    constructor
    · intro ⟨⟨_, _, hinside⟩, _⟩
      omega
    · intro hroom
      refine ⟨⟨hstart, by omega, by omega⟩, fun hrefused => ?_⟩
      -- the length that is returned is not -1
      have hret : signed 32 len = len := signed_of_lt (by omega)
      rw [PointerCall.Refused, add_of_le hfit, hret] at hrefused
      omega
  · rw [KeepsOrder, run_add_of_lt hlarge]
    exact iff_of_true ⟨⟨hstart, hordered, hend⟩, fun _ => ⟨rfl, rfl⟩⟩ fun hfit => absurd hlarge hfit.not_gt

theorem Ok.keepsOrder_iff {b : FixedBuffer} (h : b.Ok) (c : PointerCall) :
    b.KeepsOrder c ↔ b.StaysInside c := by
  cases c with
  | append str =>
    have hok := (h.append str).ok
    exact iff_of_true ⟨⟨hok.start_le, hok.ordered, hok.le_end⟩, False.elim⟩ trivial
  | add len => exact h.keepsOrder_add len
  | readPtrMove len => exact h.keepsOrder_readPtrMove len
  | reset =>
    have hok := h.reset
    exact iff_of_true ⟨⟨hok.start_le, hok.ordered, hok.le_end⟩, False.elim⟩ trivial

theorem Ok.run {b : FixedBuffer} (h : b.Ok) {c : PointerCall} (hkeeps : b.KeepsOrder c) : (c.run b).Ok := by
  cases c with
  | append str => exact (h.append str).ok
  | add len =>
    rcases le_or_gt len b.avail with hfit | hlarge
    · rw [KeepsOrder, run_add_of_le hfit] at hkeeps
      rw [run_add_of_le hfit]
      exact h.ordered_iff.mpr hkeeps.1
    · rw [run_add_of_lt hlarge]
      exact h
  | readPtrMove len =>
    rw [KeepsOrder, run_readPtrMove] at hkeeps
    rw [run_readPtrMove]
    exact h.ordered_iff.mpr hkeeps.1
  | reset => exact h.reset

/-- In every run from a new buffer the pointers are in order after every call, and a call that is
refused leaves them alone, if and only if each call stays inside. -/
theorem keepsOrder_run (mem : Bytes) (hmem : mem.length < 2 ^ 31) (calls : List PointerCall) :
    Along PointerCall.run KeepsOrder (fresh mem) calls ↔
      Along PointerCall.run StaysInside (fresh mem) calls :=
  along_iff_along (I := FixedBuffer.Ok) (fun _ c h (_ : True) => h.keepsOrder_iff c)
    (fun _ _ h _ hkeeps => h.run hkeeps) (fresh_ok hmem) (along_of_forall (fun _ _ _ => trivial) _)

/-- All four calls, with an `add` that is refused. -/
theorem keepsOrder_run_four :
    Along PointerCall.run KeepsOrder (fresh [9, 9, 9, 9])
        [.append [1, 2], .add 1, .readPtrMove 2, .add 4, .readPtrMove (-1), .reset] :=
  (keepsOrder_run [9, 9, 9, 9] (by decide) _).mpr (by decide +kernel)

/-- Whatever the arguments are. -/
def AlwaysKeepsOrder : Prop :=
  ∀ (mem : Bytes) (calls : List PointerCall), mem.length = kBufferSize →
    Along PointerCall.run KeepsOrder (fresh mem) calls

/-- The read pointer of a new buffer is moved one byte forward. -/
theorem alwaysKeepsOrder_move : ¬ AlwaysKeepsOrder := by
  intro hclaim
  have hkeeps := (hclaim (List.replicate 1024 0) [.readPtrMove 1] List.length_replicate).1
  revert hkeeps
  decide

end FixedBuffer
end Knpnl.Base
