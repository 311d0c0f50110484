import Knpnl.Base.BufferFifo
import Knpnl.Lib.Reach

/-!
# The regions that a buffer's operations touch

What `append` and `readFd` copy comes from the buffer and stays in it, and `recv` is never allowed
more than the space behind `mWritePtr`.
-/
namespace Knpnl.Base

open Lib
open Lib.CString (Bytes)

/-- What is read and what is overwritten lies in a buffer of `cap` bytes. -/
def Write.Inside (cap : Nat) : Write → Prop
  | .copyIn dst len | .recvInto dst len => 0 ≤ dst ∧ dst + len ≤ cap
  | .move dst src len => (0 ≤ dst ∧ dst + len ≤ cap) ∧ 0 ≤ src ∧ src + len ≤ cap

namespace FixedBuffer

variable {b : FixedBuffer} {cap : Nat}

/-- The space behind `mWritePtr`. -/
theorem Ok.write_inside (h : b.Ok) {len : Nat} (hlen : len ≤ b.tail) :
    0 ≤ b.mWritePtr ∧ b.mWritePtr + len ≤ b.cap := by
  have htail := h.tail_eq
  obtain ⟨_, _, hstart, hordered, hend⟩ := h
  omega

theorem Ok.compact_inside (h : b.Ok) : (Write.move 0 b.mReadPtr b.used).Inside b.cap := by
  have hused := h.used_eq
  obtain ⟨_, _, hstart, hordered, hend⟩ := h
  unfold Write.Inside
  omega

theorem Ok.inside_append (h : b.Ok) (str : Bytes) : ∀ w ∈ (b.append str).writes, w.Inside b.cap := by
  unfold FixedBuffer.append
  split
  · rename_i htail
    exact List.forall_mem_singleton.mpr (h.write_inside (by omega))
  · split
    · rename_i hfit
      obtain ⟨hok, _, _, htail⟩ := h.compact
      exact List.forall_mem_cons.mpr
        ⟨h.compact_inside, List.forall_mem_singleton.mpr (hok.write_inside (by omega))⟩
    · exact fun w hw => absurd hw List.not_mem_nil

/-- The writes of `append` when it is given a `StringPiece`. -/
def pieceWrites (b : FixedBuffer) (str : Bytes) : List Write :=
  let length_ := signed 32 str.length
  if length_ < 0 then [] else (b.append (str.take length_.toNat)).writes

theorem Ok.inside_piece (h : b.Ok) (str : Bytes) : ∀ w ∈ b.pieceWrites str, w.Inside b.cap := by
  unfold pieceWrites
  dsimp only
  split
  · exact fun w hw => absurd hw List.not_mem_nil
  · exact h.inside_append _

end FixedBuffer

namespace ReadLoop

theorem inside_run (fuel : Nat) (s : ReadLoop) (h : s.buf.Ok) (hf : s.buf.avail + s.buf.movable < fuel) :
    (∀ w ∈ s.writes, w.Inside s.buf.cap) → ∀ w ∈ (run fuel s).2.writes, w.Inside s.buf.cap := by
  have append : ∀ {ws : List Write} {w : Write} {cap : Nat}, (∀ v ∈ ws, v.Inside cap) → w.Inside cap →
      ∀ v ∈ ws ++ [w], v.Inside cap := fun hws hw =>
    List.forall_mem_append.mpr ⟨hws, List.forall_mem_singleton.mpr hw⟩
  refine run_induction
    (motive := fun s r => (∀ w ∈ s.writes, w.Inside s.buf.cap) → ∀ w ∈ r.2.writes, w.Inside s.buf.cap)
    (fun _ _ _ hs => hs) ?_ ?_ ?_ fuel s h hf
  · intro s e rest hok _ htail _ hs
    exact append hs (hok.write_inside le_rfl)
  · intro s r hok _ _ hr hs
    exact hr (append hs hok.compact_inside)
  · intro s bs rest r hok _ _ _ hr hs
    exact hr (append hs (hok.write_inside le_rfl))

end ReadLoop

theorem FixedBuffer.Ok.inside_readFd {b : FixedBuffer} (h : b.Ok) (script : List Recv) :
    ∀ w ∈ (b.readFd script).last.writes, w.Inside b.cap := by
  have hnone : ∀ w ∈ (b.startRead script).writes, w.Inside b.cap := fun w hw => absurd hw List.not_mem_nil
  unfold FixedBuffer.readFd
  split
  · exact hnone
  · have hfuel : b.avail + b.movable < b.avail + 2 := by
      unfold movable
      split <;> omega
    have hrun := ReadLoop.inside_run (b.avail + 2) (b.startRead script) h hfuel hnone
    dsimp only
    split <;> exact hrun

end Knpnl.Base
