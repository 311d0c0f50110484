import Mathlib
import Knpnl.Base.BufferFifo
import Knpnl.Lib.Reach

/-!
# Moving the unread bytes to the front

`append` and `readFd` compact the buffer with `memcpy`, which must not be given ranges that
overlap. They compact whenever the space behind `mWritePtr` has run out, however little has been
read before that.
-/
namespace Knpnl.Base

open Lib
open Lib.CString (Bytes)

/-- The source and the target of a move of at least one byte do not overlap. -/
def Write.Apart : Write → Prop
  | .move dst src len => len ≠ 0 → Disjoint (Set.Ico src (src + len)) (Set.Ico dst (dst + len))
  | .copyIn _ _ | .recvInto _ _ => True

theorem Write.apart_front {src : Int} {len : Nat} :
    (Write.move 0 src len).Apart ↔ len = 0 ∨ (len : Int) ≤ src ∨ src + len ≤ 0 := by
  rw [Write.Apart, Set.Ico_disjoint_Ico]
  omega

/-- A socket's bytes may be taken in two calls. -/
theorem stream_leave {bs : Bytes} (hbs : bs ≠ []) (len : Nat) (rest : List Recv) :
    stream (.data bs :: rest) = bs.take len ++ stream (leave bs len rest) := by
  obtain ⟨c, cs, rfl⟩ := List.exists_cons_of_ne_nil hbs
  unfold leave
  split
  · rename_i hshort
    rw [List.take_of_length_le hshort, stream]
  · rename_i hlong
    obtain ⟨d, ds, hd⟩ := List.exists_cons_of_ne_nil (l := (c :: cs).drop len)
      (by simp only [ne_eq, List.drop_eq_nil_iff]; omega)
    rw [hd, stream, stream, ← hd, ← List.append_assoc, List.take_append_drop]

namespace ReadLoop

/-- The socket fills the tail of a buffer of which a part, and not all, has been read. -/
def FillsTail (s : ReadLoop) : Prop :=
  0 < s.buf.mReadPtr ∧ s.buf.mReadPtr < s.buf.cap ∧ s.buf.tail ≤ (stream s.script).length

/-- The writes so far are apart, and if the loop will compact, that is apart too. -/
def StaysApart (s : ReadLoop) : Prop :=
  (∀ w ∈ s.writes, w.Apart) ∧ (s.FillsTail → (s.buf.cap : Int) ≤ 2 * s.buf.mReadPtr)

variable {s : ReadLoop} {r : ReadEnd × ReadLoop}

theorem apart_concat {l : List Write} {w : Write} :
    (∀ v ∈ l ++ [w], v.Apart) ↔ (∀ v ∈ l, v.Apart) ∧ w.Apart := by
  simp [or_imp, forall_and]

theorem apart_full (h : s.buf.Ok) (hav : s.buf.avail = 0) : (∀ w ∈ s.writes, w.Apart) ↔ s.StaysApart := by
  have havail := h.avail_eq
  have hused := h.used_eq
  have hend := h.le_end
  refine (and_iff_left fun hfills => ?_).symm
  have hpos := hfills.1
  omega

theorem apart_none (hav : 0 < s.buf.avail) (ht : 0 < s.buf.tail) {e : ReadEnd} {rest : List Recv}
    (ho : offer s.script s.buf.avail = ⟨[], e, rest⟩) :
    (∀ w ∈ (s.none rest).writes, w.Apart) ↔ s.StaysApart := by
  rw [none, apart_concat, StaysApart]
  refine and_congr_right fun _ => iff_of_true trivial fun hfills => ?_
  -- nothing is taken, so there is nothing to fill the tail with
  have hempty : stream s.script = [] := by
    have hbytes := offer_bytes s.script s.buf.avail
    rw [ho] at hbytes
    exact (List.take_eq_nil_iff.mp hbytes.symm).resolve_left hav.ne'
  have hfill := hfills.2.2
  rw [hempty, List.length_nil] at hfill
  omega

theorem apart_compact (h : s.buf.Ok) (hav : 0 < s.buf.avail) (ht : s.buf.tail = 0)
    (hr : (∀ w ∈ r.2.writes, w.Apart) ↔ s.compact.StaysApart) :
    (∀ w ∈ r.2.writes, w.Apart) ↔ s.StaysApart := by
  have hused := h.used_eq
  have havail := h.avail_eq
  have htail := h.tail_eq
  have hstart := h.start_le
  have hend := h.le_end
  -- after the move there is nothing before `mReadPtr`
  have hfront : ¬ s.compact.FillsTail := fun hfills => lt_irrefl _ hfills.1
  rw [hr, StaysApart, and_iff_left fun hfills => absurd hfills hfront, compact, apart_concat,
    Write.apart_front, StaysApart, FillsTail]
  refine and_congr_right fun _ => ?_
  omega

theorem apart_took (h : s.buf.Ok) {bs : Bytes} {rest : List Recv} (hbs : bs ≠ [])
    (hs : s.script = .data bs :: rest)
    (hr : (∀ w ∈ r.2.writes, w.Apart) ↔ (s.took (bs.take s.buf.tail) (leave bs s.buf.tail rest)).StaysApart) :
    (∀ w ∈ r.2.writes, w.Apart) ↔ s.StaysApart := by
  have hlen : (bs.take s.buf.tail).length ≤ s.buf.tail := List.length_take_le _ _
  have hput := (h.put hlen).1
  have htail := h.tail_eq
  have htail' := hput.tail_eq
  have hstream := congrArg List.length (stream_leave hbs s.buf.tail rest)
  rw [List.length_append] at hstream
  rw [hr, StaysApart, StaysApart, FillsTail, FillsTail, took, apart_concat, hs, hstream]
  refine and_congr (and_iff_left trivial) (imp_congr ?_ Iff.rfl)
  refine and_congr_right fun _ => and_congr_right fun _ => ?_
  dsimp only
  rw [htail', htail]
  simp only [FixedBuffer.put]
  omega

theorem apart_run (fuel : Nat) (s : ReadLoop) (h : s.buf.Ok) (hf : s.buf.avail + s.buf.movable < fuel) :
    (∀ w ∈ (run fuel s).2.writes, w.Apart) ↔ s.StaysApart :=
  run_induction (motive := fun s r => (∀ w ∈ r.2.writes, w.Apart) ↔ s.StaysApart)
    (fun _ => apart_full) (fun _ _ _ _ hav ht ho => apart_none hav ht ho)
    (fun _ _ hok hav ht hr => apart_compact hok hav ht hr)
    (fun _ _ _ _ hok hbs hs _ hr => apart_took hok hbs hs hr) fuel s h hf

end ReadLoop

namespace FixedBuffer

/-- The moves of the operation are between ranges that do not overlap. -/
def MovesApart (b : FixedBuffer) (op : BufferOp) : Prop := ∀ w ∈ op.writes b, w.Apart

/-- When `append` needs the space in front, no more is unread than has been read, and when `readFd`
does, the reading has reached the second half. -/
def RoomInFront (b : FixedBuffer) : BufferOp → Prop
  | .append str => b.tail ≤ str.length → str.length ≤ b.avail → 0 < b.used → (b.used : Int) ≤ b.mReadPtr
  | .readFd script => (b.startRead script).FillsTail → (b.cap : Int) ≤ 2 * b.mReadPtr
  | .readPtrMove _ | .reset => True

instance (s : ReadLoop) : Decidable s.FillsTail := inferInstanceAs (Decidable (_ ∧ _ ∧ _))

instance (b : FixedBuffer) : (op : BufferOp) → Decidable (b.RoomInFront op)
  | .append _ => inferInstanceAs (Decidable (_ → _ → _ → _))
  | .readFd _ => inferInstanceAs (Decidable (_ → _))
  | .readPtrMove _ | .reset => isTrue trivial

theorem Ok.apart_append {b : FixedBuffer} (h : b.Ok) (str : Bytes) :
    b.MovesApart (.append str) ↔ b.RoomInFront (.append str) := by
  rw [MovesApart, BufferOp.writes, RoomInFront, FixedBuffer.append]
  by_cases htail : b.tail > str.length
  · rw [if_pos htail]
    refine iff_of_true (fun w hw => ?_) fun hle => absurd htail hle.not_gt
    obtain rfl := List.mem_singleton.mp hw
    trivial
  · rw [if_neg htail, forall_prop_of_true (not_lt.mp htail)]
    by_cases hfit : b.avail ≥ str.length
    · rw [if_pos hfit, forall_prop_of_true hfit]
      have hstart := h.start_le
      dsimp only
      rw [List.forall_mem_cons, List.forall_mem_singleton, Write.apart_front]
      refine (and_iff_left trivial).trans ?_
      omega
    · rw [if_neg hfit]
      exact iff_of_true (fun w hw => absurd hw List.not_mem_nil) fun hle => absurd hle hfit

theorem Ok.apart_readFd {b : FixedBuffer} (h : b.Ok) (script : List Recv) :
    b.MovesApart (.readFd script) ↔ b.RoomInFront (.readFd script) := by
  have hstays : (b.startRead script).StaysApart ↔ b.RoomInFront (.readFd script) :=
    and_iff_right fun w hw => absurd hw List.not_mem_nil
  rw [← hstays, MovesApart, BufferOp.writes]
  by_cases hav : b.avail = 0
  · have hout : (b.readFd script).last = b.startRead script := by rw [FixedBuffer.readFd, if_pos hav]
    rw [hout]
    exact ReadLoop.apart_full h hav
  · have hout : (b.readFd script).last = ((b.startRead script).run (b.avail + 2)).2 := by
      unfold FixedBuffer.readFd
      rw [if_neg hav]
      dsimp only
      split <;> rfl
    have hmovable : b.movable ≤ 1 := by unfold movable; split <;> omega
    rw [hout]
    exact ReadLoop.apart_run _ _ h (show b.avail + b.movable < b.avail + 2 by omega)

theorem Ok.movesApart_iff {b : FixedBuffer} (h : b.Ok) (op : BufferOp) :
    b.MovesApart op ↔ b.RoomInFront op := by
  cases op with
  | append str => exact h.apart_append str
  | readFd script => exact h.apart_readFd script
  | readPtrMove n => exact iff_of_true (fun w hw => absurd hw List.not_mem_nil) trivial
  | reset => exact iff_of_true (fun w hw => absurd hw List.not_mem_nil) trivial

theorem Ok.runOp {b : FixedBuffer} (h : b.Ok) {op : BufferOp} (hop : op.Legal b) : (op.run b).Ok := by
  cases op with
  | append str => exact (h.append str).ok
  | readFd script => exact (h.readFd script).took.ok
  | readPtrMove n =>
    obtain ⟨k, rfl⟩ := Int.eq_ofNat_of_zero_le hop.1
    exact (h.readPtrMove (n := k) (Int.ofNat_le.mp hop.2)).2.1
  | reset => exact h.reset

theorem along_legal {b : FixedBuffer} {ops : List BufferOp} (h : LegalRun b ops) :
    Along BufferOp.run (fun b op => op.Legal b) b ops := by
  induction ops generalizing b with
  | nil => trivial
  | cons op ops ih => exact ⟨h.1, ih h.2⟩

/-- In every run of legal operations from a new buffer the moves to the front are between ranges
that do not overlap, if and only if there is always room in front. -/
theorem movesApart_run (mem : Bytes) (hmem : mem.length < 2 ^ 31) (ops : List BufferOp)
    (hops : LegalRun (fresh mem) ops) :
    Along BufferOp.run MovesApart (fresh mem) ops ↔ Along BufferOp.run RoomInFront (fresh mem) ops :=
  along_iff_along (I := FixedBuffer.Ok) (fun _ op h _ => h.movesApart_iff op)
    (fun _ _ h hop _ => h.runOp hop) (fresh_ok hmem) (along_legal hops)

/-- A read that fills the buffer from its middle on, and an append that moves what is left. -/
theorem movesApart_run_middle :
    Along BufferOp.run MovesApart (fresh [9, 9, 9, 9])
        [.append [1, 2, 3], .readPtrMove 2, .readFd [.data [4, 5]], .readPtrMove 3, .append [6, 7, 8]] :=
  (movesApart_run [9, 9, 9, 9] (by decide) _ (by decide +kernel)).mpr (by decide +kernel)

/-- Whatever is appended, received and read. -/
def AlwaysMovesApart : Prop :=
  ∀ (mem : Bytes) (ops : List BufferOp), mem.length = kBufferSize → (∀ op ∈ ops, op ≠ .reset) →
    LegalRun (fresh mem) ops → Along BufferOp.run MovesApart (fresh mem) ops

/-- A byte, and as many as there is room for behind it: the byte is moved onto itself. -/
theorem alwaysMovesApart_full : ¬ AlwaysMovesApart := by
  intro hclaim
  have hmem : (List.replicate 1024 0 : Bytes).length < 2 ^ 31 := by
    rw [List.length_replicate]
    decide
  have hmoves := hclaim (List.replicate 1024 0) [.append [1], .append (List.replicate 1023 2)]
    List.length_replicate (List.forall_mem_cons.mpr ⟨nofun, List.forall_mem_singleton.mpr nofun⟩)
    ⟨trivial, trivial, trivial⟩
  have hroom := ((fresh_ok hmem).append [1]).ok.movesApart_iff (.append (List.replicate 1023 2))
  exact absurd (hroom.mp hmoves.2.1) (by decide +kernel)

end FixedBuffer
end Knpnl.Base
