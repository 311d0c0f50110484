import Knpnl.Base.BufferRead

/-!
# A read as one append

`readFd` may take what the socket offers in several pieces, and move the unread bytes between two of
them. What it leaves could also have come from one append to a buffer with the same unread bytes, so
what is known of appends is known of reads.
-/
namespace Knpnl.Base

open Lib.CString (Bytes)

/-- Storing what is there already. -/
theorem poke_same (front : Bytes) {mem bs rest : Bytes} (hmem : mem = front ++ bs ++ rest) :
    FixedBuffer.poke mem front.length bs = mem := by
  subst hmem
  unfold FixedBuffer.poke
  rw [Int.toNat_natCast, List.append_assoc, List.append_assoc, List.take_left, ← List.drop_drop, List.drop_left,
    List.drop_left]

namespace FixedBuffer

variable {b : FixedBuffer} {u bs : Bytes}

/-- The memory around the unread bytes. -/
theorem Ok.mem_eq (h : b.Ok) :
    b.mem = b.mem.take b.mReadPtr.toNat ++ b.unread ++ b.mem.drop b.mWritePtr.toNat := by
  have hused := h.used_eq
  have hstop : b.mWritePtr.toNat = b.mReadPtr.toNat + b.used := by
    have := h.start_le
    have := h.ordered
    omega
  rw [unread, text, List.append_assoc, hstop, ← List.drop_drop, List.take_append_drop, List.take_append_drop]

/-- The last `n` of the unread bytes taken back. -/
def unput (b : FixedBuffer) (n : Nat) : FixedBuffer := { b with mWritePtr := b.mWritePtr - n }

theorem Ok.unput (h : b.Ok) (hu : b.unread = u ++ bs) :
    (b.unput bs.length).Ok ∧ (b.unput bs.length).unread = u := by
  have hused := h.used_eq
  have hlen := h.unread_length
  rw [hu, List.length_append] at hlen
  have hok : (b.unput bs.length).Ok := by
    obtain ⟨hm, hc, h0, ho, he⟩ := h
    refine ⟨hm, hc, h0, ?_, ?_⟩
    · show b.mReadPtr ≤ b.mWritePtr - bs.length
      omega
    · show b.mWritePtr - bs.length ≤ b.cap
      omega
  have hleft : (b.unput bs.length).used = u.length := by
    rw [hok.used_eq]
    show (b.mWritePtr - bs.length - b.mReadPtr).toNat = u.length
    omega
  refine ⟨hok, ?_⟩
  have htake : b.unread.take u.length = u := by rw [hu, List.take_left]
  rw [unread, hleft]
  rw [unread, List.take_take, Nat.min_eq_left (by omega)] at htake
  exact htake

/-- They are put back where they were. -/
theorem Ok.put_unput (h : b.Ok) (hu : b.unread = u ++ bs) : (b.unput bs.length).put bs = b := by
  have hmem := h.mem_eq
  have hused := h.used_eq
  have hlen := h.unread_length
  rw [hu, List.length_append] at hlen
  have hat : (b.mWritePtr - bs.length : Int) = ((b.mem.take b.mReadPtr.toNat ++ u).length : Nat) := by
    obtain ⟨hm, hc, h0, ho, he⟩ := h
    rw [List.length_append, List.length_take, hm]
    omega
  rw [hu, ← List.append_assoc] at hmem
  have hpoke : poke b.mem (b.mWritePtr - bs.length) bs = b.mem := by
    rw [hat]
    exact poke_same _ hmem
  unfold FixedBuffer.put FixedBuffer.unput
  dsimp only
  rw [hpoke, Int.sub_add_cancel]

/-- A buffer that has no bytes before the unread ones is compact. -/
theorem Ok.compact_eq (h : b.Ok) (hread : b.mReadPtr = 0) : b.compact = b := by
  have hmem := h.mem_eq
  have hused := h.used_eq
  rw [hread] at hmem
  have hpoke : poke b.mem 0 b.unread = b.mem := poke_same [] hmem
  have hwrite : (b.used : Int) = b.mWritePtr := by
    have := h.ordered
    omega
  unfold FixedBuffer.compact
  rw [hpoke, hwrite, ← hread]

/-- A buffer with a free tail, or with no room at all, could have come from one append. -/
theorem Ok.exists_append (h : b.Ok) (hu : b.unread = u ++ bs) (hroom : 0 < b.tail ∨ b.avail = 0) :
    ∃ b₀ : FixedBuffer, b₀.Ok ∧ b₀.cap = b.cap ∧ b₀.unread = u ∧ (b₀.append bs).buf = b := by
  obtain ⟨hok, hunread⟩ := h.unput hu
  refine ⟨b.unput bs.length, hok, rfl, hunread, ?_⟩
  have hput := h.put_unput hu
  have htail : (b.unput bs.length).tail = b.tail + bs.length := by
    rw [hok.tail_eq, h.tail_eq]
    have := h.le_end
    show ((b.cap : Int) - (b.mWritePtr - bs.length)).toNat = _
    omega
  unfold FixedBuffer.append
  by_cases hfree : 0 < b.tail
  · rw [if_pos (by omega)]
    exact hput
  · have hfull := hroom.resolve_left hfree
    have hstart : b.mReadPtr = 0 := by
      have hused := h.used_eq
      have havail := h.avail_eq
      obtain ⟨_, _, h0, ho, he⟩ := h
      omega
    have hfits : bs.length ≤ (b.unput bs.length).avail := by
      have := hok.tail_le_avail
      omega
    rw [if_neg (by omega), if_pos hfits]
    show (b.unput bs.length).compact.put bs = b
    rw [hok.compact_eq hstart, hput]

end FixedBuffer

/-- The loop stops with a free tail, or with no room at all. -/
theorem ReadLoop.run_room (fuel : Nat) (s : ReadLoop) (h : s.buf.Ok)
    (hf : s.buf.avail + s.buf.movable < fuel) :
    0 < (run fuel s).2.buf.tail ∨ (run fuel s).2.buf.avail = 0 :=
  run_induction (motive := fun _ r => 0 < r.2.buf.tail ∨ r.2.buf.avail = 0) (fun _ _ hfull => Or.inr hfull)
    (fun _ _ _ _ _ htail _ => Or.inl htail) (fun _ _ _ _ _ hr => hr) (fun _ _ _ _ _ _ _ _ hr => hr) fuel s h hf

/-- What a read leaves. -/
theorem FixedBuffer.Ok.readFd_append {b : FixedBuffer} (h : b.Ok) (script : List Recv) :
    ∃ b₀ : FixedBuffer, b₀.Ok ∧ b₀.cap = b.cap ∧ b₀.unread = b.unread ∧
      (b₀.append (offer script b.avail).bytes).buf = (b.readFd script).last.buf := by
  obtain ⟨took, _⟩ := h.readFd script
  have hroom : 0 < (b.readFd script).last.buf.tail ∨ (b.readFd script).last.buf.avail = 0 := by
    unfold FixedBuffer.readFd
    by_cases hav : b.avail = 0
    · rw [if_pos hav]
      exact Or.inr hav
    · have hfuel : b.avail + b.movable < b.avail + 2 := by
        unfold movable
        split <;> omega
      have hrun := ReadLoop.run_room (b.avail + 2) (b.startRead script) h hfuel
      rw [if_neg hav]
      generalize (b.startRead script).run (b.avail + 2) = r at hrun
      obtain ⟨e, last⟩ := r
      cases e <;> exact hrun
  obtain ⟨b₀, hok, hcap, hunread, happend⟩ := took.ok.exists_append took.unread hroom
  exact ⟨b₀, hok, hcap.trans took.cap, hunread, happend⟩

end Knpnl.Base
