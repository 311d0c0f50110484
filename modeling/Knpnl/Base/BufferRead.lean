import Knpnl.Base.Buffer

/-!
# What `readFd` takes from a socket

`offer` says, with no memory and no pointers, which bytes a reader with room for
`free` of them takes, why it stops, and what it leaves behind. The loop of `readFd`
computes exactly this on a buffer whose pointers are in order, however `recv` has to
be split at the end of the allocation, and it never runs out of the fuel given to it.
-/
namespace Knpnl.Base

open Lib.CString (Bytes)

structure Offer where
  bytes : Bytes
  ended : ReadEnd
  left : List Recv

/-- The bytes up to the first answer without any, as far as there is room. -/
def offer : List Recv → Nat → Offer
  | script, 0 => ⟨[], .full, script⟩
  | [], _ + 1 => ⟨[], .drained, []⟩
  | .eagain :: rest, _ + 1 => ⟨[], .drained, rest⟩
  | .error :: rest, _ + 1 => ⟨[], .failed, rest⟩
  | .data [] :: rest, _ + 1 => ⟨[], .closed, rest⟩
  | .data (c :: bs) :: rest, free + 1 =>
      if bs.length ≤ free then
        let o := offer rest (free - bs.length)
        ⟨c :: bs ++ o.bytes, o.ended, o.left⟩
      else ⟨(c :: bs).take (free + 1), .full, .data (bs.drop free) :: rest⟩

@[simp] theorem offer_zero (script : List Recv) : offer script 0 = ⟨[], .full, script⟩ := by
  cases script <;> rfl

theorem offer_not_unfinished (script : List Recv) (free : Nat) :
    (offer script free).ended ≠ .unfinished := by
  induction script generalizing free with
  | nil => cases free <;> simp [offer]
  | cons a rest ih =>
    cases free with
    | zero => simp
    | succ free =>
      rcases a with (_ | ⟨c, bs⟩) | _ | _
      · simp [offer]
      · simp only [offer]
        split
        · exact ih _
        · simp
      · simp [offer]
      · simp [offer]

/-- An answer may be taken in two calls without changing what is taken in all. -/
theorem offer_leave {bs : Bytes} (hbs : bs ≠ []) {len free : Nat} (h0 : 0 < len) (hle : len ≤ free)
    (rest : List Recv) :
    offer (.data bs :: rest) free =
      let o := offer (leave bs len rest) (free - (bs.take len).length)
      ⟨bs.take len ++ o.bytes, o.ended, o.left⟩ := by
  obtain ⟨c, bs, rfl⟩ := List.exists_cons_of_ne_nil hbs
  obtain ⟨len, rfl⟩ : ∃ k, len = k + 1 := ⟨len - 1, by omega⟩
  obtain ⟨free, rfl⟩ : ∃ k, free = k + 1 := ⟨free - 1, by omega⟩
  by_cases hshort : bs.length ≤ len
  · have hl : leave (c :: bs) (len + 1) rest = rest := by simp [leave, hshort]
    have ht : (c :: bs).take (len + 1) = c :: bs := List.take_of_length_le (by simpa using hshort)
    rw [hl, ht, offer, if_pos (by omega)]
    simp
  · have hl : leave (c :: bs) (len + 1) rest = .data (bs.drop len) :: rest := by
      simp [leave, hshort]
    have ht : ((c :: bs).take (len + 1)).length = len + 1 := by simp; omega
    rw [hl, ht]
    obtain ⟨d, ds, hd⟩ := List.exists_cons_of_ne_nil (l := bs.drop len)
      (by simp only [ne_eq, List.drop_eq_nil_iff]; omega)
    have hlen : bs.length = len + ds.length + 1 := by
      have := congrArg List.length hd
      simp at this
      omega
    rw [hd]
    by_cases hfit : bs.length ≤ free
    · obtain ⟨more, hmore⟩ : ∃ k, free + 1 - (len + 1) = k + 1 := ⟨free - len - 1, by omega⟩
      rw [hmore, offer, if_pos hfit, offer, if_pos (by omega),
        show more - ds.length = free - bs.length by omega]
      simp only [Offer.mk.injEq, and_true]
      rw [List.take_succ_cons, ← List.append_assoc, ← hd]
      simp
    · rw [offer, if_neg hfit]
      rcases Nat.eq_or_lt_of_le hle with heq | hlt
      · obtain rfl : len = free := by omega
        simp [hd]
      · obtain ⟨more, hmore⟩ : ∃ k, free + 1 - (len + 1) = k + 1 := ⟨free - len - 1, by omega⟩
        have hf : free = len + (more + 1) := by omega
        have hdrop : bs.drop free = ds.drop more := by
          rw [hf, ← List.drop_drop, hd, List.drop_succ_cons]
        have htake : (c :: bs).take (free + 1) =
            (c :: bs).take (len + 1) ++ (d :: ds).take (more + 1) := by
          rw [List.take_succ_cons, List.take_succ_cons, hf, List.take_add, hd]
          rfl
        rw [hmore, offer, if_neg (by omega), htake, hdrop]

/-- At most one compaction is left when the front of the buffer has been consumed. -/
def FixedBuffer.movable (b : FixedBuffer) : Nat := if b.mReadPtr = 0 then 0 else 1

/-- The loop, from `s`, took what the socket offered. -/
structure ReadLoop.Took (s : ReadLoop) (r : ReadEnd × ReadLoop) : Prop where
  ok : r.2.buf.Ok
  cap : r.2.buf.cap = s.buf.cap
  ended : r.1 = (offer s.script s.buf.avail).ended
  left : r.2.script = (offer s.script s.buf.avail).left
  received : r.2.received = s.received ++ (offer s.script s.buf.avail).bytes
  unread : r.2.buf.unread = s.buf.unread ++ (offer s.script s.buf.avail).bytes
  recvs : r.2.recvs ≤ s.recvs + s.buf.avail
  moves : r.2.moves ≤ s.moves + s.buf.movable
  writes : ∀ w ∈ r.2.writes, w ∈ s.writes ∨ w.stop ≤ s.buf.cap

namespace ReadLoop

variable {s : ReadLoop}

theorem stop_recvInto (h : s.buf.Ok) :
    (Write.recvInto s.buf.mWritePtr s.buf.tail).stop ≤ s.buf.cap := by
  have ht := h.tail_eq
  have he := h.le_end
  simp only [Write.stop]
  omega

/-- One more write may be counted among those that end within the buffer. -/
theorem writes_of_concat {l ws : List Write} {v : Write} {cap : Nat}
    (hws : ∀ w ∈ ws, w ∈ l ++ [v] ∨ w.stop ≤ cap) (hv : v.stop ≤ cap) : ∀ w ∈ ws, w ∈ l ∨ w.stop ≤ cap := by
  intro w hw
  rcases hws w hw with hin | hstop
  · rcases List.mem_append.mp hin with hold | hnew
    · exact Or.inl hold
    · exact Or.inr (List.mem_singleton.mp hnew ▸ hv)
  · exact Or.inr hstop

theorem took_none (h : s.buf.Ok) (hav : 0 < s.buf.avail) {e : ReadEnd} {rest : List Recv}
    (ho : offer s.script s.buf.avail = ⟨[], e, rest⟩) : Took s (e, s.none rest) := by
  refine ⟨h, rfl, by rw [ho], by rw [ho]; rfl, by simp [ho, none], by simp [ho, none], ?_, ?_, ?_⟩
  · simp only [none]; omega
  · simp [none]
  · exact writes_of_concat (fun w hw => Or.inl hw) (stop_recvInto h)

theorem took_compact (h : s.buf.Ok) (hav : 0 < s.buf.avail) (ht : s.buf.tail = 0)
    {r : ReadEnd × ReadLoop} (hr : Took s.compact r) : Took s r := by
  obtain ⟨hok, hunread, hused, _⟩ := h.compact
  have havail : s.compact.buf.avail = s.buf.avail := by
    simp only [compact]
    rw [hok.avail_eq, h.avail_eq, hused]
    rfl
  have hread : s.buf.mReadPtr ≠ 0 := by
    intro h0
    have h1 := h.tail_eq
    have h2 := h.avail_eq
    have h3 := h.used_eq
    omega
  obtain ⟨ok, hcap, he, hl, hrec, hu, hn, hm, hw⟩ := hr
  rw [havail] at he hl hrec hu hn
  refine ⟨ok, hcap, he, hl, hrec, hu.trans (by rw [compact, hunread]), hn, ?_, ?_⟩
  · have h0 : s.compact.buf.movable = 0 := by
      simp [FixedBuffer.movable, compact, FixedBuffer.compact]
    have h1 : s.buf.movable = 1 := by simp [FixedBuffer.movable, hread]
    rw [h0] at hm
    rw [h1]
    exact hm
  · refine writes_of_concat hw ?_
    have hle := h.used_le
    simp only [Write.stop]
    omega

theorem took_data (h : s.buf.Ok) {bs : Bytes} {rest : List Recv} (hbs : bs ≠ [])
    (hs : s.script = .data bs :: rest) (ht : 0 < s.buf.tail) {r : ReadEnd × ReadLoop}
    (hr : Took (s.took (bs.take s.buf.tail) (leave bs s.buf.tail rest)) r) : Took s r := by
  have hle := h.tail_le_avail
  have hlen : (bs.take s.buf.tail).length ≤ s.buf.tail := List.length_take_le _ _
  have hpos : 0 < (bs.take s.buf.tail).length := by
    have := List.length_pos_iff.mpr hbs
    simp only [List.length_take]
    omega
  obtain ⟨hok, hput⟩ := h.put hlen
  have havail : (s.buf.put (bs.take s.buf.tail)).avail =
      s.buf.avail - (bs.take s.buf.tail).length := by
    rw [hok.avail_eq, h.avail_eq, ← hok.unread_length, ← h.unread_length, hput,
      List.length_append]
    simp only [FixedBuffer.put]
    omega
  have ho := offer_leave hbs ht hle rest
  obtain ⟨ok, hcap, he, hl, hrec, hu, hn, hm, hw⟩ := hr
  simp only [took, havail] at he hl hrec hu hn hm hw hcap
  rw [← hs] at ho
  refine ⟨ok, hcap, by rw [ho]; exact he, by rw [ho]; exact hl, ?_, ?_, by omega, hm, ?_⟩
  · rw [ho, hrec, List.append_assoc]
  · rw [ho, hu, hput, List.append_assoc]
  · exact writes_of_concat hw (stop_recvInto h)

theorem took_full (h : s.buf.Ok) (hav : s.buf.avail = 0) : Took s (.full, s) := by
  refine ⟨h, rfl, by simp [hav], by simp [hav], by simp [hav], by simp [hav], ?_, ?_, ?_⟩
  · exact Nat.le_add_right _ _
  · exact Nat.le_add_right _ _
  · exact fun w hw => Or.inl hw

/-- What holds of a loop that stops at once, and of one that goes on if it holds of the rest,
holds of every loop that has one round for each byte of free space, one for a compaction and one
to stop. -/
theorem run_induction {motive : ReadLoop → ReadEnd × ReadLoop → Prop}
    (full : ∀ s, s.buf.Ok → s.buf.avail = 0 → motive s (.full, s))
    (none : ∀ s e rest, s.buf.Ok → 0 < s.buf.avail → 0 < s.buf.tail →
      offer s.script s.buf.avail = ⟨[], e, rest⟩ → motive s (e, s.none rest))
    (compact : ∀ s r, s.buf.Ok → 0 < s.buf.avail → s.buf.tail = 0 → motive s.compact r → motive s r)
    (took : ∀ s bs rest r, s.buf.Ok → bs ≠ [] → s.script = .data bs :: rest → 0 < s.buf.tail →
      motive (s.took (bs.take s.buf.tail) (leave bs s.buf.tail rest)) r → motive s r)
    (fuel : Nat) (s : ReadLoop) (h : s.buf.Ok) (hf : s.buf.avail + s.buf.movable < fuel) :
    motive s (run fuel s) := by
  induction fuel generalizing s with
  | zero => omega
  | succ fuel ih =>
    rw [run]
    split
    · rename_i hav
      split
      · rename_i ht
        refine compact s _ h hav ht (ih _ h.compact.1 ?_)
        obtain ⟨hok, _, hused, _⟩ := h.compact
        have h0 : s.compact.buf.movable = 0 := by
          simp [FixedBuffer.movable, ReadLoop.compact, FixedBuffer.compact]
        have h1 : s.compact.buf.avail = s.buf.avail := by
          simp only [ReadLoop.compact]
          rw [hok.avail_eq, h.avail_eq, hused]
          rfl
        have h2 : s.buf.movable = 1 := by
          have h3 := h.tail_eq
          have h4 := h.avail_eq
          have h5 := h.used_eq
          have : s.buf.mReadPtr ≠ 0 := by omega
          simp [FixedBuffer.movable, this]
        omega
      · rename_i ht
        have hpos : 0 < s.buf.tail := Nat.pos_of_ne_zero ht
        obtain ⟨free, hfree⟩ : ∃ k, s.buf.avail = k + 1 := ⟨s.buf.avail - 1, by omega⟩
        rcases hs : s.script with _ | ⟨a, rest⟩
        · exact none s _ _ h hav hpos (by rw [hs, hfree]; rfl)
        · rcases a with bs | _ | _
          · rcases bs with _ | ⟨c, bs⟩
            · have : leave [] s.buf.tail rest = rest := by simp [leave]
              simp only [recv, List.take_nil, this]
              exact none s _ _ h hav hpos (by rw [hs, hfree]; rfl)
            · obtain ⟨t, htail⟩ : ∃ k, s.buf.tail = k + 1 := ⟨s.buf.tail - 1, by omega⟩
              have hdata : recv s.buf.tail (.data (c :: bs) :: rest) =
                  (.data (c :: bs.take t), leave (c :: bs) s.buf.tail rest) := by
                simp [recv, htail]
              have htake : (c :: bs).take s.buf.tail = c :: bs.take t := by simp [htail]
              simp only [hdata]
              refine took s (c :: bs) rest _ h (List.cons_ne_nil c bs) hs hpos ?_
              rw [htake]
              have hlen : (c :: bs.take t).length ≤ s.buf.tail :=
                htake ▸ List.length_take_le _ _
              obtain ⟨hok, hput⟩ := h.put hlen
              refine ih _ hok ?_
              have h1 : (s.buf.put (c :: bs.take t)).avail + (c :: bs.take t).length =
                  s.buf.avail := by
                have hle := h.tail_le_avail
                rw [hok.avail_eq, ← hok.unread_length, hput, List.length_append, h.unread_length]
                have := h.avail_eq
                simp only [FixedBuffer.put]
                omega
              have h2 : (s.buf.put (c :: bs.take t)).movable = s.buf.movable := rfl
              simp only [ReadLoop.took, h2]
              simp only [List.length_cons] at h1
              omega
          · exact none s _ _ h hav hpos (by rw [hs, hfree]; rfl)
          · exact none s _ _ h hav hpos (by rw [hs, hfree]; rfl)
    · rename_i hav
      exact full s h (by omega)

/-- The loop takes what the socket offers. -/
theorem run_took (fuel : Nat) (s : ReadLoop) (h : s.buf.Ok)
    (hf : s.buf.avail + s.buf.movable < fuel) : Took s (run fuel s) :=
  run_induction (fun _ => took_full) (fun _ _ _ hok hav _ ho => took_none hok hav ho)
    (fun _ _ hok hav ht hr => took_compact hok hav ht hr)
    (fun _ _ _ _ hok hbs hs ht hr => took_data hok hbs hs ht hr) fuel s h hf

end ReadLoop

namespace FixedBuffer

/-- One call of `readFd`: what the socket offers is appended to the unread bytes. -/
structure ReadFd (b : FixedBuffer) (script : List Recv) : Prop where
  took : ReadLoop.Took (b.startRead script) ((b.readFd script).ended, (b.readFd script).last)
  ret : (b.readFd script).ret =
    if (offer script b.avail).ended = .failed ∨ (offer script b.avail).ended = .closed then -1
    else ((offer script b.avail).bytes.length : Int)

theorem Ok.readFd {b : FixedBuffer} (h : b.Ok) (script : List Recv) : ReadFd b script := by
  have hstart : (b.startRead script).buf = b := rfl
  by_cases hav : b.avail = 0
  · have hout : b.readFd script = ⟨0, .full, b.startRead script⟩ := by simp [FixedBuffer.readFd, hav]
    refine ⟨?_, by simp [hout, hav]⟩
    rw [hout]
    have ho : offer (b.startRead script).script (b.startRead script).buf.avail =
        ⟨[], .full, script⟩ := by simp [startRead, hav]
    exact ⟨h, rfl, by rw [ho], by rw [ho]; rfl, by simp [ho], by simp [ho], by simp, by simp,
      fun w hw => Or.inl hw⟩
  · have hm : b.movable ≤ 1 := by unfold movable; split <;> omega
    have ht := ReadLoop.run_took (b.avail + 2) (b.startRead script) h (by rw [hstart]; omega)
    have hlen : ((((b.startRead script).run (b.avail + 2)).2.buf.used : Int) - b.used) =
        ((offer script b.avail).bytes.length : Int) := by
      have hu := congrArg List.length ht.unread
      rw [List.length_append, ht.ok.unread_length, hstart, h.unread_length] at hu
      simp only [startRead] at hu ⊢
      omega
    have hend : ((b.startRead script).run (b.avail + 2)).1 = (offer script b.avail).ended := ht.ended
    have hout : b.readFd script = (fun r : ReadEnd × ReadLoop =>
        (⟨if r.1 = .failed ∨ r.1 = .closed then -1 else (r.2.buf.used : Int) - b.used, r.1, r.2⟩ :
          ReadOut)) ((b.startRead script).run (b.avail + 2)) := by
      unfold FixedBuffer.readFd
      rw [if_neg hav]
      generalize (b.startRead script).run (b.avail + 2) = r
      obtain ⟨e, last⟩ := r
      cases e <;> simp
    simp only [hlen, hend] at hout
    constructor
    · rw [hout]; exact hend ▸ ht
    · rw [hout]

end FixedBuffer
end Knpnl.Base
