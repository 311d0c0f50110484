import Knpnl.Net.Closing
import Knpnl.Net.OutputOrder

/-!
# A message sent in parts

Calls of `sendMessage` with nothing queued in between. `m_iv[0]` is set anew from the write
buffer in every round and `m_iv[1]` is moved on, so a partial write may end in the buffer, at
its end or in the file, and the next call goes on there.
-/
namespace Knpnl.Net.TcpConnection

open Lib
open Lib.CString (Bytes)
open Base (FixedBuffer FileSystem signed)

variable {κ : Type*} {c : TcpConnection κ} {cap : Nat}

/-- `while(1)` against a kernel that never runs out of answers: `none` if `fuel` rounds do not
end it. -/
def whileLoop (answers : Nat → Writev) : Nat → Nat → TcpConnection κ → Option (WriteEnd × TcpConnection κ)
  | 0, _, _ => none
  | fuel + 1, i, c =>
      match answers i with
      | .error => some (.error, c)
      | .eagain => some (if c.pending = 0 then .zero else .again, c)
      | .wrote n =>
          if c.pending = 0 then some (.zero, c)
          else whileLoop answers fuel (i + 1) (c.wrote (max 1 (min n c.pending)))

/-- Each round but the last takes a byte, so one round more than there are bytes ends it. -/
theorem WriteSound.whileLoop_ends (h : WriteSound cap c) (answers : Nat → Writev) (i : Nat) {fuel : Nat}
    (hfuel : c.pending < fuel) : (whileLoop answers fuel i c).isSome := by
  induction fuel generalizing c i with
  | zero => omega
  | succ fuel ih =>
    rw [whileLoop]
    cases answers i with
    | error => rfl
    | eagain => rfl
    | wrote n =>
      by_cases h0 : c.pending = 0
      · simp only [if_pos h0]
        rfl
      · obtain ⟨hsound, hpending⟩ := h.wrote (n := max 1 (min n c.pending)) (by omega)
        simp only [if_neg h0]
        exact ih hsound (i + 1) (by omega)

theorem wrote_withWritevs (c : TcpConnection κ) (writevs : List Writev) (n : Nat) :
    (c.withWritevs writevs).wrote n = (c.wrote n).withWritevs writevs := by
  have hused : (c.withWritevs writevs).mWriteBuffer.used = c.mWriteBuffer.used := rfl
  unfold wrote
  dsimp only
  rw [hused]
  split <;> rfl

/-- The `n` answers from the `i`-th on. -/
def someAnswers (answers : Nat → Writev) (i n : Nat) : List Writev := (List.range' i n).map answers

/-- A list of answers is as good as an endless supply, once it is long enough. -/
theorem writeLoop_of_whileLoop {answers : Nat → Writev} {fuel i : Nat} {r : WriteEnd × TcpConnection κ}
    (script : List Writev) (h : whileLoop answers fuel i c = some r) :
    ∃ left, writeLoop (someAnswers answers i fuel) (c.withWritevs script) = (r.1, r.2.withWritevs left) := by
  induction fuel generalizing c i script with
  | zero => cases h
  | succ fuel ih =>
    have hpending : (c.withWritevs script).pending = c.pending := rfl
    rw [whileLoop] at h
    rw [someAnswers, List.range'_succ, List.map_cons]
    cases ha : answers i with
    | error =>
      rw [ha] at h
      obtain rfl := Option.some.inj h
      exact ⟨_, rfl⟩
    | eagain =>
      rw [ha] at h
      obtain rfl := Option.some.inj h
      rw [writeLoop, hpending]
      split
      · exact ⟨_, rfl⟩
      · exact ⟨_, rfl⟩
    | wrote n =>
      rw [ha] at h
      dsimp only at h
      rw [writeLoop, hpending]
      by_cases h0 : c.pending = 0
      · rw [if_pos h0] at h
        obtain rfl := Option.some.inj h
        rw [if_pos h0]
        exact ⟨_, rfl⟩
      · rw [if_neg h0] at h
        rw [if_neg h0, wrote_withWritevs]
        exact ih (c := c.wrote (max 1 (min n c.pending))) _ h

/-- `while(1)` ends, as the loop of `sendMessage` does on the first answers. -/
theorem WriteSound.loop_ends (h : WriteSound cap c) (answers : Nat → Writev) (script : List Writev) :
    ∃ r left, whileLoop answers (c.pending + 1) 0 c = some r ∧
      TcpConnection.writeLoop (someAnswers answers 0 (c.pending + 1)) (c.withWritevs script) =
        (r.1, r.2.withWritevs left) := by
  obtain ⟨r, hr⟩ := Option.isSome_iff_exists.mp (h.whileLoop_ends answers 0 (Nat.lt_succ_self _))
  obtain ⟨left, hloop⟩ := writeLoop_of_whileLoop script hr
  exact ⟨r, left, hr, hloop⟩

/-- On 0 bytes `writev` returns 0: only a call that offers bytes fails. -/
def Conforms : List Writev → Nat → Prop
  | .error :: _, n => n ≠ 0
  | .wrote k :: rest, n => n = 0 ∨ Conforms rest (n - max 1 (min k n))
  | _, _ => True

instance decidableConforms : (writevs : List Writev) → (n : Nat) → Decidable (Conforms writevs n)
  | [], _ => isTrue trivial
  | .error :: _, n => inferInstanceAs (Decidable (n ≠ 0))
  | .eagain :: _, _ => isTrue trivial
  | .wrote k :: rest, n =>
      have := decidableConforms rest (n - max 1 (min k n))
      inferInstanceAs (Decidable (n = 0 ∨ Conforms rest (n - max 1 (min k n))))

/-- The file is mapped as far as its length says, and what has been written and what is waiting
make up `out`, of which there are no more bytes than a `ssize_t` can say. -/
structure Sending (cap : Nat) (out : Bytes) (c : TcpConnection κ) : Prop extends WriteSound cap c where
  mapped : c.m_iv1.iov_len ≤ c.m_iv1.iov_base.bytes.length
  output : c.output = out
  short : out.length < 2 ^ 63

namespace Sending

variable {out : Bytes}

theorem offered_length (h : Sending cap out c) : c.offered.length = c.pending := by
  have hmapped := h.mapped
  rw [offered_eq, List.length_append, h.ok.unread_length, fileRest, List.length_take, pending]
  omega

theorem wire_length (h : Sending cap out c) : c.mSocket.wire.length + c.pending = out.length := by
  rw [← h.offered_length, ← List.length_append, ← TcpConnection.output, h.output]

theorem wrote (h : Sending cap out c) {n : Nat} (hn : n ≤ c.pending) : Sending cap out (c.wrote n) := by
  obtain ⟨hsound, _⟩ := h.toWriteSound.wrote hn
  exact ⟨hsound, mapped_wrote h.mapped hn, (h.toWriteSound.output_wrote hn).trans h.output, h.short⟩

theorem writeLoop (h : Sending cap out c) (script : List Writev) :
    Sending cap out (TcpConnection.writeLoop script c).2 := by
  induction script generalizing c with
  | nil => exact h
  | cons a rest ih =>
    have hanswered : ∀ {c : TcpConnection κ}, Sending cap out c → Sending cap out (c.answered rest) :=
      fun h => ⟨h.toWriteSound.of_eq rfl rfl, h.mapped, h.output, h.short⟩
    cases a with
    | error => exact hanswered h
    | eagain =>
      rw [TcpConnection.writeLoop]
      split
      · exact h
      · exact hanswered h
    | wrote n =>
      rw [TcpConnection.writeLoop]
      split
      · exact h
      · exact ih (hanswered (h.wrote (by omega)))

/-- A kernel that keeps to what `writev` documents stops short only while bytes are left. -/
theorem pending_of_unfinished (h : Sending cap out c) {script : List Writev}
    (hconforms : Conforms script c.pending) (hend : (TcpConnection.writeLoop script c).1 ≠ .zero) :
    0 < (TcpConnection.writeLoop script c).2.pending := by
  induction script generalizing c with
  | nil =>
    rw [TcpConnection.writeLoop] at hend ⊢
    by_cases h0 : c.pending = 0
    · simp [h0] at hend
    · exact Nat.pos_of_ne_zero h0
  | cons a rest ih =>
    cases a with
    | error => exact Nat.pos_of_ne_zero hconforms
    | eagain =>
      rw [TcpConnection.writeLoop] at hend ⊢
      by_cases h0 : c.pending = 0
      · simp [h0] at hend
      · rw [if_neg h0]
        exact Nat.pos_of_ne_zero h0
    | wrote n =>
      by_cases h0 : c.pending = 0
      · simp [TcpConnection.writeLoop, h0] at hend
      · have hn : max 1 (min n c.pending) ≤ c.pending := by omega
        obtain ⟨_, hpending⟩ := h.toWriteSound.wrote hn
        have hwrote := h.wrote hn
        rw [TcpConnection.writeLoop, if_neg h0] at hend ⊢
        refine ih (c := (c.wrote (max 1 (min n c.pending))).answered rest) ?_ ?_ hend
        · exact ⟨hwrote.toWriteSound.of_eq rfl rfl, hwrote.mapped, hwrote.output, hwrote.short⟩
        · show Conforms rest (c.wrote (max 1 (min n c.pending))).pending
          rw [hpending]
          exact hconforms.resolve_left h0

end Sending

/-- What a call of `sendMessage` does and reports, `out` being all that was to be written. -/
structure Resumes (out : Bytes) (c : TcpConnection κ) (writevs : List Writev) : Prop where
  accounted : (c.withWritevs writevs).sendMessage.1 ≠ -1 →
    (c.withWritevs writevs).sendMessage.2.mSocket.wire ++
      ((c.withWritevs writevs).sendMessage.2.mWriteBuffer.unread ++
        (c.withWritevs writevs).sendMessage.2.fileRest) = out
  finished : (c.withWritevs writevs).sendMessage.1 = 0 ↔
    (c.withWritevs writevs).sendMessage.2.mSocket.wire = out
  left : 0 < (c.withWritevs writevs).sendMessage.1 → (c.withWritevs writevs).sendMessage.1 =
    (out.length : Int) - (c.withWritevs writevs).sendMessage.2.mSocket.wire.length
  failed : (c.withWritevs writevs).sendMessage.1 < 0 →
    (c.withWritevs writevs).sendMessage.1 = -1 ∧ writeOutcome writevs c.pending = .error
  ends : ∀ answers : Nat → Writev, ∃ r left, whileLoop answers (c.pending + 1) 0 c = some r ∧
    writeLoop (someAnswers answers 0 (c.pending + 1))
      (c.withWritevs (someAnswers answers 0 (c.pending + 1))) = (r.1, r.2.withWritevs left)

theorem Sending.withWritevs {out : Bytes} (h : Sending cap out c) (writevs : List Writev) :
    Sending cap out (c.withWritevs writevs) :=
  ⟨h.toWriteSound.of_eq rfl rfl, h.mapped, h.output, h.short⟩

/-- A call that does not fail leaves the rest to the next call. -/
theorem Sending.sendMessage {out : Bytes} (h : Sending cap out c) (hret : c.sendMessage.1 ≠ -1) :
    Sending cap out c.sendMessage.2 := by
  obtain ⟨hsound, _⟩ := h.toWriteSound.sendMessage
  have hout := (h.toWriteSound.output_sendMessage).2 hret
  exact ⟨hsound, mapped_sendMessage h.mapped, hout.trans h.output, h.short⟩

/-- How a call ends, by what is left: something unless it returns 0. -/
inductive Ended (out : Bytes) (r : Int × TcpConnection κ) (e : WriteEnd) : Prop where
  | zero (he : e = .zero) (ret : r.1 = 0) (wire : r.2.mSocket.wire = out)
  | again (he : e = .again) (pos : 0 < r.1) (left : r.2.mSocket.wire.length + r.1 = out.length)
  | error (he : e = .error) (ret : r.1 = -1) (unsent : r.2.mSocket.wire.length < out.length)

theorem Sending.ended {out : Bytes} (h : Sending cap out c)
    (hconforms : Conforms c.mSocket.writevs c.pending) :
    Ended out c.sendMessage (writeOutcome c.mSocket.writevs c.pending) := by
  obtain ⟨hwire, _⟩ := h.toWriteSound.output_sendMessage
  obtain ⟨_, hloop, hzero⟩ := h.toWriteSound.writeLoop c.mSocket.writevs
  have hlength := (h.writeLoop c.mSocket.writevs).wire_length
  have hunfinished := h.pending_of_unfinished hconforms
  have hshort := h.short
  rw [h.output] at hwire
  rw [← hloop]
  unfold TcpConnection.sendMessage at hwire ⊢
  generalize TcpConnection.writeLoop c.mSocket.writevs c = r at hwire hzero hunfinished hlength ⊢
  obtain ⟨e, c'⟩ := r
  cases e with
  | zero =>
    have hpending : c'.pending = 0 := hzero rfl
    exact .zero rfl rfl (hwire.eq_of_length (by dsimp only at hlength ⊢; omega))
  | again =>
    have hpending : 0 < c'.pending := hunfinished (by simp)
    have hsigned : signed 64 c'.pending = c'.pending :=
      Int.bmod_eq_of_le (by omega) (by dsimp only at hlength; omega)
    dsimp only at hlength ⊢
    rw [hsigned]
    exact .again rfl (by dsimp only; omega) (by dsimp only; omega)
  | error =>
    have hpending : 0 < c'.pending := hunfinished (by simp)
    exact .error rfl rfl (by dsimp only at hlength ⊢; omega)

/-- One call. -/
theorem Sending.resumes {out : Bytes} (h : Sending cap out c) (writevs : List Writev)
    (hconforms : Conforms writevs c.pending) : Resumes out c writevs := by
  have hcall := h.withWritevs writevs
  have hout := (hcall.toWriteSound.output_sendMessage).2
  rw [hcall.output] at hout
  have hends := fun answers => h.toWriteSound.loop_ends answers (someAnswers answers 0 (c.pending + 1))
  cases hcall.ended hconforms with
  | zero he ret wire => exact ⟨hout, by simp [ret, wire], by omega, by omega, hends⟩
  | again he pos left =>
    refine ⟨hout, ⟨by omega, fun hwire => ?_⟩, by omega, by omega, hends⟩
    rw [hwire] at left
    omega
  | error he ret unsent =>
    refine ⟨hout, ⟨by omega, fun hwire => ?_⟩, by omega, fun _ => ⟨ret, he⟩, hends⟩
    rw [hwire] at unsent
    omega

/-- A call of `sendMessage` against a kernel that answers `writevs`. -/
def sent (c : TcpConnection κ) (writevs : List Writev) : TcpConnection κ :=
  (c.withWritevs writevs).sendMessage.2

/-- The call has not returned -1. -/
def Goes (c : TcpConnection κ) (writevs : List Writev) : Prop :=
  (c.withWritevs writevs).sendMessage.1 ≠ -1

instance (c : TcpConnection κ) (writevs : List Writev) : Decidable (c.Goes writevs) :=
  inferInstanceAs (Decidable (_ ≠ _))

/-- A file with the content `F`, mapped into memory. -/
def mappedFile (F : Bytes) : FileSystem := ⟨F.length, some ⟨.mapped F, F.length⟩⟩

/-- A connection with a file attached, or none, of which nothing has been written. -/
def attached (c : TcpConnection κ) (file : Option Bytes) : TcpConnection κ :=
  let c := { c with mSocket := { c.mSocket with wire := [] }, m_iv1 := ⟨.null, 0⟩ }
  match file with
  | some F => c.setFile (mappedFile F)
  | none => c

theorem sending_attached (hok : c.mWriteBuffer.Ok) {file : Option Bytes}
    (hshort : c.mWriteBuffer.unread.length + (file.getD []).length < 2 ^ 63) :
    Sending c.mWriteBuffer.cap (c.mWriteBuffer.unread ++ file.getD []) (c.attached file) := by
  rw [← List.length_append] at hshort
  cases file with
  | none => exact ⟨⟨⟨hok, rfl⟩, Nat.two_pow_pos 64⟩, Nat.zero_le _, rfl, hshort⟩
  | some F =>
    rw [List.length_append] at hshort
    have hfile : F.length < 2 ^ 64 := by
      have : (Option.getD (some F) []).length = F.length := rfl
      omega
    refine ⟨⟨⟨hok, rfl⟩, hfile⟩, le_refl F.length, ?_, by rw [List.length_append]; exact hshort⟩
    show [] ++ (c.mWriteBuffer.unread ++ F.take F.length) = c.mWriteBuffer.unread ++ F
    rw [List.take_length, List.nil_append]

/-- Whatever the buffer and the file hold and wherever partial writes end, every call accounts
for all bytes and reports what is left of them, as long as no earlier call has failed. -/
theorem sendMessage_resumes (c : TcpConnection κ) (hok : c.mWriteBuffer.Ok) (file : Option Bytes)
    (hshort : c.mWriteBuffer.unread.length + (file.getD []).length < 2 ^ 63)
    (calls : List (List Writev)) (writevs : List Writev) (hbefore : Along sent Goes (c.attached file) calls)
    (hconforms : Conforms writevs (calls.foldl sent (c.attached file)).pending) :
    Resumes (c.mWriteBuffer.unread ++ file.getD []) (calls.foldl sent (c.attached file)) writevs := by
  have hsending := hbefore.invariant
    (P := Sending c.mWriteBuffer.cap (c.mWriteBuffer.unread ++ file.getD []))
    (fun _ answers hc hgoes => (hc.withWritevs answers).sendMessage hgoes) (sending_attached hok hshort)
  exact hsending.resumes writevs hconforms

/-- A connection with the two bytes `hi` in its write buffer. -/
def greeting : TcpConnection Unit :=
  { TcpConnection.new [] (List.replicate 16 0) () ⟨[], [], []⟩ ⟨0, 0⟩ true with
    mWriteBuffer := ((FixedBuffer.fresh (List.replicate 16 0)).append [104, 105]).buf }

/-- One partial write ends in the buffer, one at its end and one in the file. -/
theorem sendMessage_resumes_parts :
    Resumes ([104, 105] ++ [97, 98, 99])
      ([[.wrote 1, .eagain], [.wrote 1, .eagain], [.wrote 2, .eagain]].foldl sent
        (greeting.attached (some [97, 98, 99]))) [.wrote 7] :=
  sendMessage_resumes greeting
    ⟨by decide +kernel, by decide +kernel, by decide +kernel, by decide +kernel, by decide +kernel⟩
    (some [97, 98, 99]) (by decide +kernel) [[.wrote 1, .eagain], [.wrote 1, .eagain], [.wrote 2, .eagain]]
    [.wrote 7] (by decide +kernel) (by decide +kernel)

end Knpnl.Net.TcpConnection
