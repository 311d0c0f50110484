import Knpnl.Net.Receiving

/-!
# Which bytes reach the callback before the close

A peer's bytes come in answers of `recv`, some of them `EAGAIN`, and then the end. Each
`EAGAIN` ends a stretch, and each stretch is passed on in blocks of the buffer's size.
What is left of it over a whole number of blocks is passed on only if `EAGAIN` ends the
stretch; if nothing is left over, the next `recv` brings nothing and the connection is closed.
-/
namespace Knpnl.Net

open Lib.CString (Bytes)
open Base (Recv ReadEnd offer)

/-- Before its end the peer's bytes come in parts, with or without waiting. -/
def Orderly (answers : List Recv) : Prop := ∀ a ∈ answers, a = .eagain ∨ ∃ bs, bs ≠ [] ∧ a = .data bs

/-- All bytes of some answers. -/
def sent : List Recv → Bytes
  | [] => []
  | .data bs :: rest => bs ++ sent rest
  | _ :: rest => sent rest

/-- All bytes are passed on, when `n` bytes of a block of `cap` have come: the first stretch
that is a whole number of blocks is the last with any bytes. -/
def allPassed (cap : Nat) : Nat → List Recv → Bool
  | n, [] => n = 0
  | n, .data bs :: rest => allPassed cap ((n + bs.length) % cap) rest
  | n, _ :: rest => if n = 0 then sent rest = [] else allPassed cap 0 rest

section
variable {cap n : Nat} {answers : List Recv}

/-- What is offered before the end, and what is left of the answers. -/
inductive Offered (cap n : Nat) (answers : List Recv) (o : Base.Offer) : Prop where
  | closed (ended : o.ended = .closed) (all : sent answers = o.bytes)
      (passed : allPassed cap n answers = decide (n + o.bytes.length = 0))
  | drained (ended : o.ended = .drained) (left : List Recv) (left_eq : o.left = left ++ [.data []])
      (orderly : Orderly left) (shorter : left.length < answers.length)
      (all : sent answers = o.bytes ++ sent left)
      (passed : allPassed cap n answers =
        if n + o.bytes.length = 0 then decide (sent left = []) else allPassed cap 0 left)
  | full (ended : o.ended = .full) (left : List Recv) (left_eq : o.left = left ++ [.data []])
      (orderly : Orderly left) (shorter : left.length ≤ answers.length)
      (all : sent answers = o.bytes ++ sent left) (whole : n + o.bytes.length = cap)
      (passed : allPassed cap n answers = allPassed cap 0 left)

/-- An answer that leaves room in the block comes before what is offered after it. -/
theorem Offered.data {c : UInt8} {bs : Bytes} {o : Base.Offer}
    (h : Offered cap (n + (bs.length + 1)) answers o) (hroom : n + (bs.length + 1) < cap) :
    Offered cap n (.data (c :: bs) :: answers) ⟨c :: bs ++ o.bytes, o.ended, o.left⟩ := by
  have hstep : allPassed cap n (.data (c :: bs) :: answers) =
      allPassed cap (n + (bs.length + 1)) answers := by
    rw [allPassed, List.length_cons, Nat.mod_eq_of_lt hroom]
  have hlen : n + (c :: bs ++ o.bytes).length = n + (bs.length + 1) + o.bytes.length := by
    simp only [List.length_append, List.length_cons]
    omega
  cases h with
  | closed ended all passed =>
    refine .closed ended (congrArg (c :: bs ++ ·) all) ?_
    rw [hstep, passed, hlen]
  | drained ended left left_eq orderly shorter all passed =>
    refine .drained ended left left_eq orderly (Nat.lt_succ_of_lt shorter) ?_ ?_
    · rw [sent, all, List.append_assoc]
    · rw [hstep, passed, hlen]
  | full ended left left_eq orderly shorter all whole passed =>
    refine .full ended left left_eq orderly (Nat.le_succ_of_le shorter) ?_ ?_ ?_
    · rw [sent, all, List.append_assoc]
    · rw [hlen, whole]
    · rw [hstep, passed]

/-- The block ends within an answer. -/
theorem offered_within {c : UInt8} {bs : Bytes} {free : Nat} (hrest : Orderly answers)
    (hcap : n + (free + 1) = cap) (hlong : free < bs.length) :
    Offered cap n (.data (c :: bs) :: answers)
      ⟨(c :: bs).take (free + 1), .full, .data (bs.drop free) :: (answers ++ [.data []])⟩ := by
  have hdrop : bs.drop free ≠ [] := by
    rw [ne_eq, List.drop_eq_nil_iff]
    omega
  have hmod : (n + (bs.length + 1)) % cap = (0 + (bs.drop free).length) % cap := by
    rw [List.length_drop, show n + (bs.length + 1) = (0 + (bs.length - free)) + cap by omega,
      Nat.add_mod_right]
  refine .full rfl (.data (bs.drop free) :: answers) rfl ?_ (by simp) ?_ ?_ ?_
  · intro b hb
    rcases List.mem_cons.mp hb with rfl | hb
    · exact Or.inr ⟨_, hdrop, rfl⟩
    · exact hrest b hb
  · simp [sent, ← List.append_assoc]
  · simp only [List.length_take, List.length_cons]
    omega
  · rw [allPassed, List.length_cons, hmod, allPassed]

/-- By induction on the answers, with the room that is left in the block. -/
theorem offered (horderly : Orderly answers) {free : Nat} (hcap : n + free = cap) (hfree : 0 < free) :
    Offered cap n answers (offer (answers ++ [.data []]) free) := by
  obtain ⟨free, rfl⟩ : ∃ k, free = k + 1 := ⟨free - 1, by omega⟩
  induction answers generalizing n free with
  | nil => exact .closed rfl rfl (by simp [allPassed, offer])
  | cons a rest ih =>
    have hrest : Orderly rest := fun b hb => horderly b (List.mem_cons_of_mem _ hb)
    rcases horderly a List.mem_cons_self with rfl | ⟨bs, hbs, rfl⟩
    · exact .drained rfl rest rfl hrest (by simp) rfl (by simp [allPassed, offer])
    · obtain ⟨c, bs, rfl⟩ := List.exists_cons_of_ne_nil hbs
      rw [List.cons_append, offer]
      rcases Nat.lt_trichotomy bs.length free with hlt | heq | hgt
      · have hnext := @ih (n + (bs.length + 1)) hrest (free - bs.length - 1) (by omega) (by omega)
        rw [Nat.sub_add_cancel (by omega)] at hnext
        rw [if_pos hlt.le]
        exact hnext.data (by omega)
      · -- the answer ends the block
        have hwhole : n + (bs.length + 1) = cap := by omega
        rw [if_pos heq.le]
        simp only [heq, Nat.sub_self, Base.offer_zero, List.append_nil]
        refine .full rfl rest rfl hrest (by simp) rfl hwhole ?_
        rw [allPassed, List.length_cons, hwhole, Nat.mod_self]
      · rw [if_neg (by omega)]
        exact offered_within hrest hcap hgt

end

/-- A connection, and the bytes passed to its callback so far. -/
structure Reading (κ : Type*) where
  conn : TcpConnection κ
  delivered : Bytes

namespace Reading

variable {κ : Type*} {cap : Nat} {r : Reading κ} {bytes : Bytes} {left : List Recv}
  {onMessageCallback : TcpConnection κ → TcpConnection κ}

/-- A read event. None is reported after `handleClose`. -/
def step (onMessageCallback : TcpConnection κ → TcpConnection κ) (r : Reading κ) : Reading κ :=
  if r.conn.isOpen then ⟨r.conn.handleRead onMessageCallback, r.delivered ++ r.conn.passed⟩ else r

def run (onMessageCallback : TcpConnection κ → TcpConnection κ) (n : Nat) (r : Reading κ) : Reading κ :=
  (step onMessageCallback)^[n] r

/-- The connection comes to be closed, and when `handleRead` is about to close it, the
callback has been passed `bytes`. -/
structure Delivers (onMessageCallback : TcpConnection κ → TcpConnection κ) (r : Reading κ)
    (bytes : Bytes) : Prop where
  closed : ∃ n, ¬ (run onMessageCallback n r).conn.isOpen
  delivered : ∀ n, (run onMessageCallback n r).conn.isOpen → (run onMessageCallback n r).conn.Ends →
    (run onMessageCallback n r).delivered = bytes

theorem step_closed (h : ¬ r.conn.isOpen) : step onMessageCallback r = r := if_neg h

theorem run_closed (h : ¬ r.conn.isOpen) (n : Nat) : run onMessageCallback n r = r :=
  Function.iterate_fixed (step_closed h) n

theorem Delivers.of_closed (h : ¬ r.conn.isOpen) : Delivers onMessageCallback r bytes where
  closed := ⟨0, h⟩
  delivered n hopen := absurd (by rwa [run_closed h] at hopen) h

theorem delivers_step (r : Reading κ) :
    Delivers onMessageCallback r bytes ↔ (r.conn.isOpen → r.conn.Ends → r.delivered = bytes) ∧
      Delivers onMessageCallback (step onMessageCallback r) bytes := by
  have hrun (n : Nat) : run onMessageCallback (n + 1) r =
    run onMessageCallback n (step onMessageCallback r) := Function.iterate_succ_apply ..
  constructor
  · rintro ⟨⟨n, hn⟩, hall⟩
    refine ⟨hall 0, ⟨n, ?_⟩, fun n => ?_⟩
    · rw [← hrun, run, Function.iterate_succ_apply', ← run, step_closed hn]
      exact hn
    · rw [← hrun]
      exact hall (n + 1)
  · rintro ⟨hnow, ⟨n, hn⟩, hall⟩
    refine ⟨⟨n + 1, by rwa [hrun]⟩, fun n => ?_⟩
    cases n with
    | zero => exact hnow
    | succ n =>
      rw [hrun]
      exact hall n

/-- The peer's answers `left`, and then the end, are still to come. -/
structure Awaits (cap : Nat) (left : List Recv) (c : TcpConnection κ) : Prop extends c.Idle cap where
  recvs : c.mSocket.recvs = left ++ [.data []]
  orderly : Orderly left

/-- What one read event does with the answers to come. -/
inductive Event (cap : Nat) (left : List Recv) (c : TcpConnection κ) : Prop where
  | ends (ends : c.Ends) (passed : allPassed cap 0 left = decide (sent left = []))
  | passes (not_ends : ¬ c.Ends) (left' : List Recv)
      (recvs : (offer c.mSocket.recvs cap).left = left' ++ [.data []]) (orderly : Orderly left')
      (shorter : (sent left').length + left'.length < (sent left).length + left.length)
      (all : sent left = c.passed ++ sent left') (passed : allPassed cap 0 left = allPassed cap 0 left')

theorem Awaits.event {c : TcpConnection κ} (h : Awaits cap left c) (hcap : 0 < cap) : Event cap left c := by
  have hends := h.ends_iff
  have hoffered := offered h.orderly (Nat.zero_add cap) hcap
  rw [← h.recvs] at hoffered
  cases hoffered with
  | closed ended all passed =>
    refine .ends (hends.mpr (Or.inr (Or.inl ended))) ?_
    rw [passed, all, Nat.zero_add]
    simp
  | drained ended left' left_eq orderly shorter all passed =>
    by_cases hnone : (offer c.mSocket.recvs cap).bytes = []
    · refine .ends (hends.mpr (Or.inr (Or.inr hnone))) ?_
      rw [passed, all, hnone]
      simp
    · have hnot : ¬ c.Ends := by simp [hends, ended, hnone]
      rw [if_neg (by simp [hnone])] at passed
      refine .passes hnot left' left_eq orderly ?_ (by rw [h.passed_eq hnot, all]) passed
      rw [all, List.length_append]
      omega
  | full ended left' left_eq orderly shorter all whole passed =>
    have hnone : (offer c.mSocket.recvs cap).bytes ≠ [] := by
      intro hnil
      rw [hnil] at whole
      simp at whole
      omega
    have hnot : ¬ c.Ends := by simp [hends, ended, hnone]
    refine .passes hnot left' left_eq orderly ?_ (by rw [h.passed_eq hnot, all]) passed
    rw [all, List.length_append]
    omega

/-- If the event passes something on, the rest is awaited after it. -/
theorem Awaits.after {c : TcpConnection κ} (h : Awaits cap left c)
    (hcb : TcpConnection.Consumes onMessageCallback) (hends : ¬ c.Ends) {left' : List Recv}
    (hrecvs : (offer c.mSocket.recvs cap).left = left' ++ [.data []]) (horderly : Orderly left') :
    Awaits cap left' (c.handleRead onMessageCallback) := by
  obtain ⟨hidle, hleft⟩ := h.toIdle.handleRead hcb hends
  exact ⟨hidle, hleft.trans hrecvs, horderly⟩

/-- All is delivered, by induction on the answers to come. -/
theorem Awaits.delivers (hcap : 0 < cap) (hcb : TcpConnection.Consumes onMessageCallback)
    (h : Awaits cap left r.conn) (hpassed : allPassed cap 0 left = true)
    (hsofar : r.delivered ++ sent left = bytes) : Delivers onMessageCallback r bytes := by
  induction hm : (sent left).length + left.length using Nat.strongRecOn generalizing r left with
  | _ m ih =>
  by_cases hopen : r.conn.isOpen
  · rw [delivers_step]
    have hstep : step onMessageCallback r = ⟨r.conn.handleRead onMessageCallback,
      r.delivered ++ r.conn.passed⟩ := if_pos hopen
    cases h.event hcap with
    | ends ends passed =>
      have hnil : sent left = [] := by
        rw [hpassed] at passed
        exact of_decide_eq_true passed.symm
      refine ⟨fun _ _ => by rw [← hsofar, hnil, List.append_nil], ?_⟩
      rw [hstep]
      apply Delivers.of_closed
      rw [TcpConnection.handleRead_of_ends ends]
      exact TcpConnection.not_isOpen_handleClose _
    | passes not_ends left' recvs orderly shorter all passed =>
      refine ⟨fun _ hends => absurd hends not_ends, ?_⟩
      rw [hstep]
      refine ih _ (hm ▸ shorter) (h.after hcb not_ends recvs orderly) (passed ▸ hpassed) ?_ rfl
      rw [List.append_assoc, ← all, hsofar]
  · exact .of_closed hopen

/-- The default callback delivers only what every callback is passed. -/
theorem Awaits.allPassed_of_default (hcap : 0 < cap) (h : Awaits cap left r.conn) (hopen : r.conn.isOpen)
    (hall : Delivers TcpConnection.DefaultOnMessageCallback r (r.delivered ++ sent left)) :
    allPassed cap 0 left = true := by
  induction hm : (sent left).length + left.length using Nat.strongRecOn generalizing r left with
  | _ m ih =>
  obtain ⟨hnow, hnext⟩ := (delivers_step r).mp hall
  cases h.event hcap with
  | ends ends passed =>
    have hnil := hnow hopen ends
    rw [passed, decide_eq_true_iff]
    simpa using hnil
  | passes not_ends left' recvs orderly shorter all passed =>
    have hstep : step TcpConnection.DefaultOnMessageCallback r =
      ⟨r.conn.handleRead TcpConnection.DefaultOnMessageCallback, r.delivered ++ r.conn.passed⟩ :=
      if_pos hopen
    have hafter : Awaits cap left' (step TcpConnection.DefaultOnMessageCallback r).conn :=
      hstep ▸ h.after TcpConnection.consumes_default not_ends recvs orderly
    rw [passed]
    refine ih _ (hm ▸ shorter) hafter ?_ ?_ rfl
    · rw [hstep]
      dsimp only
      rw [TcpConnection.handleRead_of_not_ends not_ends]
      exact hopen
    · rw [hstep] at hnext ⊢
      rwa [List.append_assoc, ← all]

end Reading

/-- Whatever consuming callback is installed, `bytes` are passed to it, in order, before
`handleRead` closes the connection. -/
def DeliversAll {κ : Type*} (c : TcpConnection κ) (bytes : Bytes) : Prop :=
  ∀ onMessageCallback, TcpConnection.Consumes onMessageCallback →
    Reading.Delivers onMessageCallback ⟨c, []⟩ bytes

/-- Every byte that the peer sends before its end is delivered before the close if and only
if the first stretch that is a whole number of blocks is the last with any bytes. -/
theorem delivered_iff {κ : Type*} {cap : Nat} (hcap : 0 < cap) {c : TcpConnection κ} (hidle : c.Idle cap)
    (hopen : c.isOpen) {answers : List Recv} (horderly : Orderly answers)
    (hrecvs : c.mSocket.recvs = answers ++ [.data []]) :
    DeliversAll c (sent answers) ↔ allPassed cap 0 answers = true := by
  have hawaits : Reading.Awaits cap answers (⟨c, []⟩ : Reading κ).conn := ⟨hidle, hrecvs, horderly⟩
  constructor
  · intro hall
    exact hawaits.allPassed_of_default hcap hopen (hall _ TcpConnection.consumes_default)
  · intro hpassed cb hcb
    exact hawaits.delivers hcap hcb hpassed rfl

/-- A connection whose peer sends `answers` and then its end. -/
def fromPeer (cap : Nat) (answers : List Recv) : TcpConnection Unit :=
  (TcpConnection.new (List.replicate cap 0) [] () ⟨answers ++ [.data []], [], []⟩ ⟨0, 0⟩
    true).Established id

/-- Two bytes, a wait, and the end. -/
theorem delivered_iff_wait : DeliversAll (fromPeer 4 [.data [104, 105], .eagain]) [104, 105] :=
  (@delivered_iff Unit 4 (by decide) (fromPeer 4 [.data [104, 105], .eagain])
    (@TcpConnection.Idle.of_fresh Unit _ (List.replicate 4 0) (by decide) rfl) (by decide)
    [.data [104, 105], .eagain] (by simp [Orderly]) rfl).mpr (by decide)

/-- Two bytes and the end, read by one event: the callback is not called. -/
theorem delivered_iff_together :
    ¬ DeliversAll (fromPeer 1024 [.data [104, 105]]) [104, 105] := by
  intro hall
  have hdelivered := (hall _ TcpConnection.consumes_default).delivered 0 (by decide) (by decide +kernel)
  revert hdelivered
  decide +kernel

end Knpnl.Net
