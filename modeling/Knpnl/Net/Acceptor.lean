import Knpnl.Event.Channel
import Knpnl.Lib.Since

/-!
# `net/Acceptor`: a listening socket

The kernel keeps the connections that have been made and not accepted, and reports the socket once
for what has come since the last report. Clients connect at any time, also between two calls of
`accept4` in `handlerRead`. `κ` stands for the clients.
-/
namespace Knpnl.Net

open Lib
open Event

/-- One answer of `accept4`. A connection that was aborted leaves the queue with the error. -/
inductive Accept4 where
  | connfd (fd : Nat)
  | EAGAIN
  | error (aborted : Bool)
  deriving DecidableEq

/-- What becomes of a connection that leaves the queue. -/
inductive Fate where
  | newConnCallback (connfd : Nat)
  | close (connfd : Nat)
  | aborted
  deriving DecidableEq

/-- `backlog` is the kernel's queue, `edge` says that the socket will be reported, and `reading` that the
thread is in `handlerRead`. -/
structure Acceptor (κ : Type*) where
  mListening : Bool
  mChannel : Channel
  newConnCallback : Bool
  backlog : List κ
  edge : Bool
  reading : Bool
  taken : List (κ × Fate)

/-- A call of `Listen`, during which the first clients may connect, a client that connects, a report of
`epoll_wait`, and a round of the loop in `handlerRead`. -/
inductive AcceptorStep (κ : Type*) where
  | Listen (clients : List κ)
  | connect (client : κ)
  | report
  | accept (answer : Accept4)

def SOMAXCONN : Nat := 4096

namespace Acceptor

variable {κ : Type*}

/-- `garbage` is what the channel holds without an initial value. -/
def new (garbage : Channel) (newConnCallback : Bool) : Acceptor κ where
  mListening := false
  mChannel := garbage.add
  newConnCallback := newConnCallback
  backlog := []
  edge := false
  reading := false
  taken := []

/-- The channel is registered for input. -/
def listens (a : Acceptor κ) : Bool := has a.mChannel.registered EPOLLIN

/-- The clients that the kernel puts in the queue: as many as there is room for. -/
def queued (a : Acceptor κ) : AcceptorStep κ → List κ
  | .Listen clients => clients.take (SOMAXCONN - a.backlog.length)
  | .connect client => if a.mListening ∧ a.backlog.length < SOMAXCONN then [client] else []
  | .report | .accept _ => []

/-- `epoll_ctl` looks whether there is something to report. -/
def Listen (a : Acceptor κ) (clients : List κ) : Acceptor κ :=
  let backlog := a.backlog ++ a.queued (.Listen clients)
  { a with
    mListening := true
    mChannel := a.mChannel.EnableRead
    backlog := backlog
    edge := a.edge || !backlog.isEmpty }

def connect (a : Acceptor κ) (client : κ) : Acceptor κ :=
  let clients := a.queued (.connect client)
  { a with backlog := a.backlog ++ clients, edge := a.edge || a.listens && !clients.isEmpty }

/-- The first connection leaves the queue. -/
def take (a : Acceptor κ) (fate : Fate) : Acceptor κ :=
  match a.backlog with
  | [] => a
  | client :: rest => { a with backlog := rest, taken := a.taken ++ [(client, fate)] }

/-- One round of `while(1)`. -/
def handlerRead (a : Acceptor κ) : Accept4 → Acceptor κ
  | .connfd fd => if a.newConnCallback then a.take (.newConnCallback fd) else a.take (.close fd)
  | .EAGAIN => { a with reading := false }
  | .error aborted => { if aborted then a.take .aborted else a with reading := false }

def step (a : Acceptor κ) : AcceptorStep κ → Acceptor κ
  | .Listen clients => a.Listen clients
  | .connect client => a.connect client
  | .report => { a with edge := false, reading := true }
  | .accept answer => a.handlerRead answer

/-- `accept4` answers with a connection if there is one, or fails, and with `EAGAIN` only if there is
none. -/
def Answers (a : Acceptor κ) : Accept4 → Prop
  | .connfd _ => a.backlog ≠ []
  | .EAGAIN => a.backlog = []
  | .error aborted => aborted = true → a.backlog ≠ []

def Enabled (a : Acceptor κ) : AcceptorStep κ → Prop
  | .Listen _ => a.reading = false
  | .connect _ => True
  | .report => a.reading = false ∧ a.edge = true
  | .accept answer => a.reading = true ∧ a.Answers answer

instance [DecidableEq κ] (a : Acceptor κ) : (answer : Accept4) → Decidable (a.Answers answer)
  | .connfd _ => inferInstanceAs (Decidable (_ ≠ _))
  | .EAGAIN => inferInstanceAs (Decidable (_ = _))
  | .error _ => inferInstanceAs (Decidable (_ → _))

instance [DecidableEq κ] (a : Acceptor κ) : (e : AcceptorStep κ) → Decidable (a.Enabled e)
  | .Listen _ => inferInstanceAs (Decidable (_ = _))
  | .connect _ => isTrue trivial
  | .report => inferInstanceAs (Decidable (_ ∧ _))
  | .accept _ => inferInstanceAs (Decidable (_ ∧ _))

/-- Nothing will happen until a client connects. -/
def Rests (a : Acceptor κ) : Prop := a.listens = true ∧ a.reading = false ∧ a.edge = false

end Acceptor

namespace AcceptorStep

variable {κ : Type*}

/-- The loop is left with an error. -/
def Fails : AcceptorStep κ → Prop
  | accept (.error _) => True
  | _ => False

def Reports : AcceptorStep κ → Prop
  | report => True
  | _ => False

end AcceptorStep

namespace Acceptor

variable {κ : Type*} {a : Acceptor κ} {e : AcceptorStep κ}

theorem take_taken (h : a.backlog ≠ []) (fate : Fate) :
    (a.take fate).taken.map Prod.fst ++ (a.take fate).backlog = a.taken.map Prod.fst ++ a.backlog := by
  obtain ⟨client, rest, hbacklog⟩ := List.exists_cons_of_ne_nil h
  simp [take, hbacklog]

/-- A step puts clients at the end of the queue, or takes them from its front. -/
theorem step_taken (h : a.Enabled e) :
    (a.step e).taken.map Prod.fst ++ (a.step e).backlog = a.taken.map Prod.fst ++ a.backlog ++ a.queued e := by
  cases e with
  | Listen clients => exact (List.append_assoc ..).symm
  | connect client => exact (List.append_assoc ..).symm
  | report => exact (List.append_nil _).symm
  | accept answer =>
    rw [queued, List.append_nil]
    cases answer with
    | connfd fd =>
      have hne : a.backlog ≠ [] := h.2
      dsimp only [step, handlerRead]
      split
      · exact take_taken hne _
      · exact take_taken hne _
    | EAGAIN => rfl
    | error aborted =>
      cases aborted with
      | true => exact take_taken (h.2 rfl) _
      | false => rfl

/-- If connections wait, they will be reported, or they are being accepted. -/
def Heeds (a : Acceptor κ) : Prop :=
  a.listens = true → a.backlog ≠ [] → a.edge = true ∨ a.reading = true

theorem take_frame (a : Acceptor κ) (fate : Fate) :
    (a.take fate).mChannel = a.mChannel ∧ (a.take fate).edge = a.edge ∧ (a.take fate).reading = a.reading ∧
      (a.take fate).newConnCallback = a.newConnCallback := by
  unfold take
  split <;> exact ⟨rfl, rfl, rfl, rfl⟩

/-- Only an error ends the loop while connections wait. -/
theorem step_heeds (h : a.Enabled e) (hheeds : a.Heeds) (hfails : ¬ e.Fails) : (a.step e).Heeds := by
  intro hlistens hne
  cases e with
  | Listen clients =>
    left
    have hsome : (a.backlog ++ a.queued (.Listen clients)).isEmpty = false := List.isEmpty_eq_false_iff.mpr hne
    show (a.edge || !(a.backlog ++ a.queued (.Listen clients)).isEmpty) = true
    rw [hsome, Bool.not_false, Bool.or_true]
  | connect client =>
    have hlistens : a.listens = true := hlistens
    show (a.edge || a.listens && !(a.queued (.connect client)).isEmpty) = true ∨ a.reading = true
    rw [hlistens, Bool.true_and]
    by_cases hold : a.backlog = []
    · have hne : a.backlog ++ a.queued (.connect client) ≠ [] := hne
      rw [hold, List.nil_append] at hne
      exact Or.inl (by rw [List.isEmpty_eq_false_iff.mpr hne, Bool.not_false, Bool.or_true])
    · exact (hheeds hlistens hold).imp_left fun hedge => by rw [hedge, Bool.true_or]
  | report => exact Or.inr rfl
  | accept answer =>
    cases answer with
    | connfd fd =>
      right
      dsimp only [step, handlerRead]
      split
      · exact (take_frame a _).2.2.1.trans h.1
      · exact (take_frame a _).2.2.1.trans h.1
    | EAGAIN => exact absurd h.2 hne
    | error aborted => exact absurd trivial hfails

theorem step_callback (a : Acceptor κ) (e : AcceptorStep κ) : (a.step e).newConnCallback = a.newConnCallback := by
  cases e with
  | accept answer =>
    cases answer with
    | connfd fd =>
      dsimp only [step, handlerRead]
      split <;> exact (take_frame a _).2.2.2
    | EAGAIN => rfl
    | error aborted => cases aborted <;> first | rfl | exact (take_frame a _).2.2.2
  | _ => rfl

/-- A descriptor is closed only if there is no callback. -/
def Passes (a : Acceptor κ) : Prop := ∀ t ∈ a.taken, ∀ fd, t.2 = .close fd → a.newConnCallback = false

theorem take_passes (h : a.Passes) {fate : Fate} (hfate : ∀ fd, fate = .close fd → a.newConnCallback = false) :
    (a.take fate).Passes := by
  unfold take
  split
  · exact h
  · intro t ht fd hclose
    rcases List.mem_append.mp ht with hold | hnew
    · exact h t hold fd hclose
    · obtain rfl := List.mem_singleton.mp hnew
      exact hfate fd hclose

theorem step_passes (h : a.Passes) (e : AcceptorStep κ) : (a.step e).Passes := by
  cases e with
  | accept answer =>
    cases answer with
    | connfd fd =>
      dsimp only [step, handlerRead]
      split
      · exact take_passes h fun _ heq => by cases heq
      · rename_i hnone
        exact take_passes h fun _ _ => by simpa using hnone
    | EAGAIN => exact h
    | error aborted =>
      cases aborted with
      | true =>
        have htaken : (a.take .aborted).Passes := take_passes h fun _ heq => by cases heq
        exact htaken
      | false => exact h
  | _ => exact h

section
variable (garbage : Channel) (newConnCallback : Bool) (events : List (AcceptorStep κ))

def run : Acceptor κ := events.foldl step (new garbage newConnCallback)

/-- The clients that have been put in the queue. -/
def clients : List κ := outputs step queued (new garbage newConnCallback) events

variable {garbage newConnCallback events}

theorem run_concat (events : List (AcceptorStep κ)) (e : AcceptorStep κ) :
    run garbage newConnCallback (events ++ [e]) = (run garbage newConnCallback events).step e := by
  rw [run, List.foldl_append]
  rfl

theorem passes_run (garbage : Channel) (newConnCallback : Bool) (events : List (AcceptorStep κ)) :
    (run garbage newConnCallback events).Passes ∧
      (run garbage newConnCallback events).newConnCallback = newConnCallback := by
  refine List.foldlRecOn events step (motive := fun a => a.Passes ∧ a.newConnCallback = newConnCallback)
    ⟨fun t ht => absurd ht List.not_mem_nil, rfl⟩ fun a ⟨hpasses, hcallback⟩ e _ => ?_
  exact ⟨step_passes hpasses e, (step_callback a e).trans hcallback⟩

theorem clients_run (h : Along step Enabled (new garbage newConnCallback) events) :
    clients garbage newConnCallback events =
      (run garbage newConnCallback events).taken.map Prod.fst ++
        (run garbage newConnCallback events).backlog := by
  induction events using List.reverseRecOn with
  | nil => rfl
  | append_singleton events e ih =>
    obtain ⟨hbefore, hlast, _⟩ := along_append.mp h
    have hlast : (run garbage newConnCallback events).Enabled e := hlast
    rw [run_concat, step_taken hlast, ← ih hbefore, clients, clients, outputs_append, outputs, outputs,
      List.append_nil]
    rfl

theorem heeds_run (h : Along step Enabled (new garbage newConnCallback) events) :
    (run garbage newConnCallback events).Heeds ∨ Since AcceptorStep.Fails AcceptorStep.Reports events := by
  induction events using List.reverseRecOn with
  | nil => exact Or.inl fun _ hne => absurd rfl hne
  | append_singleton events e ih =>
    obtain ⟨hbefore, hlast, _⟩ := along_append.mp h
    rw [run_concat, since_concat]
    by_cases hfails : e.Fails
    · exact Or.inr (Or.inl hfails)
    · rcases ih hbefore with hheeds | hsince
      · exact Or.inl (step_heeds hlast hheeds hfails)
      · cases e with
        | report => exact Or.inl fun _ _ => Or.inr rfl
        | _ => exact Or.inr (Or.inr ⟨hsince, id⟩)

end

/-- Whatever the order in which clients connect and `accept4` answers: the clients that were queued have
been taken in their order, each once, or still wait, and each descriptor has been passed to the callback
if there is one. Clients wait without a report to come only if `handlerRead` was last left with an
error. -/
theorem accepts_run (garbage : Channel) (newConnCallback : Bool) (events : List (AcceptorStep κ))
    (h : Along step Enabled (new garbage newConnCallback) events) :
    clients garbage newConnCallback events =
        (run garbage newConnCallback events).taken.map Prod.fst ++ (run garbage newConnCallback events).backlog ∧
      (∀ t ∈ (run garbage newConnCallback events).taken, ∀ fd, t.2 = .close fd → newConnCallback = false) ∧
      ((run garbage newConnCallback events).Rests → (run garbage newConnCallback events).backlog ≠ [] →
        Since AcceptorStep.Fails AcceptorStep.Reports events) := by
  obtain ⟨hpasses, hcallback⟩ := passes_run garbage newConnCallback events
  refine ⟨clients_run h, fun t ht fd hclose => hcallback ▸ hpasses t ht fd hclose, fun hrests hne => ?_⟩
  refine (heeds_run h).resolve_left fun hheeds => ?_
  obtain ⟨hlistens, hreading, hedge⟩ := hrests
  rcases hheeds hlistens hne with hedge' | hreading'
  · exact Bool.false_ne_true (hedge.symm.trans hedge')
  · exact Bool.false_ne_true (hreading.symm.trans hreading')

/-- A client connects while another one is being accepted, and one finds no descriptor left. -/
def busy : List (AcceptorStep Nat) :=
  [.Listen [], .connect 1, .report, .accept (.connfd 5), .connect 2, .accept (.connfd 6), .accept .EAGAIN,
    .report, .accept .EAGAIN, .connect 3, .report, .accept (.error false)]

theorem accepts_run_busy :
    (run ⟨0, 0⟩ true busy).Rests ∧ (run ⟨0, 0⟩ true busy).backlog = [3] ∧
      clients ⟨0, 0⟩ true busy =
        (run ⟨0, 0⟩ true busy).taken.map Prod.fst ++ (run ⟨0, 0⟩ true busy).backlog ∧
      (∀ t ∈ (run ⟨0, 0⟩ true busy).taken, ∀ fd, t.2 = .close fd → true = false) ∧
      ((run ⟨0, 0⟩ true busy).Rests → (run ⟨0, 0⟩ true busy).backlog ≠ [] →
        Since AcceptorStep.Fails AcceptorStep.Reports busy) :=
  ⟨by unfold Rests; decide, by decide, accepts_run ⟨0, 0⟩ true busy (by decide)⟩

end Acceptor
end Knpnl.Net
