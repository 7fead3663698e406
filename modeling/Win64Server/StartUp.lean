import Win64Server.Library.Runs
import Mathlib.Tactic.Common

/-!
Starting up. `main` starts the timer's thread, starts the tasks, sets the flag that the timer's loop
tests and goes into its accept loop. The two threads take their steps in any order; the timer's
first test may come before the flag is set, and then the timer is gone.
-/
namespace Win64Server.StartUp

open Library

/-- Where `main` is. Up to `setUp` it makes the listening socket and the pool. -/
inductive MainAt
  | setUp
  | timerStarted
  | broadcastStarted
  | updateStarted
  | testing
  | accepting
  | cleaningUp
  | quit
deriving DecidableEq

/-- Where `timer_function` is. Before its loop it makes the list of the tasks' times. -/
inductive TimerAt
  | notStarted
  | sizing
  | testing
  | inLoop
  | left
deriving DecidableEq

structure Threads where
  main : MainAt
  timer : TimerAt
  serverRunning : Bool
deriving DecidableEq

def initial : Threads := ⟨.setUp, .notStarted, false⟩

/-- A thread goes on; the set-up of `main` may fail. -/
inductive Event
  | main (succeeds : Bool)
  | timer
deriving DecidableEq

def mainStep (s : Threads) (succeeds : Bool) : Threads :=
  match s.main with
  | .setUp =>
    if succeeds then { s with main := .timerStarted, timer := .sizing }
    else { s with main := .quit }
  | .timerStarted => { s with main := .broadcastStarted }
  | .broadcastStarted => { s with main := .updateStarted }
  | .updateStarted => { s with main := .testing, serverRunning := true }
  | .testing => { s with main := if s.serverRunning then .accepting else .cleaningUp }
  | .accepting => { s with main := .testing }
  | .cleaningUp => s
  | .quit => s

def timerStep (s : Threads) : Threads :=
  match s.timer with
  | .notStarted => s
  | .sizing => { s with timer := .testing }
  | .testing => { s with timer := if s.serverRunning then .inLoop else .left }
  | .inLoop => { s with timer := .testing }
  | .left => s

def step (s : Threads) : Event → Threads
  | .main succeeds => mainStep s succeeds
  | .timer => timerStep s

/-- The state after these events. -/
def run (events : List Event) : Threads := events.foldl step initial

/-- `main` is in its accept loop, at the test of the flag or past it. -/
def Threads.Accepts (s : Threads) : Prop :=
  (s.main = .testing ∨ s.main = .accepting) ∧ s.serverRunning = true

/-- The server accepts clients that nobody will serve. -/
def Threads.Stranded (s : Threads) : Prop := s.Accepts ∧ s.timer = .left

/-- The timer tests the flag before `main` has set it. -/
def EarlyTest (s : Threads) (e : Event) : Prop :=
  e = .timer ∧ s.timer = .testing ∧ s.serverRunning = false

/-- The timer's thread is started at the end of the set-up. -/
def Threads.Ordered (s : Threads) : Prop := s.main = .setUp → s.timer = .notStarted

theorem ordered_step (s : Threads) (e : Event) (h : s.Ordered) : (step s e).Ordered := by
  obtain ⟨main, timer, serverRunning⟩ := s
  unfold Threads.Ordered at h ⊢
  cases e with
  | main succeeds =>
    cases main <;> simp only [step, mainStep] <;> try simp
    · cases succeeds <;> simp
    · cases serverRunning <;> simp
  | timer =>
    intro hmain
    have hsetUp : main = .setUp := by
      rw [← hmain]
      cases timer <;> rfl
    have hnot : timer = .notStarted := h hsetUp
    subst hnot
    rfl

/-- A server that runs keeps running. -/
theorem accepts_step (s : Threads) (e : Event) (h : s.Accepts) : (step s e).Accepts := by
  obtain ⟨main, timer, serverRunning⟩ := s
  obtain ⟨hmain, hrunning⟩ := h
  dsimp only at hmain hrunning
  subst hrunning
  cases e with
  | main succeeds =>
    rcases hmain with rfl | rfl
    · exact ⟨Or.inr rfl, rfl⟩
    · exact ⟨Or.inl rfl, rfl⟩
  | timer => cases timer <;> exact ⟨hmain, rfl⟩

/-- A timer that has left does not come back. -/
theorem left_step (s : Threads) (e : Event) (h : s.Ordered ∧ s.timer = .left) :
    (step s e).Ordered ∧ (step s e).timer = .left := by
  refine ⟨ordered_step s e h.1, ?_⟩
  obtain ⟨main, timer, serverRunning⟩ := s
  obtain ⟨hordered, htimer⟩ := h
  dsimp only at htimer
  subst htimer
  cases e with
  | main succeeds =>
    cases main with
    | setUp => cases hordered rfl
    | _ => rfl
  | timer => rfl

/-- The timer leaves in a test that comes too early, and in no other step. -/
theorem timer_left_iff (s : Threads) (e : Event) (hordered : s.Ordered) (h : s.timer ≠ .left) :
    (step s e).timer ≠ .left ↔ ¬ EarlyTest s e := by
  obtain ⟨main, timer, serverRunning⟩ := s
  cases e with
  | main succeeds =>
    refine iff_of_true ?_ (by simp [EarlyTest])
    cases main with
    | setUp => cases succeeds <;> simp_all [step, mainStep, Threads.Ordered]
    | _ => exact h
  | timer => cases timer <;> cases serverRunning <;> simp_all [step, timerStep, EarlyTest]

/-- In every run: no state has `main` accepting without a timer exactly when, if `main` comes to
accept at all, no test of the timer comes too early. -/
theorem stranded_iff (events : List Event) :
    (∀ before, before <+: events → ¬ (run before).Stranded) ↔
      ((∃ before, before <+: events ∧ (run before).Accepts) →
        ∀ before e, before ++ [e] <+: events → ¬ EarlyTest (run before) e) := by
  have hordered : initial.Ordered := fun _ => rfl
  have hleft : (∀ before, before <+: events → (run before).timer ≠ .left) ↔
      ∀ before e, before ++ [e] <+: events → ¬ EarlyTest (run before) e :=
    along_run_iff (fun s e hs _ => ordered_step s e hs) timer_left_iff hordered (by decide) events
  have hruns (before : List Event) : (run before).Ordered :=
    foldl_inv ordered_step hordered before
  constructor
  · rintro hnever ⟨before, hbefore, haccepts⟩
    rw [← hleft]
    intro before' hbefore' htimer
    have hlater := foldl_stable accepts_step hbefore haccepts
    have hgone := foldl_stable left_step hbefore' ⟨hruns before', htimer⟩
    exact hnever events (List.prefix_refl events) ⟨hlater, hgone.2⟩
  · rintro h before hbefore ⟨haccepts, htimer⟩
    exact hleft.mpr (h ⟨before, hbefore, haccepts⟩) before hbefore htimer

/-- The timer is quicker than `main`. -/
theorem timer_first : ¬ ∀ events before : List Event, before <+: events →
    ¬ (run before).Stranded := by
  intro h
  have hprefix := List.prefix_refl
    [Event.main true, .timer, .timer, .main true, .main true, .main true, .main true]
  exact h _ _ hprefix (by unfold Threads.Stranded Threads.Accepts; decide)

end Win64Server.StartUp
