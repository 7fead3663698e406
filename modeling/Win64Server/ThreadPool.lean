import Win64Server.Library.Mutex
import Win64Server.Library.Runs
import Mathlib.Algebra.BigOperators.Group.Finset.Piecewise
import Mathlib.Algebra.Order.Group.Multiset
import Mathlib.Data.Fintype.Basic
import Mathlib.Data.List.Perm.Basic
import Mathlib.Logic.Relation
import Mathlib.Tactic.Abel

/-!
The thread pool. Workers take tasks from the front of a queue that a mutex guards; `enqueue`
appends to it and wakes a worker; the destructor sets a flag, wakes all workers and joins them.
The model follows every thread from one operation on the shared state to the next. Ghost lists
record in which order tasks were enqueued, taken, called and finished.
-/
namespace Win64Server.ThreadPool

open Library Relation Function

/-- A task in the queue. The number of the `enqueue` call that pushed it tells apart two tasks
that run the same function. -/
structure Task (τ : Type) where
  number : ℕ
  function : τ
  deriving DecidableEq

/-- Where a worker is in `ThreadPool::worker`. In `testing` and `deciding` it holds the mutex. -/
inductive Phase (τ : Type)
  | locking
  | testing
  | waiting
  | deciding
  | holding (task : Task τ)
  | running (task : Task τ)
  | returned
  deriving DecidableEq

/-- Where a thread is in `ThreadPool::enqueue`. In `pushing` it holds the mutex. -/
inductive Call (τ : Type)
  | idle
  | locking (function : τ)
  | pushing (function : τ)
  | notifying
  deriving DecidableEq

/-- Where the owner of the pool is in `~ThreadPool`. In `stopping` it holds the mutex. -/
inductive Destructor
  | notCalled
  | locking
  | stopping
  | notifying
  | joining
  | finished
  deriving DecidableEq

/-- The pool's workers, the threads outside that enqueue, and the owner. -/
inductive Thread (n : ℕ) (κ : Type)
  | worker (i : Fin n)
  | client (k : κ)
  | owner
  deriving DecidableEq

structure Pool (n : ℕ) (κ τ : Type) where
  tasks : List (Task τ)
  stop : Bool
  tasksMutex : Option (Thread n κ)
  workers : Fin n → Phase τ
  calls : Thread n κ → Call τ
  destructor : Destructor
  enqueued : List (Task τ)
  taken : List (Task τ)
  called : List (Task τ)
  finished : List (Task τ)

/-- After the constructor: every worker is about to lock the mutex for the first time. -/
def initial (n : ℕ) (κ τ : Type) : Pool n κ τ where
  tasks := []
  stop := false
  tasksMutex := none
  workers := fun _ => .locking
  calls := fun _ => .idle
  destructor := .notCalled
  enqueued := []
  taken := []
  called := []
  finished := []

variable {n : ℕ} {κ τ : Type}

namespace Pool

/-- The condition a worker waits for: `stop || !tasks.empty()`. -/
def ready (p : Pool n κ τ) : Bool := p.stop || !p.tasks.isEmpty

/-- The task the next `enqueue` pushes. -/
def nextTask (p : Pool n κ τ) (function : τ) : Task τ := ⟨p.enqueued.length, function⟩

/-- `notify_all`. -/
def wakeAll (workers : Fin n → Phase τ) : Fin n → Phase τ := fun i =>
  match workers i with
  | .waiting => .locking
  | phase => phase

/-- Waking moves a worker only from waiting to locking. -/
theorem wakeAll_eq {workers : Fin n → Phase τ} {i : Fin n} {phase : Phase τ}
    (hlocking : phase ≠ .locking) (h : wakeAll workers i = phase) :
    workers i = phase := by
  unfold wakeAll at h
  split at h
  · exact absurd h.symm hlocking
  · exact h

variable [DecidableEq κ]

def setWorker (p : Pool n κ τ) (i : Fin n) (phase : Phase τ) : Pool n κ τ :=
  { p with workers := update p.workers i phase }

def setCall (p : Pool n κ τ) (thread : Thread n κ) (call : Call τ) : Pool n κ τ :=
  { p with calls := update p.calls thread call }

end Pool

/-- Who may begin to enqueue: a worker whose task runs, or a thread outside. -/
def MayEnqueue (p : Pool n κ τ) : Thread n κ → Prop
  | .worker i => ∃ task, p.workers i = .running task
  | .client _ => True
  | .owner => False

/-- One step of one thread. A blocked thread is one that has no step. -/
inductive Step [DecidableEq κ] : Pool n κ τ → Pool n κ τ → Prop
  | lock {p : Pool n κ τ} {i : Fin n} (hphase : p.workers i = .locking)
      (hfree : p.tasksMutex = none) :
      Step p { p.setWorker i .testing with tasksMutex := some (.worker i) }
  -- `condition.wait` tests its predicate, and releases the mutex while it blocks.
  | wait {p : Pool n κ τ} {i : Fin n} (hphase : p.workers i = .testing)
      (hready : p.ready = false) :
      Step p { p.setWorker i .waiting with tasksMutex := none }
  | pass {p : Pool n κ τ} {i : Fin n} (hphase : p.workers i = .testing)
      (hready : p.ready = true) : Step p (p.setWorker i .deciding)
  -- A spurious wake-up; the mutex is locked and the predicate tested again.
  | wake {p : Pool n κ τ} {i : Fin n} (hphase : p.workers i = .waiting) :
      Step p (p.setWorker i .locking)
  | leave {p : Pool n κ τ} {i : Fin n} (hphase : p.workers i = .deciding)
      (hstop : p.stop = true) (hempty : p.tasks = []) :
      Step p { p.setWorker i .returned with tasksMutex := none }
  | take {p : Pool n κ τ} {i : Fin n} {task : Task τ} {rest : List (Task τ)}
      (hphase : p.workers i = .deciding) (hfront : p.tasks = task :: rest) :
      Step p { p.setWorker i (.holding task) with
        tasks := rest, taken := p.taken ++ [task], tasksMutex := none }
  | call {p : Pool n κ τ} {i : Fin n} {task : Task τ} (hphase : p.workers i = .holding task) :
      Step p { p.setWorker i (.running task) with called := p.called ++ [task] }
  | finish {p : Pool n κ τ} {i : Fin n} {task : Task τ} (hphase : p.workers i = .running task)
      (hcall : p.calls (.worker i) = .idle) :
      Step p { p.setWorker i .locking with finished := p.finished ++ [task] }
  | enqueue {p : Pool n κ τ} {t : Thread n κ} (function : τ) (hmay : MayEnqueue p t)
      (hcall : p.calls t = .idle) : Step p (p.setCall t (.locking function))
  -- Once `stop` is set, only tasks that run in the pool enqueue.
  | lockQueue {p : Pool n κ τ} {t : Thread n κ} {function : τ}
      (hcall : p.calls t = .locking function) (hfree : p.tasksMutex = none)
      (hstop : ∀ k, t = .client k → p.stop = false) :
      Step p { p.setCall t (.pushing function) with tasksMutex := some t }
  | push {p : Pool n κ τ} {t : Thread n κ} {function : τ}
      (hcall : p.calls t = .pushing function) :
      Step p { p.setCall t .notifying with
        tasks := p.tasks ++ [p.nextTask function], enqueued := p.enqueued ++ [p.nextTask function]
        tasksMutex := none }
  | notifyOne {p : Pool n κ τ} {t : Thread n κ} {i : Fin n}
      (hcall : p.calls t = .notifying) (hphase : p.workers i = .waiting) :
      Step p ((p.setCall t .idle).setWorker i .locking)
  | notifyNone {p : Pool n κ τ} {t : Thread n κ} (hcall : p.calls t = .notifying)
      (hnone : ∀ i, p.workers i ≠ .waiting) : Step p (p.setCall t .idle)
  | destroy {p : Pool n κ τ} (hphase : p.destructor = .notCalled) :
      Step p { p with destructor := .locking }
  | lockStop {p : Pool n κ τ} (hphase : p.destructor = .locking) (hfree : p.tasksMutex = none) :
      Step p { p with destructor := .stopping, tasksMutex := some .owner }
  | setStop {p : Pool n κ τ} (hphase : p.destructor = .stopping) :
      Step p { p with destructor := .notifying, stop := true, tasksMutex := none }
  | notifyAll {p : Pool n κ τ} (hphase : p.destructor = .notifying) :
      Step p { p with destructor := .joining, workers := Pool.wakeAll p.workers }
  | join {p : Pool n κ τ} (hphase : p.destructor = .joining)
      (hall : ∀ i, p.workers i = .returned) : Step p { p with destructor := .finished }

/-- The states of a pool of `n` workers. -/
def Reachable [DecidableEq κ] : Pool n κ τ → Prop := ReflTransGen Step (initial n κ τ)

section Counting

/-- The task a worker has taken and not yet called. -/
def held : Phase τ → Multiset (Task τ)
  | .holding task => {task}
  | _ => 0

/-- The task a worker is running. -/
def inProgress : Phase τ → Multiset (Task τ)
  | .running task => {task}
  | _ => 0

/-- The tasks in the hands of all workers. -/
def total (count : Phase τ → Multiset (Task τ)) (workers : Fin n → Phase τ) : Multiset (Task τ) :=
  ∑ i, count (workers i)

variable {count : Phase τ → Multiset (Task τ)} {workers : Fin n → Phase τ} {i : Fin n}
  {phase : Phase τ}

theorem total_update : total count (update workers i phase) + count (workers i) =
    total count workers + count phase := by
  have hupdate : (fun j => count (update workers i phase j)) =
      update (fun j => count (workers j)) i (count phase) := by
    funext j
    by_cases hj : j = i
    · subst hj
      simp
    · simp [hj]
  have hsplit : ∑ j, count (workers j) =
      count (workers i) + ∑ j ∈ Finset.univ \ {i}, count (workers j) := by
    rw [← Finset.sum_update_of_mem (Finset.mem_univ i), update_eq_self]
  rw [total, total, hupdate, Finset.sum_update_of_mem (Finset.mem_univ i), hsplit]
  abel

theorem total_update_of_eq (h : count phase = count (workers i)) :
    total count (update workers i phase) = total count workers := by
  have hsum : total count (update workers i phase) + count (workers i) =
      total count workers + count phase := total_update
  rw [h] at hsum
  exact add_right_cancel hsum

theorem total_gain (h : count (workers i) = 0) :
    total count (update workers i phase) = total count workers + count phase := by
  rw [← total_update (i := i), h, add_zero]

theorem total_loss (h : count phase = 0) :
    total count (update workers i phase) + count (workers i) = total count workers := by
  rw [total_update, h, add_zero]

theorem total_wakeAll (h : count .waiting = count .locking) :
    total count (Pool.wakeAll workers) = total count workers := by
  refine Finset.sum_congr rfl fun i _ => ?_
  unfold Pool.wakeAll
  cases workers i with
  | waiting => exact h.symm
  | locking => rfl
  | testing => rfl
  | deciding => rfl
  | holding task => rfl
  | running task => rfl
  | returned => rfl

/-- With every worker in one phase that holds nothing, nothing is held. -/
theorem total_eq_zero (h : ∀ i, count (workers i) = 0) : total count workers = 0 :=
  Finset.sum_eq_zero fun i _ => h i

end Counting

/-- Every task enqueued is in one place: in the queue, in the hands of a worker, or finished. -/
structure Accounted (p : Pool n κ τ) : Prop where
  order : p.taken ++ p.tasks = p.enqueued
  numbers : p.enqueued.map Task.number = List.range p.enqueued.length
  taken : (p.taken : Multiset (Task τ)) = p.called + total held p.workers
  called : (p.called : Multiset (Task τ)) = p.finished + total inProgress p.workers

/-- Only a thread that may enqueue is inside `enqueue`. -/
def Calling (p : Pool n κ τ) : Prop := ∀ thread, p.calls thread ≠ .idle → MayEnqueue p thread

/-- The threads in a critical section. -/
def Critical (p : Pool n κ τ) : Thread n κ → Prop
  | .worker i => p.workers i = .testing ∨ p.workers i = .deciding ∨
      ∃ function, p.calls (.worker i) = .pushing function
  | .client k => ∃ function, p.calls (.client k) = .pushing function
  | .owner => p.destructor = .stopping

/-- A thread in a critical section holds the mutex. -/
def Exclusive (p : Pool n κ τ) : Prop := Guards p.tasksMutex (Critical p)

/-- A worker that is about to take a task or to leave has one of the two to do. -/
def Ready (p : Pool n κ τ) : Prop := ∀ i, p.workers i = .deciding → p.ready = true

/-- While there is something to do there is a worker left to do it. -/
structure Staffed (p : Pool n κ τ) : Prop where
  stopped : ∀ i, p.workers i = .returned → p.stop = true
  clients : ∀ k function, p.calls (.client k) = .pushing function → p.stop = false
  working : p.tasks ≠ [] → ∃ i, p.workers i ≠ .returned

section Calls

variable {p q : Pool n κ τ} {thread : Thread n κ} {i : Fin n} {phase : Phase τ}
  {call : Call τ}

theorem Calling.idle (h : Calling p) (hphase : ∀ task, p.workers i ≠ .running task) :
    p.calls (.worker i) = .idle := by
  by_contra hcall
  obtain ⟨task, hrunning⟩ := h (.worker i) hcall
  exact hphase task hrunning

theorem Calling.setWorker (h : Calling p) (hidle : p.calls (.worker i) = .idle) :
    Calling (p.setWorker i phase) := by
  intro thread hcall
  have hmay : MayEnqueue p thread := h thread hcall
  cases thread with
  | worker j =>
    have hij : j ≠ i := by
      rintro rfl
      exact hcall hidle
    obtain ⟨task, hrunning⟩ := hmay
    exact ⟨task, by simpa [Pool.setWorker, hij] using hrunning⟩
  | client k => trivial
  | owner => exact hmay

theorem Calling.wakeAll (h : Calling p) {destructor : Destructor} :
    Calling { p with destructor := destructor, workers := Pool.wakeAll p.workers } := by
  intro thread hcall
  have hmay : MayEnqueue p thread := h thread hcall
  cases thread with
  | worker i =>
    obtain ⟨task, hrunning⟩ := hmay
    exact ⟨task, by simp [Pool.wakeAll, hrunning]⟩
  | client k => trivial
  | owner => exact hmay

variable [DecidableEq κ]

theorem Calling.setCall (h : Calling p) (hmay : MayEnqueue p thread) :
    Calling (p.setCall thread call) := by
  intro other hcall
  have hother : MayEnqueue p other := by
    by_cases heq : other = thread
    · exact heq ▸ hmay
    · exact h other (by simpa [Pool.setCall, heq] using hcall)
  cases other with
  | worker j => exact hother
  | client k => trivial
  | owner => exact hother

theorem Calling.step (h : Calling p) (hstep : Step p q) : Calling q := by
  cases hstep with
  | lock hphase hfree => exact h.setWorker (h.idle (by simp [hphase]))
  | wait hphase hready => exact h.setWorker (h.idle (by simp [hphase]))
  | pass hphase hready => exact h.setWorker (h.idle (by simp [hphase]))
  | wake hphase => exact h.setWorker (h.idle (by simp [hphase]))
  | leave hphase hstop hempty => exact h.setWorker (h.idle (by simp [hphase]))
  | take hphase hfront => exact h.setWorker (h.idle (by simp [hphase]))
  | call hphase => exact h.setWorker (h.idle (by simp [hphase]))
  | finish hphase hcall => exact h.setWorker hcall
  | enqueue function hmay hcall => exact h.setCall hmay
  | lockQueue hcall hfree hstop => exact h.setCall (h _ (by simp [hcall]))
  | push hcall => exact h.setCall (h _ (by simp [hcall]))
  | @notifyOne thread i hcall hphase =>
    have hset : Calling (p.setCall thread .idle) := h.setCall (h _ (by simp [hcall]))
    exact hset.setWorker (hset.idle (by simp [Pool.setCall, hphase]))
  | notifyNone hcall hnone => exact h.setCall (h _ (by simp [hcall]))
  | destroy hphase => exact h
  | lockStop hphase hfree => exact h
  | setStop hphase => exact h
  | notifyAll hphase => exact h.wakeAll
  | join hphase hall => exact h

end Calls

section Mutex

variable {p q : Pool n κ τ} {thread : Thread n κ} {i : Fin n} {phase : Phase τ} {call : Call τ}

theorem critical_setWorker_of_ne {other : Thread n κ} (hne : other ≠ .worker i) :
    Critical (p.setWorker i phase) other ↔ Critical p other := by
  cases other with
  | worker j =>
    have hij : j ≠ i := fun heq => hne (congrArg Thread.worker heq)
    simp [Critical, Pool.setWorker, hij]
  | client k => rfl
  | owner => rfl

/-- A worker outside its critical section and outside `enqueue` is not critical. -/
theorem not_critical_setWorker (htesting : phase ≠ .testing) (hdeciding : phase ≠ .deciding)
    (hidle : ∀ function, p.calls (.worker i) ≠ .pushing function) :
    ¬ Critical (p.setWorker i phase) (.worker i) := by
  simp [Critical, Pool.setWorker, htesting, hdeciding, hidle]

theorem critical_of_setWorker (htesting : phase ≠ .testing) (hdeciding : phase ≠ .deciding)
    {other : Thread n κ} (h : Critical (p.setWorker i phase) other) : Critical p other := by
  by_cases heq : other = .worker i
  · subst heq
    rcases h with hphase | hphase | hcall
    · exact absurd hphase (by simpa [Pool.setWorker] using htesting)
    · exact absurd hphase (by simpa [Pool.setWorker] using hdeciding)
    · exact Or.inr (Or.inr hcall)
  · exact (critical_setWorker_of_ne heq).mp h

theorem critical_of_ne_owner {other : Thread n κ} (h : Critical q other) (hne : other ≠ .owner)
    (hworkers : q.workers = p.workers) (hcalls : q.calls = p.calls) : Critical p other := by
  cases other with
  | worker i => simpa only [Critical, hworkers, hcalls] using h
  | client k => simpa only [Critical, hcalls] using h
  | owner => exact absurd rfl hne

theorem critical_of_owner {other : Thread n κ} (h : Critical q other)
    (howner : q.destructor ≠ .stopping) (hworkers : q.workers = p.workers)
    (hcalls : q.calls = p.calls) : Critical p other := by
  have hne : other ≠ .owner := by
    rintro rfl
    exact howner h
  exact critical_of_ne_owner h hne hworkers hcalls

theorem critical_wakeAll {destructor : Destructor} {other : Thread n κ}
    (howner : destructor ≠ .stopping) (h : Critical
      { p with destructor := destructor, workers := Pool.wakeAll p.workers } other) :
    Critical p other := by
  cases other with
  | worker i =>
    rcases h with hphase | hphase | hcall
    · exact Or.inl (Pool.wakeAll_eq (by simp) hphase)
    · exact Or.inr (Or.inl (Pool.wakeAll_eq (by simp) hphase))
    · exact Or.inr (Or.inr hcall)
  | client k => exact h
  | owner => exact absurd h howner

variable [DecidableEq κ]

theorem critical_setCall_of_ne {other : Thread n κ} (hne : other ≠ thread) :
    Critical (p.setCall thread call) other ↔ Critical p other := by
  cases other with
  | worker j => simp [Critical, Pool.setCall, hne]
  | client k => simp [Critical, Pool.setCall, hne]
  | owner => rfl

theorem critical_of_setCall (hcall : ∀ function, call ≠ .pushing function) {other : Thread n κ}
    (h : Critical (p.setCall thread call) other) : Critical p other := by
  by_cases heq : other = thread
  · subst heq
    cases other with
    | worker j =>
      rcases h with hphase | hphase | ⟨function, hpushing⟩
      · exact Or.inl hphase
      · exact Or.inr (Or.inl hphase)
      · exact absurd hpushing (by simp [Pool.setCall, hcall])
    | client k => simp [Critical, Pool.setCall, hcall] at h
    | owner => exact h
  · exact (critical_setCall_of_ne heq).mp h

/-- A thread that has left `enqueue`'s critical section is not in another one. -/
theorem not_critical_setCall (hmay : MayEnqueue p thread)
    (hcall : ∀ function, call ≠ .pushing function) : ¬ Critical (p.setCall thread call) thread := by
  cases thread with
  | worker i =>
    obtain ⟨task, hrunning⟩ := hmay
    simp [Critical, Pool.setCall, hrunning, hcall]
  | client k => simp [Critical, Pool.setCall, hcall]
  | owner => exact hmay.elim

theorem Exclusive.step (h : Exclusive p) (hcalls : Calling p) (hstep : Step p q) :
    Exclusive q := by
  cases hstep with
  | lock hphase hfree =>
    rw [Exclusive, hfree] at h
    exact Guards.enter h fun other hne => (critical_setWorker_of_ne hne).mp
  | @wait i hphase hready =>
    have hidle : p.calls (.worker i) = .idle := hcalls.idle (by simp [hphase])
    exact Guards.exit (i := .worker i) h (Or.inl hphase)
      (not_critical_setWorker (by simp) (by simp) (by simp [hidle]))
      fun other hne => (critical_setWorker_of_ne hne).mp
  | @pass i hphase hready =>
    refine Guards.keep h fun other hother => ?_
    by_cases heq : other = .worker i
    · exact heq ▸ Or.inl hphase
    · exact (critical_setWorker_of_ne heq).mp hother
  | wake hphase => exact Guards.keep h fun other => critical_of_setWorker (by simp) (by simp)
  | @leave i hphase hstop hempty =>
    have hidle : p.calls (.worker i) = .idle := hcalls.idle (by simp [hphase])
    exact Guards.exit (i := .worker i) h (Or.inr (Or.inl hphase))
      (not_critical_setWorker (by simp) (by simp) (by simp [hidle]))
      fun other hne => (critical_setWorker_of_ne hne).mp
  | @take i task rest hphase hfront =>
    have hidle : p.calls (.worker i) = .idle := hcalls.idle (by simp [hphase])
    exact Guards.exit (i := .worker i) h (Or.inr (Or.inl hphase))
      (not_critical_setWorker (by simp) (by simp) (by simp [hidle]))
      fun other hne => (critical_setWorker_of_ne hne).mp
  | call hphase => exact Guards.keep h fun other => critical_of_setWorker (by simp) (by simp)
  | finish hphase hcall =>
    exact Guards.keep h fun other => critical_of_setWorker (by simp) (by simp)
  | enqueue function hmay hcall => exact Guards.keep h fun other => critical_of_setCall (by simp)
  | lockQueue hcall hfree hstop =>
    rw [Exclusive, hfree] at h
    exact Guards.enter h fun other hne => (critical_setCall_of_ne (p := p) hne).mp
  | @push thread function hcall =>
    have hmay : MayEnqueue p thread := hcalls thread (by simp [hcall])
    have hin : Critical p thread := by
      cases thread with
      | worker i => exact Or.inr (Or.inr ⟨function, hcall⟩)
      | client k => exact ⟨function, hcall⟩
      | owner => exact hmay.elim
    exact Guards.exit h hin (not_critical_setCall hmay (by simp))
      fun other hne => (critical_setCall_of_ne (p := p) hne).mp
  | notifyOne hcall hphase =>
    exact Guards.keep h fun other hother =>
      critical_of_setCall (by simp) (critical_of_setWorker (by simp) (by simp) hother)
  | notifyNone hcall hnone => exact Guards.keep h fun other => critical_of_setCall (by simp)
  | destroy hphase =>
    exact Guards.keep h fun other hother => critical_of_owner hother (by simp) rfl rfl
  | lockStop hphase hfree =>
    rw [Exclusive, hfree] at h
    exact Guards.enter h fun other hne hother => critical_of_ne_owner hother hne rfl rfl
  | setStop hphase =>
    exact Guards.exit (i := .owner) h hphase (fun hout => by cases hout)
      fun other hne hother => critical_of_ne_owner hother hne rfl rfl
  | notifyAll hphase => exact Guards.keep h fun other => critical_wakeAll (by simp)
  | join hphase hall =>
    exact Guards.keep h fun other hother => critical_of_owner hother (by simp) rfl rfl

end Mutex

section Accounts

variable {p q : Pool n κ τ} {i : Fin n} {phase : Phase τ} {task : Task τ}

/-- A worker moves on with nothing in its hands, or with the same. -/
theorem Accounted.setWorker (h : Accounted p) (hheld : held phase = held (p.workers i))
    (hprogress : inProgress phase = inProgress (p.workers i)) :
    Accounted (p.setWorker i phase) where
  order := h.order
  numbers := h.numbers
  taken := h.taken.trans (congrArg _ (total_update_of_eq hheld).symm)
  called := h.called.trans (congrArg _ (total_update_of_eq hprogress).symm)

theorem Accounted.take (h : Accounted p) {rest : List (Task τ)} (hphase : p.workers i = .deciding)
    (hfront : p.tasks = task :: rest) : Accounted { p.setWorker i (.holding task) with
      tasks := rest, taken := p.taken ++ [task], tasksMutex := none } where
  order := by
    show p.taken ++ [task] ++ rest = p.enqueued
    rw [← h.order, hfront, List.append_assoc, List.singleton_append]
  numbers := h.numbers
  taken := by
    show ((p.taken ++ [task] : List (Task τ)) : Multiset (Task τ)) =
      p.called + total held (update p.workers i (.holding task))
    rw [total_gain (by rw [hphase]; rfl), ← add_assoc, ← h.taken]
    rfl
  called := h.called.trans (congrArg _ (total_update_of_eq (by rw [hphase]; rfl)).symm)

theorem Accounted.call (h : Accounted p) (hphase : p.workers i = .holding task) :
    Accounted { p.setWorker i (.running task) with called := p.called ++ [task] } where
  order := h.order
  numbers := h.numbers
  taken := by
    have hheld : total held (update p.workers i (.running task)) + held (p.workers i) =
        total held p.workers := total_loss rfl
    show (p.taken : Multiset (Task τ)) = (p.called ++ [task] : List (Task τ)) +
      total held (update p.workers i (.running task))
    rw [h.taken, ← hheld, hphase, ← Multiset.coe_add, add_assoc, add_comm (total held _)]
    rfl
  called := by
    show ((p.called ++ [task] : List (Task τ)) : Multiset (Task τ)) =
      p.finished + total inProgress (update p.workers i (.running task))
    rw [total_gain (by rw [hphase]; rfl), ← add_assoc, ← h.called]
    rfl

theorem Accounted.finish (h : Accounted p) (hphase : p.workers i = .running task) :
    Accounted { p.setWorker i .locking with finished := p.finished ++ [task] } where
  order := h.order
  numbers := h.numbers
  taken := h.taken.trans (congrArg _ (total_update_of_eq (by rw [hphase]; rfl)).symm)
  called := by
    have hprogress : total inProgress (update p.workers i .locking) + inProgress (p.workers i) =
        total inProgress p.workers := total_loss rfl
    show (p.called : Multiset (Task τ)) = (p.finished ++ [task] : List (Task τ)) +
      total inProgress (update p.workers i .locking)
    rw [h.called, ← hprogress, hphase, ← Multiset.coe_add, add_assoc,
      add_comm (total inProgress _)]
    rfl

theorem Accounted.push [DecidableEq κ] (h : Accounted p) (thread : Thread n κ) (function : τ) :
    Accounted { p.setCall thread .notifying with
      tasks := p.tasks ++ [p.nextTask function], enqueued := p.enqueued ++ [p.nextTask function]
      tasksMutex := none } where
  order := by
    rw [← List.append_assoc]
    exact congrArg (· ++ [p.nextTask function]) h.order
  numbers := by
    rw [List.map_append, List.length_append, h.numbers]
    exact List.range_succ.symm
  taken := h.taken
  called := h.called

theorem Accounted.step [DecidableEq κ] (h : Accounted p) (hstep : Step p q) : Accounted q := by
  cases hstep with
  | @lock i hphase hfree =>
    have hset : Accounted (p.setWorker i .testing) :=
      h.setWorker (by rw [hphase]; rfl) (by rw [hphase]; rfl)
    exact { hset with }
  | @wait i hphase hready =>
    have hset : Accounted (p.setWorker i .waiting) :=
      h.setWorker (by rw [hphase]; rfl) (by rw [hphase]; rfl)
    exact { hset with }
  | @pass i hphase hready =>
    have hset : Accounted (p.setWorker i .deciding) :=
      h.setWorker (by rw [hphase]; rfl) (by rw [hphase]; rfl)
    exact { hset with }
  | @wake i hphase =>
    have hset : Accounted (p.setWorker i .locking) :=
      h.setWorker (by rw [hphase]; rfl) (by rw [hphase]; rfl)
    exact { hset with }
  | @leave i hphase hstop hempty =>
    have hset : Accounted (p.setWorker i .returned) :=
      h.setWorker (by rw [hphase]; rfl) (by rw [hphase]; rfl)
    exact { hset with }
  | take hphase hfront => exact h.take hphase hfront
  | call hphase => exact h.call hphase
  | finish hphase hcall => exact h.finish hphase
  | enqueue function hmay hcall => exact { h with }
  | lockQueue hcall hfree hstop => exact { h with }
  | @push thread function hcall => exact h.push thread function
  | @notifyOne thread i hcall hphase =>
    have hset : Accounted (p.setWorker i .locking) :=
      h.setWorker (by rw [hphase]; rfl) (by rw [hphase]; rfl)
    exact { hset with }
  | notifyNone hcall hnone => exact { h with }
  | destroy hphase => exact { h with }
  | lockStop hphase hfree => exact { h with }
  | setStop hphase => exact { h with }
  | notifyAll hphase =>
    exact { h with
      taken := h.taken.trans (congrArg _ (total_wakeAll rfl).symm)
      called := h.called.trans (congrArg _ (total_wakeAll rfl).symm) }
  | join hphase hall => exact { h with }

end Accounts

section Staff

variable {p q : Pool n κ τ} {i : Fin n} {phase : Phase τ}

theorem Staffed.setWorker (h : Staffed p) (hphase : phase ≠ .returned) :
    Staffed (p.setWorker i phase) where
  stopped := by
    intro j hreturned
    by_cases hij : j = i
    · subst hij
      exact absurd (by simpa [Pool.setWorker] using hreturned) hphase
    · exact h.stopped j (by simpa [Pool.setWorker, hij] using hreturned)
  clients := h.clients
  working := fun _ => ⟨i, by simpa [Pool.setWorker] using hphase⟩

/-- A worker leaves an empty queue behind. -/
theorem Staffed.leave (h : Staffed p) (hstop : p.stop = true) (hempty : p.tasks = []) :
    Staffed { p.setWorker i .returned with tasksMutex := none } where
  stopped := fun _ _ => hstop
  clients := h.clients
  working := fun htasks => absurd hempty htasks

theorem Staffed.take (h : Staffed p) {task : Task τ} {rest : List (Task τ)} :
    Staffed { p.setWorker i (.holding task) with
      tasks := rest, taken := p.taken ++ [task], tasksMutex := none } where
  stopped := (h.setWorker (by simp)).stopped
  clients := h.clients
  working := fun _ => ⟨i, by simp [Pool.setWorker]⟩

theorem Staffed.wakeAll (h : Staffed p) {destructor : Destructor} :
    Staffed { p with destructor := destructor, workers := Pool.wakeAll p.workers } where
  stopped := fun i hreturned => h.stopped i (Pool.wakeAll_eq (by simp) hreturned)
  clients := h.clients
  working := by
    intro htasks
    obtain ⟨i, hi⟩ := h.working htasks
    exact ⟨i, fun hreturned => hi (Pool.wakeAll_eq (by simp) hreturned)⟩

theorem Staffed.setStop (h : Staffed p) (hmutex : Exclusive p) (hphase : p.destructor = .stopping) :
    Staffed { p with destructor := .notifying, stop := true, tasksMutex := none } where
  stopped := fun _ _ => rfl
  clients := by
    intro k function hpushing
    -- The owner and the client would both hold the mutex.
    have howner : p.tasksMutex = some .owner := hmutex .owner hphase
    have hclient : p.tasksMutex = some (.client k) := hmutex (.client k) ⟨function, hpushing⟩
    rw [howner] at hclient
    cases hclient
  working := h.working

variable [DecidableEq κ] {thread : Thread n κ} {call : Call τ}

theorem Staffed.setCall (h : Staffed p)
    (hstop : ∀ k function, thread = .client k → call = .pushing function → p.stop = false) :
    Staffed (p.setCall thread call) where
  stopped := h.stopped
  clients := by
    intro k function hpushing
    by_cases heq : thread = .client k
    · subst heq
      exact hstop k function rfl (by simpa [Pool.setCall] using hpushing)
    · exact h.clients k function (by simpa [Pool.setCall, Ne.symm heq] using hpushing)
  working := h.working

/-- Whoever pushes a task, a worker is left: the one that pushes it, or all of them. -/
theorem Staffed.push (h : Staffed p) (hn : 0 < n) (hcalls : Calling p) {function : τ}
    (hcall : p.calls thread = .pushing function) {tasks enqueued : List (Task τ)} :
    Staffed { p.setCall thread .notifying with
      tasks := tasks, enqueued := enqueued, tasksMutex := none } where
  stopped := h.stopped
  clients := (h.setCall (by simp)).clients
  working := by
    intro _
    have hmay : MayEnqueue p thread := hcalls thread (by simp [hcall])
    cases thread with
    | worker i =>
      obtain ⟨task, hrunning⟩ := hmay
      exact ⟨i, by simp [Pool.setCall, hrunning]⟩
    | client k =>
      have hstop : p.stop = false := h.clients k function hcall
      refine ⟨⟨0, hn⟩, fun hreturned => ?_⟩
      have hset : p.stop = true := h.stopped _ hreturned
      rw [hstop] at hset
      cases hset
    | owner => exact hmay.elim

theorem Staffed.step (h : Staffed p) (hn : 0 < n) (hcalls : Calling p) (hmutex : Exclusive p)
    (hstep : Step p q) : Staffed q := by
  cases hstep with
  | @lock i hphase hfree =>
    have hset : Staffed (p.setWorker i .testing) := h.setWorker (by simp)
    exact { hset with }
  | @wait i hphase hready =>
    have hset : Staffed (p.setWorker i .waiting) := h.setWorker (by simp)
    exact { hset with }
  | @pass i hphase hready =>
    have hset : Staffed (p.setWorker i .deciding) := h.setWorker (by simp)
    exact { hset with }
  | @wake i hphase =>
    have hset : Staffed (p.setWorker i .locking) := h.setWorker (by simp)
    exact { hset with }
  | leave hphase hstop hempty => exact h.leave hstop hempty
  | take hphase hfront => exact h.take
  | @call i task hphase =>
    have hset : Staffed (p.setWorker i (.running task)) := h.setWorker (by simp)
    exact { hset with }
  | @finish i task hphase hcall =>
    have hset : Staffed (p.setWorker i .locking) := h.setWorker (by simp)
    exact { hset with }
  | enqueue function hmay hcall => exact h.setCall (by simp)
  | @lockQueue thread function hcall hfree hstop =>
    have hset : Staffed (p.setCall thread (.pushing function)) :=
      h.setCall fun k _ hk _ => hstop k hk
    exact { hset with }
  | push hcall => exact h.push hn hcalls hcall
  | @notifyOne thread i hcall hphase =>
    exact (h.setCall (by simp)).setWorker (by simp)
  | notifyNone hcall hnone => exact h.setCall (by simp)
  | destroy hphase => exact { h with }
  | lockStop hphase hfree => exact { h with }
  | setStop hphase => exact h.setStop hmutex hphase
  | notifyAll hphase => exact h.wakeAll
  | join hphase hall => exact { h with }

end Staff

section Fronts

variable {p q : Pool n κ τ} {i : Fin n} {phase : Phase τ}

theorem Ready.setWorker (h : Ready p) (hphase : phase = .deciding → p.ready = true) :
    Ready (p.setWorker i phase) := by
  intro j hdeciding
  by_cases hij : j = i
  · subst hij
    exact hphase (by simpa [Pool.setWorker] using hdeciding)
  · exact h j (by simpa [Pool.setWorker, hij] using hdeciding)

/-- Two workers are never both about to take a task. -/
theorem Ready.take (hmutex : Exclusive p) (hphase : p.workers i = .deciding) {task : Task τ}
    {rest : List (Task τ)} : Ready { p.setWorker i (.holding task) with
      tasks := rest, taken := p.taken ++ [task], tasksMutex := none } := by
  intro j hdeciding
  by_cases hij : j = i
  · subst hij
    simp [Pool.setWorker] at hdeciding
  · have hj : p.tasksMutex = some (.worker j) :=
      hmutex _ (Or.inr (Or.inl (by simpa [Pool.setWorker, hij] using hdeciding)))
    rw [hmutex (.worker i) (Or.inr (Or.inl hphase))] at hj
    exact absurd (Thread.worker.inj (Option.some.inj hj)) (Ne.symm hij)

theorem Ready.step [DecidableEq κ] (h : Ready p) (hmutex : Exclusive p) (hstep : Step p q) :
    Ready q := by
  cases hstep with
  | lock hphase hfree => exact h.setWorker (by simp)
  | wait hphase hready => exact h.setWorker (by simp)
  | pass hphase hready => exact h.setWorker fun _ => hready
  | wake hphase => exact h.setWorker (by simp)
  | leave hphase hstop hempty => exact h.setWorker (by simp)
  | take hphase hfront => exact Ready.take hmutex hphase
  | call hphase => exact h.setWorker (by simp)
  | finish hphase hcall => exact h.setWorker (by simp)
  | enqueue function hmay hcall => exact h
  | lockQueue hcall hfree hstop => exact h
  | push hcall => exact fun _ _ => by simp [Pool.ready]
  | notifyOne hcall hphase => exact Ready.setWorker (p := p.setCall _ _) h (by simp)
  | notifyNone hcall hnone => exact h
  | destroy hphase => exact h
  | lockStop hphase hfree => exact h
  | setStop hphase => exact fun _ _ => by simp [Pool.ready]
  | notifyAll hphase => exact fun i hdeciding => h i (Pool.wakeAll_eq (by simp) hdeciding)
  | join hphase hall => exact h

end Fronts

/-- What holds in every state of a pool that has workers. -/
structure Sound (p : Pool n κ τ) : Prop where
  accounted : Accounted p
  calling : Calling p
  exclusive : Exclusive p
  ready : Ready p
  staffed : Staffed p

theorem sound_initial : Sound (initial n κ τ) where
  accounted := {
    order := rfl
    numbers := rfl
    taken := by
      show (0 : Multiset (Task τ)) = 0 + total held fun _ : Fin n => .locking
      rw [total_eq_zero fun _ => rfl, add_zero]
    called := by
      show (0 : Multiset (Task τ)) = 0 + total inProgress fun _ : Fin n => .locking
      rw [total_eq_zero fun _ => rfl, add_zero] }
  calling := fun _ hcall => absurd rfl hcall
  exclusive := by
    intro thread hin
    cases thread <;> simp [Critical, initial] at hin
  ready := fun _ hdeciding => by cases hdeciding
  staffed := {
    stopped := fun _ hreturned => by cases hreturned
    clients := fun _ _ _ => rfl
    working := fun htasks => absurd rfl htasks }

section Runs

variable [DecidableEq κ] {p q : Pool n κ τ}

theorem Sound.step (h : Sound p) (hn : 0 < n) (hstep : Step p q) : Sound q where
  accounted := h.accounted.step hstep
  calling := h.calling.step hstep
  exclusive := h.exclusive.step h.calling hstep
  ready := h.ready.step h.exclusive hstep
  staffed := h.staffed.step hn h.calling h.exclusive hstep

theorem sound_of_reachable (hn : 0 < n) (h : Reachable p) : Sound p := by
  induction h with
  | refl => exact sound_initial
  | tail _ hstep ih => exact ih.step hn hstep

/-- `tasks.front()` is never read from an empty queue. -/
theorem front_of_deciding (hn : 0 < n) (h : Reachable p) {i : Fin n}
    (hphase : p.workers i = .deciding) (hleave : ¬ (p.stop = true ∧ p.tasks = [])) :
    p.tasks ≠ [] := by
  intro hempty
  have hready : p.ready = true := (sound_of_reachable hn h).ready i hphase
  simp only [Pool.ready, hempty, List.isEmpty_nil, Bool.not_true, Bool.or_false] at hready
  exact hleave ⟨hready, hempty⟩

end Runs

/-- Two tasks enqueued by different calls are different. -/
theorem Accounted.nodup {p : Pool n κ τ} (h : Accounted p) : p.enqueued.Nodup :=
  List.Nodup.of_map Task.number (h.numbers ▸ List.nodup_range)

theorem Accounted.called_subperm {p : Pool n κ τ} (h : Accounted p) : p.called.Subperm p.taken := by
  rw [← Multiset.coe_le, h.taken]
  exact Multiset.le_add_right _ _

theorem Accounted.called_nodup {p : Pool n κ τ} (h : Accounted p) : p.called.Nodup := by
  have htaken : p.taken.Nodup := (h.order ▸ h.nodup).of_append_left
  rw [← Multiset.coe_nodup] at htaken ⊢
  exact Multiset.nodup_of_le (Multiset.coe_le.mpr h.called_subperm) htaken

/-- When all workers have returned, nothing is in their hands and nothing is left. -/
theorem Sound.drained {p : Pool n κ τ} (h : Sound p) (hall : ∀ i, p.workers i = .returned) :
    p.tasks = [] ∧ p.called.Perm p.enqueued ∧ p.finished.Perm p.enqueued := by
  have htasks : p.tasks = [] := by
    by_contra htasks
    obtain ⟨i, hi⟩ := h.staffed.working htasks
    exact hi (hall i)
  have htaken : p.taken = p.enqueued := by
    rw [← h.accounted.order, htasks, List.append_nil]
  have hheld : total held p.workers = 0 := total_eq_zero fun i => by rw [hall i]; rfl
  have hprogress : total inProgress p.workers = 0 := total_eq_zero fun i => by rw [hall i]; rfl
  have hcalled : p.called.Perm p.enqueued := by
    rw [← Multiset.coe_eq_coe, ← htaken, h.accounted.taken, hheld, add_zero]
  have hfinished : p.finished.Perm p.called := by
    rw [← Multiset.coe_eq_coe, h.accounted.called, hprogress, add_zero]
  exact ⟨htasks, hcalled, hfinished.trans hcalled⟩

/-- The first component tells the enqueued tasks apart: they carry the numbers 0, 1, 2, … -/
theorem tasks_run_once [DecidableEq κ] (hn : 0 < n) {p : Pool n κ τ} (h : Reachable p) :
    p.enqueued.map Task.number = List.range p.enqueued.length ∧
      p.taken ++ p.tasks = p.enqueued ∧ p.called.Nodup ∧ p.called ⊆ p.taken ∧
      ((∀ i, p.workers i = .returned) →
        p.tasks = [] ∧ p.called.Perm p.enqueued ∧ p.finished.Perm p.enqueued) := by
  have hsound : Sound p := sound_of_reachable hn h
  have hacc : Accounted p := hsound.accounted
  exact ⟨hacc.numbers, hacc.order, hacc.called_nodup, hacc.called_subperm.subset, hsound.drained⟩

/-- A task enqueues another one, and the destructor is called before that one is taken. -/
theorem leads_drained : Leads Step
    (fun p => (∀ i, p.workers i = .returned) ∧ p.enqueued = [⟨0, 7⟩, ⟨1, 8⟩])
    (initial 1 Unit ℕ) := by
  refine .after (.enqueue (t := .client ()) 7 trivial rfl) ?_
  refine .after (.lockQueue (t := .client ()) rfl rfl fun _ _ => rfl) ?_
  refine .after (.push (t := .client ()) rfl) ?_
  refine .after (.notifyNone (t := .client ()) rfl (by decide)) ?_
  refine .after (.lock (i := 0) rfl rfl) ?_
  refine .after (.pass (i := 0) rfl rfl) ?_
  refine .after (.take (i := 0) rfl rfl) ?_
  refine .after (.call (i := 0) rfl) ?_
  refine .after (.destroy rfl) ?_
  refine .after (.lockStop rfl rfl) ?_
  refine .after (.setStop rfl) ?_
  refine .after (.notifyAll rfl) ?_
  refine .after (.enqueue (t := .worker 0) 8 ⟨⟨0, 7⟩, rfl⟩ rfl) ?_
  refine .after (.lockQueue (t := .worker 0) rfl rfl (by simp)) ?_
  refine .after (.push (t := .worker 0) rfl) ?_
  refine .after (.notifyNone (t := .worker 0) rfl (by decide)) ?_
  refine .after (.finish (i := 0) rfl rfl) ?_
  refine .after (.lock (i := 0) rfl rfl) ?_
  refine .after (.pass (i := 0) rfl rfl) ?_
  refine .after (.take (i := 0) rfl rfl) ?_
  refine .after (.call (i := 0) rfl) ?_
  refine .after (.finish (i := 0) rfl rfl) ?_
  refine .after (.lock (i := 0) rfl rfl) ?_
  refine .after (.pass (i := 0) rfl rfl) ?_
  refine .after (.leave (i := 0) rfl rfl rfl) ?_
  exact .here ⟨by decide, rfl⟩

theorem tasks_run_once_two : ∃ p : Pool 1 Unit ℕ, (∀ i, p.workers i = .returned) ∧
    p.called.Nodup ∧ p.finished.Perm [⟨0, 7⟩, ⟨1, 8⟩] := by
  obtain ⟨p, hrun, hall, henqueued⟩ := leads_drained
  have honce := tasks_run_once (by decide) hrun
  exact ⟨p, hall, honce.2.2.1, henqueued ▸ (honce.2.2.2.2 hall).2.2⟩

end Win64Server.ThreadPool
