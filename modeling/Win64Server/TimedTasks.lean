import Win64Server.Library.Runs
import Mathlib.Logic.Function.Basic
import Mathlib.Tactic.Common

/-!
The timer's tasks. Tasks are put on a list and taken off it while the timer runs, and at each of
its rounds the timer looks at the places of the list one after the other. When a task at a place was
last enqueued it looks up at the same place of another list, which it has made before its first
round.
-/
namespace Win64Server.TimedTasks

open Library

variable {τ : Type}

/-- A call of `TimedTask::start` or `TimedTask::stop`. -/
inductive Call (τ : Type)
  | start (task : τ)
  | stop (task : τ)
deriving DecidableEq

/-- Where `timer_function` is: it has read the clock in `locking`, and holds the mutex of the tasks
in `looking`. A place behind the end of its list of times is undefined. -/
inductive TimerAt
  | notStarted
  | between
  | locking (currentTime : ℤ)
  | looking (currentTime : ℤ) (i : ℕ)
  | undefined
deriving DecidableEq

/-- `pending` holds the calls that have set their flag and not yet changed the list. What the timer
has enqueued is recorded from the last to the first, with the list of tasks and the time at which it
began. -/
structure State (τ : Type) where
  tasks : List τ
  taskRunning : τ → Bool
  pending : List (Call τ)
  clock : ℤ
  timer : TimerAt
  lastExecution : List ℤ
  enqueued : List (τ × ℤ)
  firstTasks : List τ
  firstTime : ℤ

def initial (clock : ℤ) : State τ where
  tasks := []
  taskRunning := fun _ => false
  pending := []
  clock := clock
  timer := .notStarted
  lastExecution := []
  enqueued := []
  firstTasks := []
  firstTime := clock

/-- A thread calls, a thread that has called gets the mutex, time passes, or the timer goes on. -/
inductive Event (τ : Type)
  | call (call : Call τ)
  | finish (k : ℕ)
  | pass (duration : ℕ)
  | timer
deriving DecidableEq

/-- The place of the list of times that the timer uses next, with the task it uses it for. -/
def State.used (s : State τ) : Option (ℕ × τ) :=
  match s.timer with
  | .looking _ i =>
    (s.tasks[i]?).bind fun task => if s.taskRunning task then some (i, task) else none
  | _ => none

theorem used_eq {s : State τ} {currentTime : ℤ} {i : ℕ} {task : τ}
    (htimer : s.timer = .looking currentTime i) (htask : s.tasks[i]? = some task)
    (hrunning : s.taskRunning task = true) : (i, task) ∈ s.used := by
  simp [State.used, htimer, htask, hrunning]

variable [DecidableEq τ]

/-- The flag is set before the mutex is locked. -/
def setFlag (s : State τ) : Call τ → State τ
  | .start task =>
    { s with
      taskRunning := Function.update s.taskRunning task true
      pending := s.pending ++ [.start task] }
  | .stop task =>
    { s with
      taskRunning := Function.update s.taskRunning task false
      pending := s.pending ++ [.stop task] }

/-- The list is changed in one locked section. -/
def changeTasks (tasks : List τ) : Call τ → List τ
  | .start task => tasks ++ [task]
  | .stop task => tasks.filter (· ≠ task)

def finishCall (s : State τ) (k : ℕ) : State τ :=
  match s.timer, s.pending[k]? with
  | .looking _ _, _ => s
  | _, none => s
  | _, some call =>
    { s with
      tasks := changeTasks s.tasks call
      pending := s.pending.eraseIdx k }

/-- The timer has a running task at this place. -/
def lookAt (duration : τ → ℤ) (s : State τ) (currentTime : ℤ) (i : ℕ) (task : τ) : State τ :=
  match s.lastExecution[i]? with
  | none => { s with timer := .undefined }
  | some time =>
    if currentTime - time ≥ duration task then
      { s with
        enqueued := (task, currentTime) :: s.enqueued
        lastExecution := s.lastExecution.set i currentTime
        timer := .looking currentTime (i + 1) }
    else
      { s with timer := .looking currentTime (i + 1) }

def timerStep (duration : τ → ℤ) (s : State τ) : State τ :=
  match s.timer with
  | .notStarted =>
    { s with
      timer := .between
      lastExecution := List.replicate s.tasks.length s.clock
      firstTasks := s.tasks
      firstTime := s.clock }
  | .between => { s with timer := .locking s.clock }
  | .locking currentTime => { s with timer := .looking currentTime 0 }
  | .looking currentTime i =>
    match s.tasks[i]? with
    | none => { s with timer := .between }
    | some task =>
      if s.taskRunning task then lookAt duration s currentTime i task
      else { s with timer := .looking currentTime (i + 1) }
  | .undefined => s

def step (duration : τ → ℤ) (s : State τ) : Event τ → State τ
  | .call call => setFlag s call
  | .finish k => finishCall s k
  | .pass d => { s with clock := s.clock + d }
  | .timer => timerStep duration s

/-- When the timer last enqueued the task; before that, when it began. -/
def State.lastTime (s : State τ) (task : τ) : ℤ :=
  ((s.enqueued.find? fun entry => entry.1 = task).map Prod.snd).getD s.firstTime

/-- The entry that is used is there and tells when its task was last enqueued. -/
def OwnEntry (s : State τ) (e : Event τ) : Prop :=
  e = .timer → ∀ use ∈ s.used, s.lastExecution[use.1]? = some (s.lastTime use.2)

/-- No task is enqueued twice within less than its duration. -/
def Spaced (duration : τ → ℤ) (s : State τ) : Prop :=
  s.enqueued.Pairwise fun later earlier =>
    later.1 = earlier.1 → duration later.1 ≤ later.2 - earlier.2

/-- A running task is looked at where it stood first when the timer began. -/
def InPlace (s : State τ) (e : Event τ) : Prop :=
  e = .timer → ∀ use ∈ s.used, s.firstTasks.idxOf? use.2 = some use.1

instance decidableInPlace (s : State τ) (e : Event τ) : Decidable (InPlace s e) :=
  inferInstanceAs (Decidable (e = .timer → ∀ use ∈ s.used, s.firstTasks.idxOf? use.2 = some use.1))

/-- The time up to which the timer may have enqueued. -/
def State.bound (s : State τ) : ℤ :=
  match s.timer with
  | .locking currentTime => currentTime
  | .looking currentTime _ => currentTime
  | _ => s.clock

/-- As long as every task is looked at in its place, its entry belongs to it. -/
structure Sound (duration : τ → ℤ) (s : State τ) : Prop where
  idle : s.timer = .notStarted → s.enqueued = []
  entries : s.timer ≠ .notStarted → ∀ task i, s.firstTasks.idxOf? task = some i →
    s.lastExecution[i]? = some (s.lastTime task)
  ordered : s.enqueued.Pairwise fun later earlier => earlier.2 ≤ later.2
  recent : ∀ entry ∈ s.enqueued, entry.2 ≤ s.bound
  current : s.bound ≤ s.clock
  spaced : Spaced duration s

section Steps

variable {duration : τ → ℤ} {s : State τ}

theorem sound_initial (duration : τ → ℤ) (clock : ℤ) : Sound duration (initial clock) where
  idle _ := rfl
  entries h := absurd rfl h
  ordered := .nil
  recent _ h := by cases h
  current := Int.le_refl _
  spaced := .nil

/-- Calls of other threads do not touch what the timer keeps. -/
theorem Sound.setFlag (hs : Sound duration s) (call : Call τ) :
    Sound duration (setFlag s call) := by
  cases call with
  | start task => exact { hs with }
  | stop task => exact { hs with }

theorem Sound.finishCall (hs : Sound duration s) (k : ℕ) : Sound duration (finishCall s k) := by
  unfold TimedTasks.finishCall
  split
  · exact hs
  · exact hs
  · exact { hs with }

theorem Sound.pass (hs : Sound duration s) (d : ℕ) :
    Sound duration { s with clock := s.clock + d } := by
  have hcurrent := hs.current
  have hlater : s.bound ≤ ({ s with clock := s.clock + d } : State τ).bound ∧
      ({ s with clock := s.clock + d } : State τ).bound ≤ s.clock + d := by
    cases htimer : s.timer <;> simp only [State.bound, htimer] at hcurrent ⊢ <;> omega
  exact { hs with
    recent := fun entry hentry => Int.le_trans (hs.recent entry hentry) hlater.1
    current := hlater.2 }

/-- The newest entry of a task is the first one found. -/
theorem exists_newest {enqueued : List (τ × ℤ)}
    (hordered : enqueued.Pairwise fun later earlier => earlier.2 ≤ later.2) {entry : τ × ℤ}
    (h : entry ∈ enqueued) :
    ∃ newest, enqueued.find? (fun other => other.1 = entry.1) = some newest ∧
      entry.2 ≤ newest.2 := by
  induction enqueued with
  | nil => cases h
  | cons first rest ih =>
    obtain ⟨hfirst, hrest⟩ := List.pairwise_cons.mp hordered
    by_cases hsame : first.1 = entry.1
    · refine ⟨first, by simp [hsame], ?_⟩
      rcases List.mem_cons.mp h with rfl | hmem
      · exact Int.le_refl _
      · exact hfirst entry hmem
    · have hmem : entry ∈ rest := (List.mem_cons.mp h).resolve_left fun heq => hsame (heq ▸ rfl)
      obtain ⟨newest, hfind, hle⟩ := ih hrest hmem
      exact ⟨newest, by simpa [hsame] using hfind, hle⟩

theorem le_lastTime (hs : Sound duration s) {entry : τ × ℤ} (h : entry ∈ s.enqueued) :
    entry.2 ≤ s.lastTime entry.1 := by
  obtain ⟨newest, hfind, hle⟩ := exists_newest hs.ordered h
  rw [State.lastTime, hfind]
  exact hle

theorem eq_of_idxOf? {tasks : List τ} {task other : τ} {i : ℕ} (h : tasks.idxOf? task = some i)
    (h' : tasks.idxOf? other = some i) : task = other := by
  obtain ⟨hi, htask, -⟩ := List.idxOf?_eq_some_iff.mp h
  obtain ⟨_, hother, -⟩ := List.idxOf?_eq_some_iff.mp h'
  exact htask.symm.trans hother

/-- The timer enqueues a task in its place when it is due. -/
theorem Sound.enqueue (hs : Sound duration s) {currentTime : ℤ} {i : ℕ} {task : τ}
    (htimer : s.timer = .looking currentTime i) (hplace : s.firstTasks.idxOf? task = some i)
    (hdue : duration task ≤ currentTime - s.lastTime task) :
    Sound duration { s with
      enqueued := (task, currentTime) :: s.enqueued
      lastExecution := s.lastExecution.set i currentTime
      timer := .looking currentTime (i + 1) } := by
  have hbegun : s.timer ≠ .notStarted := by
    rw [htimer]
    simp
  have hbound : s.bound = currentTime := by
    rw [State.bound, htimer]
  have hcurrent := hs.current
  have hrecent := hs.recent
  rw [hbound] at hcurrent hrecent
  have hlength : i < s.lastExecution.length :=
    (List.getElem?_eq_some_iff.mp (hs.entries hbegun task i hplace)).1
  constructor
  · intro h
    cases h
  · intro _ other j hj
    by_cases hother : other = task
    · subst hother
      obtain rfl : j = i := Option.some.inj (hj.symm.trans hplace)
      rw [List.getElem?_set_self hlength]
      simp [State.lastTime]
    · have hne : i ≠ j := by
        rintro rfl
        exact hother (eq_of_idxOf? hj hplace)
      rw [List.getElem?_set_ne hne, hs.entries hbegun other j hj]
      simp [State.lastTime, Ne.symm hother]
  · exact List.pairwise_cons.mpr ⟨hrecent, hs.ordered⟩
  · intro entry hentry
    rcases List.mem_cons.mp hentry with rfl | hold
    · exact Int.le_refl _
    · exact hrecent entry hold
  · exact hcurrent
  · refine List.pairwise_cons.mpr ⟨fun entry hentry hsame => ?_, hs.spaced⟩
    have hlast := le_lastTime hs hentry
    dsimp only at hsame ⊢
    rw [← hsame] at hlast
    omega

/-- A step that only takes the timer further. -/
theorem Sound.moved (hs : Sound duration s) {timer : TimerAt} (hbegun : s.timer ≠ .notStarted)
    (hlater : s.bound ≤ ({ s with timer := timer } : State τ).bound)
    (hcurrent : ({ s with timer := timer } : State τ).bound ≤ s.clock)
    (hnew : timer ≠ .notStarted) : Sound duration { s with timer := timer } :=
  { hs with
    idle := fun h => absurd h hnew
    entries := fun _ => hs.entries hbegun
    recent := fun entry hentry => Int.le_trans (hs.recent entry hentry) hlater
    current := hcurrent }

theorem Sound.next (hs : Sound duration s) {currentTime : ℤ} {i : ℕ}
    (htimer : s.timer = .looking currentTime i) :
    Sound duration { s with timer := .looking currentTime (i + 1) } := by
  have hbound : s.bound = currentTime := by
    rw [State.bound, htimer]
  have hcurrent := hs.current
  rw [hbound] at hcurrent
  exact hs.moved (by simp [htimer]) (Int.le_of_eq hbound) hcurrent (by simp)

/-- The timer begins: all entries are the time at which it does. -/
theorem Sound.begin (hs : Sound duration s) (htimer : s.timer = .notStarted) :
    Sound duration { s with
      timer := .between
      lastExecution := List.replicate s.tasks.length s.clock
      firstTasks := s.tasks
      firstTime := s.clock } := by
  have hnone := hs.idle htimer
  have hbound : s.bound = s.clock := by
    rw [State.bound, htimer]
  have hrecent := hs.recent
  rw [hbound] at hrecent
  refine { hs with
    idle := fun h => by cases h
    entries := fun _ task i hplace => ?_
    recent := hrecent
    current := Int.le_refl _ }
  obtain ⟨hi, -, -⟩ := List.idxOf?_eq_some_iff.mp hplace
  rw [List.getElem?_replicate, if_pos hi]
  simp [State.lastTime, hnone]

/-- The entry of a task in its place. -/
theorem Sound.entry (hs : Sound duration s) {i : ℕ} {task : τ} (hused : (i, task) ∈ s.used)
    (hplace : s.firstTasks.idxOf? task = some i) :
    s.lastExecution[i]? = some (s.lastTime task) := by
  refine hs.entries (fun h => ?_) task i hplace
  rw [State.used, h] at hused
  cases hused

theorem Sound.timer (hs : Sound duration s) (hplace : InPlace s .timer) :
    Sound duration (timerStep duration s) := by
  unfold timerStep
  split
  case h_1 htimer =>
    exact hs.begin htimer
  case h_2 htimer =>
    have hbound : s.bound = s.clock := by
      rw [State.bound, htimer]
    exact hs.moved (by simp [htimer]) (Int.le_of_eq hbound) (Int.le_refl _) (by simp)
  case h_3 currentTime htimer =>
    have hbound : s.bound = currentTime := by
      rw [State.bound, htimer]
    have hcurrent := hs.current
    rw [hbound] at hcurrent
    exact hs.moved (by simp [htimer]) (Int.le_of_eq hbound) hcurrent (by simp)
  case h_4 currentTime i htimer =>
    split
    case h_1 htask => exact hs.moved (by simp [htimer]) hs.current (Int.le_refl _) (by simp)
    case h_2 task htask =>
      split
      case isTrue hrunning =>
        have hused := used_eq htimer htask hrunning
        have hentry := hs.entry hused (hplace rfl _ hused)
        simp only [lookAt, hentry]
        split
        case isTrue hdue => exact hs.enqueue htimer (hplace rfl _ hused) hdue
        case isFalse => exact hs.next htimer
      case isFalse => exact hs.next htimer
  case h_5 => exact hs

theorem Sound.step (hs : Sound duration s) (e : Event τ) (hplace : InPlace s e) :
    Sound duration (step duration s e) := by
  cases e with
  | call call => exact hs.setFlag call
  | finish k => exact hs.finishCall k
  | pass d => exact hs.pass d
  | timer => exact hs.timer hplace

end Steps

/-- In every run in which the timer looks at each running task in the place that it had when the
timer began, the timer uses the task's own entry and enqueues no task too early. -/
theorem on_schedule (duration : τ → ℤ) (clock : ℤ) (events : List (Event τ))
    (h : EachStep (step duration) InPlace (initial clock) events) :
    EachStep (step duration) OwnEntry (initial clock) events ∧
      Spaced duration (events.foldl (step duration) (initial clock)) := by
  obtain ⟨hown, hsound⟩ := EachStep.run (D := OwnEntry) (fun s e hs hplace => hs.step e hplace)
    (fun s e hs hplace he use huse => hs.entry huse (hplace he use huse))
    (sound_initial duration clock) h
  exact ⟨hown, hsound.spaced⟩

/-- Two tasks are started before the timer, one is due and enqueued, the other is stopped. -/
def startedBefore : List (Event Bool) :=
  [.call (.start true), .call (.start false), .finish 0, .finish 0, .timer, .pass 12,
    .timer, .timer, .timer, .call (.stop false), .timer, .timer, .finish 0, .pass 12,
    .timer, .timer, .timer, .timer]

theorem on_schedule_startedBefore :
    EachStep (step fun _ => 10) OwnEntry (initial 0) startedBefore ∧
      Spaced (fun _ => 10) (startedBefore.foldl (step fun _ => 10) (initial 0)) :=
  on_schedule (fun _ => 10) 0 startedBefore (by decide)

/-- The timer begins before the task is started, and its list of times stays empty. -/
theorem off_schedule_startedLater : ¬ ∀ (duration : Bool → ℤ) (clock : ℤ)
    (events : List (Event Bool)),
    EachStep (step duration) OwnEntry (initial clock) events ∧
      Spaced duration (events.foldl (step duration) (initial clock)) := by
  intro h
  obtain ⟨-, -, -, -, -, howned, -⟩ := (h (fun _ => 10) 0
    [.timer, .call (.start true), .finish 0, .timer, .timer, .timer]).1
  have hentry := howned rfl (0, true) rfl
  cases hentry

end Win64Server.TimedTasks
