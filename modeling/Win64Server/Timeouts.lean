import Win64Server.Server
import Win64Server.Library.Runs

/-!
The timeouts. In one loop over `lastPacketReceived` the timer enqueues a closure for every entry
that is too old and erases the entry. The closure holds the loop's iterator by reference, so whose
timeout a worker handles depends on where the loop is when the closure is called.
-/
namespace Win64Server.Timeouts

open Library

/-- A socket and when it was last heard, in nanoseconds. -/
abbrev Entry := (_ : Socket) × ℤ

def timeoutDuration : ℤ := 11 * 10 ^ 9

/-- Where the loop is. In `assigning` it has erased the entry that the iterator still points at, and
with `left` the iterator is gone. -/
inductive LoopAt
  | testing
  | enqueuing
  | erasing
  | assigning
  | left
deriving DecidableEq

/-- The entries that the loop has passed and the rest, which begins where the loop is. The closures
are all alike, so the queue and the workers' hands are counted. What the calls read is recorded in
order, with `none` for a read that is undefined. -/
structure State where
  passed : List Entry
  rest : List Entry
  loop : LoopAt
  tasks : ℕ
  taken : ℕ
  reads : List (Option Socket)
  erased : List Socket

/-- The timer begins its loop, and holds the mutex of the map until it has left it. -/
def start (lastPacketReceived : AList fun _ : Socket => ℤ) : State where
  passed := []
  rest := lastPacketReceived.entries
  loop := .testing
  tasks := 0
  taken := 0
  reads := []
  erased := []

/-- The timer goes on, a worker takes a closure from the queue, or a worker calls the closure that
it has taken. -/
inductive Event
  | timer
  | take
  | call
deriving DecidableEq

/-- What `it->first` is for a closure that is called now. -/
def State.itFirst (s : State) : Option Socket :=
  match s.loop with
  | .testing => s.rest.head?.map Sigma.fst
  | .enqueuing => s.rest.head?.map Sigma.fst
  | .erasing => s.rest.head?.map Sigma.fst
  | .assigning => none
  | .left => none

def timerStep (currentTime : ℤ) (s : State) : State :=
  match s.loop, s.rest with
  | .testing, [] => { s with loop := .left }
  | .testing, entry :: rest =>
    if currentTime - entry.2 > timeoutDuration then { s with loop := .enqueuing }
    else { s with passed := s.passed ++ [entry], rest := rest }
  | .enqueuing, _ => { s with tasks := s.tasks + 1, loop := .erasing }
  | .erasing, entry :: rest =>
    { s with rest := rest, erased := s.erased ++ [entry.1], loop := .assigning }
  | .erasing, [] => s
  | .assigning, _ => { s with loop := .testing }
  | .left, _ => s

def takeStep (s : State) : State :=
  if 0 < s.tasks then { s with tasks := s.tasks - 1, taken := s.taken + 1 } else s

/-- The closure passes what it reads to `handle_timeout`. -/
def callStep (s : State) : State :=
  if 0 < s.taken then { s with taken := s.taken - 1, reads := s.reads ++ [s.itFirst] } else s

def step (currentTime : ℤ) (s : State) : Event → State
  | .timer => timerStep currentTime s
  | .take => takeStep s
  | .call => callStep s

/-- The closures that have not been called yet. -/
def State.pending (s : State) : ℕ := s.tasks + s.taken

/-- The loop has ended and every closure has been called. -/
def State.Finished (s : State) : Prop := s.loop = .left ∧ s.pending = 0

/-- The entry that the loop is about to erase. -/
def State.due (s : State) : Option Socket :=
  if s.loop = .erasing then s.rest.head?.map Sigma.fst else none

/-- No read is undefined, and the sockets that are passed on are those whose entries are erased,
each of them once. -/
structure Right (s : State) : Prop where
  defined : none ∉ s.reads
  once : s.reads.Nodup
  erased : ∀ clientSocket, some clientSocket ∈ s.reads →
    clientSocket ∈ s.erased ∨ s.due = some clientSocket
  all : s.Finished → ∀ clientSocket ∈ s.erased, some clientSocket ∈ s.reads

/-- When the loop erases an entry, every closure has been called. -/
def Prompt (s : State) (e : Event) : Prop := e = .timer → s.loop = .erasing → s.pending = 0

/-- What the closures have read as long as all of them are prompt. -/
structure Sound (s : State) : Prop where
  distinct : (s.erased ++ s.rest.map Sigma.fst).Nodup
  enqueuing : s.loop = .enqueuing → s.rest ≠ []
  quiet : s.loop ≠ .erasing → s.pending = 0 ∧ s.reads = s.erased.map some
  erasing : s.loop = .erasing → ∃ entry rest, s.rest = entry :: rest ∧
    (s.pending = 1 ∧ s.reads = s.erased.map some ∨
      s.pending = 0 ∧ s.reads = (s.erased ++ [entry.1]).map some)

/-- An erased entry whose socket was not passed on, and which is nowhere in front of the loop. -/
def State.Missed (s : State) : Prop :=
  ∃ clientSocket ∈ s.erased, some clientSocket ∉ s.reads ∧
    ∀ entry ∈ s.rest, entry.1 ≠ clientSocket

section Steps

variable {currentTime : ℤ} {s : State}

theorem Sound.start (lastPacketReceived : AList fun _ : Socket => ℤ) :
    Sound (start lastPacketReceived) where
  distinct := lastPacketReceived.nodupKeys
  enqueuing h := by cases h
  quiet _ := ⟨rfl, rfl⟩
  erasing h := by cases h

theorem Sound.timer (hs : Sound s) (hprompt : Prompt s .timer) :
    Sound (timerStep currentTime s) := by
  obtain ⟨passed, rest, loop, tasks, taken, reads, erased⟩ := s
  obtain ⟨hdistinct, hrest, hquiet, herasing⟩ := hs
  dsimp only at hdistinct hrest hquiet herasing
  cases loop with
  | testing =>
    have hquiet := hquiet (by decide)
    cases rest with
    | nil => exact ⟨hdistinct, by simp [timerStep], fun _ => hquiet, by simp [timerStep]⟩
    | cons entry rest =>
      have hfewer : (erased ++ rest.map Sigma.fst).Nodup :=
        hdistinct.sublist (List.Sublist.append_left (List.sublist_cons_self _ _) erased)
      simp only [timerStep]
      split
      · exact ⟨hdistinct, by simp, fun _ => hquiet, by simp⟩
      · exact ⟨hfewer, by simp, fun _ => hquiet, by simp⟩
  | enqueuing =>
    obtain ⟨hpending, hreads⟩ := hquiet (by decide)
    obtain ⟨entry, rest, rfl⟩ := List.exists_cons_of_ne_nil (hrest rfl)
    refine ⟨hdistinct, by simp [timerStep], by simp [timerStep], fun _ => ?_⟩
    refine ⟨entry, rest, rfl, Or.inl ⟨?_, hreads⟩⟩
    simp only [State.pending, timerStep] at hpending ⊢
    omega
  | erasing =>
    obtain ⟨entry, rest', rfl, hcalled⟩ := herasing rfl
    have hnone := hprompt rfl rfl
    have hlast : reads = (erased ++ [entry.1]).map some := by
      rcases hcalled with ⟨hone, -⟩ | ⟨-, hreads⟩
      · omega
      · exact hreads
    have hmoved : ((erased ++ [entry.1]) ++ rest'.map Sigma.fst).Nodup := by
      simpa using hdistinct
    exact ⟨hmoved, by simp [timerStep], fun _ => ⟨hnone, hlast⟩, by simp [timerStep]⟩
  | assigning =>
    exact ⟨hdistinct, by simp [timerStep], fun _ => hquiet (by decide), by simp [timerStep]⟩
  | left => exact ⟨hdistinct, hrest, hquiet, herasing⟩

theorem take_pending (s : State) : (takeStep s).pending = s.pending := by
  unfold takeStep State.pending
  split
  · dsimp only
    omega
  · rfl

theorem Sound.take (hs : Sound s) : Sound (takeStep s) := by
  have hpending := take_pending s
  unfold takeStep at hpending ⊢
  split
  · rename_i htasks
    rw [if_pos htasks] at hpending
    exact ⟨hs.distinct, hs.enqueuing, by rw [hpending]; exact hs.quiet,
      by rw [hpending]; exact hs.erasing⟩
  · exact hs

/-- The closure that is called reads the entry that the loop is about to erase. -/
theorem Sound.call (hs : Sound s) : Sound (callStep s) := by
  unfold callStep
  split
  · rename_i htaken
    have hpending : s.pending ≠ 0 := by
      unfold State.pending
      omega
    by_cases hloop : s.loop = .erasing
    · obtain ⟨entry, rest, hrest, ⟨hone, hreads⟩ | ⟨hnone, -⟩⟩ := hs.erasing hloop
      · refine ⟨hs.distinct, hs.enqueuing, fun h => absurd hloop h, fun _ => ?_⟩
        refine ⟨entry, rest, hrest, Or.inr ⟨?_, ?_⟩⟩
        · simp only [State.pending] at hone ⊢
          omega
        · simp [hreads, State.itFirst, hloop, hrest]
      · exact absurd hnone hpending
    · exact absurd (hs.quiet hloop).1 hpending
  · exact hs

theorem Sound.step (hs : Sound s) (e : Event) (hprompt : Prompt s e) :
    Sound (step currentTime s e) := by
  cases e with
  | timer => exact hs.timer hprompt
  | take => exact hs.take
  | call => exact hs.call

/-- The sockets that have been passed on so far. -/
theorem Right.of_calls {calls : List Socket} (hreads : s.reads = calls.map some)
    (hnodup : calls.Nodup)
    (hcalls : ∀ clientSocket ∈ calls, clientSocket ∈ s.erased ∨ s.due = some clientSocket)
    (hall : s.Finished → s.erased ⊆ calls) : Right s where
  defined := by simp [hreads]
  once := by
    rw [hreads]
    exact hnodup.map (Option.some_injective _)
  erased clientSocket hmem := by
    rw [hreads, List.mem_map_of_injective (Option.some_injective _)] at hmem
    exact hcalls clientSocket hmem
  all hfinished clientSocket hmem := by
    rw [hreads, List.mem_map_of_injective (Option.some_injective _)]
    exact hall hfinished hmem

theorem Sound.right (hs : Sound s) : Right s := by
  have herased : s.erased.Nodup := hs.distinct.of_append_left
  by_cases hloop : s.loop = .erasing
  · obtain ⟨entry, rest, hrest, ⟨-, hreads⟩ | ⟨-, hreads⟩⟩ := hs.erasing hloop
    · exact .of_calls hreads herased (fun _ h => Or.inl h) fun _ => List.Subset.refl _
    · have hnew : (s.erased ++ [entry.1]).Nodup := by
        refine hs.distinct.sublist (List.Sublist.append_left ?_ s.erased)
        simp [hrest]
      refine .of_calls hreads hnew (fun clientSocket h => ?_) fun _ => List.subset_append_left _ _
      rcases List.mem_append.mp h with hold | hlast
      · exact Or.inl hold
      · exact Or.inr (by simp [State.due, hloop, hrest, List.mem_singleton.mp hlast])
  · have hreads := (hs.quiet hloop).2
    exact .of_calls hreads herased (fun _ h => Or.inl h) fun _ => List.Subset.refl _

/-- An entry that is erased with a closure uncalled was not passed on. -/
theorem missed_of_not_prompt (hs : Sound s) (e : Event) (h : ¬ Prompt s e) :
    (step currentTime s e).Missed := by
  obtain ⟨rfl, hloop, hpending⟩ : e = .timer ∧ s.loop = .erasing ∧ s.pending ≠ 0 := by
    simpa [Prompt] using h
  obtain ⟨passed, rest, loop, tasks, taken, reads, erased⟩ := s
  obtain ⟨hdistinct, -, -, herasing⟩ := hs
  dsimp only at hdistinct herasing hloop
  subst hloop
  obtain ⟨entry, rest, rfl, ⟨-, rfl⟩ | ⟨hnone, -⟩⟩ := herasing rfl
  · rw [List.map_cons, List.nodup_middle, List.nodup_cons] at hdistinct
    obtain ⟨hnew, -⟩ := hdistinct
    refine ⟨entry.1, by simp [step, timerStep], fun hread => hnew ?_, fun other hother heq => ?_⟩
    · have hold : some entry.1 ∈ erased.map some := hread
      rw [List.mem_map_of_injective (Option.some_injective _)] at hold
      exact List.mem_append_left _ hold
    · refine hnew ?_
      rw [← heq]
      exact List.mem_append_right _ (List.mem_map_of_mem hother)
  · exact absurd hnone hpending

/-- The timer reads nothing for a closure, and its loop only goes forward. -/
theorem timer_forward (currentTime : ℤ) (s : State) :
    (timerStep currentTime s).reads = s.reads ∧
      s.erased ⊆ (timerStep currentTime s).erased ∧
      (timerStep currentTime s).rest ⊆ s.rest := by
  have hstays : s.reads = s.reads ∧ s.erased ⊆ s.erased ∧ s.rest ⊆ s.rest :=
    ⟨rfl, List.Subset.refl _, List.Subset.refl _⟩
  unfold timerStep
  split
  case h_2 hrest =>
    split
    · exact hstays
    · refine ⟨rfl, List.Subset.refl _, ?_⟩
      rw [hrest]
      exact List.subset_cons_self _ _
  case h_4 hrest =>
    refine ⟨rfl, List.subset_append_left _ _, ?_⟩
    rw [hrest]
    exact List.subset_cons_self _ _
  all_goals exact hstays

/-- A read that is defined is of the entry where the loop is. -/
theorem mem_of_itFirst {clientSocket : Socket} (h : s.itFirst = some clientSocket) :
    ∃ entry ∈ s.rest, entry.1 = clientSocket := by
  have hhead : s.rest.head?.map Sigma.fst = some clientSocket := by
    unfold State.itFirst at h
    cases hloop : s.loop <;> simp_all
  obtain ⟨entry, hentry, rfl⟩ := Option.map_eq_some_iff.mp hhead
  exact ⟨entry, List.mem_of_mem_head? hentry, rfl⟩

/-- What was missed stays missed, since the loop does not come back to it. -/
theorem missed_step (h : s.Missed) (e : Event) : (step currentTime s e).Missed := by
  obtain ⟨clientSocket, herased, hreads, hrest⟩ := h
  cases e with
  | timer =>
    obtain ⟨hsame, hmore, hfewer⟩ := timer_forward currentTime s
    refine ⟨clientSocket, hmore herased, ?_, fun entry hentry => hrest entry (hfewer hentry)⟩
    rw [step, hsame]
    exact hreads
  | take =>
    simp only [step, takeStep]
    split
    · exact ⟨clientSocket, herased, hreads, hrest⟩
    · exact ⟨clientSocket, herased, hreads, hrest⟩
  | call =>
    simp only [step, callStep]
    split
    · refine ⟨clientSocket, herased, fun hread => ?_, hrest⟩
      rcases List.mem_append.mp hread with hold | hnew
      · exact hreads hold
      · obtain ⟨entry, hentry, heq⟩ := mem_of_itFirst (List.mem_singleton.mp hnew).symm
        exact hrest entry hentry heq
    · exact ⟨clientSocket, herased, hreads, hrest⟩

end Steps

section Loop

variable {currentTime : ℤ} {entries : List Entry} {s : State}

def timedOut (currentTime : ℤ) (entry : Entry) : Bool := timeoutDuration < currentTime - entry.2

/-- How far the loop has got with the entries it began with. -/
structure Scanned (currentTime : ℤ) (entries : List Entry) (s : State) : Prop where
  erased : s.erased ++ (s.rest.filter (timedOut currentTime)).map Sigma.fst =
    (entries.filter (timedOut currentTime)).map Sigma.fst
  passed : s.passed ++ s.rest.filter (fun entry => !timedOut currentTime entry) =
    entries.filter fun entry => !timedOut currentTime entry
  first : s.loop = .enqueuing ∨ s.loop = .erasing →
    ∀ entry ∈ s.rest.head?, timedOut currentTime entry = true
  left : s.loop = .left → s.rest = []

theorem Scanned.timer (h : Scanned currentTime entries s) :
    Scanned currentTime entries (timerStep currentTime s) := by
  obtain ⟨passed, rest, loop, tasks, taken, reads, erased⟩ := s
  obtain ⟨herased, hpassed, hfirst, hleft⟩ := h
  dsimp only at herased hpassed hfirst hleft
  cases loop with
  | testing =>
    cases rest with
    | nil => exact ⟨herased, hpassed, by simp [timerStep], fun _ => rfl⟩
    | cons entry rest =>
      simp only [timerStep]
      split
      case isTrue hout =>
        refine ⟨herased, hpassed, fun _ other hother => ?_, by simp⟩
        cases hother
        simpa [timedOut] using hout
      case isFalse hin =>
        have hkept : timedOut currentTime entry = false := by
          simpa [timedOut] using hin
        exact ⟨by simpa [hkept] using herased, by simpa [hkept] using hpassed, by simp, by simp⟩
  | enqueuing =>
    exact ⟨herased, hpassed, fun _ => hfirst (Or.inl rfl), by simp [timerStep]⟩
  | erasing =>
    cases rest with
    | nil => exact ⟨herased, hpassed, hfirst, hleft⟩
    | cons entry rest =>
      have hout := hfirst (Or.inr rfl) entry rfl
      simp only [timerStep]
      exact ⟨by simpa [hout] using herased, by simpa [hout] using hpassed, by simp, by simp⟩
  | assigning => exact ⟨herased, hpassed, by simp [timerStep], by simp [timerStep]⟩
  | left => exact ⟨herased, hpassed, hfirst, hleft⟩

theorem Scanned.step (h : Scanned currentTime entries s) (e : Event) :
    Scanned currentTime entries (step currentTime s e) := by
  cases e with
  | timer => exact h.timer
  | take =>
    simp only [Timeouts.step, takeStep]
    split
    · exact { h with }
    · exact h
  | call =>
    simp only [Timeouts.step, callStep]
    split
    · exact { h with }
    · exact h

/-- Whatever the workers do, the loop erases the entries that are too old and leaves the others. -/
theorem left_entries (lastPacketReceived : AList fun _ : Socket => ℤ) (currentTime : ℤ)
    (events : List Event)
    (h : (events.foldl (step currentTime) (start lastPacketReceived)).loop = .left) :
    (events.foldl (step currentTime) (start lastPacketReceived)).erased =
        (lastPacketReceived.entries.filter (timedOut currentTime)).map Sigma.fst ∧
      (events.foldl (step currentTime) (start lastPacketReceived)).passed =
        lastPacketReceived.entries.filter fun entry => !timedOut currentTime entry := by
  have hstart : Scanned currentTime lastPacketReceived.entries (start lastPacketReceived) :=
    ⟨rfl, rfl, by simp [start], by simp [start]⟩
  have hscanned := foldl_inv (Q := Scanned currentTime lastPacketReceived.entries)
    (fun s e hs => hs.step e) hstart events
  have herased := hscanned.erased
  have hpassed := hscanned.passed
  rw [hscanned.left h] at herased hpassed
  exact ⟨by simpa using herased, by simpa using hpassed⟩

end Loop

/-- In a run in which every closure is called before the loop erases its entry, the sockets that are
passed on are the ones whose entries are erased; when a run has ended and they are, it was so. -/
theorem right_iff (lastPacketReceived : AList fun _ : Socket => ℤ) (currentTime : ℤ)
    (events : List Event) :
    (EachStep (step currentTime) Prompt (start lastPacketReceived) events →
      Right (events.foldl (step currentTime) (start lastPacketReceived))) ∧
    ((events.foldl (step currentTime) (start lastPacketReceived)).Finished →
      Right (events.foldl (step currentTime) (start lastPacketReceived)) →
      EachStep (step currentTime) Prompt (start lastPacketReceived) events) := by
  constructor
  · intro h
    exact (h.run (fun s e hs hprompt => hs.step e hprompt) (fun _ _ _ hprompt => hprompt)
      (Sound.start lastPacketReceived)).2.right
  · intro hfinished hright
    refine EachStep.of_unmarked (fun s e hs hprompt => hs.step e hprompt)
      (fun s e hs hnot => missed_of_not_prompt hs e hnot) (fun s e hmissed => missed_step hmissed e)
      (Sound.start lastPacketReceived) ?_
    rintro ⟨clientSocket, herased, hreads, -⟩
    exact hreads (hright.all hfinished clientSocket herased)

/-- One entry is too old, and its closure is called before the loop erases it. -/
def promptEvents : List Event := [.timer, .timer, .take, .call, .timer, .timer, .timer]

theorem right_promptEvents :
    let s := promptEvents.foldl (step (12 * 10 ^ 9)) (start (AList.singleton 7 0))
    s.Finished ∧ s.erased = [7] ∧ Right s ∧
      EachStep (step (12 * 10 ^ 9)) Prompt (start (AList.singleton 7 0)) promptEvents := by
  have hfinished : (promptEvents.foldl (step (12 * 10 ^ 9))
      (start (AList.singleton 7 0))).Finished := ⟨by decide, by decide⟩
  obtain ⟨hright, hprompt⟩ := right_iff (AList.singleton 7 0) (12 * 10 ^ 9) promptEvents
  have hruns : EachStep (step (12 * 10 ^ 9)) Prompt (start (AList.singleton 7 0)) promptEvents := by
    unfold Prompt
    decide
  exact ⟨hfinished, by decide, hright hruns, hprompt hfinished (hright hruns)⟩

/-- The worker calls the closure when the loop has left its last entry. -/
theorem lateCall_undefined : ¬ ∀ (lastPacketReceived : AList fun _ : Socket => ℤ)
    (currentTime : ℤ) (events : List Event),
    Right (events.foldl (step currentTime) (start lastPacketReceived)) := by
  intro h
  have hdefined := (h (AList.singleton 7 0) (12 * 10 ^ 9)
    [.timer, .timer, .take, .timer, .timer, .call, .timer]).defined
  exact hdefined (by decide)

end Win64Server.Timeouts
