import Win64Server.PassActions
import Win64Server.Observers
import Mathlib.Data.Fintype.Basic
import Mathlib.Data.List.Chain

/-!
Whether the messages that show and hide a user alternate when several workers update the same
user at once. Each worker tests the set of local users, sends, and changes the set in separate
steps. The messages keep alternating as long as every worker finds the set as its test left it
when it sends, and no other worker has sent and not yet changed the set.
-/
namespace Win64Server.Alternation

open Outcome Library Server PassActions

/-- Whether a message shows or hides a user. -/
def visibility (about : Ptr) : Outgoing → Option Bool
  | .createClient a _ => if a = about then some true else none
  | .deleteClient a _ => if a = about then some false else none
  | _ => none

/-- The messages a user has been sent to show and to hide another one, in order. -/
def history (user about : Ptr) (sent : List Sent) : List Bool :=
  sent.filterMap fun e => if e.recipient = user then visibility about e.message else none

/-- Showing and hiding alternate, and showing is first. -/
def Alternate (history : List Bool) : Prop :=
  history.IsChain (· ≠ ·) ∧ history.head? ≠ some false

/-- Whether the user is shown at the end. -/
def shown (history : List Bool) : Bool := history.getLast?.getD false

section History

variable {user about : Ptr} {sent new : List Sent}

@[simp] theorem shown_concat (h : List Bool) (b : Bool) : shown (h ++ [b]) = b := by
  simp [shown]

theorem alternate_concat {h : List Bool} {b : Bool} :
    Alternate (h ++ [b]) ↔ Alternate h ∧ shown h ≠ b := by
  rcases List.eq_nil_or_concat h with rfl | ⟨l, c, rfl⟩
  · cases b <;> simp [Alternate, shown]
  · rw [List.concat_eq_append, shown_concat]
    have hchain : (l ++ [c] ++ [b]).IsChain (· ≠ ·) ↔ _ := List.isChain_append
    have hhead : (l ++ [c] ++ [b]).head? = (l ++ [c]).head? := by
      cases l <;> rfl
    rw [Alternate, Alternate, hchain, hhead]
    simp only [List.isChain_singleton, List.getLast?_append, List.getLast?_singleton,
      List.head?_cons, Option.mem_def, Option.some_or, Option.some.injEq, forall_eq', true_and]
    tauto

theorem history_append :
    history user about (sent ++ new) = history user about sent ++ history user about new :=
  List.filterMap_append

theorem history_eq_nil (h : ∀ e ∈ new, visibility about e.message = none) :
    history user about new = [] := by
  refine List.filterMap_eq_nil_iff.mpr fun e he => ?_
  simp [h e he]

end History

/-- The four actions that show or hide a user or record that. -/
def concerns (about : Ptr) : Action → Bool
  | .createClient a | .emplace a | .deleteClient a | .erase a => decide (a = about)
  | _ => false

/-- The actions a worker begins the handling of a user with; the others belong to a user whose
test succeeded. -/
def opens : Action → Bool
  | .begin | .measure _ _ | .testUnseen _ _ | .testSeen _ _ => true
  | _ => false

/-- The message that shows or hides a user. -/
def announcement (about : Ptr) : Bool → Action
  | true => .createClient about
  | false => .deleteClient about

/-- The change of the set that goes with it. -/
def record (about : Ptr) : Bool → Action
  | true => .emplace about
  | false => .erase about

/-- Where a worker stands with one other user, whom it shows or hides. -/
inductive Phase
  | idle
  | decided (shows : Bool)
  | sent (shows : Bool)

/-- The concerning actions that are left in each phase. -/
def Phase.remaining (about : Ptr) : Phase → List Action
  | idle => []
  | decided shows => [announcement about shows, record about shows]
  | sent shows => [record about shows]

/-- Users that are still to be visited. -/
def Settled (rest : List Action) : Prop := ∀ a ∈ rest, ∃ location user2, a = .measure location user2

/-- A worker finishes with one user before it begins with the next. -/
def Orderly : List Action → Prop
  | [] => True
  | a :: rest => if opens a then Settled rest else Orderly rest

/-- A worker stands in this phase. -/
structure At (about : Ptr) (phase : Phase) (actions : List Action) : Prop where
  orderly : Orderly actions
  remaining : actions.filter (concerns about) = phase.remaining about

/-- What may follow an action, as far as the order of the actions goes. -/
inductive Follows : Action → List Action → Prop
  | begin (location : Location) (order : List Ptr) :
      Follows .begin (order.map (.measure location))
  | skip (location : Location) (user2 : Ptr) : Follows (.measure location user2) []
  | measure (location : Location) (user2 : Ptr) (distance : Option ℚ) :
      Follows (.measure location user2) [.testUnseen user2 distance]
  | start (user2 : Ptr) (distance : Option ℚ) :
      Follows (.testUnseen user2 distance) (starting user2)
  | retest (user2 : Ptr) (distance : Option ℚ) :
      Follows (.testUnseen user2 distance) [.testSeen user2 distance]
  | stop (user2 : Ptr) (distance : Option ℚ) :
      Follows (.testSeen user2 distance) (stopping user2)
  | keep (user2 : Ptr) (distance : Option ℚ) : Follows (.testSeen user2 distance) []
  | work {a : Action} {new : List Action} (ha : opens a = false)
      (hnew : ∀ b ∈ new, opens b = false ∧ ∀ about, concerns about b = false) : Follows a new

section Orderly

variable {about : Ptr} {rest : List Action}

theorem Settled.orderly (h : Settled rest) : Orderly rest := by
  cases rest with
  | nil => trivial
  | cons a rest =>
    obtain ⟨location, user2, rfl⟩ := h a List.mem_cons_self
    exact fun b hb => h b (List.mem_cons_of_mem _ hb)

theorem Settled.filter (h : Settled rest) : rest.filter (concerns about) = [] := by
  refine List.filter_eq_nil_iff.mpr fun a ha => ?_
  obtain ⟨location, user2, rfl⟩ := h a ha
  exact Bool.false_ne_true

theorem orderly_append {work : List Action} (hwork : ∀ a ∈ work, opens a = false)
    (hrest : Orderly rest) : Orderly (work ++ rest) := by
  induction work with
  | nil => exact hrest
  | cons a work ih =>
    rw [List.cons_append, Orderly, if_neg (by simp [hwork a List.mem_cons_self])]
    exact ih fun b hb => hwork b (List.mem_cons_of_mem _ hb)

theorem filter_append_of_unconcerned {new : List Action}
    (h : ∀ b ∈ new, concerns about b = false) :
    (new ++ rest).filter (concerns about) = rest.filter (concerns about) := by
  rw [List.filter_append, List.filter_eq_nil_iff.mpr, List.nil_append]
  intro b hb
  simp [h b hb]

theorem filter_starting (about user2 : Ptr) :
    (starting user2).filter (concerns about) =
      if user2 = about then (Phase.decided true).remaining about else [] := by
  by_cases h : user2 = about
  · subst h
    simp [starting, concerns, Phase.remaining, announcement, record]
  · simp [starting, concerns, h]

theorem filter_stopping (about user2 : Ptr) :
    (stopping user2).filter (concerns about) =
      if user2 = about then (Phase.decided false).remaining about else [] := by
  by_cases h : user2 = about
  · subst h
    simp [stopping, concerns, Phase.remaining, announcement, record]
  · simp [stopping, concerns, h]

/-- The work on a user whose test succeeded comes with no work of an earlier user left. -/
theorem Settled.decides (hsettled : Settled rest) {work : List Action} {user2 : Ptr} {shows : Bool}
    {phase : Phase} (hrest : rest.filter (concerns about) = phase.remaining about)
    (hwork : ∀ b ∈ work, opens b = false)
    (hfilter : work.filter (concerns about) =
      if user2 = about then (Phase.decided shows).remaining about else []) :
    ∃ phase', At about phase' (work ++ rest) ∧
      (phase' = phase ∨ phase = .idle ∧ ∃ shows, phase' = .decided shows) := by
  have horder : Orderly (work ++ rest) := orderly_append hwork hsettled.orderly
  rw [hsettled.filter] at hrest
  cases phase with
  | idle =>
    by_cases huser2 : user2 = about
    · refine ⟨.decided shows, ⟨horder, ?_⟩, .inr ⟨rfl, shows, rfl⟩⟩
      rw [List.filter_append, hfilter, if_pos huser2, hsettled.filter, List.append_nil]
    · refine ⟨.idle, ⟨horder, ?_⟩, .inl rfl⟩
      rw [List.filter_append, hfilter, if_neg huser2, hsettled.filter]
      rfl
  | _ => cases hrest

theorem follows_changeInterval {a : Action} {user2 : Ptr} (ha : opens a = false)
    (interval : Option ℤ) : Follows a (changeInterval user2 interval) := by
  refine .work ha fun b hb => ?_
  cases interval with
  | none => cases hb
  | some time =>
    rcases List.mem_cons.mp hb with rfl | hb
    · exact ⟨rfl, fun _ => rfl⟩
    · obtain rfl := List.mem_singleton.mp hb
      exact ⟨rfl, fun _ => rfl⟩

theorem follows_perform {env : Environment} {user : Ptr} {a : Action} {new : List Action}
    {s t : Server} (h : (perform env user a).run s = .ok new t) : Follows a new := by
  have hlast {x : ServerM Unit} (ha : opens a = false)
      (hx : ((fun _ => ([] : List Action)) <$> x).run s = .ok new t) : Follows a new := by
    obtain ⟨_, -, rfl⟩ := run_map_ok.mp hx
    exact .work ha fun b hb => nomatch hb
  have hmap {β : Type} {f : β → Action} {xs : List β} (ha : opens a = false)
      (hf : ∀ b, opens (f b) = false ∧ ∀ about, concerns about (f b) = false) :
      Follows a (xs.map f) := by
    refine .work ha fun b hb => ?_
    obtain ⟨c, -, rfl⟩ := List.mem_map.mp hb
    exact hf c
  cases a with
  | begin =>
    obtain ⟨u, m, -, h⟩ := run_bind_ok.mp h
    obtain ⟨_, m, -, h⟩ := run_bind_ok.mp h
    obtain ⟨order, m, -, h⟩ := run_bind_ok.mp h
    cases h
    exact .begin u.location order
  | measure location user2 =>
    by_cases huser : user ≠ user2
    · rw [perform, if_pos huser] at h
      obtain ⟨u2, m, -, h⟩ := run_bind_ok.mp h
      cases h
      exact .measure location user2 _
    · rw [perform, if_neg huser] at h
      cases h
      exact .skip location user2
  | testUnseen user2 distance =>
    obtain ⟨starts, m, -, h⟩ := run_bind_ok.mp h
    cases starts with
    | true =>
      cases h
      exact .start user2 distance
    | false =>
      cases h
      exact .retest user2 distance
  | testSeen user2 distance =>
    obtain ⟨stops, m, -, h⟩ := run_bind_ok.mp h
    cases stops with
    | true =>
      cases h
      exact .stop user2 distance
    | false =>
      cases h
      exact .keep user2 distance
  | compareInterval user2 =>
    obtain ⟨interval, -, rfl⟩ := run_map_ok.mp h
    exact follows_changeInterval rfl interval
  | compareRequests user2 =>
    obtain ⟨interval, -, rfl⟩ := run_map_ok.mp h
    exact follows_changeInterval rfl interval
  | readScripts user2 =>
    obtain ⟨u, m, -, h⟩ := run_bind_ok.mp h
    cases h
    exact hmap rfl fun _ => ⟨rfl, fun _ => rfl⟩
  | readScriptsToRemove user2 =>
    obtain ⟨u, m, -, h⟩ := run_bind_ok.mp h
    cases h
    exact hmap rfl fun _ => ⟨rfl, fun _ => rfl⟩
  | createClient user2 => exact hlast rfl h
  | createFlightPlan user2 => exact hlast rfl h
  | sendScript user2 script => exact hlast rfl h
  | emplace user2 => exact hlast rfl h
  | deleteClient user2 => exact hlast rfl h
  | sendRemoveScript user2 script => exact hlast rfl h
  | erase user2 => exact hlast rfl h
  | setInterval user2 time => exact hlast rfl h
  | sendTimeChange user2 time => exact hlast rfl h

end Orderly

/-- Nothing about one user has changed for another: neither the set of local users nor the messages
that show and hide. Users that move do no more, nor do the workers of other users. -/
structure Quiet (user about : Ptr) (s t : Server) : Prop where
  history : history user about t.sent = history user about s.sent
  member : about ∈ (t.heap user).localUsers ↔ about ∈ (s.heap user).localUsers

section Quiet

variable {env : Environment} {user about : Ptr}

instance : Std.Refl (Quiet user about) := ⟨fun _ => ⟨rfl, .rfl⟩⟩

instance : IsTrans Server (Quiet user about) :=
  ⟨fun _ _ _ h h' => ⟨h'.history.trans h.history, h'.member.trans h.member⟩⟩

theorem quiet_of_sends {s t : Server} (h : Sends (fun e => visibility about e.message = none) s t) :
    Quiet user about s t := by
  obtain ⟨new, hsent, hnew⟩ := h.sent
  exact ⟨by rw [hsent, history_append, history_eq_nil hnew, List.append_nil], by rw [h.heap]⟩

theorem quiet_sends {α : Type} {x : ServerM α}
    (h : Keeps (Sends fun e => visibility about e.message = none) x) :
    Keeps (Quiet user about) x :=
  h.mono fun _ _ => quiet_of_sends

theorem quiet_getUser (p : Ptr) : Keeps (Quiet user about) (getUser p) := fun _ => ⟨rfl, .rfl⟩

theorem quiet_arranged (users : List Ptr) : Keeps (Quiet user about) (arranged env users) :=
  fun _ => ⟨rfl, .rfl⟩

theorem quiet_updateUser {p : Ptr} {f : User → User}
    (hf : ∀ u, about ∈ (f u).localUsers ↔ about ∈ u.localUsers) :
    Keeps (Quiet user about) (updateUser p f) := by
  intro s
  have hmem := modifyUser_frame (g := fun u => about ∈ u.localUsers) (propext (hf (s.heap p))) user
  exact ⟨rfl, iff_of_eq hmem⟩

theorem quiet_move (s : Server) (p : Ptr) (location : Location) :
    Quiet user about s (s.modifyUser p fun u => { u with location := location }) :=
  quiet_updateUser (f := fun u => { u with location := location }) (fun _ => .rfl) s

theorem quiet_containsUser (p q : Ptr) : Keeps (Quiet user about) (containsUser p q) :=
  .bind (quiet_getUser p) fun _ => .pure _

theorem quiet_perform {a : Action} (ha : concerns about a = false) :
    Keeps (Quiet user about) (perform env user a) := by
  cases a with
  | begin =>
    exact .bind (quiet_getUser user) fun _ => .bind .get fun _ => .bind (quiet_arranged _) fun _ =>
      .pure _
  | measure location user2 =>
    rw [perform]
    split
    · exact .bind (quiet_getUser user2) fun _ => .pure _
    · exact .pure _
  | testUnseen user2 distance =>
    refine .bind (.bind (quiet_containsUser user user2) fun _ => ?_) fun _ => .pure _
    exact .bind (quiet_getUser user) fun _ => .pure _
  | testSeen user2 distance =>
    refine .bind (.bind (quiet_containsUser user user2) fun _ => ?_) fun _ => .pure _
    exact .bind (quiet_getUser user) fun _ => .pure _
  | compareInterval user2 =>
    exact .map (.bind (quiet_getUser user) fun _ => .bind (quiet_getUser user2) fun _ => .pure _)
  | createClient user2 =>
    have hne : user2 ≠ about := of_decide_eq_false ha
    exact .map (quiet_sends (sends_createClient fun _ => if_neg hne))
  | createFlightPlan user2 => exact .map (quiet_sends (sends_createFlightPlan fun _ _ => rfl))
  | readScripts user2 => exact .bind (quiet_getUser user2) fun _ => .pure _
  | sendScript user2 script =>
    cases script with
    | none => exact .map (.throw _)
    | some script => exact .map (quiet_sends (sends_sendScript fun _ => rfl))
  | emplace user2 =>
    have hne : user2 ≠ about := of_decide_eq_false ha
    refine .map (quiet_updateUser fun u => ?_)
    dsimp only
    split
    · exact .rfl
    · simp [AList.mem_insert, hne.symm]
  | deleteClient user2 =>
    have hne : user2 ≠ about := of_decide_eq_false ha
    exact .map (quiet_sends (sends_deleteClient fun _ => if_neg hne))
  | readScriptsToRemove user2 => exact .bind (quiet_getUser user2) fun _ => .pure _
  | sendRemoveScript user2 script =>
    cases script with
    | none => exact .map (.throw _)
    | some script => exact .map (quiet_sends (sends_sendRemoveScript fun _ => rfl))
  | erase user2 =>
    have hne : user2 ≠ about := of_decide_eq_false ha
    refine .map (quiet_updateUser fun u => ?_)
    simp [AList.mem_erase, hne.symm]
  | compareRequests user2 =>
    refine .map (.bind (quiet_getUser user2) fun _ => .bind (quiet_arranged _) fun _ => ?_)
    exact .bind .get fun _ => .pure _
  | setInterval user2 time => exact .map (quiet_updateUser fun _ => .rfl)
  | sendTimeChange user2 time => exact .map (quiet_sends (sends_send rfl))

end Quiet

/-- How an action moves a worker from one phase with a user to another. -/
inductive Moves (user about : Ptr) (s t : Server) : Action → Phase → Phase → Prop
  | quiet {a : Action} {phase phase' : Phase} (h : Quiet user about s t)
      (hphase : phase' = phase ∨ phase = .idle ∧ ∃ shows, phase' = .decided shows) :
      Moves user about s t a phase phase'
  | send (shows : Bool)
      (hhistory : history user about t.sent = history user about s.sent ++ [shows])
      (hmember : about ∈ (t.heap user).localUsers ↔ about ∈ (s.heap user).localUsers) :
      Moves user about s t (announcement about shows) (.decided shows) (.sent shows)
  | record (shows : Bool) (hhistory : history user about t.sent = history user about s.sent)
      (hmember : about ∈ (t.heap user).localUsers ↔ shows = true) :
      Moves user about s t (record about shows) (.sent shows) .idle

section Step

variable {env : Environment} {user about : Ptr} {a : Action} {rest new : List Action}
  {s t : Server} {phase : Phase}

/-- An action that does not concern the user. -/
theorem moves_of_follows (ha : concerns about a = false) (hfollows : Follows a new)
    (hquiet : Quiet user about s t) (hat : At about phase (a :: rest)) :
    ∃ phase', At about phase' (new ++ rest) ∧ Moves user about s t a phase phase' := by
  have hrest : rest.filter (concerns about) = phase.remaining about := by
    rw [← hat.remaining, List.filter_cons_of_neg (by simp [ha])]
  have horderly : if opens a = true then Settled rest else Orderly rest := hat.orderly
  cases hfollows with
  | begin location order =>
    have hnew : ∀ b ∈ order.map (Action.measure location), ∃ location user2,
        b = .measure location user2 := by
      intro b hb
      obtain ⟨user2, -, rfl⟩ := List.mem_map.mp hb
      exact ⟨location, user2, rfl⟩
    have hsettled : Settled rest := horderly
    refine ⟨phase, ⟨Settled.orderly fun b hb => ?_, ?_⟩, .quiet hquiet (.inl rfl)⟩
    · rcases List.mem_append.mp hb with hb | hb
      · exact hnew b hb
      · exact hsettled b hb
    · rw [filter_append_of_unconcerned, hrest]
      intro b hb
      obtain ⟨_, _, rfl⟩ := hnew b hb
      rfl
  | skip location user2 =>
    have hsettled : Settled rest := horderly
    exact ⟨phase, ⟨hsettled.orderly, hrest⟩, .quiet hquiet (.inl rfl)⟩
  | measure location user2 distance =>
    exact ⟨phase, ⟨horderly, hrest⟩, .quiet hquiet (.inl rfl)⟩
  | retest user2 distance =>
    exact ⟨phase, ⟨horderly, hrest⟩, .quiet hquiet (.inl rfl)⟩
  | keep user2 distance =>
    have hsettled : Settled rest := horderly
    exact ⟨phase, ⟨hsettled.orderly, hrest⟩, .quiet hquiet (.inl rfl)⟩
  | start user2 distance =>
    have hsettled : Settled rest := horderly
    obtain ⟨phase', hat', hphase⟩ := hsettled.decides hrest (by simp [starting, opens])
      (filter_starting about user2)
    exact ⟨phase', hat', .quiet hquiet hphase⟩
  | stop user2 distance =>
    have hsettled : Settled rest := horderly
    obtain ⟨phase', hat', hphase⟩ := hsettled.decides hrest (by simp [stopping, opens])
      (filter_stopping about user2)
    exact ⟨phase', hat', .quiet hquiet hphase⟩
  | work hopens hnew =>
    rw [if_neg (by simp [hopens])] at horderly
    refine ⟨phase, ⟨orderly_append (fun b hb => (hnew b hb).1) horderly, ?_⟩,
      .quiet hquiet (.inl rfl)⟩
    rw [filter_append_of_unconcerned fun b hb => (hnew b hb).2 about, hrest]

/-- The phase of a worker whose next action concerns the user. -/
theorem At.next (hat : At about phase (a :: rest)) (ha : concerns about a = true) :
    phase.remaining about = a :: rest.filter (concerns about) ∧ Orderly rest := by
  refine ⟨by rw [← hat.remaining, List.filter_cons_of_pos ha], ?_⟩
  have hopens : opens a = false := by
    cases a <;> first | rfl | cases ha
  have horderly : if opens a = true then Settled rest else Orderly rest := hat.orderly
  rwa [if_neg (by simp [hopens])] at horderly

theorem history_push (message : Outgoing) :
    history user about (s.sent ++ [⟨user, message⟩]) =
      history user about s.sent ++ (visibility about message).toList := by
  rw [history_append]
  cases h : visibility about message <;> simp [history, h]

/-- A worker whose next action shows or hides the user, and one whose next action records it. -/
theorem At.announcing (shows : Bool) (hat : At about phase (announcement about shows :: rest)) :
    phase = .decided shows ∧ At about (.sent shows) rest := by
  obtain ⟨hremaining, horderly⟩ := hat.next (by cases shows <;> exact decide_eq_true rfl)
  rcases phase with _ | shows' | shows'
  · cases hremaining
  · obtain ⟨ha, hrest⟩ := List.cons.inj hremaining
    obtain rfl : shows' = shows := by
      cases shows' <;> cases shows <;> first | rfl | cases ha
    exact ⟨rfl, horderly, hrest.symm⟩
  · obtain ⟨ha, -⟩ := List.cons.inj hremaining
    cases shows' <;> cases shows <;> cases ha

theorem At.recording (shows : Bool) (hat : At about phase (record about shows :: rest)) :
    phase = .sent shows ∧ At about .idle rest := by
  obtain ⟨hremaining, horderly⟩ := hat.next (by cases shows <;> exact decide_eq_true rfl)
  rcases phase with _ | shows' | shows'
  · cases hremaining
  · obtain ⟨ha, -⟩ := List.cons.inj hremaining
    cases shows' <;> cases shows <;> cases ha
  · obtain ⟨ha, hrest⟩ := List.cons.inj hremaining
    obtain rfl : shows' = shows := by
      cases shows' <;> cases shows <;> first | rfl | cases ha
    exact ⟨rfl, horderly, hrest.symm⟩

/-- What one action does to the worker that performs it. -/
theorem moves_perform (hrun : (perform env user a).run s = .ok new t)
    (hat : At about phase (a :: rest)) :
    ∃ phase', At about phase' (new ++ rest) ∧ Moves user about s t a phase phase' := by
  by_cases ha : concerns about a = true
  · cases a with
    | createClient p =>
      obtain rfl : p = about := of_decide_eq_true ha
      obtain ⟨rfl, hrest⟩ := At.announcing true hat
      cases hrun
      exact ⟨_, hrest, .send true ((history_push _).trans (by simp [visibility])) .rfl⟩
    | deleteClient p =>
      obtain rfl : p = about := of_decide_eq_true ha
      obtain ⟨rfl, hrest⟩ := At.announcing false hat
      cases hrun
      exact ⟨_, hrest, .send false ((history_push _).trans (by simp [visibility])) .rfl⟩
    | emplace p =>
      obtain rfl : p = about := of_decide_eq_true ha
      obtain ⟨rfl, hrest⟩ := At.recording true hat
      cases hrun
      refine ⟨_, hrest, .record true rfl ?_⟩
      change p ∈ ((s.modifyUser user _).heap user).localUsers ↔ _
      rw [modifyUser_heap_self]
      dsimp only
      split
      · simpa
      · simp
    | erase p =>
      obtain rfl : p = about := of_decide_eq_true ha
      obtain ⟨rfl, hrest⟩ := At.recording false hat
      cases hrun
      refine ⟨_, hrest, .record false rfl ?_⟩
      change p ∈ ((s.modifyUser user _).heap user).localUsers ↔ _
      rw [modifyUser_heap_self]
      simp [AList.mem_erase]
    | _ => cases ha
  · have ha := Bool.eq_false_iff.mpr ha
    exact moves_of_follows ha (follows_perform hrun) ((quiet_perform ha).ok hrun) hat

end Step

/-- A worker that has sent a message about the user and not yet changed the set. -/
def Unrecorded (about : Ptr) (actions : List Action) : Prop :=
  ∃ shows, record about shows ∈ actions ∧ announcement about shows ∉ actions

instance (about : Ptr) (actions : List Action) : Decidable (Unrecorded about actions) :=
  inferInstanceAs (Decidable (∃ _ : Bool, _))

section Phases

variable {about : Ptr} {actions : List Action} {phase phase' : Phase}

theorem At.unique (h : At about phase actions) (h' : At about phase' actions) :
    phase = phase' := by
  have hremaining := h.remaining.symm.trans h'.remaining
  -- The five phases leave five different lists.
  rcases phase with _ | (_ | _) | (_ | _) <;> rcases phase' with _ | (_ | _) | (_ | _)
  all_goals first | rfl | cases hremaining

theorem At.unrecorded_iff (h : At about phase actions) :
    Unrecorded about actions ↔ ∃ shows, phase = .sent shows := by
  have hmem {a : Action} (ha : concerns about a = true) :
      a ∈ actions ↔ a ∈ phase.remaining about := by
    rw [← h.remaining, List.mem_filter, and_iff_left ha]
  have hannouncement (shows : Bool) : announcement about shows ∈ actions ↔
      announcement about shows ∈ phase.remaining about :=
    hmem (by cases shows <;> exact decide_eq_true rfl)
  have hrecord (shows : Bool) : record about shows ∈ actions ↔
      record about shows ∈ phase.remaining about :=
    hmem (by cases shows <;> exact decide_eq_true rfl)
  simp only [Unrecorded, hannouncement, hrecord]
  rcases phase with _ | shows | shows
  · simp [Phase.remaining]
  · cases shows <;> simp [Phase.remaining, announcement, record]
  · cases shows <;> simp [Phase.remaining, announcement, record]

end Phases

section Workers

variable {ι : Type} {env : Environment} {user about : Ptr} {c : Config ι Action Server}

/-- A worker may send when it finds the set as its test left it and no other worker has sent and
not yet changed the set. -/
def Undisturbed (user about : Ptr) (c : Config ι Action Server) (i : ι) (a : Action) : Prop :=
  ∀ shows, a = announcement about shows →
    (about ∈ (c.shared.heap user).localUsers ↔ shows = false) ∧
      ∀ j, j ≠ i → ¬ Unrecorded about (c.threads j)

instance [Fintype ι] [DecidableEq ι] (user about : Ptr) (c : Config ι Action Server) (i : ι)
    (a : Action) : Decidable (Undisturbed user about c i a) :=
  inferInstanceAs (Decidable (∀ _ : Bool, _))

/-- What holds between the actions of the workers: every worker is in some phase, at most one has
sent and not yet changed the set, and the messages agree with the set but for that one. -/
structure Agrees (user about : Ptr) (c : Config ι Action Server) : Prop where
  phases : ∀ i, ∃ phase, At about phase (c.threads i)
  alternate : Alternate (history user about c.shared.sent)
  one : ∀ i j, Unrecorded about (c.threads i) → Unrecorded about (c.threads j) → i = j
  recorded : (∀ i, ¬ Unrecorded about (c.threads i)) →
    (about ∈ (c.shared.heap user).localUsers ↔ shown (history user about c.shared.sent) = true)
  ahead : ∀ i shows, At about (.sent shows) (c.threads i) →
    shown (history user about c.shared.sent) = shows

theorem agrees_start {s : Server} (hfresh : history user about s.sent = [])
    (hunseen : about ∉ (s.heap user).localUsers) :
    Agrees user about (⟨fun _ : ι => [.begin], s⟩ : Config ι Action Server) where
  phases _ := ⟨.idle, fun _ h => (nomatch h), rfl⟩
  alternate := by
    rw [hfresh]
    exact ⟨List.isChain_nil, by simp⟩
  one _ _ h := by
    obtain ⟨shows, h, -⟩ := h
    cases shows <;> cases List.mem_singleton.mp h
  recorded _ := by simp [hfresh, shown, hunseen]
  ahead _ _ h := nomatch h.remaining

theorem Agrees.outside {t : Server} (h : Agrees user about c)
    (hquiet : Quiet user about c.shared t) : Agrees user about ⟨c.threads, t⟩ := by
  constructor
  · exact h.phases
  · simpa only [hquiet.history] using h.alternate
  · exact h.one
  · simpa only [hquiet.history, hquiet.member] using h.recorded
  · simpa only [hquiet.history] using h.ahead

section Acting

variable {i : ι} {threads : ι → List Action} {phase phase' : Phase} {t : Server}

/-- One worker has gone from one phase to another. -/
structure Acted (about : Ptr) (c : Config ι Action Server) (i : ι) (threads : ι → List Action)
    (phase phase' : Phase) : Prop where
  before : At about phase (c.threads i)
  after : At about phase' (threads i)
  others : ∀ j, j ≠ i → threads j = c.threads j

theorem Acted.phases (hacted : Acted about c i threads phase phase') (h : Agrees user about c)
    (j : ι) : ∃ phase, At about phase (threads j) := by
  by_cases hj : j = i
  · exact ⟨phase', hj ▸ hacted.after⟩
  · rw [hacted.others j hj]
    exact h.phases j

theorem Agrees.quiet (h : Agrees user about c) (hacted : Acted about c i threads phase phase')
    (hquiet : Quiet user about c.shared t)
    (hphase : phase' = phase ∨ phase = .idle ∧ ∃ shows, phase' = .decided shows) :
    Agrees user about ⟨threads, t⟩ := by
  have hsent (shows : Bool) : phase' = .sent shows ↔ phase = .sent shows := by
    rcases hphase with rfl | ⟨rfl, shows', rfl⟩
    · exact .rfl
    · exact ⟨fun h => (nomatch h), fun h => (nomatch h)⟩
  have hsame (j : ι) : Unrecorded about (threads j) ↔ Unrecorded about (c.threads j) := by
    by_cases hj : j = i
    · subst hj
      rw [hacted.after.unrecorded_iff, hacted.before.unrecorded_iff]
      exact exists_congr hsent
    · rw [hacted.others j hj]
  refine ⟨hacted.phases h, ?_, fun j k hj hk => h.one j k ((hsame j).mp hj) ((hsame k).mp hk),
    ?_, ?_⟩
  · exact hquiet.history ▸ h.alternate
  · intro hnone
    rw [hquiet.member, hquiet.history]
    exact h.recorded fun j hj => hnone j ((hsame j).mpr hj)
  · intro j shows hj
    rw [hquiet.history]
    by_cases hji : j = i
    · subst hji
      obtain rfl := (hsent shows).mp (hacted.after.unique hj)
      exact h.ahead j shows hacted.before
    · exact h.ahead j shows (hacted.others j hji ▸ hj)

/-- The message is new to the user: the set agrees with the messages while nobody is between a
message and the change of the set. -/
theorem Agrees.send (h : Agrees user about c) {shows : Bool}
    (hacted : Acted about c i threads (.decided shows) (.sent shows))
    (hundisturbed : Undisturbed user about c i (announcement about shows))
    (hhistory : history user about t.sent = history user about c.shared.sent ++ [shows]) :
    Agrees user about ⟨threads, t⟩ := by
  obtain ⟨hset, hclear⟩ := hundisturbed shows rfl
  have hnone (j : ι) : ¬ Unrecorded about (c.threads j) := by
    by_cases hj : j = i
    · subst hj
      rw [hacted.before.unrecorded_iff]
      exact fun hmine => nomatch hmine.choose_spec
    · exact hclear j hj
  have honly {j : ι} (hj : Unrecorded about (threads j)) : j = i := by
    by_contra hne
    exact hnone j (hacted.others j hne ▸ hj)
  have hshown : shown (history user about c.shared.sent) ≠ shows := by
    have hagree := (h.recorded hnone).symm.trans hset
    cases shows <;> simpa using hagree
  refine ⟨hacted.phases h, ?_, fun j k hj hk => (honly hj).trans (honly hk).symm, ?_, ?_⟩
  · rw [hhistory]
    exact alternate_concat.mpr ⟨h.alternate, hshown⟩
  · exact fun hnone' => absurd (hacted.after.unrecorded_iff.mpr ⟨shows, rfl⟩) (hnone' i)
  · intro j shows' hj
    obtain rfl := honly (hj.unrecorded_iff.mpr ⟨shows', rfl⟩)
    cases hacted.after.unique hj
    rw [hhistory, shown_concat]

theorem Agrees.record (h : Agrees user about c) {shows : Bool}
    (hacted : Acted about c i threads (.sent shows) .idle)
    (hhistory : history user about t.sent = history user about c.shared.sent)
    (hmember : about ∈ (t.heap user).localUsers ↔ shows = true) :
    Agrees user about ⟨threads, t⟩ := by
  have hmine : Unrecorded about (c.threads i) := hacted.before.unrecorded_iff.mpr ⟨shows, rfl⟩
  have hnone (j : ι) : ¬ Unrecorded about (threads j) := by
    by_cases hj : j = i
    · subst hj
      rw [hacted.after.unrecorded_iff]
      exact fun hafter => nomatch hafter.choose_spec
    · rw [hacted.others j hj]
      exact fun htheirs => hj (h.one j i htheirs hmine)
  refine ⟨hacted.phases h, ?_, fun j k hj => absurd hj (hnone j), fun _ => ?_, ?_⟩
  · exact hhistory ▸ h.alternate
  · rw [hmember, hhistory, h.ahead i shows hacted.before]
  · exact fun j shows' hj => absurd (hj.unrecorded_iff.mpr ⟨shows', rfl⟩) (hnone j)

end Acting

variable [DecidableEq ι] {i : ι} {a : Action} {rest new : List Action} {t : Server}

/-- An undisturbed action of a worker. -/
theorem Agrees.act (h : Agrees user about c) (hthread : c.threads i = a :: rest)
    (hundisturbed : Undisturbed user about c i a)
    (hrun : (perform env user a).run c.shared = .ok new t) :
    Agrees user about ⟨Function.update c.threads i (new ++ rest), t⟩ := by
  obtain ⟨phase, hat⟩ := h.phases i
  rw [hthread] at hat
  obtain ⟨phase', hat', hmoves⟩ := moves_perform hrun hat
  have hacted : Acted about c i (Function.update c.threads i (new ++ rest)) phase phase' := by
    refine ⟨by rwa [hthread], by rwa [Function.update_self], fun j hj => ?_⟩
    rw [Function.update_of_ne hj]
  cases hmoves with
  | quiet hquiet hphase => exact h.quiet hacted hquiet hphase
  | send shows hhistory hmember => exact h.send hacted hundisturbed hhistory
  | record shows hhistory hmember => exact h.record hacted hhistory hmember

/-- In every run of any number of workers in which every send is undisturbed, the messages that
show and hide a user alternate, and the first one shows it. -/
theorem alternate_of_undisturbed (env : Environment) {s : Server} {c : Config ι Action Server}
    (hfresh : history user about s.sent = []) (hunseen : about ∉ (s.heap user).localUsers)
    (hrun : Relation.ReflTransGen
      (Step (perform env user) (Quiet user about) (Undisturbed user about))
      ⟨fun _ => [.begin], s⟩ c) :
    Alternate (history user about c.shared.sent) := by
  have hagrees : Agrees user about c := by
    induction hrun with
    | refl => exact agrees_start hfresh hunseen
    | tail _ hstep ih =>
      cases hstep with
      | act hthread hallowed hrun => exact ih.act hthread hallowed hrun
      | outside h => exact ih.outside h
  exact hagrees.alternate

end Workers

section TwoWorkers

open Observers Relation

/-- Two workers that have not begun. -/
def twoWorkers (s : Server) : Config (Fin 2) Action Server := ⟨fun _ => [.begin], s⟩

/-- The pilot visits the controller, which the first worker shows it. -/
def firstTurn : Config (Fin 2) Action Server :=
  (twoWorkers (twoUsers.modifyUser 1 fun u => { u with location := ⟨⟨0⟩, ⟨0⟩⟩ })).after
    (perform (.orderly sixtyMiles) 1) (Undisturbed 1 0) (List.replicate 11 0)

/-- The pilot flies away, and the second worker hides the controller from it. -/
def secondTurn : Config (Fin 2) Action Server :=
  (⟨firstTurn.threads, firstTurn.shared.modifyUser 1 fun u =>
      { u with location := ⟨⟨7⟩, ⟨0⟩⟩ }⟩ : Config (Fin 2) Action Server).after
    (perform (.orderly sixtyMiles) 1) (Undisturbed 1 0) (List.replicate 11 1)

theorem alternate_in_turns :
    history 1 0 secondTurn.shared.sent = [true, false] ∧
      Alternate (history 1 0 secondTurn.shared.sent) := by
  refine ⟨by decide +kernel, alternate_of_undisturbed (.orderly sixtyMiles)
    (s := twoUsers) (by decide +kernel) (by decide +kernel) ?_⟩
  refine .head (.outside (quiet_move twoUsers 1 ⟨⟨0⟩, ⟨0⟩⟩)) ?_
  refine .trans (Config.after_run
    (show Option.isSome (Config.schedule _ _ _ (List.replicate 11 0)) = true by decide +kernel)) ?_
  refine .head (.outside (quiet_move _ 1 ⟨⟨7⟩, ⟨0⟩⟩)) ?_
  exact Config.after_run (by decide +kernel)

/-- Two workers test before either changes the set, and the controller is shown the pilot twice. -/
theorem two_workers_show_twice :
    ¬ ∀ (env : Environment) (user about : Ptr) (s : Server) (c : Config (Fin 2) Action Server),
      about ≠ user → history user about s.sent = [] → about ∉ (s.heap user).localUsers →
      ReflTransGen (Step (perform env user) (Quiet user about) fun _ _ _ => True) (twoWorkers s) c →
      Alternate (history user about c.shared.sent) := by
  intro h
  let c := (twoWorkers twoUsers).after (perform (.orderly sixtyMiles) 0) (fun _ _ _ => True)
    [0, 1, 0, 1, 0, 1, 0, 1, 0, 1, 0, 1, 0, 1]
  have halternate := h (.orderly sixtyMiles) 0 1 twoUsers c (by decide) (by decide +kernel)
    (by decide +kernel) (Config.after_run (by decide +kernel))
  have htwice : history 0 1 c.shared.sent = [true, true] := by decide +kernel
  rw [htwice] at halternate
  simpa using halternate.1

end TwoWorkers

end Win64Server.Alternation
