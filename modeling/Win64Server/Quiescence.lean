import Win64Server.Faults
import Win64Server.PassExchanges
import Win64Server.UpdateIntervals

/-!
What passes do between two packets. A pass that returned has settled the server: the sets are what
the distances ask for, nobody's interval is above a request and no flight plan is waiting. Further
passes over the same positions, in any order and at any time, return, leave all of this as it is
and send positions only, each report at most once to a pair of users.
-/
namespace Win64Server.Quiescence

open Outcome Library Server Frames Visits VisibleSets PassExchanges UpdateIntervals Faults
  Observers

/-- The set of the user holds whom its range asks for. -/
def Seen (env : Environment) (s : Server) (user : Ptr) : Prop :=
  ∀ other ∈ s.clientManager.users, other ≠ user →
    (InRange env s user other → other ∈ (s.heap user).localUsers) ∧
      (OutOfRange env s user other → other ∉ (s.heap user).localUsers)

/-- The flight plan of the user waits for the controllers. -/
def Queued (u : User) : Prop := u.getType = .pilot ∧ u.updateOnlyQueues 0 = true

structure Settled (env : Environment) (s : Server) : Prop where
  seen : ∀ user ∈ s.clientManager.users, Seen env s user
  respected : ∀ user ∈ s.clientManager.users, AllRespect user s
  delivered : ∀ user ∈ s.clientManager.users, ¬ Queued (s.heap user)

section Sets

variable {env : Environment} {user : Ptr} {s t : Server}

/-- The same users are seen by all, from the same places. -/
structure SameSets (s t : Server) : Prop where
  clientManager : t.clientManager = s.clientManager
  settled : Same settled s t
  seen : ∀ a b, b ∈ (t.heap a).localUsers ↔ b ∈ (s.heap a).localUsers

theorem SameSets.trans {r : Server} (h : SameSets s t) (h' : SameSets t r) : SameSets s r :=
  ⟨h'.clientManager.trans h.clientManager, Trans.trans h.settled h'.settled,
    fun a b => (h'.seen a b).trans (h.seen a b)⟩

/-- What is seen by a user is a matter of its set and of the places. -/
theorem Seen.of_same (h : Seen env s user) (hclients : t.clientManager = s.clientManager)
    (hsettled : Same settled s t)
    (hmem : ∀ b, b ∈ (t.heap user).localUsers ↔ b ∈ (s.heap user).localUsers) :
    Seen env t user := by
  intro other hother hne
  rw [hclients] at hother
  rw [inRange_iff hsettled, outOfRange_iff hsettled, hmem]
  exact h other hother hne

theorem SameSets.of_only (h : Only (fun _ _ => False) s t) : SameSets s t :=
  ⟨h.clientManager, h.settled, fun a b => by
    rw [← isSome_entry, ← isSome_entry, h.entry a b id]⟩

/-- A visit finds nothing to do. -/
theorem Seen.visitUser_idle (h : Seen env s user) {other : Ptr}
    (hother : other ∈ s.clientManager.users) :
    (visitUser env user (s.heap user).location other).run s = .ok () s := by
  by_cases hself : other = user
  · subst hself
    exact visitUser_self env _ s
  obtain ⟨hin, hout⟩ := h other hother hself
  rw [visitUser_run env hself s]
  have hstart : ¬ ((entry s user other).isNone ∧ InRange env s user other) := fun hboth =>
    (isNone_entry s user other).mp hboth.1 (hin hboth.2)
  have hstop : ¬ ((entry s user other).isSome ∧ OutOfRange env s user other) := fun hboth =>
    hout hboth.2 ((isSome_entry s user other).mp hboth.1)
  rw [if_neg hstart, if_neg hstop]

theorem Seen.updateLocalUsers_idle (h : Seen env s user) :
    (updateLocalUsers env user).run s = .ok () { s with ticks := s.ticks + 1 } := by
  have hticks : Seen env { s with ticks := s.ticks + 1 } user := h
  have hrun : (updateLocalUsers env user).run s =
      ((env.arrange s.ticks s.clientManager.users).forM
        (visitUser env user (s.heap user).location)).run { s with ticks := s.ticks + 1 } := rfl
  rw [hrun]
  exact run_forM_idle fun other hother =>
    hticks.visitUser_idle ((env.arrange_perm _ _).mem_iff.mp hother)

end Sets

section Settling

variable {env : Environment} {user : Ptr} {s m t : Server}

/-- After the first loop everyone sees whom its range asks for. -/
theorem firstLoop_seen (hrun : (iterateUsers env fun user => do
      updateLocalUsers env user
      passFlags user).run s = .ok () t) :
    ∀ user ∈ t.clientManager.users, Seen env t user := by
  have htoured := firstLoop_toured hrun
  intro user huser other hother hne
  rw [htoured.clientManager] at huser hother
  have hsighted := htoured.visited user huser other
  rw [inRange_iff htoured.settled, outOfRange_iff htoured.settled, ← isSome_entry]
  constructor
  · intro hin
    by_cases hseen : other ∈ (s.heap user).localUsers
    · rw [hsighted.stays (fun h => h.unseen hseen) fun h => not_outOfRange hin h.far]
      exact (isSome_entry s user other).mpr hseen
    · rw [hsighted.enters ⟨hother, hne, hseen, hin⟩]
      rfl
  · intro hout
    by_cases hseen : other ∈ (s.heap user).localUsers
    · rw [hsighted.leaves ⟨hother, hne, hseen, hout⟩]
      exact Bool.false_ne_true
    · rw [hsighted.stays (fun h => not_outOfRange h.near hout) fun h => hseen h.seen, isSome_entry]
      exact hseen

/-- An update writes the entries of the members anew. -/
theorem sameSets_updateAbout {other : Ptr} (hother : other ∈ (s.heap user).localUsers) :
    SameSets s (finalState ((updateAbout env user other).run s)) := by
  obtain ⟨t, hrun, hvisited⟩ := updateAbout_visited (s := s) env rfl user other
  rw [hrun, finalState_ok]
  refine ⟨hvisited.only.clientManager, hvisited.only.settled, fun a b => ?_⟩
  by_cases hpair : a = user ∧ b = other
  · obtain ⟨rfl, rfl⟩ := hpair
    refine iff_of_true ?_ hother
    rw [← isSome_entry]
    by_cases hdue : Due (env.clock s.ticks) s a b
    · obtain ⟨att, hentry, -⟩ := hvisited.due hdue
      rw [hentry]
      rfl
    · rw [hvisited.idle hdue]
      exact (isSome_entry s a b).mpr hother
  · rw [← isSome_entry, ← isSome_entry, hvisited.only.entry a b hpair]

theorem sameSets_update (user : Ptr) : Keeps SameSets (update env user) := by
  intro s
  have hloop : Guarded (SameSets s) (fun _ => True) (update env user) := by
    refine guarded_iterateLocalUsers env user (Q := fun v => v ∈ (s.heap user).localUsers)
      (fun m n hm => ⟨hm.clientManager, hm.settled, hm.seen⟩)
      (fun m hm v hv => (hm.seen user v).mp hv) fun v hv => ?_
    refine ⟨fun m hm => ?_, fun _ _ _ _ _ => trivial⟩
    exact hm.trans (sameSets_updateAbout ((hm.seen user v).mpr hv))
  exact hloop.keeps s ⟨rfl, fun _ => rfl, fun _ _ => Iff.rfl⟩

instance : Std.Refl SameSets := ⟨fun _ => ⟨rfl, fun _ => rfl, fun _ _ => Iff.rfl⟩⟩

instance : IsTrans Server SameSets := ⟨fun _ _ _ => SameSets.trans⟩

/-- The types are kept, and no plan is queued. -/
def Drains (s t : Server) : Prop :=
  t.clientManager = s.clientManager ∧ ∀ user, Queued (t.heap user) → Queued (s.heap user)

instance : Frame (fun u => (u.getType, u.updateOnlyQueues)) Drains where
  refl _ := ⟨rfl, fun _ h => h⟩
  trans _ _ _ h h' := ⟨h'.1.trans h.1, fun user ht => h.2 user (h'.2 user ht)⟩
  push _ _ _ := ⟨rfl, fun _ h => h⟩
  ticks _ _ := ⟨rfl, fun _ h => h⟩
  modifyUser s user f hf := by
    refine ⟨rfl, fun a ha => ?_⟩
    have hframe := modifyUser_frame (g := fun u => (u.getType, u.updateOnlyQueues)) hf a
    simp only [Prod.mk.injEq] at hframe
    rw [Queued, hframe.1, hframe.2] at ha
    exact ha

theorem drains_dequeue (user : Ptr) : Keeps Drains (updateUser user fun u =>
    { u with updateOnlyQueues := Function.update u.updateOnlyQueues 0 false }) := by
  intro s
  rw [updateUser_run, finalState_ok]
  refine ⟨rfl, fun a ha => ?_⟩
  by_cases heq : a = user
  · subst heq
    rw [modifyUser_heap_self] at ha
    exact absurd ha.2 (by simp)
  · rwa [modifyUser_heap_ne _ _ _ _ heq] at ha

theorem updateOnlyQueues_drains (user : Ptr) : Keeps Drains (updateOnlyQueues env user) := by
  have hplan : Kept Drains (getFlightPlan user) := inferInstance
  unfold updateOnlyQueues
  refine .bind (fun s => Std.Refl.refl s) fun u => ?_
  split
  · refine .bind hplan.keeps fun plan => ?_
    cases plan with
    | none => exact .throw _
    | some fp => exact .bind Kept.keeps fun _ => drains_dequeue user
  · exact .pure ()

/-- A turn of the third loop that returns leaves nothing in the queue of its user. -/
theorem updateOnlyQueues_delivers (hrun : (updateOnlyQueues env user).run s = .ok () t) :
    ¬ Queued (t.heap user) := by
  rw [updateOnlyQueues, run_bind_of_ok (getUser_run s user)] at hrun
  split at hrun
  · obtain ⟨plan, m, -, hrun⟩ := run_bind_ok.mp hrun
    cases plan with
    | none => cases hrun
    | some fp =>
      obtain ⟨_, n, -, hdequeue⟩ := run_bind_ok.mp hrun
      rw [updateUser_run] at hdequeue
      cases hdequeue
      intro hqueued
      rw [modifyUser_heap_self] at hqueued
      exact absurd hqueued.2 (by simp)
  · rename_i hidle
    cases hrun
    exact hidle

/-- A pass that returns settles the server. -/
theorem globalUpdate_settled (hrun : (globalUpdate env).run s = .ok () t) : Settled env t := by
  have hrespected := globalUpdate_allRespect env hrun
  obtain ⟨_, a, hfirst, hrun⟩ := run_bind_ok.mp hrun
  obtain ⟨_, b, hupdates, hrun⟩ := run_bind_ok.mp hrun
  obtain ⟨_, c, hqueues, hreset⟩ := run_bind_ok.mp hrun
  have hsecond : SameSets a b :=
    (keeps_iterateUsers (fun _ _ => ⟨rfl, fun _ => rfl, fun _ _ => Iff.rfl⟩) sameSets_update).ok
      hupdates
  have hthird : Only (fun _ _ => False) b c :=
    (keeps_iterateUsers (fun s n => Frame.toQuiet.ticks s n) fun user =>
      (only_updateOnlyQueues _ user).keeps).ok hqueues
  have hfourth : Only (fun _ _ => False) c t :=
    (keeps_iterateUsers (fun s n => Frame.toQuiet.ticks s n) fun user =>
      (only_resetRequired _ user).keeps).ok hreset
  have hsame : SameSets a t := hsecond.trans (.of_only (Trans.trans hthird hfourth))
  refine ⟨fun user huser => ?_, hrespected, fun user huser => ?_⟩
  · rw [hsame.clientManager] at huser
    exact (firstLoop_seen hfirst user huser).of_same hsame.clientManager hsame.settled
      (hsame.seen user)
  · have hloop : ((env.arrange b.ticks b.clientManager.users).forM (updateOnlyQueues env)).run
        { b with ticks := b.ticks + 1 } = .ok () c := hqueues
    have hall := Keeps.forM_establishes (R := Drains) (Q := fun user t => ¬ Queued (t.heap user))
      (fun user _ => updateOnlyQueues_drains user)
      (fun user _ a b u hdone => updateOnlyQueues_delivers hdone)
      (fun user a b h hs hqueued => hs (h.2 user hqueued)) hloop
    have hreset' : Drains c t :=
      (keeps_iterateUsers (fun s n => Frame.toQuiet.ticks s n) fun user =>
        (kept_resetRequired user).keeps).ok hreset
    intro hqueued
    rw [hfourth.clientManager, hthird.clientManager] at huser
    exact hall user ((env.arrange_perm _ _).mem_iff.mpr huser) (hreset'.2 user hqueued)

end Settling

section Resting

variable {env : Environment} {user other a b : Ptr} {s m t r : Server}

/-- The position of `b` has changed since it was exchanged for `a`. -/
def Pending (s : Server) (a b : Ptr) : Prop :=
  b ∈ (s.heap a).localUsers ∧ recorded s a b ≠ (s.heap b).lastPositionUpdate

instance (s : Server) (a b : Ptr) : Decidable (Pending s a b) := by
  unfold Pending
  infer_instance

/-- The reports that the two have not exchanged. -/
def pending (s : Server) (a b : Ptr) : ℕ :=
  (if Pending s a b then 1 else 0) + if Pending s b a then 1 else 0

/-- The user has reported a position, and no flag asks for more. -/
def Reported (s : Server) (user : Ptr) : Prop :=
  (s.heap user).updateRequired = false ∧ (s.heap user).lastPositionUpdate ≠ 0

instance (s : Server) (user : Ptr) : Decidable (Reported s user) := by
  unfold Reported
  infer_instance

/-- All of a user but the entries of its set. -/
def lasting (u : User) : User := { u with localUsers := ∅ }

/-- All that passes do to a server at rest. -/
structure Rests (s t : Server) : Prop where
  rest : t = { s with heap := t.heap, sent := t.sent, ticks := t.ticks }
  users : Same lasting s t
  seen : ∀ a b, b ∈ (t.heap a).localUsers ↔ b ∈ (s.heap a).localUsers
  sent : ∃ new, t.sent = s.sent ++ new ∧
    (∀ e ∈ new, ∃ a b, b ∈ (s.heap a).localUsers ∧ ForPair a b e) ∧
    ∀ a b, Reported s a → Reported s b →
      new.countP (ForPair a b ·) + pending t a b ≤ pending s a b

theorem same_of_lasting {α : Type} (h : Same lasting s t) (g : User → α)
    (hg : ∀ u, g (lasting u) = g u) : Same g s t := by
  intro user
  rw [← hg, h user, hg]

theorem Rests.same {α : Type} (h : Rests s t) (g : User → α) (hg : ∀ u, g (lasting u) = g u)
    (user : Ptr) : g (t.heap user) = g (s.heap user) := same_of_lasting h.users g hg user

theorem Rests.reported (h : Rests s t) : Reported t user ↔ Reported s user := by
  rw [Reported, h.same User.updateRequired (fun _ => rfl),
    h.same User.lastPositionUpdate (fun _ => rfl), Reported]

theorem pending_congr (h : Pending t a b ↔ Pending s a b) (h' : Pending t b a ↔ Pending s b a) :
    pending t a b = pending s a b := by
  simp only [pending, h, h']

theorem Rests.trans (h : Rests s t) (h' : Rests t r) : Rests s r where
  rest := by rw [h'.rest, h.rest]
  users := Trans.trans h.users h'.users
  seen a b := (h'.seen a b).trans (h.seen a b)
  sent := by
    obtain ⟨new, hsent, hsighted, hspent⟩ := h.sent
    obtain ⟨new', hsent', hsighted', hspent'⟩ := h'.sent
    refine ⟨new ++ new', by rw [hsent', hsent, List.append_assoc], fun e he => ?_,
      fun a b ha hb => ?_⟩
    · rcases List.mem_append.mp he with he | he
      · exact hsighted e he
      · obtain ⟨a, b, hseen, hpair⟩ := hsighted' e he
        exact ⟨a, b, (h.seen a b).mp hseen, hpair⟩
    · have hfirst := hspent a b ha hb
      have hsecond := hspent' a b (h.reported.mpr ha) (h.reported.mpr hb)
      rw [List.countP_append]
      omega

theorem rests_ticks (s : Server) (n : ℕ) : Rests s { s with ticks := n } := by
  refine ⟨rfl, fun _ => rfl, fun _ _ => Iff.rfl, [], (List.append_nil _).symm,
    fun e he => absurd he List.not_mem_nil, fun a b _ _ => ?_⟩
  rw [List.countP_nil, Nat.zero_add]
  exact (pending_congr Iff.rfl Iff.rfl).le

theorem rests_refl (s : Server) : Rests s s := rests_ticks s s.ticks

/-- A settled server stays so while it rests. -/
theorem Settled.of_rests (h : Settled env s) (hrests : Rests s t) : Settled env t := by
  have hclients : t.clientManager = s.clientManager := by rw [hrests.rest]
  have hsettled : Same settled s t := hrests.same settled fun _ => rfl
  have htype : Same User.getType s t := hrests.same User.getType fun _ => rfl
  refine ⟨fun user huser => ?_, fun user huser => ?_, fun user huser => ?_⟩
  all_goals rw [hclients] at huser
  · exact (h.seen user huser).of_same hclients hsettled (hrests.seen user)
  · intro v hv
    have hold := h.respected user huser v ((hrests.seen user v).mp hv)
    rw [Respects, hrests.same User.updateInterval fun _ => rfl, htype,
      hrests.same User.getRequestedInterval fun _ => rfl]
    exact hold
  · rw [Queued, htype, hrests.same User.updateOnlyQueues fun _ => rfl]
    exact h.delivered user huser

section Recorded

variable {att : Attributes} {stamp : ℤ} (h : Recorded user other att stamp s t)

include h

/-- The record of an exchange. -/
theorem entry_recorded (a b : Ptr) :
    entry t a b = if a = user ∧ b = other then some (Function.update att lastPosUpdate stamp)
      else entry s a b := by
  obtain ⟨e, n, -, rfl⟩ := h
  by_cases ha : a = user
  · subst ha
    rw [entry, modifyUser_heap_self]
    by_cases hb : b = other
    · subst hb
      rw [if_pos ⟨rfl, rfl⟩]
      exact AList.lookup_insert _
    · rw [if_neg fun h => hb h.2]
      exact AList.lookup_insert_ne hb
  · rw [if_neg fun h => ha h.1, entry, modifyUser_heap_ne _ _ _ _ ha]
    rfl

theorem lasting_recorded : Same lasting s t := by
  obtain ⟨e, n, -, rfl⟩ := h
  intro v
  exact modifyUser_frame (g := lasting) rfl v

theorem rest_recorded : t = { s with heap := t.heap, sent := t.sent, ticks := t.ticks } := by
  obtain ⟨e, n, -, rfl⟩ := h
  rfl

end Recorded

/-- An exchange that is due uses up a report that was pending. -/
theorem rests_recorded {att : Attributes} (hother : other ∈ (s.heap user).localUsers)
    (hdue : Reported s user → Reported s other → Pending s user other)
    (h : Recorded user other att (s.heap other).lastPositionUpdate s t) : Rests s t := by
  have hlasting : Same lasting s t := lasting_recorded h
  have hstamp : Same User.lastPositionUpdate s t := same_of_lasting hlasting _ fun _ => rfl
  have hseen (a b : Ptr) : b ∈ (t.heap a).localUsers ↔ b ∈ (s.heap a).localUsers := by
    rw [← isSome_entry, ← isSome_entry, entry_recorded h]
    by_cases hab : a = user ∧ b = other
    · rw [if_pos hab, hab.1, hab.2]
      exact iff_of_true rfl ((isSome_entry s user other).mpr hother)
    · rw [if_neg hab]
  have hpending (a b : Ptr) : Pending t a b ↔ Pending s a b ∧ ¬ (a = user ∧ b = other) := by
    rw [Pending, hseen, hstamp, recorded, entry_recorded h, Pending, recorded]
    by_cases hab : a = user ∧ b = other
    · obtain ⟨rfl, rfl⟩ := hab
      simp
    · simp [hab]
  obtain ⟨e, hpair, hsent⟩ := h.sent
  refine ⟨rest_recorded h, hlasting, hseen, [e], hsent, fun e' he' => ?_, fun a b ha hb => ?_⟩
  · rw [List.mem_singleton.mp he']
    exact ⟨user, other, hother, hpair⟩
  · simp only [List.countP_singleton, pending, hpending, decide_eq_true_eq]
    by_cases hfor : ForPair a b e
    · rw [if_pos hfor]
      rcases forPair_same hpair hfor with ⟨rfl, rfl⟩ | ⟨rfl, rfl⟩
      · have hspent := hdue ha hb
        split_ifs <;> grind
      · have hspent := hdue hb ha
        split_ifs <;> grind
    · rw [if_neg hfor]
      split_ifs <;> grind

/-- From a server that rests the program returns, and the server still rests. -/
abbrev Calm {α : Type} (s₀ : Server) (program : ServerM α) : Prop :=
  Guarded (Rests s₀) (fun _ => False) program

variable {s₀ : Server}

theorem calm_of_idle {program : ServerM Unit}
    (h : ∀ s, Rests s₀ s → program.run s = .ok () s) : Calm s₀ program :=
  .of_run fun s hs => Or.inl ⟨(), s, h s hs, hs⟩

theorem calm_iterateUsers {func : Ptr → ServerM Unit}
    (hfunc : ∀ user ∈ s₀.clientManager.users, Calm s₀ (func user)) :
    Calm s₀ (iterateUsers env func) :=
  guarded_iterateUsers env (fun s n hs => hs.trans (rests_ticks s n))
    (fun s hs => by rw [hs.rest]) hfunc

theorem modifyUser_same (s : Server) (user : Ptr) : (s.modifyUser user fun u => u) = s := by
  rw [modifyUser, Function.update_eq_self]

/-- The setters of the flags assign nothing. -/
theorem passFlags_idle (s : Server) (user : Ptr) : (passFlags user).run s = .ok () s := by
  rw [passFlags, run_bind_of_ok (getUser_run s user)]
  split
  · rw [updateUser_run]
    exact congrArg _ (modifyUser_same s user)
  · rfl

theorem resetRequired_idle (s : Server) (user : Ptr) : (resetRequired user).run s = .ok () s := by
  rw [resetRequired, updateUser_run]
  exact congrArg _ (modifyUser_same s user)

theorem updateOnlyQueues_idle (h : ¬ Queued (s.heap user)) :
    (updateOnlyQueues env user).run s = .ok () s := by
  have hqueued : ¬ ((s.heap user).getType = .pilot ∧ (s.heap user).updateOnlyQueues 0 = true) := h
  rw [updateOnlyQueues, run_bind_of_ok (getUser_run s user), if_neg hqueued]
  rfl

variable (h₀ : Settled env s₀) (huser : user ∈ s₀.clientManager.users)

include h₀ huser

theorem calm_updateLocalUsers : Calm s₀ (updateLocalUsers env user) := by
  refine .of_run fun s hs => Or.inl ⟨(), { s with ticks := s.ticks + 1 }, ?_,
    hs.trans (rests_ticks s _)⟩
  have hclients : s.clientManager = s₀.clientManager := by rw [hs.rest]
  exact ((h₀.of_rests hs).seen user (hclients ▸ huser)).updateLocalUsers_idle

/-- A visit sends what is pending, and then it is pending no more. -/
theorem calm_updateAbout (hother : other ∈ (s₀.heap user).localUsers) :
    Calm s₀ (updateAbout env user other) := by
  refine .of_run fun s hs => Or.inl ?_
  have hclients : s.clientManager = s₀.clientManager := by rw [hs.rest]
  have hmem : other ∈ (s.heap user).localUsers := (hs.seen user other).mpr hother
  have hrespects : Respects s user other :=
    (h₀.of_rests hs).respected user (hclients ▸ huser) other hmem
  have hasked : asked s user other = s := if_neg (not_lt.mpr hrespects)
  obtain ⟨t, hrun, hrecords, hidle⟩ := @updateAbout_run s env (env.clock s.ticks) rfl user other
  rw [hasked] at hrecords hidle
  refine ⟨(), t, hrun, hs.trans ?_⟩
  by_cases hdue : Due (env.clock s.ticks) s user other
  · refine rests_recorded hmem (fun huser hreport => ⟨hmem, ?_⟩) (hrecords hdue)
    rcases hdue with hrequired | hnone | ⟨hchanged, -⟩
    · rw [huser.1] at hrequired
      cases hrequired
    · rw [hnone]
      exact hreport.2.symm
    · exact hchanged
  · obtain ⟨n, rfl⟩ := hidle hdue
    exact rests_ticks s n

theorem calm_update : Calm s₀ (update env user) :=
  guarded_iterateLocalUsers env user (fun s n hs => hs.trans (rests_ticks s n))
    (fun _ hs v hv => (hs.seen user v).mp hv) fun _ hv => calm_updateAbout h₀ huser hv

theorem calm_updateOnlyQueues : Calm s₀ (updateOnlyQueues env user) := by
  refine calm_of_idle fun s hs => updateOnlyQueues_idle ?_
  have hclients : s.clientManager = s₀.clientManager := by rw [hs.rest]
  exact (h₀.of_rests hs).delivered user (hclients ▸ huser)

omit huser

/-- A pass over a settled server. -/
theorem calm_globalUpdate : Calm s₀ (globalUpdate env) := by
  unfold globalUpdate
  refine .of_bind (calm_iterateUsers fun user huser => ?_) fun _ => ?_
  · exact .of_bind (calm_updateLocalUsers h₀ huser) fun _ =>
      calm_of_idle fun s _ => passFlags_idle s user
  refine .of_bind (calm_iterateUsers fun user huser => calm_update h₀ huser) fun _ => ?_
  refine .of_bind (calm_iterateUsers fun user huser => calm_updateOnlyQueues h₀ huser) fun _ => ?_
  exact calm_iterateUsers fun user _ => calm_of_idle fun s _ => resetRequired_idle s user

end Resting

section Passes

variable {env : Environment} {s t : Server}

theorem Settled.of_dist {env' : Environment} (h : Settled env s) (hdist : env'.dist = env.dist) :
    Settled env' s := by
  refine ⟨fun user huser other hother hne => ?_, h.respected, h.delivered⟩
  have hseen := h.seen user huser other hother hne
  simp only [InRange, OutOfRange, hdist] at hseen ⊢
  exact hseen

/-- Any number of passes over the same places. -/
theorem passes_rest (h : Settled env s) (passes : List Environment)
    (hdist : ∀ e ∈ passes, e.dist = env.dist) :
    ∃ t, (passes.forM globalUpdate).run s = .ok () t ∧ Rests s t := by
  have hloop : Calm s (passes.forM globalUpdate) := by
    refine .of_forM fun e he => ⟨fun m hm => ?_, fun m _ _ hm hrun => ?_⟩
    all_goals
      have hcalm := calm_globalUpdate ((h.of_rests hm).of_dist (hdist e he))
    · exact hm.trans (hcalm.keeps m (rests_refl m))
    · exact hcalm.raised m _ _ (rests_refl m) hrun
  have hkeeps := hloop.keeps s (rests_refl s)
  cases hrun : (passes.forM globalUpdate).run s with
  | ok u t =>
    rw [hrun] at hkeeps
    exact ⟨t, rfl, hkeeps⟩
  | error e t => exact (hloop.raised s e t (rests_refl s) hrun).elim

/-- After a pass that returned, passes in any number, at any time and in any order return as long
as no packet comes and the distances are the same. They change nothing but the stamps in the sets,
and all they send is the position of a user to one that sees it or is seen by it. -/
theorem later_passes_rest (hrun : (globalUpdate env).run s = .ok () t) (passes : List Environment)
    (hdist : ∀ e ∈ passes, e.dist = env.dist) :
    ∃ r, (passes.forM globalUpdate).run t = .ok () r ∧ Rests t r :=
  passes_rest (globalUpdate_settled hrun) passes hdist

theorem later_passes_rest_twoUsers :
    ∃ r, ([.orderly sixtyMiles, .orderly sixtyMiles].forM globalUpdate).run afterPass = .ok () r ∧
      Rests afterPass r :=
  later_passes_rest afterPass_run _ (by simp)

/-- Two users with a position each are sent no more positions of each other than they had not
exchanged when the passes began, however many passes follow. -/
theorem reports_sent_once (hrun : (globalUpdate env).run s = .ok () t) (passes : List Environment)
    (hdist : ∀ e ∈ passes, e.dist = env.dist) {r : Server}
    (hpasses : (passes.forM globalUpdate).run t = .ok () r) {a b : Ptr} (ha : Reported t a)
    (hb : Reported t b) :
    (r.sent.drop t.sent.length).countP (ForPair a b ·) + pending r a b ≤ pending t a b := by
  obtain ⟨r', hrun', hrests⟩ := passes_rest (globalUpdate_settled hrun) passes hdist
  rw [hpasses] at hrun'
  cases hrun'
  obtain ⟨new, hsent, -, hspent⟩ := hrests.sent
  rw [hsent, List.drop_left]
  exact hspent a b ha hb

/-- A server whose users have all set the same stamp. -/
def reporting (s : Server) (stamp : ℤ) : Server :=
  { s with heap := fun p => { s.heap p with lastPositionUpdate := stamp } }

/-- The two users have reported a position, which a pass has sent, and another one. -/
def twoReported : Server :=
  reporting (finalState ((globalUpdate (.orderly sixtyMiles)).run (reporting twoUsers 3))) 7

/-- A pass that comes too early for the second report. -/
def afterReports : Server :=
  finalState ((globalUpdate (.orderly sixtyMiles)).run twoReported)

/-- The same places two seconds later. -/
def later : Environment := { Environment.orderly sixtyMiles with clock := fun _ => 2000 }

def afterReportsLater : Server := finalState (([later, later].forM globalUpdate).run afterReports)

theorem reports_sent_once_twoReported :
    pending afterReports 0 1 = 1 ∧
      (afterReportsLater.sent.drop afterReports.sent.length).countP (ForPair 0 1 ·) = 1 ∧
      (afterReportsLater.sent.drop afterReports.sent.length).countP (ForPair 0 1 ·) +
        pending afterReportsLater 0 1 ≤ pending afterReports 0 1 := by
  have hrun : (globalUpdate (.orderly sixtyMiles)).run twoReported = .ok () afterReports :=
    run_eq_ok (by decide +kernel)
  have hlater : ([later, later].forM globalUpdate).run afterReports = .ok () afterReportsLater :=
    run_eq_ok (by decide +kernel)
  have hdist : ∀ e ∈ [later, later], e.dist = (Environment.orderly sixtyMiles).dist := by
    simp [later]
  exact ⟨by decide +kernel, by decide +kernel,
    reports_sent_once hrun [later, later] hdist hlater (by decide +kernel) (by decide +kernel)⟩

end Passes

end Win64Server.Quiescence
