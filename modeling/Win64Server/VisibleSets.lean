import Win64Server.Library.Pointwise
import Win64Server.Visits

/-!
What `updateLocalUsers` leaves a user with: the connected users in its range. The loop visits the
users in any order; a visit changes the entry for the visited user and tells the user about it,
once. But the scripts of a user are followed and sent in between, and one that cannot be sent ends
the loop with the message out and the entry unchanged.
-/
namespace Win64Server.VisibleSets

open Outcome Library Server Frames Visits

/-- The message tells `user` to create `other`. -/
def isCreate (user other : Ptr) (e : Sent) : Bool :=
  match e.message with
  | .createClient about _ => decide (e.recipient = user ∧ about = other)
  | _ => false

def isDelete (user other : Ptr) (e : Sent) : Bool :=
  match e.message with
  | .deleteClient about _ => decide (e.recipient = user ∧ about = other)
  | _ => false

/-- What there is of another user in the set of a user and in the messages it has been sent. -/
structure Sight where
  entry : Option Attributes
  created : ℕ
  deleted : ℕ

def sight (user : Ptr) (s : Server) (other : Ptr) : Sight where
  entry := entry s user other
  created := s.sent.countP (isCreate user other)
  deleted := s.sent.countP (isDelete user other)

def SameSight (user other : Ptr) (s t : Server) : Prop := sight user t other = sight user s other

/-- Neither of the two messages. -/
def Neither (user other : Ptr) (e : Sent) : Prop :=
  isCreate user other e = false ∧ isDelete user other e = false

instance (user other : Ptr) : Std.Refl (SameSight user other) := ⟨fun _ => rfl⟩

instance (user other : Ptr) : IsTrans Server (SameSight user other) :=
  ⟨fun _ _ _ h h' => h'.trans h⟩

section SameSight

variable {user other v : Ptr} {s t : Server}

theorem sameSight_of_sent {new : List Sent} (hentry : entry t user other = entry s user other)
    (hsent : t.sent = s.sent ++ new) (hnew : ∀ e ∈ new, Neither user other e) :
    SameSight user other s t := by
  have hcreate : new.countP (isCreate user other) = 0 :=
    List.countP_eq_zero.mpr fun e he => by simp [(hnew e he).1]
  have hdelete : new.countP (isDelete user other) = 0 :=
    List.countP_eq_zero.mpr fun e he => by simp [(hnew e he).2]
  rw [SameSight, sight, sight, hentry, hsent, List.countP_append, List.countP_append, hcreate,
    hdelete, add_zero, add_zero]

theorem sameSight_push {message : Outgoing} (h : Neither user other ⟨v, message⟩) :
    SameSight user other s (s.push v message) :=
  sameSight_of_sent rfl rfl (by simpa using h)

theorem sameSight_modifyUser {f : User → User}
    (h : (f (s.heap v)).localUsers.lookup other = (s.heap v).localUsers.lookup other) :
    SameSight user other s (s.modifyUser v f) := by
  have hentry : entry (s.modifyUser v f) user other = entry s user other := by
    by_cases hv : user = v
    · rw [hv, entry, modifyUser_heap_self]
      exact h
    · rw [entry, modifyUser_heap_ne _ _ _ _ hv]
      rfl
  have hsent : (s.modifyUser v f).sent = s.sent ++ [] := by rw [modifyUser_sent, List.append_nil]
  exact sameSight_of_sent hentry hsent fun e he => absurd he List.not_mem_nil

theorem sameSight_of_sends (h : Sends (Neither user other) s t) : SameSight user other s t := by
  obtain ⟨new, hsent, hnew⟩ := h.sent
  exact sameSight_of_sent (by rw [entry, h.heap]; rfl) hsent hnew

theorem keeps_createFlightPlan (recipient client : Ptr) :
    Keeps (SameSight user other) (createFlightPlan recipient client) :=
  (sends_createFlightPlan fun _ _ => ⟨rfl, rfl⟩).mono fun _ _ => sameSight_of_sends

theorem keeps_sendScripts (recipient scriptsUser : Ptr) :
    Keeps (SameSight user other) (sendScripts recipient scriptsUser) :=
  (sends_sendScripts fun _ _ => ⟨rfl, rfl⟩).mono fun _ _ => sameSight_of_sends

theorem keeps_sendRemoveScripts (recipient scriptsUser : Ptr) :
    Keeps (SameSight user other) (sendRemoveScripts recipient scriptsUser) :=
  (sends_sendRemoveScripts fun _ _ => ⟨rfl, rfl⟩).mono fun _ _ => sameSight_of_sends

/-- An interval that is stored and told. -/
theorem sameSight_interval (s : Server) (v : Ptr) (time : ℤ) :
    SameSight user other s
      ((s.modifyUser v fun u => { u with updateInterval := time }).push v (.timeChange time)) := by
  have hstore : SameSight user other s
      (s.modifyUser v fun u => { u with updateInterval := time }) := sameSight_modifyUser rfl
  have htell : SameSight user other (s.modifyUser v fun u => { u with updateInterval := time })
      ((s.modifyUser v fun u => { u with updateInterval := time }).push v (.timeChange time)) :=
    sameSight_push ⟨rfl, rfl⟩
  exact Trans.trans hstore htell

theorem keeps_lowerInterval (v : Ptr) (reqInterval : ℤ) :
    Keeps (SameSight user other) (lowerInterval v reqInterval) := by
  intro s
  rw [lowerInterval_run, finalState_ok]
  split
  · exact sameSight_interval s v reqInterval
  · exact Std.Refl.refl s

theorem keeps_adjustTime (env : Environment) (v : Ptr) :
    Keeps (SameSight user other) (adjustTime env v) := by
  intro s
  obtain ⟨time, hrun⟩ := adjustTime_run s v env
  have htick : SameSight user other s { s with ticks := s.ticks + 1 } := rfl
  rw [hrun, finalState_ok]
  split
  · have htold : SameSight user other { s with ticks := s.ticks + 1 } _ :=
      sameSight_interval { s with ticks := s.ticks + 1 } v time
    exact Trans.trans htick htold
  · exact htick

end SameSight

section Scripts

/-- Every slot in use holds a script that can be sent. -/
def Tellable (u : User) : Prop :=
  ∀ slot ∈ u.scripts.getAllScripts, ∃ script, slot = some script ∧ script.castable = true

/-- Every slot in use holds a script. -/
def Withdrawable (u : User) : Prop := ∀ slot ∈ u.scripts.getAllScripts, slot ≠ none

variable {user v : Ptr} {s : Server}

theorem sendScripts_returns (user : Ptr) (h : Tellable (s.heap v)) :
    ∃ t, (sendScripts user v).run s = .ok () t := by
  rw [sendScripts, run_bind_of_ok (getUser_run s v)]
  refine run_forM_returns (fun slot hslot m => ?_) s
  obtain ⟨script, rfl, hcast⟩ := h slot hslot
  exact ⟨_, sendScript_run m user hcast v⟩

theorem sendScripts_stops (user : Ptr) (h : ¬ Tellable (s.heap v)) :
    ∃ e t, (sendScripts user v).run s = .error e t := by
  rw [Tellable] at h
  push Not at h
  obtain ⟨slot, hslot, hbad⟩ := h
  rw [sendScripts, run_bind_of_ok (getUser_run s v)]
  refine run_forM_stops hslot (fun m => ?_) s
  cases slot with
  | none => exact ⟨_, m, rfl⟩
  | some script => exact ⟨_, m, sendScript_stops m user (hbad script rfl) v⟩

theorem sendRemoveScripts_returns (user : Ptr) (h : Withdrawable (s.heap v)) :
    ∃ t, (sendRemoveScripts user v).run s = .ok () t := by
  rw [sendRemoveScripts, run_bind_of_ok (getUser_run s v)]
  refine run_forM_returns (fun slot hslot m => ?_) s
  cases slot with
  | none => exact absurd rfl (h none hslot)
  | some script => exact ⟨_, rfl⟩

theorem sendRemoveScripts_stops (user : Ptr) (h : ¬ Withdrawable (s.heap v)) :
    ∃ e t, (sendRemoveScripts user v).run s = .error e t := by
  rw [Withdrawable] at h
  push Not at h
  obtain ⟨slot, hslot, rfl⟩ := h
  rw [sendRemoveScripts, run_bind_of_ok (getUser_run s v)]
  refine run_forM_stops hslot (fun m => ?_) s
  exact ⟨_, m, rfl⟩

theorem createFlightPlan_returns (user client : Ptr) (s : Server) :
    ∃ t, (createFlightPlan user client).run s = .ok () t := by
  rw [createFlightPlan, run_bind_of_ok (getUser_run s client)]
  by_cases hpilot : (s.heap client).getType = .pilot
  · obtain ⟨a, ha⟩ := derived_of_pilot hpilot
    have hair := asAircraft_of_derived ha
    rw [if_pos hpilot, run_bind_of_ok (getFlightPlan_run hair)]
    cases hplan : a.flightPlan with
    | none => exact ⟨s, rfl⟩
    | some plan =>
      dsimp only
      split
      · exact ⟨_, sendFlightPlanCycle_run hair hplan user⟩
      · exact ⟨s, rfl⟩
  · rw [if_neg hpilot]
    exact ⟨s, rfl⟩

end Scripts

section Visits

variable {env : Environment} {user other v : Ptr} {s t : Server}

theorem keeps_emplace (hv : v ≠ other) :
    Keeps (SameSight user v) (emplaceLocalUser user other) := by
  intro s
  rw [emplaceLocalUser, updateUser_run, finalState_ok]
  refine sameSight_modifyUser ?_
  dsimp only
  split
  · rfl
  · exact AList.lookup_insert_ne hv

theorem keeps_erase (hv : v ≠ other) : Keeps (SameSight user v) (eraseLocalUser user other) := by
  intro s
  rw [eraseLocalUser, updateUser_run, finalState_ok]
  exact sameSight_modifyUser (AList.lookup_erase_ne hv)

/-- The sight of the other users stays. -/
theorem keeps_startSeeing (hv : v ≠ other) : Keeps (SameSight user v) (startSeeing user other) := by
  have hcreate : Keeps (SameSight user v) (Server.createClient user other) := by
    intro s
    rw [createClient_run, finalState_ok]
    have hne : ¬ (user = user ∧ other = v) := fun h => hv h.2.symm
    exact sameSight_push ⟨decide_eq_false hne, rfl⟩
  unfold startSeeing
  refine .bind (fun s => Std.Refl.refl s) fun u => .bind (fun s => Std.Refl.refl s) fun u2 => ?_
  refine .bind (keeps_lowerInterval other _) fun _ => .bind hcreate fun _ => ?_
  refine .bind (keeps_createFlightPlan user other) fun _ => ?_
  exact .bind (keeps_sendScripts user other) fun _ => keeps_emplace hv

theorem keeps_stopSeeing (hv : v ≠ other) :
    Keeps (SameSight user v) (stopSeeing env user other) := by
  have hdelete : Keeps (SameSight user v) (Server.deleteClient user other) := by
    intro s
    rw [deleteClient_run, finalState_ok]
    have hne : ¬ (user = user ∧ other = v) := fun h => hv h.2.symm
    exact sameSight_push ⟨rfl, decide_eq_false hne⟩
  unfold stopSeeing
  refine .bind hdelete fun _ => .bind (keeps_sendRemoveScripts user other) fun _ => ?_
  exact .bind (keeps_erase hv) fun _ => keeps_adjustTime env other

/-- One message more. -/
theorem sight_create (user other : Ptr) (s : Server) :
    sight user (s.push user (.createClient other (s.heap other))) other =
      { sight user s other with created := (sight user s other).created + 1 } := by
  have hcreate : isCreate user other ⟨user, .createClient other (s.heap other)⟩ = true :=
    decide_eq_true ⟨rfl, rfl⟩
  have hdelete : isDelete user other ⟨user, .createClient other (s.heap other)⟩ = false := rfl
  simp [sight, entry, hcreate, hdelete]

theorem sight_delete (user other : Ptr) (s : Server) :
    sight user (s.push user (.deleteClient other (s.heap other))) other =
      { sight user s other with deleted := (sight user s other).deleted + 1 } := by
  have hcreate : isCreate user other ⟨user, .deleteClient other (s.heap other)⟩ = false := rfl
  have hdelete : isDelete user other ⟨user, .deleteClient other (s.heap other)⟩ = true :=
    decide_eq_true ⟨rfl, rfl⟩
  simp [sight, entry, hcreate, hdelete]

/-- The message is out before the scripts are sent. -/
theorem startSeeing_run (user other : Ptr) (s : Server) :
    ∃ m, (startSeeing user other).run s = (do
        sendScripts user other
        emplaceLocalUser user other : ServerM Unit).run m ∧
      sight user m other =
        { sight user s other with created := (sight user s other).created + 1 } ∧
      (m.heap other).scripts = (s.heap other).scripts := by
  let reqInterval := (s.heap user).getRequestedInterval (s.heap other).getType
  obtain ⟨m₁, hlower⟩ : ∃ m₁, (lowerInterval other reqInterval).run s = .ok () m₁ :=
    ⟨_, lowerInterval_run s other reqInterval⟩
  have hsight₁ : SameSight user other s m₁ := (keeps_lowerInterval other _).ok hlower
  let m₂ := m₁.push user (.createClient other (m₁.heap other))
  have hsight₂ : sight user m₂ other =
      { sight user m₁ other with created := (sight user m₁ other).created + 1 } :=
    sight_create user other m₁
  obtain ⟨m₃, hplan⟩ := createFlightPlan_returns user other m₂
  have hsight₃ : SameSight user other m₂ m₃ := (keeps_createFlightPlan user other).ok hplan
  have hscripts₁ : Same User.scripts s m₁ :=
    (kept_lowerInterval (R := Same User.scripts) (fun _ _ => rfl) other _).keeps.ok hlower
  have hscripts₃ : Same User.scripts m₂ m₃ := by
    have hkept : Kept (Same User.scripts) (createFlightPlan user other) := inferInstance
    exact hkept.keeps.ok hplan
  refine ⟨m₃, ?_, ?_, (hscripts₃ other).trans (hscripts₁ other)⟩
  · rw [startSeeing, run_bind_of_ok (getUser_run s user), run_bind_of_ok (getUser_run s other),
      run_bind_of_ok hlower, run_bind_of_ok (createClient_run m₁ user other), run_bind_of_ok hplan]
  · rw [hsight₃, hsight₂, hsight₁]

theorem startSeeing_returns (hnew : entry s user other = none) (h : Tellable (s.heap other)) :
    ∃ t, (startSeeing user other).run s = .ok () t ∧
      sight user t other =
        ⟨some fun _ => 0, (sight user s other).created + 1, (sight user s other).deleted⟩ := by
  obtain ⟨m, hrun, hsight, hscripts⟩ := startSeeing_run user other s
  have htellable : Tellable (m.heap other) := by
    rw [Tellable, hscripts]
    exact h
  obtain ⟨n, hsend⟩ := sendScripts_returns user htellable
  have hsame : SameSight user other m n := (keeps_sendScripts user other).ok hsend
  have hsight' := hsame.trans hsight
  have hnone : other ∉ (n.heap user).localUsers :=
    AList.lookup_eq_none.mp ((congrArg Sight.entry hsight').trans hnew)
  refine ⟨_, hrun.trans ((run_bind_of_ok hsend).trans (updateUser_run n user _)), ?_⟩
  have hentry : entry (n.modifyUser user fun u => { u with localUsers :=
      if other ∈ u.localUsers then u.localUsers else u.localUsers.insert other fun _ => 0 })
      user other = some fun _ => 0 := by
    rw [entry, modifyUser_heap_self]
    dsimp only
    rw [if_neg hnone]
    exact AList.lookup_insert _
  rw [sight, hentry, modifyUser_sent]
  exact congrArg₂ (Sight.mk _) (congrArg Sight.created hsight') (congrArg Sight.deleted hsight')

/-- A script that cannot be sent leaves the entry as it was. -/
theorem startSeeing_stops (h : ¬ Tellable (s.heap other)) :
    ∃ e t, (startSeeing user other).run s = .error e t ∧
      entry t user other = entry s user other := by
  obtain ⟨m, hrun, hsight, hscripts⟩ := startSeeing_run user other s
  have htellable : ¬ Tellable (m.heap other) := by
    rw [Tellable, hscripts]
    exact h
  obtain ⟨e, t, hsend⟩ := sendScripts_stops user htellable
  have hsame : SameSight user other m (finalState ((sendScripts user other).run m)) :=
    keeps_sendScripts user other m
  rw [hsend, finalState_error] at hsame
  exact ⟨e, t, hrun.trans (run_bind_of_error hsend), congrArg Sight.entry (hsame.trans hsight)⟩

theorem stopSeeing_returns (env : Environment) (h : Withdrawable (s.heap other)) :
    ∃ t, (stopSeeing env user other).run s = .ok () t ∧
      sight user t other =
        ⟨none, (sight user s other).created, (sight user s other).deleted + 1⟩ := by
  let m := s.push user (.deleteClient other (s.heap other))
  have hsight : sight user m other =
      { sight user s other with deleted := (sight user s other).deleted + 1 } :=
    sight_delete user other s
  obtain ⟨n, hsend⟩ := sendRemoveScripts_returns (s := m) user h
  have hsame : SameSight user other m n := (keeps_sendRemoveScripts user other).ok hsend
  have hsight' := hsame.trans hsight
  let r := n.modifyUser user fun u => { u with localUsers := u.localUsers.erase other }
  obtain ⟨time, hadjust⟩ := adjustTime_run r other env
  have hlast : SameSight user other r _ := (keeps_adjustTime env other).ok hadjust
  refine ⟨_, (run_bind_of_ok (deleteClient_run s user other)).trans ((run_bind_of_ok hsend).trans
    ((run_bind_of_ok (updateUser_run n user _)).trans hadjust)), hlast.trans ?_⟩
  have hentry : entry r user other = none := by
    rw [entry, modifyUser_heap_self]
    exact AList.lookup_erase _ _
  rw [sight, hentry, modifyUser_sent]
  exact congrArg₂ (Sight.mk _) (congrArg Sight.created hsight') (congrArg Sight.deleted hsight')

theorem stopSeeing_stops (env : Environment) (h : ¬ Withdrawable (s.heap other)) :
    ∃ e t, (stopSeeing env user other).run s = .error e t ∧
      entry t user other = entry s user other := by
  let m := s.push user (.deleteClient other (s.heap other))
  obtain ⟨e, t, hsend⟩ := sendRemoveScripts_stops (s := m) user h
  have hsame : SameSight user other m (finalState ((sendRemoveScripts user other).run m)) :=
    keeps_sendRemoveScripts user other m
  rw [hsend, finalState_error] at hsame
  exact ⟨e, t, (run_bind_of_ok (deleteClient_run s user other)).trans (run_bind_of_error hsend),
    congrArg Sight.entry hsame⟩

end Visits

section Loop

variable {env : Environment} {user other : Ptr} {s m t : Server}

/-- The other user is in the range of the user. -/
def InRange (env : Environment) (s : Server) (user other : Ptr) : Prop :=
  within (env.dist (s.heap user).location (s.heap other).location) (s.heap user).visibilityRange

instance : Decidable (InRange env s user other) := by
  unfold InRange
  infer_instance

instance : Decidable (OutOfRange env s user other) := by
  unfold OutOfRange
  infer_instance

theorem not_outOfRange (h : InRange env s user other) : ¬ OutOfRange env s user other := by
  obtain ⟨d, hd, hle⟩ := h
  rintro ⟨d', hd', hlt⟩
  rw [Option.mem_unique hd' hd] at hlt
  exact absurd hle (not_le.mpr hlt)

/-- What a visit to another user does, with the distances of `s`. -/
def settle (env : Environment) (s : Server) (user other : Ptr) (b : Sight) : Sight :=
  if other = user then b
  else if b.entry.isNone ∧ InRange env s user other then
    ⟨some fun _ => 0, b.created + 1, b.deleted⟩
  else if b.entry.isSome ∧ OutOfRange env s user other then ⟨none, b.created, b.deleted + 1⟩
  else b

/-- The scripts that a visit sends are there. -/
def Ready (env : Environment) (s : Server) (user other : Ptr) (b : Sight) : Prop :=
  other ≠ user → (b.entry.isNone → InRange env s user other → Tellable (s.heap other)) ∧
    (b.entry.isSome → OutOfRange env s user other → Withdrawable (s.heap other))

/-- The loop changes nothing that its visits look at but the set of the user. -/
structure Around (user : Ptr) (s t : Server) : Prop where
  settled : Same Visits.settled s t
  scripts : Same User.scripts s t
  others : ∀ v, v ≠ user → (t.heap v).localUsers = (s.heap v).localUsers
  sent : ∃ new, t.sent = s.sent ++ new

instance : Frame (fun u => (Visits.settled u, u.scripts, u.localUsers)) (Around user) where
  refl _ := ⟨fun _ => rfl, fun _ => rfl, fun _ _ => rfl, [], (List.append_nil _).symm⟩
  trans s t r h h' := by
    obtain ⟨new, hsent⟩ := h.sent
    obtain ⟨new', hsent'⟩ := h'.sent
    exact ⟨Trans.trans h.settled h'.settled, Trans.trans h.scripts h'.scripts,
      fun v hv => (h'.others v hv).trans (h.others v hv), new ++ new', by
        rw [hsent', hsent, List.append_assoc]⟩
  push _ _ _ := ⟨fun _ => rfl, fun _ => rfl, fun _ _ => rfl, _, rfl⟩
  ticks _ _ := ⟨fun _ => rfl, fun _ => rfl, fun _ _ => rfl, [], (List.append_nil _).symm⟩
  modifyUser s v f hf := by
    have hframe := modifyUser_frame (g := fun u => (Visits.settled u, u.scripts, u.localUsers)) hf
    simp only [Prod.mk.injEq] at hframe
    exact ⟨fun u => (hframe u).1, fun u => (hframe u).2.1, fun u _ => (hframe u).2.2, [],
      (List.append_nil _).symm⟩

theorem around_modifyUser {f : User → User}
    (hsettled : ∀ u, Visits.settled (f u) = Visits.settled u)
    (hscripts : ∀ u : User, (f u).scripts = u.scripts) :
    Around user s (s.modifyUser user f) :=
  ⟨modifyUser_frame (hsettled _), modifyUser_frame (hscripts _),
    fun v hv => by rw [modifyUser_heap_ne _ _ _ _ hv], [], (List.append_nil _).symm⟩

theorem around_visitUser (location : Location) :
    Keeps (Around user) (visitUser env user location other) := by
  have hemplace : Kept (Around user) (emplaceLocalUser user other) := by
    refine ⟨fun s => ?_⟩
    rw [emplaceLocalUser, updateUser_run, finalState_ok]
    exact around_modifyUser (fun _ => rfl) fun _ => rfl
  have herase : Kept (Around user) (eraseLocalUser user other) := by
    refine ⟨fun s => ?_⟩
    rw [eraseLocalUser, updateUser_run, finalState_ok]
    exact around_modifyUser (fun _ => rfl) fun _ => rfl
  exact (kept_visitUser env user (fun _ _ => rfl) hemplace herase location).keeps

theorem inRange_iff (h : Same Visits.settled s t) :
    InRange env t user other ↔ InRange env s user other := by
  have hlocation (v : Ptr) : (t.heap v).location = (s.heap v).location :=
    congrArg Settled.location (h v)
  have hrange : (t.heap user).visibilityRange = (s.heap user).visibilityRange :=
    congrArg Settled.visibilityRange (h user)
  simp only [InRange, hlocation, hrange]

theorem visitUser_self (env : Environment) (location : Location) (s : Server) :
    (visitUser env user location user).run s = .ok () s := by
  rw [visitUser, if_neg (not_not.mpr rfl)]
  rfl

/-- A visit begins, ends or leaves what the user sees of another one. -/
theorem visitUser_run (env : Environment) (hne : other ≠ user) (s : Server) :
    (visitUser env user (s.heap user).location other).run s =
      if (entry s user other).isNone ∧ InRange env s user other then
        (startSeeing user other).run s
      else if (entry s user other).isSome ∧ OutOfRange env s user other then
        (stopSeeing env user other).run s
      else .ok () s := by
  have hcontains : (containsUser user other).run s =
      .ok (decide (other ∈ (s.heap user).localUsers)) s := rfl
  have hstart : (!decide (other ∈ (s.heap user).localUsers) &&
      decide (within (env.dist (s.heap user).location (s.heap other).location)
        (s.heap user).visibilityRange)) = true ↔
      (entry s user other).isNone ∧ InRange env s user other := by
    simp [entry, InRange, AList.lookup_eq_none]
  have hstop : (decide (other ∈ (s.heap user).localUsers) &&
      decide (beyond (env.dist (s.heap user).location (s.heap other).location)
        (s.heap user).visibilityRange)) = true ↔
      (entry s user other).isSome ∧ OutOfRange env s user other := by
    simp [entry, OutOfRange, AList.lookup_isSome]
  rw [visitUser, if_pos hne.symm, run_bind_of_ok (getUser_run s other),
    run_bind_of_ok (getUser_run s user), run_bind_of_ok hcontains]
  by_cases h : (entry s user other).isNone ∧ InRange env s user other
  · rw [if_pos h, if_pos (hstart.mpr h)]
  rw [if_neg h, if_neg (hstart.not.mpr h), run_bind_of_ok hcontains]
  by_cases h' : (entry s user other).isSome ∧ OutOfRange env s user other
  · rw [if_pos h', if_pos (hstop.mpr h')]
  · rw [if_neg h', if_neg (hstop.not.mpr h')]
    rfl

/-- A visit leaves the sight of the other users. -/
theorem keeps_visitUser (location : Location) {v : Ptr} (hv : v ≠ other) :
    Keeps (SameSight user v) (visitUser env user location other) := by
  have hcontains : Keeps (SameSight user v) (containsUser user other) :=
    .bind (fun s => Std.Refl.refl s) fun u => .pure _
  unfold visitUser
  split
  · refine .bind (fun s => Std.Refl.refl s) fun u2 => .bind (fun s => Std.Refl.refl s) fun u => ?_
    refine .bind hcontains fun seen => ?_
    split
    · exact keeps_startSeeing hv
    · refine .bind hcontains fun seen => ?_
      split
      · exact keeps_stopSeeing hv
      · exact .pure ()
  · exact .pure ()

theorem settle_settle (other : Ptr) (b : Sight) :
    settle env s user other (settle env s user other b) = settle env s user other b := by
  by_cases hself : other = user
  · simp only [settle, if_pos hself]
  by_cases hstart : b.entry.isNone ∧ InRange env s user other
  · have hout := not_outOfRange hstart.2
    simp [settle, hself, hstart, hout]
  by_cases hstop : b.entry.isSome ∧ OutOfRange env s user other
  · have hin : ¬ InRange env s user other := fun h => not_outOfRange h hstop.2
    simp [settle, hself, hin, hstop]
  · simp only [settle, if_neg hself, if_neg hstart, if_neg hstop]

/-- A settled sight asks for no more messages. -/
theorem ready_settle (other : Ptr) (b : Sight) :
    Ready env s user other (settle env s user other b) := by
  intro hself
  by_cases hstart : b.entry.isNone ∧ InRange env s user other
  · have hout := not_outOfRange hstart.2
    simp [settle, hself, hstart, hout]
  by_cases hstop : b.entry.isSome ∧ OutOfRange env s user other
  · have hin : ¬ InRange env s user other := fun h => not_outOfRange h hstop.2
    simp [settle, hself, hin, hstop]
  · rw [settle, if_neg hself, if_neg hstart, if_neg hstop]
    exact ⟨fun hnone hin => absurd ⟨hnone, hin⟩ hstart,
      fun hsome hout => absurd ⟨hsome, hout⟩ hstop⟩

theorem visitUser_around (hm : Around user s m) (hne : other ≠ user) :
    (visitUser env user (s.heap user).location other).run m =
      if (sight user m other).entry.isNone ∧ InRange env s user other then
        (startSeeing user other).run m
      else if (sight user m other).entry.isSome ∧ OutOfRange env s user other then
        (stopSeeing env user other).run m
      else .ok () m := by
  have hlocation : (m.heap user).location = (s.heap user).location :=
    congrArg Settled.location (hm.settled user)
  have hrun := visitUser_run env hne m
  simp only [inRange_iff hm.settled, outOfRange_iff hm.settled] at hrun
  rw [← hlocation]
  exact hrun

theorem visitUser_returns (hm : Around user s m) (other : Ptr)
    (hready : Ready env s user other (sight user m other)) :
    ∃ t, (visitUser env user (s.heap user).location other).run m = .ok () t ∧
      sight user t other = settle env s user other (sight user m other) := by
  by_cases hself : other = user
  · rw [settle, if_pos hself]
    exact ⟨m, hself ▸ visitUser_self env _ m, rfl⟩
  obtain ⟨htell, hwithdraw⟩ := hready hself
  rw [visitUser_around hm hself, settle, if_neg hself]
  by_cases hstart : (sight user m other).entry.isNone ∧ InRange env s user other
  · rw [if_pos hstart, if_pos hstart]
    refine startSeeing_returns (Option.isNone_iff_eq_none.mp hstart.1) ?_
    rw [Tellable, hm.scripts]
    exact htell hstart.1 hstart.2
  rw [if_neg hstart, if_neg hstart]
  by_cases hstop : (sight user m other).entry.isSome ∧ OutOfRange env s user other
  · rw [if_pos hstop, if_pos hstop]
    refine stopSeeing_returns env ?_
    rw [Withdrawable, hm.scripts]
    exact hwithdraw hstop.1 hstop.2
  · rw [if_neg hstop, if_neg hstop]
    exact ⟨m, rfl, rfl⟩

theorem visitUser_fails (hm : Around user s m) (other : Ptr)
    (hready : ¬ Ready env s user other (sight user m other)) :
    ∃ e t, (visitUser env user (s.heap user).location other).run m = .error e t ∧
      entry t user other = entry m user other := by
  rw [Ready, Classical.not_imp] at hready
  obtain ⟨hself, hbad⟩ := hready
  rw [visitUser_around hm hself]
  by_cases hstart : (sight user m other).entry.isNone ∧ InRange env s user other
  · rw [if_pos hstart]
    refine startSeeing_stops ?_
    rw [Tellable, hm.scripts]
    refine fun htell => hbad ⟨fun _ _ => htell, fun _ hout => ?_⟩
    exact absurd hout (not_outOfRange hstart.2)
  rw [if_neg hstart]
  by_cases hstop : (sight user m other).entry.isSome ∧ OutOfRange env s user other
  · rw [if_pos hstop]
    refine stopSeeing_stops env ?_
    rw [Withdrawable, hm.scripts]
    exact fun hwithdraw => hbad ⟨fun hnone hin => absurd ⟨hnone, hin⟩ hstart, fun _ _ => hwithdraw⟩
  · exact absurd ⟨fun hnone hin => absurd ⟨hnone, hin⟩ hstart,
      fun hsome hout => absurd ⟨hsome, hout⟩ hstop⟩ hbad

/-- The visits are independent of each other. -/
theorem pointwise_visitUser (env : Environment) (user : Ptr) (s : Server) :
    Pointwise (Around user s) (sight user) (settle env s user) (Ready env s user)
      (fun _ b c => c.entry = b.entry) (visitUser env user (s.heap user).location) where
  idem := settle_settle
  ready := ready_settle
  keeps _ _ hm := Trans.trans hm (around_visitUser _ _)
  others _ _ _ _ hv := keeps_visitUser _ hv _
  returns other _ hm hready := visitUser_returns hm other hready
  fails other _ hm hready := visitUser_fails hm other hready

end Loop

section Tally

variable {env : Environment} {user other : Ptr} {s t : Server} {b c : Sight}

/-- Between two sights, each entry that came or went has been told once, and the others stayed. -/
structure Tallied (b c : Sight) : Prop where
  surviving : b.entry.isSome → c.entry.isSome → c.entry = b.entry
  created : c.created = b.created + if b.entry.isNone ∧ c.entry.isSome then 1 else 0
  deleted : c.deleted = b.deleted + if b.entry.isSome ∧ c.entry.isNone then 1 else 0

theorem Tallied.refl (b : Sight) : Tallied b b := by
  cases h : b.entry with
  | none => exact ⟨fun _ _ => rfl, by simp [h], by simp [h]⟩
  | some att => exact ⟨fun _ _ => rfl, by simp [h], by simp [h]⟩

theorem tallied_settle (other : Ptr) (b : Sight) : Tallied b (settle env s user other b) := by
  by_cases hself : other = user
  · rw [settle, if_pos hself]
    exact .refl b
  rw [settle, if_neg hself]
  by_cases hstart : b.entry.isNone ∧ InRange env s user other
  · rw [if_pos hstart]
    have hnone := Option.isNone_iff_eq_none.mp hstart.1
    exact ⟨fun hsome => by simp [hnone] at hsome, by simp [hnone], by simp [hnone]⟩
  rw [if_neg hstart]
  by_cases hstop : b.entry.isSome ∧ OutOfRange env s user other
  · rw [if_pos hstop]
    obtain ⟨att, hatt⟩ := Option.isSome_iff_exists.mp hstop.1
    exact ⟨fun _ hsome => by simp at hsome, by simp [hatt], by simp [hatt]⟩
  · rw [if_neg hstop]
    exact .refl b

theorem settle_inRange (hne : other ≠ user) (h : InRange env s user other) (b : Sight) :
    (settle env s user other b).entry.isSome := by
  have hout := not_outOfRange h
  cases hentry : b.entry with
  | none => simp [settle, hne, hentry, h]
  | some att => simp [settle, hne, hentry, hout]

theorem settle_outOfRange (hne : other ≠ user) (h : OutOfRange env s user other) (b : Sight) :
    ¬ (settle env s user other b).entry.isSome := by
  have hin : ¬ InRange env s user other := fun hin => not_outOfRange hin h
  cases hentry : b.entry with
  | none => simp [settle, hne, hentry, hin]
  | some att => simp [settle, hne, hentry, hin, h]

/-- A distance that is not a number settles nothing. -/
theorem settle_nan (h : env.dist (s.heap user).location (s.heap other).location = none)
    (b : Sight) : settle env s user other b = b := by
  have hin : ¬ InRange env s user other := by
    rintro ⟨d, hd, -⟩
    rw [h] at hd
    cases hd
  have hout : ¬ OutOfRange env s user other := by
    rintro ⟨d, hd, -⟩
    rw [h] at hd
    cases hd
  simp [settle, hin, hout]

end Tally

/-- The messages between two states that tell `user` to create `other`. -/
def creations (user other : Ptr) (s t : Server) : ℕ :=
  (t.sent.drop s.sent.length).countP (isCreate user other)

def deletions (user other : Ptr) (s t : Server) : ℕ :=
  (t.sent.drop s.sent.length).countP (isDelete user other)

/-- From `s` to `t` the visibility of a user has been computed. -/
structure Computed (env : Environment) (user : Ptr) (s t : Server) : Prop where
  visible : ∀ other ∈ s.clientManager.users, other ≠ user → ∀ distance,
    env.dist (s.heap user).location (s.heap other).location = some distance →
      (other ∈ (t.heap user).localUsers ↔ distance ≤ (s.heap user).visibilityRange)
  nan : ∀ other ∈ s.clientManager.users, other ≠ user →
    env.dist (s.heap user).location (s.heap other).location = none →
      (other ∈ (t.heap user).localUsers ↔ other ∈ (s.heap user).localUsers)
  surviving : ∀ other, other ∈ (s.heap user).localUsers → other ∈ (t.heap user).localUsers →
    entry t user other = entry s user other
  created : ∀ other, creations user other s t =
    if other ∉ (s.heap user).localUsers ∧ other ∈ (t.heap user).localUsers then 1 else 0
  deleted : ∀ other, deletions user other s t =
    if other ∈ (s.heap user).localUsers ∧ other ∉ (t.heap user).localUsers then 1 else 0
  others : ∀ v, v ≠ user → (t.heap v).localUsers = (s.heap v).localUsers

/-- The scripts of every user that comes into sight can be sent, and those of every user that goes
out of sight are there. -/
def ScriptsReady (env : Environment) (user : Ptr) (s : Server) : Prop :=
  ∀ other ∈ s.clientManager.users, other ≠ user →
    (other ∉ (s.heap user).localUsers → InRange env s user other → Tellable (s.heap other)) ∧
    (other ∈ (s.heap user).localUsers → OutOfRange env s user other → Withdrawable (s.heap other))

section Result

variable {env : Environment} {user other : Ptr} {s t : Server}

theorem isSome_entry (s : Server) (user other : Ptr) :
    (entry s user other).isSome ↔ other ∈ (s.heap user).localUsers :=
  AList.lookup_isSome

theorem isNone_entry (s : Server) (user other : Ptr) :
    (entry s user other).isNone ↔ other ∉ (s.heap user).localUsers := by
  rw [Option.isNone_iff_eq_none]
  exact AList.lookup_eq_none

theorem ready_iff : Ready env s user other (sight user s other) ↔ (other ≠ user →
    (other ∉ (s.heap user).localUsers → InRange env s user other → Tellable (s.heap other)) ∧
    (other ∈ (s.heap user).localUsers → OutOfRange env s user other →
      Withdrawable (s.heap other))) := by
  simp only [Ready, sight, isSome_entry, isNone_entry]

/-- The messages are those that the sights count. -/
theorem countP_sent {new : List Sent} (h : t.sent = s.sent ++ new) (p : Sent → Bool) :
    t.sent.countP p = s.sent.countP p + (t.sent.drop s.sent.length).countP p := by
  rw [h, List.drop_left, List.countP_append]

theorem computed_of_settled (h : Around user s t)
    (hvisited : ∀ other ∈ s.clientManager.users,
      sight user t other = settle env s user other (sight user s other))
    (hmissed : ∀ other, other ∉ s.clientManager.users → sight user t other = sight user s other) :
    Computed env user s t := by
  have hmem (other : Ptr) : other ∈ (t.heap user).localUsers ↔
      (sight user t other).entry.isSome := (isSome_entry t user other).symm
  have htallied (other : Ptr) : Tallied (sight user s other) (sight user t other) := by
    by_cases hother : other ∈ s.clientManager.users
    · rw [hvisited other hother]
      exact tallied_settle other _
    · rw [hmissed other hother]
      exact .refl _
  obtain ⟨new, hsent⟩ := h.sent
  refine ⟨fun other hother hne distance hdist => ?_, fun other hother hne hdist => ?_,
    fun other hold hnew => ?_, fun other => ?_, fun other => ?_, h.others⟩
  · rw [hmem, hvisited other hother]
    constructor
    · intro hsome
      by_contra hfar
      exact settle_outOfRange hne ⟨distance, hdist, not_le.mp hfar⟩ _ hsome
    · intro hnear
      exact settle_inRange hne ⟨distance, hdist, hnear⟩ _
  · rw [hmem, hvisited other hother, settle_nan hdist]
    exact isSome_entry s user other
  · exact (htallied other).surviving ((isSome_entry s user other).mpr hold) ((hmem other).mp hnew)
  · have hcount := (htallied other).created
    have hall := countP_sent hsent (isCreate user other)
    simp only [sight, isSome_entry, isNone_entry] at hcount
    rw [creations]
    omega
  · have hcount := (htallied other).deleted
    have hall := countP_sent hsent (isDelete user other)
    simp only [sight, isSome_entry, isNone_entry] at hcount
    rw [deletions]
    omega

/-- A visit that fails leaves a user out of sight that is in range, or one in sight that is out of
range. -/
theorem not_computed {other : Ptr} (hother : other ∈ s.clientManager.users)
    (hready : ¬ Ready env s user other (sight user s other))
    (hentry : entry t user other = entry s user other) : ¬ Computed env user s t := by
  intro h
  rw [Ready, Classical.not_imp, not_and_or] at hready
  have hmem : other ∈ (t.heap user).localUsers ↔ other ∈ (s.heap user).localUsers := by
    rw [← isSome_entry, ← isSome_entry, hentry]
  obtain ⟨hne, hbad | hbad⟩ := hready
  · rw [Classical.not_imp, Classical.not_imp] at hbad
    obtain ⟨hnone, ⟨distance, hdist, hnear⟩, -⟩ := hbad
    have hin := (h.visible other hother hne distance hdist).mpr hnear
    exact (isNone_entry s user other).mp hnone (hmem.mp hin)
  · rw [Classical.not_imp, Classical.not_imp] at hbad
    obtain ⟨hsome, ⟨distance, hdist, hfar⟩, -⟩ := hbad
    have hin := hmem.mpr ((isSome_entry s user other).mp hsome)
    exact absurd ((h.visible other hother hne distance hdist).mp hin) (not_le.mpr hfar)

/-- The visibility of a user is computed exactly when all scripts that this concerns can be sent. -/
theorem computed_iff (env : Environment) (user : Ptr) (s : Server) :
    Computed env user s (finalState ((updateLocalUsers env user).run s)) ↔
      ScriptsReady env user s := by
  let order := env.arrange s.ticks s.clientManager.users
  have horder (other : Ptr) : other ∈ order ↔ other ∈ s.clientManager.users :=
    (env.arrange_perm _ _).mem_iff
  have hrun : (updateLocalUsers env user).run s =
      (order.forM (visitUser env user (s.heap user).location)).run
        { s with ticks := s.ticks + 1 } := rfl
  have hstart : Around user s { s with ticks := s.ticks + 1 } := Frame.toQuiet.ticks s _
  have hpointwise := pointwise_visitUser env user s
  have hready : (∀ other ∈ order, Ready env s user other (sight user s other)) ↔
      ScriptsReady env user s := by
    simp only [horder, ready_iff]
    exact Iff.rfl
  rw [hrun, ← hready]
  constructor
  · intro h
    by_contra hall
    obtain ⟨e, t, hloop, other, hother, hnot, hentry⟩ := hpointwise.forM_fails hstart hall
    rw [hloop, finalState_error] at h
    exact not_computed ((horder other).mp hother) hnot hentry h
  · intro hall
    obtain ⟨t, hloop, ht, hin, hout⟩ := hpointwise.forM_returns hstart hall
    rw [hloop, finalState_ok]
    exact computed_of_settled ht (fun other hother => hin other ((horder other).mpr hother))
      fun other hother => hout other ((horder other).not.mpr hother)

end Result

/-- A script with one string, as the server keeps it. -/
def stringScript : ClientScript := ⟨0, ['s'.toUInt8], [.int 1, .constCharPtr 0]⟩

def pilotOf (clientSocket : Socket) (scripts : ScriptIndex) : User :=
  { User.construct .zeroed clientSocket clientSocket (.aircraft (.construct .zeroed)) with
    scripts := scripts, index := clientSocket }

/-- Two pilots of which the second has registered the script. -/
def twoPilots : Ptr → User
  | 1 => pilotOf 2 ⟨fun i => if i = 0 then some stringScript else none, List.range' 1 1023, [0]⟩
  | _ => pilotOf 1 .init

def twoConnected : Server where
  __ := Server.initial fun _ => .zeroed
  heap := twoPilots
  clientManager := ((ClientManager.construct maxClients).providePlacement 1 0
    twoPilots).providePlacement 2 1 twoPilots

/-- All distances are 0. -/
def samePlace : Environment := .orderly fun _ _ => some 0

/-- The first pilot does not see the second one, although it is where it is. -/
theorem script_hides : ¬ ∀ (env : Environment) (user : Ptr) (s : Server),
    Computed env user s (finalState ((updateLocalUsers env user).run s)) := by
  intro hall
  have hvisible := (hall samePlace 0 twoConnected).visible 1 (by decide) (by decide) 0 rfl
  have hnear : (0 : ℚ) ≤ (twoConnected.heap 0).visibilityRange := by decide
  exact absurd (hvisible.mpr hnear) (by decide)

end Win64Server.VisibleSets
