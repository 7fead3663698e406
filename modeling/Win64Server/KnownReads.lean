import Win64Server.Unwritten
import Win64Server.Visits

/-!
What a pass reads of the members that may never have been written. The plan of a pilot is read
when someone begins to see it and when it is sent out; every turn of `update` reads whether the
user requires an update and the stamp of the other one, and the message it sends, the state of the
pilot it is about. When all of this is known, the pass keeps two servers alike.
-/
namespace Win64Server.Unwritten

open Outcome Server FlightPlanUpdate FlightPlanVersions Frames Visits

section Conditions

variable (env : Environment) (known : Known)

/-- A plan that goes out when its cycle passes the test: the cycle is known, and when it goes out,
so are the flight rules. -/
def PlanKnown (sends : ℤ → Bool) (s : Server) (p : Ptr) : Prop :=
  ∀ plan ∈ planOf s p,
    known p .cycle = true ∧ (sends plan.cycle = true → known p .flightRules = true)

/-- The test that a plan has been stored. -/
def cycled (cycle : ℤ) : Bool := cycle ≠ 0

def PositionKnown (s : Server) (p : Ptr) : Prop :=
  (s.heap p).getType = .pilot → known p .groundSpeed = true ∧ known p .altitude = true

/-- Whose position a turn of `update` sends, if any. -/
def told (user other : Ptr) (updateRequired : Bool) (request interval last stamp now : ℤ) :
    Option Ptr :=
  if updateRequired then some other
  else if last = 0 then some user
  else if last ≠ stamp ∧ now - last ≥ request then
    if now - last ≥ request - interval ∧ now - last ≤ request + interval then some other
    else if now - last > request + interval then some user
    else none
  else none

/-- The members a turn of `update` reads. -/
def TurnKnown (user other : Ptr) (s : Server) : Prop :=
  known user .updateRequired = true ∧ known other .lastPositionUpdate = true ∧
    ∀ about ∈ told user other (s.heap user).updateRequired (request s user other)
        (min (s.heap other).updateInterval (request s user other)) (recorded s user other)
        (s.heap other).lastPositionUpdate (env.clock s.ticks),
      PositionKnown known s about

/-- The members that are read when one user comes into the sight of another. -/
def SightKnown (user : Ptr) (location : Location) (other : Ptr) (s : Server) : Prop :=
  user ≠ other → other ∉ (s.heap user).localUsers →
    within (env.dist location (s.heap other).location) (s.heap user).visibilityRange →
    PlanKnown known cycled s other

/-- The members that are read when the plan of a flagged pilot goes to the controllers. -/
def QueueKnown (user : Ptr) (s : Server) : Prop :=
  (s.heap user).getType = .pilot → (s.heap user).updateOnlyQueues 0 = true →
    (∃ other ∈ (s.heap user).localUsers.keys, (s.heap other).getType = .controller) →
    PlanKnown known cycled s user

/-- `P` at the beginning of each round of a loop over the users. -/
def EachUser (P : Ptr → Server → Prop) (func : Ptr → ServerM Unit) (s : Server) : Prop :=
  EachRound P func (env.arrange s.ticks s.clientManager.users) { s with ticks := s.ticks + 1 }

def EachLocalUser (P : Ptr → Server → Prop) (func : Ptr → ServerM Unit) (user : Ptr)
    (s : Server) : Prop :=
  EachRound P func (env.arrange s.ticks (s.heap user).localUsers.keys)
    { s with ticks := s.ticks + 1 }

/-- The body of the first loop of a pass. -/
def look (user : Ptr) : ServerM Unit := do
  updateLocalUsers env user
  passFlags user

def LookKnown (user : Ptr) (s : Server) : Prop :=
  EachUser env (SightKnown env known user (s.heap user).location)
    (visitUser env user (s.heap user).location) s

def TurnsKnown (user : Ptr) (s : Server) : Prop :=
  EachLocalUser env (TurnKnown env known user) (updateAbout env user) user s

/-- The members a pass reads, each at the time it is read. -/
def PassKnown (s : Server) : Prop :=
  EachUser env (LookKnown env known) (look env) s ∧
    After (iterateUsers env (look env)) (fun s =>
      EachUser env (TurnsKnown env known) (update env) s ∧
        After (iterateUsers env (update env))
          (EachUser env (QueueKnown known) (updateOnlyQueues env)) s) s

instance (sends : ℤ → Bool) (s : Server) (p : Ptr) : Decidable (PlanKnown known sends s p) :=
  inferInstanceAs (Decidable (∀ plan ∈ planOf s p, _))

instance (user other : Ptr) : DecidablePred (TurnKnown env known user other) :=
  fun _ => inferInstanceAs (Decidable (_ ∧ _ ∧ ∀ about ∈ told .., _ → _))

instance (user : Ptr) (location : Location) (other : Ptr) :
    DecidablePred (SightKnown env known user location other) :=
  fun _ => inferInstanceAs (Decidable (_ → _ → _ → _))

instance (user : Ptr) : DecidablePred (QueueKnown known user) :=
  fun _ => inferInstanceAs (Decidable (_ → _ → (∃ _ ∈ _, _) → _))

instance (P : Ptr → Server → Prop) [∀ user, DecidablePred (P user)] (func : Ptr → ServerM Unit) :
    DecidablePred (EachUser env P func) :=
  fun _ => decidableEachRound func _ _

instance (P : Ptr → Server → Prop) [∀ user, DecidablePred (P user)] (func : Ptr → ServerM Unit)
    (user : Ptr) : DecidablePred (EachLocalUser env P func user) :=
  fun _ => decidableEachRound func _ _

instance (user : Ptr) : DecidablePred (LookKnown env known user) :=
  fun _ => inferInstanceAs (Decidable (EachUser ..))

instance (user : Ptr) : DecidablePred (TurnsKnown env known user) :=
  fun _ => inferInstanceAs (Decidable (EachLocalUser ..))

instance : DecidablePred (PassKnown env known) :=
  fun _ => inferInstanceAs (Decidable (EachUser .. ∧ After ..))

end Conditions

section Plans

variable {c : Comparison} {s t : Server} {p : Ptr} {a : Aircraft}

theorem createFlightPlan_run (user : Ptr) (ha : (s.heap p).asAircraft = some a) :
    (Server.createFlightPlan user p).run s = .ok () (a.flightPlan.elim s fun plan =>
      if plan.cycle ≠ 0 then s.push user (.flightPlanCycle p (s.heap p) plan) else s) := by
  rw [Server.createFlightPlan, run_bind_of_ok (getUser_run s p), if_pos (getType_of_asAircraft ha),
    run_bind_of_ok (getFlightPlan_run ha)]
  cases hplan : a.flightPlan with
  | none => rfl
  | some plan =>
    dsimp only [Option.elim_some]
    split
    · exact sendFlightPlanCycle_run ha hplan user
    · rfl

theorem createFlightPlan_controller (user : Ptr) (hnone : (s.heap p).asAircraft = none) :
    (Server.createFlightPlan user p).run s = .ok () s := by
  rw [Server.createFlightPlan, run_bind_of_ok (getUser_run s p), if_neg (getType_of_none hnone)]
  rfl

/-- The plans of a pilot in two servers: the same way to decide, and the same plan to send. -/
theorem Parallel.plans (h : Parallel c s t) (hp : p < c.next) {sends : ℤ → Bool}
    (hknown : PlanKnown c.known sends s p) (ha : (s.heap p).asAircraft = some a) :
    ∃ b, (t.heap p).asAircraft = some b ∧
      ((a.flightPlan = none ∧ b.flightPlan = none) ∨
        ∃ plan plan', a.flightPlan = some plan ∧ b.flightPlan = some plan' ∧
          plan.cycle = plan'.cycle ∧ (sends plan.cycle = true → plan = plan')) := by
  obtain ⟨b, hb, htwins⟩ := (h.users p hp).asAircraft_some ha
  refine ⟨b, hb, ?_⟩
  cases hplan : a.flightPlan with
  | none => exact Or.inl ⟨rfl, htwins.flightPlan_none hplan⟩
  | some plan =>
    obtain ⟨plan', hplan', -, hcycle, hsame⟩ := htwins.flightPlan_some hplan
    obtain ⟨hk, hrules⟩ := hknown plan (planOf_eq_some.mpr ⟨a, ha, hplan⟩)
    exact Or.inr ⟨plan, plan', rfl, hplan', hcycle hk, fun hsends => hsame hk (hrules hsends)⟩

theorem matched_createFlightPlan (h : Parallel c s t) (user : Ptr) (hp : p < c.next)
    (hknown : PlanKnown c.known cycled s p) :
    Matched (Parallel c) (Parallel c) ((Server.createFlightPlan user p).run s)
      ((Server.createFlightPlan user p).run t) := by
  cases ha : (s.heap p).asAircraft with
  | none =>
    rw [createFlightPlan_controller user ha,
      createFlightPlan_controller user ((h.users p hp).asAircraft_none ha)]
    exact .ok () h
  | some a =>
    obtain ⟨b, hb, hplans⟩ := h.plans hp hknown ha
    rw [createFlightPlan_run user ha, createFlightPlan_run user hb]
    rcases hplans with ⟨hnone, hnone'⟩ | ⟨plan, plan', hplan, hplan', hcycle, hsame⟩
    · rw [hnone, hnone']
      exact .ok () h
    · rw [hplan, hplan', Option.elim_some, Option.elim_some, ← hcycle]
      split
      next hne =>
        obtain rfl := hsame (decide_eq_true hne)
        exact .ok () (h.push ((h.users p hp).flightPlanCycle p plan))
      next => exact .ok () h

end Plans

section Positions

variable {c : Comparison} {s t : Server} {user other about : Ptr}

/-- The message that tells the position of a user. -/
def positionOf (about : Ptr) (u : User) : Outgoing :=
  match u.derived with
  | .aircraft a => .pilotUpdate about u a
  | .controller _ => .controllerUpdate about u

theorem sendPosUpdate_positionOf (s : Server) (updatedUser about : Ptr) :
    (sendPosUpdate updatedUser about).run s =
      .ok () (s.push updatedUser (positionOf about (s.heap about))) := by
  rw [sendPosUpdate, run_bind_of_ok (getUser_run s about), positionOf]
  cases (s.heap about).derived <;> rfl

theorem Twins.position {known : Member → Bool} {u v : User} (h : Twins known u v)
    (hknown : u.getType = .pilot → known .groundSpeed = true ∧ known .altitude = true) :
    Alike (positionOf about u) (positionOf about v) := by
  unfold positionOf
  rcases h.derived with ⟨x, y, hu, hv⟩ | ⟨a, b, hu, hv, htwins⟩
  · rw [hu, hv]
    exact h.controllerUpdate about
  · rw [hu, hv]
    obtain ⟨hspeed, haltitude⟩ := hknown (by rw [User.getType, hu])
    exact h.pilotUpdate about (htwins.state hspeed haltitude)

theorem matched_sendPosUpdate (h : Parallel c s t) (updatedUser : Ptr) (hp : about < c.next)
    (hknown : PositionKnown c.known s about) :
    Matched (Parallel c) (Parallel c) ((sendPosUpdate updatedUser about).run s)
      ((sendPosUpdate updatedUser about).run t) := by
  rw [sendPosUpdate_positionOf, sendPosUpdate_positionOf]
  exact .ok () (h.push ((h.users about hp).position hknown))

/-- The stamp goes into the entry of one user for another. -/
theorem coupled_recordStamp (user : Ptr) (hother : other < c.next) (att : Attributes)
    (stamp : ℤ) :
    Coupled (Parallel c) (recordStamp user other att stamp) (recordStamp user other att stamp) := by
  refine .modify fun s t h => h.modifyUser (fun htwins => ?_) fun v hv => ?_
  · exact htwins.map (f := fun u => { u with
      localUsers := u.localUsers.insert other (Function.update att lastPosUpdate stamp) })
      (fun _ => rfl) fun _ => rfl
  · rcases (AList.mem_insert _).mp hv with rfl | hv
    · exact Or.inr hother
    · exact Or.inl hv

/-- A position is sent and the stamp recorded. -/
theorem matched_report (h : Parallel c s t) (updatedUser : Ptr) (user : Ptr)
    (hother : other < c.next) (hp : about < c.next) (hknown : PositionKnown c.known s about)
    (att : Attributes) (stamp : ℤ) :
    Matched (Parallel c) (Parallel c)
      ((do
        sendPosUpdate updatedUser about
        recordStamp user other att stamp : ServerM Unit).run s)
      ((do
        sendPosUpdate updatedUser about
        recordStamp user other att stamp : ServerM Unit).run t) :=
  (matched_sendPosUpdate h updatedUser hp hknown).bind fun _ s' t' _ h' =>
    coupled_recordStamp user hother att stamp s' t' h'

/-- The rest of a turn, with the same arguments on both sides. -/
theorem matched_sendDue (env : Environment) (h : Parallel c s t) (huser : user < c.next)
    (hother : other < c.next) (updateRequired : Bool) (request : ℤ) (att : Attributes) (stamp : ℤ)
    (hknown : ∀ about ∈ told user other updateRequired request (s.heap other).updateInterval
      (att lastPosUpdate) stamp (env.clock s.ticks), PositionKnown c.known s about) :
    Matched (Parallel c) (Parallel c)
      ((sendDue env user other updateRequired request att stamp).run s)
      ((sendDue env user other updateRequired request att stamp).run t) := by
  have hinterval : (s.heap other).updateInterval = (t.heap other).updateInterval :=
    (h.users other hother).congr User.updateInterval fun _ => rfl
  rw [sendDue, run_bind_of_ok (getUser_run s other), run_bind_of_ok (getUser_run t other)]
  dsimp only
  rw [← hinterval]
  unfold told at hknown
  split
  · exact .ok () h
  by_cases hrequired : updateRequired = true
  · rw [if_pos hrequired] at hknown
    rw [if_pos hrequired]
    exact matched_report h user user hother hother (hknown other rfl) att stamp
  rw [if_neg hrequired] at hknown
  rw [if_neg hrequired]
  by_cases hlast : att lastPosUpdate = 0
  · rw [if_pos hlast] at hknown
    rw [if_neg (not_not.mpr hlast)]
    exact matched_report h other user hother huser (hknown user rfl) att stamp
  rw [if_neg hlast] at hknown
  rw [if_pos hlast, run_bind_of_ok (readClock_run s env),
    run_bind_of_ok (readClock_run t env), h.ticks]
  have hticks := h.setTicks (s.ticks + 1)
  split
  next hdue =>
    rw [if_pos hdue] at hknown
    split
    next hwithin =>
      rw [if_pos hwithin] at hknown
      exact matched_report hticks user user hother hother (hknown other rfl) att stamp
    next hwithin =>
      rw [if_neg hwithin] at hknown
      split
      next hover =>
        rw [if_pos hover] at hknown
        exact matched_report hticks other user hother huser (hknown user rfl) att stamp
      next => exact .ok () hticks
  next => exact .ok () hticks

end Positions

section Turns

variable {c : Comparison} {s t : Server} {user other : Ptr}

theorem coupled_timeUpdate (huser : user < c.next) (hother : other < c.next) :
    Coupled (Parallel c) (timeUpdate user other) (timeUpdate user other) := by
  refine coupled_getUser_bind huser fun u v htwins _ => ?_
  refine coupled_getUser_bind hother fun u' v' htwins' _ => ?_
  rw [htwins.getType, htwins'.requested]
  exact coupled_lowerInterval huser _

theorem matched_updateAbout (env : Environment) (h : Parallel c s t) (huser : user < c.next)
    (hother : other < c.next) (hknown : TurnKnown env c.known user other s) :
    Matched (Parallel c) (Parallel c) ((updateAbout env user other).run s)
      ((updateAbout env user other).run t) := by
  obtain ⟨hrequired, hstamp, hposition⟩ := hknown
  have htwins := h.users user huser
  have htwins' := h.users other hother
  have hrequired' : (s.heap user).updateRequired = (t.heap user).updateRequired :=
    htwins.same _ hrequired
  have hstamp' : (s.heap other).lastPositionUpdate = (t.heap other).lastPositionUpdate :=
    htwins'.same _ hstamp
  have hlocals : (s.heap user).localUsers = (t.heap user).localUsers :=
    htwins.congr User.localUsers fun _ => rfl
  rw [updateAbout, run_bind_of_ok (getUser_run s user), run_bind_of_ok (getUser_run s other),
    run_bind_of_ok (getUser_run t user), run_bind_of_ok (getUser_run t other), ← hrequired',
    ← hstamp', ← hlocals, ← htwins'.getType, ← htwins.requested]
  refine (coupled_timeUpdate hother huser s t h).bind fun _ s' t' hrun h' => ?_
  rw [timeUpdate_asked] at hrun
  cases hrun
  refine matched_sendDue env h' huser hother _ _ _ _ fun about habout => ?_
  rw [asked_interval_eq, asked_ticks] at habout
  intro htype
  rw [(asked_only fun _ _ => False).type] at htype
  exact hposition about habout htype

/-- A loop over the local users, whose rounds end alike under a condition that holds in each. -/
theorem matched_iterateLocalUsers (env : Environment) {P : Ptr → Server → Prop}
    {func : Ptr → ServerM Unit} (h : Parallel c s t) (huser : user < c.next)
    (hfunc : ∀ other, other < c.next → ∀ s t, Parallel c s t → P other s →
      Matched (Parallel c) (Parallel c) ((func other).run s) ((func other).run t))
    (hrounds : EachLocalUser env P func user s) :
    Matched (Parallel c) (Parallel c) ((iterateLocalUsers env user func).run s)
      ((iterateLocalUsers env user func).run t) := by
  have hkeys : (s.heap user).localUsers.keys = (t.heap user).localUsers.keys :=
    (h.users user huser).congr (fun w => w.localUsers.keys) fun _ => rfl
  rw [iterateLocalUsers, run_bind_of_ok (getUser_run s user), run_bind_of_ok (getUser_run t user),
    ← hkeys, run_bind_of_ok (arranged_run s env _), run_bind_of_ok (arranged_run t env _), h.ticks]
  refine .forM (fun other hmem => hfunc other ?_) (h.setTicks _) hrounds
  exact h.localUsers user huser other
    (AList.mem_keys.mpr ((env.arrange_perm _ _).mem_iff.mp hmem))

theorem matched_iterateUsers (env : Environment) {P : Ptr → Server → Prop}
    {func : Ptr → ServerM Unit} (h : Parallel c s t)
    (hfunc : ∀ user, user < c.next → ∀ s t, Parallel c s t → P user s →
      Matched (Parallel c) (Parallel c) ((func user).run s) ((func user).run t))
    (hrounds : EachUser env P func s) :
    Matched (Parallel c) (Parallel c) ((iterateUsers env func).run s)
      ((iterateUsers env func).run t) := by
  have hs (r : Server) : (iterateUsers env func).run r =
      ((env.arrange r.ticks r.clientManager.users).forM func).run
        { r with ticks := r.ticks + 1 } := rfl
  rw [hs s, hs t, congrArg ClientManager.users h.clientManager, h.ticks]
  refine .forM (fun user hmem => hfunc user ?_) (h.setTicks _) hrounds
  exact h.users_lt user ((env.arrange_perm _ _).mem_iff.mp hmem)

end Turns

section Pass

variable {c : Comparison} (env : Environment) {s t : Server} {user other : Ptr}

theorem coupled_stopSeeing (user : Ptr) (hother : other < c.next) :
    Coupled (Parallel c) (stopSeeing env user other) (stopSeeing env user other) := by
  refine .bind (coupled_deleteClient user hother) fun _ => ?_
  refine .bind (coupled_sendRemoveScripts user hother) fun _ => .bind ?_ fun _ => ?_
  · refine .modify fun s t h => h.modifyUser (fun htwins => ?_) fun v hv => ?_
    · exact htwins.map (f := fun u => { u with localUsers := u.localUsers.erase other })
        (fun _ => rfl) fun _ => rfl
    · exact Or.inl (AList.mem_erase.mp hv).2
  · exact coupled_adjustTime env hother

theorem coupled_emplaceLocalUser (hother : other < c.next) :
    Coupled (Parallel c) (emplaceLocalUser user other) (emplaceLocalUser user other) := by
  refine .modify fun s t h => h.modifyUser (fun htwins => ?_) fun v hv => ?_
  · exact htwins.map (f := fun u => { u with localUsers :=
      if other ∈ u.localUsers then u.localUsers else u.localUsers.insert other fun _ => 0 })
      (fun _ => rfl) fun _ => rfl
  · dsimp only at hv
    split at hv
    · exact Or.inl hv
    · rcases (AList.mem_insert _).mp hv with rfl | hv
      · exact Or.inr hother
      · exact Or.inl hv

/-- A plan that is known stays so while the aircraft are left alone. -/
theorem PlanKnown.of_same {known : Known} {sends : ℤ → Bool} {m : Server}
    (h : PlanKnown known sends s other) (hsame : Same User.asAircraft s m) :
    PlanKnown known sends m other := by
  intro plan hplan
  refine h plan ?_
  rw [planOf, ← hsame other]
  exact hplan

theorem matched_startSeeing (h : Parallel c s t) (huser : user < c.next) (hother : other < c.next)
    (hknown : PlanKnown c.known cycled s other) :
    Matched (Parallel c) (Parallel c) ((startSeeing user other).run s)
      ((startSeeing user other).run t) := by
  have htwins := h.users user huser
  rw [startSeeing, run_bind_of_ok (getUser_run s user), run_bind_of_ok (getUser_run s other),
    run_bind_of_ok (getUser_run t user), run_bind_of_ok (getUser_run t other),
    ← (h.users other hother).getType, ← htwins.requested]
  have hlower : Kept (Same User.asAircraft) (lowerInterval other
      ((s.heap user).getRequestedInterval (s.heap other).getType)) :=
    kept_lowerInterval (fun _ _ => rfl) other _
  have hcreate : Kept (Same User.asAircraft) (Server.createClient user other) := inferInstance
  refine (coupled_lowerInterval hother _ s t h).bind fun _ s₁ t₁ hrun₁ h₁ => ?_
  refine (coupled_createClient user hother s₁ t₁ h₁).bind fun _ s₂ t₂ hrun₂ h₂ => ?_
  have hknown' : PlanKnown c.known cycled s₂ other :=
    (hknown.of_same (hlower.keeps.ok hrun₁)).of_same (hcreate.keeps.ok hrun₂)
  refine (matched_createFlightPlan h₂ user hother hknown').bind fun _ s₃ t₃ _ h₃ => ?_
  refine Coupled.bind (coupled_sendScripts user hother) (fun _ => ?_) s₃ t₃ h₃
  exact coupled_emplaceLocalUser hother

theorem matched_visitUser (h : Parallel c s t) (huser : user < c.next) (location : Location)
    (hother : other < c.next) (hknown : SightKnown env c.known user location other s) :
    Matched (Parallel c) (Parallel c) ((visitUser env user location other).run s)
      ((visitUser env user location other).run t) := by
  have hlocals : (s.heap user).localUsers = (t.heap user).localUsers :=
    (h.users user huser).congr User.localUsers fun _ => rfl
  have hrange : (s.heap user).visibilityRange = (t.heap user).visibilityRange :=
    (h.users user huser).congr User.visibilityRange fun _ => rfl
  have hlocation : (s.heap other).location = (t.heap other).location :=
    (h.users other hother).congr User.location fun _ => rfl
  have hcontains (r : Server) : (containsUser user other).run r =
      .ok (decide (other ∈ (r.heap user).localUsers)) r := rfl
  unfold visitUser
  split
  next hne =>
    rw [run_bind_of_ok (getUser_run s other), run_bind_of_ok (getUser_run t other),
      run_bind_of_ok (getUser_run s user), run_bind_of_ok (getUser_run t user),
      run_bind_of_ok (hcontains s), run_bind_of_ok (hcontains t), ← hlocals, ← hrange, ← hlocation]
    split
    next hsees =>
      simp only [Bool.and_eq_true, Bool.not_eq_true', decide_eq_false_iff_not,
        decide_eq_true_eq] at hsees
      exact matched_startSeeing h huser hother (hknown hne hsees.1 hsees.2)
    next =>
      rw [run_bind_of_ok (hcontains s), run_bind_of_ok (hcontains t), ← hlocals]
      exact Coupled.ite (coupled_stopSeeing env user hother) (.pure ()) s t h
  next => exact .ok () h

theorem matched_updateLocalUsers (h : Parallel c s t) (huser : user < c.next)
    (hknown : LookKnown env c.known user s) :
    Matched (Parallel c) (Parallel c) ((updateLocalUsers env user).run s)
      ((updateLocalUsers env user).run t) := by
  have hlocation : (s.heap user).location = (t.heap user).location :=
    (h.users user huser).congr User.location fun _ => rfl
  rw [updateLocalUsers, run_bind_of_ok (getUser_run s user), run_bind_of_ok (getUser_run t user),
    ← hlocation]
  exact matched_iterateUsers env h
    (fun other hother s t h hsight => matched_visitUser env h huser _ hother hsight) hknown

/-- The two setters store nothing, whatever the flag says. -/
theorem passFlags_run (s : Server) (user : Ptr) : (passFlags user).run s = .ok () s := by
  have hsame :
      s.modifyUser user (fun u => (u.setUpdateRequired true).setTriggerUpdate false) = s := by
    unfold modifyUser User.setUpdateRequired User.setTriggerUpdate
    rw [Function.update_eq_self]
  rw [passFlags, run_bind_of_ok (getUser_run s user)]
  split
  · rw [updateUser_run, hsame]
  · rfl

theorem resetRequired_run (s : Server) (user : Ptr) : (resetRequired user).run s = .ok () s := by
  have hsame : s.modifyUser user (fun u => u.setUpdateRequired false) = s := by
    unfold modifyUser User.setUpdateRequired
    rw [Function.update_eq_self]
  rw [resetRequired, updateUser_run, hsame]

theorem matched_look (h : Parallel c s t) (huser : user < c.next)
    (hknown : LookKnown env c.known user s) :
    Matched (Parallel c) (Parallel c) ((look env user).run s) ((look env user).run t) := by
  refine (matched_updateLocalUsers env h huser hknown).bind fun _ s' t' _ h' => ?_
  rw [passFlags_run, passFlags_run]
  exact .ok () h'

theorem matched_update (h : Parallel c s t) (huser : user < c.next)
    (hknown : TurnsKnown env c.known user s) :
    Matched (Parallel c) (Parallel c) ((update env user).run s) ((update env user).run t) :=
  matched_iterateLocalUsers env h huser
    (fun _ hother _ _ h hturn => matched_updateAbout env h huser hother hturn) hknown

theorem coupled_sendFlightPlanCycle (recipient : Ptr) (huser : user < c.next)
    (hcycle : c.known user .cycle = true) (hrules : c.known user .flightRules = true) :
    Coupled (Parallel c) (Server.sendFlightPlanCycle recipient user)
      (Server.sendFlightPlanCycle recipient user) := by
  intro s t h
  cases ha : (s.heap user).asAircraft with
  | none =>
    have hcast (r : Server) (hr : (r.heap user).asAircraft = none) :
        (Server.sendFlightPlanCycle recipient user).run r = .error (.thrown .badCast) r := by
      simp [Server.sendFlightPlanCycle, getFlightPlan, getAircraft, hr]
    rw [hcast s ha, hcast t ((h.users user huser).asAircraft_none ha)]
    exact .error _ h
  | some a =>
    have hknown : PlanKnown c.known (fun _ => true) s user := fun _ _ => ⟨hcycle, fun _ => hrules⟩
    obtain ⟨b, hb, hplans⟩ := h.plans huser hknown ha
    rcases hplans with ⟨hnone, hnone'⟩ | ⟨plan, plan', hplan, hplan', -, hsame⟩
    · have hnull (r : Server) {a : Aircraft} (ha : (r.heap user).asAircraft = some a)
          (hnone : a.flightPlan = none) :
          (Server.sendFlightPlanCycle recipient user).run r = .error (.undefined .nullPlan) r := by
        simp [Server.sendFlightPlanCycle, getFlightPlan_run ha, hnone]
      rw [hnull s ha hnone, hnull t hb hnone']
      exact .error _ h
    · obtain rfl := hsame rfl
      rw [sendFlightPlanCycle_run ha hplan, sendFlightPlanCycle_run hb hplan']
      exact .ok () (h.push ((h.users user huser).flightPlanCycle user plan))

/-- The loop of `updateOnlyQueues` for a plan. -/
def tellControllers (user : Ptr) (cycle : ℤ) : ServerM Unit :=
  iterateLocalUsers env user fun other => do
    let o ← getUser other
    if o.getType = .controller ∧ cycle ≠ 0 then Server.sendFlightPlanCycle other user

theorem tellControllers_none {cycle : ℤ} (hnone : ¬ ∃ other ∈ (s.heap user).localUsers.keys,
    (s.heap other).getType = .controller) :
    (tellControllers env user cycle).run s = .ok () { s with ticks := s.ticks + 1 } := by
  rw [tellControllers, iterateLocalUsers, run_bind_of_ok (getUser_run s user),
    run_bind_of_ok (arranged_run s env _)]
  refine run_forM_idle fun other hmem => ?_
  rw [run_bind_of_ok (getUser_run _ other), if_neg fun h => hnone ⟨other, ?_, h.1⟩]
  · rfl
  · exact (env.arrange_perm _ _).mem_iff.mp hmem

/-- Who is told about a plan does not depend on memory, and when someone is, what is said does not
either. -/
theorem matched_tellControllers (h : Parallel c s t) (huser : user < c.next) {cycle cycle' : ℤ}
    (hknown : (∃ other ∈ (s.heap user).localUsers.keys, (s.heap other).getType = .controller) →
      cycle = cycle' ∧
        (cycle ≠ 0 → c.known user .cycle = true ∧ c.known user .flightRules = true)) :
    Matched (Parallel c) (Parallel c) ((tellControllers env user cycle).run s)
      ((tellControllers env user cycle').run t) := by
  by_cases hcontroller : ∃ other ∈ (s.heap user).localUsers.keys,
      (s.heap other).getType = .controller
  · obtain ⟨rfl, hsent⟩ := hknown hcontroller
    refine coupled_iterateLocalUsers env huser (fun other hother => ?_) s t h
    refine coupled_getUser_bind hother fun u v htwins _ => ?_
    rw [htwins.getType]
    split
    next hsends =>
      obtain ⟨hcycle, hrules⟩ := hsent hsends.2
      exact coupled_sendFlightPlanCycle other huser hcycle hrules
    next => exact .pure ()
  · have hcontroller' : ¬ ∃ other ∈ (t.heap user).localUsers.keys,
        (t.heap other).getType = .controller := by
      rintro ⟨other, hmem, htype⟩
      have hkeys : (s.heap user).localUsers.keys = (t.heap user).localUsers.keys :=
        (h.users user huser).congr (fun w => w.localUsers.keys) fun _ => rfl
      rw [← hkeys] at hmem
      have hother := h.localUsers user huser other (AList.mem_keys.mpr hmem)
      exact hcontroller ⟨other, hmem, (h.users other hother).getType.trans htype⟩
    rw [tellControllers_none env hcontroller, tellControllers_none env hcontroller', h.ticks]
    exact .ok () (h.setTicks _)

theorem matched_updateOnlyQueues (h : Parallel c s t) (huser : user < c.next)
    (hknown : QueueKnown c.known user s) :
    Matched (Parallel c) (Parallel c) ((updateOnlyQueues env user).run s)
      ((updateOnlyQueues env user).run t) := by
  have htwins := h.users user huser
  have hflag : (s.heap user).updateOnlyQueues = (t.heap user).updateOnlyQueues :=
    htwins.congr User.updateOnlyQueues fun _ => rfl
  rw [updateOnlyQueues, run_bind_of_ok (getUser_run s user), run_bind_of_ok (getUser_run t user),
    ← htwins.getType, ← hflag]
  split
  next hset =>
    obtain ⟨a, ha⟩ := Option.ne_none_iff_exists'.mp fun hnone => getType_of_none hnone hset.1
    obtain ⟨b, hb, hab⟩ := htwins.asAircraft_some ha
    rw [run_bind_of_ok (getFlightPlan_run ha), run_bind_of_ok (getFlightPlan_run hb)]
    cases hplan : a.flightPlan with
    | none =>
      rw [hab.flightPlan_none hplan]
      exact .error _ h
    | some plan =>
      obtain ⟨plan', hplan', -, hcycle, -⟩ := hab.flightPlan_some hplan
      rw [hplan']
      refine (matched_tellControllers env h huser fun hcontroller => ?_).bind fun _ s' t' _ h' => ?_
      · obtain ⟨hk, hrules⟩ := hknown hset.1 hset.2 hcontroller plan
          (planOf_eq_some.mpr ⟨a, ha, hplan⟩)
        exact ⟨hcycle hk, fun hne => ⟨hk, hrules (decide_eq_true hne)⟩⟩
      · exact coupled_updateUser (f := fun u => { u with
          updateOnlyQueues := Function.update u.updateOnlyQueues 0 false })
          (fun _ => rfl) (fun _ => rfl) (fun _ => rfl) s' t' h'
  next => exact .ok () h

theorem matched_globalUpdate (h : Parallel c s t) (hknown : PassKnown env c.known s) :
    Matched (Parallel c) (Parallel c) ((globalUpdate env).run s) ((globalUpdate env).run t) := by
  obtain ⟨hlooks, hafter⟩ := hknown
  refine (matched_iterateUsers env h (fun user huser s t h hlook => matched_look env h huser hlook)
    hlooks).bind fun _ s₁ t₁ hrun₁ h₁ => ?_
  obtain ⟨hturns, hafter⟩ := hafter.of_ok hrun₁
  refine (matched_iterateUsers env h₁ (fun user huser s t h hturn =>
    matched_update env h huser hturn) hturns).bind fun _ s₂ t₂ hrun₂ h₂ => ?_
  refine (matched_iterateUsers env h₂ (fun user huser s t h hqueue =>
    matched_updateOnlyQueues env h huser hqueue) (hafter.of_ok hrun₂)).bind fun _ s₃ t₃ _ h₃ => ?_
  refine coupled_iterateUsers env (fun user _ s t h => ?_) s₃ t₃ h₃
  rw [resetRequired_run, resetRequired_run]
  exact .ok () h

end Pass

end Win64Server.Unwritten
