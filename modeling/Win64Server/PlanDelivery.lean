import Win64Server.FlightPlanVersions
import Win64Server.ServerEffects
import Win64Server.Library.Interleaving
import Mathlib.Data.Fintype.Basic

/-!
Whether every flight plan that is stored also goes out. A handler stores the fields and then sets
the pilot's flag; a pass tests the flag, sends the plan to each controller among the pilot's local
users, and clears the flag. Handlers and passes run on several threads, so an update can land in
the middle of the sends. It is delivered as long as it does not land behind a controller that the
call has already passed.
-/
namespace Win64Server.PlanDelivery

open Outcome Library Server FlightPlanUpdate FlightPlanVersions

deriving instance DecidableEq for Fields

/-- What a thread does next: a handler begins with `apply`, a pass with `test`. -/
inductive Action
  | apply (f : Fields)
  | setFlag
  | test
  | visit
  | send (other : Ptr)
  | clear
deriving DecidableEq

/-- Where a handler or a pass begins. -/
def opens : Action → Bool
  | .apply _ | .test => true
  | _ => false

/-- The server, the local users of the pilot that have stayed since a plan was last stored, and how
many messages had been sent by then. -/
structure Board where
  server : Server
  stayed : List Ptr
  sentBefore : ℕ

abbrev BoardM := EStateM Fault Board

def onBoard {α : Type} (op : ServerM α) : BoardM α := fun b =>
  match op.run b.server with
  | .ok a server => .ok a { b with server := server }
  | .error e server => .error e { b with server := server }

def noteStored (user : Ptr) : BoardM Unit :=
  modify fun b => { b with
    stayed := (b.server.heap user).localUsers.keys
    sentBefore := b.server.sent.length }

/-- The part of the handler that stores the fields; it says whether there was a pilot to store
them for. -/
def storeFields (user : Ptr) (f : Fields) : ServerM Bool := do
  let r ← getUser user
  if r.getType = .pilot then
    match ← getFlightPlan user with
    | none => throw (.undefined .nullPlan)
    | some plan =>
      storePlan user (f.store plan)
      return true
  else return false

/-- The condition of `updateOnlyQueues`, with the reference to the plan it takes. -/
def testFlag (user : Ptr) : ServerM Bool := do
  let u ← getUser user
  if u.getType = .pilot ∧ u.updateOnlyQueues 0 then
    match ← getFlightPlan user with
    | none => throw (.undefined .nullPlan)
    | some _ => return true
  else return false

/-- The body of the loop. The plan is read through the reference, so it is the one stored now. -/
def sendPlan (user other : Ptr) : ServerM Unit := do
  let o ← getUser other
  match ← getFlightPlan user with
  | none => throw (.undefined .nullPlan)
  | some fp =>
    if o.getType = .controller ∧ fp.cycle ≠ 0 then Server.sendFlightPlanCycle other user

def clearFlag (user : Ptr) : ServerM Unit :=
  updateUser user fun u =>
    { u with updateOnlyQueues := Function.update u.updateOnlyQueues 0 false }

def localUsersOf (env : Environment) (user : Ptr) : ServerM (List Ptr) := do
  let u ← getUser user
  arranged env u.localUsers.keys

/-- One atomic action for this pilot, and what it puts in front of the rest. -/
def perform (env : Environment) (user : Ptr) : Action → BoardM (List Action)
  | .apply f => do
    let stored ← onBoard (storeFields user f)
    noteStored user
    return if stored then [.setFlag] else []
  | .setFlag => (fun _ => []) <$> onBoard (setFlag user)
  | .test => (fun found => if found then [.visit] else []) <$> onBoard (testFlag user)
  | .visit => (fun order => order.map .send ++ [.clear]) <$> onBoard (localUsersOf env user)
  | .send other => (fun _ => []) <$> onBoard (sendPlan user other)
  | .clear => (fun _ => []) <$> onBoard (clearFlag user)

section Lifting

variable {α β : Type} {b b' : Board} {a : α}

theorem run_onBoard (op : ServerM α) (b : Board) :
    (onBoard op).run b = match op.run b.server with
      | .ok a server => .ok a { b with server := server }
      | .error e server => .error e { b with server := server } := rfl

theorem onBoard_ok {op : ServerM α} :
    (onBoard op).run b = .ok a b' ↔
      ∃ server, op.run b.server = .ok a server ∧ b' = { b with server := server } := by
  rw [run_onBoard]
  cases op.run b.server with
  | ok c server =>
    constructor
    · intro h
      cases h
      exact ⟨server, rfl, rfl⟩
    · rintro ⟨_, h, rfl⟩
      cases h
      rfl
  | error e server => simp

theorem onBoard_bind (op : ServerM α) (f : α → ServerM β) :
    onBoard (op >>= f) = onBoard op >>= fun a => onBoard (f a) := by
  funext b
  change (onBoard (op >>= f)).run b = (onBoard op >>= fun a => onBoard (f a)).run b
  rw [run_onBoard, EStateM.run_bind, EStateM.run_bind, run_onBoard]
  cases op.run b.server <;> rfl

theorem onBoard_forM (f : Ptr → ServerM Unit) (order : List Ptr) :
    onBoard (order.forM f) = order.forM fun other => onBoard (f other) := by
  induction order with
  | nil => rfl
  | cons other order ih =>
    rw [List.forM_eq_forM, List.forM_eq_forM] at ih ⊢
    rw [List.forM_cons, List.forM_cons, onBoard_bind, ih]

end Lifting

section Runs

variable {s : Server} {user other : Ptr} {f : Fields} {a : Aircraft} {plan : FlightPlan}

theorem storeFields_controller (h : (s.heap user).asAircraft = none) :
    (storeFields user f).run s = .ok false s := by
  simp [storeFields, getType_of_none h]

theorem storeFields_noPlan (h : (s.heap user).asAircraft = some a) (hplan : a.flightPlan = none) :
    (storeFields user f).run s = .error (.undefined .nullPlan) s := by
  simp [storeFields, getType_of_asAircraft h, getFlightPlan_run h, hplan]

theorem storeFields_plan (h : (s.heap user).asAircraft = some a)
    (hplan : a.flightPlan = some plan) :
    (storeFields user f).run s = .ok true (s.modifyUser user fun r =>
      r.modifyAircraft fun a => { a with flightPlan := some (f.store plan) }) := by
  simp [storeFields, storePlan, getType_of_asAircraft h, getFlightPlan_run h, hplan]

theorem testFlag_off (h : ¬ ((s.heap user).getType = .pilot ∧
    (s.heap user).updateOnlyQueues 0 = true)) : (testFlag user).run s = .ok false s := by
  simp only [testFlag, EStateM.run_bind, getUser_run, if_neg h, EStateM.run_pure]

theorem testFlag_noPlan (hflag : (s.heap user).updateOnlyQueues 0 = true)
    (h : (s.heap user).asAircraft = some a) (hplan : a.flightPlan = none) :
    (testFlag user).run s = .error (.undefined .nullPlan) s := by
  simp [testFlag, getType_of_asAircraft h, hflag, getFlightPlan_run h, hplan]

theorem testFlag_plan (hflag : (s.heap user).updateOnlyQueues 0 = true)
    (h : (s.heap user).asAircraft = some a) (hplan : a.flightPlan = some plan) :
    (testFlag user).run s = .ok true s := by
  simp [testFlag, getType_of_asAircraft h, hflag, getFlightPlan_run h, hplan]

theorem sendPlan_run (h : (s.heap user).asAircraft = some a) (hplan : a.flightPlan = some plan)
    (other : Ptr) : (sendPlan user other).run s =
      .ok () (if (s.heap other).getType = .controller ∧ plan.cycle ≠ 0 then
        s.push other (.flightPlanCycle user (s.heap user) plan) else s) := by
  rw [sendPlan, run_bind_of_ok (getUser_run s other), run_bind_of_ok (getFlightPlan_run h), hplan]
  dsimp only
  split
  · exact sendFlightPlanCycle_run h hplan other
  · rfl

/-- The body of the loop as `updateOnlyQueues` has it, with the plan it read before the loop. -/
def sendRead (user : Ptr) (fp : FlightPlan) (other : Ptr) : ServerM Unit := do
  let o ← getUser other
  if o.getType = .controller ∧ fp.cycle ≠ 0 then Server.sendFlightPlanCycle other user

theorem sendRead_run (h : (s.heap user).asAircraft = some a) (hplan : a.flightPlan = some plan)
    (other : Ptr) : (sendRead user plan other).run s = (sendPlan user other).run s := by
  rw [sendPlan_run h hplan, sendRead, run_bind_of_ok (getUser_run s other)]
  split
  · exact sendFlightPlanCycle_run h hplan other
  · rfl

/-- While nothing but messages changes, reading the plan anew is reading it once. -/
theorem forM_sendPlan_run (h : (s.heap user).asAircraft = some a)
    (hplan : a.flightPlan = some plan) (order : List Ptr) :
    (order.forM (sendPlan user)).run s = (order.forM (sendRead user plan)).run s := by
  induction order generalizing s with
  | nil => rfl
  | cons other order ih =>
    rw [List.forM_eq_forM] at ih ⊢
    have hsend := sendPlan_run h hplan other
    rw [List.forM_cons, List.forM_cons, run_bind_of_ok hsend,
      run_bind_of_ok ((sendRead_run h hplan other).trans hsend)]
    apply ih
    split
    · rw [push_heap]
      exact h
    · exact h

theorem updateOnlyQueues_run (env : Environment) (hflag : (s.heap user).updateOnlyQueues 0 = true)
    (h : (s.heap user).asAircraft = some a) (hplan : a.flightPlan = some plan) :
    (updateOnlyQueues env user).run s = (do
      let order ← localUsersOf env user
      order.forM (sendPlan user)
      clearFlag user : ServerM Unit).run s := by
  let order := env.arrange s.ticks (s.heap user).localUsers.keys
  have hloop := forM_sendPlan_run (s := { s with ticks := s.ticks + 1 }) h hplan order
  have hread : (updateOnlyQueues env user).run s = (do
      order.forM (sendRead user plan)
      clearFlag user : ServerM Unit).run { s with ticks := s.ticks + 1 } := by
    rw [updateOnlyQueues, run_bind_of_ok (getUser_run s user),
      if_pos ⟨getType_of_asAircraft h, hflag⟩, run_bind_of_ok (getFlightPlan_run h), hplan]
    rfl
  have hsend : (do
      let order ← localUsersOf env user
      order.forM (sendPlan user)
      clearFlag user : ServerM Unit).run s = (do
      order.forM (sendPlan user)
      clearFlag user : ServerM Unit).run { s with ticks := s.ticks + 1 } := rfl
  rw [hread, hsend, EStateM.run_bind, EStateM.run_bind, hloop]

end Runs

section Alone

variable (env : Environment) (user : Ptr)

/-- A handler that runs alone does what `FlightPlanUpdate::handle` does with the fields. -/
theorem implements_apply (f : Fields) :
    Implements (perform env user) [.apply f] (do
      onBoard (FlightPlanUpdate.apply user f)
      noteStored user) := by
  let op : BoardM Bool := do
    let stored ← onBoard (storeFields user f)
    noteStored user
    return stored
  have hperform : perform env user (.apply f) =
      (fun stored => if stored then [.setFlag] else []) <$> op := by
    simp only [perform, op, map_bind, map_pure]
  have hnext (stored : Bool) : Implements (perform env user) (if stored then [.setFlag] else [])
      (if stored then onBoard (setFlag user) else pure ()) := by
    cases stored with
    | true => exact .last rfl
    | false => exact .nil
  refine Implements.congr (.act hperform hnext) fun b => ?_
  cases h : (b.server.heap user).asAircraft with
  | none =>
    have hstore : (onBoard (storeFields user f)).run b = .ok false b := by
      rw [run_onBoard, storeFields_controller h]
    have happly : (onBoard (FlightPlanUpdate.apply user f)).run b = .ok () b := by
      rw [run_onBoard, apply_controller h]
    have hop : op.run b = (do
        noteStored user
        return false : BoardM Bool).run b := run_bind_of_ok hstore
    rw [run_bind_of_ok happly, EStateM.run_bind, hop]
    rfl
  | some a =>
    cases hplan : a.flightPlan with
    | none =>
      have hstore : (onBoard (storeFields user f)).run b = .error (.undefined .nullPlan) b := by
        rw [run_onBoard, storeFields_noPlan h hplan]
      have happly : (onBoard (FlightPlanUpdate.apply user f)).run b =
          .error (.undefined .nullPlan) b := by
        rw [run_onBoard, apply_noPlan h hplan]
      have hop : op.run b = .error (.undefined .nullPlan) b := run_bind_of_error hstore
      rw [run_bind_of_error happly, run_bind_of_error hop]
    | some plan =>
      let t : Server := b.server.modifyUser user fun r =>
        r.modifyAircraft fun a => { a with flightPlan := some (f.store plan) }
      let m : Board := { b with server := t }
      have hstore : (onBoard (storeFields user f)).run b = .ok true m := by
        rw [run_onBoard, storeFields_plan h hplan]
      have hop : op.run b = (do
          noteStored user
          return true : BoardM Bool).run m := run_bind_of_ok hstore
      have happly : (onBoard (FlightPlanUpdate.apply user f)).run b =
          (onBoard (setFlag user)).run m := by
        rw [run_onBoard, run_onBoard, FlightPlanUpdate.apply, run_bind_of_ok (getUser_run ..),
          if_pos (getType_of_asAircraft h), run_bind_of_ok (getFlightPlan_run h), hplan]
        rfl
      rw [EStateM.run_bind, happly, EStateM.run_bind, hop]
      -- Setting the flag keeps the local users and sends nothing, so they can be noted before it
      -- or after it.
      have hkeys : ((t.modifyUser user fun r =>
          { r with updateOnlyQueues := Function.update r.updateOnlyQueues 0 true }).heap
            user).localUsers.keys = (t.heap user).localUsers.keys := by
        rw [modifyUser_heap_self]
      exact congrArg (fun keys => EStateM.Result.ok () (⟨_, keys, _⟩ : Board)) hkeys

/-- And a call of `updateOnlyQueues` what the sequential program does. -/
theorem implements_test :
    Implements (perform env user) [.test] (onBoard (updateOnlyQueues env user)) := by
  have hsend (order : List Ptr) : Implements (perform env user) (order.map .send)
      (order.forM fun other => onBoard (sendPlan user other)) :=
    Implements.forM (f := Action.send) (g := fun other => onBoard (sendPlan user other))
      (fun other => .last rfl) order
  have hvisit : Implements (perform env user) [.visit] (do
      let order ← onBoard (localUsersOf env user)
      order.forM fun other => onBoard (sendPlan user other)
      onBoard (clearFlag user)) :=
    .act rfl fun order => .append (hsend order) (.last rfl)
  have hnext (found : Bool) : Implements (perform env user) (if found then [.visit] else [])
      (if found then (do
        let order ← onBoard (localUsersOf env user)
        order.forM fun other => onBoard (sendPlan user other)
        onBoard (clearFlag user)) else pure ()) := by
    cases found with
    | true => exact hvisit
    | false => exact .nil
  refine Implements.congr (.act rfl hnext) fun b => ?_
  by_cases hflag : (b.server.heap user).getType = .pilot ∧
      (b.server.heap user).updateOnlyQueues 0 = true
  · obtain ⟨a, h⟩ := Option.ne_none_iff_exists'.mp fun hnone => getType_of_none hnone hflag.1
    cases hplan : a.flightPlan with
    | none =>
      have htest : (onBoard (testFlag user)).run b = .error (.undefined .nullPlan) b := by
        rw [run_onBoard, testFlag_noPlan hflag.2 h hplan]
      rw [run_bind_of_error htest, run_onBoard, updateOnlyQueues,
        run_bind_of_ok (getUser_run b.server user), if_pos hflag,
        run_bind_of_ok (getFlightPlan_run h), hplan]
      rfl
    | some plan =>
      have htest : (onBoard (testFlag user)).run b = .ok true b := by
        rw [run_onBoard, testFlag_plan hflag.2 h hplan]
      rw [run_bind_of_ok htest, if_pos rfl]
      simp only [← onBoard_forM, ← onBoard_bind]
      rw [run_onBoard, run_onBoard, updateOnlyQueues_run env hflag.2 h hplan]
  · have htest : (onBoard (testFlag user)).run b = .ok false b := by
      rw [run_onBoard, testFlag_off hflag]
    rw [run_bind_of_ok htest, run_onBoard, updateOnlyQueues,
      run_bind_of_ok (getUser_run b.server user), if_neg hflag]
    rfl

end Alone

/-- A message that carries this plan of the user. -/
def carries (user : Ptr) (plan : FlightPlan) : Outgoing → Bool
  | .flightPlanCycle about _ p => decide (about = user ∧ p = plan)
  | _ => false

/-- A user has been sent the plan that is stored, after it was stored. -/
def Delivered (user : Ptr) (b : Board) (v : Ptr) : Prop :=
  ∃ plan, planOf b.server user = some plan ∧
    ∃ e ∈ b.server.sent.drop b.sentBefore, e.recipient = v ∧ carries user plan e.message = true

/-- The stored plan is one that is sent out at all. -/
def Cycled (user : Ptr) (s : Server) : Prop :=
  ∃ plan, planOf s user = some plan ∧ plan.cycle ≠ 0

/-- The plan of the user and the client types are the same, and messages may be new. -/
structure SamePlans (user : Ptr) (s t : Server) : Prop where
  plan : planOf t user = planOf s user
  type : ∀ v, (t.heap v).getType = (s.heap v).getType
  sent : s.sent <+: t.sent

/-- And so are the flag and the local users. -/
structure Rests (user : Ptr) (s t : Server) : Prop extends SamePlans user s t where
  flag : (t.heap user).updateOnlyQueues 0 = (s.heap user).updateOnlyQueues 0
  localUsers : (t.heap user).localUsers = (s.heap user).localUsers

/-- What an action may do, and what it puts in front of the rest. -/
inductive Does (user : Ptr) (b : Board) : Action → List Action → Board → Prop
  | skip (f : Fields) (hnone : planOf b.server user = none) :
      Does user b (.apply f) []
        ⟨b.server, (b.server.heap user).localUsers.keys, b.server.sent.length⟩
  | store (f : Fields) (t : Server)
      (hlocals : (t.heap user).localUsers = (b.server.heap user).localUsers) :
      Does user b (.apply f) [.setFlag] ⟨t, (t.heap user).localUsers.keys, t.sent.length⟩
  | setFlag (t : Server) (hsame : SamePlans user b.server t)
      (hlocals : (t.heap user).localUsers = (b.server.heap user).localUsers)
      (hflag : (t.heap user).updateOnlyQueues 0 = true) :
      Does user b .setFlag [] { b with server := t }
  | pass (hflag : (b.server.heap user).updateOnlyQueues 0 = true →
      planOf b.server user = none) : Does user b .test [] b
  | found : Does user b .test [.visit] b
  | visit (order : List Ptr) (horder : ∀ v ∈ (b.server.heap user).localUsers, v ∈ order)
      (t : Server) (hrests : Rests user b.server t) :
      Does user b .visit (order.map .send ++ [.clear]) { b with server := t }
  | send (other : Ptr) (t : Server) (hrests : Rests user b.server t)
      (hsent : b.sentBefore ≤ b.server.sent.length →
        (b.server.heap other).getType = .controller → Cycled user b.server →
          Delivered user { b with server := t } other) :
      Does user b (.send other) [] { b with server := t }
  | clear (t : Server) (hsame : SamePlans user b.server t)
      (hlocals : (t.heap user).localUsers = (b.server.heap user).localUsers) :
      Does user b .clear [] { b with server := t }

section Actions

variable {env : Environment} {user : Ptr} {s t : Server} {b b' : Board} {a : Action}
  {new : List Action}

theorem planOf_eq_none (h : (s.heap user).asAircraft = none) : planOf s user = none := by
  rw [planOf, h]
  rfl

theorem Rests.refl (user : Ptr) (s : Server) : Rests user s s :=
  ⟨⟨rfl, fun _ => rfl, List.prefix_rfl⟩, rfl, rfl⟩

/-- A change of the flags. -/
theorem samePlans_setQueues (user : Ptr) (s : Server) (flag : Bool) :
    SamePlans user s (s.modifyUser user fun u =>
      { u with updateOnlyQueues := Function.update u.updateOnlyQueues 0 flag }) where
  plan := by
    rw [planOf, planOf, modifyUser_heap_self]
    rfl
  type := modifyUser_frame (g := User.getType) rfl
  sent := List.prefix_rfl

theorem does_apply {f : Fields} (h : (perform env user (.apply f)).run b = .ok new b') :
    Does user b (.apply f) new b' := by
  obtain ⟨stored, m, hstore, hrest⟩ := run_bind_ok.mp h
  obtain ⟨server, hrun, rfl⟩ := onBoard_ok.mp hstore
  cases hrest
  cases hplane : (b.server.heap user).asAircraft with
  | none =>
    rw [storeFields_controller hplane] at hrun
    cases hrun
    exact .skip f (planOf_eq_none hplane)
  | some plane =>
    cases hplan : plane.flightPlan with
    | none =>
      rw [storeFields_noPlan hplane hplan] at hrun
      cases hrun
    | some plan =>
      rw [storeFields_plan hplane hplan] at hrun
      cases hrun
      refine .store f _ ?_
      rw [modifyUser_heap_self, User.modifyAircraft]
      split <;> rfl

theorem does_test (h : (perform env user .test).run b = .ok new b') :
    Does user b .test new b' := by
  obtain ⟨found, hfound, rfl⟩ := run_map_ok.mp h
  obtain ⟨server, hrun, rfl⟩ := onBoard_ok.mp hfound
  by_cases hflag : (b.server.heap user).getType = .pilot ∧
      (b.server.heap user).updateOnlyQueues 0 = true
  · obtain ⟨plane, hplane⟩ := Option.ne_none_iff_exists'.mp fun hnone =>
      getType_of_none hnone hflag.1
    cases hplan : plane.flightPlan with
    | none =>
      rw [testFlag_noPlan hflag.2 hplane hplan] at hrun
      cases hrun
    | some plan =>
      rw [testFlag_plan hflag.2 hplane hplan] at hrun
      cases hrun
      exact .found
  · rw [testFlag_off hflag] at hrun
    cases hrun
    refine .pass fun hset => planOf_eq_none ?_
    by_contra hsome
    obtain ⟨plane, hplane⟩ := Option.ne_none_iff_exists'.mp hsome
    exact hflag ⟨getType_of_asAircraft hplane, hset⟩

theorem does_send {other : Ptr} (h : (perform env user (.send other)).run b = .ok new b') :
    Does user b (.send other) new b' := by
  obtain ⟨u, hsend, rfl⟩ := run_map_ok.mp h
  obtain ⟨server, hrun, rfl⟩ := onBoard_ok.mp hsend
  cases hplane : (b.server.heap user).asAircraft with
  | none =>
    have hcast : (sendPlan user other).run b.server = .error (.thrown .badCast) b.server := by
      simp [sendPlan, getFlightPlan, getAircraft, hplane]
    rw [hcast] at hrun
    cases hrun
  | some plane =>
    cases hplan : plane.flightPlan with
    | none =>
      have hnull : (sendPlan user other).run b.server = .error (.undefined .nullPlan) b.server := by
        simp [sendPlan, getFlightPlan_run hplane, hplan]
      rw [hnull] at hrun
      cases hrun
    | some plan =>
      have hstored : planOf b.server user = some plan := planOf_eq_some.mpr ⟨plane, hplane, hplan⟩
      rw [sendPlan_run hplane hplan] at hrun
      cases hrun
      by_cases hgoes : (b.server.heap other).getType = .controller ∧ plan.cycle ≠ 0
      · rw [if_pos hgoes]
        refine .send other _ ⟨⟨rfl, fun _ => rfl, List.prefix_append _ _⟩, rfl, rfl⟩
          fun hbefore _ _ =>
            ⟨plan, hstored, ⟨other, .flightPlanCycle user (b.server.heap user) plan⟩, ?_, rfl,
              by simp [carries]⟩
        rw [push_sent, List.drop_append_of_le_length hbefore]
        exact List.mem_append_right _ (List.mem_singleton.mpr rfl)
      · rw [if_neg hgoes]
        refine .send other _ (.refl user b.server) fun _ htype hcycled => absurd ⟨htype, ?_⟩ hgoes
        obtain ⟨plan', hplan', hcycle⟩ := hcycled
        rw [hstored] at hplan'
        cases hplan'
        exact hcycle

theorem does_perform (h : (perform env user a).run b = .ok new b') : Does user b a new b' := by
  cases a with
  | apply f => exact does_apply h
  | setFlag =>
    cases h
    refine .setFlag _ (samePlans_setQueues user b.server true) ?_ ?_
    · rw [modifyUser_heap_self]
    · rw [modifyUser_heap_self]
      simp
  | test => exact does_test h
  | visit =>
    obtain ⟨order, hvisit, rfl⟩ := run_map_ok.mp h
    obtain ⟨server, hrun, rfl⟩ := onBoard_ok.mp hvisit
    cases hrun
    refine .visit _ (fun v hv => ?_) _ ⟨⟨rfl, fun _ => rfl, List.prefix_rfl⟩, rfl, rfl⟩
    exact (env.arrange_perm _ _).mem_iff.mpr (AList.mem_keys.mp hv)
  | send other => exact does_send h
  | clear =>
    cases h
    refine .clear _ (samePlans_setQueues user b.server false) ?_
    rw [modifyUser_heap_self]

end Actions

section Runs

variable {ι : Type} {user : Ptr} {c : Config ι Action Board}

/-- A handler has stored its fields and is still to set the flag. -/
def Pending (c : Config ι Action Board) : Prop := ∃ i, Action.setFlag ∈ c.threads i

/-- A call of `updateOnlyQueues` has found the flag set and not yet cleared it. -/
def InProgress (c : Config ι Action Board) : Prop :=
  ∃ i, Action.visit ∈ c.threads i ∨ Action.clear ∈ c.threads i

/-- Some call is still to come to this local user. -/
def ToVisit (c : Config ι Action Board) (v : Ptr) : Prop :=
  ∃ i, Action.visit ∈ c.threads i ∨ Action.send v ∈ c.threads i

/-- Every controller that has stayed has been sent the stored plan since it was stored, or some
call is still to come to it. -/
def Covered (user : Ptr) (c : Config ι Action Board) : Prop :=
  ∀ v ∈ c.shared.stayed, (c.shared.server.heap v).getType = .controller →
    Delivered user c.shared v ∨ ToVisit c v

/-- A handler that sets the flag, when it is the only one about to, does not do so behind a call
in progress: there is none, or none has passed a controller without the plan. -/
def Timely (user : Ptr) (c : Config ι Action Board) (i : ι) (a : Action) : Prop :=
  a = .setFlag → (∃ j, j ≠ i ∧ Action.setFlag ∈ c.threads j) ∨ ¬ InProgress c ∨
    ¬ Cycled user c.shared.server ∨ Covered user c

/-- What else may happen to the server: local users come and go, and nothing else touches the
flag, the plan or the client types. -/
structure Elsewhere (user : Ptr) (b b' : Board) : Prop where
  same : SamePlans user b.server b'.server
  flag : (b'.server.heap user).updateOnlyQueues 0 = (b.server.heap user).updateOnlyQueues 0
  stayed : ∀ v, v ∈ b'.stayed ↔ v ∈ b.stayed ∧ v ∈ (b'.server.heap user).localUsers
  sentBefore : b'.sentBefore = b.sentBefore

/-- As long as no handler is about to set the flag, the controllers are covered while a call is in
progress or the flag is down. -/
structure Delivers (user : Ptr) (c : Config ι Action Board) : Prop where
  marked : c.shared.sentBefore ≤ c.shared.server.sent.length
  members : ∀ v ∈ c.shared.stayed, v ∈ (c.shared.server.heap user).localUsers
  covered : Cycled user c.shared.server → ¬ Pending c →
    (c.shared.server.heap user).updateOnlyQueues 0 = false ∨ InProgress c → Covered user c

theorem Delivered.mono {b b' : Board} {v : Ptr} (h : Delivered user b v)
    (hsame : SamePlans user b.server b'.server) (hbefore : b'.sentBefore = b.sentBefore) :
    Delivered user b' v := by
  obtain ⟨plan, hplan, e, he, hcarries⟩ := h
  obtain ⟨more, hmore⟩ := hsame.sent
  refine ⟨plan, hsame.plan.trans hplan, e, ?_, hcarries⟩
  rw [hbefore, ← hmore, List.drop_append]
  exact List.mem_append_left _ he

theorem Covered.mono {c' : Config ι Action Board} (h : Covered user c)
    (hsame : SamePlans user c.shared.server c'.shared.server)
    (hbefore : c'.shared.sentBefore = c.shared.sentBefore)
    (hstayed : ∀ v ∈ c'.shared.stayed, v ∈ c.shared.stayed)
    (hvisits : ∀ v, ToVisit c v → ToVisit c' v ∨
      ((c.shared.server.heap v).getType = .controller → Delivered user c'.shared v)) :
    Covered user c' := by
  intro v hv htype
  rw [hsame.type] at htype
  rcases h v (hstayed v hv) htype with hsent | hvisit
  · exact Or.inl (hsent.mono hsame hbefore)
  · rcases hvisits v hvisit with hvisit | hsent
    · exact Or.inr hvisit
    · exact Or.inl (hsent htype)

theorem SamePlans.cycled {s t : Server} (h : SamePlans user s t) (hc : Cycled user t) :
    Cycled user s := by
  obtain ⟨plan, hplan, hcycle⟩ := hc
  exact ⟨plan, h.plan.symm.trans hplan, hcycle⟩

theorem Delivers.elsewhere (h : Delivers user c) {b : Board}
    (hother : Elsewhere user c.shared b) : Delivers user ⟨c.threads, b⟩ where
  marked := by
    rw [hother.sentBefore]
    exact h.marked.trans hother.same.sent.length_le
  members v hv := ((hother.stayed v).mp hv).2
  covered hcycled hpending hflag := by
    have hbefore : Covered user c := by
      apply h.covered (hother.same.cycled hcycled) hpending
      rw [← hother.flag]
      exact hflag
    exact hbefore.mono hother.same hother.sentBefore
      (fun v hv => ((hother.stayed v).mp hv).1) fun v hv => Or.inl hv

variable [DecidableEq ι] {i : ι} {a a' : Action} {rest new : List Action}

/-- What a thread had before it took its first action, it still has, but for that action. -/
theorem mem_of_mem_threads (hthread : c.threads i = a :: rest) {j : ι} (h : a' ∈ c.threads j)
    (hne : a' ≠ a) : a' ∈ Function.update c.threads i (new ++ rest) j := by
  by_cases hj : j = i
  · subst hj
    rw [Function.update_self]
    rw [hthread] at h
    exact List.mem_append_right _ ((List.mem_cons.mp h).resolve_left hne)
  · rwa [Function.update_of_ne hj]

theorem mem_threads_of_mem (hthread : c.threads i = a :: rest) {j : ι}
    (h : a' ∈ Function.update c.threads i (new ++ rest) j) : a' ∈ c.threads j ∨ a' ∈ new := by
  by_cases hj : j = i
  · subst hj
    rw [Function.update_self] at h
    rcases List.mem_append.mp h with h | h
    · exact Or.inr h
    · rw [hthread]
      exact Or.inl (List.mem_cons_of_mem _ h)
  · rw [Function.update_of_ne hj] at h
    exact Or.inl h

section Step

variable {b' : Board}

theorem pending_of_pending (hthread : c.threads i = a :: rest) (hne : Action.setFlag ≠ a)
    (h : Pending c) : Pending ⟨Function.update c.threads i (new ++ rest), b'⟩ := by
  obtain ⟨j, hj⟩ := h
  exact ⟨j, mem_of_mem_threads hthread hj hne⟩

theorem inProgress_of_inProgress (hthread : c.threads i = a :: rest)
    (hvisit : Action.visit ∉ new) (hclear : Action.clear ∉ new)
    (h : InProgress ⟨Function.update c.threads i (new ++ rest), b'⟩) : InProgress c := by
  obtain ⟨j, hj | hj⟩ := h
  · exact ⟨j, Or.inl ((mem_threads_of_mem hthread hj).resolve_right hvisit)⟩
  · exact ⟨j, Or.inr ((mem_threads_of_mem hthread hj).resolve_right hclear)⟩

theorem toVisit_of_toVisit (hthread : c.threads i = a :: rest) {v : Ptr}
    (hvisit : Action.visit ≠ a) (hsend : Action.send v ≠ a) (h : ToVisit c v) :
    ToVisit ⟨Function.update c.threads i (new ++ rest), b'⟩ v := by
  obtain ⟨j, hj | hj⟩ := h
  · exact ⟨j, Or.inl (mem_of_mem_threads hthread hj hvisit)⟩
  · exact ⟨j, Or.inr (mem_of_mem_threads hthread hj hsend)⟩

theorem mem_threads_new {x : Action} (hx : x ∈ new) :
    x ∈ (⟨Function.update c.threads i (new ++ rest), b'⟩ : Config ι Action Board).threads i := by
  change x ∈ Function.update c.threads i (new ++ rest) i
  rw [Function.update_self]
  exact List.mem_append_left _ hx

/-- A timely action of a thread. -/
theorem Delivers.act (h : Delivers user c) (hthread : c.threads i = a :: rest)
    (htimely : Timely user c i a) (hdoes : Does user c.shared a new b') :
    Delivers user ⟨Function.update c.threads i (new ++ rest), b'⟩ := by
  cases hdoes with
  | skip f hnone =>
    refine ⟨le_refl _, fun v hv => AList.mem_keys.mp hv, fun hcycled => ?_⟩
    obtain ⟨plan, hplan, -⟩ := hcycled
    rw [hnone] at hplan
    cases hplan
  | store f t hlocals =>
    exact ⟨le_refl _, fun v hv => AList.mem_keys.mp hv, fun _ hpending =>
      absurd ⟨i, mem_threads_new List.mem_cons_self⟩ hpending⟩
  | setFlag t hsame hlocals hflag =>
    refine ⟨h.marked.trans hsame.sent.length_le, fun v hv => by rw [hlocals]; exact h.members v hv,
      fun hcycled hpending hopen => ?_⟩
    have hprogress : InProgress c := by
      rcases hopen with hdown | hopen
      · rw [hflag] at hdown
        cases hdown
      · exact inProgress_of_inProgress hthread List.not_mem_nil List.not_mem_nil hopen
    rcases htimely rfl with ⟨j, hj, hother⟩ | hidle | hzero | hcovered
    · have hstill : Action.setFlag ∈ Function.update c.threads i ([] ++ rest) j := by
        rw [Function.update_of_ne hj]
        exact hother
      exact absurd ⟨j, hstill⟩ hpending
    · exact absurd hprogress hidle
    · exact absurd (hsame.cycled hcycled) hzero
    · exact hcovered.mono hsame rfl (fun v hv => hv) fun v hv =>
        Or.inl (toVisit_of_toVisit hthread (by simp) (by simp) hv)
  | pass hflag =>
    refine ⟨h.marked, h.members, fun hcycled hpending hopen => ?_⟩
    have hquiet : ¬ Pending c := mt (pending_of_pending hthread (by simp)) hpending
    have hcovered : Covered user c := h.covered hcycled hquiet
      (hopen.imp id (inProgress_of_inProgress hthread List.not_mem_nil List.not_mem_nil))
    exact hcovered.mono ⟨rfl, fun _ => rfl, List.prefix_rfl⟩ rfl (fun v hv => hv) fun v hv =>
      Or.inl (toVisit_of_toVisit hthread (by simp) (by simp) hv)
  | found =>
    exact ⟨h.marked, h.members, fun _ _ _ v _ _ =>
      Or.inr ⟨i, Or.inl (mem_threads_new List.mem_cons_self)⟩⟩
  | visit order horder t hrests =>
    refine ⟨h.marked.trans hrests.sent.length_le,
      fun v hv => by rw [hrests.localUsers]; exact h.members v hv,
      fun _ _ _ v hv _ => Or.inr ⟨i, Or.inr ?_⟩⟩
    have hsend : Action.send v ∈ order.map Action.send :=
      List.mem_map_of_mem (horder v (h.members v hv))
    exact mem_threads_new (List.mem_append_left _ hsend)
  | send other t hrests hsent =>
    refine ⟨h.marked.trans hrests.sent.length_le,
      fun v hv => by rw [hrests.localUsers]; exact h.members v hv,
      fun hcycled hpending hopen => ?_⟩
    have hbefore : Cycled user c.shared.server := hrests.toSamePlans.cycled hcycled
    have hquiet : ¬ Pending c := mt (pending_of_pending hthread (by simp)) hpending
    have hcovered : Covered user c := by
      apply h.covered hbefore hquiet
      rw [← hrests.flag]
      exact hopen.imp id (inProgress_of_inProgress hthread List.not_mem_nil List.not_mem_nil)
    refine hcovered.mono hrests.toSamePlans rfl (fun v hv => hv) fun v hv => ?_
    by_cases hv' : v = other
    · subst hv'
      exact Or.inr fun htype => hsent h.marked htype hbefore
    · refine Or.inl (toVisit_of_toVisit hthread (by simp) ?_ hv)
      intro heq
      exact hv' (Action.send.inj heq)
  | clear t hsame hlocals =>
    refine ⟨h.marked.trans hsame.sent.length_le, fun v hv => by rw [hlocals]; exact h.members v hv,
      fun hcycled hpending _ => ?_⟩
    have hquiet : ¬ Pending c := mt (pending_of_pending hthread (by simp)) hpending
    have hprogress : InProgress c := ⟨i, Or.inr (by rw [hthread]; exact List.mem_cons_self)⟩
    have hcovered : Covered user c :=
      h.covered (hsame.cycled hcycled) hquiet (Or.inr hprogress)
    exact hcovered.mono hsame rfl (fun v hv => hv) fun v hv =>
      Or.inl (toVisit_of_toVisit hthread (by simp) (by simp) hv)

end Step

/-- No handler and no call of `updateOnlyQueues` for the pilot is in progress. -/
def Quiescent (c : Config ι Action Board) : Prop := ∀ i, ∀ a ∈ c.threads i, opens a = true

/-- The invariant of the runs in which every handler sets the flag in time. -/
theorem delivers_run {env : Environment} {threads : ι → List Action} {s : Server}
    (hrun : Relation.ReflTransGen (Step (perform env user) (Elsewhere user) (Timely user))
      ⟨threads, s, [], 0⟩ c) : Delivers user c := by
  induction hrun with
  | refl => exact ⟨Nat.zero_le _, by simp, fun _ _ _ => by simp [Covered]⟩
  | tail _ hstep ih =>
    cases hstep with
    | act hthread hallowed hrun => exact ih.act hthread hallowed (does_perform hrun)
    | outside hother => exact ih.elsewhere hother

/-- In every run of any number of threads, each handling any number of updates for a pilot and
calls of `updateOnlyQueues`, in which every handler sets the flag in time: whenever the flag is
down, nothing is in progress and the stored cycle is not zero, every controller that has stayed
among the pilot's local users since the last update was stored has been sent the stored plan
since then. -/
theorem delivered_of_timely (env : Environment) {threads : ι → List Action} {s : Server}
    (hrun : Relation.ReflTransGen (Step (perform env user) (Elsewhere user) (Timely user))
      ⟨threads, s, [], 0⟩ c)
    (hquiescent : Quiescent c) (hflag : (c.shared.server.heap user).updateOnlyQueues 0 = false)
    (hcycled : Cycled user c.shared.server) :
    ∀ v ∈ c.shared.stayed, (c.shared.server.heap v).getType = .controller →
      Delivered user c.shared v := by
  have hnot (a : Action) (ha : opens a = false) (i : ι) : a ∉ c.threads i := by
    intro hmem
    rw [hquiescent i a hmem] at ha
    cases ha
  have hquiet : ¬ Pending c := fun ⟨i, hi⟩ => hnot _ rfl i hi
  intro v hv htype
  rcases (delivers_run hrun).covered hcycled hquiet (Or.inl hflag) v hv htype with
    hsent | ⟨i, hi | hi⟩
  · exact hsent
  · exact absurd hi (hnot _ rfl i)
  · exact absurd hi (hnot _ rfl i)

section Decisions

variable [Fintype ι]

instance (s : Server) : Decidable (Cycled user s) :=
  decidable_of_iff ((planOf s user).any (fun plan => plan.cycle ≠ 0) = true)
    (by simp [Cycled, Option.any_eq_true])

instance (b : Board) (v : Ptr) : Decidable (Delivered user b v) :=
  decidable_of_iff ((planOf b.server user).any (fun plan => decide (∃ e ∈
    b.server.sent.drop b.sentBefore, e.recipient = v ∧ carries user plan e.message = true)) = true)
    (by simp [Delivered, Option.any_eq_true])

instance (c : Config ι Action Board) : Decidable (InProgress c) :=
  inferInstanceAs (Decidable (∃ _ : ι, _))

instance (c : Config ι Action Board) (v : Ptr) : Decidable (ToVisit c v) :=
  inferInstanceAs (Decidable (∃ _ : ι, _))

instance (c : Config ι Action Board) : Decidable (Covered user c) :=
  inferInstanceAs (Decidable (∀ v ∈ c.shared.stayed, _))

instance (c : Config ι Action Board) (i : ι) (a : Action) : Decidable (Timely user c i a) :=
  inferInstanceAs (Decidable (_ → _))

instance (c : Config ι Action Board) : Decidable (Quiescent c) :=
  inferInstanceAs (Decidable (∀ _ : ι, _))

end Decisions

end Runs

section OneController

open Observers

/-- A pilot and a controller that see each other. -/
def besides : Server :=
  finalState ((globalUpdate (.orderly fun _ _ => some 0)).run twoUsers)

/-- An update with nothing in it but its cycle. -/
def blank (cycle : ℕ) : Fields := ⟨cycle, 1, [], [], [], [], [], [], [], [], []⟩

/-- An update and then a pass on one thread, another update on the other. -/
def twoUpdates : Config (Fin 2) Action Board :=
  ⟨fun i => if i = 0 then [.apply (blank 1), .test] else [.apply (blank 2)], besides, [], 0⟩

/-- The second update is handled before the pass begins. -/
def inTime : Config (Fin 2) Action Board :=
  twoUpdates.after (perform (.orderly fun _ _ => none) 1) (Timely 1) [0, 0, 1, 1, 0, 0, 0, 0]

/-- The second update is handled between the send and the end of the pass. -/
def tooLate : Config (Fin 2) Action Board :=
  twoUpdates.after (perform (.orderly fun _ _ => none) 1) (fun _ _ _ => True)
    [0, 0, 0, 0, 0, 1, 1, 0]

theorem delivered_in_time : Delivered 1 inTime.shared 0 := by
  have hrun : Relation.ReflTransGen
      (Step (perform (.orderly fun _ _ => none) 1) (Elsewhere 1) (Timely 1)) twoUpdates inTime :=
    Config.after_run (by decide +kernel)
  exact delivered_of_timely (.orderly fun _ _ => none) hrun (by decide +kernel)
    (by decide +kernel) (by decide +kernel) 0 (by decide +kernel) (by decide +kernel)

/-- The controller has the first plan, and nobody will send it the second. -/
theorem update_lost_behind_send :
    ¬ ∀ (env : Environment) (user : Ptr) (threads : Fin 2 → List Action) (s : Server)
      (c : Config (Fin 2) Action Board), (∀ i, ∀ a ∈ threads i, opens a = true) →
      Relation.ReflTransGen (Step (perform env user) (Elsewhere user) fun _ _ _ => True)
        ⟨threads, s, [], 0⟩ c →
      Quiescent c → (c.shared.server.heap user).updateOnlyQueues 0 = false →
      Cycled user c.shared.server → ∀ v ∈ c.shared.stayed,
        (c.shared.server.heap v).getType = .controller → Delivered user c.shared v := by
  intro h
  have hrun : Relation.ReflTransGen (Step (perform (.orderly fun _ _ => none) 1) (Elsewhere 1)
      fun _ _ _ => True) twoUpdates tooLate :=
    Config.after_run (by decide +kernel)
  have hdelivered := h _ 1 _ besides tooLate (by decide +kernel) hrun (by decide +kernel)
    (by decide +kernel) (by decide +kernel) 0 (by decide +kernel) (by decide +kernel)
  revert hdelivered
  decide +kernel

end OneController

end Win64Server.PlanDelivery
