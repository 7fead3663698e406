import Win64Server.ServerEffects
import Win64Server.Library.Interleaving

/-!
The first part of a pass as the atomic actions of one worker. `UpdateTask` queues a pass every
period without waiting for the one before, so several workers can be in `updateLocalUsers` for
one user at once; what the language makes atomic there is an access under the user's lock and a
send. Performed with nothing in between, the actions are `updateLocalUsers`.
-/
namespace Win64Server.PassActions

open Outcome Library Server

/-- What a worker does next. A user under test comes with its distance, read before. -/
inductive Action
  | begin
  | measure (location : Location) (user2 : Ptr)
  | testUnseen (user2 : Ptr) (distance : Option ℚ)
  | testSeen (user2 : Ptr) (distance : Option ℚ)
  | compareInterval (user2 : Ptr)
  | createClient (user2 : Ptr)
  | createFlightPlan (user2 : Ptr)
  | readScripts (user2 : Ptr)
  | sendScript (user2 : Ptr) (script : Option ClientScript)
  | emplace (user2 : Ptr)
  | deleteClient (user2 : Ptr)
  | readScriptsToRemove (user2 : Ptr)
  | sendRemoveScript (user2 : Ptr) (script : Option ClientScript)
  | erase (user2 : Ptr)
  | compareRequests (user2 : Ptr)
  | setInterval (user2 : Ptr) (time : ℤ)
  | sendTimeChange (user2 : Ptr) (time : ℤ)
deriving DecidableEq

/-- What follows when the user is in range and not in the set. -/
def starting (user2 : Ptr) : List Action :=
  [.compareInterval user2, .createClient user2, .createFlightPlan user2, .readScripts user2,
    .emplace user2]

/-- What follows when the user is out of range and in the set. -/
def stopping (user2 : Ptr) : List Action :=
  [.deleteClient user2, .readScriptsToRemove user2, .erase user2, .compareRequests user2]

/-- The condition of the first branch: the set is asked, then the range. -/
def newlyVisible (user user2 : Ptr) (distance : Option ℚ) : ServerM Bool := do
  let seen ← containsUser user user2
  let u ← getUser user
  return !seen && decide (within distance u.visibilityRange)

/-- The condition of the second branch. -/
def newlyHidden (user user2 : Ptr) (distance : Option ℚ) : ServerM Bool := do
  let seen ← containsUser user user2
  let u ← getUser user
  return seen && decide (beyond distance u.visibilityRange)

/-- The interval the user asks for, when it is below the one of the other user. -/
def shorterInterval (user user2 : Ptr) : ServerM (Option ℤ) := do
  let u ← getUser user
  let u2 ← getUser user2
  let reqInterval := u.getRequestedInterval u2.getType
  return if u2.updateInterval > reqInterval then some reqInterval else none

/-- The interval `adjust_time` finds for a user, when it is another one. -/
def otherInterval (env : Environment) (user : Ptr) : ServerM (Option ℤ) := do
  let u ← getUser user
  let order ← arranged env u.localUsers.keys
  let s ← get
  let lastTime := tightest (order.map fun other => (s.heap other).getRequestedInterval u.getType)
  return if lastTime ≠ u.updateInterval then some lastTime else none

def changeInterval (user2 : Ptr) : Option ℤ → List Action
  | some time => [.setInterval user2 time, .sendTimeChange user2 time]
  | none => []

/-- One atomic action of `updateLocalUsers(user)`, and what it puts in front of the rest. -/
def perform (env : Environment) (user : Ptr) : Action → ServerM (List Action)
  | .begin => do
    let u ← getUser user
    let s ← get
    let order ← arranged env s.clientManager.users
    return order.map (.measure u.location)
  | .measure location user2 =>
    if user ≠ user2 then do
      let u2 ← getUser user2
      return [.testUnseen user2 (env.dist location u2.location)]
    else return []
  | .testUnseen user2 distance => do
    let starts ← newlyVisible user user2 distance
    return if starts then starting user2 else [.testSeen user2 distance]
  | .testSeen user2 distance => do
    let stops ← newlyHidden user user2 distance
    return if stops then stopping user2 else []
  | .compareInterval user2 => changeInterval user2 <$> shorterInterval user user2
  | .createClient user2 => (fun _ => []) <$> Server.createClient user user2
  | .createFlightPlan user2 => (fun _ => []) <$> Server.createFlightPlan user user2
  | .readScripts user2 => do
    let u ← getUser user2
    return u.scripts.getAllScripts.map (.sendScript user2)
  | .sendScript user2 script => (fun _ => []) <$>
    match script with
    | some script => Server.sendScript user user2 script
    | none => throw (.undefined .nullScript)
  | .emplace user2 => (fun _ => []) <$> emplaceLocalUser user user2
  | .deleteClient user2 => (fun _ => []) <$> Server.deleteClient user user2
  | .readScriptsToRemove user2 => do
    let u ← getUser user2
    return u.scripts.getAllScripts.map (.sendRemoveScript user2)
  | .sendRemoveScript user2 script => (fun _ => []) <$>
    match script with
    | some script => Server.sendRemoveScript user user2 script.idx
    | none => throw (.undefined .nullScript)
  | .erase user2 => (fun _ => []) <$> eraseLocalUser user user2
  | .compareRequests user2 => changeInterval user2 <$> otherInterval env user2
  | .setInterval user2 time =>
    (fun _ => []) <$> updateUser user2 fun u => { u with updateInterval := time }
  | .sendTimeChange user2 time => (fun _ => []) <$> Server.sendTimeChange user2 time

section Alone

variable (env : Environment) (user user2 : Ptr)

/-- The two actions that change an interval, as one part of a program. -/
def applyInterval (user2 : Ptr) : Option ℤ → ServerM Unit
  | some time => do
    updateUser user2 fun u => { u with updateInterval := time }
    Server.sendTimeChange user2 time
  | none => return

theorem implements_changeInterval (interval : Option ℤ) :
    Implements (perform env user) (changeInterval user2 interval)
      (applyInterval user2 interval) := by
  cases interval with
  | some time => exact .cons rfl (.last rfl)
  | none => exact .nil

theorem implements_compareInterval :
    Implements (perform env user) [.compareInterval user2] (do
      let u ← getUser user
      let u2 ← getUser user2
      lowerInterval user2 (u.getRequestedInterval u2.getType)) := by
  refine Implements.congr (.act rfl fun interval =>
    implements_changeInterval env user user2 interval) fun s => ?_
  simp only [shorterInterval, lowerInterval, EStateM.run_bind, getUser_run, EStateM.run_pure]
  split <;> rfl

theorem implements_compareRequests :
    Implements (perform env user) [.compareRequests user2] (adjustTime env user2) := by
  refine Implements.congr (.act rfl fun interval =>
    implements_changeInterval env user user2 interval) fun s => ?_
  simp only [otherInterval, adjustTime, EStateM.run_bind, getUser_run, arranged_run,
    EStateM.run_get, EStateM.run_pure]
  split <;> rfl

theorem implements_readScripts :
    Implements (perform env user) [.readScripts user2] (sendScripts user user2) := by
  refine .act (show _ = (fun u : User => u.scripts.getAllScripts.map (.sendScript user2)) <$>
    getUser user2 from rfl) fun u => ?_
  refine .forM (fun script => ?_) _
  exact .last rfl

theorem implements_readScriptsToRemove :
    Implements (perform env user) [.readScriptsToRemove user2] (sendRemoveScripts user user2) := by
  refine .act (show _ = (fun u : User => u.scripts.getAllScripts.map (.sendRemoveScript user2)) <$>
    getUser user2 from rfl) fun u => ?_
  refine .forM (fun script => ?_) _
  exact .last rfl

theorem implements_starting :
    Implements (perform env user) (starting user2) (startSeeing user user2) := by
  refine Implements.congr (.append (implements_compareInterval env user user2) <| .cons rfl <|
    .cons rfl <| .append (implements_readScripts env user user2) <| .last rfl) fun s => ?_
  rfl

theorem implements_stopping :
    Implements (perform env user) (stopping user2) (stopSeeing env user user2) :=
  .cons rfl <| .append (implements_readScriptsToRemove env user user2) <| .cons rfl
    (implements_compareRequests env user user2)

theorem implements_testSeen (distance : Option ℚ) :
    Implements (perform env user) [.testSeen user2 distance] (do
      let stops ← newlyHidden user user2 distance
      if stops then stopSeeing env user user2) := by
  refine .act (show _ = (fun stops => if stops then stopping user2 else []) <$>
    newlyHidden user user2 distance from rfl) fun stops => ?_
  cases stops with
  | true => exact implements_stopping env user user2
  | false => exact .nil

theorem implements_testUnseen (distance : Option ℚ) :
    Implements (perform env user) [.testUnseen user2 distance] (do
      let starts ← newlyVisible user user2 distance
      if starts then startSeeing user user2
      else
        let stops ← newlyHidden user user2 distance
        if stops then stopSeeing env user user2) := by
  refine .act (show _ = (fun starts => if starts then starting user2
    else [.testSeen user2 distance]) <$> newlyVisible user user2 distance from rfl) fun starts => ?_
  cases starts with
  | true => exact implements_starting env user user2
  | false => exact implements_testSeen env user user2 distance

theorem implements_measure (location : Location) :
    Implements (perform env user) [.measure location user2]
      (visitUser env user location user2) := by
  by_cases huser : user ≠ user2
  · have hmeasure : perform env user (.measure location user2) =
        (fun u2 => [.testUnseen user2 (env.dist location u2.location)]) <$> getUser user2 := by
      rw [perform, if_pos huser]
      rfl
    refine Implements.congr (.act hmeasure fun u2 =>
      implements_testUnseen env user user2 (env.dist location u2.location)) fun s => ?_
    rw [visitUser, if_pos huser]
    simp only [newlyVisible, newlyHidden, containsUser, EStateM.run_bind, getUser_run,
      EStateM.run_pure]
    split <;> rfl
  · have hnone : perform env user (.measure location user2) =
        (fun _ => []) <$> (pure () : ServerM Unit) := by
      rw [perform, if_neg huser]
      rfl
    rw [visitUser, if_neg huser]
    exact .last hnone

/-- Performed alone, the actions are `updateLocalUsers`. -/
theorem implements_updateLocalUsers :
    Implements (perform env user) [.begin] (updateLocalUsers env user) := by
  let op : ServerM (Location × List Ptr) := do
    let u ← getUser user
    let s ← get
    let order ← arranged env s.clientManager.users
    return (u.location, order)
  have hbegin : perform env user .begin = (fun p => p.2.map (.measure p.1)) <$> op := rfl
  refine Implements.congr (.act hbegin fun p =>
    Implements.forM (fun user2 => implements_measure env user user2 p.1) p.2) fun s => ?_
  simp only [updateLocalUsers, iterateUsers, op, EStateM.run_bind, getUser_run, EStateM.run_get,
    arranged_run, EStateM.run_pure]

end Alone

/-- A worker that is not interrupted does what the sequential program does. -/
theorem updateLocalUsers_interleaved {ι : Type} [DecidableEq ι] {outside : Server → Server → Prop}
    (env : Environment) {user : Ptr} {s t : Server}
    (hrun : (updateLocalUsers env user).run s = .ok () t) (i : ι) :
    Relation.ReflTransGen (Step (perform env user) outside fun _ _ _ => True)
      ⟨fun _ => [.begin], s⟩ ⟨Function.update (fun _ => [.begin]) i [], t⟩ :=
  ((implements_updateLocalUsers env user s t).mpr hrun).interleaved i [] _ rfl

end Win64Server.PassActions
