import Win64Server.Server

/-!
The periodic update. A pass first brings every user's set of local users up to date with what the
user can see, then sends position updates and flight plans along these sets. Both parts also move
the update intervals of the users that are seen.
-/
namespace Win64Server

/-- `distance <= range`; a NaN compares false. -/
def within (distance : Option ℚ) (range : ℤ) : Prop := ∃ d ∈ distance, d ≤ range

/-- `distance > range`. -/
def beyond (distance : Option ℚ) (range : ℤ) : Prop := ∃ d ∈ distance, (range : ℚ) < d

instance (distance : Option ℚ) (range : ℤ) : Decidable (within distance range) := by
  unfold within
  infer_instance

instance (distance : Option ℚ) (range : ℤ) : Decidable (beyond distance range) := by
  unfold beyond
  infer_instance

namespace Server

def containsUser (user user2 : Ptr) : ServerM Bool := do
  let u ← getUser user
  return decide (user2 ∈ u.localUsers)

/-- A null slot would be followed. -/
def sendScripts (user scriptsUser : Ptr) : ServerM Unit := do
  let u ← getUser scriptsUser
  u.scripts.getAllScripts.forM fun script =>
    match script with
    | some script => sendScript user scriptsUser script
    | none => throw (.undefined .nullScript)

def sendRemoveScripts (user scriptsUser : Ptr) : ServerM Unit := do
  let u ← getUser scriptsUser
  u.scripts.getAllScripts.forM fun script =>
    match script with
    | some script => sendRemoveScript user scriptsUser script.idx
    | none => throw (.undefined .nullScript)

/-- `emplace` leaves an entry that is already there. -/
def emplaceLocalUser (user user2 : Ptr) : ServerM Unit :=
  updateUser user fun u =>
    { u with localUsers :=
        if user2 ∈ u.localUsers then u.localUsers else u.localUsers.insert user2 fun _ => 0 }

def eraseLocalUser (user user2 : Ptr) : ServerM Unit :=
  updateUser user fun u => { u with localUsers := u.localUsers.erase user2 }

/-- The interval of a user is lowered to what another one asks for. -/
def lowerInterval (user : Ptr) (reqInterval : ℤ) : ServerM Unit := do
  let u ← getUser user
  if u.updateInterval > reqInterval then
    updateUser user fun u => { u with updateInterval := reqInterval }
    sendTimeChange user reqInterval

/-- `user` begins to see `user2`. -/
def startSeeing (user user2 : Ptr) : ServerM Unit := do
  let u ← getUser user
  let u2 ← getUser user2
  lowerInterval user2 (u.getRequestedInterval u2.getType)
  createClient user user2
  createFlightPlan user user2
  sendScripts user user2
  emplaceLocalUser user user2

/-- `user` no longer sees `user2`. -/
def stopSeeing (env : Environment) (user user2 : Ptr) : ServerM Unit := do
  deleteClient user user2
  sendRemoveScripts user user2
  eraseLocalUser user user2
  adjustTime env user2

/-- The body of the loop of `updateLocalUsers`. -/
def visitUser (env : Environment) (user : Ptr) (location : Location) (user2 : Ptr) :
    ServerM Unit := do
  if user ≠ user2 then
    let u2 ← getUser user2
    let distance := env.dist location u2.location
    let u ← getUser user
    if !(← containsUser user user2) && decide (within distance u.visibilityRange) then
      startSeeing user user2
    else if (← containsUser user user2) && decide (beyond distance u.visibilityRange) then
      stopSeeing env user user2

def updateLocalUsers (env : Environment) (user : Ptr) : ServerM Unit := do
  let u ← getUser user
  iterateUsers env fun user2 => visitUser env user u.location user2

/-- `timeUpdate(user, other)`, without the value its caller ignores. -/
def timeUpdate (user other : Ptr) : ServerM Unit := do
  let u ← getUser user
  let o ← getUser other
  lowerInterval user (o.getRequestedInterval u.getType)

def sendPosUpdate (updatedUser aboutUser : Ptr) : ServerM Unit := do
  let a ← getUser aboutUser
  match a.derived with
  | .aircraft aircraft => send updatedUser (.pilotUpdate aboutUser a aircraft)
  | .controller _ => send updatedUser (.controllerUpdate aboutUser a)

/-- `att[LAST_POS_UPDATE] = stamp; user->local_users[other] = att;` -/
def recordStamp (user other : Ptr) (att : Attributes) (stamp : ℤ) : ServerM Unit :=
  updateUser user fun u =>
    { u with localUsers := u.localUsers.insert other (Function.update att lastPosUpdate stamp) }

/-- The part of the loop of `update` behind `timeUpdate`. -/
def sendDue (env : Environment) (user other : Ptr) (updateRequired : Bool) (userReqInterval : ℤ)
    (att : Attributes) (otherUpdateStamp : ℤ) : ServerM Unit := do
  let last := att lastPosUpdate
  let o ← getUser other
  if o.updateInterval > userReqInterval then
    return
  else if updateRequired then
    sendPosUpdate user other
    recordStamp user other att otherUpdateStamp
  else if last ≠ 0 then
    let now ← readClock env
    let interval := now - last
    if last ≠ otherUpdateStamp ∧ interval ≥ userReqInterval then
      let minTime := userReqInterval - o.updateInterval
      let maxTime := userReqInterval + o.updateInterval
      if interval ≥ minTime ∧ interval ≤ maxTime then
        sendPosUpdate user other
        recordStamp user other att otherUpdateStamp
      else if interval > maxTime then
        sendPosUpdate other user
        recordStamp user other att otherUpdateStamp
  else
    sendPosUpdate other user
    recordStamp user other att otherUpdateStamp

/-- The body of the loop of `update`. -/
def updateAbout (env : Environment) (user other : Ptr) : ServerM Unit := do
  let u ← getUser user
  let o ← getUser other
  timeUpdate other user
  sendDue env user other u.updateRequired (u.getRequestedInterval o.getType)
    ((u.localUsers.lookup other).getD fun _ => 0) o.lastPositionUpdate

def update (env : Environment) (user : Ptr) : ServerM Unit :=
  iterateLocalUsers env user (updateAbout env user)

/-- The flight plan of a flagged pilot goes to the controllers among its local users. -/
def updateOnlyQueues (env : Environment) (user : Ptr) : ServerM Unit := do
  let u ← getUser user
  if u.getType = .pilot ∧ u.updateOnlyQueues 0 then
    match ← getFlightPlan user with
    | none => throw (.undefined .nullPlan)
    | some fp =>
      iterateLocalUsers env user fun other => do
        let o ← getUser other
        if o.getType = .controller ∧ fp.cycle ≠ 0 then sendFlightPlanCycle other user
      updateUser user fun u =>
        { u with updateOnlyQueues := Function.update u.updateOnlyQueues 0 false }

def passFlags (user : Ptr) : ServerM Unit := do
  let u ← getUser user
  if u.triggerUpdate then
    updateUser user fun u => (u.setUpdateRequired true).setTriggerUpdate false

def resetRequired (user : Ptr) : ServerM Unit :=
  updateUser user fun u => u.setUpdateRequired false

/-- `globalUpdate`: four loops over the connected users. -/
def globalUpdate (env : Environment) : ServerM Unit := do
  iterateUsers env fun user => do
    updateLocalUsers env user
    passFlags user
  iterateUsers env (update env)
  iterateUsers env (updateOnlyQueues env)
  iterateUsers env resetRequired

end Server

end Win64Server
