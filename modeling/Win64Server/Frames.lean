import Win64Server.FramingSafety
import Win64Server.ServerEffects

/-!
Frames: what an operation leaves alone. Apart from the login, the disconnect and the two position
packets, all that packets do is to change users in other members than the position stamp, to send
messages and to ask the environment; a relation that all of this keeps is kept by their handlers.
-/
namespace Win64Server.Frames

open Outcome Library BasicStream Server

/-- A relation that is kept by messages and by questions to the environment. -/
class Quiet (R : Server → Server → Prop) : Prop extends Std.Refl R, IsTrans Server R where
  push : ∀ s user message, R s (Server.push s user message)
  ticks : ∀ s n, R s { s with ticks := n }

/-- And by any change to a user that shows nothing new to `g`. -/
class Frame {α : outParam Type} (g : outParam (User → α)) (R : Server → Server → Prop) : Prop
    extends Quiet R where
  modifyUser : ∀ s user f, g (f (s.heap user)) = g (s.heap user) → R s (s.modifyUser user f)

/-- All users show the same to `g`. -/
def Same {α : Type} (g : User → α) (s t : Server) : Prop :=
  ∀ user, g (t.heap user) = g (s.heap user)

instance {α : Type} (g : User → α) : Frame g (Same g) where
  refl _ _ := rfl
  trans _ _ _ h h' user := (h' user).trans (h user)
  push _ _ _ _ := rfl
  ticks _ _ _ := rfl
  modifyUser _ _ _ hf := modifyUser_frame hf

theorem kept_updateUser {α : Type} {g : User → α} {R : Server → Server → Prop} [hR : Frame g R]
    (user : Ptr) {f : User → User} (hf : ∀ u, g (f u) = g u) : Kept R (updateUser user f) :=
  ⟨fun s => hR.modifyUser s user f (hf (s.heap user))⟩

section Operations

variable {R : Server → Server → Prop} [hR : Quiet R] (env : Environment)

instance (user : Ptr) : Kept R (getUser user) := by unfold getUser; infer_instance

instance (user : Ptr) (message : Outgoing) : Kept R (send user message) :=
  ⟨fun s => hR.push s user message⟩

instance (users : List Ptr) : Kept R (arranged env users) := ⟨fun s => hR.ticks s _⟩

instance : Kept R (readClock env) := ⟨fun s => hR.ticks s _⟩

instance (user : Ptr) (func : Ptr → ServerM Unit) [∀ other, Kept R (func other)] :
    Kept R (iterateLocalUsers env user func) := by
  unfold iterateLocalUsers; infer_instance

instance (user : Ptr) : Kept R (getAircraft user) := by
  unfold getAircraft
  refine .of_bind inferInstance fun u => ?_
  cases u.asAircraft <;> infer_instance

instance (user : Ptr) : Kept R (getFlightPlan user) := by
  unfold getFlightPlan; infer_instance

instance (user sender : Ptr) : Kept R (Server.sendFlightPlanCycle user sender) := by
  unfold Server.sendFlightPlanCycle
  refine .of_bind inferInstance fun f => .of_bind inferInstance fun plan => ?_
  cases plan <;> infer_instance

instance (user other : Ptr) (aircraft : Aircraft) :
    Kept R (Server.sendClientTransponder user other aircraft) := by
  unfold Server.sendClientTransponder; infer_instance

instance (user other : Ptr) (aircraft : Aircraft) :
    Kept R (Server.sendClientModeChange user other aircraft) := by
  unfold Server.sendClientModeChange; infer_instance

instance (user other : Ptr) : Kept R (Server.sendPrimFreq user other) := by
  unfold Server.sendPrimFreq; infer_instance

instance (user sender : Ptr) (frequency : ℤ) (message : CxxString) (asel : Bool) :
    Kept R (Server.sendMessage user sender frequency message asel) := by
  unfold Server.sendMessage; infer_instance

instance (user other : Ptr) (script : ClientScript) :
    Kept R (Server.sendScript user other script) := by
  unfold Server.sendScript; infer_instance

instance (user : Ptr) (time : ℤ) : Kept R (Server.sendTimeChange user time) := by
  unfold Server.sendTimeChange; infer_instance

instance (user client : Ptr) : Kept R (Server.createClient user client) := by
  unfold Server.createClient; infer_instance

instance (user client : Ptr) : Kept R (Server.deleteClient user client) := by
  unfold Server.deleteClient; infer_instance

instance (user client : Ptr) : Kept R (Server.createFlightPlan user client) := by
  unfold Server.createFlightPlan
  refine .of_bind inferInstance fun c => ?_
  refine .of_ite (.of_bind inferInstance fun plan => ?_) inferInstance
  cases plan <;> infer_instance

instance (user other : Ptr) (idx : ℤ) : Kept R (Server.sendRemoveScript user other idx) := by
  unfold Server.sendRemoveScript; infer_instance

instance (user other : Ptr) : Kept R (sendScripts user other) := by
  unfold sendScripts
  refine .of_bind inferInstance fun u => @Kept.forM _ _ _ _ _ _ _ _ fun script => ?_
  cases script <;> infer_instance

instance (user other : Ptr) : Kept R (sendRemoveScripts user other) := by
  unfold sendRemoveScripts
  refine .of_bind inferInstance fun u => @Kept.forM _ _ _ _ _ _ _ _ fun script => ?_
  cases script <;> infer_instance

end Operations

section Intervals

variable {α : Type} {g : User → α} {R : Server → Server → Prop} [hR : Frame g R]

theorem kept_lowerInterval (hg : ∀ u x, g { u with updateInterval := x } = g u) (user : Ptr)
    (reqInterval : ℤ) : Kept R (lowerInterval user reqInterval) := by
  unfold lowerInterval
  refine .of_bind inferInstance fun u => .of_ite ?_ inferInstance
  exact .of_bind (kept_updateUser user fun u => hg u reqInterval) fun _ => inferInstance

theorem kept_adjustTime (hg : ∀ u x, g { u with updateInterval := x } = g u) (env : Environment)
    (user : Ptr) : Kept R (adjustTime env user) := by
  unfold adjustTime
  refine .of_bind inferInstance fun u => .of_bind inferInstance fun order => ?_
  refine .of_bind inferInstance fun s => .of_ite ?_ inferInstance
  exact .of_bind (kept_updateUser user fun u => hg u _) fun _ => inferInstance

end Intervals

section Pass

variable {α : Type} {g : User → α} {R : Server → Server → Prop} [hR : Frame g R]
  (env : Environment) (user : Ptr)

instance (func : Ptr → ServerM Unit) [∀ user, Kept R (func user)] :
    Kept R (iterateUsers env func) := by
  unfold iterateUsers; infer_instance

instance (other : Ptr) : Kept R (containsUser user other) := by
  unfold containsUser; infer_instance

instance (other : Ptr) : Kept R (sendPosUpdate user other) := by
  unfold sendPosUpdate
  refine .of_bind inferInstance fun a => ?_
  cases a.derived <;> infer_instance

theorem kept_updateOnlyQueues (hg : ∀ u q, g { u with updateOnlyQueues := q } = g u) :
    Kept R (updateOnlyQueues env user) := by
  unfold updateOnlyQueues
  refine .of_bind inferInstance fun u => .of_ite (.of_bind inferInstance fun plan => ?_)
    inferInstance
  cases plan with
  | none => exact .throw _
  | some fp => exact .of_bind inferInstance fun _ => kept_updateUser user fun u => hg u _

/-- The two setters store nothing. -/
instance kept_passFlags : Kept R (passFlags user) := by
  unfold passFlags
  exact .of_bind inferInstance fun u => .of_ite (kept_updateUser user fun _ => rfl) inferInstance

instance kept_resetRequired : Kept R (resetRequired user) :=
  kept_updateUser user fun _ => rfl

/-- A visit changes the interval of the visited user and the entry for it. -/
theorem kept_visitUser {user2 : Ptr} (hinterval : ∀ u x, g { u with updateInterval := x } = g u)
    (hemplace : Kept R (emplaceLocalUser user user2)) (herase : Kept R (eraseLocalUser user user2))
    (location : Location) : Kept R (visitUser env user location user2) := by
  have hstart : Kept R (startSeeing user user2) := by
    unfold startSeeing
    refine .of_bind inferInstance fun u => .of_bind inferInstance fun u2 => ?_
    refine .of_bind (kept_lowerInterval hinterval user2 _) fun _ => ?_
    infer_instance
  have hstop : Kept R (stopSeeing env user user2) := by
    unfold stopSeeing
    refine .of_bind inferInstance fun _ => .of_bind inferInstance fun _ => ?_
    exact .of_bind herase fun _ => kept_adjustTime hinterval env user2
  unfold visitUser
  refine .of_ite (.of_bind inferInstance fun u2 => .of_bind inferInstance fun u => ?_) inferInstance
  refine .of_bind inferInstance fun seen => .of_ite hstart ?_
  exact .of_bind inferInstance fun seen => .of_ite hstop inferInstance

/-- The members that a pass changes do not show. -/
structure Untouched {α : Type} (g : User → α) : Prop where
  updateInterval : ∀ u x, g { u with updateInterval := x } = g u
  localUsers : ∀ u l, g { u with localUsers := l } = g u
  updateOnlyQueues : ∀ u q, g { u with updateOnlyQueues := q } = g u

variable (hg : Untouched g)

include hg

theorem kept_updateLocalUsers : Kept R (updateLocalUsers env user) := by
  have hvisit (location : Location) (user2 : Ptr) : Kept R (visitUser env user location user2) :=
    kept_visitUser env user hg.updateInterval (kept_updateUser user fun u => hg.localUsers u _)
      (kept_updateUser user fun u => hg.localUsers u _) location
  unfold updateLocalUsers
  infer_instance

theorem kept_update : Kept R (update env user) := by
  have hrecord (other : Ptr) (att : Attributes) (stamp : ℤ) :
      Kept R (recordStamp user other att stamp) :=
    kept_updateUser user fun u => hg.localUsers u _
  have hask (other : Ptr) : Kept R (timeUpdate other user) := by
    unfold timeUpdate
    refine .of_bind inferInstance fun u => .of_bind inferInstance fun o => ?_
    exact kept_lowerInterval hg.updateInterval other _
  have hvisit (other : Ptr) : Kept R (updateAbout env user other) := by
    unfold updateAbout sendDue
    refine .of_bind inferInstance fun u => .of_bind inferInstance fun o => ?_
    refine .of_bind inferInstance fun _ => .of_bind inferInstance fun o' => ?_
    refine .of_ite inferInstance (.of_ite inferInstance (.of_ite ?_ inferInstance))
    refine .of_bind inferInstance fun now => .of_ite (.of_ite inferInstance ?_) inferInstance
    exact .of_ite inferInstance inferInstance
  unfold update
  infer_instance

/-- A pass stays within the frame. -/
theorem kept_globalUpdate : Kept R (globalUpdate env) := by
  have hlocal (user : Ptr) : Kept R (updateLocalUsers env user) :=
    kept_updateLocalUsers env user hg
  have hupdate (user : Ptr) : Kept R (update env user) := kept_update env user hg
  have hqueues (user : Ptr) : Kept R (updateOnlyQueues env user) :=
    kept_updateOnlyQueues env user hg.updateOnlyQueues
  unfold globalUpdate
  infer_instance

end Pass

/-- What a handler does to the server is within the relation, and nothing is dispatched. -/
def Lifted (R : Server → Server → Prop) (x y : Session) : Prop :=
  R x.server y.server ∧ y.dispatched = x.dispatched

instance (R : Server → Server → Prop) [Std.Refl R] : Std.Refl (Lifted R) :=
  ⟨fun _ => ⟨Std.Refl.refl _, rfl⟩⟩

instance (R : Server → Server → Prop) [IsTrans Server R] : IsTrans Session (Lifted R) where
  trans _ _ _ h h' := ⟨Trans.trans h.1 h'.1, h'.2.trans h.2⟩

section Lifting

variable {R : Server → Server → Prop}

instance {α : Type} [Std.Refl R] (op : StreamM α) : Kept (Lifted R) (onBuf op) where
  keeps x := by
    rw [run_onBuf]
    cases op.run x.buf <;> exact ⟨Std.Refl.refl _, rfl⟩

instance kept_onServer {α : Type} (op : ServerM α) [h : Kept R op] :
    Kept (Lifted R) (onServer op) where
  keeps x := by
    have hop := h.keeps x.server
    rw [run_onServer]
    cases hrun : op.run x.server <;> rw [hrun] at hop <;> exact ⟨hop, rfl⟩

variable [Std.Refl R] [IsTrans Server R] (user : Option Ptr)

instance : Kept (Lifted R) readText := by unfold readText; infer_instance

instance : Kept (Lifted R) readDouble := by unfold readDouble; infer_instance

instance : Kept (Lifted R) readFrequency := by unfold readFrequency; infer_instance

instance : Kept (Lifted R) (deref user) := by cases user <;> unfold deref <;> infer_instance

instance (type : ℕ) : Kept (Lifted R) (HandshakePacket.readTypeFields type) := by
  unfold HandshakePacket.readTypeFields; infer_instance

theorem kept_readFields : Kept (Lifted R) HandshakePacket.readFields := by
  unfold HandshakePacket.readFields
  refine .of_bind inferInstance fun protoVersion => .of_bind inferInstance fun callSign => ?_
  refine .of_bind inferInstance fun loginName => .of_bind inferInstance fun username => ?_
  refine .of_bind inferInstance fun password => .of_bind inferInstance fun requestTime => ?_
  infer_instance

end Lifting

section Handlers

variable {R : Server → Server → Prop} [hR : Frame User.lastPositionUpdate R] (env : Environment)
  (clientSocket : Socket) (user : Option Ptr)

theorem setRequestedInterval_stamp {u v : User} {type : ℕ} {request : ℤ}
    (h : u.setRequestedInterval type request = some v) :
    v.lastPositionUpdate = u.lastPositionUpdate := by
  unfold User.setRequestedInterval at h
  split at h
  · cases h
    rfl
  · cases h

theorem kept_modifyAircraft (u : Ptr) (f : Aircraft → Aircraft) :
    Kept R (updateUser u fun r => r.modifyAircraft f) :=
  kept_updateUser u fun r => modifyAircraft_stamp r f

theorem kept_registerScript (u : Ptr) (script : ClientScript) :
    Kept R (registerScript env u script) := by
  unfold registerScript
  refine .of_bind inferInstance fun r => ?_
  cases r.scripts.addScript script with
  | error e => exact .throw _
  | ok placed => exact .of_bind (kept_updateUser u fun _ => rfl) fun _ => inferInstance

theorem kept_transponder : Kept (Lifted R) (TransponderPacket.handle env clientSocket user) := by
  unfold TransponderPacket.handle
  refine .of_bind inferInstance fun code => .of_bind inferInstance fun u => ?_
  refine @kept_onServer R _ _ (.of_bind inferInstance fun r => .of_ite ?_ inferInstance)
  exact .of_bind (kept_modifyAircraft u _) fun _ => inferInstance

/-- The user that is stored is a changed copy of the one that was read. -/
theorem kept_changeCycle : Kept (Lifted R) (ChangeCyclePacket.handle clientSocket user) := by
  unfold ChangeCyclePacket.handle
  refine .of_bind inferInstance fun index => .of_bind inferInstance fun x => ?_
  refine .of_bind inferInstance fun type => .of_bind inferInstance fun requestTime => ?_
  refine .of_ite (.of_bind inferInstance fun u => ?_) inferInstance
  refine @kept_onServer R _ _ ⟨fun s => ?_⟩
  rw [run_bind_of_ok (getUser_run s u)]
  cases hset : (s.heap u).setRequestedInterval type requestTime with
  | none => exact Std.Refl.refl s
  | some changed => exact hR.modifyUser s u (fun _ => changed) (setRequestedInterval_stamp hset)

theorem kept_message : Kept (Lifted R) (MessageRxPacket.handle env clientSocket user) := by
  unfold MessageRxPacket.handle
  refine .of_bind inferInstance fun callsign => .of_bind inferInstance fun frequency => ?_
  refine .of_bind inferInstance fun message => .of_bind inferInstance fun x => ?_
  cases x.server.clientManager.getUserByCallsign callsign <;> infer_instance

theorem kept_pilotTitle : Kept (Lifted R) (PilotTitle.handle clientSocket user) := by
  unfold PilotTitle.handle
  refine .of_bind inferInstance fun index => .of_bind inferInstance fun x => ?_
  refine .of_bind inferInstance fun title => ?_
  refine .of_ite (.of_bind inferInstance fun u => ?_) inferInstance
  exact @kept_onServer R _ _ (kept_modifyAircraft u _)

theorem kept_clientMode : Kept (Lifted R) (ClientMode.handle env clientSocket user) := by
  unfold ClientMode.handle
  refine .of_bind inferInstance fun i => .of_bind inferInstance fun u => ?_
  refine @kept_onServer R _ _ (.of_bind inferInstance fun r => .of_ite ?_ inferInstance)
  exact .of_bind (kept_modifyAircraft u _) fun _ => inferInstance

theorem kept_flightPlan : Kept (Lifted R) (FlightPlanUpdate.handle clientSocket user) := by
  unfold FlightPlanUpdate.handle
  refine .of_bind inferInstance fun curCycle => .of_bind inferInstance fun index => ?_
  refine .of_bind inferInstance fun x => .of_bind inferInstance fun flightRules => ?_
  refine .of_bind inferInstance fun squawk => .of_bind inferInstance fun departure => ?_
  refine .of_bind inferInstance fun arrival => .of_bind inferInstance fun alternate => ?_
  refine .of_bind inferInstance fun cruise => .of_bind inferInstance fun acType => ?_
  refine .of_bind inferInstance fun scratch => .of_bind inferInstance fun route => ?_
  refine .of_bind inferInstance fun remarks => ?_
  cases x.server.clientManager.getUserByIndex index with
  | none => infer_instance
  | some u =>
    refine @kept_onServer R _ _ (.of_bind inferInstance fun r => .of_ite ?_ inferInstance)
    refine .of_bind inferInstance fun plan => ?_
    cases plan with
    | none => exact .throw _
    | some plan =>
      exact .of_bind (kept_modifyAircraft u _) fun _ => kept_updateUser u fun _ => rfl

theorem kept_requestFlightPlan :
    Kept (Lifted R) (RequestFlightPlan.handle clientSocket user) := by
  unfold RequestFlightPlan.handle
  refine .of_bind inferInstance fun index => .of_bind inferInstance fun curCycle => ?_
  refine .of_bind inferInstance fun x => ?_
  cases x.server.clientManager.getUserByIndex index with
  | none => infer_instance
  | some userFp =>
    refine .of_ite (.of_bind inferInstance fun plan => ?_) inferInstance
    cases plan <;> infer_instance

theorem kept_privateMessage : Kept (Lifted R) (PrivateMsgPacket.handle clientSocket user) := by
  unfold PrivateMsgPacket.handle
  refine .of_bind inferInstance fun callsign => .of_bind inferInstance fun x => ?_
  refine .of_bind inferInstance fun message => ?_
  cases x.server.clientManager.getUserByCallsign callsign <;> infer_instance

theorem kept_primeFreq : Kept (Lifted R) (PrimeFreqPacket.handle env clientSocket user) := by
  unfold PrimeFreqPacket.handle
  refine .of_bind inferInstance fun flags => .of_bind inferInstance fun first => ?_
  refine .of_bind inferInstance fun u => ?_
  refine .of_bind (@kept_onServer R _ _ (kept_updateUser u fun _ => rfl)) fun _ => ?_
  refine .of_bind inferInstance fun second => @kept_onServer R _ _ ?_
  exact .of_bind (kept_updateUser u fun _ => rfl) fun _ => inferInstance

theorem kept_tempData : Kept (Lifted R) (TempDataPacket.handle env clientSocket user) := by
  unfold TempDataPacket.handle
  refine .of_bind inferInstance fun assembly => .of_bind inferInstance fun slots => ?_
  refine .of_bind inferInstance fun first => .of_bind inferInstance fun u => ?_
  exact @kept_onServer R _ _ (kept_registerScript env u _)

theorem kept_pong : Kept (Lifted R) (pongPacket.handle clientSocket user) :=
  .pure ()

/-- The packets that may step out of a frame. -/
def exempt : List ℤ := [45, 9, 1, 3]

/-- The handler of any other packet stays within the frame. -/
theorem kept_handle {packet : Packet} {id : ℤ}
    (h : (registerPackets env).getPacket id = some packet) :
    (id = 45 ∧ packet = examplePacket) ∨ (id = 9 ∧ packet = clientDisconnect) ∨
      (id = 1 ∧ packet = pilotUpdate env) ∨ (id = 3 ∧ packet = controllerUpdate env) ∨
      (id ∉ exempt ∧ Kept (Lifted R) (packet.handle clientSocket user)) := by
  have hother {id : ℤ} {packet : Packet} (hid : id ∉ exempt)
      (hkept : Kept (Lifted R) (packet.handle clientSocket user)) :=
    Or.inr (a := id = 45 ∧ packet = examplePacket) <|
      Or.inr (a := id = 9 ∧ packet = clientDisconnect) <|
      Or.inr (a := id = 1 ∧ packet = pilotUpdate env) <|
      Or.inr (a := id = 3 ∧ packet = controllerUpdate env) (And.intro hid hkept)
  apply getPacket_cases h
  case handshake => exact Or.inl ⟨rfl, rfl⟩
  case pong => exact hother (by decide) (kept_pong clientSocket user)
  case pilotUpdate => exact Or.inr (Or.inr (Or.inl ⟨rfl, rfl⟩))
  case controllerUpdate => exact Or.inr (Or.inr (Or.inr (Or.inl ⟨rfl, rfl⟩)))
  case transponder => exact hother (by decide) (kept_transponder env clientSocket user)
  case changeCycle => exact hother (by decide) (kept_changeCycle clientSocket user)
  case message => exact hother (by decide) (kept_message env clientSocket user)
  case pilotTitle => exact hother (by decide) (kept_pilotTitle clientSocket user)
  case clientMode => exact hother (by decide) (kept_clientMode env clientSocket user)
  case clientDisconnect => exact Or.inr (Or.inl ⟨rfl, rfl⟩)
  case flightPlanUpdate => exact hother (by decide) (kept_flightPlan clientSocket user)
  case requestFlightPlan =>
    exact hother (by decide) (kept_requestFlightPlan clientSocket user)
  case privateMsg => exact hother (by decide) (kept_privateMessage clientSocket user)
  case primeFreq => exact hother (by decide) (kept_primeFreq env clientSocket user)
  case tempData => exact hother (by decide) (kept_tempData env clientSocket user)

end Handlers

end Win64Server.Frames
