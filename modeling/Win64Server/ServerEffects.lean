import Win64Server.ClientUpdater

/-!
What the operations of the server do to its state. Most of them only send messages; the kinds of
messages each of them sends are listed once here. The others change one user object, or ask the
environment.
-/
namespace Win64Server.Server

open Outcome

/-- Nothing but messages of a certain kind is new. -/
structure Sends (p : Sent → Prop) (s t : Server) : Prop where
  heap : t.heap = s.heap
  next : t.next = s.next
  clientManager : t.clientManager = s.clientManager
  sent : ∃ new, t.sent = s.sent ++ new ∧ ∀ e ∈ new, p e

namespace Sends

variable {p : Sent → Prop} {s t u : Server}

theorem refl (s : Server) : Sends p s s := ⟨rfl, rfl, rfl, [], by simp, by simp⟩

theorem trans (h : Sends p s t) (h' : Sends p t u) : Sends p s u := by
  obtain ⟨new, hsent, hnew⟩ := h.sent
  obtain ⟨new', hsent', hnew'⟩ := h'.sent
  refine ⟨h'.heap.trans h.heap, h'.next.trans h.next, h'.clientManager.trans h.clientManager,
    new ++ new', by rw [hsent', hsent, List.append_assoc], fun e he => ?_⟩
  rcases List.mem_append.mp he with he | he
  · exact hnew e he
  · exact hnew' e he

theorem mono {q : Sent → Prop} (h : Sends p s t) (himp : ∀ e, p e → q e) : Sends q s t := by
  obtain ⟨new, hsent, hnew⟩ := h.sent
  exact ⟨h.heap, h.next, h.clientManager, new, hsent, fun e he => himp e (hnew e he)⟩

instance : Std.Refl (Sends p) := ⟨refl⟩

instance : IsTrans Server (Sends p) := ⟨fun _ _ _ => trans⟩

end Sends

section Runs

variable (s : Server) (user : Ptr)

@[simp] theorem getUser_run : (getUser user).run s = .ok (s.heap user) s := rfl

@[simp] theorem updateUser_run (f : User → User) :
    (updateUser user f).run s = .ok () (s.modifyUser user f) := rfl

@[simp] theorem send_run (message : Outgoing) :
    (send user message).run s = .ok () (s.push user message) := rfl

@[simp] theorem arranged_run (env : Environment) (users : List Ptr) :
    (arranged env users).run s =
      .ok (env.arrange s.ticks users) { s with ticks := s.ticks + 1 } := rfl

@[simp] theorem readClock_run (env : Environment) :
    (readClock env).run s = .ok (env.clock s.ticks) { s with ticks := s.ticks + 1 } := rfl

theorem getAircraft_run {s : Server} {user : Ptr} {a : Aircraft}
    (h : (s.heap user).asAircraft = some a) : (getAircraft user).run s = .ok a s := by
  simp [getAircraft, h]

theorem getFlightPlan_run {s : Server} {user : Ptr} {a : Aircraft}
    (h : (s.heap user).asAircraft = some a) :
    (getFlightPlan user).run s = .ok a.flightPlan s := by
  simp [getFlightPlan, getAircraft_run h]

theorem getFlightPlan_run_of_none {s : Server} {user : Ptr}
    (h : (s.heap user).asAircraft = none) :
    (getFlightPlan user).run s = .error (.thrown .badCast) s := by
  simp [getFlightPlan, getAircraft, h]

theorem sendFlightPlanCycle_run {s : Server} {user : Ptr} {a : Aircraft} {plan : FlightPlan}
    (h : (s.heap user).asAircraft = some a) (hplan : a.flightPlan = some plan) (recipient : Ptr) :
    (Server.sendFlightPlanCycle recipient user).run s =
      .ok () (s.push recipient (.flightPlanCycle user (s.heap user) plan)) := by
  simp [Server.sendFlightPlanCycle, getFlightPlan_run h, hplan]

theorem createClient_run (client : Ptr) : (createClient user client).run s =
    .ok () (s.push user (.createClient client (s.heap client))) := rfl

theorem deleteClient_run (client : Ptr) : (deleteClient user client).run s =
    .ok () (s.push user (.deleteClient client (s.heap client))) := rfl

theorem sendScript_run {script : ClientScript} (h : script.castable = true) (other : Ptr) :
    (sendScript user other script).run s =
      .ok () (s.push user (.script other (s.heap other) script)) := by
  rw [sendScript, run_bind_of_ok (getUser_run s other), if_pos h]
  rfl

theorem sendScript_stops {script : ClientScript} (h : ¬ script.castable = true) (other : Ptr) :
    (sendScript user other script).run s = .error (.thrown .badAnyCast) s := by
  rw [sendScript, run_bind_of_ok (getUser_run s other), if_neg h]
  rfl

theorem lowerInterval_run (reqInterval : ℤ) :
    (lowerInterval user reqInterval).run s =
      .ok () (if (s.heap user).updateInterval > reqInterval then
        (s.modifyUser user fun u => { u with updateInterval := reqInterval }).push user
          (.timeChange reqInterval)
      else s) := by
  by_cases h : (s.heap user).updateInterval > reqInterval
  · simp [lowerInterval, sendTimeChange, h]
  · simp [lowerInterval, h]

/-- Asking for the order of the local users takes a tick; then a changed interval is told. -/
theorem adjustTime_run (env : Environment) : ∃ time, (adjustTime env user).run s =
    .ok () (if time ≠ (s.heap user).updateInterval then
      (({ s with ticks := s.ticks + 1 } : Server).modifyUser user fun u =>
        { u with updateInterval := time }).push user (.timeChange time)
    else { s with ticks := s.ticks + 1 }) := by
  let order := env.arrange s.ticks (s.heap user).localUsers.keys
  let time := tightest (order.map fun other =>
    (s.heap other).getRequestedInterval (s.heap user).getType)
  refine ⟨time, ?_⟩
  have hrun : (adjustTime env user).run s = (if time ≠ (s.heap user).updateInterval then (do
      updateUser user fun u => { u with updateInterval := time }
      sendTimeChange user time) else return : ServerM Unit).run
        { s with ticks := s.ticks + 1 } := rfl
  rw [hrun]
  split <;> rfl

end Runs

/-- Forgetting a socket touches no user, no message and not the registry. -/
theorem removeClientSocket_run (s : Server) (clientSocket : Socket) (close : Bool) :
    ∃ t, (removeClientSocket clientSocket close).run s = .ok () t ∧ t.heap = s.heap ∧
      t.next = s.next ∧ t.clientManager = s.clientManager ∧ t.sent = s.sent := by
  by_cases hmem : clientSocket ∈ s.clientSockets
  · cases close with
    | false =>
      refine ⟨{ s with
        byteData := s.byteData.erase clientSocket
        clientSockets := s.clientSockets.erase clientSocket }, ?_, rfl, rfl, rfl, rfl⟩
      simp [removeClientSocket, removeClientData, hmem]
    | true =>
      refine ⟨{ s with
        byteData := s.byteData.erase clientSocket
        clientSockets := s.clientSockets.erase clientSocket
        closedSockets := s.closedSockets ++ [clientSocket] }, ?_, rfl, rfl, rfl, rfl⟩
      simp [removeClientSocket, removeClientData, closesocket, hmem]
  · refine ⟨{ s with byteData := s.byteData.erase clientSocket }, ?_, rfl, rfl, rfl, rfl⟩
    simp [removeClientSocket, removeClientData, hmem]

section Kinds

variable {p : Sent → Prop}

theorem sends_send {user : Ptr} {message : Outgoing} (h : p ⟨user, message⟩) :
    Keeps (Sends p) (send user message) :=
  fun _ => ⟨rfl, rfl, rfl, [⟨user, message⟩], rfl, by simpa using h⟩

theorem sends_getUser (user : Ptr) : Keeps (Sends p) (getUser user) := fun s => .refl s

theorem sends_createClient {user client : Ptr} (h : ∀ c, p ⟨user, .createClient client c⟩) :
    Keeps (Sends p) (createClient user client) :=
  .bind (sends_getUser client) fun c => sends_send (h c)

theorem sends_deleteClient {user client : Ptr} (h : ∀ c, p ⟨user, .deleteClient client c⟩) :
    Keeps (Sends p) (deleteClient user client) :=
  .bind (sends_getUser client) fun c => sends_send (h c)

theorem sends_getAircraft (user : Ptr) : Keeps (Sends p) (getAircraft user) := by
  refine .bind (sends_getUser user) fun u => ?_
  cases u.asAircraft with
  | none => exact .throw _
  | some aircraft => exact .pure aircraft

theorem sends_getFlightPlan (user : Ptr) : Keeps (Sends p) (getFlightPlan user) :=
  .bind (sends_getAircraft user) fun aircraft => .pure aircraft.flightPlan

theorem sends_sendFlightPlanCycle {user sender : Ptr}
    (h : ∀ f plan, p ⟨user, .flightPlanCycle sender f plan⟩) :
    Keeps (Sends p) (sendFlightPlanCycle user sender) := by
  refine .bind (sends_getUser sender) fun f => .bind (sends_getFlightPlan sender) fun plan => ?_
  cases plan with
  | none => exact .throw _
  | some plan => exact sends_send (h f plan)

theorem sends_createFlightPlan {user client : Ptr}
    (h : ∀ f plan, p ⟨user, .flightPlanCycle client f plan⟩) :
    Keeps (Sends p) (createFlightPlan user client) := by
  refine .bind (sends_getUser client) fun c => ?_
  split
  · refine .bind (sends_getFlightPlan client) fun plan => ?_
    cases plan with
    | none => exact .pure ()
    | some plan =>
      dsimp only
      split
      · exact sends_sendFlightPlanCycle h
      · exact .pure ()
  · exact .pure ()

theorem sends_sendScript {user other : Ptr} {script : ClientScript}
    (h : ∀ o, p ⟨user, .script other o script⟩) :
    Keeps (Sends p) (sendScript user other script) := by
  refine .bind (sends_getUser other) fun o => ?_
  split
  · exact sends_send (h o)
  · exact .throw _

theorem sends_sendRemoveScript {user other : Ptr} {idx : ℤ}
    (h : ∀ o, p ⟨user, .removeScript other o idx⟩) :
    Keeps (Sends p) (sendRemoveScript user other idx) :=
  .bind (sends_getUser other) fun o => sends_send (h o)

theorem sends_sendScripts {user other : Ptr} (h : ∀ o script, p ⟨user, .script other o script⟩) :
    Keeps (Sends p) (sendScripts user other) := by
  refine .bind (sends_getUser other) fun u => .forM fun script _ => ?_
  cases script with
  | none => exact .throw _
  | some script => exact sends_sendScript fun o => h o script

theorem sends_sendRemoveScripts {user other : Ptr}
    (h : ∀ o idx, p ⟨user, .removeScript other o idx⟩) :
    Keeps (Sends p) (sendRemoveScripts user other) := by
  refine .bind (sends_getUser other) fun u => .forM fun script _ => ?_
  cases script with
  | none => exact .throw _
  | some script => exact sends_sendRemoveScript fun o => h o script.idx

theorem sends_sendPosUpdate {updatedUser aboutUser : Ptr}
    (haircraft : ∀ a aircraft, p ⟨updatedUser, .pilotUpdate aboutUser a aircraft⟩)
    (hcontroller : ∀ a, p ⟨updatedUser, .controllerUpdate aboutUser a⟩) :
    Keeps (Sends p) (sendPosUpdate updatedUser aboutUser) := by
  refine .bind (sends_getUser aboutUser) fun a => ?_
  cases a.derived with
  | aircraft aircraft => exact sends_send (haircraft a aircraft)
  | controller c => exact sends_send (hcontroller a)

end Kinds

section Loops

variable {R : Server → Server → Prop} [Std.Refl R] [IsTrans Server R] {env : Environment}

/-- A loop keeps what its body keeps, when asking for the order keeps it too. -/
theorem keeps_iterateUsers {func : Ptr → ServerM Unit} (hticks : ∀ s n, R s { s with ticks := n })
    (hfunc : ∀ user, Keeps R (func user)) : Keeps R (iterateUsers env func) :=
  .bind .get fun _ => .bind (fun t => hticks t _) fun _ => .forM fun user _ => hfunc user

theorem keeps_iterateLocalUsers {user : Ptr} {func : Ptr → ServerM Unit}
    (hticks : ∀ s n, R s { s with ticks := n }) (hfunc : ∀ other, Keeps R (func other)) :
    Keeps R (iterateLocalUsers env user func) :=
  .bind (fun s => Std.Refl.refl s) fun _ => .bind (fun t => hticks t _) fun _ =>
    .forM fun other _ => hfunc other

end Loops

/-- The messages that go with a user coming into sight or going out of it. -/
def isSighting : Outgoing → Bool
  | .createClient _ _ | .deleteClient _ _ | .flightPlanCycle _ _ _ | .script _ _ _
  | .removeScript _ _ _ => true
  | _ => false

section Sightings

variable {R : Server → Server → Prop} [Std.Refl R] [IsTrans Server R] {env : Environment}
  {user other : Ptr}
  (hsends : ∀ s t, Sends (fun e => isSighting e.message = true) s t → R s t)

include hsends

/-- The loops that send such messages keep a relation that these and the changes of the users
keep. -/
theorem keeps_visitUser_of (hlower : ∀ x, Keeps R (lowerInterval other x))
    (hadjust : Keeps R (adjustTime env other)) (hemplace : Keeps R (emplaceLocalUser user other))
    (herase : Keeps R (eraseLocalUser user other)) (location : Location) :
    Keeps R (visitUser env user location other) := by
  have hget (v : Ptr) : Keeps R (getUser v) := fun s => Std.Refl.refl s
  have hcontains : Keeps R (containsUser user other) := fun s => Std.Refl.refl s
  have hstart : Keeps R (startSeeing user other) := by
    refine .bind (hget user) fun u => .bind (hget other) fun u2 => .bind (hlower _) fun _ => ?_
    refine .bind ((sends_createClient fun _ => rfl).mono hsends) fun _ => ?_
    refine .bind ((sends_createFlightPlan fun _ _ => rfl).mono hsends) fun _ => ?_
    exact .bind ((sends_sendScripts fun _ _ => rfl).mono hsends) fun _ => hemplace
  have hstop : Keeps R (stopSeeing env user other) := by
    refine .bind ((sends_deleteClient fun _ => rfl).mono hsends) fun _ => ?_
    refine .bind ((sends_sendRemoveScripts fun _ _ => rfl).mono hsends) fun _ => ?_
    exact .bind herase fun _ => hadjust
  unfold visitUser
  split
  · refine .bind (hget other) fun u2 => .bind (hget user) fun u => .bind hcontains fun seen => ?_
    split
    · exact hstart
    · refine .bind hcontains fun seen => ?_
      split
      · exact hstop
      · exact .pure ()
  · exact .pure ()

theorem keeps_updateOnlyQueues_of (hticks : ∀ s n, R s { s with ticks := n })
    (hdequeue : Keeps R (updateUser user fun u =>
      { u with updateOnlyQueues := Function.update u.updateOnlyQueues 0 false })) :
    Keeps R (updateOnlyQueues env user) := by
  refine .bind (fun s => Std.Refl.refl s) fun u => ?_
  split
  · refine .bind ((sends_getFlightPlan user).mono hsends) fun plan => ?_
    cases plan with
    | none => exact .throw _
    | some fp =>
      refine .bind (keeps_iterateLocalUsers hticks fun other => ?_) fun _ => hdequeue
      refine .bind (fun s => Std.Refl.refl s) fun o => ?_
      split
      · exact (sends_sendFlightPlanCycle fun _ _ => rfl).mono hsends
      · exact .pure ()
  · exact .pure ()

end Sightings

end Win64Server.Server
