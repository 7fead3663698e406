import Win64Server.ClientManager
import Win64Server.OutgoingPackets

/-!
The state of the server: the user objects, the registry, the tables of sockets, and the messages
sent so far. What the program takes from outside itself, the iteration order of its hash maps,
the distance function and the clock, is an `Environment` that is asked anew at every use.
-/
namespace Win64Server

open Outcome

structure Sent where
  recipient : Ptr
  message : Outgoing

/-- `heap` and `next` are the user objects allocated so far, `ticks` counts the questions put to
the environment. -/
structure Server where
  heap : Ptr → User
  next : Ptr
  storage : Ptr → Storage
  clientManager : ClientManager
  clientSockets : List Socket
  byteData : AList (fun _ : Socket => BasicStream)
  lastPacketReceived : AList (fun _ : Socket => ℤ)
  closedSockets : List Socket
  sent : List Sent
  ticks : ℕ

abbrev ServerM := EStateM Fault Server

/-- `arrange` is the order in which a loop meets the elements of a hash map, `dist` the value of
the floating-point distance with `none` for NaN, `clock` the time of day in milliseconds. -/
structure Environment where
  arrange : ℕ → List Ptr → List Ptr
  arrange_perm : ∀ n l, (arrange n l).Perm l
  dist : Location → Location → Option ℚ
  clock : ℕ → ℤ

/-- Loops in the order of the entries and a clock that stands still. -/
def Environment.orderly (dist : Location → Location → Option ℚ) : Environment where
  arrange _ users := users
  arrange_perm _ users := .refl users
  dist := dist
  clock _ := 0

namespace Server

/-- A server before its first connection. -/
def initial (storage : Ptr → Storage) : Server where
  heap := fun p => .construct (storage p) 0 0 (.controller ⟨0, 0⟩)
  next := 0
  storage := storage
  clientManager := .construct maxClients
  clientSockets := []
  byteData := ∅
  lastPacketReceived := ∅
  closedSockets := []
  sent := []
  ticks := 0

def modifyUser (s : Server) (user : Ptr) (f : User → User) : Server :=
  { s with heap := Function.update s.heap user (f (s.heap user)) }

def push (s : Server) (recipient : Ptr) (message : Outgoing) : Server :=
  { s with sent := s.sent ++ [⟨recipient, message⟩] }

section Fields

variable (s : Server) (user other : Ptr) (f : User → User) (message : Outgoing)

@[simp] theorem modifyUser_heap_self : (s.modifyUser user f).heap user = f (s.heap user) := by
  simp [modifyUser]

theorem modifyUser_heap_ne (h : other ≠ user) :
    (s.modifyUser user f).heap other = s.heap other := by
  simp [modifyUser, h]

variable {s user f} in
/-- What a change keeps of the changed user, it keeps of everyone. -/
theorem modifyUser_frame {α : Type} {g : User → α} (h : g (f (s.heap user)) = g (s.heap user))
    (other : Ptr) : g ((s.modifyUser user f).heap other) = g (s.heap other) := by
  by_cases hother : other = user
  · rw [hother, modifyUser_heap_self, h]
  · rw [modifyUser_heap_ne _ _ _ _ hother]

@[simp] theorem modifyUser_clientManager :
    (s.modifyUser user f).clientManager = s.clientManager := rfl

@[simp] theorem modifyUser_sent : (s.modifyUser user f).sent = s.sent := rfl

@[simp] theorem modifyUser_next : (s.modifyUser user f).next = s.next := rfl

@[simp] theorem push_heap : (s.push user message).heap = s.heap := rfl

@[simp] theorem push_clientManager : (s.push user message).clientManager = s.clientManager := rfl

@[simp] theorem push_sent : (s.push user message).sent = s.sent ++ [⟨user, message⟩] := rfl

@[simp] theorem push_next : (s.push user message).next = s.next := rfl

end Fields

def getUser (user : Ptr) : ServerM User := do
  let s ← get
  return s.heap user

def updateUser (user : Ptr) (f : User → User) : ServerM Unit :=
  modify fun s => s.modifyUser user f

/-- A message is built, written to the recipient's socket and remembered. Whether its builder
stays inside its stream is a question about the builder alone. -/
def send (recipient : Ptr) (message : Outgoing) : ServerM Unit :=
  modify fun s => s.push recipient message

/-- Asks for the order of a loop. -/
def arranged (env : Environment) (users : List Ptr) : ServerM (List Ptr) := do
  let s ← get
  set { s with ticks := s.ticks + 1 }
  return env.arrange s.ticks users

def readClock (env : Environment) : ServerM ℤ := do
  let s ← get
  set { s with ticks := s.ticks + 1 }
  return env.clock s.ticks

def iterateLocalUsers (env : Environment) (user : Ptr) (func : Ptr → ServerM Unit) :
    ServerM Unit := do
  let u ← getUser user
  (← arranged env u.localUsers.keys).forM func

def iterateUsers (env : Environment) (func : Ptr → ServerM Unit) : ServerM Unit := do
  let s ← get
  (← arranged env s.clientManager.users).forM func

def createClient (user client : Ptr) : ServerM Unit := do
  let c ← getUser client
  send user (.createClient client c)

def deleteClient (user client : Ptr) : ServerM Unit := do
  let c ← getUser client
  send user (.deleteClient client c)

def sendTimeChange (user : Ptr) (time : ℤ) : ServerM Unit := send user (.timeChange time)

/-- `dynamic_cast<Aircraft&>(*user)`. -/
def getAircraft (user : Ptr) : ServerM Aircraft := do
  let u ← getUser user
  match u.asAircraft with
  | some aircraft => return aircraft
  | none => throw (.thrown .badCast)

/-- The plan of a user that the caller has found to be a pilot. -/
def getFlightPlan (user : Ptr) : ServerM (Option FlightPlan) := do
  let aircraft ← getAircraft user
  return aircraft.flightPlan

def sendFlightPlanCycle (user sender : Ptr) : ServerM Unit := do
  let f ← getUser sender
  match ← getFlightPlan sender with
  | some plan => send user (.flightPlanCycle sender f plan)
  | none => throw (.undefined .nullPlan)

def createFlightPlan (user client : Ptr) : ServerM Unit := do
  let c ← getUser client
  if c.getType = .pilot then
    match ← getFlightPlan client with
    | some plan => if plan.cycle ≠ 0 then sendFlightPlanCycle user client
    | none => return

def sendClientTransponder (user other : Ptr) (aircraft : Aircraft) : ServerM Unit := do
  let o ← getUser other
  send user (.clientTransponder other o aircraft)

def sendClientModeChange (user other : Ptr) (aircraft : Aircraft) : ServerM Unit := do
  let o ← getUser other
  send user (.clientModeChange other o aircraft)

def sendPrimFreq (user other : Ptr) : ServerM Unit := do
  let o ← getUser other
  send user (.primFreq other o)

def sendMessage (user sender : Ptr) (frequency : ℤ) (message : CxxString) (asel : Bool) :
    ServerM Unit := do
  let f ← getUser sender
  send user (.message sender f frequency message asel)

/-- A failing `any_cast` leaves `send_script` before anything is written. -/
def sendScript (user other : Ptr) (script : ClientScript) : ServerM Unit := do
  let o ← getUser other
  if script.castable then
    send user (.script other o script)
  else
    throw (.thrown .badAnyCast)

def sendRemoveScript (user other : Ptr) (idx : ℤ) : ServerM Unit := do
  let o ← getUser other
  send user (.removeScript other o idx)

/-- `User::registerScript`: the script is stored before anyone is told. -/
def registerScript (env : Environment) (user : Ptr) (script : ClientScript) : ServerM Unit := do
  let u ← getUser user
  match u.scripts.addScript script with
  | .error e => throw (.thrown e)
  | .ok (scripts, placed) =>
    updateUser user fun u => { u with scripts := scripts }
    sendScript user user placed
    iterateLocalUsers env user fun other => sendScript other user placed

def unregisterScript (env : Environment) (user : Ptr) (script : ClientScript) : ServerM Unit := do
  let u ← getUser user
  match u.scripts.deleteScript script.idx with
  | .error e => throw (.thrown e)
  | .ok scripts =>
    updateUser user fun u => { u with scripts := scripts }
    sendRemoveScript user user script.idx
    iterateLocalUsers env user fun other => sendRemoveScript other user script.idx

/-- The interval a user gets from the requests of its local users, in the order they are met;
the default value doubles as the mark for none seen so far. -/
def tightest (requests : List ℤ) : ℤ :=
  requests.foldl (fun lastTime request =>
    if lastTime = defaultUpdateTime ∨ request < lastTime then request else lastTime)
    defaultUpdateTime

def adjustTime (env : Environment) (user : Ptr) : ServerM Unit := do
  let u ← getUser user
  let order ← arranged env u.localUsers.keys
  let s ← get
  let lastTime := tightest (order.map fun other => (s.heap other).getRequestedInterval u.getType)
  if lastTime ≠ u.updateInterval then
    updateUser user fun u => { u with updateInterval := lastTime }
    sendTimeChange user lastTime

def closesocket (clientSocket : Socket) : ServerM Unit :=
  modify fun s => { s with closedSockets := s.closedSockets ++ [clientSocket] }

def removeClientData (clientSocket : Socket) : ServerM Unit :=
  modify fun s => { s with byteData := s.byteData.erase clientSocket }

def removeClientSocket (clientSocket : Socket) (close : Bool) : ServerM Unit := do
  removeClientData clientSocket
  let s ← get
  if clientSocket ∈ s.clientSockets then
    set { s with clientSockets := s.clientSockets.erase clientSocket }
    if close then closesocket clientSocket

end Server

end Win64Server
