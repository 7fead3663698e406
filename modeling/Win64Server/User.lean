import Win64Server.Cxx
import Mathlib.Data.List.AList
import Mathlib.Data.List.Sort

/-!
Users as the server keeps them: the members of `User` and of its two subclasses, the scripts a
user has registered, and the constants of the protocol. User objects are shared by pointer, so a
set of local users holds addresses; `Storage` is what the members without an initialiser find in
the memory a new object is placed in.
-/
namespace Win64Server

abbrev Socket := ℕ

/-- The address a `shared_ptr<User>` holds. -/
abbrev Ptr := ℕ

-- The lengths of the fixed arrays of a user, whose indices are written as literals.
instance neZero_two : NeZero (2 : ℕ) := ⟨two_ne_zero⟩

instance neZero_four : NeZero (4 : ℕ) := ⟨four_ne_zero⟩

/-- `enum AV_CLIENT`, with its values. -/
inductive AvClient
  | controller
  | pilot
deriving DecidableEq

def AvClient.toInt : AvClient → ℤ
  | controller => 0
  | pilot => 1

/-- `AV_CLIENT` of a client type byte, for the values that have an enumerator. -/
def AvClient.ofInt : ℤ → Option AvClient
  | 0 => some controller
  | 1 => some pilot
  | _ => none

/-- `UPDATE_TIMES::DEFAULT`. -/
def defaultUpdateTime : ℤ := 2000

def protoVersion : ℤ := 32698

abbrev typeIntervals : ℕ := 10

/-- The length of a local user's attribute vector, `NUM_ATT`. -/
abbrev numAtt : ℕ := 2

/-- The `void*` slots kept for one local user; zero is the null pointer. -/
abbrev Attributes := Fin numAtt → ℤ

def lastPosUpdate : Fin numAtt := 0

/-- The value in a `std::any`; a `const char*` is kept as the offset it had in its buffer. -/
inductive AnyValue
  | none
  | int (x : ℤ)
  | longLong (x : ℤ)
  | constCharPtr (pointer : ℕ)
  | string (s : CxxString)
deriving DecidableEq

structure ClientScript where
  idx : ℤ
  assembly : CxxString
  objects : List AnyValue
deriving DecidableEq

namespace ClientScript

/-- The dynamic type `send_script` casts the slot of a format character to. -/
def castSucceeds (c : UInt8) : AnyValue → Bool
  | .string _ => c = 's'.toUInt8
  | .longLong _ => c = 'l'.toUInt8
  | .int _ => c ≠ 's'.toUInt8 && c ≠ 'l'.toUInt8
  | _ => false

/-- The format characters from the last to the first, each with the slot one place up, and then
slot zero, which is cast to `int` like the slot of any other character. -/
def slots (script : ClientScript) : List (UInt8 × AnyValue) :=
  (script.assembly.zip (script.objects.drop 1)).reverse ++ [(0, script.objects.getD 0 .none)]

/-- Every `any_cast` of `send_script` finds the type it asks for. -/
def castable (script : ClientScript) : Bool :=
  script.slots.all fun (c, object) => castSucceeds c object

end ClientScript

/-- Script slots: the array, the queue of free slots and the ordered set of used ones. -/
structure ScriptIndex where
  scripts : ℕ → Option ClientScript
  availableIndices : List ℕ
  usedIndices : List ℕ

namespace ScriptIndex

def size : ℕ := 1024

def init : ScriptIndex where
  scripts := fun _ => none
  availableIndices := List.range size
  usedIndices := []

/-- `addScript` puts the script into the next free slot and writes the slot number into it. -/
def addScript (index : ScriptIndex) (script : ClientScript) :
    Except Exception (ScriptIndex × ClientScript) :=
  match index.availableIndices with
  | idx :: rest =>
    let placed := { script with idx := idx }
    .ok ({ scripts := Function.update index.scripts idx (some placed)
           availableIndices := rest
           usedIndices := if idx ∈ index.usedIndices then index.usedIndices
             else index.usedIndices.orderedInsert (· ≤ ·) idx }, placed)
  | [] => .error (.runtimeError "No free space available")

def deleteScript (index : ScriptIndex) (idx : ℤ) : Except Exception ScriptIndex :=
  if 0 ≤ idx ∧ idx < size then
    .ok { scripts := Function.update index.scripts idx.toNat none
          availableIndices := index.availableIndices ++ [idx.toNat]
          usedIndices := index.usedIndices.erase idx.toNat }
  else
    .error (.outOfRange "Index out of range")

def getScript (index : ScriptIndex) (idx : ℤ) : Except Exception (Option ClientScript) :=
  if 0 ≤ idx ∧ idx < size then .ok (index.scripts idx.toNat)
  else .error (.outOfRange "Index out of range")

def getAllScripts (index : ScriptIndex) : List (Option ClientScript) :=
  index.usedIndices.map index.scripts

end ScriptIndex

structure FlightPlan where
  departure : CxxString
  arrival : CxxString
  alternate : CxxString
  squawkCode : CxxString
  acType : CxxString
  scratchPad : CxxString
  cruise : CxxString
  route : CxxString
  remarks : CxxString
  flightRules : ℤ
  cycle : ℤ
deriving DecidableEq

structure State where
  heading : ℚ
  roll : ℚ
  pitch : ℚ
  groundSpeed : ℤ
  altitude : Double
deriving DecidableEq

structure Aircraft where
  pilotRating : ℤ
  transponder : CxxString
  acfTitle : CxxString
  state : State
  mode : ℤ
  heavy : Bool
  flightPlan : Option FlightPlan
deriving DecidableEq

structure Controller where
  controllerRating : ℤ
  controllerPosition : ℤ
deriving DecidableEq

/-- The subclass an object was created as. -/
inductive Derived
  | controller (c : Controller)
  | aircraft (a : Aircraft)
deriving DecidableEq

structure Location where
  latitude : Double
  longitude : Double
deriving DecidableEq

structure Identity where
  callsign : CxxString
  loginName : CxxString
  password : CxxString
  username : CxxString
deriving DecidableEq

/-- `initial_user` picks the subclass by the value that `setType` stores right after, so the
type is read off the subclass and a cast that follows a test of the type succeeds. -/
structure User where
  updateOnlyQueues : Fin 4 → Bool
  frequencies : Fin 2 → ℤ
  localUsers : AList (fun _ : Ptr => Attributes)
  socket : Socket
  identity : Identity
  location : Location
  scripts : ScriptIndex
  index : ℤ
  id : ℤ
  visibilityRange : ℤ
  requestTime : Fin typeIntervals → ℤ
  updateInterval : ℤ
  lastPositionUpdate : ℤ
  updateRequired : Bool
  triggerUpdate : Bool
  valid : Bool
  derived : Derived

/-- What the members without an initialiser hold when their object is created. -/
structure Storage where
  requestTime : Fin typeIntervals → ℤ
  updateInterval : ℤ
  lastPositionUpdate : ℤ
  updateRequired : Bool
  triggerUpdate : Bool
  state : State
  mode : ℤ
  flightPlan : Option FlightPlan
  flightRules : ℤ
  cycle : ℤ

/-- Memory that happens to be zero. -/
def Storage.zeroed : Storage where
  requestTime := fun _ => 0
  updateInterval := 0
  lastPositionUpdate := 0
  updateRequired := false
  triggerUpdate := false
  state := ⟨0, 0, 0, 0, ⟨0⟩⟩
  mode := 0
  flightPlan := none
  flightRules := 0
  cycle := 0

namespace User

def getType (u : User) : AvClient :=
  match u.derived with
  | .controller _ => .controller
  | .aircraft _ => .pilot

/-- `dynamic_cast<Aircraft*>`. -/
def asAircraft (u : User) : Option Aircraft :=
  match u.derived with
  | .aircraft a => some a
  | .controller _ => none

/-- `User::User` together with the constructor of the subclass. -/
def construct (storage : Storage) (clientSocket : Socket) (id : ℤ) (derived : Derived) : User where
  updateOnlyQueues := fun _ => false
  frequencies := fun _ => 99998
  localUsers := ∅
  socket := clientSocket
  identity := ⟨[], [], [], []⟩
  location := ⟨⟨0⟩, ⟨0⟩⟩
  scripts := .init
  index := -1
  id := id
  visibilityRange := 300
  requestTime := storage.requestTime
  updateInterval := storage.updateInterval
  lastPositionUpdate := storage.lastPositionUpdate
  updateRequired := storage.updateRequired
  triggerUpdate := storage.triggerUpdate
  valid := true
  derived := derived

/-- Both parameters shadow the member they are named after, so the two setters store nothing. -/
def setUpdateRequired (u : User) (_updateRequired : Bool) : User := u

def setTriggerUpdate (u : User) (_triggerUpdate : Bool) : User := u

def getRequestedInterval (u : User) (type : AvClient) : ℤ :=
  match type with
  | .controller => u.requestTime 0
  | .pilot => u.requestTime 1

/-- `setRequestedInterval` for a type inside the array; there is no check in the source, and a
store outside the array has no defined result. -/
def setRequestedInterval (u : User) (type : ℕ) (request : ℤ) : Option User :=
  if h : type < typeIntervals then
    some { u with requestTime := Function.update u.requestTime ⟨type, h⟩ request }
  else none

/-- A change to the subclass part of an aircraft. -/
def modifyAircraft (u : User) (f : Aircraft → Aircraft) : User :=
  match u.derived with
  | .aircraft a => { u with derived := .aircraft (f a) }
  | .controller _ => u

end User

namespace Aircraft

def construct (storage : Storage) : Aircraft where
  pilotRating := 0
  transponder := []
  acfTitle := []
  state := storage.state
  mode := storage.mode
  heavy := false
  flightPlan := storage.flightPlan

/-- `createFlightPlan`: `FlightPlan()` sets the strings and leaves the two numbers. -/
def createFlightPlan (storage : Storage) (a : Aircraft) : Aircraft :=
  let plan : FlightPlan :=
    { departure := [], arrival := [], alternate := [], squawkCode := [], acType := []
      scratchPad := [], cruise := [], route := [], remarks := []
      flightRules := storage.flightRules, cycle := storage.cycle }
  { a with flightPlan := some plan }

end Aircraft

section Subclasses

variable {u : User} {a : Aircraft} {x : Controller}

theorem asAircraft_of_derived (h : u.derived = .aircraft a) : u.asAircraft = some a := by
  rw [User.asAircraft, h]

theorem asAircraft_of_controller (h : u.derived = .controller x) : u.asAircraft = none := by
  rw [User.asAircraft, h]

theorem derived_of_asAircraft (h : u.asAircraft = some a) : u.derived = .aircraft a := by
  unfold User.asAircraft at h
  split at h
  · next a' ha => rw [ha, Option.some.inj h]
  · cases h

theorem derived_of_none (h : u.asAircraft = none) : ∃ x, u.derived = .controller x := by
  unfold User.asAircraft at h
  split at h
  · cases h
  · next x hx => exact ⟨x, hx⟩

theorem derived_of_pilot (h : u.getType = .pilot) : ∃ a, u.derived = .aircraft a := by
  unfold User.getType at h
  split at h
  · cases h
  · next a ha => exact ⟨a, ha⟩

theorem getType_of_asAircraft (h : u.asAircraft = some a) : u.getType = .pilot := by
  rw [User.getType, derived_of_asAircraft h]

theorem getType_of_none (h : u.asAircraft = none) : u.getType ≠ .pilot := by
  obtain ⟨x, hx⟩ := derived_of_none h
  rw [User.getType, hx]
  exact AvClient.noConfusion

theorem modifyAircraft_aircraft (h : u.derived = .aircraft a) (f : Aircraft → Aircraft) :
    u.modifyAircraft f = { u with derived := .aircraft (f a) } := by
  rw [User.modifyAircraft, h]

theorem modifyAircraft_controller (h : u.derived = .controller x) (f : Aircraft → Aircraft) :
    u.modifyAircraft f = u := by
  rw [User.modifyAircraft, h]

/-- What does not look at the subclass part stays. -/
theorem modifyAircraft_frame {α : Type} (g : User → α)
    (hg : ∀ u d, g { u with derived := d } = g u) (u : User) (f : Aircraft → Aircraft) :
    g (u.modifyAircraft f) = g u := by
  unfold User.modifyAircraft
  split
  · exact hg u _
  · rfl

theorem modifyAircraft_localUsers (u : User) (f : Aircraft → Aircraft) :
    (u.modifyAircraft f).localUsers = u.localUsers :=
  modifyAircraft_frame User.localUsers (fun _ _ => rfl) u f

theorem modifyAircraft_stamp (u : User) (f : Aircraft → Aircraft) :
    (u.modifyAircraft f).lastPositionUpdate = u.lastPositionUpdate :=
  modifyAircraft_frame User.lastPositionUpdate (fun _ _ => rfl) u f

end Subclasses

end Win64Server
