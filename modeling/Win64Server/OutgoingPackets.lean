import Win64Server.BasicStream
import Win64Server.User
import Mathlib.Data.Rat.Floor

/-!
The messages the server sends and the builder of each. A builder runs in a fresh stream whose
size it fixes beforehand; what it leaves in front of the index is handed to `write`. A message
records the objects its builder reads as they are when it is built.
-/
namespace Win64Server

open BasicStream

/-- One call of a function of `outgoing_packets.cpp`, or one of the two handshake replies.
`about` is the user object a message speaks of. -/
inductive Outgoing
  | serverMessage (message : CxxString)
  | wx (weather : CxxString)
  | createClient (about : Ptr) (client : User)
  | timeChange (time : ℤ)
  | privateMessage (sender message : CxxString)
  | deleteClient (about : Ptr) (client : User)
  | ping
  | pilotUpdate (about : Ptr) (other : User) (aircraft : Aircraft)
  | message (about : Ptr) (sender : User) (frequency : ℤ) (message : CxxString) (asel : Bool)
  | clientModeChange (about : Ptr) (other : User) (aircraft : Aircraft)
  | flightPlanCycle (about : Ptr) (sender : User) (plan : FlightPlan)
  | controllerUpdate (about : Ptr) (other : User)
  | clientTransponder (about : Ptr) (other : User) (aircraft : Aircraft)
  | primFreq (about : Ptr) (other : User)
  | script (about : Ptr) (other : User) (script : ClientScript)
  | removeScript (about : Ptr) (other : User) (idx : ℤ)
  | handshakeAccepted (response index updateInterval : ℤ)
  | handshakeRejected (response : ℤ)

/-- The user object a message is about. -/
def Outgoing.about : Outgoing → Option Ptr
  | .createClient about _ | .deleteClient about _ | .pilotUpdate about _ _
  | .message about _ _ _ _ | .clientModeChange about _ _ | .flightPlanCycle about _ _
  | .controllerUpdate about _ | .clientTransponder about _ _ | .primFreq about _
  | .script about _ _ | .removeScript about _ _ => some about
  | .serverMessage _ | .wx _ | .timeChange _ | .privateMessage _ _ | .ping
  | .handshakeAccepted _ _ _ | .handshakeRejected _ => none

/-- `static_cast<int>` of a double: the part in front of the point. -/
def truncate (q : ℚ) : ℤ := q.num.tdiv q.den

/-- The three angles in one word, in 32-bit arithmetic. -/
def orientationWord (state : State) : ℤ :=
  toInt32 (toInt32 (toInt32 (truncate (state.pitch * 1024 / -360) * 2 ^ 22)
    + toInt32 (truncate (state.roll * 1024 / -360) * 2 ^ 12))
    + toInt32 (truncate (state.heading * 1024 / 360) * 2 ^ 2))

/-- `getMode() << 4 | (isHeavy() ? 1 : 0)`. -/
def modeByte (aircraft : Aircraft) : ℤ := aircraft.mode * 16 + if aircraft.heavy then 1 else 0

def sendServerMessage (message : CxxString) : StreamM Unit := do
  createFrameVarSize 7
  writeString message
  endFrameVarSize

def sendWx (weather : CxxString) : StreamM Unit := do
  createFrameVarSize 8
  writeString weather
  endFrameVarSize

def createClient (client : User) : StreamM Unit := do
  createFrameVarSizeWord 9
  writeShort client.index
  writeByte client.getType.toInt
  writeString client.identity.callsign
  writeString client.identity.username
  writeString client.identity.loginName
  writeShort client.visibilityRange
  writeQWord (doubleToRawBits client.location.latitude)
  writeQWord (doubleToRawBits client.location.longitude)
  match client.derived with
  | .controller controller =>
    writeByte controller.controllerRating
    writeByte controller.controllerPosition
    write3Byte (client.frequencies 0)
  | .aircraft aircraft =>
    writeString aircraft.acfTitle
    writeString aircraft.transponder
    writeByte (modeByte aircraft)
    writeQWord (orientationWord aircraft.state)
  endFrameVarSizeWord

def sendTimeChange (time : ℤ) : StreamM Unit := do
  createFrame 10
  writeQWord time

def sendPrivateMessage (sender message : CxxString) : StreamM Unit := do
  createFrameVarSizeWord 11
  writeString sender
  writeString message
  endFrameVarSizeWord

def deleteClient (client : User) : StreamM Unit := do
  createFrame 12
  writeShort client.index

def sendPing : StreamM Unit := createFrame 13

def sendPilotUpdate (other : User) (aircraft : Aircraft) : StreamM Unit := do
  createFrame 14
  writeShort other.index
  writeQWord (doubleToRawBits other.location.latitude)
  writeQWord (doubleToRawBits other.location.longitude)
  writeQWord (orientationWord aircraft.state)
  writeShort aircraft.state.groundSpeed
  writeQWord (doubleToRawBits aircraft.state.altitude)

def sendMessage (sender : User) (frequency : ℤ) (message : CxxString) (asel : Bool) :
    StreamM Unit := do
  createFrameVarSizeWord 15
  writeShort sender.index
  write3Byte frequency
  writeByte (if asel then 1 else 0)
  writeString message
  endFrameVarSizeWord

def sendClientModeChange (other : User) (aircraft : Aircraft) : StreamM Unit := do
  createFrame 16
  writeShort other.index
  writeByte (modeByte aircraft)

/-- The plan is taken from an aircraft, so the type written is always that of a pilot. -/
def sendFlightPlanCycle (sender : User) (plan : FlightPlan) : StreamM Unit := do
  createFrameVarSizeWord 17
  writeShort sender.index
  writeShort plan.cycle
  writeByte sender.getType.toInt
  if sender.getType = .pilot then
    writeByte plan.flightRules
    writeString plan.squawkCode
    writeString plan.departure
    writeString plan.arrival
    writeString plan.alternate
    writeString plan.cruise
    writeString plan.acType
    writeString plan.scratchPad
    writeString plan.route
    writeString plan.remarks
  endFrameVarSizeWord

def sendControllerUpdate (other : User) : StreamM Unit := do
  createFrame 18
  writeShort other.index
  writeQWord (doubleToRawBits other.location.latitude)
  writeQWord (doubleToRawBits other.location.longitude)
  writeByte 0

def sendClientTransponder (other : User) (aircraft : Aircraft) : StreamM Unit := do
  createFrameVarSize 20
  writeShort other.index
  writeString aircraft.transponder
  endFrameVarSize

def sendPrimFreq (other : User) : StreamM Unit := do
  createFrame 21
  writeShort other.index
  writeByte 0
  writeInt (other.frequencies 0)

/-- One slot of a script, by the format character that describes it. -/
def writeObject (c : UInt8) (object : AnyValue) : StreamM Unit :=
  if c = 's'.toUInt8 then
    match object with
    | .string s => writeString s
    | _ => throw (.thrown .badAnyCast)
  else if c = 'l'.toUInt8 then
    match object with
    | .longLong x => writeQWord x
    | _ => throw (.thrown .badAnyCast)
  else
    match object with
    | .int x => writeInt x
    | _ => throw (.thrown .badAnyCast)

def sendScript (other : User) (script : ClientScript) : StreamM Unit := do
  createFrameVarSizeWord 22
  writeShort other.index
  writeShort script.idx
  writeString script.assembly
  script.slots.forM fun (c, object) => writeObject c object
  endFrameVarSizeWord

def sendRemoveScript (other : User) (idx : ℤ) : StreamM Unit := do
  createFrame 23
  writeShort other.index
  writeShort idx

def sendHandshakeAccepted (response index updateInterval : ℤ) : StreamM Unit := do
  writeByte response
  writeShort index
  writeQWord updateInterval

namespace Outgoing

/-- The size its builder gives the stream beforehand. -/
def preallocateSize : Outgoing → ℕ
  | serverMessage _ => 256
  | wx _ => 128
  | createClient _ _ => 256
  | timeChange _ => 10
  | privateMessage _ _ => 256
  | deleteClient _ _ => 3
  | ping => 1
  | pilotUpdate _ _ _ => 37
  | message _ _ _ _ _ => 512
  | clientModeChange _ _ _ => 4
  | flightPlanCycle _ _ _ => 256
  | controllerUpdate _ _ => 20
  | clientTransponder _ _ _ => 20
  | primFreq _ _ => 8
  | script _ _ _ => 20
  | removeScript _ _ _ => 20
  | handshakeAccepted _ _ _ => 11
  | handshakeRejected _ => 1

def build : Outgoing → StreamM Unit
  | serverMessage m => sendServerMessage m
  | wx m => sendWx m
  | createClient _ client => Win64Server.createClient client
  | timeChange time => sendTimeChange time
  | privateMessage sender m => sendPrivateMessage sender m
  | deleteClient _ client => Win64Server.deleteClient client
  | ping => sendPing
  | pilotUpdate _ other aircraft => sendPilotUpdate other aircraft
  | message _ sender frequency m asel => sendMessage sender frequency m asel
  | clientModeChange _ other aircraft => sendClientModeChange other aircraft
  | flightPlanCycle _ sender plan => sendFlightPlanCycle sender plan
  | controllerUpdate _ other => sendControllerUpdate other
  | clientTransponder _ other aircraft => sendClientTransponder other aircraft
  | primFreq _ other => sendPrimFreq other
  | script _ other s => sendScript other s
  | removeScript _ other idx => sendRemoveScript other idx
  | handshakeAccepted response index interval => sendHandshakeAccepted response index interval
  | handshakeRejected response => writeByte response

end Outgoing

end Win64Server
