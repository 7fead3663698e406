import Win64Server.PacketHandler

/-!
The handlers of the packets a logged-in client sends. Each is written in the order of its
source: what it reads from the stream, where it first follows the user pointer, what it changes
and whom it tells.
-/
namespace Win64Server

open BasicStream

/-- `*user`. -/
def deref (user : Option Ptr) : HandlerM Ptr :=
  match user with
  | some u => return u
  | none => throw (.undefined .nullUser)

/-- A `std::string` argument read from the stream. -/
def readText : HandlerM CxxString := onBuf readStringCopy

/-- `longToRawBits(buf.readQWord())`. -/
def readDouble : HandlerM Double := longToRawBits <$> onBuf readQWord

/-- `static_cast<int>(buf.read3Byte())`. -/
def readFrequency : HandlerM ℤ := (fun value => toInt32 (Int.ofNat value)) <$> onBuf read3Byte

/-- The angles an orientation word spells; the pitch keeps 32 bits, the others ten. -/
def pitchOf (hash : ℤ) : ℚ := (toInt32 (hash / 2 ^ 22) : ℚ) / 1024 * -360

def rollOf (hash : ℤ) : ℚ := ((hash / 2 ^ 12 % 1024 : ℤ) : ℚ) / 1024 * -360

def headingOf (hash : ℤ) : ℚ := ((hash / 2 ^ 2 % 1024 : ℤ) : ℚ) / 1024 * 360

namespace PilotUpdate

def handle (env : Environment) (_clientSocket : Socket) (user : Option Ptr) : HandlerM Unit := do
  let latitude ← readDouble
  let longitude ← readDouble
  let u ← deref user
  onServer (Server.updateUser u fun r => { r with location := ⟨latitude, longitude⟩ })
  let hash ← onBuf readQWord
  let groundSpeed ← onBuf readUnsignedShort
  let altitude ← readDouble
  onServer do
    Server.updateUser u fun r => r.modifyAircraft fun a =>
      { a with state :=
          { pitch := pitchOf hash, roll := rollOf hash, heading := headingOf hash
            groundSpeed := groundSpeed, altitude := altitude } }
    let now ← Server.readClock env
    Server.updateUser u fun r => { r with lastPositionUpdate := now }

end PilotUpdate

namespace ControllerUpdate

def handle (env : Environment) (_clientSocket : Socket) (user : Option Ptr) : HandlerM Unit := do
  let latitude ← readDouble
  let longitude ← readDouble
  let u ← deref user
  onServer do
    Server.updateUser u fun r => { r with location := ⟨latitude, longitude⟩ }
    let now ← Server.readClock env
    Server.updateUser u fun r => { r with lastPositionUpdate := now }

end ControllerUpdate

namespace TransponderPacket

def handle (env : Environment) (_clientSocket : Socket) (user : Option Ptr) : HandlerM Unit := do
  let code ← readText
  let u ← deref user
  onServer do
    let r ← Server.getUser u
    if r.getType = .pilot then
      Server.updateUser u fun r => r.modifyAircraft fun a => { a with transponder := code }
      let aircraft ← Server.getAircraft u
      Server.iterateLocalUsers env u fun other => do
        let o ← Server.getUser other
        if o.getType = .controller then Server.sendClientTransponder other u aircraft

end TransponderPacket

namespace ChangeCyclePacket

/-- Two null pointers compare equal, and the type byte is used as it came. -/
def handle (_clientSocket : Socket) (user : Option Ptr) : HandlerM Unit := do
  let index ← onBuf readUnsignedShort
  let x ← get
  let user1 := x.server.clientManager.getUserByIndex index
  let type ← onBuf readUnsignedByte
  let requestTime ← onBuf readQWord
  if user1 = user then
    let u ← deref user
    onServer do
      let r ← Server.getUser u
      match r.setRequestedInterval type requestTime with
      | some changed => Server.updateUser u fun _ => changed
      | none => throw (.undefined .indexPastArray)

end ChangeCyclePacket

namespace MessageRxPacket

def handle (env : Environment) (_clientSocket : Socket) (user : Option Ptr) : HandlerM Unit := do
  let callsign ← readText
  let frequency ← readFrequency
  let message ← readText
  let x ← get
  let asel := x.server.clientManager.getUserByCallsign callsign
  let u ← deref user
  onServer <| Server.iterateLocalUsers env u fun other => do
    let o ← Server.getUser other
    if ∃ i, o.frequencies i ≠ 99998 ∧ o.frequencies i = frequency then
      match asel with
      | some a =>
        let r ← Server.getUser a
        Server.sendMessage other u frequency message
          (o.identity.callsign = r.identity.callsign)
      | none => Server.sendMessage other u frequency message false

end MessageRxPacket

namespace PilotTitle

def handle (_clientSocket : Socket) (user : Option Ptr) : HandlerM Unit := do
  let index ← onBuf readUnsignedShort
  let x ← get
  let user1 := x.server.clientManager.getUserByIndex index
  let title ← readText
  if user1 = user then
    let u ← deref user1
    onServer <| Server.updateUser u fun r => r.modifyAircraft fun a => { a with acfTitle := title }

end PilotTitle

namespace ClientMode

def handle (env : Environment) (_clientSocket : Socket) (user : Option Ptr) : HandlerM Unit := do
  let i ← onBuf readUnsignedByte
  let u ← deref user
  onServer do
    let r ← Server.getUser u
    if r.getType = .pilot then
      Server.updateUser u fun r => r.modifyAircraft fun a =>
        { a with mode := i / 16, heavy := i % 16 ≠ 0 }
      let aircraft ← Server.getAircraft u
      Server.iterateLocalUsers env u fun other => Server.sendClientModeChange other u aircraft

end ClientMode

namespace ClientDisconnect

def handle (clientSocket : Socket) (user : Option Ptr) : HandlerM Unit := do
  let _flag ← onBuf readUnsignedByte
  let _ ← deref user
  onServer (Server.closesocket clientSocket)

end ClientDisconnect

namespace FlightPlanUpdate

/-- The flight rules are read and not stored. -/
def handle (_clientSocket : Socket) (_user : Option Ptr) : HandlerM Unit := do
  let curCycle ← onBuf readUnsignedShort
  let index ← onBuf readUnsignedShort
  let x ← get
  let user1 := x.server.clientManager.getUserByIndex index
  let _flightRules ← onBuf readUnsignedByte
  let assignedSquawk ← readText
  let departure ← readText
  let arrival ← readText
  let alternate ← readText
  let cruise ← readText
  let acType ← readText
  let scratch ← readText
  let route ← readText
  let remarks ← readText
  match user1 with
  | none => return
  | some u => onServer do
    let r ← Server.getUser u
    if r.getType = .pilot then
      match ← Server.getFlightPlan u with
      | none => throw (.undefined .nullPlan)
      | some plan =>
        let stored : FlightPlan :=
          { plan with
            cycle := curCycle, squawkCode := assignedSquawk, departure := departure
            arrival := arrival, alternate := alternate, cruise := cruise, acType := acType
            scratchPad := scratch, route := route, remarks := remarks }
        Server.updateUser u fun r => r.modifyAircraft fun a => { a with flightPlan := some stored }
        Server.updateUser u fun r =>
          { r with updateOnlyQueues := Function.update r.updateOnlyQueues 0 true }

end FlightPlanUpdate

namespace RequestFlightPlan

def handle (_clientSocket : Socket) (user : Option Ptr) : HandlerM Unit := do
  let index ← onBuf readUnsignedShort
  let curCycle ← onBuf readUnsignedShort
  let x ← get
  match x.server.clientManager.getUserByIndex index with
  | none => return
  | some userFp =>
    if (x.server.heap userFp).getType = .pilot then
      match ← onServer (Server.getFlightPlan userFp) with
      | none => throw (.undefined .nullPlan)
      | some plan =>
        if plan.cycle > curCycle then
          let u ← deref user
          onServer (Server.sendFlightPlanCycle u userFp)

end RequestFlightPlan

namespace PrivateMsgPacket

def handle (_clientSocket : Socket) (user : Option Ptr) : HandlerM Unit := do
  let callsign ← readText
  let x ← get
  let user1 := x.server.clientManager.getUserByCallsign callsign
  let message ← readText
  match user1 with
  | none => return
  | some u1 =>
    if user1 ≠ user then
      let u ← deref user
      onServer do
        let r ← Server.getUser u
        Server.send u1 (.privateMessage r.identity.callsign message)

end PrivateMsgPacket

namespace PrimeFreqPacket

/-- Each assignment reads its value before it follows the pointer. -/
def handle (env : Environment) (_clientSocket : Socket) (user : Option Ptr) : HandlerM Unit := do
  let _flags ← onBuf readUnsignedByte
  let first ← readFrequency
  let u ← deref user
  onServer (Server.updateUser u fun r =>
    { r with frequencies := Function.update r.frequencies 0 first })
  let second ← readFrequency
  onServer do
    Server.updateUser u fun r => { r with frequencies := Function.update r.frequencies 1 second }
    Server.iterateLocalUsers env u fun other => do
      let o ← Server.getUser other
      if o.getType = .controller then Server.sendPrimFreq other u

end PrimeFreqPacket

namespace TempDataPacket

/-- The value of one slot, as the type its format character asks for. A string slot keeps the
pointer into the buffer. -/
def readObject (c : UInt8) : StreamM AnyValue :=
  if c = 's'.toUInt8 then .constCharPtr <$> readString
  else if c = 'l'.toUInt8 then .longLong <$> readQWord
  else (fun value => .int (toInt32 (Int.ofNat value))) <$> readUnsignedInt

/-- The slots are read from the last format character to the first, slot zero at the end. -/
def handle (env : Environment) (_clientSocket : Socket) (user : Option Ptr) : HandlerM Unit := do
  let assembly ← readText
  let slots ← onBuf (assembly.reverse.mapM readObject)
  let first ← onBuf readUnsignedInt
  let script : ClientScript :=
    { idx := -1, assembly := assembly
      objects := .int (toInt32 (Int.ofNat first)) :: slots.reverse }
  let u ← deref user
  onServer (Server.registerScript env u script)

end TempDataPacket

namespace TempDataRemovePacket

def handle (env : Environment) (_clientSocket : Socket) (user : Option Ptr) : HandlerM Unit := do
  let idx ← onBuf readUnsignedShort
  let u ← deref user
  onServer do
    let r ← Server.getUser u
    match r.scripts.getScript idx with
    | .error e => throw (.thrown e)
    | .ok none => throw (.undefined .nullScript)
    | .ok (some script) => Server.unregisterScript env u script

end TempDataRemovePacket

section Instances

variable (env : Environment)

def pilotUpdate : Packet := ⟨1, -1, PilotUpdate.handle env⟩
def transponderPacket : Packet := ⟨2, -1, TransponderPacket.handle env⟩
def controllerUpdate : Packet := ⟨3, -1, ControllerUpdate.handle env⟩
def pongPacket : Packet := ⟨4, 0, fun _ _ => return⟩
def changeCyclePacket : Packet := ⟨5, 11, ChangeCyclePacket.handle⟩
def messageRxPacket : Packet := ⟨6, -2, MessageRxPacket.handle env⟩
def pilotTitle : Packet := ⟨7, -1, PilotTitle.handle⟩
def clientMode : Packet := ⟨8, 3, ClientMode.handle env⟩
def clientDisconnect : Packet := ⟨9, 1, ClientDisconnect.handle⟩
def flightPlanUpdate : Packet := ⟨10, -2, FlightPlanUpdate.handle⟩
def requestFlightPlan : Packet := ⟨11, 4, RequestFlightPlan.handle⟩
def privateMsgPacket : Packet := ⟨12, -2, PrivateMsgPacket.handle⟩
def primeFreqPacket : Packet := ⟨13, 7, PrimeFreqPacket.handle env⟩
def tempDataPacket : Packet := ⟨14, -2, TempDataPacket.handle env⟩
def tempDataRemovePacket : Packet := ⟨15, 4, TempDataRemovePacket.handle env⟩

end Instances

end Win64Server
