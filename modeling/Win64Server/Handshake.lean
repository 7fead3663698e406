import Win64Server.IncomingPackets

/-!
The login packet and the registration of all packets. The handler first reads the whole packet,
then creates the user object, takes an index for it and, when the protocol version is the right
one, answers and puts the user into the registry.
-/
namespace Win64Server

open BasicStream

namespace HandshakePacket

/-- The part of the packet that depends on the client type. -/
inductive TypeFields
  | controller (rating position : ℤ)
  | pilot (rating : ℤ) (acfTitle transponder : CxxString) (modeHeavy : ℕ) (hash : ℤ)
  | none

structure Fields where
  protoVersion : ℤ
  callSign : CxxString
  loginName : CxxString
  username : CxxString
  password : CxxString
  requestTime : ℤ
  location : Location
  visibility : ℤ
  type : ℤ
  frequencies : Fin 2 → ℤ
  typeFields : TypeFields

def readTypeFields (type : ℕ) : HandlerM TypeFields := do
  if type = 0 then
    let rating ← onBuf readUnsignedByte
    let position ← onBuf readUnsignedByte
    return .controller rating position
  else if type = 1 then
    let rating ← onBuf readUnsignedByte
    let acfTitle ← readText
    let transponder ← readText
    let modeHeavy ← onBuf readUnsignedByte
    let hash ← onBuf readQWord
    return .pilot rating acfTitle transponder modeHeavy hash
  else
    return .none

def readFields : HandlerM Fields := do
  let protoVersion ← onBuf readUnsignedInt
  let callSign ← readText
  let loginName ← readText
  let username ← readText
  let password ← readText
  let requestTime ← onBuf readQWord
  let latitude ← readDouble
  let longitude ← readDouble
  let visibility ← onBuf readUnsignedShort
  let type ← onBuf readUnsignedByte
  let first ← readFrequency
  let second ← readFrequency
  let typeFields ← readTypeFields type
  return {
    protoVersion := toInt32 (Int.ofNat protoVersion)
    callSign, loginName, username, password, requestTime
    location := ⟨latitude, longitude⟩
    visibility := visibility
    type := type
    frequencies := fun i => if i = 0 then first else second
    typeFields }

/-- `initial_user`: the object that would be made for a client of this type. -/
def initialUser (storage : Storage) (clientSocket : Socket) (userType id : ℤ) : Option User :=
  match AvClient.ofInt userType with
  | some .pilot => some (.construct storage clientSocket id (.aircraft (.construct storage)))
  | some .controller => some (.construct storage clientSocket id (.controller ⟨0, 0⟩))
  | none => none

/-- The members the handler sets by the type of the client. -/
def Fields.setDerived (f : Fields) (storage : Storage) : Derived → Derived
  | .aircraft a =>
    match f.typeFields with
    | .pilot rating acfTitle transponder modeHeavy hash =>
      .aircraft <| Aircraft.createFlightPlan storage
        { a with
          pilotRating := rating, acfTitle := acfTitle, transponder := transponder
          mode := modeHeavy / 16, heavy := modeHeavy % 16 ≠ 0
          state := { a.state with
            pitch := pitchOf hash, roll := rollOf hash, heading := headingOf hash } }
    | _ => .aircraft a
  | .controller c =>
    match f.typeFields with
    | .controller rating position => .controller ⟨rating, position⟩
    | _ => .controller c

/-- The new user with everything but its index. -/
def Fields.fill (f : Fields) (storage : Storage) (u : User) : User :=
  { u with
    identity := ⟨f.callSign, f.loginName, f.password, f.username⟩
    derived := f.setDerived storage u.derived
    frequencies := f.frequencies
    location := f.location
    requestTime := fun _ => f.requestTime
    visibilityRange := f.visibility
    updateInterval := defaultUpdateTime }

/-- A new object at the next free address. -/
def allocate (u : User) : ServerM Ptr := do
  let s ← get
  set { s with heap := Function.update s.heap s.next u, next := s.next + 1 }
  return s.next

/-- `setIndex(provide_index())`. -/
def assignIndex (user : Ptr) : ServerM Unit := do
  let s ← get
  let (index, clientManager) := s.clientManager.provideIndex
  set { s with clientManager := clientManager }
  Server.updateUser user fun u => { u with index := index }

/-- The two lines of text a new user gets. -/
def welcomeMessage : CxxString := "Welcome to the FSD 2.0 Test Server!".toUTF8.toList

def rulesMessage : CxxString :=
  "Please ensure that you adhere to developer's rules and direction.".toUTF8.toList

/-- The reply to a user with an index, and its entry into the registry. -/
def respond (clientSocket : Socket) (user : Ptr) (response : ℤ) : ServerM Unit := do
  if response = 1 then
    let u ← Server.getUser user
    Server.send user (.handshakeAccepted response u.index u.updateInterval)
    Server.send user (.serverMessage welcomeMessage)
    Server.send user (.serverMessage rulesMessage)
    modify fun s =>
      { s with clientManager := s.clientManager.providePlacement clientSocket user s.heap }
  else
    Server.send user (.handshakeRejected response)
    Server.removeClientSocket clientSocket true

/-- From the read fields on. The password is compared with itself; only when that failed would
there be no user to answer. A type without a class gives a null pointer that is followed. -/
def accept (clientSocket : Socket) (f : Fields) : ServerM Unit := do
  if iequals (cStr f.password) f.password then
    match stoi f.username with
    | .error e => throw (.thrown e)
    | .ok id =>
      let s ← get
      match initialUser (s.storage s.next) clientSocket f.type id with
      | none => throw (.undefined .nullUser)
      | some u =>
        let user ← allocate (f.fill (s.storage s.next) u)
        assignIndex user
        respond clientSocket user (if f.protoVersion ≠ protoVersion then 2 else 1)

def handle (clientSocket : Socket) (_user : Option Ptr) : HandlerM Unit := do
  let f ← readFields
  onServer (accept clientSocket f)

end HandshakePacket

def examplePacket : Packet := ⟨45, -2, HandshakePacket.handle⟩

/-- The packet instances in the order they are registered; `tempDataRemovePacket` is not among
them. -/
def registeredPackets (env : Environment) : List Packet :=
  [examplePacket, pongPacket, pilotUpdate env, controllerUpdate env, transponderPacket env,
    changeCyclePacket, messageRxPacket env, pilotTitle, clientMode env, clientDisconnect,
    flightPlanUpdate, requestFlightPlan, privateMsgPacket, primeFreqPacket env, tempDataPacket env]

def registerPackets (env : Environment) : PacketFactory :=
  (registeredPackets env).foldl
    (fun factory packet => factory.registerPacket packet.packetId packet) ∅

/-- Registering a list of packets adds one of them for each of their ids. -/
theorem getPacket_foldl (packets : List Packet) (factory : PacketFactory) (id : ℤ) :
    (packets.foldl (fun factory packet => factory.registerPacket packet.packetId packet)
      factory).getPacket id =
      ((packets.reverse.find? fun packet => packet.packetId = id).or (factory.getPacket id)) := by
  induction packets generalizing factory with
  | nil => simp
  | cons packet packets ih =>
    rw [List.foldl_cons, ih, List.reverse_cons, List.find?_append, Option.or_assoc]
    congr 1
    by_cases h : packet.packetId = id
    · subst h
      simp [PacketFactory.registerPacket, PacketFactory.getPacket]
    · have hne : id ≠ packet.packetId := fun he => h he.symm
      simp [PacketFactory.registerPacket, PacketFactory.getPacket, h, AList.lookup_insert_ne hne]

theorem getPacket_registerPackets (env : Environment) (id : ℤ) :
    (registerPackets env).getPacket id =
      (registeredPackets env).reverse.find? fun packet => packet.packetId = id := by
  rw [registerPackets, getPacket_foldl]
  simp [PacketFactory.getPacket]

section Registered

variable {env : Environment} {packet : Packet}

theorem registered_of_getPacket {id : ℤ} (h : (registerPackets env).getPacket id = some packet) :
    packet ∈ registeredPackets env ∧ packet.packetId = id := by
  rw [getPacket_registerPackets] at h
  exact ⟨List.mem_reverse.mp (List.mem_of_find?_eq_some h), by simpa using List.find?_some h⟩

/-- A case for every registered packet. -/
theorem registered_cases {motive : Packet → Prop} (h : packet ∈ registeredPackets env)
    (handshake : motive examplePacket) (pong : motive pongPacket)
    (pilotUpdate : motive (pilotUpdate env)) (controllerUpdate : motive (controllerUpdate env))
    (transponder : motive (transponderPacket env)) (changeCycle : motive changeCyclePacket)
    (message : motive (messageRxPacket env)) (pilotTitle : motive pilotTitle)
    (clientMode : motive (clientMode env)) (clientDisconnect : motive clientDisconnect)
    (flightPlanUpdate : motive flightPlanUpdate) (requestFlightPlan : motive requestFlightPlan)
    (privateMsg : motive privateMsgPacket) (primeFreq : motive (primeFreqPacket env))
    (tempData : motive (tempDataPacket env)) : motive packet := by
  simp only [registeredPackets, List.mem_cons, List.not_mem_nil, or_false] at h
  rcases h with rfl | rfl | rfl | rfl | rfl | rfl | rfl | rfl | rfl | rfl | rfl | rfl | rfl |
    rfl | rfl
  all_goals assumption

/-- The same with the id that the packet is found by. -/
theorem getPacket_cases {id : ℤ} {motive : ℤ → Packet → Prop}
    (h : (registerPackets env).getPacket id = some packet)
    (handshake : motive 45 examplePacket) (pong : motive 4 pongPacket)
    (pilotUpdate : motive 1 (pilotUpdate env)) (controllerUpdate : motive 3 (controllerUpdate env))
    (transponder : motive 2 (transponderPacket env)) (changeCycle : motive 5 changeCyclePacket)
    (message : motive 6 (messageRxPacket env)) (pilotTitle : motive 7 pilotTitle)
    (clientMode : motive 8 (clientMode env)) (clientDisconnect : motive 9 clientDisconnect)
    (flightPlanUpdate : motive 10 flightPlanUpdate)
    (requestFlightPlan : motive 11 requestFlightPlan)
    (privateMsg : motive 12 privateMsgPacket) (primeFreq : motive 13 (primeFreqPacket env))
    (tempData : motive 14 (tempDataPacket env)) : motive id packet := by
  obtain ⟨hmem, rfl⟩ := registered_of_getPacket h
  apply registered_cases hmem
  all_goals assumption

/-- For the id byte of a frame. -/
theorem getPacket_byte_cases {id : ℕ} {motive : ℕ → Packet → Prop}
    (h : (registerPackets env).getPacket id = some packet)
    (handshake : motive 45 examplePacket) (pong : motive 4 pongPacket)
    (pilotUpdate : motive 1 (pilotUpdate env)) (controllerUpdate : motive 3 (controllerUpdate env))
    (transponder : motive 2 (transponderPacket env)) (changeCycle : motive 5 changeCyclePacket)
    (message : motive 6 (messageRxPacket env)) (pilotTitle : motive 7 pilotTitle)
    (clientMode : motive 8 (clientMode env)) (clientDisconnect : motive 9 clientDisconnect)
    (flightPlanUpdate : motive 10 flightPlanUpdate)
    (requestFlightPlan : motive 11 requestFlightPlan)
    (privateMsg : motive 12 privateMsgPacket) (primeFreq : motive 13 (primeFreqPacket env))
    (tempData : motive 14 (tempDataPacket env)) : motive id packet := by
  have hall (z : ℤ) (hz : (registerPackets env).getPacket z = some packet) :
      motive z.toNat packet := by
    apply getPacket_cases hz
    all_goals assumption
  exact hall id h

end Registered

end Win64Server
