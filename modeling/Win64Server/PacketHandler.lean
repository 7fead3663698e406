import Win64Server.Server

/-!
The framer: it cuts the bytes of a connection into packets by the sizes the packets were
registered with, and hands each to its handler. A handler works on the server and on the stream;
`dispatched` notes what the framer handed out and is read by no part of the program.
-/
namespace Win64Server

open Outcome

structure Session where
  server : Server
  buf : BasicStream
  dispatched : List (ℕ × List UInt8)

abbrev HandlerM := EStateM Fault Session

/-- A stream operation, as part of a handler. -/
def onBuf {α : Type} (op : StreamM α) : HandlerM α := fun x =>
  match op.run x.buf with
  | .ok a buf => .ok a { x with buf := buf }
  | .error e buf => .error e { x with buf := buf }

/-- An operation on the server, as part of a handler. -/
def onServer {α : Type} (op : ServerM α) : HandlerM α := fun x =>
  match op.run x.server with
  | .ok a server => .ok a { x with server := server }
  | .error e server => .error e { x with server := server }

section Lifting

variable {α : Type} {x y : Session} {a : α}

theorem run_onBuf (op : StreamM α) (x : Session) :
    (onBuf op).run x = match op.run x.buf with
      | .ok a buf => .ok a { x with buf := buf }
      | .error e buf => .error e { x with buf := buf } := rfl

theorem run_onServer (op : ServerM α) (x : Session) :
    (onServer op).run x = match op.run x.server with
      | .ok a server => .ok a { x with server := server }
      | .error e server => .error e { x with server := server } := rfl

theorem finalState_onServer (op : ServerM α) (x : Session) :
    (finalState ((onServer op).run x)).server = finalState (op.run x.server) := by
  rw [run_onServer]
  cases op.run x.server <;> rfl

theorem onBuf_ok {op : StreamM α} :
    (onBuf op).run x = .ok a y ↔ ∃ buf, op.run x.buf = .ok a buf ∧ y = { x with buf := buf } := by
  rw [run_onBuf]
  cases op.run x.buf with
  | ok b buf =>
    constructor
    · intro h
      cases h
      exact ⟨buf, rfl, rfl⟩
    · rintro ⟨_, h, rfl⟩
      cases h
      rfl
  | error e buf => simp

theorem onServer_ok {op : ServerM α} :
    (onServer op).run x = .ok a y ↔
      ∃ server, op.run x.server = .ok a server ∧ y = { x with server := server } := by
  rw [run_onServer]
  cases op.run x.server with
  | ok b server =>
    constructor
    · intro h
      cases h
      exact ⟨server, rfl, rfl⟩
    · rintro ⟨_, h, rfl⟩
      cases h
      rfl
  | error e server => simp

end Lifting

/-- `size` is the payload length, or -1 or -2 for packets that announce it in one or two
bytes. A handler gets the socket and the user logged in on it, if any. -/
structure Packet where
  packetId : ℤ
  size : ℤ
  handle : Socket → Option Ptr → HandlerM Unit

abbrev PacketFactory := AList (fun _ : ℤ => Packet)

namespace PacketFactory

def registerPacket (factory : PacketFactory) (id : ℤ) (packet : Packet) : PacketFactory :=
  factory.insert id packet

def getPacket (factory : PacketFactory) (id : ℤ) : Option Packet := factory.lookup id

end PacketFactory

/-- `PacketProcessor::process_packet`; the size it is given goes unused in the source. -/
def processPacket (factory : PacketFactory) (clientSocket : Socket) (packetId : ℕ) (size : ℤ) :
    HandlerM Unit := do
  let x ← get
  set { x with dispatched := x.dispatched ++ [(packetId, x.buf.unread.take size.toNat)] }
  match factory.getPacket packetId with
  | some packet =>
    packet.handle clientSocket (x.server.clientManager.getUserBySocket clientSocket)
  | none => return

/-- The size of the packet at the cursor, or `none` when its size bytes have not arrived. -/
def readPacketSize (packetSize : ℤ) : StreamM (Option ℤ) := do
  let s ← get
  if packetSize = -1 then
    if s.available < 1 then return none
    else return some (← BasicStream.readUnsignedByte)
  else if packetSize = -2 then
    if s.available < 2 then return none
    else return some (← BasicStream.readUnsignedShort)
  else
    return some packetSize

/-- The part of a pass that knows the size: it waits for the rest of the packet or handles it
and deletes it. -/
def processSized (factory : PacketFactory) (clientSocket : Socket) (packetId : ℕ) :
    Option ℤ → HandlerM Bool
  | none => do
    onBuf BasicStream.reset
    return false
  | some packetSize => do
    let x ← get
    if packetSize < 0 ∨ (x.buf.available : ℤ) < packetSize then
      onBuf BasicStream.reset
      return false
    else
      processPacket factory clientSocket packetId packetSize
      onBuf BasicStream.deleteMarkedBlock
      return true

/-- One pass of the loop of `processStream`, from the mark on; `false` is its `break`. The size
is asked of whatever `getPacket` returned. -/
def processFrame (factory : PacketFactory) (clientSocket : Socket) : HandlerM Bool := do
  onBuf BasicStream.markPosition
  let packetId ← onBuf BasicStream.readUnsignedByte
  match factory.getPacket packetId with
  | none => throw (.undefined .nullPacket)
  | some packet =>
    let packetSize ← onBuf (readPacketSize packet.size)
    processSized factory clientSocket packetId packetSize

/-- The loop, for at most so many passes. Each completed pass deletes the packet id at least, so
a bound of the bytes available is never what ends it. -/
def processLoop (factory : PacketFactory) (clientSocket : Socket) : ℕ → HandlerM Unit
  | 0 => return
  | passes + 1 => do
    let x ← get
    if x.buf.available > 0 then
      if ← processFrame factory clientSocket then
        processLoop factory clientSocket passes

def processStream (factory : PacketFactory) (clientSocket : Socket) : HandlerM Unit := do
  let x ← get
  processLoop factory clientSocket x.buf.available

/-- `add_data` followed by `processStream`, as `handle_client` runs them on each chunk; `spare`
is the unset end of the block when fewer bytes came than were announced. -/
structure Received where
  bytes : List UInt8
  spare : List UInt8

def receive (factory : PacketFactory) (clientSocket : Socket) (chunk : Received) :
    HandlerM Unit := do
  onBuf (BasicStream.addData chunk.bytes chunk.spare)
  processStream factory clientSocket

/-- The chunks of a connection in the order they arrive. -/
def receiveAll (factory : PacketFactory) (clientSocket : Socket) (chunks : List Received) :
    HandlerM Unit :=
  chunks.forM (receive factory clientSocket)

namespace Server

/-- The departing user's own set decides who is told and who is cleaned up. -/
def disconnectUser (env : Environment) (clientSocket : Socket) : ServerM Unit := do
  let s ← get
  match s.clientManager.getUserBySocket clientSocket with
  | none => return
  | some user =>
    if (s.heap user).valid then
      iterateLocalUsers env user fun other => do
        deleteClient other user
        updateUser other fun o => { o with localUsers := o.localUsers.erase user }
        adjustTime env other
      modify fun s =>
        { s with clientManager := s.clientManager.removeUser clientSocket s.heap }

end Server

end Win64Server
