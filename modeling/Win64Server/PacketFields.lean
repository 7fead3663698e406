import Win64Server.Handshake
import Win64Server.StreamReading

/-!
The fields of the packets clients send, as bytes. A field is a number of fixed width or a string
closed by a NUL; whatever stands behind the packet, the handlers' readers decode each field to
its value and change nothing but the cursor.
-/
namespace Win64Server

open Outcome Library BasicStream

namespace PacketFields

theorem zero_notMem_nil : 0 ∉ ([] : CxxString) := List.not_mem_nil

def noText : Text := ⟨[], zero_notMem_nil⟩

def letter (b : UInt8) (hb : 0 ≠ b) : Text :=
  ⟨[b], List.not_mem_cons_of_ne_of_not_mem hb List.not_mem_nil⟩

def advance (buf : BasicStream) (n : ℕ) : BasicStream := { buf with index := buf.index + n }

/-- A handler that only reads moves the cursor of its stream. -/
def fieldCursor : Cursor Session UInt8 where
  view x := x.buf.unread
  Moved x k y := y = { x with buf := advance x.buf k }
  view_of_moved := by
    rintro x y k rfl
    exact unread_advance x.buf k
  refl _ := rfl
  trans := by
    rintro x y z k j rfl rfl
    simp only [advance, Nat.add_assoc]

abbrev Reads {α : Type} (x : HandlerM α) (p : List UInt8) (a : α) : Prop :=
  Decodes fieldCursor x p a

/-- What the stream operations of a handler do to its server: nothing. -/
def SameServer (x y : Session) : Prop := y.server = x.server

/-- A handler whose next read succeeds. -/
theorem run_onBuf_bind {α β : Type} {op : StreamM α} {f : α → HandlerM β} {x : Session} {a : α}
    {t : BasicStream} (h : op.run x.buf = .ok a t) :
    (onBuf op >>= f).run x = (f a).run { x with buf := t } :=
  run_bind_of_ok (onBuf_ok.mpr ⟨t, h, rfl⟩)

theorem onBuf_bind {α β : Type} (op : StreamM α) (f : α → StreamM β) :
    onBuf (op >>= f) = onBuf op >>= fun a => onBuf (f a) := by
  funext x
  change (onBuf (op >>= f)).run x = (onBuf op >>= fun a => onBuf (f a)).run x
  cases hrun : op.run x.buf with
  | ok a buf =>
    rw [run_onBuf_bind hrun, run_onBuf, run_onBuf, run_bind_of_ok hrun]
  | error e buf =>
    rw [run_bind_of_error (by rw [run_onBuf, hrun]), run_onBuf, run_bind_of_error hrun]

section Raising

variable {P : Fault → Prop}

instance raises_onBuf {α : Type} (op : StreamM α) [h : Raises P op] : Raises P (onBuf op) where
  raised x e y hrun := by
    rw [run_onBuf] at hrun
    cases hop : op.run x.buf with
    | ok a buf =>
      rw [hop] at hrun
      cases hrun
    | error e' buf =>
      rw [hop] at hrun
      cases hrun
      exact h.raised x.buf e buf hop

variable [∀ e, Fact (P (.thrown e))]

instance (n : ℕ) : Raises P (readBytes n) := by unfold readBytes; infer_instance

instance : Raises P readUnsignedByte := by unfold readUnsignedByte; infer_instance

instance : Raises P readUnsignedShort := by unfold readUnsignedShort; infer_instance

instance : Raises P read3Byte := by unfold read3Byte; infer_instance

instance : Raises P readUnsignedInt := by unfold readUnsignedInt; infer_instance

instance : Raises P readQWord := by unfold readQWord; infer_instance

instance : Raises P readString := by unfold readString; infer_instance

instance : Raises P readDouble := by unfold readDouble; infer_instance

instance : Raises P readFrequency := by unfold readFrequency; infer_instance

variable [Fact (P (.undefined .readPastBlock))]

instance (pointer : ℕ) : Raises P (stdString pointer) := by unfold stdString; infer_instance

instance : Raises P readStringCopy := by unfold readStringCopy; infer_instance

instance : Raises P readText := by unfold readText; infer_instance

end Raising

section ServerRaising

open Server

variable {P : Fault → Prop} (env : Environment)

instance raises_onServer {α : Type} (op : ServerM α) [h : Raises P op] :
    Raises P (onServer op) where
  raised x e y hrun := by
    rw [run_onServer] at hrun
    cases hop : op.run x.server with
    | ok a server =>
      rw [hop] at hrun
      cases hrun
    | error e' server =>
      rw [hop] at hrun
      cases hrun
      exact h.raised x.server e server hop

instance (user : Ptr) : Raises P (getUser user) := by unfold getUser; infer_instance

instance (user : Ptr) (f : User → User) : Raises P (updateUser user f) := by
  unfold updateUser; infer_instance

instance (user : Ptr) (message : Outgoing) : Raises P (send user message) := by
  unfold send; infer_instance

instance (users : List Ptr) : Raises P (arranged env users) := by
  unfold arranged; infer_instance

instance : Raises P (readClock env) := by unfold readClock; infer_instance

instance (user : Ptr) (func : Ptr → ServerM Unit) [∀ other, Raises P (func other)] :
    Raises P (iterateLocalUsers env user func) := by
  unfold iterateLocalUsers; infer_instance

variable [Fact (P (.thrown .badCast))]

instance (user : Ptr) : Raises P (getAircraft user) := by
  unfold getAircraft
  refine .of_bind inferInstance fun u => ?_
  cases u.asAircraft <;> infer_instance

instance (user : Ptr) : Raises P (getFlightPlan user) := by
  unfold getFlightPlan; infer_instance

instance (user sender : Ptr) [Fact (P (.undefined .nullPlan))] :
    Raises P (Server.sendFlightPlanCycle user sender) := by
  unfold Server.sendFlightPlanCycle
  refine .of_bind inferInstance fun f => .of_bind inferInstance fun plan => ?_
  cases plan <;> infer_instance

instance (user other : Ptr) (aircraft : Aircraft) :
    Raises P (Server.sendClientTransponder user other aircraft) := by
  unfold Server.sendClientTransponder; infer_instance

instance (user other : Ptr) (aircraft : Aircraft) :
    Raises P (Server.sendClientModeChange user other aircraft) := by
  unfold Server.sendClientModeChange; infer_instance

instance (user other : Ptr) : Raises P (Server.sendPrimFreq user other) := by
  unfold Server.sendPrimFreq; infer_instance

instance (user sender : Ptr) (frequency : ℤ) (message : CxxString) (asel : Bool) :
    Raises P (Server.sendMessage user sender frequency message asel) := by
  unfold Server.sendMessage; infer_instance

variable [Fact (P (.thrown .badAnyCast))]

instance (user other : Ptr) (script : ClientScript) :
    Raises P (Server.sendScript user other script) := by
  unfold Server.sendScript; infer_instance

instance (user : Ptr) (script : ClientScript)
    [Fact (P (.thrown (.runtimeError "No free space available")))] :
    Raises P (registerScript env user script) := by
  unfold registerScript ScriptIndex.addScript
  refine .of_bind inferInstance fun u => ?_
  cases u.scripts.availableIndices <;> infer_instance

instance (clientSocket : Socket) : Raises P (closesocket clientSocket) := by
  unfold closesocket; infer_instance

instance (clientSocket : Socket) (close : Bool) :
    Raises P (removeClientSocket clientSocket close) := by
  unfold removeClientSocket removeClientData; infer_instance

instance (u : User) : Raises P (HandshakePacket.allocate u) := by
  unfold HandshakePacket.allocate; infer_instance

instance (user : Ptr) : Raises P (HandshakePacket.assignIndex user) := by
  unfold HandshakePacket.assignIndex; infer_instance

instance (clientSocket : Socket) (user : Ptr) (response : ℤ) :
    Raises P (HandshakePacket.respond clientSocket user response) := by
  unfold HandshakePacket.respond; infer_instance

instance (clientSocket : Socket) (f : HandshakePacket.Fields)
    [Fact (P (.thrown (.invalidArgument "invalid stoi argument")))]
    [Fact (P (.thrown (.outOfRange "stoi argument out of range")))]
    [Fact (P (.undefined .nullUser))] : Raises P (HandshakePacket.accept clientSocket f) := by
  unfold HandshakePacket.accept
  refine .of_ite ?_ inferInstance
  cases hid : stoi f.username with
  | error e => rcases stoi_error hid with rfl | rfl <;> infer_instance
  | ok id =>
    refine .of_bind inferInstance fun s => ?_
    cases HandshakePacket.initialUser (s.storage s.next) clientSocket f.type id <;> infer_instance

instance (user : Option Ptr) [Fact (P (.undefined .nullUser))] : Raises P (deref user) := by
  cases user <;> unfold deref <;> infer_instance

end ServerRaising

section Readers

variable {α : Type} {a : α} {p : List UInt8}

theorem decodes_onBuf {op : StreamM α} (h : Decodes cursor op p a) : Reads (onBuf op) p a := by
  intro x rest hx
  obtain ⟨buf, hop, rfl⟩ := h x.buf rest hx
  exact ⟨_, onBuf_ok.mpr ⟨_, hop, rfl⟩, rfl⟩

theorem reads_byte (b : UInt8) : Reads (onBuf readUnsignedByte) [b] b.toNat := by
  have h : Decodes cursor readUnsignedByte [b] (beNat [b]) :=
    (decodes_readBytes Nat.one_pos ⟨[b], rfl⟩).map beNat
  have hvalue : beNat [b] = b.toNat := by simp [beNat]
  rw [hvalue] at h
  exact decodes_onBuf h

theorem reads_short (bytes : Bytes 2) : Reads (onBuf readUnsignedShort) bytes.1 (beNat bytes.1) :=
  decodes_onBuf ((decodes_readBytes (by decide) bytes).map beNat)

theorem reads_int (bytes : Bytes 4) : Reads (onBuf readUnsignedInt) bytes.1 (beNat bytes.1) :=
  decodes_onBuf ((decodes_readBytes (by decide) bytes).map beNat)

theorem reads_qWord (bytes : Bytes 8) :
    Reads (onBuf readQWord) bytes.1 (toInt64 (beNat bytes.1)) :=
  decodes_onBuf ((decodes_readBytes (by decide) bytes).map fun bs => toInt64 (beNat bs))

theorem reads_double (bytes : Bytes 8) :
    Reads readDouble bytes.1 (longToRawBits (toInt64 (beNat bytes.1))) :=
  (reads_qWord bytes).map longToRawBits

/-- The number that three bytes spell, sign-extended. -/
def frequencyOf (bytes : Bytes 3) : ℤ :=
  toInt32 (Int.ofNat (if beNat bytes.1 > 8388607 then (beNat bytes.1 + 2 ^ 32 - 16777216) % 2 ^ 32
    else beNat bytes.1))

theorem reads_frequency (bytes : Bytes 3) : Reads readFrequency bytes.1 (frequencyOf bytes) := by
  have h : Decodes cursor read3Byte bytes.1 (if beNat bytes.1 > 8388607 then
      (beNat bytes.1 + 2 ^ 32 - 16777216) % 2 ^ 32 else beNat bytes.1) :=
    Decodes.last (decodes_readBytes (by decide) bytes) rfl
  exact (decodes_onBuf h).map fun value => toInt32 (Int.ofNat value)

theorem reads_text (text : Text) : Reads readText (text.1 ++ [0]) text.1 :=
  decodes_onBuf (decodes_readStringCopy text)

end Readers

end PacketFields

end Win64Server
