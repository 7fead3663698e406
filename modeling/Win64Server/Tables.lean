import Win64Server.Frames
import Win64Server.HandshakeOutcomes

/-!
The tables that a connection is recorded in. Nearly all packets leave them alone: what their
handlers change are users, messages and the questions put to the environment.
-/
namespace Win64Server.Tables

open Outcome Library BasicStream Server

/-- The registry and the tables of sockets are the same. -/
structure SameTables (s t : Server) : Prop where
  clientManager : t.clientManager = s.clientManager
  clientSockets : t.clientSockets = s.clientSockets
  byteData : t.byteData = s.byteData
  lastPacketReceived : t.lastPacketReceived = s.lastPacketReceived
  closedSockets : t.closedSockets = s.closedSockets

instance : Std.Refl SameTables := ⟨fun _ => ⟨rfl, rfl, rfl, rfl, rfl⟩⟩

instance : IsTrans Server SameTables where
  trans _ _ _ h h' := ⟨h'.clientManager.trans h.clientManager,
    h'.clientSockets.trans h.clientSockets, h'.byteData.trans h.byteData,
    h'.lastPacketReceived.trans h.lastPacketReceived, h'.closedSockets.trans h.closedSockets⟩

instance : Frames.Frame User.lastPositionUpdate SameTables where
  push _ _ _ := ⟨rfl, rfl, rfl, rfl, rfl⟩
  ticks _ _ := ⟨rfl, rfl, rfl, rfl, rfl⟩
  modifyUser _ _ _ _ := ⟨rfl, rfl, rfl, rfl, rfl⟩

/-- A handler that leaves the tables alone, and what has been dispatched. -/
def SameRecords (x y : Session) : Prop :=
  SameTables x.server y.server ∧ y.dispatched = x.dispatched

instance : Std.Refl SameRecords := ⟨fun _ => ⟨Std.Refl.refl _, rfl⟩⟩

instance : IsTrans Session SameRecords where
  trans _ _ _ h h' := ⟨Trans.trans h.1 h'.1, h'.2.trans h.2⟩

instance kept_records {α : Type} (x : HandlerM α) [h : Kept (Frames.Lifted SameTables) x] :
    Kept SameRecords x := ⟨h.keeps⟩

section Handlers

variable (env : Environment) (clientSocket : Socket) (user : Option Ptr)

/-- The tables do not know what a user's stamp is either. -/
instance kept_modifyUser (u : Ptr) (f : User → User) : Kept SameTables (updateUser u f) :=
  ⟨fun _ => ⟨rfl, rfl, rfl, rfl, rfl⟩⟩

instance kept_pilotUpdate :
    Kept (Frames.Lifted SameTables) (PilotUpdate.handle env clientSocket user) := by
  unfold PilotUpdate.handle; infer_instance

instance kept_controllerUpdate :
    Kept (Frames.Lifted SameTables) (ControllerUpdate.handle env clientSocket user) := by
  unfold ControllerUpdate.handle; infer_instance

/-- All packets but the login and the disconnect leave the tables alone. -/
theorem kept_handle {packet : Packet} {id : ℤ}
    (h : (registerPackets env).getPacket id = some packet) :
    (id = 45 ∧ packet = examplePacket) ∨ (id = 9 ∧ packet = clientDisconnect) ∨
      (id ≠ 45 ∧ id ≠ 9 ∧ Kept SameRecords (packet.handle clientSocket user)) := by
  have hother (hid : id ≠ 45 ∧ id ≠ 9)
      (hkept : Kept (Frames.Lifted SameTables) (packet.handle clientSocket user)) :
      id ≠ 45 ∧ id ≠ 9 ∧ Kept SameRecords (packet.handle clientSocket user) :=
    ⟨hid.1, hid.2, kept_records _⟩
  rcases Frames.kept_handle (R := SameTables) env clientSocket user h with
    hlogin | hdisconnect | ⟨rfl, rfl⟩ | ⟨rfl, rfl⟩ | ⟨hid, hkept⟩
  · exact Or.inl hlogin
  · exact Or.inr (Or.inl hdisconnect)
  · exact Or.inr (Or.inr (hother (by decide) (kept_pilotUpdate env clientSocket user)))
  · exact Or.inr (Or.inr (hother (by decide) (kept_controllerUpdate env clientSocket user)))
  · simp only [Frames.exempt, List.mem_cons, List.not_mem_nil, or_false, not_or] at hid
    exact Or.inr (Or.inr (hother ⟨hid.1, hid.2.1⟩ hkept))

end Handlers

section Login

open HandshakeOutcomes HandshakePacket

variable {clientSocket : Socket} {s t : Server}

/-- The connection is dropped from the tables of sockets, and closed if it was listed. -/
structure Drops (clientSocket : Socket) (s t : Server) : Prop where
  clients : ∀ c, t.clientManager.getUserBySocket c = s.clientManager.getUserBySocket c
  clientSockets : t.clientSockets = s.clientSockets.erase clientSocket
  byteData : t.byteData = s.byteData.erase clientSocket
  lastPacketReceived : t.lastPacketReceived = s.lastPacketReceived
  closedSockets : t.closedSockets =
    s.closedSockets ++ if clientSocket ∈ s.clientSockets then [clientSocket] else []

/-- At most a user has been placed on the connection. -/
structure Places (clientSocket : Socket) (s t : Server) : Prop where
  clients : ∀ c ≠ clientSocket,
    t.clientManager.getUserBySocket c = s.clientManager.getUserBySocket c
  clientSockets : t.clientSockets = s.clientSockets
  byteData : t.byteData = s.byteData
  lastPacketReceived : t.lastPacketReceived = s.lastPacketReceived
  closedSockets : t.closedSockets = s.closedSockets

theorem SameTables.places (h : SameTables s t) (clientSocket : Socket) :
    Places clientSocket s t where
  clients _ _ := by rw [h.clientManager]
  clientSockets := h.clientSockets
  byteData := h.byteData
  lastPacketReceived := h.lastPacketReceived
  closedSockets := h.closedSockets

theorem provideIndex_clients (cm : ClientManager) : cm.provideIndex.2.clients = cm.clients := by
  unfold ClientManager.provideIndex ClientManager.getAvailableIndex
  split <;> rfl

theorem respond_places (s : Server) (clientSocket : Socket) (user : Ptr) :
    Places clientSocket s (finalState ((respond clientSocket user 1).run s)) where
  clients _ hc := AList.lookup_insert_ne hc
  clientSockets := rfl
  byteData := rfl
  lastPacketReceived := rfl
  closedSockets := rfl

theorem respond_drops (s : Server) (clientSocket : Socket) (user : Ptr) :
    Drops clientSocket s (finalState ((respond clientSocket user 2).run s)) := by
  have hrun : (respond clientSocket user 2).run s =
      (removeClientSocket clientSocket true).run (s.push user (.handshakeRejected 2)) := rfl
  rw [hrun]
  by_cases hmem : clientSocket ∈ s.clientSockets
  · constructor <;> simp [removeClientSocket, removeClientData, closesocket, Server.push, hmem]
  · constructor <;> simp [removeClientSocket, removeClientData, closesocket, Server.push, hmem,
      List.erase_of_not_mem]

/-- A whole login packet that makes a user, of another protocol version. -/
def Refused (unread : List UInt8) : Prop :=
  ∃ (l : Login) (rest : List UInt8), unread = l.payload ++ rest ∧
    MakesUser l.type.toNat l.username.1 ∧
    toInt32 (Int.ofNat (beNat l.protoVersion.1)) ≠ protoVersion

theorem accept_drops {f : Fields} (hpassword : 0 ∉ f.password) (h : MakesUser f.type f.username)
    (hversion : f.protoVersion ≠ protoVersion) :
    Drops clientSocket s (finalState ((accept clientSocket f).run s)) := by
  obtain ⟨id, u, -, -, hrun⟩ := accept_makes (s := s) clientSocket hpassword h
  rw [hrun, if_pos hversion]
  have hdrops := respond_drops (enroll s (f.fill (s.storage s.next) u)) clientSocket s.next
  refine ⟨fun c => (hdrops.clients c).trans ?_, hdrops.clientSockets, hdrops.byteData,
    hdrops.lastPacketReceived, hdrops.closedSockets⟩
  exact congrArg (AList.lookup c) (provideIndex_clients _)

theorem accept_places {f : Fields} (hpassword : 0 ∉ f.password)
    (h : MakesUser f.type f.username → f.protoVersion = protoVersion) :
    Places clientSocket s (finalState ((accept clientSocket f).run s)) := by
  by_cases hmakes : MakesUser f.type f.username
  · obtain ⟨id, u, -, -, hrun⟩ := accept_makes (s := s) clientSocket hpassword hmakes
    rw [hrun, if_neg (not_not.mpr (h hmakes))]
    have hplaces := respond_places (enroll s (f.fill (s.storage s.next) u)) clientSocket s.next
    refine ⟨fun c hc => (hplaces.clients c hc).trans ?_, hplaces.clientSockets, hplaces.byteData,
      hplaces.lastPacketReceived, hplaces.closedSockets⟩
    exact congrArg (AList.lookup c) (provideIndex_clients _)
  · obtain ⟨e, hstop⟩ := accept_stops (s := s) clientSocket hpassword hmakes
    rw [hstop]
    exact SameTables.places (Std.Refl.refl s) clientSocket

section Handler

variable {x : Session} (clientSocket : Socket) (user : Option Ptr)

theorem kept_readFields : Kept SameRecords readFields :=
  @kept_records _ _ Frames.kept_readFields

theorem handle_drops (h : Refused x.buf.unread) :
    Drops clientSocket x.server
      (finalState ((HandshakePacket.handle clientSocket user).run x)).server := by
  obtain ⟨l, rest, hbuf, hmakes, hversion⟩ := h
  obtain ⟨typeFields, y, hserver, hrun⟩ := handle_login_run clientSocket user l hbuf
  rw [hrun, finalState_onServer, hserver]
  have hother : (l.fields typeFields).protoVersion ≠ protoVersion := by
    simp only [Login.fields]
    exact hversion
  exact accept_drops l.password.2 hmakes hother

theorem handle_places (h : ¬ Refused x.buf.unread) :
    Places clientSocket x.server
      (finalState ((HandshakePacket.handle clientSocket user).run x)).server := by
  cases hread : readFields.run x with
  | error e y =>
    have hsame : SameRecords x (finalState (readFields.run x)) := kept_readFields.keeps x
    rw [HandshakePacket.handle, run_bind_of_error hread]
    rw [hread] at hsame
    exact hsame.1.places clientSocket
  | ok f y =>
    obtain ⟨l, rest, hbuf⟩ := exists_login hread
    obtain ⟨typeFields, z, hserver, hrun⟩ := handle_login_run clientSocket user l hbuf
    rw [hrun, finalState_onServer, hserver]
    refine accept_places (f := l.fields typeFields) l.password.2 fun hmakes => ?_
    by_contra hversion
    simp only [Login.fields] at hversion
    exact h ⟨l, rest, hbuf, hmakes, hversion⟩

/-- A disconnect closes the connection of a user, and does nothing else. -/
theorem disconnect_run (u : Ptr) {b : UInt8} {tail : List UInt8}
    (hbuf : x.buf.unread = [b] ++ tail) :
    ∃ buf, (ClientDisconnect.handle clientSocket (some u)).run x = .ok () { x with
      buf := buf
      server := { x.server with closedSockets := x.server.closedSockets ++ [clientSocket] } } := by
  obtain ⟨y, hread, hmoved⟩ := PacketFields.reads_byte b x tail hbuf
  have hy : y = { x with buf := PacketFields.advance x.buf 1 } := hmoved
  rw [ClientDisconnect.handle, run_bind_of_ok hread, hy]
  exact ⟨_, rfl⟩

theorem kept_disconnect_none : Kept SameRecords (ClientDisconnect.handle clientSocket none) := by
  unfold ClientDisconnect.handle
  refine .of_bind inferInstance fun flag => ⟨fun y => ?_⟩
  exact Std.Refl.refl y

end Handler

end Login

end Win64Server.Tables
