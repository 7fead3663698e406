import Win64Server.Tables
import Win64Server.Library.Runs

/-!
What is left of a connection that the server has closed. A connection is recorded in four tables,
and the call that handles its bytes keeps the stream until it has taken all packets off it. The
model interleaves these calls packet by packet with new connections, with the timer that drops
sockets nothing was received from, and with the passes of the update.
-/
namespace Win64Server.ClosedConnections

open Outcome Library BasicStream ChunkedFraming FramingSafety Tables

/-- `calls` holds the stream of each call of `handle_client` under way. `closed` are the sockets
that were closed and not handed out again, `late` those of them with a packet dispatched since;
`stopped` says that the program has ended with a fault. -/
structure Service where
  server : Server
  calls : Socket → Option BasicStream
  closed : List Socket
  late : List Socket
  stopped : Bool

inductive Event
  | connect (clientSocket : Socket)
  | receive (clientSocket : Socket) (now : ℤ) (chunk : Received)
  | pass (clientSocket : Socket)
  | expire (clientSocket : Socket)
  | others (f : {f : Server → Server // ∀ s, SameTables s (f s)})

namespace Service

/-- Before the first connection. -/
def start (storage : Ptr → Storage) : Service where
  server := .initial storage
  calls := fun _ => none
  closed := []
  late := []
  stopped := false

/-- The main loop lists a new connection, which has a number that no open one has. -/
def connect (w : Service) (clientSocket : Socket) : Service :=
  if (clientSocket ∈ w.server.clientSockets ∧ clientSocket ∉ w.closed) ∨
      (w.calls clientSocket).isSome then w
  else
    { w with
      server := { w.server with clientSockets := w.server.clientSockets ++ [clientSocket] }
      closed := w.closed.filter (· ≠ clientSocket) }

/-- `handle_client` up to the loop, for a listed socket: the stream is created if need be, the
time noted and the bytes added. -/
def receive (w : Service) (clientSocket : Socket) (now : ℤ) (chunk : Received) : Service :=
  if clientSocket ∈ w.server.clientSockets ∧ (w.calls clientSocket).isNone then
    let before := (w.server.byteData.lookup clientSocket).getD .empty
    let buf := finalState ((addData chunk.bytes chunk.spare).run before)
    { w with
      server := { w.server with
        byteData := w.server.byteData.insert clientSocket buf
        lastPacketReceived := w.server.lastPacketReceived.insert clientSocket now }
      calls := Function.update w.calls clientSocket (some buf) }
  else w

/-- The loop goes on after a pass that took a packet off. -/
def goesOn : EStateM.Result Fault Session Bool → Bool
  | .ok more _ => more
  | .error _ _ => false

/-- One pass of the loop over the stream. -/
def result (env : Environment) (w : Service) (clientSocket : Socket) (buf : BasicStream) :
    EStateM.Result Fault Session Bool :=
  (processFrame (registerPackets env) clientSocket).run ⟨w.server, buf, []⟩

/-- The service after a pass. The table shares the stream while it has an entry. -/
def pass (env : Environment) (w : Service) (clientSocket : Socket) (buf : BasicStream) : Service :=
  let y := finalState (w.result env clientSocket buf)
  { server := { y.server with
      byteData := if clientSocket ∈ y.server.byteData then
        y.server.byteData.insert clientSocket y.buf else y.server.byteData }
    calls := Function.update w.calls clientSocket
      (if goesOn (w.result env clientSocket buf) then some y.buf else none)
    closed := if y.server.closedSockets = w.server.closedSockets then w.closed
      else clientSocket :: w.closed
    late := if clientSocket ∈ w.closed ∧ y.dispatched ≠ [] then clientSocket :: w.late else w.late
    stopped := !returned (w.result env clientSocket buf) }

/-- The loop of a call makes another pass, or ends when its stream is empty. -/
def advance (env : Environment) (w : Service) (clientSocket : Socket) : Service :=
  match w.calls clientSocket with
  | none => w
  | some buf =>
    if buf.available > 0 then w.pass env clientSocket buf
    else { w with calls := Function.update w.calls clientSocket none }

def step (env : Environment) (w : Service) (e : Event) : Service :=
  if w.stopped then w
  else match e with
    | .connect clientSocket => w.connect clientSocket
    | .receive clientSocket now chunk => w.receive clientSocket now chunk
    | .pass clientSocket => w.advance env clientSocket
    | .expire clientSocket =>
      { w with server := { w.server with
          lastPacketReceived := w.server.lastPacketReceived.erase clientSocket } }
    | .others f => { w with server := f.1 w.server }

end Service

/-- No table has a record of the socket. -/
structure Forgotten (s : Server) (clientSocket : Socket) : Prop where
  clientSockets : clientSocket ∉ s.clientSockets
  clients : s.clientManager.getUserBySocket clientSocket = none
  byteData : clientSocket ∉ s.byteData
  lastPacketReceived : clientSocket ∉ s.lastPacketReceived

/-- Every closed connection is dead. -/
structure Dead (w : Service) : Prop where
  late : w.late = []
  forgotten : ∀ clientSocket ∈ w.closed, Forgotten w.server clientSocket

/-- What a login that is refused must find, to leave no record of its connection. -/
structure Droppable (s : Server) (clientSocket : Socket) : Prop where
  once : s.clientSockets.count clientSocket = 1
  clients : s.clientManager.getUserBySocket clientSocket = none
  lastPacketReceived : clientSocket ∉ s.lastPacketReceived

/-- The packet with this id and these bytes from its payload on is not the disconnect of a user,
and if it is a login that is refused, its connection can be dropped. -/
structure Permitted (s : Server) (clientSocket : Socket) (id : ℕ) (unread : List UInt8) : Prop where
  disconnect : id = 9 → s.clientManager.getUserBySocket clientSocket = none
  login : id = 45 → Refused unread → clientSocket ∈ s.clientSockets → Droppable s clientSocket

/-- A pass that finds a packet finds a permitted one, and not on a closed connection. -/
def Clean (env : Environment) (w : Service) : Event → Prop
  | .pass clientSocket => w.stopped = false → ∀ buf, w.calls clientSocket = some buf →
      ∀ id payload rest,
        splitFrame (registerPackets env) buf.unread = some ((id, payload), rest) →
          clientSocket ∉ w.closed ∧ Permitted w.server clientSocket id (payload ++ rest)
  | _ => True

section Passes

variable {env : Environment} (clientSocket : Socket) {x : Session}

def SameDispatched (x y : Session) : Prop := y.dispatched = x.dispatched

instance : IsTrans Session SameDispatched := ⟨fun _ _ _ h h' => h'.trans h⟩

theorem keepsDispatched_of_kept {α : Type} (program : HandlerM α) [h : Kept SameRecords program] :
    Keeps SameDispatched program := h.keeps.mono fun _ _ hsame => hsame.2

theorem keepsDispatched_onServer {α : Type} (op : ServerM α) :
    Keeps SameDispatched (onServer op) := by
  intro x
  rw [run_onServer]
  cases op.run x.server <;> rfl

/-- What has been dispatched is noted ahead of the handler. -/
theorem keepsDispatched_handle {packet : Packet} {id : ℤ}
    (h : (registerPackets env).getPacket id = some packet) (user : Option Ptr) :
    Keeps SameDispatched (packet.handle clientSocket user) := by
  rcases kept_handle env clientSocket user h with ⟨-, rfl⟩ | ⟨-, rfl⟩ | ⟨-, -, hkept⟩
  · have hfields : Kept SameRecords HandshakePacket.readFields := kept_readFields
    exact (keepsDispatched_of_kept _).bind fun f => keepsDispatched_onServer _
  · exact (keepsDispatched_of_kept _).bind fun flag => (keepsDispatched_of_kept _).bind fun u =>
      keepsDispatched_onServer _
  · exact keepsDispatched_of_kept _

/-- A pass that finds no packet leaves the tables alone. -/
theorem processFrame_waits (hne : x.buf.unread ≠ [])
    (h : splitFrame (registerPackets env) x.buf.unread = none) :
    SameRecords x (finalState ((processFrame (registerPackets env) clientSocket).run x)) := by
  obtain ⟨b, tail, hbuf⟩ := List.exists_cons_of_ne_nil hne
  cases hpacket : (registerPackets env).getPacket b.toNat with
  | none =>
    rw [processFrame_head _ clientSocket hbuf, hpacket]
    exact ⟨Std.Refl.refl _, rfl⟩
  | some packet =>
    have hvalid : ValidSize packet.size :=
      validSize_of_registered (registered_of_getPacket hpacket).1
    rw [processFrame_incomplete clientSocket hbuf hpacket hvalid h]
    exact ⟨Std.Refl.refl _, rfl⟩

/-- A pass that finds a packet does to the tables what its handler does. -/
theorem processFrame_handles {payload rest : List UInt8} {id : ℕ} {packet : Packet}
    (h : splitFrame (registerPackets env) x.buf.unread = some ((id, payload), rest))
    (hpacket : (registerPackets env).getPacket id = some packet) :
    ∃ z, z.server = x.server ∧ z.buf.unread = payload ++ rest ∧
      z.dispatched = x.dispatched ++ [(id, payload)] ∧
      SameRecords
        (finalState ((packet.handle clientSocket
          (x.server.clientManager.getUserBySocket clientSocket)).run z))
        (finalState ((processFrame (registerPackets env) clientSocket).run x)) := by
  obtain ⟨hrun, hunread, -⟩ := processFrame_handled clientSocket h hpacket
  have hhandle := processPacket_run clientSocket (x := { x with buf := atPayload x packet })
    hpacket hunread
  refine ⟨{ x with
    buf := atPayload x packet
    dispatched := x.dispatched ++ [(id, payload)] }, rfl, hunread, rfl, ?_⟩
  rw [hrun, ← hhandle]
  exact Keeps.after _ (fun _ => Kept.keeps) _

end Passes

section Records

variable {s t : Server} {clientSocket c : Socket}

theorem forgotten_congr (h : SameTables s t) : Forgotten t c ↔ Forgotten s c := by
  constructor
  · rintro ⟨h1, h2, h3, h4⟩
    rw [h.clientSockets] at h1
    rw [h.clientManager] at h2
    rw [h.byteData] at h3
    rw [h.lastPacketReceived] at h4
    exact ⟨h1, h2, h3, h4⟩
  · rintro ⟨h1, h2, h3, h4⟩
    rw [← h.clientSockets] at h1
    rw [← h.clientManager] at h2
    rw [← h.byteData] at h3
    rw [← h.lastPacketReceived] at h4
    exact ⟨h1, h2, h3, h4⟩

/-- Saving the stream of an entry adds none. -/
theorem forgotten_save (buf : BasicStream) :
    Forgotten { s with byteData := if clientSocket ∈ s.byteData then
      s.byteData.insert clientSocket buf else s.byteData } c ↔ Forgotten s c := by
  have hmem : (c ∈ if clientSocket ∈ s.byteData then s.byteData.insert clientSocket buf
      else s.byteData) ↔ c ∈ s.byteData := by
    split
    · next hin =>
      rw [AList.mem_insert]
      exact ⟨fun h => h.elim (fun heq => heq ▸ hin) id, Or.inr⟩
    · exact Iff.rfl
  constructor
  · rintro ⟨h1, h2, h3, h4⟩
    exact ⟨h1, h2, mt hmem.mpr h3, h4⟩
  · rintro ⟨h1, h2, h3, h4⟩
    exact ⟨h1, h2, mt hmem.mp h3, h4⟩

theorem forgotten_of_places (h : Places clientSocket s t) (hc : c ≠ clientSocket)
    (hforgotten : Forgotten s c) : Forgotten t c where
  clientSockets := by rw [h.clientSockets]; exact hforgotten.clientSockets
  clients := (h.clients c hc).trans hforgotten.clients
  byteData := by rw [h.byteData]; exact hforgotten.byteData
  lastPacketReceived := by rw [h.lastPacketReceived]; exact hforgotten.lastPacketReceived

theorem forgotten_of_drops (h : Drops clientSocket s t) (hforgotten : Forgotten s c) :
    Forgotten t c where
  clientSockets := by
    rw [h.clientSockets]
    exact fun hmem => hforgotten.clientSockets (List.mem_of_mem_erase hmem)
  clients := (h.clients c).trans hforgotten.clients
  byteData := by
    rw [h.byteData, AList.mem_erase]
    exact fun hmem => hforgotten.byteData hmem.2
  lastPacketReceived := by rw [h.lastPacketReceived]; exact hforgotten.lastPacketReceived

/-- The connection of a refused login is forgotten exactly when it could be dropped. -/
theorem forgotten_iff_droppable (h : Drops clientSocket s t)
    (hmem : clientSocket ∈ s.clientSockets) :
    Forgotten t clientSocket ↔ Droppable s clientSocket := by
  have hcount : clientSocket ∉ t.clientSockets ↔ s.clientSockets.count clientSocket = 1 := by
    have hpos : 0 < s.clientSockets.count clientSocket := List.count_pos_iff.mpr hmem
    rw [h.clientSockets, ← List.count_eq_zero, List.count_erase_self]
    omega
  have hdata : clientSocket ∉ t.byteData := by
    rw [h.byteData, AList.mem_erase]
    exact fun hne => hne.1 rfl
  constructor
  · rintro ⟨h1, h2, -, h4⟩
    exact ⟨hcount.mp h1, (h.clients _).symm.trans h2, by rwa [h.lastPacketReceived] at h4⟩
  · rintro ⟨h1, h2, h3⟩
    exact ⟨hcount.mpr h1, (h.clients _).trans h2, hdata, by rwa [h.lastPacketReceived]⟩

end Records

section Steps

variable {env : Environment} {w : Service} {clientSocket : Socket} {buf : BasicStream} {y : Session}

/-- A pass that does not close its connection. -/
theorem dead_pass_open (hdead : Dead w) (hy : finalState (w.result env clientSocket buf) = y)
    (hclosed : y.server.closedSockets = w.server.closedSockets)
    (hlate : clientSocket ∉ w.closed ∨ y.dispatched = [])
    (hforgotten : ∀ c ∈ w.closed, Forgotten y.server c) : Dead (w.pass env clientSocket buf) := by
  have hnot : ¬ (clientSocket ∈ w.closed ∧ y.dispatched ≠ []) :=
    fun h => hlate.elim (fun hopen => hopen h.1) h.2
  subst hy
  refine ⟨?_, fun c hc => ?_⟩
  · rw [Service.pass, if_neg hnot]
    exact hdead.late
  · have hbefore : c ∈ w.closed := by simpa only [Service.pass, hclosed, if_true] using hc
    exact (forgotten_save _).mpr (hforgotten c hbefore)

/-- A pass that closes its connection. -/
theorem dead_pass_close_iff (hdead : Dead w) (hy : finalState (w.result env clientSocket buf) = y)
    (hclosed : y.server.closedSockets ≠ w.server.closedSockets) (hopen : clientSocket ∉ w.closed)
    (hforgotten : ∀ c ∈ w.closed, Forgotten y.server c) :
    Dead (w.pass env clientSocket buf) ↔ Forgotten y.server clientSocket := by
  subst hy
  have hlist : (w.pass env clientSocket buf).closed = clientSocket :: w.closed := if_neg hclosed
  have hlate : (w.pass env clientSocket buf).late = w.late := if_neg fun h => hopen h.1
  constructor
  · intro h
    refine (forgotten_save _).mp (h.forgotten clientSocket ?_)
    rw [hlist]
    exact List.mem_cons_self
  · intro h
    refine ⟨hlate.trans hdead.late, fun c hc => (forgotten_save _).mpr ?_⟩
    rw [hlist] at hc
    rcases List.mem_cons.mp hc with rfl | hc
    · exact h
    · exact hforgotten c hc

/-- A pass that dispatches a packet of a closed connection. -/
theorem not_dead_pass_closed (hclosed : clientSocket ∈ w.closed)
    (hdispatched : (finalState (w.result env clientSocket buf)).dispatched ≠ []) :
    ¬ Dead (w.pass env clientSocket buf) := by
  intro h
  have hlate : (w.pass env clientSocket buf).late = clientSocket :: w.late :=
    if_pos ⟨hclosed, hdispatched⟩
  rw [h.late] at hlate
  cases hlate

/-- A packet that leaves its connection open leaves the closed ones dead. -/
theorem dead_pass_places (hdead : Dead w) (hopen : clientSocket ∉ w.closed)
    (hplaces : Places clientSocket w.server y.server)
    (hsame : SameTables y.server (finalState (w.result env clientSocket buf)).server) :
    Dead (w.pass env clientSocket buf) := by
  have hclosed := hsame.closedSockets.trans hplaces.closedSockets
  refine dead_pass_open hdead rfl hclosed (Or.inl hopen) fun c hc => ?_
  have hne : c ≠ clientSocket := fun heq => hopen (heq ▸ hc)
  exact (forgotten_congr hsame).mpr (forgotten_of_places hplaces hne (hdead.forgotten c hc))

/-- A refused login leaves its connection dead exactly when that can be dropped. -/
theorem dead_pass_drops_iff (hdead : Dead w) (hopen : clientSocket ∉ w.closed)
    (hdrops : Drops clientSocket w.server y.server)
    (hsame : SameTables y.server (finalState (w.result env clientSocket buf)).server) :
    Dead (w.pass env clientSocket buf) ↔
      (clientSocket ∈ w.server.clientSockets → Droppable w.server clientSocket) := by
  have hforgotten : ∀ c ∈ w.closed,
      Forgotten (finalState (w.result env clientSocket buf)).server c := fun c hc =>
    (forgotten_congr hsame).mpr (forgotten_of_drops hdrops (hdead.forgotten c hc))
  have hclosed := hsame.closedSockets.trans hdrops.closedSockets
  by_cases hmem : clientSocket ∈ w.server.clientSockets
  · rw [if_pos hmem] at hclosed
    have hne : (finalState (w.result env clientSocket buf)).server.closedSockets ≠
        w.server.closedSockets := by
      rw [hclosed]
      simp
    rw [dead_pass_close_iff hdead rfl hne hopen hforgotten, forgotten_congr hsame,
      forgotten_iff_droppable hdrops hmem]
    exact ⟨fun h _ => h, fun h => h hmem⟩
  · rw [if_neg hmem, List.append_nil] at hclosed
    exact iff_of_true (dead_pass_open hdead rfl hclosed (Or.inl hopen) hforgotten)
      fun h => absurd h hmem

/-- The user of a connection that is disconnected stays in the registry. -/
theorem not_dead_pass_disconnect (hdead : Dead w) (hopen : clientSocket ∉ w.closed) {u : Ptr}
    (hu : w.server.clientManager.getUserBySocket clientSocket = some u)
    (hserver : y.server =
      { w.server with closedSockets := w.server.closedSockets ++ [clientSocket] })
    (hsame : SameTables y.server (finalState (w.result env clientSocket buf)).server) :
    ¬ Dead (w.pass env clientSocket buf) := by
  have hne : (finalState (w.result env clientSocket buf)).server.closedSockets ≠
      w.server.closedSockets := by
    rw [hsame.closedSockets, hserver]
    simp
  have hforgotten : ∀ c ∈ w.closed,
      Forgotten (finalState (w.result env clientSocket buf)).server c := by
    intro c hc
    obtain ⟨h1, h2, h3, h4⟩ := hdead.forgotten c hc
    refine (forgotten_congr hsame).mpr ?_
    rw [hserver]
    exact ⟨h1, h2, h3, h4⟩
  rw [dead_pass_close_iff hdead rfl hne hopen hforgotten, forgotten_congr hsame, hserver]
  intro h
  have hnone : w.server.clientManager.getUserBySocket clientSocket = none := h.clients
  rw [hu] at hnone
  cases hnone

/-- The disconnect has a payload of one byte. -/
theorem payload_disconnect {payload rest : List UInt8}
    (h : splitFrame (registerPackets env) buf.unread = some ((9, payload), rest)) :
    ∃ b tail, payload ++ rest = [b] ++ tail := by
  obtain ⟨b, tail, packet, n, body, -, hpacket, hsize, hn, hid, rfl, rfl⟩ :=
    splitFrame_eq_some.mp h
  rw [← hid] at hpacket
  obtain rfl : packet = clientDisconnect := by
    rcases kept_handle env 0 none hpacket with ⟨h45, -⟩ | ⟨-, heq⟩ | ⟨-, h9, -⟩
    · exact absurd h45 (by decide)
    · exact heq
    · exact absurd rfl h9
  have hone : n = 1 := by
    have hsplit : splitSize 1 tail = some (n, body) := hsize
    simp only [splitSize, sizeBytes] at hsplit
    simp at hsplit
    exact hsplit.1.symm
  obtain ⟨c, body', rfl⟩ : ∃ c body', body = c :: body' := by
    cases body with
    | nil => simp [hone] at hn
    | cons c body' => exact ⟨c, body', rfl⟩
  exact ⟨c, body', List.take_append_drop n _⟩

theorem dead_pass_packet_iff (hdead : Dead w) (hopen : clientSocket ∉ w.closed)
    {payload rest : List UInt8} {id : ℕ} {packet : Packet} {z : Session}
    (hframe : splitFrame (registerPackets env) buf.unread = some ((id, payload), rest))
    (hpacket : (registerPackets env).getPacket id = some packet) (hserver : z.server = w.server)
    (hunread : z.buf.unread = payload ++ rest)
    (hsame : SameTables (finalState ((packet.handle clientSocket
        (w.server.clientManager.getUserBySocket clientSocket)).run z)).server
      (finalState (w.result env clientSocket buf)).server) :
    Dead (w.pass env clientSocket buf) ↔
      Permitted w.server clientSocket id (payload ++ rest) := by
  rcases kept_handle env clientSocket (w.server.clientManager.getUserBySocket clientSocket) hpacket
    with ⟨hid, rfl⟩ | ⟨hid, rfl⟩ | ⟨hlogin, hdisconnect, hkept⟩
  · obtain rfl : id = 45 := by omega
    by_cases hrefused : Refused z.buf.unread
    · have hdrops := handle_drops clientSocket
        (w.server.clientManager.getUserBySocket clientSocket) hrefused
      rw [hserver] at hdrops
      rw [hunread] at hrefused
      rw [dead_pass_drops_iff hdead hopen hdrops hsame]
      exact ⟨fun h => ⟨by simp, fun _ _ => h⟩, fun h => h.login rfl hrefused⟩
    · have hplaces := handle_places clientSocket
        (w.server.clientManager.getUserBySocket clientSocket) hrefused
      rw [hserver] at hplaces
      rw [hunread] at hrefused
      exact iff_of_true (dead_pass_places hdead hopen hplaces hsame)
        ⟨by simp, fun _ h => absurd h hrefused⟩
  · obtain rfl : id = 9 := by omega
    cases huser : w.server.clientManager.getUserBySocket clientSocket with
    | none =>
      rw [huser] at hsame
      have hplaces := ((kept_disconnect_none clientSocket).keeps z).1.places clientSocket
      rw [hserver] at hplaces
      exact iff_of_true (dead_pass_places hdead hopen hplaces hsame) ⟨fun _ => huser, by simp⟩
    | some u =>
      rw [huser] at hsame
      obtain ⟨b, tail, hbytes⟩ := payload_disconnect hframe
      obtain ⟨buf', hrun⟩ := disconnect_run clientSocket u (hunread.trans hbytes)
      refine iff_of_false (not_dead_pass_disconnect hdead hopen huser ?_ hsame) fun h => ?_
      · show (finalState ((ClientDisconnect.handle clientSocket (some u)).run z)).server = _
        rw [hrun, finalState_ok, hserver]
      · have hnone := h.disconnect rfl
        rw [huser] at hnone
        cases hnone
  · have hplaces := (hkept.keeps z).1.places clientSocket
    rw [hserver] at hplaces
    refine iff_of_true (dead_pass_places hdead hopen hplaces hsame) ⟨fun h => ?_, fun h => ?_⟩
    · exact absurd (congrArg Int.ofNat h) hdisconnect
    · exact absurd (congrArg Int.ofNat h) hlogin

theorem dead_pass_iff (hdead : Dead w) (hne : buf.unread ≠ []) :
    Dead (w.pass env clientSocket buf) ↔ ∀ id payload rest,
      splitFrame (registerPackets env) buf.unread = some ((id, payload), rest) →
        clientSocket ∉ w.closed ∧ Permitted w.server clientSocket id (payload ++ rest) := by
  cases hframe : splitFrame (registerPackets env) buf.unread with
  | none =>
    refine iff_of_true ?_ (by simp)
    have hsame := processFrame_waits clientSocket (x := ⟨w.server, buf, []⟩) hne hframe
    exact dead_pass_open hdead rfl hsame.1.closedSockets (Or.inr hsame.2)
      fun c hc => (forgotten_congr hsame.1).mpr (hdead.forgotten c hc)
  | some frame =>
    obtain ⟨⟨id, payload⟩, rest⟩ := frame
    obtain ⟨packet, hpacket⟩ : ∃ packet, (registerPackets env).getPacket id = some packet := by
      obtain ⟨b, tail, packet, n, body, -, hpacket, -, -, rfl, -, -⟩ := splitFrame_eq_some.mp hframe
      exact ⟨packet, hpacket⟩
    obtain ⟨z, hserver, hunread, hdispatched, hsame⟩ :=
      processFrame_handles clientSocket (x := ⟨w.server, buf, []⟩) hframe hpacket
    have hdone : (finalState (w.result env clientSocket buf)).dispatched = [(id, payload)] :=
      hsame.2.trans ((keepsDispatched_handle clientSocket hpacket _ z).trans hdispatched)
    by_cases hopen : clientSocket ∉ w.closed
    · rw [dead_pass_packet_iff hdead hopen hframe hpacket hserver hunread hsame.1]
      constructor
      · intro h id' payload' rest' heq
        cases heq
        exact ⟨hopen, h⟩
      · exact fun h => (h id payload rest rfl).2
    · refine iff_of_false (not_dead_pass_closed (not_not.mp hopen) ?_)
        fun h => hopen (h id payload rest rfl).1
      rw [hdone]
      simp

/-- The other events leave the closed connections dead. -/
theorem dead_connect (hdead : Dead w) (c : Socket) : Dead (w.connect c) := by
  unfold Service.connect
  split
  · exact hdead
  · refine ⟨hdead.late, fun d hd => ?_⟩
    obtain ⟨hmem, hne⟩ := List.mem_filter.mp hd
    have hne : d ≠ c := by simpa using hne
    obtain ⟨h1, h2, h3, h4⟩ := hdead.forgotten d hmem
    refine ⟨?_, h2, h3, h4⟩
    rw [List.mem_append, List.mem_singleton]
    exact fun h => h.elim h1 hne

theorem dead_receive (hdead : Dead w) (c : Socket) (now : ℤ) (chunk : Received) :
    Dead (w.receive c now chunk) := by
  unfold Service.receive
  split
  · next hlisted =>
    refine ⟨hdead.late, fun d hd => ?_⟩
    obtain ⟨h1, h2, h3, h4⟩ := hdead.forgotten d hd
    have hne : d ≠ c := fun heq => h1 (heq ▸ hlisted.1)
    refine ⟨h1, h2, ?_, ?_⟩
    · rw [AList.mem_insert]
      exact fun h => h.elim hne h3
    · rw [AList.mem_insert]
      exact fun h => h.elim hne h4
  · exact hdead

theorem dead_expire (hdead : Dead w) (c : Socket) :
    Dead { w with server := { w.server with
      lastPacketReceived := w.server.lastPacketReceived.erase c } } where
  late := hdead.late
  forgotten d hd := by
    obtain ⟨h1, h2, h3, h4⟩ := hdead.forgotten d hd
    refine ⟨h1, h2, h3, ?_⟩
    rw [AList.mem_erase]
    exact fun h => h4 h.2

theorem dead_advance_iff (hdead : Dead w) (c : Socket) :
    Dead (w.advance env c) ↔ ∀ buf, w.calls c = some buf → ∀ id payload rest,
      splitFrame (registerPackets env) buf.unread = some ((id, payload), rest) →
        c ∉ w.closed ∧ Permitted w.server c id (payload ++ rest) := by
  unfold Service.advance
  cases hcall : w.calls c with
  | none => exact iff_of_true hdead (by simp)
  | some buf =>
    simp only [Option.some.injEq, forall_eq']
    by_cases havail : buf.available > 0
    · rw [if_pos havail]
      rw [available_eq] at havail
      exact dead_pass_iff hdead (List.ne_nil_of_length_pos havail)
    · rw [if_neg havail]
      rw [available_eq] at havail
      have hnil : buf.unread = [] := List.length_eq_zero_iff.mp (by omega)
      refine iff_of_true ⟨hdead.late, hdead.forgotten⟩ fun id payload rest hframe => ?_
      rw [hnil] at hframe
      cases hframe

theorem dead_step_iff (hdead : Dead w) (e : Event) : Dead (w.step env e) ↔ Clean env w e := by
  unfold Service.step
  by_cases hstopped : w.stopped = true
  · rw [if_pos hstopped]
    refine iff_of_true hdead ?_
    cases e with
    | pass c => exact fun hrunning => absurd hstopped (by rw [hrunning]; decide)
    | _ => exact trivial
  · rw [if_neg hstopped]
    have hrunning : w.stopped = false := Bool.eq_false_of_not_eq_true hstopped
    cases e with
    | connect c => exact iff_of_true (dead_connect hdead c) trivial
    | receive c now chunk => exact iff_of_true (dead_receive hdead c now chunk) trivial
    | expire c => exact iff_of_true (dead_expire hdead c) trivial
    | others f =>
      exact iff_of_true ⟨hdead.late, fun c hc =>
        (forgotten_congr (f.2 w.server)).mpr (hdead.forgotten c hc)⟩ trivial
    | pass c => exact (dead_advance_iff hdead c).trans ⟨fun h _ => h, fun h => h hrunning⟩

end Steps

/-- A login of protocol version 0, with a pong behind it in the same chunk. -/
def refusedChunk : Received where
  bytes := 45 :: (beBytes 2 HandshakeOutcomes.oldController.payload.length ++
    HandshakeOutcomes.oldController.payload) ++ [4]
  spare := []

end Win64Server.ClosedConnections
