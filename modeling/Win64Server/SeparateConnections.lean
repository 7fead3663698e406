import Win64Server.ClosedConnections

/-!
The bytes of one connection. The calls that handle the bytes of different sockets take turns
packet by packet and work on one server. What is taken off a stream are nevertheless the frames of
the bytes that came in on its own socket, whatever arrives on the others and whatever becomes of
it there.
-/
namespace Win64Server.SeparateConnections

open Outcome Library Layout BasicStream ChunkedFraming FramingSafety Tables ClosedConnections
  PacketIsolation Function

/-- A run of the service, with the bytes that came in on each socket since its stream was made and
the packets that were taken off them. -/
structure Trace where
  service : Service
  arrived : Socket → List UInt8
  handled : Socket → List (ℕ × List UInt8)

/-- The packet that the next pass of a call hands out, if any. -/
def taken (env : Environment) (w : Service) (clientSocket : Socket) : List (ℕ × List UInt8) :=
  match w.calls clientSocket with
  | none => []
  | some buf =>
    if buf.available > 0 then (finalState (w.result env clientSocket buf)).dispatched else []

namespace Trace

def start (storage : Ptr → Storage) : Trace where
  service := .start storage
  arrived := fun _ => []
  handled := fun _ => []

/-- A call of `handle_client` has begun with these bytes. -/
def receive (t : Trace) (clientSocket : Socket) (bytes : List UInt8) : Trace :=
  if clientSocket ∈ t.service.server.clientSockets ∧ (t.service.calls clientSocket).isNone then
    if clientSocket ∈ t.service.server.byteData then
      { t with arrived := update t.arrived clientSocket (t.arrived clientSocket ++ bytes) }
    else
      { t with
        arrived := update t.arrived clientSocket bytes
        handled := update t.handled clientSocket [] }
  else t

def note (env : Environment) (t : Trace) : Event → Trace
  | .receive clientSocket _ chunk => t.receive clientSocket chunk.bytes
  | .pass clientSocket =>
    { t with
      handled := update t.handled clientSocket
        (t.handled clientSocket ++ taken env t.service clientSocket) }
  | _ => t

def step (env : Environment) (t : Trace) (e : Event) : Trace :=
  if t.service.stopped then t
  else { t.note env e with service := t.service.step env e }

end Trace

/-- A pass that finds a packet on this socket finds one that its handler reads to the end. -/
def Exact (env : Environment) (clientSocket : Socket) (t : Trace) : Event → Prop
  | .pass c => c = clientSocket → ∀ buf, t.service.calls clientSocket = some buf →
      ∀ id payload rest,
        splitFrame (registerPackets env) buf.unread = some ((id, payload), rest) →
          Encodes 0 (payloadLayout id) payload ∨
            (rest = [] ∧ CutShort 0 (payloadLayout id) payload)
  | _ => True

/-- The frames of the bytes that came in are the packets handled and then those of `unread`. -/
def Continues (env : Environment) (arrived : List UInt8) (handled : List (ℕ × List UInt8))
    (unread : List UInt8) : Prop :=
  ∀ fs tail, (packetFramer (registerPackets env)).Frames unread fs tail →
    (packetFramer (registerPackets env)).Frames arrived (handled ++ fs) tail

/-- The stream of a socket, in the hands of a call or saved in the table, holds the end of the
socket's own bytes. While no call is at it, what it holds is no complete frame. -/
structure OwnBytes (env : Environment) (call saved : Option BasicStream) (arrived : List UInt8)
    (handled : List (ℕ × List UInt8)) : Prop where
  called : ∀ buf ∈ call, buf.index = 0 ∧ Continues env arrived handled buf.unread ∧
    ∀ other ∈ saved, other = buf
  idle : call = none → ∀ buf ∈ saved, buf.index = 0 ∧
    (packetFramer (registerPackets env)).Frames arrived handled buf.unread

/-- The state of a socket in a run. -/
def Trace.Own (env : Environment) (clientSocket : Socket) (t : Trace) : Prop :=
  OwnBytes env (t.service.calls clientSocket) (t.service.server.byteData.lookup clientSocket)
    (t.arrived clientSocket) (t.handled clientSocket)

section Passes

variable {env : Environment} {w : Service} {clientSocket : Socket} {buf : BasicStream}

def SameStreams (x y : Session) : Prop := y.server.byteData = x.server.byteData

instance : IsTrans Session SameStreams := ⟨fun _ _ _ h h' => h'.trans h⟩

theorem keeps_of_kept {α : Type} (program : HandlerM α) [h : Kept SameRecords program] :
    Keeps SameStreams program := h.keeps.mono fun _ _ hsame => hsame.1.byteData

theorem keeps_disconnect (clientSocket : Socket) (user : Option Ptr) :
    Keeps SameStreams (ClientDisconnect.handle clientSocket user) :=
  (keeps_of_kept _).bind fun _ => (keeps_of_kept _).bind fun _ => fun _ => rfl

/-- A packet drops the stream of its own socket at most. -/
theorem byteData_handle {packet : Packet} {id : ℤ}
    (hpacket : (registerPackets env).getPacket id = some packet) (user : Option Ptr) (z : Session) :
    (finalState ((packet.handle clientSocket user).run z)).server.byteData = z.server.byteData ∨
      (finalState ((packet.handle clientSocket user).run z)).server.byteData =
        z.server.byteData.erase clientSocket := by
  rcases kept_handle env clientSocket user hpacket with ⟨-, rfl⟩ | ⟨-, rfl⟩ | ⟨-, -, hkept⟩
  · by_cases hrefused : Refused z.buf.unread
    · exact .inr (handle_drops clientSocket user hrefused).byteData
    · exact .inl (handle_places clientSocket user hrefused).byteData
  · exact .inl (keeps_disconnect clientSocket user z)
  · exact .inl (hkept.keeps z).1.byteData

theorem byteData_result (hne : buf.unread ≠ []) :
    (finalState (w.result env clientSocket buf)).server.byteData = w.server.byteData ∨
      (finalState (w.result env clientSocket buf)).server.byteData =
        w.server.byteData.erase clientSocket := by
  cases hframe : splitFrame (registerPackets env) buf.unread with
  | none =>
    exact .inl (processFrame_waits clientSocket (x := ⟨w.server, buf, []⟩) hne hframe).1.byteData
  | some frame =>
    obtain ⟨⟨id, payload⟩, rest⟩ := frame
    obtain ⟨b, tail, packet, n, body, -, hpacket, -, -, rfl, -, -⟩ := splitFrame_eq_some.mp hframe
    obtain ⟨z, hserver, -, -, hsame⟩ :=
      processFrame_handles clientSocket (x := ⟨w.server, buf, []⟩) hframe hpacket
    have hdata : (finalState (w.result env clientSocket buf)).server.byteData = _ :=
      hsame.1.byteData
    rw [hdata]
    have hstart : z.server.byteData = w.server.byteData := by rw [hserver]
    rw [← hstart]
    exact byteData_handle hpacket _ z

/-- A pass over a packet that its handler reads to the end leaves the bytes behind it. -/
theorem result_exact {id : ℕ} {payload rest : List UInt8} (hindex : buf.index = 0)
    (hframe : splitFrame (registerPackets env) buf.unread = some ((id, payload), rest))
    (hexact : Encodes 0 (payloadLayout id) payload ∨
      (rest = [] ∧ CutShort 0 (payloadLayout id) payload)) :
    (∃ y, w.result env clientSocket buf = .ok true y ∧ y.buf.unread = rest ∧ y.buf.index = 0 ∧
      y.dispatched = [(id, payload)]) ∨
    ∃ e y, w.result env clientSocket buf = .error e y := by
  let x : Session := ⟨w.server, buf, []⟩
  obtain ⟨b, tail, packet, n, body, hunread, hpacket, hsize, -, rfl, -, -⟩ :=
    splitFrame_eq_some.mp hframe
  obtain ⟨hpass, hpayload, -⟩ := processFrame_handled clientSocket (x := x) hframe hpacket
  have hprocess := processPacket_run clientSocket (x := { x with buf := atPayload x packet })
    hpacket hpayload
  have hresult : w.result env clientSocket buf =
      (processFrame (registerPackets env) clientSocket).run x := rfl
  rw [hresult, hpass, EStateM.run_bind, hprocess]
  cases hreturns : (packet.handle clientSocket
      (x.server.clientManager.getUserBySocket clientSocket)).run
      { x with
        buf := atPayload x packet
        dispatched := x.dispatched ++ [(b.toNat, payload)] } with
  | error e y => exact .inr ⟨e, y, rfl⟩
  | ok _ z =>
    obtain ⟨k, htakes, hz⟩ := handle_follows env clientSocket _ hpacket _ () z hreturns
    change Takes 0 _ (atPayload x packet).unread k at htakes
    change z.buf = { atPayload x packet with index := (atPayload x packet).index + k } at hz
    obtain rfl : k = payload.length :=
      htakes.unique (by rw [hpayload]; exact takes_append_iff.mpr hexact)
    obtain ⟨t, hdelete, ht, htindex⟩ := deleteMarkedBlock_atPayload hunread htakes.le_length
      (splitSize_drop hsize).1
    have hdone : z.dispatched = [(b.toNat, payload)] := by
      have hkeeps := keepsDispatched_handle clientSocket hpacket
        (x.server.clientManager.getUserBySocket clientSocket)
        { x with
          buf := atPayload x packet
          dispatched := x.dispatched ++ [(b.toNat, payload)] }
      rw [hreturns] at hkeeps
      exact hkeeps
    refine .inl ⟨{ z with buf := t }, ?_, ?_, htindex.trans hindex, hdone⟩
    · rw [← hz] at hdelete
      show ((do onBuf deleteMarkedBlock; return true : HandlerM Bool)).run z = _
      rw [run_bind_of_ok (onBuf_ok.mpr ⟨t, hdelete, rfl⟩)]
      rfl
    · rw [ht, hpayload, List.drop_left]

/-- A pass that finds no packet ends its call with the bytes still there, or ends the program. -/
theorem result_waits (hne : buf.unread ≠ [])
    (hframe : splitFrame (registerPackets env) buf.unread = none) :
    w.result env clientSocket buf = .ok false ⟨w.server, { buf with mark := none }, []⟩ ∨
      ∃ e y, w.result env clientSocket buf = .error e y := by
  let x : Session := ⟨w.server, buf, []⟩
  obtain ⟨b, tail, hbuf⟩ := List.exists_cons_of_ne_nil hne
  cases hpacket : (registerPackets env).getPacket b.toNat with
  | none =>
    obtain ⟨y, hy⟩ := processFrame_null clientSocket (x := x) hbuf hpacket
    exact .inr ⟨_, y, hy⟩
  | some packet =>
    have hvalid : ValidSize packet.size :=
      validSize_of_registered (registered_of_getPacket hpacket).1
    exact .inl (processFrame_incomplete clientSocket (x := x) hbuf hpacket hvalid hframe)

end Passes

section Steps

variable {env : Environment} {t : Trace} {clientSocket c : Socket} {buf : BasicStream}
  {saved : Option BasicStream} {arrived : List UInt8} {handled : List (ℕ × List UInt8)}

/-- A call begins: its bytes go behind those that the stream holds. -/
theorem OwnBytes.receive (h : OwnBytes env none (some buf) arrived handled) (chunk : Received) :
    OwnBytes env (some (finalState ((addData chunk.bytes chunk.spare).run buf)))
      (some (finalState ((addData chunk.bytes chunk.spare).run buf)))
      (arrived ++ chunk.bytes) handled := by
  obtain ⟨hstart, hframes⟩ := h.idle rfl buf rfl
  obtain ⟨next, hadd, hunread, hindex⟩ := addData_unread buf chunk.bytes chunk.spare hstart
  rw [hadd, finalState_ok]
  refine ⟨fun called hcalled => ?_, nofun⟩
  obtain rfl := Option.some_inj.mp hcalled
  refine ⟨hindex, fun fs tail hnext => ?_, fun other hother => (Option.some_inj.mp hother).symm⟩
  rw [hunread] at hnext
  exact hframes.append hnext

theorem ownBytes_receive_new (chunk : Received) :
    OwnBytes env (some (finalState ((addData chunk.bytes chunk.spare).run .empty)))
      (some (finalState ((addData chunk.bytes chunk.spare).run .empty))) chunk.bytes [] := by
  have hempty : OwnBytes env none (some .empty) [] [] := by
    refine ⟨nofun, fun _ buf hbuf => ?_⟩
    obtain rfl := Option.some_inj.mp hbuf
    exact ⟨rfl, .stop rfl⟩
  exact hempty.receive chunk

/-- A call ends at a stream without a complete frame. -/
theorem OwnBytes.wait (h : OwnBytes env (some buf) saved arrived handled)
    (hframe : splitFrame (registerPackets env) buf.unread = none) {left : Option BasicStream}
    (hleft : ∀ o ∈ left, o.index = buf.index ∧ o.unread = buf.unread) :
    OwnBytes env none left arrived handled := by
  obtain ⟨hindex, hcontinues, -⟩ := h.called buf rfl
  refine ⟨nofun, fun _ o ho => ?_⟩
  obtain ⟨hsame, hunread⟩ := hleft o ho
  have hframes := hcontinues [] _ (.stop hframe)
  rw [List.append_nil, ← hunread] at hframes
  exact ⟨hsame.trans hindex, hframes⟩

/-- A call takes a packet off its stream. -/
theorem OwnBytes.handle (h : OwnBytes env (some buf) saved arrived handled)
    {frame : ℕ × List UInt8} {next : BasicStream}
    (hframe : splitFrame (registerPackets env) buf.unread = some (frame, next.unread))
    (hindex : next.index = 0) {other : Option BasicStream} (hother : ∀ o ∈ other, o = next) :
    OwnBytes env (some next) other arrived (handled ++ [frame]) := by
  obtain ⟨-, hcontinues, -⟩ := h.called buf rfl
  refine ⟨fun called hcalled => ?_, nofun⟩
  obtain rfl := Option.some_inj.mp hcalled
  refine ⟨hindex, fun fs tail hnext => ?_, hother⟩
  have hframes := hcontinues (frame :: fs) tail (.cons hframe hnext)
  rwa [List.append_assoc]

theorem unread_of_available (h : ¬ buf.available > 0) : buf.unread = [] := by
  rw [available_eq] at h
  exact List.length_eq_zero_iff.mp (by omega)

/-- The table after a pass of the call at the socket. -/
theorem lookup_pass {w : Service} (buf : BasicStream) :
    ∀ o ∈ (w.pass env clientSocket buf).server.byteData.lookup clientSocket,
      o = (finalState (w.result env clientSocket buf)).buf := by
  intro o ho
  by_cases hmem : clientSocket ∈ (finalState (w.result env clientSocket buf)).server.byteData
  · have hdata : (w.pass env clientSocket buf).server.byteData = _ := if_pos hmem
    rw [hdata, AList.lookup_insert] at ho
    exact (Option.some_inj.mp ho).symm
  · have hdata : (w.pass env clientSocket buf).server.byteData = _ := if_neg hmem
    rw [hdata, AList.lookup_eq_none.mpr hmem] at ho
    cases ho

/-- A pass of the call at the socket itself. -/
theorem own_pass (h : t.Own env clientSocket) (hbuf : t.service.calls clientSocket = some buf)
    (havail : buf.available > 0) (hexact : Exact env clientSocket t (.pass clientSocket))
    (hrunning : (t.service.pass env clientSocket buf).stopped = false) :
    OwnBytes env ((t.service.pass env clientSocket buf).calls clientSocket)
      ((t.service.pass env clientSocket buf).server.byteData.lookup clientSocket)
      (t.arrived clientSocket)
      (t.handled clientSocket ++
        (finalState (t.service.result env clientSocket buf)).dispatched) := by
  have hne : buf.unread ≠ [] := by
    rw [available_eq] at havail
    exact List.ne_nil_of_length_pos havail
  rw [Trace.Own, hbuf] at h
  obtain ⟨hindex, -, -⟩ := h.called buf rfl
  have htable : ∀ o ∈ (t.service.pass env clientSocket buf).server.byteData.lookup clientSocket,
      o = (finalState (t.service.result env clientSocket buf)).buf := lookup_pass buf
  have hcall : (t.service.pass env clientSocket buf).calls clientSocket =
      if Service.goesOn (t.service.result env clientSocket buf) then
        some (finalState (t.service.result env clientSocket buf)).buf else none :=
    update_self ..
  have hreturned : returned (t.service.result env clientSocket buf) = true := by
    simpa [Service.pass] using hrunning
  rw [hcall]
  cases hframe : splitFrame (registerPackets env) buf.unread with
  | none =>
    rcases result_waits (w := t.service) hne hframe with hrun | ⟨e, y, hrun⟩
    · rw [hrun] at htable ⊢
      rw [finalState_ok, List.append_nil]
      refine h.wait hframe fun o ho => ?_
      rw [htable o ho]
      exact ⟨rfl, rfl⟩
    · rw [hrun] at hreturned
      cases hreturned
  | some frame =>
    obtain ⟨⟨id, payload⟩, rest⟩ := frame
    have hreads := hexact rfl buf hbuf id payload rest hframe
    rcases result_exact (w := t.service) hindex hframe hreads with
      ⟨y, hrun, hunread, hstart, hdispatched⟩ | ⟨e, y, hrun⟩
    · rw [hrun] at htable ⊢
      rw [finalState_ok, hdispatched]
      rw [← hunread] at hframe
      exact h.handle hframe hstart htable
    · rw [hrun] at hreturned
      cases hreturned

/-- A pass at another socket. -/
theorem lookup_pass_ne {w : Service} (hc : clientSocket ≠ c) (havail : buf.available > 0) :
    (w.pass env c buf).server.byteData.lookup clientSocket =
      w.server.byteData.lookup clientSocket := by
  have hne : buf.unread ≠ [] := by
    rw [available_eq] at havail
    exact List.ne_nil_of_length_pos havail
  have hresult : (finalState (w.result env c buf)).server.byteData.lookup clientSocket =
      w.server.byteData.lookup clientSocket := by
    have hresult : (finalState (w.result env c buf)).server.byteData = w.server.byteData ∨
        (finalState (w.result env c buf)).server.byteData = w.server.byteData.erase c :=
      byteData_result hne
    rcases hresult with hdata | hdata
    · rw [hdata]
    · rw [hdata, AList.lookup_erase_ne hc]
  by_cases hmem : c ∈ (finalState (w.result env c buf)).server.byteData
  · have hdata : (w.pass env c buf).server.byteData = _ := if_pos hmem
    rw [hdata, AList.lookup_insert_ne hc, hresult]
  · have hdata : (w.pass env c buf).server.byteData = _ := if_neg hmem
    rw [hdata, hresult]

theorem own_step_pass (h : t.Own env clientSocket) (hstopped : t.service.stopped = false)
    (hexact : Exact env clientSocket t (.pass c))
    (hrunning : (t.step env (.pass c)).service.stopped = false) :
    (t.step env (.pass c)).Own env clientSocket := by
  have hstep : t.step env (.pass c) =
      { t.note env (.pass c) with service := t.service.advance env c } := by
    simp [Trace.step, Service.step, hstopped]
  rw [hstep] at hrunning ⊢
  cases hcall : t.service.calls c with
  | none =>
    have hadvance : t.service.advance env c = t.service := by rw [Service.advance, hcall]
    have hnote : t.note env (.pass c) = t := by
      simp [Trace.note, taken, hcall]
    rw [hadvance, hnote]
    exact h
  | some buf =>
    by_cases havail : buf.available > 0
    · have hadvance : t.service.advance env c = t.service.pass env c buf := by
        simp only [Service.advance, hcall]
        exact if_pos havail
      have htaken : taken env t.service c =
          (finalState (t.service.result env c buf)).dispatched := by
        rw [taken, hcall]
        exact if_pos havail
      rw [hadvance] at hrunning ⊢
      by_cases hc : c = clientSocket
      · subst hc
        have hpass := own_pass h hcall havail hexact hrunning
        simpa only [Trace.Own, Trace.note, htaken, update_self] using hpass
      · have hne : clientSocket ≠ c := Ne.symm hc
        simp only [Trace.Own, Trace.note, update_of_ne hne, lookup_pass_ne hne havail]
        have hcalls : (t.service.pass env c buf).calls clientSocket =
            t.service.calls clientSocket := update_of_ne hne ..
        rw [hcalls]
        exact h
    · have hadvance : t.service.advance env c =
          { t.service with calls := update t.service.calls c none } := by
        simp only [Service.advance, hcall]
        exact if_neg havail
      have hnote : t.note env (.pass c) = t := by
        simp [Trace.note, taken, hcall, havail]
      rw [hadvance, hnote]
      by_cases hc : c = clientSocket
      · subst hc
        rw [Trace.Own, hcall] at h
        simp only [Trace.Own, update_self]
        have hnil : splitFrame (registerPackets env) buf.unread = none := by
          rw [unread_of_available havail]
          rfl
        refine h.wait hnil fun o ho => ?_
        rw [(h.called buf rfl).2.2 o ho]
        exact ⟨rfl, rfl⟩
      · simp only [Trace.Own, update_of_ne (Ne.symm hc)]
        exact h

theorem own_step_receive (h : t.Own env clientSocket) (hstopped : t.service.stopped = false)
    (now : ℤ) (chunk : Received) : (t.step env (.receive c now chunk)).Own env clientSocket := by
  have hstep : t.step env (.receive c now chunk) =
      { t.receive c chunk.bytes with service := t.service.receive c now chunk } := by
    simp [Trace.step, Trace.note, Service.step, hstopped]
  rw [hstep]
  by_cases haccepts : c ∈ t.service.server.clientSockets ∧ (t.service.calls c).isNone
  · have hservice : t.service.receive c now chunk = _ := if_pos haccepts
    have htrace : t.receive c chunk.bytes = _ := if_pos haccepts
    rw [hservice, htrace]
    by_cases hc : c = clientSocket
    · subst hc
      have hnone : t.service.calls c = none := Option.isNone_iff_eq_none.mp haccepts.2
      rw [Trace.Own, hnone] at h
      cases hlookup : t.service.server.byteData.lookup c with
      | none =>
        have hnew : c ∉ t.service.server.byteData := AList.lookup_eq_none.mp hlookup
        simp only [Trace.Own, hnew, if_false, update_self, AList.lookup_insert, Option.getD_none]
        exact ownBytes_receive_new chunk
      | some before =>
        have hold : c ∈ t.service.server.byteData := AList.lookup_isSome.mp (by rw [hlookup]; rfl)
        rw [hlookup] at h
        simp only [Trace.Own, hold, if_true, update_self, AList.lookup_insert, Option.getD_some]
        exact h.receive chunk
    · have hne : clientSocket ≠ c := Ne.symm hc
      split <;> simp only [Trace.Own, update_of_ne hne, AList.lookup_insert_ne hne] <;> exact h
  · have hservice : t.service.receive c now chunk = _ := if_neg haccepts
    have htrace : t.receive c chunk.bytes = _ := if_neg haccepts
    rw [hservice, htrace]
    exact h

/-- An event of the service leaves a socket with the end of its own bytes, when what it takes off
that socket is read to the end. -/
theorem own_step (h : t.service.stopped = false → t.Own env clientSocket) (e : Event)
    (hexact : Exact env clientSocket t e) (hrunning : (t.step env e).service.stopped = false) :
    (t.step env e).Own env clientSocket := by
  by_cases hstopped : t.service.stopped = true
  · have hsame : t.step env e = t := if_pos hstopped
    rw [hsame] at hrunning
    rw [hrunning] at hstopped
    cases hstopped
  · have hstart : t.service.stopped = false := Bool.eq_false_of_not_eq_true hstopped
    have hown := h hstart
    cases e with
    | pass c => exact own_step_pass hown hstart hexact hrunning
    | receive c now chunk => exact own_step_receive hown hstart now chunk
    | connect c =>
      have hdata : (t.service.connect c).server.byteData = t.service.server.byteData := by
        unfold Service.connect
        split <;> rfl
      have hcalls : (t.service.connect c).calls = t.service.calls := by
        unfold Service.connect
        split <;> rfl
      simpa [Trace.Own, Trace.step, Trace.note, Service.step, hstart, hdata, hcalls] using hown
    | expire c =>
      simpa [Trace.Own, Trace.step, Trace.note, Service.step, hstart] using hown
    | others f =>
      have hdata := (f.2 t.service.server).byteData
      simpa [Trace.Own, Trace.step, Trace.note, Service.step, hstart, hdata] using hown

end Steps

section Runs

variable {env : Environment} {clientSocket : Socket} {events : List Event}

theorem own_run (storage : Ptr → Storage)
    (hexact : EachStep (Trace.step env) (Exact env clientSocket) (.start storage) events)
    (hrunning : (events.foldl (Trace.step env) (.start storage)).service.stopped = false) :
    (events.foldl (Trace.step env) (.start storage)).Own env clientSocket := by
  have hstart : Trace.Own env clientSocket (.start storage) := ⟨nofun, fun _ => nofun⟩
  have hstep : ∀ (t : Trace) (e : Event),
      (t.service.stopped = false → t.Own env clientSocket) → Exact env clientSocket t e →
      (t.step env e).service.stopped = false → (t.step env e).Own env clientSocket :=
    fun t e h he => own_step h e he
  exact (EachStep.run hstep (fun _ _ _ he => he) (fun _ => hstart) hexact).2 hrunning

/-- In every run in which the handlers read the packets of one socket to the end, whatever the
other connections send and whichever way the calls take turns, the packets handled on that socket
and the bytes left in its stream are the frames of the bytes that came in on it. -/
theorem frames_of_own_bytes (storage : Ptr → Storage)
    (hexact : EachStep (Trace.step env) (Exact env clientSocket) (.start storage) events)
    {t : Trace} (ht : events.foldl (Trace.step env) (.start storage) = t)
    (hrunning : t.service.stopped = false) (hidle : t.service.calls clientSocket = none)
    {buf : BasicStream} (hbuf : t.service.server.byteData.lookup clientSocket = some buf) :
    (packetFramer (registerPackets env)).Frames (t.arrived clientSocket) (t.handled clientSocket)
      buf.unread := by
  subst ht
  exact ((own_run storage hexact hrunning).idle hidle buf hbuf).2

/-- A pong and the start of a frequency packet on one socket, while the other socket holds up its
call. -/
def twoConnections : List Event :=
  [.connect 1, .connect 2, .receive 1 0 ⟨[4, 13], []⟩, .receive 2 0 ⟨[2], []⟩, .pass 1, .pass 2,
    .pass 1]

theorem frames_of_own_bytes_twoConnections :
    (packetFramer (registerPackets (.orderly fun _ _ => none))).Frames [4, 13] [(4, [])] [13] := by
  have hexact : EachStep (Trace.step (.orderly fun _ _ => none))
      (Exact (.orderly fun _ _ => none) 1) (.start fun _ => .zeroed) twoConnections := by
    refine ⟨trivial, trivial, trivial, trivial, ?_, ?_, ?_, trivial⟩
    · rintro - buf hbuf id payload rest hframe
      cases hbuf
      cases hframe
      exact .inl .done
    · exact fun h => absurd h (by decide)
    · rintro - buf hbuf id payload rest hframe
      cases hbuf
      cases hframe
  exact frames_of_own_bytes _ hexact rfl rfl rfl rfl

end Runs

end Win64Server.SeparateConnections
