import Win64Server.PacketIsolation
import Win64Server.PacketFields

/-!
The framer asks whatever `getPacket` returned for its size, and a pass that starts at an id that
was never registered asks the null pointer. Where the passes start is said on the received bytes
and the sizes declared for the packets alone: a frame ends where the fields end that its handler
reads, and a frame that is not complete waits for the next chunk. This module follows a connection
through all its chunks.
-/
namespace Win64Server.FramingSafety

open Outcome Library Layout BasicStream ChunkedFraming PacketIsolation PacketFields

/-- Every fault but the use of a null packet. -/
def Handled (e : Fault) : Prop := e ≠ .undefined .nullPacket

instance (e : Exception) : Fact (Handled (.thrown e)) := ⟨by simp [Handled]⟩
instance : Fact (Handled (.undefined .nullUser)) := ⟨by simp [Handled]⟩
instance : Fact (Handled (.undefined .nullPlan)) := ⟨by simp [Handled]⟩
instance : Fact (Handled (.undefined .readPastBlock)) := ⟨by simp [Handled]⟩
instance : Fact (Handled (.undefined .overlappingMove)) := ⟨by simp [Handled]⟩
instance : Fact (Handled (.undefined .indexPastArray)) := ⟨by simp [Handled]⟩

section Handlers

variable (env : Environment) (clientSocket : Socket) (user : Option Ptr)

instance : Raises Handled (PilotUpdate.handle env clientSocket user) := by
  unfold PilotUpdate.handle; infer_instance

instance : Raises Handled (ControllerUpdate.handle env clientSocket user) := by
  unfold ControllerUpdate.handle; infer_instance

instance : Raises Handled (TransponderPacket.handle env clientSocket user) := by
  unfold TransponderPacket.handle; infer_instance

instance : Raises Handled (ChangeCyclePacket.handle clientSocket user) := by
  unfold ChangeCyclePacket.handle
  refine .of_bind inferInstance fun index => .of_bind inferInstance fun x => ?_
  refine .of_bind inferInstance fun type => .of_bind inferInstance fun requestTime => ?_
  refine .of_ite (.of_bind inferInstance fun u => ?_) inferInstance
  refine @raises_onServer _ _ _ (.of_bind inferInstance fun r => ?_)
  cases r.setRequestedInterval type requestTime <;> infer_instance

instance : Raises Handled (MessageRxPacket.handle env clientSocket user) := by
  unfold MessageRxPacket.handle
  refine .of_bind inferInstance fun callsign => .of_bind inferInstance fun frequency => ?_
  refine .of_bind inferInstance fun message => .of_bind inferInstance fun x => ?_
  cases x.server.clientManager.getUserByCallsign callsign <;> infer_instance

instance : Raises Handled (PilotTitle.handle clientSocket user) := by
  unfold PilotTitle.handle; infer_instance

instance : Raises Handled (ClientMode.handle env clientSocket user) := by
  unfold ClientMode.handle; infer_instance

instance : Raises Handled (ClientDisconnect.handle clientSocket user) := by
  unfold ClientDisconnect.handle; infer_instance

instance : Raises Handled (FlightPlanUpdate.handle clientSocket user) := by
  unfold FlightPlanUpdate.handle
  refine .of_bind inferInstance fun curCycle => .of_bind inferInstance fun index => ?_
  refine .of_bind inferInstance fun x => .of_bind inferInstance fun flightRules => ?_
  refine .of_bind inferInstance fun squawk => .of_bind inferInstance fun departure => ?_
  refine .of_bind inferInstance fun arrival => .of_bind inferInstance fun alternate => ?_
  refine .of_bind inferInstance fun cruise => .of_bind inferInstance fun acType => ?_
  refine .of_bind inferInstance fun scratch => .of_bind inferInstance fun route => ?_
  refine .of_bind inferInstance fun remarks => ?_
  cases x.server.clientManager.getUserByIndex index with
  | none => infer_instance
  | some u =>
    refine @raises_onServer _ _ _ (.of_bind inferInstance fun r => .of_ite ?_ inferInstance)
    refine .of_bind inferInstance fun plan => ?_
    cases plan <;> infer_instance

instance : Raises Handled (RequestFlightPlan.handle clientSocket user) := by
  unfold RequestFlightPlan.handle
  refine .of_bind inferInstance fun index => .of_bind inferInstance fun curCycle => ?_
  refine .of_bind inferInstance fun x => ?_
  cases x.server.clientManager.getUserByIndex index with
  | none => infer_instance
  | some userFp =>
    refine .of_ite (.of_bind inferInstance fun plan => ?_) inferInstance
    cases plan <;> infer_instance

instance : Raises Handled (PrivateMsgPacket.handle clientSocket user) := by
  unfold PrivateMsgPacket.handle
  refine .of_bind inferInstance fun callsign => .of_bind inferInstance fun x => ?_
  refine .of_bind inferInstance fun message => ?_
  cases x.server.clientManager.getUserByCallsign callsign <;> infer_instance

instance : Raises Handled (PrimeFreqPacket.handle env clientSocket user) := by
  unfold PrimeFreqPacket.handle; infer_instance

instance (c : UInt8) : Raises Handled (TempDataPacket.readObject c) := by
  unfold TempDataPacket.readObject; infer_instance

instance : Raises Handled (TempDataPacket.handle env clientSocket user) := by
  unfold TempDataPacket.handle; infer_instance

instance (type : ℕ) : Raises Handled (HandshakePacket.readTypeFields type) := by
  unfold HandshakePacket.readTypeFields; infer_instance

instance : Raises Handled HandshakePacket.readFields := by
  unfold HandshakePacket.readFields; infer_instance

instance : Raises Handled (HandshakePacket.handle clientSocket user) := by
  unfold HandshakePacket.handle; infer_instance

/-- No handler uses a null packet. -/
theorem raises_handle {packet : Packet} (h : packet ∈ registeredPackets env) :
    Raises Handled (packet.handle clientSocket user) := by
  apply registered_cases h
  all_goals
    dsimp only [examplePacket, pongPacket, pilotUpdate, controllerUpdate, transponderPacket,
      changeCyclePacket, messageRxPacket, pilotTitle, clientMode, clientDisconnect,
      flightPlanUpdate, requestFlightPlan, privateMsgPacket, primeFreqPacket, tempDataPacket]
    infer_instance

end Handlers

section Framer

variable (env : Environment) (clientSocket : Socket)

instance : Raises Handled BasicStream.reset := by
  unfold BasicStream.reset
  refine .of_bind inferInstance fun s => ?_
  cases s.mark <;> infer_instance

instance : Raises Handled deleteMarkedBlock := by
  unfold deleteMarkedBlock
  refine .of_bind inferInstance fun s => ?_
  cases s.mark with
  | none => infer_instance
  | some mark =>
    dsimp only
    split <;> infer_instance

instance (size : ℤ) : Raises Handled (readPacketSize size) := by
  unfold readPacketSize; infer_instance

instance (packetId : ℕ) (size : ℤ) :
    Raises Handled (processPacket (registerPackets env) clientSocket packetId size) := by
  unfold processPacket
  refine .of_bind inferInstance fun x => .of_bind inferInstance fun _ => ?_
  cases h : (registerPackets env).getPacket packetId with
  | none => infer_instance
  | some packet =>
    exact raises_handle env clientSocket _ (registered_of_getPacket h).1

instance (packetId : ℕ) (size : Option ℤ) :
    Raises Handled (processSized (registerPackets env) clientSocket packetId size) := by
  cases size <;> unfold processSized <;> infer_instance

end Framer

section Runs

variable {env : Environment} {clientSocket : Socket}

/-- The ids that have a packet. -/
def registeredIds : List ℕ := [1, 2, 3, 4, 5, 6, 7, 8, 9, 10, 11, 12, 13, 14, 45]

theorem getPacket_isSome_iff (env : Environment) {id : ℕ} :
    ((registerPackets env).getPacket id).isSome ↔ id ∈ registeredIds := by
  rw [getPacket_registerPackets]
  simp only [registeredPackets, registeredIds, List.find?_isSome, List.mem_reverse, List.mem_cons,
    List.not_mem_nil, or_false, exists_eq_or_imp, exists_eq_left, decide_eq_true_eq, examplePacket,
    pongPacket, pilotUpdate, controllerUpdate, transponderPacket, changeCyclePacket,
    messageRxPacket, pilotTitle, clientMode, clientDisconnect, flightPlanUpdate, requestFlightPlan,
    privateMsgPacket, primeFreqPacket, tempDataPacket]
  omega

theorem validSize_of_registered {packet : Packet} (h : packet ∈ registeredPackets env) :
    ValidSize packet.size := by
  unfold ValidSize
  apply registered_cases h
  all_goals simp [examplePacket, pongPacket, pilotUpdate, controllerUpdate, transponderPacket,
    changeCyclePacket, messageRxPacket, pilotTitle, clientMode, clientDisconnect,
    flightPlanUpdate, requestFlightPlan, privateMsgPacket, primeFreqPacket, tempDataPacket]

/-- A pass that starts at an id without a packet asks the null pointer for its size. -/
theorem processFrame_null {factory : PacketFactory} (clientSocket : Socket) {x : Session}
    {b : UInt8} {tail : List UInt8} (h : x.buf.unread = b :: tail)
    (hnone : factory.getPacket b.toNat = none) :
    ∃ y, (processFrame factory clientSocket).run x = .error (.undefined .nullPacket) y := by
  rw [processFrame_head factory clientSocket h, hnone]
  exact ⟨_, rfl⟩

/-- A pass that starts at a registered id does not. -/
theorem processFrame_handled_fault {x y : Session} {b : UInt8} {tail : List UInt8} {packet : Packet}
    {e : Fault} (h : x.buf.unread = b :: tail)
    (hpacket : (registerPackets env).getPacket b.toNat = some packet)
    (hrun : (processFrame (registerPackets env) clientSocket).run x = .error e y) : Handled e := by
  rw [processFrame_head _ clientSocket h, hpacket] at hrun
  exact Raises.raised _ _ _ hrun

/-- What a pass does that starts at a registered id. -/
theorem processFrame_cases (clientSocket : Socket) {x : Session} {b : UInt8} {tail : List UInt8}
    {packet : Packet} (h : x.buf.unread = b :: tail)
    (hpacket : (registerPackets env).getPacket b.toNat = some packet) :
    (splitFrame (registerPackets env) x.buf.unread = none ∧
      (processFrame (registerPackets env) clientSocket).run x =
        .ok false { x with buf := { x.buf with mark := none } }) ∨
    ∃ id payload rest,
      splitFrame (registerPackets env) x.buf.unread = some ((id, payload), rest) ∧
        ((∃ e y, (processFrame (registerPackets env) clientSocket).run x = .error e y ∧
            Handled e) ∨
          ∃ y k, (processFrame (registerPackets env) clientSocket).run x = .ok true y ∧
            Takes 0 (payloadLayout id) (payload ++ rest) k ∧
            y.buf.unread = (payload ++ rest).drop k ∧ y.buf.index = x.buf.index) := by
  cases hsplit : splitFrame (registerPackets env) x.buf.unread with
  | none =>
    exact Or.inl ⟨rfl, processFrame_incomplete clientSocket h hpacket
      (validSize_of_registered (registered_of_getPacket hpacket).1) hsplit⟩
  | some frame =>
    obtain ⟨⟨id, payload⟩, rest⟩ := frame
    refine Or.inr ⟨id, payload, rest, rfl, ?_⟩
    obtain ⟨b', tail', packet', n, body, hunread, -, -, -, rfl, -, -⟩ :=
      splitFrame_eq_some.mp hsplit
    obtain ⟨rfl, rfl⟩ := List.cons.inj (h.symm.trans hunread)
    cases hrun : (processFrame (registerPackets env) clientSocket).run x with
    | error e y => exact Or.inl ⟨e, y, rfl, processFrame_handled_fault h hpacket hrun⟩
    | ok more y =>
      obtain ⟨hpass, hpayload, -⟩ := processFrame_handled clientSocket hsplit hpacket
      have hrun' := hrun
      rw [hpass] at hrun'
      obtain ⟨_, z, hprocess, -⟩ := run_bind_ok.mp hrun'
      rw [processPacket_run clientSocket (x := { x with buf := atPayload x packet }) hpacket
        hpayload] at hprocess
      obtain ⟨y', k, hok, htakes, -, hunread', hindex⟩ :=
        handled_frame_takes hsplit hpacket hprocess
      rw [hrun] at hok
      cases hok
      exact Or.inr ⟨y, k, rfl, htakes, hunread', hindex⟩

/-- A completed pass deletes the packet id at least. -/
theorem processFrame_shrinks {x y : Session}
    (hrun : (processFrame (registerPackets env) clientSocket).run x = .ok true y)
    {b : UInt8} {tail : List UInt8} (h : x.buf.unread = b :: tail) :
    y.buf.unread.length < x.buf.unread.length := by
  cases hpacket : (registerPackets env).getPacket b.toNat with
  | none =>
    obtain ⟨z, hz⟩ := processFrame_null clientSocket h hpacket
    rw [hz] at hrun
    cases hrun
  | some packet =>
    rcases processFrame_cases clientSocket h hpacket with
      ⟨-, hpass⟩ | ⟨id, payload, rest, hsplit, hstop | ⟨z, k, hpass, -, hleft, -⟩⟩
    · rw [hpass] at hrun
      cases hrun
    · obtain ⟨e, z, hpass, -⟩ := hstop
      rw [hpass] at hrun
      cases hrun
    · rw [hpass] at hrun
      cases hrun
      obtain ⟨b', tail', packet', n, body, hunread, -, hsize, hn, -, rfl, rfl⟩ :=
        splitFrame_eq_some.mp hsplit
      rw [hleft, hunread, List.take_append_drop, (splitSize_drop hsize).2]
      simp only [List.length_drop, List.length_cons]
      omega

/-- The bound on the passes plays no part: any bound of at least the bytes received gives the
same run. -/
theorem processLoop_bound {x : Session} {n m : ℕ} (hn : x.buf.unread.length ≤ n)
    (hm : x.buf.unread.length ≤ m) :
    (processLoop (registerPackets env) clientSocket n).run x =
      (processLoop (registerPackets env) clientSocket m).run x := by
  induction n generalizing x m with
  | zero =>
    have havail : x.buf.available = 0 := by rw [available_eq]; omega
    cases m with
    | zero => rfl
    | succ m => simp [processLoop, havail]
  | succ n ih =>
    cases m with
    | zero =>
      have havail : x.buf.available = 0 := by rw [available_eq]; omega
      simp [processLoop, havail]
    | succ m =>
      cases h : x.buf.unread with
      | nil =>
        have havail : x.buf.available = 0 := by rw [available_eq, h]; rfl
        simp [processLoop, havail]
      | cons b tail =>
        have havail : x.buf.available > 0 := by rw [available_eq, h, List.length_cons]; omega
        simp only [processLoop, EStateM.run_bind, EStateM.run_get, havail, ite_true]
        cases hpass : (processFrame (registerPackets env) clientSocket).run x with
        | error e y => rfl
        | ok more y =>
          cases more with
          | false => rfl
          | true =>
            have hshrink := processFrame_shrinks hpass h
            exact ih (by omega) (by omega)

/-- A pass starts at this byte, when these bytes are left over and these chunks are still to come:
it is the first that is left over; or it comes behind the fields of the complete frame that is; or
no frame is complete and it comes up with the next chunk. -/
inductive PassStart (factory : PacketFactory) : List UInt8 → List (List UInt8) → UInt8 → Prop
  | head (b : UInt8) (tail : List UInt8) (chunks : List (List UInt8)) :
      PassStart factory (b :: tail) chunks b
  | behind {bs payload rest : List UInt8} {id k : ℕ} {chunks : List (List UInt8)} {b : UInt8}
      (hframe : splitFrame factory bs = some ((id, payload), rest))
      (hfields : Takes 0 (payloadLayout id) (payload ++ rest) k)
      (hstart : PassStart factory ((payload ++ rest).drop k) chunks b) :
      PassStart factory bs chunks b
  | next {bs chunk : List UInt8} {chunks : List (List UInt8)} {b : UInt8}
      (hincomplete : splitFrame factory bs = none)
      (hstart : PassStart factory (bs ++ chunk) chunks b) : PassStart factory bs (chunk :: chunks) b

section Loop

variable {x y : Session} {chunks : List (List UInt8)} {passes : ℕ}

/-- When all passes start at registered ids, the loop uses no null packet, and where it comes to
its end it leaves an incomplete frame. -/
theorem processLoop_safe (clientSocket : Socket)
    (hall : ∀ b, PassStart (registerPackets env) x.buf.unread chunks b → b.toNat ∈ registeredIds)
    (hpasses : x.buf.unread.length ≤ passes) (hindex : x.buf.index = 0) :
    (∃ e y, (processLoop (registerPackets env) clientSocket passes).run x = .error e y ∧
      Handled e) ∨
    ∃ y, (processLoop (registerPackets env) clientSocket passes).run x = .ok () y ∧
      y.buf.index = 0 ∧ splitFrame (registerPackets env) y.buf.unread = none ∧
      ∀ b, PassStart (registerPackets env) y.buf.unread chunks b → b.toNat ∈ registeredIds := by
  induction passes generalizing x with
  | zero =>
    have hnil : x.buf.unread = [] := List.length_eq_zero_iff.mp (Nat.le_zero.mp hpasses)
    exact Or.inr ⟨x, rfl, hindex, by rw [hnil]; rfl, hall⟩
  | succ passes ih =>
    cases h : x.buf.unread with
    | nil =>
      have havail : x.buf.available = 0 := by rw [available_eq, h]; rfl
      exact Or.inr ⟨x, by simp [processLoop, havail], hindex, by rw [h]; rfl, hall⟩
    | cons b tail =>
      have havail : x.buf.available > 0 := by rw [available_eq, h, List.length_cons]; omega
      simp only [processLoop, EStateM.run_bind, EStateM.run_get, havail, ite_true]
      have hid : b.toNat ∈ registeredIds := hall b (by rw [h]; exact .head b tail chunks)
      rw [← getPacket_isSome_iff env, Option.isSome_iff_exists] at hid
      obtain ⟨packet, hpacket⟩ := hid
      rcases processFrame_cases clientSocket h hpacket with
        ⟨hsplit, hpass⟩ | ⟨id, payload, rest, hsplit, hstop | ⟨y, k, hpass, htakes, hleft, hy⟩⟩
      · rw [hpass]
        exact Or.inr ⟨_, rfl, hindex, hsplit, hall⟩
      · obtain ⟨e, y, hpass, he⟩ := hstop
        rw [hpass]
        exact Or.inl ⟨e, y, rfl, he⟩
      · have hshrink := processFrame_shrinks hpass h
        have hrest : ∀ b, PassStart (registerPackets env) y.buf.unread chunks b →
            b.toNat ∈ registeredIds := by
          intro b hb
          rw [hleft] at hb
          exact hall b (.behind hsplit htakes hb)
        rw [hpass]
        exact ih hrest (by omega) (hy.trans hindex)

theorem processFrame_index {b : UInt8} {tail : List UInt8} (h : x.buf.unread = b :: tail)
    {more : Bool} (hrun : (processFrame (registerPackets env) clientSocket).run x = .ok more y) :
    y.buf.index = x.buf.index := by
  cases hpacket : (registerPackets env).getPacket b.toNat with
  | none =>
    obtain ⟨z, hz⟩ := processFrame_null clientSocket h hpacket
    rw [hz] at hrun
    cases hrun
  | some packet =>
    rcases processFrame_cases clientSocket h hpacket with
      ⟨-, hpass⟩ | ⟨id, payload, rest, -, hstop | ⟨z, k, hpass, -, -, hindex⟩⟩
    · rw [hpass] at hrun
      cases hrun
      rfl
    · obtain ⟨e, z, hpass, -⟩ := hstop
      rw [hpass] at hrun
      cases hrun
    · rw [hpass] at hrun
      cases hrun
      exact hindex

theorem processLoop_index
    (hrun : (processLoop (registerPackets env) clientSocket passes).run x = .ok () y) :
    y.buf.index = x.buf.index := by
  induction passes generalizing x with
  | zero =>
    cases hrun
    rfl
  | succ passes ih =>
    cases h : x.buf.unread with
    | nil =>
      have havail : x.buf.available = 0 := by rw [available_eq, h]; rfl
      simp only [processLoop, EStateM.run_bind, EStateM.run_get, havail] at hrun
      cases hrun
      rfl
    | cons b tail =>
      have havail : x.buf.available > 0 := by rw [available_eq, h, List.length_cons]; omega
      simp only [processLoop, EStateM.run_bind, EStateM.run_get, havail, ite_true] at hrun
      cases hpass : (processFrame (registerPackets env) clientSocket).run x with
      | error e z =>
        rw [hpass] at hrun
        cases hrun
      | ok more z =>
        rw [hpass] at hrun
        have hz := processFrame_index h hpass
        cases more with
        | false =>
          cases hrun
          exact hz
        | true => exact (ih hrun).trans hz

/-- A loop that comes to its end has started its passes at registered ids, and the others are
still to start, with what it has left over. -/
theorem processLoop_started
    (hrun : (processLoop (registerPackets env) clientSocket passes).run x = .ok () y)
    (hpasses : x.buf.unread.length ≤ passes) {b : UInt8}
    (hb : PassStart (registerPackets env) x.buf.unread chunks b) :
    b.toNat ∈ registeredIds ∨ ∃ chunk more, chunks = chunk :: more ∧
      PassStart (registerPackets env) (y.buf.unread ++ chunk) more b := by
  induction passes generalizing x with
  | zero =>
    have hnil : x.buf.unread = [] := List.length_eq_zero_iff.mp (Nat.le_zero.mp hpasses)
    cases hrun
    rw [hnil] at hb ⊢
    cases hb with
    | behind hframe _ _ => cases hframe
    | next _ hstart => exact Or.inr ⟨_, _, rfl, hstart⟩
  | succ passes ih =>
    generalize hbs : x.buf.unread = bs at hb
    cases hcons : bs with
    | nil =>
      have havail : x.buf.available = 0 := by rw [available_eq, hbs, hcons]; rfl
      simp only [processLoop, EStateM.run_bind, EStateM.run_get, havail] at hrun
      cases hrun
      rw [hbs]
      rw [hcons] at hb ⊢
      cases hb with
      | behind hframe _ _ => cases hframe
      | next _ hstart => exact Or.inr ⟨_, _, rfl, hstart⟩
    | cons head tail =>
      have h : x.buf.unread = head :: tail := hbs.trans hcons
      have havail : x.buf.available > 0 := by rw [available_eq, h, List.length_cons]; omega
      simp only [processLoop, EStateM.run_bind, EStateM.run_get, havail, ite_true] at hrun
      cases hpacket : (registerPackets env).getPacket head.toNat with
      | none =>
        obtain ⟨z, hz⟩ := processFrame_null clientSocket h hpacket
        rw [hz] at hrun
        cases hrun
      | some packet =>
        have hid : head.toNat ∈ registeredIds := by
          rw [← getPacket_isSome_iff env, hpacket]
          rfl
        rcases processFrame_cases clientSocket h hpacket with
          ⟨hsplit, hpass⟩ | ⟨id, payload, rest, hsplit, hstop | ⟨z, k, hpass, htakes, hleft, -⟩⟩
        · rw [hpass] at hrun
          cases hrun
          cases hb with
          | head b tail chunks =>
            obtain ⟨rfl, -⟩ := List.cons.inj hcons
            exact Or.inl hid
          | behind hframe _ _ =>
            rw [← hbs, hsplit] at hframe
            cases hframe
          | next _ hstart => exact Or.inr ⟨_, _, rfl, by rw [← hbs] at hstart; exact hstart⟩
        · obtain ⟨e, z, hpass, -⟩ := hstop
          rw [hpass] at hrun
          cases hrun
        · have hshrink := processFrame_shrinks hpass h
          rw [hpass] at hrun
          cases hb with
          | head b tail chunks =>
            obtain ⟨rfl, -⟩ := List.cons.inj hcons
            exact Or.inl hid
          | behind hframe hfields hstart =>
            rw [← hbs, hsplit] at hframe
            cases hframe
            rw [hfields.unique htakes, ← hleft] at hstart
            exact ih hrun (by omega) hstart
          | next hincomplete _ =>
            rw [← hbs, hsplit] at hincomplete
            cases hincomplete

end Loop

/-- A chunk of one connection, and what the other connections did to the server before it. -/
structure Arrival where
  others : Server → Server
  chunk : Received

/-- The chunks of a connection with everything that happens between them. -/
def receiveAmong (factory : PacketFactory) (clientSocket : Socket) (arrivals : List Arrival) :
    HandlerM Unit :=
  arrivals.forM fun arrival => do
    onServer (modify arrival.others)
    receive factory clientSocket arrival.chunk

/-- The bytes of the chunks. -/
def bytesOf (arrivals : List Arrival) : List (List UInt8) :=
  arrivals.map fun arrival => arrival.chunk.bytes

section Chunks

variable {arrivals : List Arrival} {x : Session}

/-- A chunk is put behind what is left over, and the loop goes over both. -/
theorem receiveAmong_cons (factory : PacketFactory) (clientSocket : Socket) (arrival : Arrival)
    (arrivals : List Arrival) (hindex : x.buf.index = 0) :
    ∃ w : Session, w.buf.unread = x.buf.unread ++ arrival.chunk.bytes ∧ w.buf.index = 0 ∧
      (receiveAmong factory clientSocket (arrival :: arrivals)).run x =
        (processLoop factory clientSocket w.buf.available >>= fun _ =>
          receiveAmong factory clientSocket arrivals).run w := by
  obtain ⟨buf, hadd, hunread, hbuf⟩ :=
    addData_unread x.buf arrival.chunk.bytes arrival.chunk.spare hindex
  refine ⟨⟨arrival.others x.server, buf, x.dispatched⟩, hunread, hbuf, ?_⟩
  have hreceive : (receive factory clientSocket arrival.chunk).run
      ⟨arrival.others x.server, x.buf, x.dispatched⟩ =
        (processLoop factory clientSocket buf.available).run
          ⟨arrival.others x.server, buf, x.dispatched⟩ := by
    have hrun := onBuf_ok (x := ⟨arrival.others x.server, x.buf, x.dispatched⟩).mpr ⟨buf, hadd, rfl⟩
    rw [receive, run_bind_of_ok hrun]
    rfl
  rw [EStateM.run_bind, ← hreceive, ← EStateM.run_bind]
  rfl

/-- No null packet is used as long as the passes start at registered ids. -/
theorem receiveAmong_safe (hindex : x.buf.index = 0)
    (hincomplete : splitFrame (registerPackets env) x.buf.unread = none)
    (hall : ∀ b, PassStart (registerPackets env) x.buf.unread (bytesOf arrivals) b →
      b.toNat ∈ registeredIds) (y : Session) :
    (receiveAmong (registerPackets env) clientSocket arrivals).run x ≠
      .error (.undefined .nullPacket) y := by
  induction arrivals generalizing x with
  | nil => exact fun hrun => nomatch hrun
  | cons arrival arrivals ih =>
    obtain ⟨w, hw, hwindex, hreceive⟩ :=
      receiveAmong_cons (registerPackets env) clientSocket arrival arrivals hindex
    have hallw : ∀ b, PassStart (registerPackets env) w.buf.unread (bytesOf arrivals) b →
        b.toNat ∈ registeredIds := by
      intro b hb
      rw [hw] at hb
      exact hall b (.next hincomplete hb)
    rw [hreceive]
    rcases processLoop_safe clientSocket hallw (available_eq w.buf).ge hwindex with
      ⟨e, z, hrun, he⟩ | ⟨z, hrun, hzindex, hzincomplete, hzall⟩
    · rw [run_bind_of_error hrun]
      intro heq
      cases heq
      exact he rfl
    · rw [run_bind_of_ok hrun]
      exact ih hzindex hzincomplete hzall

/-- A connection on which everything returns has started its passes at registered ids. -/
theorem receiveAmong_started (hindex : x.buf.index = 0) {y : Session}
    (hrun : (receiveAmong (registerPackets env) clientSocket arrivals).run x = .ok () y)
    {chunk : List UInt8} {more : List (List UInt8)} (hchunks : bytesOf arrivals = chunk :: more)
    {b : UInt8} (hb : PassStart (registerPackets env) (x.buf.unread ++ chunk) more b) :
    b.toNat ∈ registeredIds := by
  induction arrivals generalizing x chunk more with
  | nil => cases hchunks
  | cons arrival arrivals ih =>
    obtain ⟨rfl, rfl⟩ := List.cons.inj hchunks
    obtain ⟨w, hw, hwindex, hreceive⟩ :=
      receiveAmong_cons (registerPackets env) clientSocket arrival arrivals hindex
    rw [hreceive] at hrun
    obtain ⟨_, z, hloop, hrest⟩ := run_bind_ok.mp hrun
    rw [← hw] at hb
    rcases processLoop_started hloop (available_eq w.buf).ge hb with
      hid | ⟨chunk', more', hchunks', hlater⟩
    · exact hid
    · exact ih ((processLoop_index hloop).trans hwindex) hrest hchunks' hlater

end Chunks

/-- The bytes of a connection from its first on, in whatever chunks they come and whatever happens
in between. When all passes start at registered ids, no null packet is used. When one does not,
the connection does not return: either the null packet is used there, or the handler of an earlier
frame has failed. -/
theorem null_packet_unused_of_registered (env : Environment) (clientSocket : Socket)
    (arrivals : List Arrival) (server : Server) (dispatched : List (ℕ × List UInt8)) :
    ((∀ b, PassStart (registerPackets env) [] (bytesOf arrivals) b → b.toNat ∈ registeredIds) →
      ∀ y, (receiveAmong (registerPackets env) clientSocket arrivals).run
        ⟨server, .empty, dispatched⟩ ≠ .error (.undefined .nullPacket) y) ∧
    ((∃ b, PassStart (registerPackets env) [] (bytesOf arrivals) b ∧ b.toNat ∉ registeredIds) →
      ∃ e y, (receiveAmong (registerPackets env) clientSocket arrivals).run
        ⟨server, .empty, dispatched⟩ = .error e y) := by
  let x : Session := ⟨server, .empty, dispatched⟩
  refine ⟨fun hall y => receiveAmong_safe (x := x) rfl rfl hall y, ?_⟩
  rintro ⟨b, hb, hid⟩
  cases hrun : (receiveAmong (registerPackets env) clientSocket arrivals).run x with
  | error e y => exact ⟨e, y, rfl⟩
  | ok u y =>
    refine absurd ?_ hid
    generalize hchunks : bytesOf arrivals = chunks at hb
    cases hb with
    | behind hframe _ _ => cases hframe
    | next _ hstart => exact receiveAmong_started (x := x) rfl hrun hchunks hstart

/-- A private message cut in its size, and a pong behind it. -/
def cutMessage : List Arrival := [⟨id, ⟨[12, 0], []⟩⟩, ⟨id, ⟨[2, 0, 0, 4], []⟩⟩]

theorem null_packet_unused_cutMessage :
    ¬ ∃ y, (receiveAmong (registerPackets (.orderly fun _ _ => none)) 1 cutMessage).run
      ⟨.initial fun _ => .zeroed, .empty, []⟩ = .error (.undefined .nullPacket) y := by
  rintro ⟨y, hy⟩
  refine (null_packet_unused_of_registered _ 1 cutMessage _ []).1 (fun b hb => ?_) y hy
  have hpong {b : UInt8} (hb : PassStart (registerPackets (.orderly fun _ _ => none)) [4] [] b) :
      b.toNat ∈ registeredIds := by
    cases hb with
    | head => decide
    | behind hframe hfields hstart =>
      cases hframe
      cases hfields
      cases hstart with
      | behind hframe _ _ => cases hframe
  have htexts : Takes 0 (payloadLayout 12) ([0, 0] ++ [4]) 2 :=
    Encodes.takes (p := [] ++ 0 :: ([] ++ 0 :: []))
      (.stopped (by decide) (.stopped (by decide) .done)) [4]
  cases hb with
  | behind hframe _ _ => cases hframe
  | next _ hstart =>
    cases hstart with
    | head => decide
    | behind hframe _ _ => cases hframe
    | next _ hstart =>
      cases hstart with
      | head => decide
      | behind hframe hfields hstart =>
        cases hframe
        rw [hfields.unique htexts] at hstart
        exact hpong hstart

/-- The id of `TempDataRemovePacket`, which has an instance but no registration. -/
theorem null_packet_used :
    ¬ ∀ (env : Environment) (clientSocket : Socket) (arrivals : List Arrival) (server : Server)
      (y : Session), (receiveAmong (registerPackets env) clientSocket arrivals).run
        ⟨server, .empty, []⟩ ≠ .error (.undefined .nullPacket) y := by
  intro h
  exact h (.orderly fun _ _ => none) 1 [⟨id, ⟨[15], []⟩⟩] (.initial fun _ => .zeroed) _ rfl

end Runs

end Win64Server.FramingSafety
