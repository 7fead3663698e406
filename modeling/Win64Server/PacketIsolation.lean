import Win64Server.ChunkedFraming
import Win64Server.Handshake

/-!
How much of the buffer one pass of the framer removes. It deletes up to wherever the handler left
the cursor, so the handlers are described by the layout of the fields they read. A pass over a
complete frame removes a record of these fields, wherever the frame ends.
-/
namespace Win64Server.PacketIsolation

open Outcome Library BasicStream ChunkedFraming

/-- The stream a handler reads from. A handler may do anything to the server. -/
def sessionCursor : Cursor Session UInt8 where
  view x := x.buf.unread
  Moved x k y := y.buf = { x.buf with index := x.buf.index + k }
  view_of_moved := by
    rintro x y k h
    rw [h, unread_advance]
  refl _ := rfl
  trans := by
    rintro x y z k j h h'
    rw [h', h]
    simp only [Nat.add_assoc]

/-- A field of so many bytes, whatever they are. -/
def bytes (n : ℕ) (next : Layout UInt8) : Layout UInt8 := .fixed n fun _ => next

/-- A string closed by a NUL. -/
def text (next : Layout UInt8) : Layout UInt8 := .stopped fun _ => next

/-- The slot of a script that a format character announces. -/
def objectLayout (c : UInt8) : Layout UInt8 :=
  if c = 's'.toUInt8 then text .done
  else if c = 'l'.toUInt8 then bytes 8 .done
  else bytes 4 .done

/-- The fields a handshake has for its client type. -/
def typeLayout (type : ℕ) : Layout UInt8 :=
  if type = 0 then bytes 1 <| bytes 1 .done
  else if type = 1 then bytes 1 <| text <| text <| bytes 1 <| bytes 8 .done
  else .done

/-- The fields that the handler registered for an id reads. -/
def payloadLayout : ℕ → Layout UInt8
  | 1 => bytes 8 <| bytes 8 <| bytes 8 <| bytes 2 <| bytes 8 .done
  | 2 => text .done
  | 3 => bytes 8 <| bytes 8 .done
  | 5 => bytes 2 <| bytes 1 <| bytes 8 .done
  | 6 => text <| bytes 3 <| text .done
  | 7 => bytes 2 <| text .done
  | 8 => bytes 1 .done
  | 9 => bytes 1 .done
  | 10 => bytes 2 <| bytes 2 <| bytes 1 <| text <| text <| text <| text <| text <| text <| text <|
      text <| text .done
  | 11 => bytes 2 <| bytes 2 .done
  | 12 => text <| text .done
  | 13 => bytes 1 <| bytes 3 <| bytes 3 .done
  | 14 => .stopped fun assembly =>
      (assembly.reverse.foldr (fun c L => (objectLayout c).andThen L) .done).andThen (bytes 4 .done)
  | 45 => bytes 4 <| text <| text <| text <| text <| bytes 8 <| bytes 8 <| bytes 8 <| bytes 2 <|
      .fixed 1 fun type => bytes 3 <| bytes 3 <| typeLayout (beNat type)
  | _ => .done

section Lifting

variable {α : Type} {op : StreamM α}

theorem readsFixed_onBuf {n : ℕ} {value : List UInt8 → α} (h : ReadsFixed cursor op n value) :
    ReadsFixed sessionCursor (onBuf op) n value := by
  intro x a y hrun
  obtain ⟨buf, hop, rfl⟩ := onBuf_ok.mp hrun
  exact h x.buf a buf hop

theorem readsStopped_onBuf {value : List UInt8 → α → Prop}
    (h : ReadsStopped cursor 0 op value) : ReadsStopped sessionCursor 0 (onBuf op) value := by
  intro x a y hrun
  obtain ⟨buf, hop, rfl⟩ := onBuf_ok.mp hrun
  exact h x.buf a buf hop

theorem follows_onBuf {L : Layout UInt8} (h : Follows cursor 0 op L) :
    Follows sessionCursor 0 (onBuf op) L := by
  intro x a y hrun
  obtain ⟨buf, hop, rfl⟩ := onBuf_ok.mp hrun
  exact h x.buf a buf hop

theorem quiet_onServer (op : ServerM α) : Quiet sessionCursor (onServer op) := by
  intro x a y hrun
  obtain ⟨server, -, rfl⟩ := onServer_ok.mp hrun
  rfl

theorem quiet_deref (user : Option Ptr) : Quiet sessionCursor (deref user) := by
  cases user with
  | none => exact .throw _
  | some u => exact .pure u

theorem quiet_get : Quiet sessionCursor (get : HandlerM Session) := by
  intro x a y hrun
  cases hrun
  rfl

theorem readsStopped_readText : ReadsStopped sessionCursor 0 readText fun bs value => value = bs :=
  readsStopped_onBuf readsStopped_readStringCopy

theorem readsFixed_byte : ReadsFixed sessionCursor (onBuf readUnsignedByte) 1 beNat :=
  readsFixed_onBuf readsFixed_readUnsignedByte

theorem readsFixed_short : ReadsFixed sessionCursor (onBuf readUnsignedShort) 2 beNat :=
  readsFixed_onBuf readsFixed_readUnsignedShort

theorem readsFixed_int : ReadsFixed sessionCursor (onBuf readUnsignedInt) 4 beNat :=
  readsFixed_onBuf readsFixed_readUnsignedInt

theorem readsFixed_qWord :
    ReadsFixed sessionCursor (onBuf readQWord) 8 fun bytes => toInt64 (beNat bytes) :=
  readsFixed_onBuf readsFixed_readQWord

theorem readsFixed_readDouble :
    ReadsFixed sessionCursor readDouble 8 fun bytes => longToRawBits (toInt64 (beNat bytes)) :=
  readsFixed_qWord.map longToRawBits

theorem readsFixed_readFrequency : ∃ value, ReadsFixed sessionCursor readFrequency 3 value :=
  ⟨_, (readsFixed_onBuf readsFixed_read3Byte).map _⟩

end Lifting

section FieldRules

variable {α : Type} {L : Layout UInt8}

theorem follows_byte {f : ℕ → HandlerM α} (hf : ∀ a, Follows sessionCursor 0 (f a) L) :
    Follows sessionCursor 0 (onBuf readUnsignedByte >>= f) (bytes 1 L) :=
  .fixed_bind readsFixed_byte fun _ => hf _

theorem follows_short {f : ℕ → HandlerM α} (hf : ∀ a, Follows sessionCursor 0 (f a) L) :
    Follows sessionCursor 0 (onBuf readUnsignedShort >>= f) (bytes 2 L) :=
  .fixed_bind readsFixed_short fun _ => hf _

theorem follows_frequency {f : ℤ → HandlerM α} (hf : ∀ a, Follows sessionCursor 0 (f a) L) :
    Follows sessionCursor 0 (readFrequency >>= f) (bytes 3 L) :=
  .fixed_bind readsFixed_readFrequency.choose_spec fun _ => hf _

theorem follows_int {f : ℕ → HandlerM α} (hf : ∀ a, Follows sessionCursor 0 (f a) L) :
    Follows sessionCursor 0 (onBuf readUnsignedInt >>= f) (bytes 4 L) :=
  .fixed_bind readsFixed_int fun _ => hf _

theorem follows_qWord {f : ℤ → HandlerM α} (hf : ∀ a, Follows sessionCursor 0 (f a) L) :
    Follows sessionCursor 0 (onBuf readQWord >>= f) (bytes 8 L) :=
  .fixed_bind readsFixed_qWord fun _ => hf _

theorem follows_double {f : Double → HandlerM α} (hf : ∀ a, Follows sessionCursor 0 (f a) L) :
    Follows sessionCursor 0 (readDouble >>= f) (bytes 8 L) :=
  .fixed_bind readsFixed_readDouble fun _ => hf _

theorem follows_text {f : CxxString → HandlerM α} (hf : ∀ a, Follows sessionCursor 0 (f a) L) :
    Follows sessionCursor 0 (readText >>= f) (text L) :=
  .stopped_bind readsStopped_readText fun _ a _ => hf a

theorem follows_get {f : Session → HandlerM α} (hf : ∀ a, Follows sessionCursor 0 (f a) L) :
    Follows sessionCursor 0 (get >>= f) L :=
  .quiet_bind quiet_get hf

theorem follows_deref {f : Ptr → HandlerM α} (user : Option Ptr)
    (hf : ∀ a, Follows sessionCursor 0 (f a) L) : Follows sessionCursor 0 (deref user >>= f) L :=
  .quiet_bind (quiet_deref user) hf

end FieldRules

section Handlers

variable (env : Environment) (clientSocket : Socket) (user : Option Ptr)

theorem pilotUpdate_follows :
    Follows sessionCursor 0 (PilotUpdate.handle env clientSocket user) (payloadLayout 1) := by
  refine follows_double fun latitude => follows_double fun longitude => ?_
  refine follows_deref user fun u => .quiet_bind (quiet_onServer _) fun _ => ?_
  refine follows_qWord fun hash => follows_short fun groundSpeed => ?_
  refine follows_double fun altitude => ?_
  exact (quiet_onServer _).follows

theorem transponderPacket_follows :
    Follows sessionCursor 0 (TransponderPacket.handle env clientSocket user) (payloadLayout 2) := by
  refine follows_text fun code => follows_deref user fun u => ?_
  exact (quiet_onServer _).follows

theorem controllerUpdate_follows :
    Follows sessionCursor 0 (ControllerUpdate.handle env clientSocket user) (payloadLayout 3) := by
  refine follows_double fun latitude => follows_double fun longitude => ?_
  refine follows_deref user fun u => ?_
  exact (quiet_onServer _).follows

theorem changeCyclePacket_follows :
    Follows sessionCursor 0 (ChangeCyclePacket.handle clientSocket user) (payloadLayout 5) := by
  refine follows_short fun index => follows_get fun x => follows_byte fun type => ?_
  refine follows_qWord fun requestTime => ?_
  split
  · exact follows_deref user fun u => (quiet_onServer _).follows
  · exact (Quiet.pure _).follows

theorem messageRxPacket_follows :
    Follows sessionCursor 0 (MessageRxPacket.handle env clientSocket user) (payloadLayout 6) := by
  refine follows_text fun callsign => follows_frequency fun frequency => ?_
  refine follows_text fun message => follows_get fun x => follows_deref user fun u => ?_
  exact (quiet_onServer _).follows

theorem pilotTitle_follows :
    Follows sessionCursor 0 (PilotTitle.handle clientSocket user) (payloadLayout 7) := by
  refine follows_short fun index => follows_get fun x => follows_text fun title => ?_
  split
  · exact follows_deref _ fun u => (quiet_onServer _).follows
  · exact (Quiet.pure _).follows

theorem clientMode_follows :
    Follows sessionCursor 0 (ClientMode.handle env clientSocket user) (payloadLayout 8) :=
  follows_byte fun _ => follows_deref user fun _ => (quiet_onServer _).follows

theorem clientDisconnect_follows :
    Follows sessionCursor 0 (ClientDisconnect.handle clientSocket user) (payloadLayout 9) :=
  follows_byte fun _ => follows_deref user fun _ => (quiet_onServer _).follows

theorem flightPlanUpdate_follows :
    Follows sessionCursor 0 (FlightPlanUpdate.handle clientSocket user) (payloadLayout 10) := by
  refine follows_short fun curCycle => follows_short fun index => follows_get fun x => ?_
  refine follows_byte fun flightRules => follows_text fun squawk => follows_text fun departure => ?_
  refine follows_text fun arrival => follows_text fun alternate => follows_text fun cruise => ?_
  refine follows_text fun acType => follows_text fun scratch => follows_text fun route => ?_
  refine follows_text fun remarks => ?_
  split
  · exact (Quiet.pure _).follows
  · exact (quiet_onServer _).follows

theorem requestFlightPlan_follows :
    Follows sessionCursor 0 (RequestFlightPlan.handle clientSocket user) (payloadLayout 11) := by
  refine follows_short fun index => follows_short fun curCycle => follows_get fun x => ?_
  split
  · exact (Quiet.pure _).follows
  · split
    · refine .quiet_bind (quiet_onServer _) fun plan => ?_
      split
      · exact (Quiet.throw _).follows
      · split
        · exact follows_deref user fun u => (quiet_onServer _).follows
        · exact (Quiet.pure _).follows
    · exact (Quiet.pure _).follows

theorem privateMsgPacket_follows :
    Follows sessionCursor 0 (PrivateMsgPacket.handle clientSocket user) (payloadLayout 12) := by
  refine follows_text fun callsign => follows_get fun x => follows_text fun message => ?_
  split
  · exact (Quiet.pure _).follows
  · split
    · exact follows_deref user fun u => (quiet_onServer _).follows
    · exact (Quiet.pure _).follows

theorem primeFreqPacket_follows :
    Follows sessionCursor 0 (PrimeFreqPacket.handle env clientSocket user) (payloadLayout 13) := by
  refine follows_byte fun flags => follows_frequency fun first => follows_deref user fun u => ?_
  refine .quiet_bind (quiet_onServer _) fun _ => follows_frequency fun second => ?_
  exact (quiet_onServer _).follows

theorem readObject_follows (c : UInt8) :
    Follows cursor 0 (TempDataPacket.readObject c) (objectLayout c) := by
  unfold TempDataPacket.readObject objectLayout
  split
  · exact readsStopped_readString.follows.map _
  · split
    · exact readsFixed_readQWord.follows.map _
    · exact readsFixed_readUnsignedInt.follows.map _

theorem tempDataPacket_follows :
    Follows sessionCursor 0 (TempDataPacket.handle env clientSocket user) (payloadLayout 14) := by
  refine .stopped_bind readsStopped_readText fun assembly value hvalue => ?_
  subst hvalue
  refine Follows.bind (follows_onBuf (Follows.mapM readObject_follows _)) fun slots => ?_
  refine follows_int fun first => follows_deref user fun u => ?_
  exact (quiet_onServer _).follows

theorem readTypeFields_follows (type : ℕ) :
    Follows sessionCursor 0 (HandshakePacket.readTypeFields type) (typeLayout type) := by
  unfold HandshakePacket.readTypeFields typeLayout
  split
  · exact follows_byte fun rating => follows_byte fun position => (Quiet.pure _).follows
  · split
    · refine follows_byte fun rating => follows_text fun acfTitle => ?_
      refine follows_text fun transponder => ?_
      exact follows_byte fun modeHeavy => follows_qWord fun hash => (Quiet.pure _).follows
    · exact (Quiet.pure _).follows

theorem readFields_follows :
    Follows sessionCursor 0 HandshakePacket.readFields (payloadLayout 45) := by
  refine follows_int fun protoVersion => follows_text fun callSign => ?_
  refine follows_text fun loginName => follows_text fun username => follows_text fun password => ?_
  refine follows_qWord fun requestTime => follows_double fun latitude => ?_
  refine follows_double fun longitude => follows_short fun visibility => ?_
  refine .fixed_bind readsFixed_byte fun type => follows_frequency fun first => ?_
  refine follows_frequency fun second => ?_
  exact (readTypeFields_follows _).bind_quiet fun typeFields => Quiet.pure _

theorem examplePacket_follows :
    Follows sessionCursor 0 (HandshakePacket.handle clientSocket user) (payloadLayout 45) :=
  readFields_follows.bind_quiet fun _ => quiet_onServer _

/-- Every registered handler reads the fields its id stands for. -/
theorem handle_follows {packet : Packet} {id : ℕ}
    (h : (registerPackets env).getPacket id = some packet) :
    Follows sessionCursor 0 (packet.handle clientSocket user) (payloadLayout id) := by
  apply getPacket_byte_cases h
  case handshake => exact examplePacket_follows clientSocket user
  case pong => exact (Quiet.pure ()).follows
  case pilotUpdate => exact pilotUpdate_follows env clientSocket user
  case controllerUpdate => exact controllerUpdate_follows env clientSocket user
  case transponder => exact transponderPacket_follows env clientSocket user
  case changeCycle => exact changeCyclePacket_follows clientSocket user
  case message => exact messageRxPacket_follows env clientSocket user
  case pilotTitle => exact pilotTitle_follows clientSocket user
  case clientMode => exact clientMode_follows env clientSocket user
  case clientDisconnect => exact clientDisconnect_follows clientSocket user
  case flightPlanUpdate => exact flightPlanUpdate_follows clientSocket user
  case requestFlightPlan => exact requestFlightPlan_follows clientSocket user
  case privateMsg => exact privateMsgPacket_follows clientSocket user
  case primeFreq => exact primeFreqPacket_follows env clientSocket user
  case tempData => exact tempDataPacket_follows env clientSocket user

end Handlers

open Layout

/-- When the handler of a complete frame returns, so does the pass. It removes what the handler has
read, which is a record of the fields of its id or as much of one as there is. -/
theorem handled_frame_takes {env : Environment} {clientSocket : Socket} {x z : Session}
    {payload rest : List UInt8} {id : ℕ} {packet : Packet}
    (hframe : splitFrame (registerPackets env) x.buf.unread = some ((id, payload), rest))
    (hpacket : (registerPackets env).getPacket id = some packet)
    (hreturns : (packet.handle clientSocket
        (x.server.clientManager.getUserBySocket clientSocket)).run
      { x with
        buf := atPayload x packet
        dispatched := x.dispatched ++ [(id, payload)] } = .ok () z) :
    ∃ y k, (processFrame (registerPackets env) clientSocket).run x = .ok true y ∧
      Takes 0 (payloadLayout id) (payload ++ rest) k ∧
      z.buf = { atPayload x packet with index := (atPayload x packet).index + k } ∧
      y.buf.unread = (payload ++ rest).drop k ∧ y.buf.index = x.buf.index := by
  obtain ⟨b, tail, packet', n, body, hunread, hpacket', hsize, -, rfl, -, -⟩ :=
    splitFrame_eq_some.mp hframe
  obtain rfl : packet' = packet := Option.some.inj (hpacket'.symm.trans hpacket)
  obtain ⟨hpass, hpayload, -⟩ := processFrame_handled clientSocket hframe hpacket
  obtain ⟨k, htakes, hz⟩ := handle_follows env clientSocket _ hpacket _ () z hreturns
  change Takes 0 _ (atPayload x packet').unread k at htakes
  change z.buf = { atPayload x packet' with index := (atPayload x packet').index + k } at hz
  obtain ⟨t, hdelete, ht, hindex⟩ :=
    deleteMarkedBlock_atPayload hunread htakes.le_length (splitSize_drop hsize).1
  have hprocess := processPacket_run clientSocket
    (x := { x with buf := atPayload x packet' }) hpacket hpayload
  rw [hpayload] at htakes ht
  refine ⟨{ z with buf := t }, k, ?_, htakes, hz, ht, hindex⟩
  rw [hpass, run_bind_of_ok (hprocess.trans hreturns),
    run_bind_of_ok (onBuf_ok.mpr ⟨t, by rw [hz]; exact hdelete, rfl⟩)]
  rfl

/-- These are the bytes behind the frame exactly when the payload is one encoding of the fields the
handler reads, or the end of the received bytes and an encoding whose last string is cut short. -/
theorem drop_eq_rest_iff {L : Layout UInt8} {payload rest : List UInt8} {k : ℕ}
    (htakes : Takes 0 L (payload ++ rest) k) :
    (payload ++ rest).drop k = rest ↔ Encodes 0 L payload ∨ (rest = [] ∧ CutShort 0 L payload) := by
  rw [← takes_append_iff]
  constructor
  · intro hrest
    have hk := htakes.le_length
    have hlen := congrArg List.length hrest
    rw [List.length_drop, List.length_append] at hlen
    rw [List.length_append] at hk
    obtain rfl : k = payload.length := by omega
    exact htakes
  · intro hexact
    rw [htakes.unique hexact, List.drop_left]

end Win64Server.PacketIsolation
