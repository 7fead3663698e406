import Win64Server.FramingSafety
import Win64Server.Frames
import Win64Server.Observers

/-!
Packets that end before their handler has read them. A handler that takes all its fields off the
stream before it changes anything leaves the users and the registry alone when the stream ends. Two
handlers store a field in between: the position of a pilot, and the first of two frequencies.
-/
namespace Win64Server.TruncatedPackets

open Outcome BasicStream PacketFields Frames

/-- What the readers throw when the stream ends. -/
def endOfStream : Fault := .thrown (.outOfRange "End of stream reached")

/-- Every other fault. -/
def Elsewhere (e : Fault) : Prop := e ≠ endOfStream

instance (u : Undefined) : Fact (Elsewhere (.undefined u)) := ⟨by simp [Elsewhere, endOfStream]⟩

instance : Fact (Elsewhere (.thrown .badCast)) := ⟨by simp [Elsewhere, endOfStream]⟩

instance : Fact (Elsewhere (.thrown .badAnyCast)) := ⟨by simp [Elsewhere, endOfStream]⟩

instance (what : String) : Fact (Elsewhere (.thrown (.runtimeError what))) :=
  ⟨by simp [Elsewhere, endOfStream]⟩

instance (what : String) : Fact (Elsewhere (.thrown (.invalidArgument what))) :=
  ⟨by simp [Elsewhere, endOfStream]⟩

instance : Fact (Elsewhere (.thrown (.outOfRange "stoi argument out of range"))) :=
  ⟨by simp [Elsewhere, endOfStream]⟩

/-- When the stream ends under the handler, the users and the registry are as they were. -/
def Unchanged (program : HandlerM Unit) (x : Session) : Prop :=
  ∀ y, program.run x = .error endOfStream y →
    y.server.heap = x.server.heap ∧ y.server.clientManager = x.server.clientManager

/-- The stream can end only while the server is untouched. -/
class Whole {α : Type} (program : HandlerM α) : Prop where
  whole : ∀ x y, program.run x = .error endOfStream y → y.server = x.server

namespace Whole

variable {α β : Type}

instance of_kept (program : HandlerM α) [h : Kept (Lifted Eq) program] : Whole program where
  whole x y hrun := by
    have hkept := h.keeps x
    rw [hrun] at hkept
    exact hkept.1.symm

instance of_raises (program : HandlerM α) [h : Raises Elsewhere program] : Whole program where
  whole x y hrun := absurd rfl (h.raised x _ y hrun)

/-- A part that only reads may come first. -/
instance bind (program : HandlerM α) (f : α → HandlerM β) [h : Kept (Lifted Eq) program]
    [hf : ∀ a, Whole (f a)] : Whole (program >>= f) where
  whole x y hrun := by
    rcases run_bind_error.mp hrun with hfirst | ⟨a, u, hfirst, hrest⟩
    · exact (of_kept program).whole x y hfirst
    · exact ((hf a).whole u y hrest).trans (h.keeps.ok hfirst).1.symm

theorem of_bind {program : HandlerM α} {f : α → HandlerM β} (h : Kept (Lifted Eq) program)
    (hf : ∀ a, Whole (f a)) : Whole (program >>= f) :=
  inferInstance

theorem of_ite {c : Prop} [Decidable c] {x y : HandlerM α} (hx : Whole x) (hy : Whole y) :
    Whole (if c then x else y) := by
  split
  · exact hx
  · exact hy

theorem unchanged {program : HandlerM Unit} (h : Whole program) (x : Session) :
    Unchanged program x := by
  intro y hrun
  rw [h.whole x y hrun]
  exact ⟨rfl, rfl⟩

end Whole

section Handlers

variable (env : Environment) (clientSocket : Socket) (user : Option Ptr)

theorem whole_controllerUpdate : Whole (ControllerUpdate.handle env clientSocket user) := by
  unfold ControllerUpdate.handle; infer_instance

theorem whole_transponder : Whole (TransponderPacket.handle env clientSocket user) := by
  unfold TransponderPacket.handle; infer_instance

theorem whole_changeCycle : Whole (ChangeCyclePacket.handle clientSocket user) := by
  unfold ChangeCyclePacket.handle
  refine .of_bind inferInstance fun index => .of_bind inferInstance fun x => ?_
  refine .of_bind inferInstance fun type => .of_bind inferInstance fun requestTime => ?_
  refine .of_ite (.of_bind inferInstance fun u => ?_) inferInstance
  refine @Whole.of_raises _ _ (@raises_onServer _ _ _ (.of_bind inferInstance fun r => ?_))
  cases r.setRequestedInterval type requestTime <;> infer_instance

theorem whole_message : Whole (MessageRxPacket.handle env clientSocket user) := by
  unfold MessageRxPacket.handle
  refine .of_bind inferInstance fun callsign => .of_bind inferInstance fun frequency => ?_
  refine .of_bind inferInstance fun message => .of_bind inferInstance fun x => ?_
  cases x.server.clientManager.getUserByCallsign callsign <;> infer_instance

theorem whole_pilotTitle : Whole (PilotTitle.handle clientSocket user) := by
  unfold PilotTitle.handle
  refine .of_bind inferInstance fun index => .of_bind inferInstance fun x => ?_
  exact .of_bind inferInstance fun title => .of_ite inferInstance inferInstance

theorem whole_clientMode : Whole (ClientMode.handle env clientSocket user) := by
  unfold ClientMode.handle; infer_instance

theorem whole_clientDisconnect : Whole (ClientDisconnect.handle clientSocket user) := by
  unfold ClientDisconnect.handle; infer_instance

theorem whole_flightPlanUpdate : Whole (FlightPlanUpdate.handle clientSocket user) := by
  unfold FlightPlanUpdate.handle
  refine .of_bind inferInstance fun curCycle => .of_bind inferInstance fun index => ?_
  refine .of_bind inferInstance fun x => .of_bind inferInstance fun flightRules => ?_
  refine .of_bind inferInstance fun squawk => .of_bind inferInstance fun departure => ?_
  refine .of_bind inferInstance fun arrival => .of_bind inferInstance fun alternate => ?_
  refine .of_bind inferInstance fun cruise => .of_bind inferInstance fun acType => ?_
  refine .of_bind inferInstance fun scratch => .of_bind inferInstance fun route => ?_
  refine .of_bind inferInstance fun remarks => ?_
  cases x.server.clientManager.getUserByIndex index with
  | none => infer_instance
  | some u =>
    refine @Whole.of_raises _ _ (@raises_onServer _ _ _ ?_)
    refine .of_bind inferInstance fun r => .of_ite ?_ inferInstance
    refine .of_bind inferInstance fun plan => ?_
    cases plan <;> infer_instance

theorem whole_requestFlightPlan : Whole (RequestFlightPlan.handle clientSocket user) := by
  unfold RequestFlightPlan.handle
  refine .of_bind inferInstance fun index => .of_bind inferInstance fun curCycle => ?_
  refine .of_bind inferInstance fun x => ?_
  cases x.server.clientManager.getUserByIndex index with
  | none => infer_instance
  | some userFp =>
    refine .of_ite (@Whole.of_raises _ _ (.of_bind inferInstance fun plan => ?_)) inferInstance
    cases plan <;> infer_instance

theorem whole_privateMsg : Whole (PrivateMsgPacket.handle clientSocket user) := by
  unfold PrivateMsgPacket.handle
  refine .of_bind inferInstance fun callsign => .of_bind inferInstance fun x => ?_
  refine .of_bind inferInstance fun message => ?_
  cases x.server.clientManager.getUserByCallsign callsign <;> infer_instance

theorem whole_tempData : Whole (TempDataPacket.handle env clientSocket user) := by
  unfold TempDataPacket.handle; infer_instance

theorem whole_handshake : Whole (HandshakePacket.handle clientSocket user) := by
  unfold HandshakePacket.handle
  exact .of_bind Frames.kept_readFields fun f => inferInstance

end Handlers

/-- The number that three bytes spell, as the handler of frequencies takes it. -/
def frequencyAt (bytes : List UInt8) : ℤ :=
  toInt32 (Int.ofNat (if beNat bytes > 8388607 then (beNat bytes + 2 ^ 32 - 16777216) % 2 ^ 32
    else beNat bytes))

/-- The reads take exactly `n` bytes and make a value of them, or find the stream ended. -/
structure ReadsBytes {α : Type} (program : HandlerM α) (n : ℕ) (value : List UInt8 → α) : Prop where
  reads : ∀ x, n ≤ x.buf.unread.length →
    program.run x = .ok (value (x.buf.unread.take n)) { x with buf := advance x.buf n }
  ends : ∀ x, x.buf.unread.length < n →
    ∃ buf, program.run x = .error endOfStream { x with buf := buf }

namespace ReadsBytes

variable {α β : Type} {program : HandlerM α} {f : α → HandlerM β} {n m : ℕ}
  {value : List UInt8 → α} {value' : α → List UInt8 → β}

theorem number {n : ℕ} (hn : 0 < n) (g : List UInt8 → α) :
    ReadsBytes (onBuf (g <$> readBytes n)) n g where
  reads x h := onBuf_ok.mpr ⟨_, run_map_ok.mpr ⟨_, readBytes_run x.buf hn h, rfl⟩, rfl⟩
  ends x h := by
    rw [unread_length] at h
    have hend : ¬ x.buf.index + (n - 1) < x.buf.dataSize := by omega
    refine ⟨x.buf, ?_⟩
    rw [run_onBuf, run_map, readBytes, run_bind_of_ok (EStateM.run_get ..), if_neg hend]
    rfl

theorem map (h : ReadsBytes program n value) (g : α → β) :
    ReadsBytes (g <$> program) n fun bytes => g (value bytes) where
  reads x hx := by rw [run_map, h.reads x hx]
  ends x hx := by
    obtain ⟨buf, hrun⟩ := h.ends x hx
    exact ⟨buf, by rw [run_map, hrun]⟩

/-- The second part takes its bytes behind those of the first. -/
theorem bind (h : ReadsBytes program n value) (hf : ∀ a, ReadsBytes (f a) m (value' a)) :
    ReadsBytes (program >>= f) (n + m) fun bytes =>
      value' (value (bytes.take n)) (bytes.drop n) where
  reads x hx := by
    have hrest : m ≤ (advance x.buf n).unread.length := by
      rw [advance, unread_advance, List.length_drop]
      omega
    rw [run_bind_of_ok (h.reads x (by omega)), (hf _).reads _ hrest]
    simp only [advance, unread_advance, List.take_take, List.drop_take, Nat.min_eq_left
      (Nat.le_add_right n m), Nat.add_sub_cancel_left, Nat.add_assoc]
  ends x hx := by
    by_cases hfirst : n ≤ x.buf.unread.length
    · have hrest : (advance x.buf n).unread.length < m := by
        rw [advance, unread_advance, List.length_drop]
        omega
      obtain ⟨buf, hrun⟩ := (hf (value (x.buf.unread.take n))).ends
        { x with buf := advance x.buf n } hrest
      exact ⟨buf, (run_bind_of_ok (h.reads x hfirst)).trans hrun⟩
    · obtain ⟨buf, hrun⟩ := h.ends x (by omega)
      exact ⟨buf, run_bind_of_error hrun⟩

theorem byte : ReadsBytes (onBuf readUnsignedByte) 1 beNat := number Nat.one_pos beNat

theorem short : ReadsBytes (onBuf readUnsignedShort) 2 beNat := number Nat.two_pos beNat

theorem qWord : ReadsBytes (onBuf readQWord) 8 fun bytes => toInt64 (beNat bytes) :=
  number (by decide) _

theorem double : ReadsBytes readDouble 8 fun bytes => longToRawBits (toInt64 (beNat bytes)) :=
  qWord.map longToRawBits

theorem frequency : ReadsBytes readFrequency 3 frequencyAt := by
  have h : ReadsBytes (onBuf read3Byte) 3 fun bytes => if beNat bytes > 8388607 then
      (beNat bytes + 2 ^ 32 - 16777216) % 2 ^ 32 else beNat bytes := by
    unfold read3Byte
    rw [← map_eq_pure_bind]
    exact number (by decide) _
  exact h.map fun value => toInt32 (Int.ofNat value)

end ReadsBytes

section Interrupted

variable {α β : Type} {n m : ℕ} {first : HandlerM α} {second : HandlerM β}
  {value : List UInt8 → α} {value' : List UInt8 → β}

/-- A handler that stores what it has read first and then reads on. -/
def interrupted (first : HandlerM α) (second : HandlerM β) (user : Ptr) (write : α → User → User)
    (last : α → β → ServerM Unit) : HandlerM Unit := do
  let a ← first
  onServer (Server.updateUser user (write a))
  let b ← second
  onServer (last a b)

theorem modifyUser_heap_eq_iff {s : Server} {user : Ptr} {f : User → User} :
    (s.modifyUser user f).heap = s.heap ↔ f (s.heap user) = s.heap user :=
  Function.update_eq_self_iff

/-- The store is there for good when the stream ends behind it. -/
theorem interrupted_unchanged_iff (hfirst : ReadsBytes first n value)
    (hsecond : ReadsBytes second m value') (user : Ptr) (write : α → User → User)
    (last : α → β → ServerM Unit) [∀ a b, Raises Elsewhere (last a b)] (x : Session) :
    Unchanged (interrupted first second user write last) x ↔
      ¬ (n ≤ x.buf.unread.length ∧ x.buf.unread.length < n + m ∧
        write (value (x.buf.unread.take n)) (x.server.heap user) ≠ x.server.heap user) := by
  by_cases hbegun : n ≤ x.buf.unread.length
  · let a := value (x.buf.unread.take n)
    let z : Session :=
      { x with
        buf := advance x.buf n
        server := x.server.modifyUser user (write a) }
    have hstart : (interrupted first second user write last).run x =
        (second >>= fun b => onServer (last a b)).run z := by
      rw [interrupted, run_bind_of_ok (hfirst.reads x hbegun)]
      rfl
    have hlength : z.buf.unread.length = x.buf.unread.length - n := by
      simp only [z, advance, unread_advance, List.length_drop]
    by_cases hended : x.buf.unread.length < n + m
    · obtain ⟨buf, hend⟩ := hsecond.ends z (by omega)
      have hrun : (interrupted first second user write last).run x =
          .error endOfStream { z with buf := buf } := by
        rw [hstart, run_bind_of_error hend]
      have hunchanged : Unchanged (interrupted first second user write last) x ↔
          write a (x.server.heap user) = x.server.heap user := by
        rw [← modifyUser_heap_eq_iff]
        constructor
        · intro h
          exact (h _ hrun).1
        · intro h y hy
          rw [hrun] at hy
          cases hy
          exact ⟨h, rfl⟩
      rw [hunchanged]
      simp [hbegun, hended, a]
    · refine iff_of_true (fun y hy => ?_) fun h => hended h.2.1
      rw [hstart, run_bind_of_ok (hsecond.reads z (by omega))] at hy
      have hraises : Raises Elsewhere (onServer (last a (value' (z.buf.unread.take m)))) :=
        inferInstance
      exact absurd rfl (hraises.raised _ _ y hy)
  · refine iff_of_true (fun y hy => ?_) fun h => hbegun h.1
    obtain ⟨buf, hend⟩ := hfirst.ends x (by omega)
    rw [interrupted, run_bind_of_error hend] at hy
    cases hy
    exact ⟨rfl, rfl⟩

end Interrupted

section Locations

/-- The position in a pilot's update. -/
def readLocation : HandlerM Location := do
  let latitude ← readDouble
  let longitude ← readDouble
  return ⟨latitude, longitude⟩

def locationAt (bytes : List UInt8) : Location :=
  ⟨longToRawBits (toInt64 (beNat (bytes.take 8))), longToRawBits (toInt64 (beNat (bytes.drop 8)))⟩

theorem readsBytes_location : ReadsBytes readLocation 16 locationAt :=
  ReadsBytes.double.bind fun latitude => ReadsBytes.double.map fun longitude =>
    Location.mk latitude longitude

/-- What comes behind the position. -/
def readState : HandlerM State := do
  let hash ← onBuf readQWord
  let groundSpeed ← onBuf readUnsignedShort
  let altitude ← readDouble
  return {
    pitch := pitchOf hash, roll := rollOf hash, heading := headingOf hash
    groundSpeed := groundSpeed, altitude := altitude }

theorem readsBytes_state : ∃ value, ReadsBytes readState 18 value :=
  ⟨_, ReadsBytes.qWord.bind fun hash => ReadsBytes.short.bind fun groundSpeed =>
    ReadsBytes.double.map fun altitude =>
      ({ pitch := pitchOf hash, roll := rollOf hash, heading := headingOf hash
         groundSpeed := groundSpeed, altitude := altitude } : State)⟩

theorem pilotUpdate_eq (env : Environment) (clientSocket : Socket) (user : Ptr) :
    PilotUpdate.handle env clientSocket (some user) =
      interrupted readLocation readState user (fun location r => { r with location := location })
        (fun _ state => do
          Server.updateUser user fun r => r.modifyAircraft fun a => { a with state := state }
          let now ← Server.readClock env
          Server.updateUser user fun r => { r with lastPositionUpdate := now }) := by
  simp only [PilotUpdate.handle, interrupted, readLocation, readState, deref, bind_assoc, pure_bind]

theorem pilotUpdate_unchanged_iff (env : Environment) (clientSocket : Socket) (user : Ptr)
    (x : Session) :
    Unchanged (PilotUpdate.handle env clientSocket (some user)) x ↔
      ¬ (16 ≤ x.buf.unread.length ∧ x.buf.unread.length < 34 ∧
        locationAt (x.buf.unread.take 16) ≠ (x.server.heap user).location) := by
  obtain ⟨value, hstate⟩ := readsBytes_state
  rw [pilotUpdate_eq, interrupted_unchanged_iff readsBytes_location hstate]
  refine not_congr (and_congr_right fun _ => and_congr_right fun _ => not_congr ?_)
  generalize locationAt (x.buf.unread.take 16) = location
  exact ⟨fun h => congrArg User.location h, fun h => by rw [h]⟩

end Locations

section Frequencies

def readFirst : HandlerM ℤ := do
  let _flags ← onBuf readUnsignedByte
  readFrequency

/-- The first frequency of the packet, behind the flags. -/
def firstFrequencyAt (bytes : List UInt8) : ℤ := frequencyAt (bytes.drop 1)

theorem readsBytes_first : ReadsBytes readFirst 4 firstFrequencyAt :=
  ReadsBytes.byte.bind fun _flags => ReadsBytes.frequency

theorem primeFreq_eq (env : Environment) (clientSocket : Socket) (user : Ptr) :
    PrimeFreqPacket.handle env clientSocket (some user) =
      interrupted readFirst readFrequency user
        (fun first r => { r with frequencies := Function.update r.frequencies 0 first })
        (fun _ second => do
          Server.updateUser user fun r =>
            { r with frequencies := Function.update r.frequencies 1 second }
          Server.iterateLocalUsers env user fun other => do
            let o ← Server.getUser other
            if o.getType = .controller then Server.sendPrimFreq other user) := by
  simp only [PrimeFreqPacket.handle, interrupted, readFirst, deref, bind_assoc, pure_bind]

theorem primeFreq_unchanged_iff (env : Environment) (clientSocket : Socket) (user : Ptr)
    (x : Session) :
    Unchanged (PrimeFreqPacket.handle env clientSocket (some user)) x ↔
      ¬ (4 ≤ x.buf.unread.length ∧ x.buf.unread.length < 7 ∧
        firstFrequencyAt (x.buf.unread.take 4) ≠ (x.server.heap user).frequencies 0) := by
  rw [primeFreq_eq, interrupted_unchanged_iff readsBytes_first ReadsBytes.frequency]
  refine not_congr (and_congr_right fun _ => and_congr_right fun _ => not_congr ?_)
  rw [← Function.update_eq_self_iff (f := (x.server.heap user).frequencies)]
  exact ⟨fun h => congrArg User.frequencies h, fun h => by rw [h]⟩

end Frequencies

/-- The handler has stored a field that differs from the one before, and then the stream ends: a
pilot's position, or the first of two frequencies. -/
def Early (user : Ptr) (id : ℤ) (x : Session) : Prop :=
  (id = 1 ∧ 16 ≤ x.buf.unread.length ∧ x.buf.unread.length < 34 ∧
    locationAt (x.buf.unread.take 16) ≠ (x.server.heap user).location) ∨
  (id = 13 ∧ 4 ≤ x.buf.unread.length ∧ x.buf.unread.length < 7 ∧
    firstFrequencyAt (x.buf.unread.take 4) ≠ (x.server.heap user).frequencies 0)

instance (user : Ptr) (id : ℤ) (x : Session) : Decidable (Early user id x) := by
  unfold Early; infer_instance

section Packets

variable (env : Environment) (clientSocket : Socket) (user : Ptr) (x : Session)

theorem early_pilotUpdate :
    Early user 1 x ↔ 16 ≤ x.buf.unread.length ∧ x.buf.unread.length < 34 ∧
      locationAt (x.buf.unread.take 16) ≠ (x.server.heap user).location := by
  simp [Early]

theorem early_primeFreq :
    Early user 13 x ↔ 4 ≤ x.buf.unread.length ∧ x.buf.unread.length < 7 ∧
      firstFrequencyAt (x.buf.unread.take 4) ≠ (x.server.heap user).frequencies 0 := by
  simp [Early]

/-- Thirteen of the handlers read before they write. -/
theorem handle_unchanged_iff {packet : Packet} (h : packet ∈ registeredPackets env) :
    Unchanged (packet.handle clientSocket (some user)) x ↔ ¬ Early user packet.packetId x := by
  have hwhole {program : HandlerM Unit} (id : ℤ) (hposition : id ≠ 1) (hfrequency : id ≠ 13)
      (hprogram : Whole program) : Unchanged program x ↔ ¬ Early user id x := by
    refine iff_of_true (hprogram.unchanged x) ?_
    rintro (⟨hid, -⟩ | ⟨hid, -⟩)
    · exact hposition hid
    · exact hfrequency hid
  apply registered_cases h
  case handshake =>
    exact hwhole 45 (by decide) (by decide) (whole_handshake clientSocket (some user))
  case pong => exact hwhole 4 (by decide) (by decide) (.of_kept (pure ()))
  case pilotUpdate =>
    exact (pilotUpdate_unchanged_iff env clientSocket user x).trans
      (not_congr (early_pilotUpdate user x).symm)
  case controllerUpdate =>
    exact hwhole 3 (by decide) (by decide) (whole_controllerUpdate env clientSocket _)
  case transponder => exact hwhole 2 (by decide) (by decide) (whole_transponder env clientSocket _)
  case changeCycle => exact hwhole 5 (by decide) (by decide) (whole_changeCycle clientSocket _)
  case message => exact hwhole 6 (by decide) (by decide) (whole_message env clientSocket _)
  case pilotTitle => exact hwhole 7 (by decide) (by decide) (whole_pilotTitle clientSocket _)
  case clientMode => exact hwhole 8 (by decide) (by decide) (whole_clientMode env clientSocket _)
  case clientDisconnect =>
    exact hwhole 9 (by decide) (by decide) (whole_clientDisconnect clientSocket _)
  case flightPlanUpdate =>
    exact hwhole 10 (by decide) (by decide) (whole_flightPlanUpdate clientSocket (some user))
  case requestFlightPlan =>
    exact hwhole 11 (by decide) (by decide) (whole_requestFlightPlan clientSocket _)
  case privateMsg => exact hwhole 12 (by decide) (by decide) (whole_privateMsg clientSocket _)
  case primeFreq =>
    exact (primeFreq_unchanged_iff env clientSocket user x).trans
      (not_congr (early_primeFreq user x).symm)
  case tempData => exact hwhole 14 (by decide) (by decide) (whole_tempData env clientSocket _)

/-- What the framer hands out goes to the handler together with its sender. -/
theorem processPacket_unchanged_iff {factory : PacketFactory} {packet : Packet} {id : ℕ} (size : ℤ)
    (hpacket : factory.getPacket id = some packet)
    (huser : x.server.clientManager.getUserBySocket clientSocket = some user) :
    Unchanged (processPacket factory clientSocket id size) x ↔
      Unchanged (packet.handle clientSocket (some user))
        { x with dispatched := x.dispatched ++ [(id, x.buf.unread.take size.toNat)] } := by
  have hrun : (processPacket factory clientSocket id size).run x =
      (packet.handle clientSocket (some user)).run
        { x with dispatched := x.dispatched ++ [(id, x.buf.unread.take size.toNat)] } := by
    rw [← huser]
    simp only [processPacket, hpacket]
    rfl
  simp only [Unchanged, hrun]

end Packets

/-- A packet whose handler finds the stream ended changes nothing, unless a field was stored
early. -/
theorem truncated_unchanged_iff (env : Environment) (clientSocket : Socket) (id : ℕ) (size : ℤ)
    (user : Ptr) (x : Session)
    (huser : x.server.clientManager.getUserBySocket clientSocket = some user) :
    Unchanged (processPacket (registerPackets env) clientSocket id size) x ↔
      ¬ Early user id x := by
  cases hpacket : (registerPackets env).getPacket id with
  | none =>
    have hid : id ∉ FramingSafety.registeredIds := by
      rw [← FramingSafety.getPacket_isSome_iff env, hpacket]
      simp
    refine iff_of_true (fun y hrun => ?_) ?_
    · simp only [processPacket, hpacket] at hrun
      cases hrun
    · rintro (⟨h, -⟩ | ⟨h, -⟩)
      all_goals exact hid (by simp [FramingSafety.registeredIds]; omega)
  | some packet =>
    obtain ⟨hmem, hid⟩ := registered_of_getPacket hpacket
    rw [processPacket_unchanged_iff clientSocket user x size hpacket huser,
      handle_unchanged_iff env clientSocket user _ hmem, hid]
    rfl

section OnlyPosition

open Observers

/-- The pilot announces a position and nothing else. -/
def onlyPosition (latitude : List UInt8) : Session :=
  ⟨twoUsers, .preallocated (latitude ++ List.replicate 8 0), []⟩

/-- The position it has already. -/
theorem same_position_unchanged :
    Unchanged (processPacket (registerPackets (.orderly sixtyMiles)) 2 1 16)
      (onlyPosition [0x3F, 0xF0, 0, 0, 0, 0, 0, 0]) :=
  (truncated_unchanged_iff (.orderly sixtyMiles) 2 1 16 1
    (onlyPosition [0x3F, 0xF0, 0, 0, 0, 0, 0, 0]) (by decide +kernel)).mpr (by decide +kernel)

theorem other_position_stored : ¬ ∀ (env : Environment) (clientSocket : Socket) (id : ℕ) (size : ℤ)
    (user : Ptr) (x : Session),
    x.server.clientManager.getUserBySocket clientSocket = some user →
      Unchanged (processPacket (registerPackets env) clientSocket id size) x := by
  intro h
  have huser : (onlyPosition (List.replicate 8 0)).server.clientManager.getUserBySocket 2 =
      some 1 := by decide +kernel
  have hunchanged := h (.orderly sixtyMiles) 2 1 16 1 (onlyPosition (List.replicate 8 0)) huser
  rw [processPacket_unchanged_iff 2 1 _ 16 rfl huser] at hunchanged
  refine (pilotUpdate_unchanged_iff (.orderly sixtyMiles) 2 1 _).mp hunchanged ?_
  decide +kernel

end OnlyPosition

end Win64Server.TruncatedPackets
