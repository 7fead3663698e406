import Win64Server.MessageContents
import Win64Server.PacketFields
import Mathlib.Data.Int.ModEq

/-!
The orientation of an aircraft on its way through the server. A client sends three angles in one
word; the server stores them as degrees and packs them into a word again for whoever is told. The
two words have the same roll and heading, and the same pitch up to full turns.
-/
namespace Win64Server.Orientation

open Outcome Library BasicStream MessageContents PacketFields

/-- `hash >> 22`, the pitch, which has no mask. -/
def pitchField (hash : ℤ) : ℤ := hash / 2 ^ 22

/-- `hash >> 12 & 0x3ff`. -/
def rollField (hash : ℤ) : ℤ := hash / 2 ^ 12 % 1024

/-- `hash >> 2 & 0x3ff`. -/
def headingField (hash : ℤ) : ℤ := hash / 2 ^ 2 % 1024

/-- The angles were taken from this word. -/
structure Stored (hash : ℤ) (state : State) : Prop where
  pitch : state.pitch = pitchOf hash
  roll : state.roll = rollOf hash
  heading : state.heading = headingOf hash

/-- The second word has the angles of the first; of the pitch, a client knows the low 32 bits. -/
structure SameAngles (hash hash' : ℤ) : Prop where
  roll : rollField hash' = rollField hash
  heading : headingField hash' = headingField hash
  pitch : pitchField hash' ≡ toInt32 (pitchField hash) [ZMOD 1024]

/-- Eight bytes read as a signed number. -/
def wordOf (bytes : List UInt8) : ℤ := toInt64 (beNat bytes)

section Degrees

theorem truncate_intCast (x : ℤ) : truncate (x : ℚ) = x := by
  simp [truncate, Int.tdiv_one]

/-- Back from degrees to 1024ths of a turn. -/
theorem truncate_backward (x : ℤ) : truncate ((x : ℚ) / 1024 * -360 * 1024 / -360) = x := by
  have h : (x : ℚ) / 1024 * -360 * 1024 / -360 = x := by ring
  rw [h, truncate_intCast]

theorem truncate_forward (x : ℤ) : truncate ((x : ℚ) / 1024 * 360 * 1024 / 360) = x := by
  have h : (x : ℚ) / 1024 * 360 * 1024 / 360 = x := by ring
  rw [h, truncate_intCast]

end Degrees

/-- The 32-bit arithmetic loses nothing but multiples of 2^32. -/
theorem orientationWord_eq {hash : ℤ} {state : State} (h : Stored hash state) :
    orientationWord state =
      toInt32 (toInt32 (pitchField hash) * 2 ^ 22 + rollField hash * 2 ^ 12 +
        headingField hash * 2 ^ 2) := by
  have hpitch : truncate (state.pitch * 1024 / -360) = toInt32 (pitchField hash) := by
    rw [h.pitch, pitchOf, truncate_backward]
    rfl
  have hroll : truncate (state.roll * 1024 / -360) = rollField hash := by
    rw [h.roll, rollOf, truncate_backward]
    rfl
  have hheading : truncate (state.heading * 1024 / 360) = headingField hash := by
    rw [h.heading, headingOf, truncate_forward]
    rfl
  rw [orientationWord, hpitch, hroll, hheading]
  simp only [toInt32, Int.bmod_add_bmod, Int.add_bmod_bmod]

/-- A word of 32 bits survives being sent as eight bytes. -/
theorem wordOf_beBytes (x : ℤ) : wordOf (beBytes 8 (toInt32 x)) = toInt32 x := by
  have hlow : -2 ^ 31 ≤ toInt32 x := Int.le_bmod (by decide)
  have hhigh : toInt32 x < 2 ^ 31 := Int.bmod_lt (by decide)
  rw [wordOf, beNat_beBytes, toInt64]
  have h : ((256 : ℤ) ^ 8) = ((2 ^ 64 : ℕ) : ℤ) := by norm_num
  rw [h, Int.emod_bmod, Int.bmod_eq_of_le (by omega) (by omega)]

/-- The ten-bit fields do not see the pitch above them, nor the pitch a multiple of 2^32. -/
theorem fields_of_word {word pitch roll heading : ℤ} (hroll : 0 ≤ roll ∧ roll < 1024)
    (hheading : 0 ≤ heading ∧ heading < 1024)
    (hword : word = toInt32 (pitch * 2 ^ 22 + roll * 2 ^ 12 + heading * 2 ^ 2)) :
    rollField word = roll ∧ headingField word = heading ∧ pitchField word ≡ pitch [ZMOD 1024] := by
  obtain ⟨k, hk⟩ : ∃ k, word = pitch * 2 ^ 22 + roll * 2 ^ 12 + heading * 2 ^ 2 + 2 ^ 32 * k := by
    have hdvd := Int.dvd_self_sub_bmod (x := pitch * 2 ^ 22 + roll * 2 ^ 12 + heading * 2 ^ 2)
      (m := 2 ^ 32)
    obtain ⟨k, hk⟩ := hdvd
    exact ⟨-k, by rw [hword, toInt32]; omega⟩
  rw [hk]
  refine ⟨?_, ?_, ?_⟩
  · unfold rollField
    omega
  · unfold headingField
    omega
  · unfold pitchField Int.ModEq
    omega

/-- What a client decodes from the word it is sent about an aircraft. -/
theorem sameAngles_of_stored {hash : ℤ} {state : State} (h : Stored hash state) :
    SameAngles hash (wordOf (beBytes 8 (orientationWord state))) := by
  have hroll : 0 ≤ rollField hash ∧ rollField hash < 1024 := by
    unfold rollField
    omega
  have hheading : 0 ≤ headingField hash ∧ headingField hash < 1024 := by
    unfold headingField
    omega
  have hword : wordOf (beBytes 8 (orientationWord state)) = toInt32 (toInt32 (pitchField hash) *
      2 ^ 22 + rollField hash * 2 ^ 12 + headingField hash * 2 ^ 2) := by
    rw [orientationWord_eq h, wordOf_beBytes]
  obtain ⟨hroll', hheading', hpitch'⟩ := fields_of_word hroll hheading hword
  exact ⟨hroll', hheading', hpitch'⟩

section Incoming

theorem onBuf_readQWord_ok {x y : Session} {value : ℤ}
    (h : (onBuf readQWord).run x = .ok value y) :
    value = wordOf (x.buf.unread.take 8) ∧ y.buf.unread = x.buf.unread.drop 8 := by
  obtain ⟨buf, hread, rfl⟩ := onBuf_ok.mp h
  obtain ⟨-, hvalue, rfl⟩ := readsFixed_readQWord _ _ _ hread
  exact ⟨hvalue, unread_advance x.buf 8⟩

theorem readDouble_ok {x y : Session} {value : Double} (h : readDouble.run x = .ok value y) :
    y.buf.unread = x.buf.unread.drop 8 := by
  obtain ⟨word, hword, -⟩ := run_map_ok.mp h
  exact (onBuf_readQWord_ok hword).2

/-- The orientation is read behind the two coordinates. -/
theorem pilotUpdate_stores {env : Environment} {clientSocket : Socket} {u : Ptr} {x y : Session}
    (hrun : (PilotUpdate.handle env clientSocket (some u)).run x = .ok () y) {aircraft : Aircraft}
    (h : (y.server.heap u).derived = .aircraft aircraft) :
    Stored (wordOf ((x.buf.unread.drop 16).take 8)) aircraft.state := by
  obtain ⟨latitude, x₁, hlatitude, hrest₁⟩ := run_bind_ok.mp hrun
  obtain ⟨longitude, x₂, hlongitude, hrest₂⟩ := run_bind_ok.mp hrest₁
  obtain ⟨v, x₃, hderef, hrest₃⟩ := run_bind_ok.mp hrest₂
  cases hderef
  obtain ⟨_, x₄, hlocation, hrest₄⟩ := run_bind_ok.mp hrest₃
  obtain ⟨server, -, rfl⟩ := onServer_ok.mp hlocation
  obtain ⟨hash, x₅, hword, hrest₅⟩ := run_bind_ok.mp hrest₄
  obtain ⟨groundSpeed, x₆, _, hrest₆⟩ := run_bind_ok.mp hrest₅
  obtain ⟨altitude, x₇, _, hrest₇⟩ := run_bind_ok.mp hrest₆
  obtain ⟨server', hdone, rfl⟩ := onServer_ok.mp hrest₇
  have hbuf : x₂.buf.unread = x.buf.unread.drop 16 := by
    rw [readDouble_ok hlongitude, readDouble_ok hlatitude, List.drop_drop]
  have hhash : hash = wordOf ((x.buf.unread.drop 16).take 8) := by
    rw [(onBuf_readQWord_ok hword).1, ← hbuf]
  rw [← hhash]
  cases hdone
  simp only [Server.modifyUser_heap_self] at h
  cases hderived : (x₇.server.heap u).derived with
  | controller controller =>
    rw [modifyAircraft_controller hderived, hderived] at h
    cases h
  | aircraft a =>
    rw [modifyAircraft_aircraft hderived] at h
    cases h
    exact ⟨rfl, rfl, rfl⟩

/-- A login stores it in the same way. -/
theorem setDerived_stores {f : HandshakePacket.Fields} {storage : Storage} {derived : Derived}
    {aircraft : Aircraft} {rating : ℤ} {acfTitle transponder : CxxString} {modeHeavy : ℕ} {hash : ℤ}
    (hfields : f.typeFields = .pilot rating acfTitle transponder modeHeavy hash)
    (h : f.setDerived storage derived = .aircraft aircraft) : Stored hash aircraft.state := by
  cases derived with
  | controller c =>
    rw [HandshakePacket.Fields.setDerived, hfields] at h
    cases h
  | aircraft a =>
    rw [HandshakePacket.Fields.setDerived, hfields] at h
    cases h
    exact ⟨rfl, rfl, rfl⟩

end Incoming

section Sent

def pilotUpdatePieces (other : User) (aircraft : Aircraft) : List Piece :=
  [.number 2 other.index, .number 8 (doubleToRawBits other.location.latitude),
    .number 8 (doubleToRawBits other.location.longitude),
    .number 8 (orientationWord aircraft.state), .number 2 aircraft.state.groundSpeed,
    .number 8 (doubleToRawBits aircraft.state.altitude)]

def createClientPieces (client : User) (aircraft : Aircraft) : List Piece :=
  [.number 2 client.index, .number 1 client.getType.toInt, .text client.identity.callsign,
    .text client.identity.username, .text client.identity.loginName,
    .number 2 client.visibilityRange, .number 8 (doubleToRawBits client.location.latitude),
    .number 8 (doubleToRawBits client.location.longitude), .text aircraft.acfTitle,
    .text aircraft.transponder, .number 1 (modeByte aircraft)] ++
    [.number 8 (orientationWord aircraft.state)]

theorem sendPilotUpdate_eq (other : User) (aircraft : Aircraft) :
    sendPilotUpdate other aircraft = plain 14 (pilotUpdatePieces other aircraft) := by
  simp [sendPilotUpdate, plain, pilotUpdatePieces, Piece.write, writeShort, writeQWord]

theorem createClient_aircraft {client : User} {aircraft : Aircraft}
    (h : client.derived = .aircraft aircraft) :
    createClient client = sized 2 9 (createClientPieces client aircraft) := by
  rw [createClient_eq, details, h]
  rfl

/-- The word stands behind the number of the message, the index and the coordinates. -/
theorem sendPilotUpdate_word (other : User) (aircraft : Aircraft) {block : List UInt8}
    (hblock : 1 ≤ block.length) :
    ∃ t, (sendPilotUpdate other aircraft).run (preallocated block) = .ok () t ∧
      (t.written.drop 19).take 8 = beBytes 8 (orientationWord aircraft.state) := by
  have hfit : Piece.Fit (pilotUpdatePieces other aircraft) (block.length - 1) := trivial
  obtain ⟨t, hrun, hwritten⟩ := plain_run 14 block hblock hfit
  rw [sendPilotUpdate_eq]
  refine ⟨t, hrun, ?_⟩
  rw [hwritten, List.drop_succ_cons]
  exact Piece.body_piece
    [.number 2 other.index, .number 8 (doubleToRawBits other.location.latitude),
      .number 8 (doubleToRawBits other.location.longitude)]
    [.number 2 aircraft.state.groundSpeed, .number 8 (doubleToRawBits aircraft.state.altitude)]
    (.number 8 (orientationWord aircraft.state))

/-- The word comes last. -/
theorem createClient_word {client : User} {aircraft : Aircraft}
    (h : client.derived = .aircraft aircraft) {block : List UInt8} (hblock : 3 ≤ block.length)
    (hfit : Piece.Fit (createClientPieces client aircraft) (block.length - 3)) :
    ∃ t, (createClient client).run (preallocated block) = .ok () t ∧
      t.written.drop (t.written.length - 8) = beBytes 8 (orientationWord aircraft.state) := by
  obtain ⟨t, hrun, hwritten⟩ := sized_run le_rfl 9 block hblock hfit
  rw [createClient_aircraft h]
  refine ⟨t, hrun, ?_⟩
  obtain ⟨front, hfront⟩ :
      ∃ front, t.written = front ++ beBytes 8 (orientationWord aircraft.state) := by
    rw [hwritten, createClientPieces, Piece.body, List.flatMap_append, List.flatMap_singleton]
    exact ⟨_, (List.append_assoc (toChar 9 :: _) _ _).symm⟩
  have hlength : front.length = t.written.length - 8 := by
    rw [hfront, List.length_append, beBytes_length, Nat.add_sub_cancel]
  rw [← hlength, hfront, List.drop_left]

end Sent

/-- The aircraft is left by one of the two handlers that take its angles from this word. -/
inductive Received (hash : ℤ) (aircraft : Aircraft) : Prop
  | pilotUpdate {env : Environment} {clientSocket : Socket} {u : Ptr} {x y : Session}
      (hrun : (PilotUpdate.handle env clientSocket (some u)).run x = .ok () y)
      (hword : hash = wordOf ((x.buf.unread.drop 16).take 8))
      (haircraft : (y.server.heap u).derived = .aircraft aircraft)
  | handshake {f : HandshakePacket.Fields} {storage : Storage} {derived : Derived}
      {rating : ℤ} {acfTitle transponder : CxxString} {modeHeavy : ℕ}
      (hfields : f.typeFields = .pilot rating acfTitle transponder modeHeavy hash)
      (haircraft : f.setDerived storage derived = .aircraft aircraft)

theorem Received.stored {hash : ℤ} {aircraft : Aircraft} (h : Received hash aircraft) :
    Stored hash aircraft.state := by
  cases h with
  | pilotUpdate hrun hword haircraft => exact hword ▸ pilotUpdate_stores hrun haircraft
  | handshake hfields haircraft => exact setDerived_stores hfields haircraft

/-- The word in the two messages that tell about an aircraft has the angles of the word that was
received. -/
theorem orientation_survives {hash : ℤ} {aircraft : Aircraft} (h : Received hash aircraft) :
    SameAngles hash (wordOf (beBytes 8 (orientationWord aircraft.state))) ∧
    (∀ (other : User) (block : List UInt8), 1 ≤ block.length →
      ∃ t, (sendPilotUpdate other aircraft).run (preallocated block) = .ok () t ∧
        SameAngles hash (wordOf ((t.written.drop 19).take 8))) ∧
    ∀ (client : User) (block : List UInt8), client.derived = .aircraft aircraft →
      3 ≤ block.length → Piece.Fit (createClientPieces client aircraft) (block.length - 3) →
      ∃ t, (createClient client).run (preallocated block) = .ok () t ∧
        SameAngles hash (wordOf (t.written.drop (t.written.length - 8))) := by
  have hsame := sameAngles_of_stored h.stored
  refine ⟨hsame, fun other block hblock => ?_, fun client block hderived hblock hfit => ?_⟩
  · obtain ⟨t, hrun, hword⟩ := sendPilotUpdate_word other aircraft hblock
    exact ⟨t, hrun, hword.symm ▸ hsame⟩
  · obtain ⟨t, hrun, hword⟩ := createClient_word hderived hblock hfit
    exact ⟨t, hrun, hword.symm ▸ hsame⟩

/-- The login of a pilot whose pitch is one 1024th of a turn, and the aircraft it makes. -/
def pitchedLogin : HandshakePacket.Fields where
  protoVersion := protoVersion
  callSign := []
  loginName := []
  username := []
  password := []
  requestTime := 0
  location := ⟨⟨0⟩, ⟨0⟩⟩
  visibility := 0
  type := 1
  frequencies := fun _ => 0
  typeFields := .pilot 0 [] [] 0 (2 ^ 22)

def pitched : Aircraft :=
  .createFlightPlan .zeroed
    { Aircraft.construct .zeroed with
      state := { Storage.zeroed.state with
        pitch := pitchOf (2 ^ 22), roll := rollOf (2 ^ 22), heading := headingOf (2 ^ 22) } }

theorem pitched_survives :
    SameAngles (2 ^ 22) (wordOf (beBytes 8 (orientationWord pitched.state))) := by
  have haircraft : pitchedLogin.setDerived .zeroed (.aircraft (.construct .zeroed)) =
      .aircraft pitched := rfl
  exact (orientation_survives (.handshake rfl haircraft)).1

end Win64Server.Orientation
