import Win64Server.Library.Framing
import Win64Server.Orientation
import Win64Server.SendData

/-!
The messages on a connection as one stream of bytes. The number in front of a message says how
long it is, or how many bytes behind it say so. So whatever of the stream has arrived, in whatever
portions, it falls apart into the messages that were written, each with the fields it was built
from, and a beginning of the next.
-/
namespace Win64Server.WireStream

open Outcome Library BasicStream MessageCapacity MessageContents Orientation

/-- The number of a message. In the replies to a handshake the response stands in its place. -/
def frameId : Outgoing → Option ℤ
  | .serverMessage _ => some 7
  | .wx _ => some 8
  | .createClient _ _ => some 9
  | .timeChange _ => some 10
  | .privateMessage _ _ => some 11
  | .deleteClient _ _ => some 12
  | .ping => some 13
  | .pilotUpdate _ _ _ => some 14
  | .message _ _ _ _ _ => some 15
  | .clientModeChange _ _ _ => some 16
  | .flightPlanCycle _ _ _ => some 17
  | .controllerUpdate _ _ => some 18
  | .clientTransponder _ _ _ => some 20
  | .primFreq _ _ => some 21
  | .script _ _ _ => some 22
  | .removeScript _ _ _ => some 23
  | .handshakeAccepted response _ _ => if response = 1 then some response else none
  | .handshakeRejected response => if response = 2 ∨ response = 3 then some response else none

/-- A slot of a script as a field. -/
def slotPiece : AnyValue → Piece
  | .string s => .text s
  | .longLong x => .number 8 x
  | .int x => .number 4 x
  | _ => .number 0 0

/-- The fields of a message behind its number. -/
def pieces : Outgoing → List Piece
  | .serverMessage m | .wx m => [.text m]
  | .createClient _ client => introductionPieces client ++ details client
  | .timeChange time => [.number 8 time]
  | .privateMessage sender m => [.text sender, .text m]
  | .deleteClient _ client => [.number 2 client.index]
  | .ping => []
  | .pilotUpdate _ other aircraft => pilotUpdatePieces other aircraft
  | .message _ sender frequency m asel =>
    [.number 2 sender.index, .number 3 frequency, .number 1 (if asel then 1 else 0), .text m]
  | .clientModeChange _ other aircraft => [.number 2 other.index, .number 1 (modeByte aircraft)]
  | .flightPlanCycle _ sender plan =>
    [.number 2 sender.index, .number 2 plan.cycle, .number 1 sender.getType.toInt] ++
      if sender.getType = .pilot then
        [.number 1 plan.flightRules, .text plan.squawkCode, .text plan.departure,
          .text plan.arrival, .text plan.alternate, .text plan.cruise, .text plan.acType,
          .text plan.scratchPad, .text plan.route, .text plan.remarks]
      else []
  | .controllerUpdate _ other =>
    [.number 2 other.index, .number 8 (doubleToRawBits other.location.latitude),
      .number 8 (doubleToRawBits other.location.longitude), .number 1 0]
  | .clientTransponder _ other aircraft => [.number 2 other.index, .text aircraft.transponder]
  | .primFreq _ other => [.number 2 other.index, .number 1 0, .number 4 (other.frequencies 0)]
  | .script _ other script =>
    [.number 2 other.index, .number 2 script.idx, .text script.assembly] ++
      script.slots.map fun slot => slotPiece slot.2
  | .removeScript _ other idx => [.number 2 other.index, .number 2 idx]
  | .handshakeAccepted _ index interval => [.number 2 index, .number 8 interval]
  | .handshakeRejected _ => []

/-- The bytes of a message. -/
def wire (id : ℤ) (m : Outgoing) : List UInt8 :=
  match sizeWidth m with
  | some width => toChar id :: (beBytes width (Piece.body (pieces m)).length ++
      Piece.body (pieces m))
  | none => toChar id :: Piece.body (pieces m)

section Built

variable {m : Outgoing} {id : ℤ} {block : List UInt8} {t : BasicStream}

/-- A slot whose cast succeeds is written as its field. -/
theorem slot_written {slot : UInt8 × AnyValue} {D : Demands}
    (h : (objectDemands slot D).total ≠ none) :
    writeObject slot.1 slot.2 = (slotPiece slot.2).write ∧
      objectDemands slot D = (slotPiece slot.2).demand D := by
  obtain ⟨c, object⟩ := slot
  unfold objectDemands at h ⊢
  unfold writeObject
  dsimp only at h ⊢
  split
  · rename_i hc
    rw [if_pos hc] at h
    cases object with
    | string s => exact ⟨rfl, rfl⟩
    | _ => exact absurd rfl h
  · rename_i hc
    rw [if_neg hc] at h
    split
    · rename_i hc
      rw [if_pos hc] at h
      cases object with
      | longLong x => exact ⟨rfl, rfl⟩
      | _ => exact absurd rfl h
    · rename_i hc
      rw [if_neg hc] at h
      cases object with
      | int x => exact ⟨rfl, rfl⟩
      | _ => exact absurd rfl h

theorem total_demand_ne_none {piece : Piece} {D : Demands} (h : (piece.demand D).total ≠ none) :
    D.total ≠ none := by
  intro hnone
  cases piece <;> simp [Piece.demand, text, Demands.total, hnone] at h

/-- And so are all slots of a script that can be sent. -/
theorem slots_written {slots : List (UInt8 × AnyValue)}
    (h : (slots.foldr objectDemands .done).total ≠ none) :
    (slots.forM fun (c, object) => writeObject c object) =
        (slots.map fun slot => slotPiece slot.2).forM Piece.write ∧
      slots.foldr objectDemands .done =
        (slots.map fun slot => slotPiece slot.2).foldr Piece.demand .done := by
  induction slots with
  | nil => exact ⟨rfl, rfl⟩
  | cons slot slots ih =>
    rw [List.foldr_cons] at h
    obtain ⟨hwrite, hdemand⟩ := slot_written h
    rw [hdemand] at h
    obtain ⟨hwrites, hdemands⟩ := ih (total_demand_ne_none h)
    simp only [List.forM_eq_forM] at hwrites ⊢
    constructor
    · rw [List.forM_cons, List.map_cons, List.forM_cons, hwrites]
      exact congrArg (· >>= _) hwrite
    · rw [List.foldr_cons, hdemand, hdemands, List.map_cons, List.foldr_cons]

/-- The builder of a message with a size writes the fields into a frame, and asks for the room of
the fields. -/
theorem build_sized {width : ℕ} (hid : frameId m = some id) (hwidth : sizeWidth m = some width)
    (htotal : (demands m).total ≠ none) :
    m.build = sized width id (pieces m) ∧ demands m = (pieces m).foldr Piece.demand .done := by
  cases m with
  | serverMessage m | wx m | privateMessage sender m =>
    cases hid
    cases hwidth
    exact ⟨by simp [Outgoing.build, sendServerMessage, sendWx, sendPrivateMessage, sized, pieces,
      Piece.write, bind_assoc]; rfl, rfl⟩
  | createClient about client =>
    cases hid
    cases hwidth
    exact ⟨createClient_eq client, demands_createClient about client⟩
  | message about sender frequency m asel =>
    cases hid
    cases hwidth
    constructor
    · simp [Outgoing.build, sendMessage, sized, pieces, Piece.write, writeShort, writeByte,
        write3Byte, bind_assoc]
      rfl
    · rfl
  | flightPlanCycle about sender plan =>
    cases hid
    cases hwidth
    by_cases hpilot : sender.getType = .pilot
    · constructor
      · simp [Outgoing.build, sendFlightPlanCycle, hpilot, sized, pieces, Piece.write, writeShort,
          writeByte, bind_assoc]
        rfl
      · simp [demands, hpilot, pieces]
        rfl
    · constructor
      · simp [Outgoing.build, sendFlightPlanCycle, hpilot, sized, pieces, Piece.write, writeShort,
          writeByte, bind_assoc]
        rfl
      · simp [demands, hpilot, pieces]
        rfl
  | clientTransponder about other aircraft =>
    cases hid
    cases hwidth
    constructor
    · simp [Outgoing.build, sendClientTransponder, sized, pieces, Piece.write, writeShort,
        bind_assoc]
      rfl
    · rfl
  | script about other script =>
    cases hid
    cases hwidth
    have hslots : (script.slots.foldr objectDemands .done).total ≠ none := by
      intro hnone
      simp [demands, text, Demands.total, hnone] at htotal
    obtain ⟨hwrites, hdemands⟩ := slots_written hslots
    constructor
    · rw [Outgoing.build, sendScript, hwrites]
      simp [sized, pieces, Piece.write, writeShort, bind_assoc]
      rfl
    · simp only [demands, hdemands, pieces, List.foldr_append, List.foldr_cons, List.foldr_nil]
      rfl
  | _ => cases hwidth

/-- The builder of a message without a size writes numbers only, one of a reply the response as the
first of them. -/
theorem build_plain (hwidth : sizeWidth m = none) :
    ∃ number, (∀ id, frameId m = some id → number = id) ∧
      (m.build = plain number (pieces m) ∨
        m.build = (.number 1 number :: pieces m).forM Piece.write) ∧
      ∀ room, Piece.Fit (pieces m) room := by
  cases m with
  | timeChange time | ping | deleteClient about client | pilotUpdate about other aircraft
  | clientModeChange about other aircraft | controllerUpdate about other | primFreq about other
  | removeScript about other idx =>
    refine ⟨_, fun id hid => Option.some.inj hid, Or.inl ?_, fun _ => trivial⟩
    simp [Outgoing.build, sendTimeChange, sendPing, deleteClient, sendPilotUpdate,
      pilotUpdatePieces, sendClientModeChange, sendControllerUpdate, sendPrimFreq,
      sendRemoveScript, plain, pieces, Piece.write, writeShort, writeByte, writeQWord, writeInt]
  | handshakeAccepted response index interval | handshakeRejected response =>
    refine ⟨response, fun id hid => ?_, Or.inr ?_, fun _ => trivial⟩
    · exact Option.some.inj (Option.ite_none_right_eq_some.mp hid).2
    · simp [Outgoing.build, sendHandshakeAccepted, pieces, Piece.write, writeByte, writeShort,
        writeQWord]
  | _ => cases hwidth

/-- And so it returns. -/
theorem plain_built (hwidth : sizeWidth m = none) (hblock : block.length = m.preallocateSize) :
    ∃ number t, (∀ id, frameId m = some id → number = id) ∧
      m.build.run (preallocated block) = .ok () t ∧
      t.written = toChar number :: Piece.body (pieces m) := by
  obtain ⟨number, hnumber, hbuild | hbuild, hfit⟩ := build_plain hwidth
  · have hpositive : 1 ≤ m.preallocateSize := by cases m <;> simp [Outgoing.preallocateSize]
    obtain ⟨t, hrun, hwritten⟩ := plain_run number block (by omega) (hfit _)
    exact ⟨number, t, hnumber, hbuild ▸ hrun, hwritten⟩
  · obtain ⟨t, hrun, ht⟩ := forM_write_run (s := preallocated block) (Nat.zero_le _)
      (show Piece.Fit (.number 1 number :: pieces m) _ from hfit _)
    refine ⟨number, t, hnumber, hbuild ▸ hrun, ?_⟩
    rw [ht.written]
    rfl

/-- A builder that returns found room for its strings and the types it asked for. -/
theorem fits_of_built {width : ℕ} (hwidth : sizeWidth m = some width)
    (hblock : block.length = m.preallocateSize)
    (hrun : m.build.run (preallocated block) = .ok () t) :
    (demands m).Fits (m.preallocateSize - (1 + width)) ∧ (demands m).total ≠ none := by
  obtain ⟨id, x, hbuild, hx⟩ := build_eq hwidth
  obtain ⟨htwo, hle⟩ := header_le hwidth
  obtain ⟨s, hheader, hs, hroom, -⟩ := opened_openFrame id htwo block (by omega)
  obtain ⟨hover, habort, -⟩ := hx s hs
  rw [hroom, hblock] at hover habort
  rw [hbuild, run_bind_of_ok hheader] at hrun
  have hfits : (demands m).Fits (m.preallocateSize - (1 + width)) := by
    by_contra hnot
    obtain ⟨u, hstops⟩ := hover hnot
    rw [hrun] at hstops
    cases hstops
  refine ⟨hfits, fun hnone => ?_⟩
  obtain ⟨u, hstops⟩ := habort hfits hnone
  rw [hrun] at hstops
  cases hstops

/-- What a builder leaves is the bytes of the message. -/
theorem written_of_built (hid : frameId m = some id) (hblock : block.length = m.preallocateSize)
    (hrun : m.build.run (preallocated block) = .ok () t) : t.written = wire id m := by
  cases hwidth : sizeWidth m with
  | some width =>
    obtain ⟨hfits, htotal⟩ := fits_of_built hwidth hblock hrun
    obtain ⟨hbuild, hdemands⟩ := build_sized hid hwidth htotal
    obtain ⟨htwo, hle⟩ := header_le hwidth
    have hfit : Piece.Fit (pieces m) (block.length - (1 + width)) := by
      rw [Piece.Fit, ← hdemands, hblock]
      exact hfits
    obtain ⟨t', hrun', hwritten⟩ := sized_run htwo id block (by omega) hfit
    rw [hbuild, hrun'] at hrun
    cases hrun
    rw [hwritten, wire, hwidth]
  | none =>
    obtain ⟨number, t', hnumber, hrun', hwritten⟩ := plain_built hwidth hblock
    rw [hrun'] at hrun
    cases hrun
    rw [hwritten, hnumber id hid, wire, hwidth]

/-- The size of a message that was built spells the length of its fields. -/
theorem size_of_built {width : ℕ} (hwidth : sizeWidth m = some width) (hclient : ClientText m)
    (hid : frameId m = some id) (hblock : block.length = m.preallocateSize)
    (hrun : m.build.run (preallocated block) = .ok () t) :
    beNat (beBytes width (Piece.body (pieces m)).length) = (Piece.body (pieces m)).length := by
  obtain ⟨hfits, -⟩ := fits_of_built hwidth hblock hrun
  obtain ⟨number, size, body, hwritten, hsize, hlength⟩ :=
    (wellFormed_of_fits hwidth hclient hfits block hblock).2 t hrun
  have hwire := written_of_built hid hblock hrun
  rw [hwritten, wire, hwidth, List.cons_eq_cons] at hwire
  have hwidths : size.length = (beBytes width ((Piece.body (pieces m)).length : ℤ)).length := by
    rw [hsize, beBytes_length]
  obtain ⟨rfl, rfl⟩ := List.append_inj hwire.2 hwidths
  exact hlength

/-- The slots of a script that can be cast. -/
theorem total_slots_ne_none {slots : List (UInt8 × AnyValue)}
    (h : ∀ slot ∈ slots, ClientScript.castSucceeds slot.1 slot.2 = true) :
    (slots.foldr objectDemands .done).total ≠ none := by
  induction slots with
  | nil => exact Option.some_ne_none 0
  | cons slot slots ih =>
    have hrest := ih fun slot hslot => h slot (List.mem_cons_of_mem _ hslot)
    have hcast := h slot List.mem_cons_self
    have hletters : 'l'.toUInt8 ≠ 's'.toUInt8 := by decide
    obtain ⟨c, object⟩ := slot
    rw [List.foldr_cons]
    cases object <;>
      simp_all [ClientScript.castSucceeds, objectDemands, text, Demands.total]

theorem total_ne_none {width : ℕ} (hwidth : sizeWidth m = some width)
    (hcast : ∀ about other script, m = .script about other script → script.castable = true) :
    (demands m).total ≠ none := by
  cases m with
  | serverMessage m | wx m | privateMessage sender m | message about sender frequency m asel
  | clientTransponder about other aircraft => simp [demands, text, Demands.total]
  | createClient about client =>
    cases hderived : client.derived <;> simp [demands, hderived, text, Demands.total]
  | flightPlanCycle about sender plan =>
    by_cases hpilot : sender.getType = .pilot <;>
      simp [demands, hpilot, text, Demands.total]
  | script about other script =>
    have hslots : (script.slots.foldr objectDemands .done).total ≠ none :=
      total_slots_ne_none (List.all_eq_true.mp (hcast about other script rfl))
    simpa [demands, text, Demands.total] using hslots
  | _ => cases hwidth

/-- A builder that does not return has written past its stream, where a string of the message does
not fit, or it has met a slot of a script that cannot be cast. -/
theorem build_fails {f : Fault} (hblock : block.length = m.preallocateSize)
    (hrun : m.build.run (preallocated block) = .error f t) :
    (f = .undefined .writePastEnd ∧ ∃ width, sizeWidth m = some width ∧
        ¬ (demands m).Fits (m.preallocateSize - (1 + width))) ∨
      ∃ about other script, m = .script about other script ∧ ¬ script.castable = true := by
  cases hwidth : sizeWidth m with
  | none =>
    obtain ⟨number, t', -, hreturns, -⟩ := plain_built hwidth hblock
    rw [hreturns] at hrun
    cases hrun
  | some width =>
    by_cases hcast : ∀ about other script, m = .script about other script → script.castable = true
    · left
      obtain ⟨id, x, hbuild, hx⟩ := build_eq hwidth
      obtain ⟨htwo, hle⟩ := header_le hwidth
      obtain ⟨s, hheader, hs, hroom, -⟩ := opened_openFrame id htwo block (by omega)
      obtain ⟨hover, -, hdone⟩ := hx s hs
      rw [hroom, hblock] at hover hdone
      rw [hbuild, run_bind_of_ok hheader] at hrun
      obtain ⟨n, hn⟩ := Option.ne_none_iff_exists'.mp (total_ne_none hwidth hcast)
      by_cases hfits : (demands m).Fits (m.preallocateSize - (1 + width))
      · obtain ⟨t', body, hreturns, -⟩ := hdone n hfits hn
        rw [hreturns] at hrun
        cases hrun
      · obtain ⟨t', hstops⟩ := hover hfits
        rw [hstops] at hrun
        cases hrun
        exact ⟨rfl, width, rfl, hfits⟩
    · right
      simpa only [Classical.not_forall, Classical.not_imp, exists_prop] using hcast

end Built

/-- What the number of a message says of its length: the bytes behind it, or the bytes of a size
that says it. -/
inductive Extent
  | fixed (length : ℕ)
  | announced (width : ℕ)

/-- The lengths of the messages by their numbers, with those of the replies by their responses. -/
def extent (number : UInt8) : Option Extent :=
  match number.toNat with
  | 1 => some (.fixed 10)
  | 2 | 3 => some (.fixed 0)
  | 7 | 8 | 20 => some (.announced 1)
  | 9 | 11 | 15 | 17 | 22 => some (.announced 2)
  | 10 => some (.fixed 8)
  | 12 => some (.fixed 2)
  | 13 => some (.fixed 0)
  | 14 => some (.fixed 36)
  | 16 => some (.fixed 3)
  | 18 => some (.fixed 19)
  | 21 => some (.fixed 7)
  | 23 => some (.fixed 4)
  | _ => none

/-- The bytes behind the number, once enough of them are there to tell. -/
def Extent.length (rest : List UInt8) : Extent → Option ℕ
  | .fixed length => some length
  | .announced width => if width ≤ rest.length then some (width + beNat (rest.take width)) else none

/-- The message at the head of the stream, when it is complete. -/
def nextMessage : List UInt8 → Option (List UInt8 × List UInt8)
  | [] => none
  | number :: rest => do
    let n ← (← extent number).length rest
    if n ≤ rest.length then some (number :: rest.take n, rest.drop n) else none

section Framer

variable {bs message rest : List UInt8}

theorem nextMessage_eq_some_iff : nextMessage bs = some (message, rest) ↔
    ∃ number tail e n, bs = number :: tail ∧ extent number = some e ∧ e.length tail = some n ∧
      n ≤ tail.length ∧ message = number :: tail.take n ∧ rest = tail.drop n := by
  cases bs with
  | nil => simp [nextMessage]
  | cons number tail =>
    constructor
    · intro h
      simp only [nextMessage, Option.bind_eq_bind, Option.bind_eq_some_iff] at h
      obtain ⟨e, he, n, hn, h⟩ := h
      split at h
      · rename_i hle
        cases h
        exact ⟨number, tail, e, n, rfl, he, hn, hle, rfl, rfl⟩
      · cases h
    · rintro ⟨_, _, e, n, heq, he, hn, hle, rfl, rfl⟩
      cases heq
      simp [nextMessage, he, hn, hle]

theorem Extent.length_append {e : Extent} {tail : List UInt8} {n : ℕ} (h : e.length tail = some n)
    (more : List UInt8) : e.length (tail ++ more) = some n := by
  cases e with
  | fixed length => exact h
  | announced width =>
    rw [Extent.length] at h ⊢
    split at h
    · rename_i hle
      have hmore : width ≤ (tail ++ more).length := by
        rw [List.length_append]
        omega
      rw [if_pos hmore, List.take_append_of_le_length hle]
      exact h
    · cases h

/-- How a client takes the stream apart. -/
def framer : Framer UInt8 (List UInt8) where
  next := nextMessage
  shrinks bs message rest h := by
    obtain ⟨number, tail, e, n, rfl, -, -, -, -, rfl⟩ := nextMessage_eq_some_iff.mp h
    rw [List.length_drop, List.length_cons]
    omega
  stable bs message rest more h := by
    obtain ⟨number, tail, e, n, rfl, he, hn, hle, rfl, rfl⟩ := nextMessage_eq_some_iff.mp h
    have hmore : n ≤ (tail ++ more).length := by
      rw [List.length_append]
      omega
    refine nextMessage_eq_some_iff.mpr ⟨number, tail ++ more, e, n, rfl, he,
      e.length_append hn more, hmore, ?_, ?_⟩
    · rw [List.take_append_of_le_length hle]
    · rw [List.drop_append_of_le_length hle]

end Framer

/-- The bytes of a message that was built in a stream of its size. -/
def IsMessage (bytes : List UInt8) : Prop :=
  ∃ (m : Outgoing) (id : ℤ) (block : List UInt8) (t : BasicStream), frameId m = some id ∧
    ClientText m ∧ block.length = m.preallocateSize ∧
    m.build.run (preallocated block) = .ok () t ∧ bytes = t.written

section Stream

variable {m : Outgoing} {id : ℤ}

theorem extent_sized {width : ℕ} (hid : frameId m = some id) (hwidth : sizeWidth m = some width) :
    extent (toChar id) = some (.announced width) := by
  cases m <;> cases hwidth <;> cases hid <;> rfl

theorem extent_plain (hid : frameId m = some id) (hwidth : sizeWidth m = none) :
    extent (toChar id) = some (.fixed (Piece.body (pieces m)).length) := by
  cases m
  case handshakeAccepted response index interval =>
    obtain ⟨rfl, hresponse⟩ := Option.ite_none_right_eq_some.mp hid
    cases hresponse
    simp only [pieces, Piece.body, Piece.bytes, List.flatMap_cons, List.flatMap_nil,
      List.append_nil, List.length_append, beBytes_length]
    rfl
  case handshakeRejected response =>
    obtain ⟨rfl | rfl, hresponse⟩ := Option.ite_none_right_eq_some.mp hid
    · cases hresponse
      rfl
    · cases hresponse
      rfl
  all_goals cases hid
  case timeChange | ping | deleteClient | pilotUpdate | clientModeChange | controllerUpdate
    | primFreq | removeScript =>
    simp only [pieces, pilotUpdatePieces, Piece.body, Piece.bytes, List.flatMap_cons,
      List.flatMap_nil, List.append_nil, List.length_append, beBytes_length, List.length_nil]
    rfl
  all_goals cases hwidth

/-- A message is a complete frame, and nothing is left behind it. -/
theorem IsMessage.next {message : List UInt8} (h : IsMessage message) :
    framer.next message = some (message, []) := by
  obtain ⟨m, id, block, t, hid, hclient, hblock, hrun, rfl⟩ := h
  rw [written_of_built hid hblock hrun]
  cases hwidth : sizeWidth m with
  | some width =>
    have hsize := size_of_built hwidth hclient hid hblock hrun
    have hlength : (beBytes width ((Piece.body (pieces m)).length : ℤ)).length = width :=
      beBytes_length _ _
    refine nextMessage_eq_some_iff.mpr ⟨toChar id, _, .announced width,
      width + (Piece.body (pieces m)).length, by rw [wire, hwidth], extent_sized hid hwidth, ?_, ?_,
      ?_, ?_⟩
    · rw [Extent.length, if_pos (by rw [List.length_append, hlength]; omega),
        List.take_left' hlength, hsize]
    · rw [List.length_append, hlength]
    · rw [List.take_of_length_le (by rw [List.length_append, hlength]), wire, hwidth]
    · exact (List.drop_of_length_le (by rw [List.length_append, hlength])).symm
  | none =>
    refine nextMessage_eq_some_iff.mpr ⟨toChar id, Piece.body (pieces m), _, _,
      by rw [wire, hwidth], extent_plain hid hwidth, rfl, le_rfl, ?_, ?_⟩
    · rw [List.take_length, wire, hwidth]
    · rw [List.drop_length]

end Stream

section Connection

variable {κ : Type} [DecidableEq κ] {s : SendData.Socket κ}

/-- The frames of complete messages and the beginning of another. -/
theorem frames_messages {messages : List (List UInt8)} {tail : List UInt8}
    (hmessages : ∀ m ∈ messages, IsMessage m) (htail : framer.next tail = none) :
    framer.Frames (messages.flatten ++ tail) messages tail := by
  have hframes := framer.frames_flatten (f := id) (fun m hm => (hmessages m hm).next) htail
  rwa [List.map_id] at hframes

/-- In every state of a connection the bytes that the socket has accepted fall apart into the
messages whose last byte it has accepted, in the order in which their threads took the mutex. At
most one message more has been begun, and of that the beginning is left over. -/
theorem accepted_splits (h : SendData.Reachable s) (hmessages : ∀ c ∈ s.locked, IsMessage c.2)
    (hnone : ∀ call ∈ s.ended, call.error = none) :
    ∃ frames begun tail, framer.Frames s.accepted frames tail ∧
      s.locked.map Prod.snd = frames ++ begun ∧ s.accepted = frames.flatten ++ tail ∧
      (begun = [] ∧ tail = [] ∨ ∃ message, begun = [message] ∧ tail <+: message ∧
        tail ≠ message) := by
  have hsound : s.Sound := SendData.sound_of_reachable h
  have hsent : s.ended.map SendData.Call.sent = s.ended.map SendData.Call.message :=
    List.map_congr_left fun call hcall => (hsound.ended call hcall).whole (hnone call hcall)
  have hlocked : s.locked.map Prod.snd =
      s.ended.map SendData.Call.message ++ s.current.toList.map fun c => c.2.1 := by
    rw [hsound.locked, List.map_append, List.map_map, List.map_map]
    rfl
  have haccepted := hsound.accepted
  rw [hsent] at haccepted
  have hall : ∀ m ∈ s.locked.map Prod.snd, IsMessage m := by
    intro m hm
    obtain ⟨c, hc, rfl⟩ := List.mem_map.mp hm
    exact hmessages c hc
  have hended : ∀ m ∈ s.ended.map SendData.Call.message, IsMessage m := fun m hm =>
    hall m (by rw [hlocked]; exact List.mem_append_left _ hm)
  have hempty : framer.next [] = none := rfl
  obtain ⟨k, hk⟩ := hsound.current_begins
  cases hcurrent : s.current with
  | none =>
    rw [hcurrent] at haccepted hlocked
    refine ⟨_, [], [], ?_, hlocked, haccepted, Or.inl ⟨rfl, rfl⟩⟩
    rw [haccepted]
    exact frames_messages hended hempty
  | some c =>
    obtain ⟨i, message, sent⟩ := c
    rw [hcurrent] at haccepted hlocked hk
    have hbegins : sent = message.take k := hk
    have hmessage : IsMessage message := hall message (by rw [hlocked]; simp)
    by_cases hwhole : sent = message
    · -- The call has not returned, but its last byte is out.
      have hflatten : s.accepted =
          (s.ended.map SendData.Call.message ++ [message]).flatten ++ [] := by
        rw [haccepted, List.flatten_append, List.flatten_singleton, List.append_nil]
        exact congrArg _ hwhole
      refine ⟨s.ended.map SendData.Call.message ++ [message], [], [], ?_, ?_, hflatten,
        Or.inl ⟨rfl, rfl⟩⟩
      · rw [hflatten]
        refine frames_messages (fun m hm => ?_) hempty
        rcases List.mem_append.mp hm with hm | hm
        · exact hended m hm
        · rwa [List.mem_singleton.mp hm]
      · rw [hlocked, List.append_nil]
        rfl
    · have hrest : message.drop k ≠ [] := by
        intro hnil
        rw [List.drop_eq_nil_iff] at hnil
        exact hwhole (hbegins.trans (List.take_of_length_le hnil))
      have hpart : framer.next sent = none :=
        framer.next_eq_none hmessage.next (by rw [hbegins, List.take_append_drop]) hrest
      refine ⟨s.ended.map SendData.Call.message, [message], sent, ?_, hlocked, haccepted,
        Or.inr ⟨message, rfl, ?_, hwhole⟩⟩
      · rw [haccepted]
        exact frames_messages hended hpart
      · rw [hbegins]
        exact List.take_prefix _ _

/-- The streams that the reply to an accepted handshake and `delete_client` leave. -/
def replyStream : BasicStream :=
  finalState ((Outgoing.handshakeAccepted 1 7 5000).build.run (preallocated (List.replicate 11 0)))

def deleteMessage : Outgoing :=
  .deleteClient 0 (.construct .zeroed 1 7 (.aircraft (.construct .zeroed)))

def deleteStream : BasicStream := finalState (deleteMessage.build.run (preallocated [0, 0, 0]))

theorem isMessage_reply : IsMessage replyStream.written :=
  ⟨.handshakeAccepted 1 7 5000, 1, List.replicate 11 0, replyStream, rfl, trivial, rfl,
    run_eq_ok (by decide +kernel), rfl⟩

theorem isMessage_delete : IsMessage deleteStream.written :=
  ⟨deleteMessage, 12, [0, 0, 0], deleteStream, rfl, trivial, rfl, run_eq_ok (by decide +kernel),
    rfl⟩

/-- The reply is through and the number of the next message. -/
theorem leads_begun : Library.Leads SendData.Step (fun s : SendData.Socket Bool =>
    (∀ c ∈ s.locked, IsMessage c.2) ∧ (∀ call ∈ s.ended, call.error = none) ∧
      s.accepted = [1, 0, 7, 0, 0, 0, 0, 0, 0, 19, 136, 12]) (SendData.initial Bool) := by
  refine .after (.write (i := true) replyStream rfl) ?_
  refine .after (.lock (i := true) rfl rfl) ?_
  refine .after (.write (i := false) deleteStream rfl) ?_
  refine .after (.sendData (i := true) rfl (by decide +kernel)) ?_
  refine .after (.send (i := true) 11 rfl (by decide +kernel) (by decide) (by decide +kernel)) ?_
  refine .after (.finish (i := true) rfl (by decide +kernel)) ?_
  refine .after (.lock (i := false) rfl rfl) ?_
  refine .after (.sendData (i := false) rfl (by decide +kernel)) ?_
  refine .after (.send (i := false) 1 rfl (by decide +kernel) (by decide) (by decide +kernel)) ?_
  refine .here ⟨fun c hc => ?_, ?_, by decide +kernel⟩
  · have hlocked : c = (true, replyStream.written) ∨ c = (false, deleteStream.written) := by
      simpa [SendData.Socket.leave, SendData.Socket.setWriter, SendData.initial] using hc
    rcases hlocked with hreply | hdelete
    · simpa only [hreply] using isMessage_reply
    · simpa only [hdelete] using isMessage_delete
  · simp [SendData.Socket.leave, SendData.Socket.setWriter, SendData.initial]

theorem accepted_splits_begun : ∃ s : SendData.Socket Bool,
    s.accepted = [1, 0, 7, 0, 0, 0, 0, 0, 0, 19, 136, 12] ∧
    ∃ frames begun tail, framer.Frames s.accepted frames tail ∧
      s.locked.map Prod.snd = frames ++ begun ∧ s.accepted = frames.flatten ++ tail ∧
      (begun = [] ∧ tail = [] ∨ ∃ message, begun = [message] ∧ tail <+: message ∧
        tail ≠ message) := by
  obtain ⟨s, hrun, hmessages, hnone, haccepted⟩ := leads_begun
  exact ⟨s, haccepted, accepted_splits hrun hmessages hnone⟩

end Connection

end Win64Server.WireStream
