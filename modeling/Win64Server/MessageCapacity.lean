import Win64Server.OutgoingPackets
import Win64Server.StreamWriting
import Win64Server.StreamReading
import Win64Server.Library.Room

/-!
Which variable-size messages are built inside their stream and announce their own length. Each
builder is described by what it asks of the stream, field by field; a message is well formed
exactly when its strings fit in what is left of the preallocated block when their turn comes.
-/
namespace Win64Server.MessageCapacity

open Outcome Library BasicStream

/-- The bytes of the size field, for the messages that have one. -/
def sizeWidth : Outgoing → Option ℕ
  | .serverMessage _ | .wx _ | .clientTransponder _ _ _ => some 1
  | .createClient _ _ | .privateMessage _ _ | .message _ _ _ _ _ | .flightPlanCycle _ _ _
  | .script _ _ _ => some 2
  | _ => none

/-- `write_string`: the characters and the NUL, stored without asking for capacity. -/
def text (s : CxxString) (next : Demands) : Demands := .bare ((cStr s).length + 1) next

/-- The slot of a script under its format character. -/
def objectDemands : UInt8 × AnyValue → Demands → Demands
  | (c, object), next =>
    if c = 's'.toUInt8 then
      match object with
      | .string s => text s next
      | _ => .abort
    else if c = 'l'.toUInt8 then
      match object with
      | .longLong _ => .reserved 8 next
      | _ => .abort
    else
      match object with
      | .int _ => .reserved 4 next
      | _ => .abort

/-- What the builder of a variable-size message asks of its stream behind the header. -/
def demands : Outgoing → Demands
  | .serverMessage m => text m .done
  | .wx m => text m .done
  | .createClient _ client =>
    .reserved 2 <| .reserved 1 <| text client.identity.callsign <|
      text client.identity.username <| text client.identity.loginName <|
      .reserved 2 <| .reserved 8 <| .reserved 8 <|
      match client.derived with
      | .controller _ => .reserved 1 <| .reserved 1 <| .reserved 3 .done
      | .aircraft aircraft =>
        text aircraft.acfTitle <| text aircraft.transponder <| .reserved 1 <| .reserved 8 .done
  | .privateMessage sender m => text sender <| text m .done
  | .message _ _ _ m _ => .reserved 2 <| .reserved 3 <| .reserved 1 <| text m .done
  | .flightPlanCycle _ sender plan =>
    .reserved 2 <| .reserved 2 <| .reserved 1 <|
      if sender.getType = .pilot then
        .reserved 1 <| text plan.squawkCode <| text plan.departure <| text plan.arrival <|
          text plan.alternate <| text plan.cruise <| text plan.acType <| text plan.scratchPad <|
          text plan.route <| text plan.remarks .done
      else .done
  | .clientTransponder _ _ aircraft => .reserved 2 <| text aircraft.transponder .done
  | .script _ _ script =>
    .reserved 2 <| .reserved 2 <| text script.assembly <|
      script.slots.foldr objectDemands .done
  | _ => .done

/-- The stream behind the header of its one open frame. -/
structure Opened (width : ℕ) (s : BasicStream) : Prop where
  frames : s.frameStack = [((1 + width : ℕ) : ℤ)]
  header : 1 + width ≤ s.index
  bounded : s.index ≤ s.dataSize

/-- The rest of a builder meets these demands and closes the frame. -/
def Builds (width : ℕ) (x : StreamM Unit) (D : Demands) : Prop :=
  ∀ s, Opened width s →
    (¬ D.Fits s.room → ∃ t, x.run s = .error (.undefined .writePastEnd) t) ∧
    (D.Fits s.room → D.total = none → ∃ t, x.run s = .error (.thrown .badAnyCast) t) ∧
    (∀ n, D.Fits s.room → D.total = some n → ∃ t body, x.run s = .ok () t ∧
      body.length = s.index + n - (1 + width) ∧
      t.written = s.written.take 1 ++ beBytes width body.length ++ body)

theorem opened_of_appended {width : ℕ} {s t : BasicStream} {bytes : List UInt8} (h : Opened width s)
    (ht : Appended s bytes t) : Opened width t where
  frames := by rw [ht.frames, h.frames]
  header := by
    have := h.header
    rw [ht.index]
    omega
  bounded := ht.bounded

theorem written_take_one {width : ℕ} {s t : BasicStream} {bytes : List UInt8} (h : Opened width s)
    (ht : Appended s bytes t) : t.written.take 1 = s.written.take 1 := by
  have hheader := h.header
  have hlen := written_length h.bounded
  rw [ht.written, List.take_append_of_le_length (by omega)]

theorem builds_close (width : ℕ) : Builds width (closeFrame width) .done := by
  intro s h
  refine ⟨fun hnot => absurd trivial hnot, fun _ htotal => (by cases htotal), fun n _ htotal => ?_⟩
  cases htotal
  have hheader := h.header
  have hlen := written_length h.bounded
  obtain ⟨t, hrun, hindex, -, -, hdata⟩ :=
    closeFrame_run width h.frames (by omega) h.header h.bounded
  have hwritten := written_closed (by omega) h.header h.bounded hindex hdata
  have hbody : (s.written.drop (1 + width)).length = s.index - (1 + width) := by
    rw [List.length_drop, hlen]
  refine ⟨t, s.written.drop (1 + width), hrun, by rw [hbody]; omega, ?_⟩
  have hcast : ((s.index - (1 + width) : ℕ) : ℤ) = (s.index : ℤ) - ((1 + width : ℕ) : ℤ) :=
    Int.ofNat_sub hheader
  have hback : 1 + width - width = 1 := by omega
  rw [hwritten, hbody, hcast, hback]

theorem builds_reserved {width n : ℕ} {value : ℤ} {x : StreamM Unit} {D : Demands}
    (hx : Builds width x D) :
    Builds width (writeBytes n value >>= fun _ => x) (.reserved n D) := by
  intro s h
  have hbounded := h.bounded
  obtain ⟨u, hrun, hu, hsize⟩ := writeBytes_run n value h.bounded
  have hindex : u.index = s.index + n := by rw [hu.index, beBytes_length]
  have hroom : u.room = Demands.afterReserved s.room n := by
    unfold room Demands.afterReserved
    rw [hindex, hsize]
    by_cases hfits : s.index + n ≤ s.dataSize
    · rw [if_pos hfits, if_pos (by omega)]
      omega
    · rw [if_neg hfits, if_neg (by omega)]
      omega
  obtain ⟨hover, habort, hdone⟩ := hx u (opened_of_appended h hu)
  rw [hroom] at hover habort hdone
  rw [run_bind_of_ok hrun]
  refine ⟨hover, fun hfits htotal => habort hfits ?_, fun m hfits htotal => ?_⟩
  · simpa [Demands.total] using htotal
  · simp only [Demands.total, Option.map_eq_map, Option.map_eq_some_iff] at htotal
    obtain ⟨k, hk, rfl⟩ := htotal
    obtain ⟨t, body, ht, hbody, hwritten⟩ := hdone k hfits hk
    refine ⟨t, body, ht, by rw [hbody, hindex]; omega, ?_⟩
    rw [hwritten, written_take_one h hu]

theorem builds_text {width : ℕ} {str : CxxString} {x : StreamM Unit} {D : Demands}
    (hx : Builds width x D) : Builds width (writeString str >>= fun _ => x) (text str D) := by
  intro s h
  have hbounded := h.bounded
  have hlen : (cStr str ++ [0]).length = (cStr str).length + 1 := by simp
  obtain ⟨hfit, hlong⟩ := forM_put_run (cStr str ++ [0]) h.bounded
  rw [hlen] at hfit hlong
  by_cases hroom : (cStr str).length + 1 ≤ s.room
  · obtain ⟨u, hrun, hu, hsize⟩ := hfit hroom
    have hindex : u.index = s.index + ((cStr str).length + 1) := by rw [hu.index, hlen]
    have hleft : u.room = s.room - ((cStr str).length + 1) := by
      simp only [room, hindex, hsize]
      omega
    obtain ⟨hover, habort, hdone⟩ := hx u (opened_of_appended h hu)
    rw [hleft] at hover habort hdone
    rw [writeString, run_bind_of_ok hrun]
    refine ⟨fun hnot => hover fun hD => hnot ⟨hroom, hD⟩, fun hfits htotal => habort hfits.2 ?_,
      fun m hfits htotal => ?_⟩
    · simpa [text, Demands.total] using htotal
    · simp only [text, Demands.total, Option.map_eq_map, Option.map_eq_some_iff] at htotal
      obtain ⟨k, hk, rfl⟩ := htotal
      obtain ⟨t, body, ht, hbody, hwritten⟩ := hdone k hfits.2 hk
      refine ⟨t, body, ht, by rw [hbody, hindex]; omega, ?_⟩
      rw [hwritten, written_take_one h hu]
  · obtain ⟨u, hrun⟩ := hlong hroom
    rw [writeString, run_bind_of_error hrun]
    exact ⟨fun _ => ⟨u, rfl⟩, fun hfits => absurd hfits.1 hroom,
      fun _ hfits => absurd hfits.1 hroom⟩

theorem builds_abort {width : ℕ} {x : StreamM Unit} :
    Builds width ((throw (.thrown .badAnyCast) : StreamM Unit) >>= fun _ => x) .abort := by
  intro s h
  refine ⟨fun hnot => absurd trivial hnot, fun _ _ => ⟨s, rfl⟩, fun n _ htotal => ?_⟩
  cases htotal

theorem builds_object {width : ℕ} {x : StreamM Unit} {D : Demands} (hx : Builds width x D)
    (slot : UInt8 × AnyValue) :
    Builds width (writeObject slot.1 slot.2 >>= fun _ => x) (objectDemands slot D) := by
  obtain ⟨c, object⟩ := slot
  unfold writeObject objectDemands
  dsimp only
  split
  · cases object with
    | string s => exact builds_text hx
    | _ => exact builds_abort
  · split
    · cases object with
      | longLong x => exact builds_reserved hx
      | _ => exact builds_abort
    · cases object with
      | int x => exact builds_reserved hx
      | _ => exact builds_abort

theorem builds_slots {width : ℕ} {x : StreamM Unit} {D : Demands} (hx : Builds width x D)
    (slots : List (UInt8 × AnyValue)) :
    Builds width ((slots.forM fun (c, object) => writeObject c object) >>= fun _ => x)
      (slots.foldr objectDemands D) := by
  induction slots with
  | nil => simpa using hx
  | cons slot slots ih =>
    rw [List.forM_eq_forM, List.forM_cons, bind_assoc]
    exact builds_object ih slot

/-- The header of the one frame of a message. -/
theorem opened_openFrame {width : ℕ} (id : ℤ) (hwidth : width ≤ 2) (block : List UInt8)
    (h : 1 + width ≤ block.length) :
    ∃ s, (openFrame width id).run (preallocated block) = .ok () s ∧ Opened width s ∧
      s.room = block.length - (1 + width) ∧ s.index = 1 + width := by
  have hblock : (preallocated block).index + (1 + width) ≤ (preallocated block).dataSize := by
    change 0 + (1 + width) ≤ block.length
    omega
  obtain ⟨s, hrun, -, hindex, hbounded, hframes, hsize⟩ :=
    openFrame_run width id (s := preallocated block) (Nat.zero_le _) (Nat.zero_lt_succ _)
  have hindex : s.index = 1 + width := hindex.trans (Nat.zero_add _)
  have hcast : toInt32 (s.index : ℤ) = ((1 + width : ℕ) : ℤ) := by
    rw [hindex]
    exact toInt32_of_lt (by omega) (by omega)
  rw [hcast] at hframes
  refine ⟨s, hrun, ⟨hframes, hindex.ge, hbounded⟩, ?_, hindex⟩
  rw [room, hsize hblock, hindex]
  rfl

/-- A builder is a header and a rest that meets the demands of its message. -/
theorem build_eq {m : Outgoing} {width : ℕ} (hwidth : sizeWidth m = some width) :
    ∃ id x, m.build = (openFrame width id >>= fun _ => x) ∧ Builds width x (demands m) := by
  cases m with
  | serverMessage m =>
    cases hwidth
    exact ⟨7, _, rfl, builds_text (builds_close 1)⟩
  | wx m =>
    cases hwidth
    exact ⟨8, _, rfl, builds_text (builds_close 1)⟩
  | createClient about client =>
    cases hwidth
    refine ⟨9, _, rfl, ?_⟩
    refine builds_reserved <| builds_reserved <| builds_text <| builds_text <| builds_text <| ?_
    refine builds_reserved <| builds_reserved <| builds_reserved <| ?_
    cases client.derived with
    | controller c =>
      exact builds_reserved <| builds_reserved <| builds_reserved <| builds_close 2
    | aircraft a =>
      exact builds_text <| builds_text <| builds_reserved <| builds_reserved <| builds_close 2
  | privateMessage sender m =>
    cases hwidth
    exact ⟨11, _, rfl, builds_text <| builds_text <| builds_close 2⟩
  | message about sender frequency m asel =>
    cases hwidth
    exact ⟨15, _, rfl, builds_reserved <| builds_reserved <| builds_reserved <| builds_text <|
      builds_close 2⟩
  | flightPlanCycle about sender plan =>
    cases hwidth
    refine ⟨17, _, rfl, ?_⟩
    refine builds_reserved <| builds_reserved <| builds_reserved <| ?_
    split
    · refine builds_reserved <| builds_text <| builds_text <| builds_text <| builds_text <| ?_
      exact builds_text <| builds_text <| builds_text <| builds_text <| builds_text <|
        builds_close 2
    · exact builds_close 2
  | clientTransponder about other aircraft =>
    cases hwidth
    exact ⟨20, _, rfl, builds_reserved <| builds_text <| builds_close 1⟩
  | script about other script =>
    cases hwidth
    refine ⟨22, _, rfl, ?_⟩
    refine builds_reserved <| builds_reserved <| builds_text <| ?_
    exact builds_slots (builds_close 2) script.slots
  | _ => cases hwidth

theorem growth_text (s : CxxString) (next : Demands) : (text s next).growth = next.growth := rfl

theorem growth_object_le (slot : UInt8 × AnyValue) (next : Demands) :
    (objectDemands slot next).growth ≤ 8 + next.growth := by
  obtain ⟨c, object⟩ := slot
  unfold objectDemands
  dsimp only
  split
  · cases object <;> simp [growth_text, Demands.growth]
  · split
    · cases object <;> simp [Demands.growth]
    · cases object <;> simp [Demands.growth]

theorem growth_slots_le (slots : List (UInt8 × AnyValue)) :
    (slots.foldr objectDemands .done).growth ≤ 8 * slots.length := by
  induction slots with
  | nil => exact Nat.le_refl _
  | cons slot slots ih =>
    have hslot := growth_object_le slot (slots.foldr objectDemands .done)
    rw [List.foldr_cons, List.length_cons]
    omega

theorem slots_length_le (script : ClientScript) :
    script.slots.length ≤ script.assembly.length + 1 := by
  simp only [ClientScript.slots, List.length_append, List.length_reverse, List.length_zip,
    List.length_singleton]
  omega

/-- A format that came in a packet: `read_string` ends it at the first NUL. -/
def ClientText : Outgoing → Prop
  | .script _ _ script => 0 ∉ script.assembly
  | _ => True

/-- The assembly of a script is read with `read_string`, so it keeps no NUL. -/
theorem clientText_of_readStringCopy {s t : BasicStream} {format : CxxString}
    (h : readStringCopy.run s = .ok format t) (about : Ptr) (other : User) (idx : ℤ)
    (objects : List AnyValue) : ClientText (.script about other ⟨idx, format, objects⟩) := by
  obtain ⟨pointer, u, -, hcopy⟩ := run_bind_ok.mp h
  obtain ⟨rfl, -⟩ := stdString_ok hcopy
  exact zero_notMem_cStr _

/-- A message that fits is never too long for its size field. -/
theorem total_lt {m : Outgoing} {width n : ℕ} (hwidth : sizeWidth m = some width)
    (hclient : ClientText m) (hfits : (demands m).Fits (m.preallocateSize - (1 + width)))
    (htotal : (demands m).total = some n) : n < 256 ^ width := by
  have hle := Demands.total_le hfits htotal
  cases m with
  | serverMessage m =>
    cases hwidth
    simp only [Outgoing.preallocateSize, demands, growth_text, Demands.growth] at hle
    omega
  | wx m =>
    cases hwidth
    simp only [Outgoing.preallocateSize, demands, growth_text, Demands.growth] at hle
    omega
  | createClient about client =>
    cases hwidth
    simp only [Outgoing.preallocateSize, demands, growth_text, Demands.growth] at hle
    cases hderived : client.derived with
    | controller c =>
      simp only [hderived, Demands.growth] at hle
      omega
    | aircraft a =>
      simp only [hderived, growth_text, Demands.growth] at hle
      omega
  | privateMessage sender m =>
    cases hwidth
    simp only [Outgoing.preallocateSize, demands, growth_text, Demands.growth] at hle
    omega
  | message about sender frequency m asel =>
    cases hwidth
    simp only [Outgoing.preallocateSize, demands, growth_text, Demands.growth] at hle
    omega
  | flightPlanCycle about sender plan =>
    cases hwidth
    simp only [Outgoing.preallocateSize, demands, Demands.growth] at hle
    split at hle
    · simp only [growth_text, Demands.growth] at hle
      omega
    · simp only [Demands.growth] at hle
      omega
  | clientTransponder about other aircraft =>
    cases hwidth
    simp only [Outgoing.preallocateSize, demands, growth_text, Demands.growth] at hle
    omega
  | script about other script =>
    cases hwidth
    have hslots := growth_slots_le script.slots
    have hcount := slots_length_le script
    have hformat : (cStr script.assembly).length + 1 ≤ 13 := hfits.1
    rw [cStr_eq_self hclient] at hformat
    simp only [Outgoing.preallocateSize, demands, growth_text, Demands.growth] at hle
    omega
  | _ => cases hwidth

/-- The message is built inside its stream and, when it is handed to `write`, the size field
spells the number of bytes behind it. -/
def WellFormed (width : ℕ) (m : Outgoing) : Prop :=
  ∀ block : List UInt8, block.length = m.preallocateSize →
    (∀ t, m.build.run (preallocated block) ≠ .error (.undefined .writePastEnd) t) ∧
    ∀ t, m.build.run (preallocated block) = .ok () t →
      ∃ id size body, t.written = id :: (size ++ body) ∧ size.length = width ∧
        beNat size = body.length

theorem header_le {m : Outgoing} {width : ℕ} (hwidth : sizeWidth m = some width) :
    width ≤ 2 ∧ 1 + width ≤ m.preallocateSize := by
  cases m <;> cases hwidth <;> simp [Outgoing.preallocateSize]

theorem not_wellFormed_of_not_fits {m : Outgoing} {width : ℕ} (hwidth : sizeWidth m = some width)
    (hnot : ¬ (demands m).Fits (m.preallocateSize - (1 + width))) : ¬ WellFormed width m := by
  intro h
  obtain ⟨id, x, hbuild, hx⟩ := build_eq hwidth
  obtain ⟨htwo, hle⟩ := header_le hwidth
  obtain ⟨hbounds, -⟩ := h (List.replicate m.preallocateSize 0) (by simp)
  obtain ⟨s, hheader, hs, hroom, -⟩ :=
    opened_openFrame id htwo (List.replicate m.preallocateSize 0) (by simpa using hle)
  rw [List.length_replicate] at hroom
  obtain ⟨t, hrun⟩ := (hx s hs).1 (by rwa [hroom])
  refine hbounds t ?_
  rw [hbuild, run_bind_of_ok hheader, hrun]

theorem wellFormed_of_fits {m : Outgoing} {width : ℕ} (hwidth : sizeWidth m = some width)
    (hclient : ClientText m) (hfits : (demands m).Fits (m.preallocateSize - (1 + width))) :
    WellFormed width m := by
  intro block hblock
  obtain ⟨id, x, hbuild, hx⟩ := build_eq hwidth
  obtain ⟨htwo, hle⟩ := header_le hwidth
  obtain ⟨s, hheader, hs, hroom, hindex⟩ := opened_openFrame id htwo block (by omega)
  obtain ⟨-, habort, hdone⟩ := hx s hs
  rw [hroom, hblock] at habort hdone
  rw [hbuild, run_bind_of_ok hheader]
  cases htotal : (demands m).total with
  | none =>
    obtain ⟨t, hrun⟩ := habort hfits htotal
    rw [hrun]
    simp
  | some n =>
    obtain ⟨t, body, hrun, hbody, hwritten⟩ := hdone n hfits htotal
    rw [hindex, Nat.add_sub_cancel_left] at hbody
    rw [hrun]
    refine ⟨by simp, fun t' ht' => ?_⟩
    cases ht'
    have hone : (s.written.take 1).length = 1 := by
      rw [List.length_take, written_length hs.bounded]
      omega
    obtain ⟨byte, hbyte⟩ := List.length_eq_one_iff.mp hone
    refine ⟨byte, beBytes width body.length, body, ?_, beBytes_length _ _, ?_⟩
    · rw [hwritten, hbyte, List.append_assoc, List.singleton_append]
    · exact beNat_beBytes_of_lt (hbody ▸ total_lt hwidth hclient hfits htotal)

/-- A variable-size message is well formed exactly when each of its strings, with its NUL, is no
longer than the room left in the stream when its turn comes. -/
theorem wellFormed_iff {m : Outgoing} {width : ℕ} (hwidth : sizeWidth m = some width)
    (hclient : ClientText m) :
    WellFormed width m ↔ (demands m).Fits (m.preallocateSize - (1 + width)) := by
  constructor
  · intro h
    by_contra hnot
    exact not_wellFormed_of_not_fits hwidth hnot h
  · exact wellFormed_of_fits hwidth hclient

/-- A pilot with the transponder code a client sent. -/
def squawking (code : CxxString) : Aircraft :=
  { Aircraft.construct .zeroed with transponder := code }

/-- The message that tells about it. -/
def transponderMessage (code : CxxString) : Outgoing :=
  let aircraft := squawking code
  .clientTransponder 0 (.construct .zeroed 1 7 (.aircraft aircraft)) aircraft

theorem wellFormed_four_digits :
    WellFormed 1 (transponderMessage [49, 50, 48, 48]) ↔
      (demands (transponderMessage [49, 50, 48, 48])).Fits 18 :=
  wellFormed_iff rfl trivial

/-- Sixteen characters where the stream has room for fifteen and a NUL. -/
theorem transponder_overruns :
    ¬ ∀ (m : Outgoing) (width : ℕ), sizeWidth m = some width → ClientText m →
      WellFormed width m := by
  intro h
  exact not_wellFormed_of_not_fits (m := transponderMessage (List.replicate 16 65)) rfl (by decide)
    (h _ 1 rfl trivial)

end Win64Server.MessageCapacity
