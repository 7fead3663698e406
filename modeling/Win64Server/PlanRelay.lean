import Win64Server.FlightPlans
import Win64Server.MessageContents

/-!
A flight plan on its way through the server. A client sends a plan in one packet; it is stored in
the plan of the pilot it names, and whoever is told afterwards gets a message with the same fields
in the same order, except that the flight rules are those of the plan that was there before.
-/
namespace Win64Server.PlanRelay

open Outcome Library BasicStream MessageCapacity MessageContents PacketFields FlightPlanUpdate

/-- The packet, field by field. -/
structure Payload where
  cycle : Bytes 2
  index : Bytes 2
  flightRules : UInt8
  squawkCode : Text
  departure : Text
  arrival : Text
  alternate : Text
  cruise : Text
  acType : Text
  scratchPad : Text
  route : Text
  remarks : Text

namespace Payload

def texts (p : Payload) : List Text :=
  [p.squawkCode, p.departure, p.arrival, p.alternate, p.cruise, p.acType, p.scratchPad, p.route,
    p.remarks]

def bytes (p : Payload) : List UInt8 :=
  p.cycle.1 ++ p.index.1 ++ [p.flightRules] ++ p.texts.flatMap fun text => text.1 ++ [0]

/-- The fields the handler keeps. -/
def fields (p : Payload) : Fields where
  cycle := beNat p.cycle.1
  index := beNat p.index.1
  squawkCode := p.squawkCode.1
  departure := p.departure.1
  arrival := p.arrival.1
  alternate := p.alternate.1
  cruise := p.cruise.1
  acType := p.acType.1
  scratchPad := p.scratchPad.1
  route := p.route.1
  remarks := p.remarks.1

/-- The message about a pilot with this index that carries the cycle and the strings of the packet,
each in the place of the same meaning, and these flight rules. -/
def told (p : Payload) (index flightRules : ℤ) : List Piece :=
  [.number 2 index, .number 2 (beNat p.cycle.1), .number 1 AvClient.pilot.toInt] ++
    .number 1 flightRules :: p.texts.map fun text => .text text.1

/-- The same with the flight rules of the packet too. -/
def message (p : Payload) (index : ℤ) : List Piece := p.told index p.flightRules.toNat

end Payload

theorem decodes_readFields (p : Payload) : Decodes cursor readFields p.bytes p.fields := by
  have hshort (bytes : Bytes 2) : Decodes cursor readUnsignedShort bytes.1 (beNat bytes.1) :=
    (decodes_readBytes two_pos bytes).map beNat
  have hbyte : Decodes cursor readUnsignedByte [p.flightRules] (beNat [p.flightRules]) :=
    (decodes_readBytes one_pos ⟨[p.flightRules], rfl⟩).map beNat
  rw [Payload.bytes, Payload.texts, List.append_assoc, List.append_assoc]
  simp only [List.flatMap_cons, List.flatMap_nil, List.append_nil]
  refine (hshort p.cycle).bind <| (hshort p.index).bind <| hbyte.bind <| ?_
  refine (decodes_readStringCopy p.squawkCode).bind <| ?_
  refine (decodes_readStringCopy p.departure).bind <| ?_
  refine (decodes_readStringCopy p.arrival).bind <| ?_
  refine (decodes_readStringCopy p.alternate).bind <| ?_
  refine (decodes_readStringCopy p.cruise).bind <| ?_
  refine (decodes_readStringCopy p.acType).bind <| ?_
  refine (decodes_readStringCopy p.scratchPad).bind <| ?_
  refine (decodes_readStringCopy p.route).bind <| ?_
  exact (decodes_readStringCopy p.remarks).last rfl

/-- The message about a pilot whose plan has been overwritten with the packet. -/
theorem sendFlightPlanCycle_eq (p : Payload) {sender : User} (h : sender.getType = .pilot)
    (plan : FlightPlan) :
    sendFlightPlanCycle sender (p.fields.store plan) =
      sized 2 17 (p.told sender.index plan.flightRules) := by
  simp [sendFlightPlanCycle, h, sized, Payload.told, Payload.texts, Payload.fields, Fields.store,
    Piece.write, writeShort, writeByte, bind_assoc]
  rfl

/-- Only the byte of the flight rules depends on them. -/
theorem body_told (p : Payload) (index flightRules : ℤ) :
    Piece.body (p.told index flightRules) =
      (beBytes 2 index ++ beBytes 2 (beNat p.cycle.1) ++ beBytes 1 AvClient.pilot.toInt) ++
        toChar flightRules :: p.texts.flatMap fun text => cStr text.1 ++ [0] := by
  simp [Payload.told, Piece.body, Piece.bytes, beBytes, List.flatMap_map]

theorem body_told_eq_iff (p : Payload) (index flightRules flightRules' : ℤ) :
    Piece.body (p.told index flightRules) = Piece.body (p.told index flightRules') ↔
      toChar flightRules = toChar flightRules' := by
  simp [body_told]

theorem fit_told (p : Payload) (index flightRules flightRules' : ℤ) {room : ℕ}
    (h : Piece.Fit (p.told index flightRules) room) :
    Piece.Fit (p.told index flightRules') room := h

section Update

variable {p : Payload} {x : Session} {rest : List UInt8} {u : Ptr} {a : Aircraft}
  {plan : FlightPlan}

/-- The packet overwrites the plan of the pilot it names, except for the flight rules. -/
theorem handle_stores (hx : x.buf.unread = p.bytes ++ rest)
    (hu : x.server.clientManager.getUserByIndex (beNat p.index.1) = some u)
    (ha : (x.server.heap u).asAircraft = some a) (hplan : a.flightPlan = some plan)
    (clientSocket : Socket) (sender : Option Ptr) :
    ∃ y, (handle clientSocket sender).run x = .ok () y ∧
      y.server = x.server.modifyUser u (updated p.fields plan) := by
  obtain ⟨t, hread, -⟩ := decodes_readFields p x.buf rest hx
  have hnamed : x.server.clientManager.getUserByIndex p.fields.index = some u := hu
  refine ⟨⟨x.server.modifyUser u (updated p.fields plan), t, x.dispatched⟩, ?_, rfl⟩
  rw [handle_run clientSocket sender hread, hnamed]
  exact onServer_ok.mpr ⟨_, apply_plan ha hplan, rfl⟩

/-- The bytes of a message about a pilot. -/
def messageBytes (pieces : List Piece) : List UInt8 :=
  17 :: (beBytes 2 (Piece.body pieces).length ++ Piece.body pieces)

/-- The message sent right after the packet: everything is the packet's but the flight rules. -/
theorem sent_after_handle (hx : x.buf.unread = p.bytes ++ rest)
    (hu : x.server.clientManager.getUserByIndex (beNat p.index.1) = some u)
    (ha : (x.server.heap u).asAircraft = some a) (hplan : a.flightPlan = some plan)
    (clientSocket : Socket) (sender : Option Ptr) (recipient : Ptr) {block : List UInt8}
    (hblock : 3 ≤ block.length)
    (hfit : Piece.Fit (p.message (x.server.heap u).index) (block.length - 3)) :
    ∃ y s m t, (handle clientSocket sender).run x = .ok () y ∧
      (Server.sendFlightPlanCycle recipient u).run y.server = .ok () s ∧
      s.sent = y.server.sent ++ [⟨recipient, m⟩] ∧
      m.build.run (preallocated block) = .ok () t ∧
      t.written = messageBytes (p.told (x.server.heap u).index plan.flightRules) := by
  obtain ⟨y, hrun, hserver⟩ := handle_stores hx hu ha hplan clientSocket sender
  let pilot := updated p.fields plan (x.server.heap u)
  have hpilot : y.server.heap u = pilot := by rw [hserver, Server.modifyUser_heap_self]
  have hderived : pilot.derived =
      .aircraft { a with flightPlan := some (p.fields.store plan) } := by
    simp only [pilot, updated, modifyAircraft_aircraft (derived_of_asAircraft ha)]
  have hindex : pilot.index = (x.server.heap u).index := by
    simp only [pilot, updated, modifyAircraft_aircraft (derived_of_asAircraft ha)]
  have hair := asAircraft_of_derived hderived
  have hstored : (y.server.heap u).asAircraft =
      some { a with flightPlan := some (p.fields.store plan) } := by
    rw [hpilot]
    exact hair
  have hsend := Server.sendFlightPlanCycle_run hstored rfl recipient
  obtain ⟨t, hbuild, hwritten⟩ := sized_run le_rfl 17 block hblock
    (fit_told p _ _ plan.flightRules hfit)
  refine ⟨y, _, _, t, hrun, hsend, rfl, ?_, hwritten⟩
  change (sendFlightPlanCycle (y.server.heap u) (p.fields.store plan)).run _ = _
  rw [hpilot, sendFlightPlanCycle_eq p (getType_of_asAircraft hair), hindex]
  exact hbuild

/-- The message carries the flight rules of the packet exactly when it has their byte. -/
theorem messageBytes_told_iff (p : Payload) (index flightRules : ℤ) :
    messageBytes (p.told index flightRules) = messageBytes (p.message index) ↔
      toChar flightRules = p.flightRules := by
  have hbody := body_told_eq_iff p index flightRules p.flightRules.toNat
  rw [toChar_toNat] at hbody
  rw [← hbody, Payload.message]
  constructor
  · intro heq
    have htail := (List.cons_eq_cons.mp heq).2
    exact List.append_inj_right htail (by rw [beBytes_length, beBytes_length])
  · intro heq
    rw [messageBytes, heq]
    rfl

/-- The message sent right after the packet carries what the packet did, exactly when the flight
rules of the old plan are the byte that the packet has for them. -/
theorem plan_relayed_iff (hx : x.buf.unread = p.bytes ++ rest)
    (hu : x.server.clientManager.getUserByIndex (beNat p.index.1) = some u)
    (ha : (x.server.heap u).asAircraft = some a) (hplan : a.flightPlan = some plan)
    (clientSocket : Socket) (sender : Option Ptr) (recipient : Ptr) {block : List UInt8}
    (hblock : 3 ≤ block.length)
    (hfit : Piece.Fit (p.message (x.server.heap u).index) (block.length - 3)) :
    ∃ y s m t, (handle clientSocket sender).run x = .ok () y ∧
      (Server.sendFlightPlanCycle recipient u).run y.server = .ok () s ∧
      s.sent = y.server.sent ++ [⟨recipient, m⟩] ∧
      m.build.run (preallocated block) = .ok () t ∧
      (t.written = messageBytes (p.message (x.server.heap u).index) ↔
        toChar plan.flightRules = p.flightRules) := by
  obtain ⟨y, s, m, t, hrun, hsend, hsent, hbuild, hwritten⟩ :=
    sent_after_handle hx hu ha hplan clientSocket sender recipient hblock hfit
  refine ⟨y, s, m, t, hrun, hsend, hsent, hbuild, ?_⟩
  rw [hwritten, messageBytes_told_iff]

end Update

/-- A packet about the user with index 5 that files a plan with these flight rules. -/
def filing (flightRules : UInt8) : Payload where
  cycle := ⟨[0, 1], rfl⟩
  index := ⟨[0, 5], rfl⟩
  flightRules := flightRules
  squawkCode := noText
  departure := letter 65 (by decide)
  arrival := letter 66 (by decide)
  alternate := noText
  cruise := noText
  acType := noText
  scratchPad := noText
  route := noText
  remarks := noText

/-- A pilot with an empty plan whose flight rules are 0. -/
def grounded : Aircraft := .createFlightPlan .zeroed (.construct .zeroed)

def onePilot : Server where
  __ := Server.initial fun _ => .zeroed
  heap _ := { User.construct .zeroed 1 1 (.aircraft grounded) with index := 5 }
  clientManager := (ClientManager.construct maxClients).providePlacement 1 0 fun _ =>
    { User.construct .zeroed 1 1 (.aircraft grounded) with index := 5 }

/-- A connection on which the packet has arrived. -/
def arrived (p : Payload) : Session := ⟨onePilot, .preallocated p.bytes, []⟩

theorem visual_relayed : ∃ y s m t, (handle 1 (some 0)).run (arrived (filing 0)) = .ok () y ∧
    (Server.sendFlightPlanCycle 0 0).run y.server = .ok () s ∧
    s.sent = y.server.sent ++ [⟨0, m⟩] ∧
    m.build.run (preallocated (List.replicate 32 0)) = .ok () t ∧
    (t.written = messageBytes ((filing 0).message 5) ↔ toChar 0 = 0) :=
  have hx : (arrived (filing 0)).buf.unread = (filing 0).bytes ++ [] := rfl
  have ha : ((arrived (filing 0)).server.heap 0).asAircraft = some grounded := rfl
  plan_relayed_iff hx rfl ha rfl 1 (some 0) 0 (by decide) (fit_of_length (by decide))

/-- The flight rules 1 of the packet are dropped, and those of the old plan are sent. -/
theorem flightRules_dropped : ¬ ∀ (p : Payload) (x : Session) (rest : List UInt8) (u : Ptr)
    (a : Aircraft) (plan : FlightPlan), x.buf.unread = p.bytes ++ rest →
    x.server.clientManager.getUserByIndex (beNat p.index.1) = some u →
    (x.server.heap u).asAircraft = some a → a.flightPlan = some plan →
    ∀ (clientSocket : Socket) (sender : Option Ptr) (recipient : Ptr) (block : List UInt8),
    3 ≤ block.length → Piece.Fit (p.message (x.server.heap u).index) (block.length - 3) →
    ∀ y s m t, (handle clientSocket sender).run x = .ok () y →
      (Server.sendFlightPlanCycle recipient u).run y.server = .ok () s →
      s.sent = y.server.sent ++ [⟨recipient, m⟩] → m.build.run (preallocated block) = .ok () t →
      t.written = messageBytes (p.message (x.server.heap u).index) := by
  intro hall
  have hfit : Piece.Fit ((filing 1).message 5) 29 := fit_of_length (by decide)
  have hx : (arrived (filing 1)).buf.unread = (filing 1).bytes ++ [] := rfl
  have ha : ((arrived (filing 1)).server.heap 0).asAircraft = some grounded := rfl
  have hblock : 3 ≤ (List.replicate 32 (0 : UInt8)).length := by decide
  obtain ⟨y, s, m, t, hrun, hsend, hsent, hbuild, hwritten⟩ :=
    sent_after_handle hx rfl ha rfl 1 (some 0) 0 hblock hfit
  have hsame := hall (filing 1) (arrived (filing 1)) [] 0 grounded _ rfl rfl rfl rfl 1 (some 0) 0
    (List.replicate 32 0) (by decide) hfit y s m t hrun hsend hsent hbuild
  rw [hwritten] at hsame
  exact absurd ((messageBytes_told_iff (filing 1) 5 0).mp hsame) (by decide)

end Win64Server.PlanRelay
