import Win64Server.PacketFields
import Win64Server.ServerEffects

/-!
The flight plan packet in two parts: the fields it carries, which are all read before anything is
changed, and the change to the pilot it names. The change stores the fields in the pilot's plan
and asks for it to be sent out.
-/
namespace Win64Server.FlightPlanUpdate

open Outcome Library BasicStream PacketFields

/-- The fields the handler keeps. -/
structure Fields where
  cycle : ℕ
  index : ℕ
  squawkCode : CxxString
  departure : CxxString
  arrival : CxxString
  alternate : CxxString
  cruise : CxxString
  acType : CxxString
  scratchPad : CxxString
  route : CxxString
  remarks : CxxString

def readFields : StreamM Fields := do
  let cycle ← readUnsignedShort
  let index ← readUnsignedShort
  let _flightRules ← readUnsignedByte
  let squawkCode ← readStringCopy
  let departure ← readStringCopy
  let arrival ← readStringCopy
  let alternate ← readStringCopy
  let cruise ← readStringCopy
  let acType ← readStringCopy
  let scratchPad ← readStringCopy
  let route ← readStringCopy
  let remarks ← readStringCopy
  return { cycle, index, squawkCode, departure, arrival, alternate, cruise, acType, scratchPad,
           route, remarks }

/-- The plan with these fields; its flight rules stay. -/
def Fields.store (f : Fields) (plan : FlightPlan) : FlightPlan :=
  { plan with
    cycle := f.cycle, squawkCode := f.squawkCode, departure := f.departure, arrival := f.arrival
    alternate := f.alternate, cruise := f.cruise, acType := f.acType
    scratchPad := f.scratchPad, route := f.route, remarks := f.remarks }

/-- The first half of the change: the fields are stored. -/
def storePlan (user : Ptr) (plan : FlightPlan) : ServerM Unit :=
  Server.updateUser user fun r => r.modifyAircraft fun a => { a with flightPlan := some plan }

/-- The second half: the flag is set. -/
def setFlag (user : Ptr) : ServerM Unit :=
  Server.updateUser user fun r =>
    { r with updateOnlyQueues := Function.update r.updateOnlyQueues 0 true }

/-- What the handler does with the fields of a packet about this user. -/
def apply (user : Ptr) (f : Fields) : ServerM Unit := do
  let r ← Server.getUser user
  if r.getType = .pilot then
    match ← Server.getFlightPlan user with
    | none => throw (.undefined .nullPlan)
    | some plan =>
      storePlan user (f.store plan)
      setFlag user

section Apply

variable {s : Server} {user : Ptr} {f : Fields} {a : Aircraft}

/-- The pilot with the plan of the packet and the flag set. -/
def updated (f : Fields) (plan : FlightPlan) (u : User) : User :=
  { u.modifyAircraft fun a => { a with flightPlan := some (f.store plan) } with
    updateOnlyQueues := Function.update u.updateOnlyQueues 0 true }

theorem updated_eq_self_iff {u : User} (h : u.asAircraft = some a) {plan : FlightPlan}
    (hplan : a.flightPlan = some plan) :
    updated f plan u = u ↔ f.store plan = plan ∧ u.updateOnlyQueues 0 = true := by
  have hderived : u.derived = .aircraft a := derived_of_asAircraft h
  constructor
  · intro heq
    have hstored := congrArg (fun v : User => v.asAircraft.bind Aircraft.flightPlan) heq
    have hflag := congrArg (fun v : User => v.updateOnlyQueues 0) heq
    simp only [updated, User.modifyAircraft, hderived, User.asAircraft, Option.bind_some, hplan,
      Option.some.injEq, Function.update_self] at hstored hflag
    exact ⟨hstored, hflag.symm⟩
  · rintro ⟨hstored, hflag⟩
    have hqueues : Function.update u.updateOnlyQueues 0 true = u.updateOnlyQueues := by
      rw [← hflag, Function.update_eq_self]
    simp only [updated, User.modifyAircraft, hderived, hstored, hqueues]
    cases u
    cases a
    simp_all

theorem apply_controller (h : (s.heap user).asAircraft = none) :
    (apply user f).run s = .ok () s := by
  simp [apply, Server.getUser, getType_of_none h]

theorem apply_noPlan (h : (s.heap user).asAircraft = some a) (hplan : a.flightPlan = none) :
    (apply user f).run s = .error (.undefined .nullPlan) s := by
  simp [apply, Server.getUser, getType_of_asAircraft h, Server.getFlightPlan_run h, hplan]

theorem apply_plan (h : (s.heap user).asAircraft = some a) {plan : FlightPlan}
    (hplan : a.flightPlan = some plan) :
    (apply user f).run s = .ok () (s.modifyUser user (updated f plan)) := by
  have hfields : ∀ (u : User) (g : Aircraft → Aircraft),
      (u.modifyAircraft g).updateOnlyQueues = u.updateOnlyQueues := by
    intro u g
    unfold User.modifyAircraft
    split <;> rfl
  simp [apply, Server.getUser, getType_of_asAircraft h, Server.getFlightPlan_run h, hplan,
    storePlan, setFlag, Server.updateUser, Server.modifyUser, updated, hfields]

end Apply

def applyTo (user : Option Ptr) (f : Fields) : ServerM Unit :=
  match user with
  | none => return
  | some user => apply user f

/-- The handler on a connection from which the fields can be read. -/
theorem handle_run {x : Session} {f : Fields} {t : BasicStream} (clientSocket : Socket)
    (sender : Option Ptr) (hread : readFields.run x.buf = .ok f t) :
    (handle clientSocket sender).run x =
      (onServer (applyTo (x.server.clientManager.getUserByIndex f.index) f)).run
        { x with buf := t } := by
  simp only [readFields, run_bind_ok] at hread
  obtain ⟨_, _, h1, _, _, h2, _, _, h3, _, _, h4, _, _, h5, _, _, h6, _, _, h7, _, _, h8, _, _, h9,
    _, _, h10, _, _, h11, _, _, h12, hf⟩ := hread
  cases hf
  simp only [handle, readText]
  rw [run_onBuf_bind h1, run_onBuf_bind h2, run_bind_of_ok (EStateM.run_get ..),
    run_onBuf_bind h3, run_onBuf_bind h4, run_onBuf_bind h5, run_onBuf_bind h6, run_onBuf_bind h7,
    run_onBuf_bind h8, run_onBuf_bind h9, run_onBuf_bind h10, run_onBuf_bind h11,
    run_onBuf_bind h12]
  dsimp only
  cases x.server.clientManager.getUserByIndex _ with
  | none => rfl
  | some user => rfl

/-- The handler stops at a read, with the server as it was. -/
def Stops (program : HandlerM Unit) (x : Session) : Prop :=
  ∃ e y, program.run x = .error e y ∧ y.server = x.server

theorem stops_onBuf_bind {α β : Type} {op : StreamM α} {g : α → StreamM β} {f : α → HandlerM Unit}
    {x : Session} {e : Fault} {t : BasicStream} (h : (op >>= g).run x.buf = .error e t)
    (hf : ∀ a buf, (g a).run buf = .error e t → Stops (f a) { x with buf := buf }) :
    Stops (onBuf op >>= f) x := by
  cases hop : op.run x.buf with
  | error e' buf =>
    have hrun : (onBuf op).run x = .error e' { x with buf := buf } := by rw [run_onBuf, hop]
    exact ⟨e', _, run_bind_of_error hrun, rfl⟩
  | ok a buf =>
    rw [run_bind_of_ok hop] at h
    obtain ⟨e', y, hrun, hserver⟩ := hf a buf h
    exact ⟨e', y, (run_onBuf_bind hop).trans hrun, hserver⟩

theorem stops_get_bind {f : Session → HandlerM Unit} {x : Session} (h : Stops (f x) x) :
    Stops (get >>= f) x := h

/-- The handler on a connection from which the fields cannot be read. -/
theorem handle_stops {x : Session} {e : Fault} {t : BasicStream} (clientSocket : Socket)
    (sender : Option Ptr) (hread : readFields.run x.buf = .error e t) :
    Stops (handle clientSocket sender) x := by
  refine stops_onBuf_bind hread fun _ _ h1 => ?_
  refine stops_onBuf_bind h1 fun _ _ h2 => stops_get_bind ?_
  refine stops_onBuf_bind h2 fun _ _ h3 => stops_onBuf_bind h3 fun _ _ h4 => ?_
  refine stops_onBuf_bind h4 fun _ _ h5 => stops_onBuf_bind h5 fun _ _ h6 => ?_
  refine stops_onBuf_bind h6 fun _ _ h7 => stops_onBuf_bind h7 fun _ _ h8 => ?_
  refine stops_onBuf_bind h8 fun _ _ h9 => stops_onBuf_bind h9 fun _ _ h10 => ?_
  refine stops_onBuf_bind h10 fun _ _ h11 => stops_onBuf_bind h11 fun _ _ h12 => ?_
  cases h12

end Win64Server.FlightPlanUpdate
