import Win64Server.Library.Guards
import Win64Server.ServerSteps
import Win64Server.VisibleSets
import Win64Server.WireStream

/-!
How an event can fail. In every run each pilot has a flight plan and each script slot in use holds
a script, so no event follows a null plan or a null script and no cast of a user fails. What is
left is listed for each packet; a pass can only fail at a script that cannot be sent. And the
messages that an event sends have to be built, in streams that may be too short for their strings.
-/
namespace Win64Server.Faults

open Outcome Library BasicStream Server Frames Permissions PositionClock TwoMemories ServerSteps
  VisibleSets

/-- Free slots are free, each once, and slots in use hold scripts. -/
structure Slotted (x : ScriptIndex) : Prop where
  nodup : x.availableIndices.Nodup
  apart : ∀ i ∈ x.availableIndices, i ∉ x.usedIndices
  filled : ∀ i ∈ x.usedIndices, (x.scripts i).isSome

theorem slotted_init : Slotted .init := by
  refine ⟨?_, fun i _ => List.not_mem_nil, fun i h => absurd h List.not_mem_nil⟩
  simp only [ScriptIndex.init]
  exact List.nodup_range

/-- A script is added to those that are there. -/
theorem Slotted.addScript {x y : ScriptIndex} {script placed : ClientScript} (h : Slotted x)
    (hadd : x.addScript script = .ok (y, placed)) :
    Slotted y ∧ ∀ i ∈ x.usedIndices, i ∈ y.usedIndices ∧ y.scripts i = x.scripts i := by
  unfold ScriptIndex.addScript at hadd
  cases hfree : x.availableIndices with
  | nil =>
    rw [hfree] at hadd
    cases hadd
  | cons idx rest =>
    rw [hfree] at hadd
    have hidx : idx ∉ x.usedIndices := h.apart idx (by rw [hfree]; exact List.mem_cons_self)
    have hnodup := h.nodup
    rw [hfree, List.nodup_cons] at hnodup
    simp only [if_neg hidx, Except.ok.injEq, Prod.mk.injEq] at hadd
    obtain ⟨rfl, -⟩ := hadd
    have hkept (i : ℕ) (hi : i ∈ x.usedIndices) :
        Function.update x.scripts idx (some { script with idx := idx }) i = x.scripts i :=
      Function.update_of_ne (fun heq : i = idx => hidx (heq ▸ hi)) _ _
    refine ⟨⟨hnodup.2, fun i hi hused => ?_, fun i hi => ?_⟩, fun i hi => ⟨?_, hkept i hi⟩⟩
    · rcases (List.mem_orderedInsert _).mp hused with rfl | hused
      · exact hnodup.1 hi
      · exact h.apart i (by rw [hfree]; exact List.mem_cons_of_mem _ hi) hused
    · rcases (List.mem_orderedInsert _).mp hi with rfl | hi
      · simp only [Function.update_self, Option.isSome_some]
      · dsimp only
        rw [hkept i hi]
        exact h.filled i hi
    · exact (List.mem_orderedInsert _).mpr (Or.inr hi)

/-- A pilot has a plan, and the slots are in order. -/
structure Equipped (u : User) : Prop where
  plan : ∀ a, u.derived = .aircraft a → a.flightPlan.isSome
  slots : Slotted u.scripts

def AllEquipped (s : Server) : Prop := ∀ p, Equipped (s.heap p)

theorem Equipped.withdrawable {u : User} (h : Equipped u) : Withdrawable u := by
  intro slot hslot hnone
  obtain ⟨i, hi, rfl⟩ := List.mem_map.mp hslot
  have hfilled := h.slots.filled i hi
  rw [hnone] at hfilled
  cases hfilled

section Operations

/-- An invariant that messages and questions to the environment keep. -/
class Steady (I : Server → Prop) : Prop where
  push : ∀ s user message, I s → I (Server.push s user message)
  ticks : ∀ s n, I s → I { s with ticks := n }

instance : Steady AllEquipped := ⟨fun _ _ _ h => h, fun _ _ h => h⟩

/-- While a user is a pilot. -/
def AsPilot (I : Server → Prop) (u : Ptr) (s : Server) : Prop :=
  I s ∧ (s.heap u).getType = .pilot

variable {I : Server → Prop} {P : Fault → Prop} (env : Environment) (user other : Ptr)

instance [hI : Steady I] : Steady (AsPilot I user) :=
  ⟨fun s u m h => ⟨hI.push s u m h.1, h.2⟩, fun s n h => ⟨hI.ticks s n h.1, h.2⟩⟩

instance : Guarded I P (getUser user) := by unfold getUser; infer_instance

theorem guarded_updateUser {f : User → User} (hf : ∀ s, I s → I (s.modifyUser user f)) :
    Guarded I P (updateUser user f) := .modify hf

/-- A loop over the connected users, by who they are. -/
theorem guarded_iterateUsers {users : List Ptr} {func : Ptr → ServerM Unit}
    (hticks : ∀ s n, I s → I { s with ticks := n })
    (hclients : ∀ s, I s → s.clientManager.users = users)
    (hfunc : ∀ user ∈ users, Guarded I P (func user)) :
    Guarded I P (iterateUsers env func) := by
  refine .of_like fun s hs => ⟨I, (env.arrange s.ticks s.clientManager.users).forM func,
    { s with ticks := s.ticks + 1 }, hticks s _ hs, fun _ h => h, ?_, rfl⟩
  refine .of_forM fun v hv => hfunc v ?_
  rwa [(env.arrange_perm _ _).mem_iff, hclients s hs] at hv

/-- A loop over the local users, by what is true of them. -/
theorem guarded_iterateLocalUsers {Q : Ptr → Prop} {func : Ptr → ServerM Unit}
    (hticks : ∀ s n, I s → I { s with ticks := n })
    (hmembers : ∀ s, I s → ∀ v ∈ (s.heap user).localUsers, Q v)
    (hfunc : ∀ v, Q v → Guarded I P (func v)) :
    Guarded I P (iterateLocalUsers env user func) := by
  refine .of_like fun s hs => ⟨I, (env.arrange s.ticks (s.heap user).localUsers.keys).forM func,
    { s with ticks := s.ticks + 1 }, hticks s _ hs, fun _ h => h, ?_, rfl⟩
  refine .of_forM fun v hv => hfunc v (hmembers s hs v ?_)
  rw [(env.arrange_perm _ _).mem_iff] at hv
  exact AList.mem_keys.mpr hv

variable [hI : Steady I]

instance (message : Outgoing) : Guarded I P (send user message) :=
  .modify fun s h => hI.push s user message h

instance (users : List Ptr) : Guarded I P (arranged env users) :=
  ⟨fun s h => hI.ticks s _ h, fun _ _ _ _ h => by cases h⟩

instance : Guarded I P (readClock env) :=
  ⟨fun s h => hI.ticks s _ h, fun _ _ _ _ h => by cases h⟩

instance (func : Ptr → ServerM Unit) [∀ other, Guarded I P (func other)] :
    Guarded I P (iterateLocalUsers env user func) := by
  unfold iterateLocalUsers; infer_instance

instance (aircraft : Aircraft) :
    Guarded I P (Server.sendClientTransponder user other aircraft) := by
  unfold Server.sendClientTransponder; infer_instance

instance (aircraft : Aircraft) :
    Guarded I P (Server.sendClientModeChange user other aircraft) := by
  unfold Server.sendClientModeChange; infer_instance

instance : Guarded I P (Server.sendPrimFreq user other) := by
  unfold Server.sendPrimFreq; infer_instance

instance (frequency : ℤ) (message : CxxString) (asel : Bool) :
    Guarded I P (Server.sendMessage user other frequency message asel) := by
  unfold Server.sendMessage; infer_instance

instance (script : ClientScript) [Fact (P (.thrown .badAnyCast))] :
    Guarded I P (Server.sendScript user other script) := by
  unfold Server.sendScript; infer_instance

omit hI in
/-- The cast to an aircraft of a user that is one. -/
theorem guarded_getAircraft : Guarded (AsPilot I user) P (getAircraft user) := by
  refine .of_run fun s h => Or.inl ?_
  obtain ⟨a, ha⟩ := derived_of_pilot h.2
  exact ⟨a, s, getAircraft_run (asAircraft_of_derived ha), h⟩

omit hI in
/-- A part that is only done for a pilot. -/
theorem guarded_ifPilot {rest : ServerM Unit} (h : Guarded (AsPilot I user) P rest) :
    Guarded I P (getUser user >>= fun r => if r.getType = .pilot then rest else return) := by
  refine .of_like fun s hs => ?_
  rw [run_bind_of_ok (getUser_run s user)]
  by_cases hpilot : (s.heap user).getType = .pilot
  · rw [if_pos hpilot]
    exact ⟨AsPilot I user, rest, s, ⟨hs, hpilot⟩, fun _ h => h.1, h, rfl⟩
  · rw [if_neg hpilot]
    exact ⟨I, _, s, hs, fun _ h => h, .pure (), rfl⟩

end Operations

section Changes

variable {P : Fault → Prop} (user : Ptr)

/-- A change that leaves the plan and the scripts. -/
theorem Equipped.of_same {u v : User} (h : Equipped u) (hderived : v.derived = u.derived)
    (hscripts : v.scripts = u.scripts) : Equipped v :=
  ⟨fun a ha => h.plan a (hderived ▸ ha), hscripts ▸ h.slots⟩

/-- A change to the subclass part of a pilot that leaves it with a plan. -/
theorem Equipped.modifyAircraft {u : User} (h : Equipped u) {f : Aircraft → Aircraft}
    (hf : ∀ a, a.flightPlan.isSome → (f a).flightPlan.isSome) : Equipped (u.modifyAircraft f) := by
  unfold User.modifyAircraft
  split
  · next a ha =>
    refine ⟨fun b hb => ?_, h.slots⟩
    cases hb
    exact hf a (h.plan a ha)
  · exact h

theorem modifyAircraft_type (u : User) (f : Aircraft → Aircraft) :
    (u.modifyAircraft f).getType = u.getType := by
  cases hderived : u.derived with
  | aircraft a =>
    rw [modifyAircraft_aircraft hderived]
    simp only [User.getType, hderived]
  | controller x => rw [modifyAircraft_controller hderived]

variable {user} in
theorem AllEquipped.modifyUser {s : Server} (h : AllEquipped s) {f : User → User}
    (hf : ∀ u, Equipped u → Equipped (f u)) : AllEquipped (s.modifyUser user f) := by
  intro p
  by_cases hp : p = user
  · rw [hp, modifyUser_heap_self]
    exact hf _ (h user)
  · rw [modifyUser_heap_ne _ _ _ _ hp]
    exact h p

theorem equips_updateUser {f : User → User} (hf : ∀ u, Equipped u → Equipped (f u)) :
    Guarded AllEquipped P (updateUser user f) := guarded_updateUser user fun _ h => h.modifyUser hf

variable {user} in
/-- The plan of a pilot is there. -/
theorem AsPilot.getFlightPlan_run {s : Server} (h : AsPilot AllEquipped user s) :
    ∃ plan, (getFlightPlan user).run s = .ok (some plan) s := by
  obtain ⟨a, ha⟩ := derived_of_pilot h.2
  obtain ⟨plan, hplan⟩ := Option.isSome_iff_exists.mp ((h.1 user).plan a ha)
  refine ⟨plan, ?_⟩
  rw [Server.getFlightPlan_run (asAircraft_of_derived ha), hplan]

theorem guarded_getFlightPlan_bind {β : Type} {f : Option FlightPlan → ServerM β}
    (hf : ∀ plan, Guarded (AsPilot AllEquipped user) P (f (some plan))) :
    Guarded (AsPilot AllEquipped user) P (getFlightPlan user >>= f) := by
  refine .of_like fun s h => ?_
  obtain ⟨plan, hrun⟩ := h.getFlightPlan_run
  rw [run_bind_of_ok hrun]
  exact ⟨_, f (some plan), s, h, fun _ h => h, hf plan, rfl⟩

theorem guarded_sendFlightPlanCycle (recipient : Ptr) :
    Guarded (AsPilot AllEquipped user) P (Server.sendFlightPlanCycle recipient user) := by
  unfold Server.sendFlightPlanCycle
  exact .of_bind inferInstance fun f => guarded_getFlightPlan_bind user fun plan => inferInstance

end Changes

section Reading

variable {P : Fault → Prop} [Fact (P (.thrown (.outOfRange "End of stream reached")))]

instance raises_readBytes (n : ℕ) : Raises P (readBytes n) := by unfold readBytes; infer_instance

instance raises_readUnsignedByte : Raises P readUnsignedByte := by
  unfold readUnsignedByte; infer_instance

instance raises_readUnsignedShort : Raises P readUnsignedShort := by
  unfold readUnsignedShort; infer_instance

instance raises_read3Byte : Raises P read3Byte := by unfold read3Byte; infer_instance

instance raises_readUnsignedInt : Raises P readUnsignedInt := by
  unfold readUnsignedInt; infer_instance

instance raises_readQWord : Raises P readQWord := by unfold readQWord; infer_instance

instance raises_readString : Raises P readString := by unfold readString; infer_instance

instance raises_readStringCopy [Fact (P (.undefined .readPastBlock))] :
    Raises P readStringCopy := by
  unfold readStringCopy stdString; infer_instance

end Reading

section Sessions

/-- An invariant of the server as one of a session. -/
def OnServer (I : Server → Prop) (x : Session) : Prop := I x.server

variable {I : Server → Prop} {P : Fault → Prop}

instance {α : Type} (op : StreamM α) [h : Raises P op] : Guarded (OnServer I) P (onBuf op) := by
  refine .of_raises (fun x hx => ?_) (PacketFields.raises_onBuf op)
  rw [run_onBuf]
  cases op.run x.buf <;> exact hx

instance guarded_onServer {α : Type} (op : ServerM α) [h : Guarded I P op] :
    Guarded (OnServer I) P (onServer op) where
  keeps x hx := by
    have hop := h.keeps x.server hx
    rw [run_onServer]
    cases hrun : op.run x.server <;> rw [hrun] at hop <;> exact hop
  raised x e y hx hrun := by
    rw [run_onServer] at hrun
    cases hop : op.run x.server with
    | ok a t =>
      rw [hop] at hrun
      cases hrun
    | error e' t =>
      rw [hop] at hrun
      cases hrun
      exact h.raised x.server e t hx hop

instance (user : Option Ptr) [Fact (user = none → P (.undefined .nullUser))] :
    Guarded (OnServer I) P (deref user) := by
  rename_i hnull
  cases user with
  | none =>
    have := Fact.mk (hnull.out rfl)
    unfold deref
    infer_instance
  | some u => unfold deref; infer_instance

variable [Fact (P (.thrown (.outOfRange "End of stream reached")))]

instance guarded_readDouble : Guarded (OnServer I) P readDouble := by
  unfold readDouble; infer_instance

instance guarded_readFrequency : Guarded (OnServer I) P readFrequency := by
  unfold readFrequency; infer_instance

instance guarded_readText [Fact (P (.undefined .readPastBlock))] :
    Guarded (OnServer I) P readText := by
  unfold readText; infer_instance

end Sessions

/-- What may go wrong while a packet is handled. Nobody may be logged in on its connection; its
strings may run past the block; a login may have a name that is no number or a type without a class,
a changed cycle a type outside the array, and a script a slot of another type or no slot left. -/
def Excused (user : Option Ptr) (id : ℕ) : Fault → Prop
  | .undefined .nullUser => user = none ∨ id = 45
  | .undefined .indexPastArray => id = 5
  | .undefined .readPastBlock => id ∈ [2, 6, 7, 10, 12, 14, 45]
  | .undefined _ | .thrown .badCast => False
  | .thrown .badAnyCast => id = 14
  | .thrown (.runtimeError text) => id = 14 ∧ text = "No free space available"
  | .thrown (.invalidArgument text) => id = 45 ∧ text = "invalid stoi argument"
  | .thrown (.outOfRange text) =>
    text = "End of stream reached" ∨ (id = 45 ∧ text = "stoi argument out of range")

section Handlers

variable (env : Environment) (clientSocket : Socket) (user : Option Ptr)

/-- The packet is handled within what is excused. -/
abbrev Handles (id : ℕ) (program : HandlerM Unit) : Prop :=
  Guarded (OnServer AllEquipped) (Excused user id) program

instance (id : ℕ) : Fact (Excused user id (.thrown (.outOfRange "End of stream reached"))) :=
  ⟨Or.inl rfl⟩

instance (id : ℕ) : Fact (user = none → Excused user id (.undefined .nullUser)) := ⟨Or.inl⟩

theorem excused_text {id : ℕ} (h : id ∈ [2, 6, 7, 10, 12, 14, 45]) :
    Fact (Excused user id (.undefined .readPastBlock)) := ⟨h⟩

theorem handles_pilotUpdate : Handles user 1 (PilotUpdate.handle env clientSocket user) := by
  have hlocation (u : Ptr) (location : Location) : Guarded AllEquipped (Excused user 1)
      (updateUser u fun r => { r with location := location }) :=
    equips_updateUser u fun r hr => hr.of_same rfl rfl
  have hstate (u : Ptr) (state : State) : Guarded AllEquipped (Excused user 1)
      (updateUser u fun r => r.modifyAircraft fun a => { a with state := state }) :=
    equips_updateUser u fun r hr => hr.modifyAircraft fun a ha => ha
  have hstamp (u : Ptr) (now : ℤ) : Guarded AllEquipped (Excused user 1)
      (updateUser u fun r => { r with lastPositionUpdate := now }) :=
    equips_updateUser u fun r hr => hr.of_same rfl rfl
  unfold PilotUpdate.handle
  infer_instance

theorem handles_controllerUpdate :
    Handles user 3 (ControllerUpdate.handle env clientSocket user) := by
  have hlocation (u : Ptr) (location : Location) : Guarded AllEquipped (Excused user 3)
      (updateUser u fun r => { r with location := location }) :=
    equips_updateUser u fun r hr => hr.of_same rfl rfl
  have hstamp (u : Ptr) (now : ℤ) : Guarded AllEquipped (Excused user 3)
      (updateUser u fun r => { r with lastPositionUpdate := now }) :=
    equips_updateUser u fun r hr => hr.of_same rfl rfl
  unfold ControllerUpdate.handle
  infer_instance

/-- A change to a pilot, which stays one. -/
theorem asPilot_modifyAircraft {P : Fault → Prop} (u : Ptr) {f : Aircraft → Aircraft}
    (hf : ∀ a, a.flightPlan.isSome → (f a).flightPlan.isSome) :
    Guarded (AsPilot AllEquipped u) P (updateUser u fun r => r.modifyAircraft f) := by
  refine guarded_updateUser u fun s h => ⟨h.1.modifyUser fun r hr => hr.modifyAircraft hf, ?_⟩
  rw [modifyUser_heap_self, modifyAircraft_type]
  exact h.2

theorem handles_transponder :
    Handles user 2 (TransponderPacket.handle env clientSocket user) := by
  have := excused_text user (show 2 ∈ [2, 6, 7, 10, 12, 14, 45] by decide)
  unfold TransponderPacket.handle
  refine .of_bind inferInstance fun code => .of_bind inferInstance fun u => ?_
  refine @guarded_onServer _ _ _ _ (guarded_ifPilot u ?_)
  refine .of_bind (asPilot_modifyAircraft u fun a ha => ha) fun _ => ?_
  exact .of_bind (guarded_getAircraft u) fun aircraft => inferInstance

theorem handles_clientMode : Handles user 8 (ClientMode.handle env clientSocket user) := by
  unfold ClientMode.handle
  refine .of_bind inferInstance fun i => .of_bind inferInstance fun u => ?_
  refine @guarded_onServer _ _ _ _ (guarded_ifPilot u ?_)
  refine .of_bind (asPilot_modifyAircraft u fun a ha => ha) fun _ => ?_
  exact .of_bind (guarded_getAircraft u) fun aircraft => inferInstance

theorem handles_changeCycle : Handles user 5 (ChangeCyclePacket.handle clientSocket user) := by
  unfold ChangeCyclePacket.handle
  refine .of_bind inferInstance fun index => .of_bind inferInstance fun x => ?_
  refine .of_bind inferInstance fun type => .of_bind inferInstance fun requestTime => ?_
  refine .of_ite (.of_bind inferInstance fun u => @guarded_onServer _ _ _ _ ?_) inferInstance
  refine .of_like fun s hs => ?_
  rw [run_bind_of_ok (getUser_run s u)]
  cases hset : (s.heap u).setRequestedInterval type requestTime with
  | none =>
    have : Fact (Excused user 5 (.undefined .indexPastArray)) := ⟨rfl⟩
    exact ⟨_, _, s, hs, fun _ h => h, Guarded.throw (.undefined .indexPastArray), rfl⟩
  | some changed =>
    have hchanged : Equipped changed := by
      unfold User.setRequestedInterval at hset
      split at hset
      · cases hset
        exact (hs u).of_same rfl rfl
      · cases hset
    exact ⟨_, _, s, hs, fun _ h => h, equips_updateUser u fun _ _ => hchanged, rfl⟩

theorem handles_message : Handles user 6 (MessageRxPacket.handle env clientSocket user) := by
  have := excused_text user (show 6 ∈ [2, 6, 7, 10, 12, 14, 45] by decide)
  unfold MessageRxPacket.handle
  refine .of_bind inferInstance fun callsign => .of_bind inferInstance fun frequency => ?_
  refine .of_bind inferInstance fun message => .of_bind inferInstance fun x => ?_
  cases x.server.clientManager.getUserByCallsign callsign <;> infer_instance

theorem handles_pilotTitle : Handles user 7 (PilotTitle.handle clientSocket user) := by
  have := excused_text user (show 7 ∈ [2, 6, 7, 10, 12, 14, 45] by decide)
  have htitle (u : Ptr) (title : CxxString) : Guarded AllEquipped (Excused user 7)
      (updateUser u fun r => r.modifyAircraft fun a => { a with acfTitle := title }) :=
    equips_updateUser u fun r hr => hr.modifyAircraft fun a ha => ha
  unfold PilotTitle.handle
  refine .of_bind inferInstance fun index => .of_bind inferInstance fun x => ?_
  refine .of_bind inferInstance fun title => ?_
  by_cases hown : x.server.clientManager.getUserByIndex index = user
  · rw [if_pos hown, hown]
    infer_instance
  · rw [if_neg hown]
    infer_instance

theorem handles_clientDisconnect :
    Handles user 9 (ClientDisconnect.handle clientSocket user) := by
  have hclose : Guarded AllEquipped (Excused user 9) (closesocket clientSocket) :=
    .modify fun s h => h
  unfold ClientDisconnect.handle
  infer_instance

theorem handles_flightPlan : Handles user 10 (FlightPlanUpdate.handle clientSocket user) := by
  have := excused_text user (show 10 ∈ [2, 6, 7, 10, 12, 14, 45] by decide)
  unfold FlightPlanUpdate.handle
  refine .of_bind inferInstance fun curCycle => .of_bind inferInstance fun index => ?_
  refine .of_bind inferInstance fun x => .of_bind inferInstance fun flightRules => ?_
  refine .of_bind inferInstance fun squawk => .of_bind inferInstance fun departure => ?_
  refine .of_bind inferInstance fun arrival => .of_bind inferInstance fun alternate => ?_
  refine .of_bind inferInstance fun cruise => .of_bind inferInstance fun acType => ?_
  refine .of_bind inferInstance fun scratch => .of_bind inferInstance fun route => ?_
  refine .of_bind inferInstance fun remarks => ?_
  cases x.server.clientManager.getUserByIndex index with
  | none => infer_instance
  | some u =>
    refine @guarded_onServer _ _ _ _ (guarded_ifPilot u ?_)
    refine guarded_getFlightPlan_bind u fun plan => ?_
    refine .of_bind (asPilot_modifyAircraft u fun a ha => rfl) fun _ => ?_
    refine guarded_updateUser u fun s h => ⟨h.1.modifyUser fun r hr => hr.of_same rfl rfl, ?_⟩
    rw [modifyUser_heap_self]
    exact h.2

theorem handles_requestFlightPlan :
    Handles user 11 (RequestFlightPlan.handle clientSocket user) := by
  unfold RequestFlightPlan.handle
  refine .of_bind inferInstance fun index => .of_bind inferInstance fun curCycle => ?_
  refine .of_like fun x hx => ?_
  rw [run_bind_of_ok (EStateM.run_get ..)]
  cases x.server.clientManager.getUserByIndex index with
  | none => exact ⟨_, _, x, hx, fun _ h => h, .pure (), rfl⟩
  | some userFp =>
    dsimp only
    by_cases hpilot : (x.server.heap userFp).getType = .pilot
    · rw [if_pos hpilot]
      have hpilot' : AsPilot AllEquipped userFp x.server := ⟨hx, hpilot⟩
      obtain ⟨plan, hrun⟩ := hpilot'.getFlightPlan_run
      have hplan : (onServer (getFlightPlan userFp)).run x = .ok (some plan) x :=
        onServer_ok.mpr ⟨x.server, hrun, rfl⟩
      rw [run_bind_of_ok hplan]
      refine ⟨OnServer (AsPilot AllEquipped userFp), _, x, hpilot', fun _ h => h.1, ?_, rfl⟩
      refine .of_ite (.of_bind inferInstance fun u => ?_) inferInstance
      exact @guarded_onServer _ _ _ _ (guarded_sendFlightPlanCycle userFp u)
    · rw [if_neg hpilot]
      exact ⟨_, _, x, hx, fun _ h => h, .pure (), rfl⟩

theorem handles_privateMessage : Handles user 12 (PrivateMsgPacket.handle clientSocket user) := by
  have := excused_text user (show 12 ∈ [2, 6, 7, 10, 12, 14, 45] by decide)
  unfold PrivateMsgPacket.handle
  refine .of_bind inferInstance fun callsign => .of_bind inferInstance fun x => ?_
  refine .of_bind inferInstance fun message => ?_
  cases x.server.clientManager.getUserByCallsign callsign <;> infer_instance

theorem handles_primeFreq : Handles user 13 (PrimeFreqPacket.handle env clientSocket user) := by
  have hstore (u : Ptr) (f : User → User) (hf : ∀ r, Equipped r → Equipped (f r)) :
      Handles user 13 (onServer (updateUser u f)) :=
    @guarded_onServer _ _ _ _ (equips_updateUser u hf)
  unfold PrimeFreqPacket.handle
  refine .of_bind inferInstance fun flags => .of_bind inferInstance fun first => ?_
  refine .of_bind inferInstance fun u => ?_
  refine .of_bind (hstore u _ fun r hr => hr.of_same rfl rfl) fun _ => ?_
  refine .of_bind inferInstance fun second => @guarded_onServer _ _ _ _ ?_
  exact .of_bind (equips_updateUser u fun r hr => hr.of_same rfl rfl) fun _ => inferInstance

theorem handles_tempData : Handles user 14 (TempDataPacket.handle env clientSocket user) := by
  have := excused_text user (show 14 ∈ [2, 6, 7, 10, 12, 14, 45] by decide)
  have : Fact (Excused user 14 (.thrown .badAnyCast)) := ⟨rfl⟩
  have hobject (c : UInt8) : Raises (Excused user 14) (TempDataPacket.readObject c) := by
    unfold TempDataPacket.readObject; infer_instance
  have hregister (u : Ptr) (script : ClientScript) :
      Guarded AllEquipped (Excused user 14) (registerScript env u script) := by
    refine .of_like fun s hs => ?_
    rw [registerScript, run_bind_of_ok (getUser_run s u)]
    cases hadd : (s.heap u).scripts.addScript script with
    | error e =>
      have : Fact (Excused user 14 (.thrown e)) := by
        unfold ScriptIndex.addScript at hadd
        split at hadd
        · cases hadd
        · cases hadd
          exact ⟨rfl, rfl⟩
      exact ⟨_, _, s, hs, fun _ h => h, Guarded.throw (.thrown e), rfl⟩
    | ok placed =>
      have hslotted := ((hs u).slots.addScript hadd).1
      have hstore : Guarded AllEquipped (Excused user 14)
          (updateUser u fun r => { r with scripts := placed.1 }) :=
        equips_updateUser u fun r hr => ⟨hr.plan, hslotted⟩
      refine ⟨_, _, s, hs, fun _ h => h, ?_, rfl⟩
      exact .of_bind hstore fun _ => inferInstance
  unfold TempDataPacket.handle
  infer_instance

end Handlers

section Pass

/-- The users have the subclass parts and scripts of those in `s₀`, and the registry is the same. -/
structure Alike (s₀ s : Server) : Prop where
  derived : Same User.derived s₀ s
  scripts : Same User.scripts s₀ s
  clientManager : s.clientManager = s₀.clientManager

/-- A script of a connected user cannot be sent. -/
def Unsendable (s₀ : Server) (e : Fault) : Prop :=
  e = .thrown .badAnyCast ∧ ∃ user ∈ s₀.clientManager.users, ¬ Tellable (s₀.heap user)

variable {s₀ : Server} {P : Fault → Prop} (env : Environment) (user other : Ptr)

instance : Steady (Alike s₀) :=
  ⟨fun _ _ _ h => ⟨h.derived, h.scripts, h.clientManager⟩,
    fun _ _ h => ⟨h.derived, h.scripts, h.clientManager⟩⟩

theorem alike_updateUser {f : User → User} (hderived : ∀ u : User, (f u).derived = u.derived)
    (hscripts : ∀ u : User, (f u).scripts = u.scripts) :
    Guarded (Alike s₀) P (updateUser user f) := by
  refine guarded_updateUser user fun s h => ⟨fun p => ?_, fun p => ?_, h.clientManager⟩
  · exact (modifyUser_frame (hderived _) p).trans (h.derived p)
  · exact (modifyUser_frame (hscripts _) p).trans (h.scripts p)

instance (func : Ptr → ServerM Unit) [∀ user, Guarded (Alike s₀) P (func user)] :
    Guarded (Alike s₀) P (iterateUsers env func) := by
  unfold iterateUsers; infer_instance

theorem alike_lowerInterval (reqInterval : ℤ) :
    Guarded (Alike s₀) P (lowerInterval user reqInterval) := by
  unfold lowerInterval Server.sendTimeChange
  refine .of_bind inferInstance fun u => .of_ite ?_ inferInstance
  exact .of_bind (alike_updateUser user (fun _ => rfl) fun _ => rfl) fun _ => inferInstance

theorem alike_adjustTime : Guarded (Alike s₀) P (adjustTime env user) := by
  unfold adjustTime Server.sendTimeChange
  refine .of_bind inferInstance fun u => .of_bind inferInstance fun order => ?_
  refine .of_bind inferInstance fun s => .of_ite ?_ inferInstance
  exact .of_bind (alike_updateUser user (fun _ => rfl) fun _ => rfl) fun _ => inferInstance

theorem alike_createFlightPlan : Guarded (Alike s₀) P (Server.createFlightPlan user other) := by
  refine .of_run fun s hs => Or.inl ?_
  obtain ⟨t, hrun⟩ := createFlightPlan_returns user other s
  have hsends : Sends (fun _ => True) s t :=
    Keeps.ok (sends_createFlightPlan fun _ _ => trivial) hrun
  refine ⟨(), t, hrun, ?_, ?_, hsends.clientManager.trans hs.clientManager⟩
  · rw [Same, hsends.heap]
    exact hs.derived
  · rw [Same, hsends.heap]
    exact hs.scripts

/-- A cast in `sendScripts` fails only at a script that cannot be sent. -/
theorem alike_sendScripts (h₀ : AllEquipped s₀) (hother : other ∈ s₀.clientManager.users) :
    Guarded (Alike s₀) (Unsendable s₀) (sendScripts user other) := by
  refine .of_like fun s hs => ⟨Alike s₀, _, s, hs, fun _ h => h, .of_forM fun slot hslot => ?_, rfl⟩
  have hslot' : slot ∈ (s₀.heap other).scripts.getAllScripts := hs.scripts other ▸ hslot
  cases slot with
  | none => exact absurd rfl ((h₀ other).withdrawable none hslot')
  | some script =>
    refine .of_run fun m hm => ?_
    by_cases hcast : script.castable = true
    · exact Or.inl ⟨_, _, sendScript_run m user hcast other, Steady.push m _ _ hm⟩
    · refine Or.inr ⟨_, m, sendScript_stops m user hcast other, hm, rfl, other, hother, ?_⟩
      intro htellable
      obtain ⟨script', heq, hcast'⟩ := htellable _ hslot'
      cases heq
      exact hcast hcast'

theorem alike_sendRemoveScripts (h₀ : AllEquipped s₀) :
    Guarded (Alike s₀) P (sendRemoveScripts user other) := by
  refine .of_like fun s hs => ⟨Alike s₀, _, s, hs, fun _ h => h, .of_forM fun slot hslot => ?_, rfl⟩
  have hslot' : slot ∈ (s₀.heap other).scripts.getAllScripts := hs.scripts other ▸ hslot
  cases slot with
  | none => exact absurd rfl ((h₀ other).withdrawable none hslot')
  | some script => exact inferInstanceAs (Guarded _ _ (getUser other >>= fun o =>
      send user (.removeScript other o script.idx)))

theorem alike_visitUser (h₀ : AllEquipped s₀) (hother : other ∈ s₀.clientManager.users)
    (location : Location) :
    Guarded (Alike s₀) (Unsendable s₀) (visitUser env user location other) := by
  have hcontains : Guarded (Alike s₀) (Unsendable s₀) (containsUser user other) := by
    unfold containsUser; infer_instance
  have hstart : Guarded (Alike s₀) (Unsendable s₀) (startSeeing user other) := by
    unfold startSeeing Server.createClient
    refine .of_bind inferInstance fun u => .of_bind inferInstance fun u2 => ?_
    refine .of_bind (alike_lowerInterval other _) fun _ => .of_bind inferInstance fun _ => ?_
    refine .of_bind (alike_createFlightPlan user other) fun _ => ?_
    refine .of_bind (alike_sendScripts user other h₀ hother) fun _ => ?_
    exact alike_updateUser user (fun _ => rfl) fun _ => rfl
  have hstop : Guarded (Alike s₀) (Unsendable s₀) (stopSeeing env user other) := by
    unfold stopSeeing Server.deleteClient
    refine .of_bind inferInstance fun _ => ?_
    refine .of_bind (alike_sendRemoveScripts user other h₀) fun _ => ?_
    refine .of_bind (alike_updateUser user (fun _ => rfl) fun _ => rfl) fun _ => ?_
    exact alike_adjustTime env other
  unfold visitUser
  refine .of_ite (.of_bind inferInstance fun u2 => .of_bind inferInstance fun u => ?_) inferInstance
  refine .of_bind inferInstance fun seen => .of_ite hstart ?_
  exact .of_bind inferInstance fun seen => .of_ite hstop inferInstance

theorem alike_update : Guarded (Alike s₀) P (update env user) := by
  have hrecord (other : Ptr) (att : Attributes) (stamp : ℤ) :
      Guarded (Alike s₀) P (recordStamp user other att stamp) :=
    alike_updateUser user (fun _ => rfl) fun _ => rfl
  have htell (v w : Ptr) : Guarded (Alike s₀) P (sendPosUpdate v w) := by
    unfold sendPosUpdate
    refine .of_bind inferInstance fun a => ?_
    cases a.derived <;> infer_instance
  have hask (other : Ptr) : Guarded (Alike s₀) P (timeUpdate other user) := by
    unfold timeUpdate
    refine .of_bind inferInstance fun u => .of_bind inferInstance fun o => ?_
    exact alike_lowerInterval other _
  have hvisit (other : Ptr) : Guarded (Alike s₀) P (updateAbout env user other) := by
    unfold updateAbout sendDue
    refine .of_bind inferInstance fun u => .of_bind inferInstance fun o => ?_
    refine .of_bind inferInstance fun _ => .of_bind inferInstance fun o' => ?_
    refine .of_ite inferInstance (.of_ite inferInstance (.of_ite ?_ inferInstance))
    refine .of_bind inferInstance fun now => .of_ite (.of_ite inferInstance ?_) inferInstance
    exact .of_ite inferInstance inferInstance
  unfold update
  infer_instance

theorem alike_sendFlightPlanCycle (h₀ : AllEquipped s₀) (hpilot : (s₀.heap user).getType = .pilot)
    (recipient : Ptr) : Guarded (Alike s₀) P (Server.sendFlightPlanCycle recipient user) := by
  obtain ⟨a, ha⟩ := derived_of_pilot hpilot
  obtain ⟨plan, hplan⟩ := Option.isSome_iff_exists.mp ((h₀ user).plan a ha)
  refine .of_run fun s hs => Or.inl ?_
  have hair : (s.heap user).asAircraft = some a :=
    asAircraft_of_derived ((hs.derived user).trans ha)
  exact ⟨_, _, sendFlightPlanCycle_run hair hplan recipient, Steady.push s _ _ hs⟩

theorem alike_updateOnlyQueues (h₀ : AllEquipped s₀) :
    Guarded (Alike s₀) P (updateOnlyQueues env user) := by
  refine .of_like fun s hs => ?_
  rw [updateOnlyQueues, run_bind_of_ok (getUser_run s user)]
  by_cases hqueued : (s.heap user).getType = .pilot ∧ (s.heap user).updateOnlyQueues 0
  · rw [if_pos hqueued]
    have hpilot : (s₀.heap user).getType = .pilot := by
      rw [← hqueued.1, User.getType, User.getType, hs.derived user]
    obtain ⟨a, ha⟩ := derived_of_pilot hpilot
    obtain ⟨plan, hplan⟩ := Option.isSome_iff_exists.mp ((h₀ user).plan a ha)
    have hair : (s.heap user).asAircraft = some a :=
      asAircraft_of_derived ((hs.derived user).trans ha)
    rw [run_bind_of_ok (getFlightPlan_run hair), hplan]
    refine ⟨Alike s₀, _, s, hs, fun _ h => h, ?_, rfl⟩
    have hsend (other : Ptr) : Guarded (Alike s₀) P (Server.sendFlightPlanCycle other user) :=
      alike_sendFlightPlanCycle user h₀ hpilot other
    have hclear : Guarded (Alike s₀) P (updateUser user fun u =>
        { u with updateOnlyQueues := Function.update u.updateOnlyQueues 0 false }) :=
      alike_updateUser user (fun _ => rfl) fun _ => rfl
    exact .of_bind inferInstance fun _ => hclear
  · rw [if_neg hqueued]
    exact ⟨Alike s₀, _, s, hs, fun _ h => h, .pure (), rfl⟩

theorem alike_globalUpdate (h₀ : AllEquipped s₀) :
    Guarded (Alike s₀) (Unsendable s₀) (globalUpdate env) := by
  have hlocal (user : Ptr) : Guarded (Alike s₀) (Unsendable s₀) (updateLocalUsers env user) := by
    unfold updateLocalUsers
    refine .of_bind inferInstance fun u => ?_
    exact guarded_iterateUsers env Steady.ticks (fun s hs => congrArg _ hs.clientManager)
      fun other hother => alike_visitUser env user other h₀ hother _
  have hflags (user : Ptr) : Guarded (Alike s₀) (Unsendable s₀) (passFlags user) := by
    unfold passFlags
    refine .of_bind inferInstance fun u => .of_ite ?_ inferInstance
    exact alike_updateUser user (fun _ => rfl) fun _ => rfl
  have hupdate (user : Ptr) : Guarded (Alike s₀) (Unsendable s₀) (update env user) :=
    alike_update env user
  have hqueues (user : Ptr) : Guarded (Alike s₀) (Unsendable s₀) (updateOnlyQueues env user) :=
    alike_updateOnlyQueues env user h₀
  have hreset (user : Ptr) : Guarded (Alike s₀) (Unsendable s₀) (resetRequired user) :=
    alike_updateUser user (fun _ => rfl) fun _ => rfl
  unfold globalUpdate
  infer_instance

end Pass

section Login

open HandshakePacket HandshakeOutcomes

theorem raises_respond {P : Fault → Prop} (clientSocket : Socket) (user : Ptr) (response : ℤ) :
    Raises P (respond clientSocket user response) := by
  refine ⟨fun s e t hrun => ?_⟩
  by_cases hresponse : response = 1
  · subst hresponse
    obtain ⟨_, hok, -⟩ := respond_accepted_run clientSocket s user
    rw [hok] at hrun
    cases hrun
  · obtain ⟨_, hok, -⟩ := respond_rejected_run clientSocket s user hresponse
    rw [hok] at hrun
    cases hrun

variable (clientSocket : Socket) (user : Option Ptr)

theorem raises_accept (f : Fields) : Raises (Excused user 45) (accept clientSocket f) := by
  have hnull : Fact (Excused user 45 (.undefined .nullUser)) := ⟨Or.inr rfl⟩
  have hrespond (u : Ptr) (response : ℤ) :
      Raises (Excused user 45) (respond clientSocket u response) :=
    raises_respond clientSocket u response
  unfold accept
  refine .of_ite ?_ inferInstance
  cases hid : stoi f.username with
  | error e =>
    have : Fact (Excused user 45 (.thrown e)) := by
      rcases stoi_error hid with rfl | rfl
      · exact ⟨rfl, rfl⟩
      · exact ⟨Or.inr ⟨rfl, rfl⟩⟩
    dsimp only
    infer_instance
  | ok id =>
    refine .of_bind inferInstance fun s => ?_
    cases initialUser (s.storage s.next) clientSocket f.type id with
    | none => infer_instance
    | some u =>
      have hallocate : Raises (Excused user 45) (allocate (f.fill (s.storage s.next) u)) := by
        unfold allocate; infer_instance
      have hassign (u : Ptr) : Raises (Excused user 45) (assignIndex u) := by
        unfold assignIndex; infer_instance
      exact .of_bind hallocate fun v => .of_bind (hassign v) fun _ => hrespond v _

theorem raises_handshake : Raises (Excused user 45) (HandshakePacket.handle clientSocket user) := by
  have := excused_text user (show 45 ∈ [2, 6, 7, 10, 12, 14, 45] by decide)
  have hdouble : Raises (Excused user 45) readDouble := by unfold readDouble; infer_instance
  have hfrequency : Raises (Excused user 45) readFrequency := by
    unfold readFrequency; infer_instance
  have htext : Raises (Excused user 45) readText := by unfold readText; infer_instance
  have htype (type : ℕ) : Raises (Excused user 45) (readTypeFields type) := by
    unfold readTypeFields; infer_instance
  have hfields : Raises (Excused user 45) readFields := by unfold readFields; infer_instance
  have haccept (f : Fields) := raises_accept clientSocket user f
  unfold HandshakePacket.handle
  infer_instance

end Login

section Runs

variable (env : Environment) {s : Server}

/-- What an event ends with, if it does not return. -/
def fault {σ : Type} : EStateM.Result Fault σ Unit → Option Fault
  | .ok _ _ => none
  | .error e _ => some e

def eventFault (env : Environment) (s : Server) : Event → Option Fault
  | .packet clientSocket id buf =>
    fault ((processPacket (registerPackets env) clientSocket id 0).run ⟨s, buf, []⟩)
  | .disconnect clientSocket => fault ((disconnectUser env clientSocket).run s)
  | .pass => fault ((globalUpdate env).run s)

/-- The ways in which an event can fail. -/
def Expected (s : Server) (e : Fault) : Event → Prop
  | .packet clientSocket id _ => Excused (s.clientManager.getUserBySocket clientSocket) id e
  | .disconnect _ => False
  | .pass => Unsendable s e

theorem handles_packet {packet : Packet} {id : ℕ} (hlogin : id ≠ 45)
    (hpacket : (registerPackets env).getPacket id = some packet) (clientSocket : Socket)
    (user : Option Ptr) : Handles user id (packet.handle clientSocket user) := by
  revert hlogin
  apply getPacket_byte_cases hpacket
  case handshake => exact fun hlogin => absurd rfl hlogin
  case pong => exact fun _ => .pure ()
  case pilotUpdate => exact fun _ => handles_pilotUpdate env clientSocket user
  case controllerUpdate => exact fun _ => handles_controllerUpdate env clientSocket user
  case transponder => exact fun _ => handles_transponder env clientSocket user
  case changeCycle => exact fun _ => handles_changeCycle clientSocket user
  case message => exact fun _ => handles_message env clientSocket user
  case pilotTitle => exact fun _ => handles_pilotTitle clientSocket user
  case clientMode => exact fun _ => handles_clientMode env clientSocket user
  case clientDisconnect => exact fun _ => handles_clientDisconnect clientSocket user
  case flightPlanUpdate => exact fun _ => handles_flightPlan clientSocket user
  case requestFlightPlan => exact fun _ => handles_requestFlightPlan clientSocket user
  case privateMsg => exact fun _ => handles_privateMessage clientSocket user
  case primeFreq => exact fun _ => handles_primeFreq env clientSocket user
  case tempData => exact fun _ => handles_tempData env clientSocket user

theorem untouched_derived : Untouched User.derived :=
  ⟨fun _ _ => rfl, fun _ _ => rfl, fun _ _ => rfl⟩

theorem untouched_scripts : Untouched User.scripts :=
  ⟨fun _ _ => rfl, fun _ _ => rfl, fun _ _ => rfl⟩

theorem equipped_new {u : User} (h : New u) : Equipped u :=
  ⟨h.plan, h.scripts ▸ slotted_init⟩

theorem AllEquipped.serve (h : AllEquipped s) (e : Event) :
    AllEquipped (TwoMemories.serve env s e) := by
  have hother {t : Server} (hderived : Same User.derived s t) (hscripts : Same User.scripts s t) :
      AllEquipped t := fun p => (h p).of_same (hderived p) (hscripts p)
  cases e with
  | packet clientSocket id buf =>
    by_cases hlogin : id = 45
    · subst hlogin
      rcases login_served env s clientSocket buf with hsame | hjoined
      · rw [hsame]
        exact h
      · intro p
        by_cases hp : p = s.next
        · rw [hp]
          exact equipped_new hjoined.new
        · rw [hjoined.old p hp]
          exact h p
    · cases hpacket : (registerPackets env).getPacket id with
      | none =>
        have hrun : TwoMemories.serve env s (.packet clientSocket id buf) = s := by
          simp only [TwoMemories.serve, processPacket, EStateM.run_bind, EStateM.run_get,
            EStateM.run_set, hpacket]
          rfl
        rw [hrun]
        exact h
      | some packet =>
        rw [TwoMemories.serve, TwoMemories.processPacket_run env clientSocket s buf hpacket]
        exact (handles_packet env hlogin hpacket clientSocket _).keeps ⟨s, buf, [(id, [])]⟩ h
  | disconnect clientSocket =>
    exact hother (disconnect_departed env s untouched_derived clientSocket).users
      (disconnect_departed env s untouched_scripts clientSocket).users
  | pass =>
    exact hother (pass_within env s untouched_derived).users
      (pass_within env s untouched_scripts).users

theorem equipped_initial (storage : Ptr → Storage) : AllEquipped (.initial storage) :=
  fun _ => ⟨nofun, slotted_init⟩

theorem equipped_run (storage : Ptr → Storage) (events : List (Environment × Event)) :
    AllEquipped (run storage events) :=
  foldl_inv (Q := AllEquipped) (fun _ e h => h.serve e.1 e.2) (equipped_initial storage) events

theorem error_of_fault {σ : Type} {r : EStateM.Result Fault σ Unit} {f : Fault}
    (h : fault r = some f) : ∃ t, r = .error f t := by
  cases r with
  | ok a t => cases h
  | error e t =>
    cases h
    exact ⟨t, rfl⟩

/-- An event can fail in the expected ways only. -/
theorem AllEquipped.expected (h : AllEquipped s) {e : Event} {f : Fault}
    (hfault : eventFault env s e = some f) : Expected s f e := by
  obtain ⟨clientSocket, id, buf⟩ | clientSocket | - := e
  · obtain ⟨t, ht⟩ := error_of_fault hfault
    cases hpacket : (registerPackets env).getPacket id with
    | none =>
      simp only [processPacket, EStateM.run_bind, EStateM.run_get, EStateM.run_set, hpacket] at ht
      cases ht
    | some packet =>
      rw [TwoMemories.processPacket_run env clientSocket s buf hpacket] at ht
      by_cases hlogin : id = 45
      · subst hlogin
        obtain rfl : examplePacket = packet := Option.some.inj hpacket
        exact (raises_handshake clientSocket _).raised _ f t ht
      · have hhandles := handles_packet env hlogin hpacket clientSocket
        exact (hhandles _).raised ⟨s, buf, [(id, [])]⟩ f t h ht
  · obtain ⟨t, ht⟩ := error_of_fault hfault
    cases hsocket : s.clientManager.getUserBySocket clientSocket with
    | none =>
      rw [disconnectUser, EStateM.run_bind, EStateM.run_get] at ht
      dsimp only at ht
      rw [hsocket] at ht
      cases ht
    | some user =>
      obtain ⟨r, hok, -⟩ := Departure.disconnectUser_run env hsocket
      rw [hok] at ht
      cases ht
  · obtain ⟨t, ht⟩ := error_of_fault hfault
    have halike : Alike s s := ⟨fun _ => rfl, fun _ => rfl, rfl⟩
    exact (alike_globalUpdate env h).raised s f t halike ht

/-- The fault of an event, if it has one, is an expected one. -/
def Explained (env : Environment) (s : Server) (e : Event) : Prop :=
  ∀ f, eventFault env s e = some f → Expected s f e

/-- The messages that an event adds. -/
def said (env : Environment) (s : Server) (e : Event) : List Outgoing :=
  ((serve env s e).sent.drop s.sent.length).map Sent.message

/-- The builder of a message fails, if it does, by writing past its stream, where a string of the
message does not fit, or at a script that cannot be cast. -/
def BuilderExplained (m : Outgoing) : Prop :=
  ∀ (block : List UInt8) (f : Fault) (t : BasicStream), block.length = m.preallocateSize →
    m.build.run (preallocated block) = .error f t →
      (f = .undefined .writePastEnd ∧ ∃ width, MessageCapacity.sizeWidth m = some width ∧
        ¬ (MessageCapacity.demands m).Fits (m.preallocateSize - (1 + width))) ∨
      ∃ about other script, m = .script about other script ∧ ¬ script.castable = true

end Runs

end Win64Server.Faults
