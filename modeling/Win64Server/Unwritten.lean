import Win64Server.FlightPlanVersions
import Win64Server.ServerEffects
import Win64Server.Library.TwoRuns

/-!
Members of a user object that can be read before anything is stored in them. Two servers whose
objects were placed in different memory are alike when they differ in these members only; what is
known of a member is that its two values agree. Every operation that reads no such member, or only
known ones, keeps two servers alike and has them send the same messages.
-/
namespace Win64Server.Unwritten

open Outcome Server FlightPlanUpdate

inductive Member
  | updateRequired
  | lastPositionUpdate
  | groundSpeed
  | altitude
  | flightRules
  | cycle
deriving DecidableEq

/-- The values of these members. -/
structure Contents where
  updateRequired : Bool
  lastPositionUpdate : ℤ
  groundSpeed : ℤ
  altitude : Double
  flightRules : ℤ
  cycle : ℤ

/-- One of the members has the same value twice. -/
def Contents.Same (x y : Contents) : Member → Prop
  | .updateRequired => x.updateRequired = y.updateRequired
  | .lastPositionUpdate => x.lastPositionUpdate = y.lastPositionUpdate
  | .groundSpeed => x.groundSpeed = y.groundSpeed
  | .altitude => x.altitude = y.altitude
  | .flightRules => x.flightRules = y.flightRules
  | .cycle => x.cycle = y.cycle

instance (x y : Contents) (m : Member) : Decidable (x.Same y m) := by
  cases m <;> unfold Contents.Same <;> infer_instance

def contentsOfStorage (storage : Storage) : Contents where
  updateRequired := storage.updateRequired
  lastPositionUpdate := storage.lastPositionUpdate
  groundSpeed := storage.state.groundSpeed
  altitude := storage.state.altitude
  flightRules := storage.flightRules
  cycle := storage.cycle

/-- What an object without an aircraft or without a plan lacks is zero. -/
def contents (u : User) : Contents where
  updateRequired := u.updateRequired
  lastPositionUpdate := u.lastPositionUpdate
  groundSpeed := (u.asAircraft.map fun a => a.state.groundSpeed).getD 0
  altitude := (u.asAircraft.map fun a => a.state.altitude).getD ⟨0⟩
  flightRules := ((u.asAircraft.bind Aircraft.flightPlan).map FlightPlan.flightRules).getD 0
  cycle := ((u.asAircraft.bind Aircraft.flightPlan).map FlightPlan.cycle).getD 0

def hidePlan (plan : FlightPlan) : FlightPlan := { plan with flightRules := 0, cycle := 0 }

def hideAircraft (a : Aircraft) : Aircraft :=
  { a with
    state := { a.state with groundSpeed := 0, altitude := ⟨0⟩ }
    flightPlan := a.flightPlan.map hidePlan }

def hideDerived : Derived → Derived
  | .controller c => .controller c
  | .aircraft a => .aircraft (hideAircraft a)

/-- The user without these members. `triggerUpdate` goes with them: what reads it changes
nothing. -/
def hide (u : User) : User :=
  { u with
    lastPositionUpdate := 0, updateRequired := false, triggerUpdate := false
    derived := hideDerived u.derived }

/-- Which members of which users are known. -/
abbrev Known := Ptr → Member → Bool

/-- Two users that differ in unknown members only. -/
structure Twins (known : Member → Bool) (u v : User) : Prop where
  hidden : hide u = hide v
  same : ∀ m, known m = true → (contents u).Same (contents v) m

/-- Two messages whose builders do the same. -/
def Alike (m m' : Outgoing) : Prop :=
  m.preallocateSize = m'.preallocateSize ∧ m.build = m'.build

/-- Every value of a map is a user that has been allocated. -/
def Below {κ : Type} [DecidableEq κ] (n : Ptr) (m : AList fun _ : κ => Ptr) : Prop :=
  ∀ k u, m.lookup k = some u → u < n

structure Registered (n : Ptr) (cm : ClientManager) : Prop where
  clients : Below n cm.clients
  usersByIndex : Below n cm.usersByIndex
  usersByCallsign : Below n cm.usersByCallsign

theorem Below.mono {κ : Type} [DecidableEq κ] {n n' : Ptr} {m : AList fun _ : κ => Ptr}
    (h : Below n m) (hle : n ≤ n') : Below n' m := fun k u hu => lt_of_lt_of_le (h k u hu) hle

theorem Below.insert {κ : Type} [DecidableEq κ] {n : Ptr} {m : AList fun _ : κ => Ptr}
    (h : Below n m) {user : Ptr} (huser : user < n) (key : κ) : Below n (m.insert key user) := by
  intro k u hu
  by_cases hk : k = key
  · subst hk
    rw [AList.lookup_insert] at hu
    obtain rfl := Option.some.inj hu
    exact huser
  · rw [AList.lookup_insert_ne hk] at hu
    exact h k u hu

theorem Below.erase {κ : Type} [DecidableEq κ] {n : Ptr} {m : AList fun _ : κ => Ptr}
    (h : Below n m) (key : κ) : Below n (m.erase key) := by
  intro k u hu
  by_cases hk : k = key
  · subst hk
    rw [AList.lookup_erase] at hu
    cases hu
  · rw [AList.lookup_erase_ne hk] at hu
    exact h k u hu

/-- Two memories, what is known, and how many users have been allocated. -/
structure Comparison where
  storage : Ptr → Storage
  storage' : Ptr → Storage
  known : Known
  next : Ptr

/-- Two servers with the two memories that are the same but for unknown members. -/
structure Parallel (c : Comparison) (s t : Server) : Prop where
  storage : s.storage = c.storage
  storage' : t.storage = c.storage'
  next : s.next = c.next
  rest : { t with heap := s.heap, storage := s.storage, sent := s.sent } = s
  registered : Registered c.next s.clientManager
  users : ∀ p, p < c.next → Twins (c.known p) (s.heap p) (t.heap p)
  localUsers : ∀ p, p < c.next → ∀ v ∈ (s.heap p).localUsers, v < c.next
  sent : List.Forall₂ (fun e e' : Sent => e.recipient = e'.recipient ∧ Alike e.message e'.message)
    s.sent t.sent

section Users

variable {known : Member → Bool} {u v : User} {a : Aircraft}

@[simp] theorem hide_getType (u : User) : (hide u).getType = u.getType := by
  unfold User.getType hide
  cases u.derived <;> rfl

theorem hide_asAircraft (u : User) : (hide u).asAircraft = u.asAircraft.map hideAircraft := by
  unfold User.asAircraft hide
  cases u.derived <;> rfl

/-- What does not depend on these members is the same. -/
theorem Twins.congr {α : Type} (h : Twins known u v) (F : User → α)
    (hF : ∀ w, F (hide w) = F w) : F u = F v := by
  rw [← hF u, h.hidden, hF]

theorem Twins.getType (h : Twins known u v) : u.getType = v.getType :=
  h.congr User.getType hide_getType

theorem Twins.asAircraft_none (h : Twins known u v) (hnone : u.asAircraft = none) :
    v.asAircraft = none := by
  have hmap : v.asAircraft.map hideAircraft = none := by
    rw [← hide_asAircraft, ← h.hidden, hide_asAircraft, hnone]
    rfl
  exact Option.map_eq_none_iff.mp hmap

/-- The aircraft of twins, and what of them is the same. -/
structure TwinAircraft (known : Member → Bool) (a b : Aircraft) : Prop where
  hidden : hideAircraft a = hideAircraft b
  groundSpeed : known .groundSpeed = true → a.state.groundSpeed = b.state.groundSpeed
  altitude : known .altitude = true → a.state.altitude = b.state.altitude
  flightRules : known .flightRules = true →
    (a.flightPlan.map FlightPlan.flightRules).getD 0 =
      (b.flightPlan.map FlightPlan.flightRules).getD 0
  cycle : known .cycle = true →
    (a.flightPlan.map FlightPlan.cycle).getD 0 = (b.flightPlan.map FlightPlan.cycle).getD 0

theorem Twins.asAircraft_some (h : Twins known u v) (ha : u.asAircraft = some a) :
    ∃ b, v.asAircraft = some b ∧ TwinAircraft known a b := by
  have hmap : v.asAircraft.map hideAircraft = some (hideAircraft a) := by
    rw [← hide_asAircraft, ← h.hidden, hide_asAircraft, ha]
    rfl
  obtain ⟨b, hb, hhide⟩ := Option.map_eq_some_iff.mp hmap
  refine ⟨b, hb, hhide.symm, fun hk => ?_, fun hk => ?_, fun hk => ?_, fun hk => ?_⟩
  all_goals
    have hsame := h.same _ hk
    simpa only [Contents.Same, contents, ha, hb, Option.map_some, Option.getD_some,
      Option.bind_some] using hsame

/-- Twins are of one subclass. -/
theorem Twins.derived (h : Twins known u v) :
    (∃ x y, u.derived = .controller x ∧ v.derived = .controller y) ∨
      ∃ a b, u.derived = .aircraft a ∧ v.derived = .aircraft b ∧ TwinAircraft known a b := by
  cases ha : u.asAircraft with
  | none =>
    obtain ⟨x, hx⟩ := derived_of_none ha
    obtain ⟨y, hy⟩ := derived_of_none (h.asAircraft_none ha)
    exact Or.inl ⟨x, y, hx, hy⟩
  | some a =>
    obtain ⟨b, hb, hab⟩ := h.asAircraft_some ha
    exact Or.inr ⟨a, b, derived_of_asAircraft ha, derived_of_asAircraft hb, hab⟩

/-- The state without what is unknown of it. -/
theorem TwinAircraft.state {b : Aircraft} (h : TwinAircraft known a b)
    (hspeed : known .groundSpeed = true) (haltitude : known .altitude = true) :
    a.state = b.state := by
  have hhide := congrArg Aircraft.state h.hidden
  have hspeed' := h.groundSpeed hspeed
  have haltitude' := h.altitude haltitude
  cases ha : a.state
  cases hb : b.state
  simp_all [hideAircraft]

theorem TwinAircraft.flightPlan_none {b : Aircraft} (h : TwinAircraft known a b)
    (hnone : a.flightPlan = none) : b.flightPlan = none := by
  have hmap : b.flightPlan.map hidePlan = none := by
    rw [← Option.map_eq_none_iff.mpr hnone]
    exact (congrArg Aircraft.flightPlan h.hidden).symm
  exact Option.map_eq_none_iff.mp hmap

/-- The plans of twins; where both numbers are known, it is the same plan. -/
theorem TwinAircraft.flightPlan_some {b : Aircraft} (h : TwinAircraft known a b)
    {plan : FlightPlan} (hplan : a.flightPlan = some plan) :
    ∃ plan', b.flightPlan = some plan' ∧ hidePlan plan = hidePlan plan' ∧
      (known .cycle = true → plan.cycle = plan'.cycle) ∧
      (known .cycle = true → known .flightRules = true → plan = plan') := by
  have hmap : b.flightPlan.map hidePlan = some (hidePlan plan) := by
    have hhide := congrArg Aircraft.flightPlan h.hidden
    simp only [hideAircraft, hplan, Option.map_some] at hhide
    exact hhide.symm
  obtain ⟨plan', hplan', hhide⟩ := Option.map_eq_some_iff.mp hmap
  have hcycle (hk : known .cycle = true) : plan.cycle = plan'.cycle := by
    simpa only [hplan, hplan', Option.map_some, Option.getD_some] using h.cycle hk
  refine ⟨plan', hplan', hhide.symm, hcycle, fun hk hk' => ?_⟩
  have hrules : plan.flightRules = plan'.flightRules := by
    simpa only [hplan, hplan', Option.map_some, Option.getD_some] using h.flightRules hk'
  have hnumbers := hcycle hk
  cases plan
  cases plan'
  simp_all [hidePlan]

end Users

section Messages

variable {known : Member → Bool} {u v : User} {a b : Aircraft}

theorem Alike.refl (m : Outgoing) : Alike m m := ⟨rfl, rfl⟩

theorem congr_of_hideAircraft {α : Type} (h : hideAircraft a = hideAircraft b) (F : Aircraft → α)
    (hF : ∀ c, F (hideAircraft c) = F c) : F a = F b := by
  rw [← hF a, h, hF]

theorem createClient_hide (u : User) :
    Win64Server.createClient (hide u) = Win64Server.createClient u := by
  unfold Win64Server.createClient
  rw [hide_getType]
  unfold hide
  cases u.derived <;> rfl

theorem Twins.createClient (h : Twins known u v) (p : Ptr) :
    Alike (.createClient p u) (.createClient p v) :=
  ⟨rfl, h.congr Win64Server.createClient createClient_hide⟩

theorem Twins.deleteClient (h : Twins known u v) (p : Ptr) :
    Alike (.deleteClient p u) (.deleteClient p v) :=
  ⟨rfl, h.congr Win64Server.deleteClient fun _ => rfl⟩

theorem Twins.controllerUpdate (h : Twins known u v) (p : Ptr) :
    Alike (.controllerUpdate p u) (.controllerUpdate p v) :=
  ⟨rfl, h.congr Win64Server.sendControllerUpdate fun _ => rfl⟩

theorem Twins.pilotUpdate (h : Twins known u v) (p : Ptr) (hstate : a.state = b.state) :
    Alike (.pilotUpdate p u a) (.pilotUpdate p v b) := by
  have huser : Win64Server.sendPilotUpdate u a = Win64Server.sendPilotUpdate v a :=
    h.congr (Win64Server.sendPilotUpdate · a) fun _ => rfl
  have haircraft : Win64Server.sendPilotUpdate v a = Win64Server.sendPilotUpdate v b := by
    unfold Win64Server.sendPilotUpdate
    rw [hstate]
  exact ⟨rfl, huser.trans haircraft⟩

theorem Twins.message (h : Twins known u v) (p : Ptr) (frequency : ℤ) (text : CxxString)
    (asel : Bool) : Alike (.message p u frequency text asel) (.message p v frequency text asel) :=
  ⟨rfl, h.congr (Win64Server.sendMessage · frequency text asel) fun _ => rfl⟩

theorem Twins.clientModeChange (h : Twins known u v) (p : Ptr)
    (haircraft : hideAircraft a = hideAircraft b) :
    Alike (.clientModeChange p u a) (.clientModeChange p v b) := by
  have huser : Win64Server.sendClientModeChange u a = Win64Server.sendClientModeChange v a :=
    h.congr (Win64Server.sendClientModeChange · a) fun _ => rfl
  exact ⟨rfl, huser.trans (congr_of_hideAircraft haircraft _ fun _ => rfl)⟩

theorem Twins.clientTransponder (h : Twins known u v) (p : Ptr)
    (haircraft : hideAircraft a = hideAircraft b) :
    Alike (.clientTransponder p u a) (.clientTransponder p v b) := by
  have huser : Win64Server.sendClientTransponder u a = Win64Server.sendClientTransponder v a :=
    h.congr (Win64Server.sendClientTransponder · a) fun _ => rfl
  exact ⟨rfl, huser.trans (congr_of_hideAircraft haircraft _ fun _ => rfl)⟩

theorem Twins.flightPlanCycle (h : Twins known u v) (p : Ptr) (plan : FlightPlan) :
    Alike (.flightPlanCycle p u plan) (.flightPlanCycle p v plan) := by
  have hindex : u.index = v.index := h.congr User.index fun _ => rfl
  refine ⟨rfl, ?_⟩
  change Win64Server.sendFlightPlanCycle u plan = Win64Server.sendFlightPlanCycle v plan
  unfold Win64Server.sendFlightPlanCycle
  rw [hindex, h.getType]

theorem Twins.primFreq (h : Twins known u v) (p : Ptr) : Alike (.primFreq p u) (.primFreq p v) :=
  ⟨rfl, h.congr Win64Server.sendPrimFreq fun _ => rfl⟩

theorem Twins.script (h : Twins known u v) (p : Ptr) (script : ClientScript) :
    Alike (.script p u script) (.script p v script) :=
  ⟨rfl, h.congr (Win64Server.sendScript · script) fun _ => rfl⟩

theorem Twins.removeScript (h : Twins known u v) (p : Ptr) (idx : ℤ) :
    Alike (.removeScript p u idx) (.removeScript p v idx) :=
  ⟨rfl, h.congr (Win64Server.sendRemoveScript · idx) fun _ => rfl⟩

end Messages

section Servers

variable {c : Comparison} {s t : Server} {p : Ptr}

namespace Parallel

theorem congr {α : Type} (h : Parallel c s t) (F : Server → α)
    (hF : ∀ (r : Server) (heap : Ptr → User) (storage : Ptr → Storage) (sent : List Sent),
      F { r with heap := heap, storage := storage, sent := sent } = F r) : F t = F s := by
  rw [← hF t s.heap s.storage s.sent, h.rest]

theorem clientManager (h : Parallel c s t) : t.clientManager = s.clientManager :=
  h.congr Server.clientManager fun _ _ _ _ => rfl

theorem ticks (h : Parallel c s t) : t.ticks = s.ticks := h.congr Server.ticks fun _ _ _ _ => rfl

/-- Both servers change the same user, about which other things may be known afterwards. -/
theorem modifyUser_known (h : Parallel c s t) {f g : User → User} {known : Member → Bool}
    (htwins : Twins (c.known p) (s.heap p) (t.heap p) →
      Twins known (f (s.heap p)) (g (t.heap p)))
    (hlocals : ∀ v ∈ (f (s.heap p)).localUsers, v ∈ (s.heap p).localUsers ∨ v < c.next) :
    Parallel { c with known := Function.update c.known p known } (s.modifyUser p f)
      (t.modifyUser p g) where
  storage := h.storage
  storage' := h.storage'
  next := h.next
  rest := congrArg (fun r : Server => { r with heap := (s.modifyUser p f).heap }) h.rest
  registered := h.registered
  users q hq := by
    dsimp only
    by_cases hqp : q = p
    · subst hqp
      rw [modifyUser_heap_self, modifyUser_heap_self, Function.update_self]
      exact htwins (h.users q hq)
    · rw [modifyUser_heap_ne _ _ _ _ hqp, modifyUser_heap_ne _ _ _ _ hqp,
        Function.update_of_ne hqp]
      exact h.users q hq
  localUsers q hq v hv := by
    by_cases hqp : q = p
    · subst hqp
      rw [modifyUser_heap_self] at hv
      exact (hlocals v hv).elim (h.localUsers q hq v) id
    · rw [modifyUser_heap_ne _ _ _ _ hqp] at hv
      exact h.localUsers q hq v hv
  sent := h.sent

/-- Both servers change the same user. -/
theorem modifyUser (h : Parallel c s t) {f g : User → User}
    (htwins : Twins (c.known p) (s.heap p) (t.heap p) →
      Twins (c.known p) (f (s.heap p)) (g (t.heap p)))
    (hlocals : ∀ v ∈ (f (s.heap p)).localUsers, v ∈ (s.heap p).localUsers ∨ v < c.next) :
    Parallel c (s.modifyUser p f) (t.modifyUser p g) := by
  have hknown := h.modifyUser_known htwins hlocals
  rw [Function.update_eq_self] at hknown
  exact hknown

/-- Less may be known, and nothing matters about users that have not been allocated. -/
theorem mono (h : Parallel c s t) {known : Known}
    (hknown : ∀ q, q < c.next → ∀ m, known q m = true → c.known q m = true) :
    Parallel { c with known := known } s t :=
  { h with users := fun q hq =>
      ⟨(h.users q hq).hidden, fun m hm => (h.users q hq).same m (hknown q hq m hm)⟩ }

theorem push (h : Parallel c s t) {m m' : Outgoing} (hm : Alike m m') :
    Parallel c (s.push p m) (t.push p m') where
  storage := h.storage
  storage' := h.storage'
  next := h.next
  rest := congrArg (fun r : Server => r.push p m) h.rest
  registered := h.registered
  users := h.users
  localUsers := h.localUsers
  sent := List.rel_append h.sent (List.Forall₂.cons ⟨rfl, hm⟩ .nil)

theorem setTicks (h : Parallel c s t) (n : ℕ) :
    Parallel c { s with ticks := n } { t with ticks := n } :=
  { h with rest := congrArg (fun r : Server => { r with ticks := n }) h.rest }

end Parallel

end Servers

section Operations

variable {c : Comparison} {α : Type} {p : Ptr}

/-- What follows sees twins. -/
theorem coupled_getUser_bind {f g : User → ServerM α} (hp : p < c.next)
    (hf : ∀ u v, Twins (c.known p) u v → (∀ q ∈ u.localUsers, q < c.next) →
      Coupled (Parallel c) (f u) (g v)) :
    Coupled (Parallel c) (getUser p >>= f) (getUser p >>= g) := by
  intro s t h
  rw [run_bind_of_ok (getUser_run s p), run_bind_of_ok (getUser_run t p)]
  exact hf _ _ (h.users p hp) (h.localUsers p hp) s t h

/-- A change that neither depends on the members nor touches them. -/
theorem Twins.map {known : Member → Bool} {u v : User} (h : Twins known u v) {f : User → User}
    (hhide : ∀ w, hide (f w) = f (hide w)) (hcontents : ∀ w, contents (f w) = contents w) :
    Twins known (f u) (f v) where
  hidden := by rw [hhide, hhide, h.hidden]
  same m hm := by
    rw [hcontents, hcontents]
    exact h.same m hm

theorem coupled_updateUser {f : User → User} (hhide : ∀ w, hide (f w) = f (hide w))
    (hcontents : ∀ w, contents (f w) = contents w)
    (hlocals : ∀ w, (f w).localUsers = w.localUsers) :
    Coupled (Parallel c) (updateUser p f) (updateUser p f) := by
  refine .modify fun s t h => h.modifyUser (fun htwins => htwins.map hhide hcontents) fun v hv => ?_
  rw [hlocals] at hv
  exact Or.inl hv

theorem coupled_send {m m' : Outgoing} (hm : Alike m m') :
    Coupled (Parallel c) (send p m) (send p m') :=
  .modify fun _ _ h => h.push hm

theorem coupled_arranged_bind (env : Environment) {users : List Ptr}
    {f g : List Ptr → ServerM α}
    (hf : ∀ order, order.Perm users → Coupled (Parallel c) (f order) (g order)) :
    Coupled (Parallel c) (arranged env users >>= f) (arranged env users >>= g) := by
  intro s t h
  rw [run_bind_of_ok (arranged_run s env users), run_bind_of_ok (arranged_run t env users), h.ticks]
  exact hf _ (env.arrange_perm _ _) _ _ (h.setTicks _)

theorem coupled_iterateLocalUsers (env : Environment) {func func' : Ptr → ServerM Unit}
    (hp : p < c.next)
    (hfunc : ∀ other, other < c.next → Coupled (Parallel c) (func other) (func' other)) :
    Coupled (Parallel c) (iterateLocalUsers env p func) (iterateLocalUsers env p func') := by
  refine coupled_getUser_bind hp fun u v htwins hlocals => ?_
  have hkeys : u.localUsers.keys = v.localUsers.keys :=
    htwins.congr (fun w => w.localUsers.keys) fun _ => rfl
  rw [← hkeys]
  refine coupled_arranged_bind env fun order horder => .forM fun other hother => ?_
  exact hfunc other (hlocals other (AList.mem_keys.mpr (horder.mem_iff.mp hother)))

/-- The users of the registry have been allocated. -/
theorem Parallel.users_lt {s t : Server} (h : Parallel c s t) :
    ∀ user ∈ s.clientManager.users, user < c.next := by
  intro user huser
  obtain ⟨clientSocket, hlookup⟩ := ClientManager.mem_users.mp huser
  exact h.registered.clients clientSocket user hlookup

theorem coupled_iterateUsers (env : Environment) {func func' : Ptr → ServerM Unit}
    (hfunc : ∀ user, user < c.next → Coupled (Parallel c) (func user) (func' user)) :
    Coupled (Parallel c) (iterateUsers env func) (iterateUsers env func') := by
  refine .get_bind fun s t h => ?_
  rw [h.clientManager]
  refine coupled_arranged_bind env (fun order horder => .forM fun user huser => ?_) s t h
  exact hfunc user (h.users_lt user (horder.mem_iff.mp huser))

theorem coupled_getAircraft_bind {f g : Aircraft → ServerM α} (hp : p < c.next)
    (hf : ∀ a b, TwinAircraft (c.known p) a b → Coupled (Parallel c) (f a) (g b)) :
    Coupled (Parallel c) (getAircraft p >>= f) (getAircraft p >>= g) := by
  unfold getAircraft
  rw [bind_assoc, bind_assoc]
  refine coupled_getUser_bind hp fun u v htwins _ => ?_
  cases ha : u.asAircraft with
  | none =>
    rw [htwins.asAircraft_none ha]
    exact fun s t h => .error _ h
  | some a =>
    obtain ⟨b, hb, hab⟩ := htwins.asAircraft_some ha
    rw [hb]
    exact hf a b hab

theorem coupled_createClient (user : Ptr) (hp : p < c.next) :
    Coupled (Parallel c) (Server.createClient user p) (Server.createClient user p) :=
  coupled_getUser_bind hp fun _ _ htwins _ => coupled_send (htwins.createClient p)

theorem coupled_deleteClient (user : Ptr) (hp : p < c.next) :
    Coupled (Parallel c) (Server.deleteClient user p) (Server.deleteClient user p) :=
  coupled_getUser_bind hp fun _ _ htwins _ => coupled_send (htwins.deleteClient p)

theorem coupled_sendClientTransponder (user : Ptr) (hp : p < c.next) {a b : Aircraft}
    (haircraft : hideAircraft a = hideAircraft b) :
    Coupled (Parallel c) (Server.sendClientTransponder user p a)
      (Server.sendClientTransponder user p b) :=
  coupled_getUser_bind hp fun _ _ htwins _ => coupled_send (htwins.clientTransponder p haircraft)

theorem coupled_sendClientModeChange (user : Ptr) (hp : p < c.next) {a b : Aircraft}
    (haircraft : hideAircraft a = hideAircraft b) :
    Coupled (Parallel c) (Server.sendClientModeChange user p a)
      (Server.sendClientModeChange user p b) :=
  coupled_getUser_bind hp fun _ _ htwins _ => coupled_send (htwins.clientModeChange p haircraft)

theorem coupled_sendPrimFreq (user : Ptr) (hp : p < c.next) :
    Coupled (Parallel c) (Server.sendPrimFreq user p) (Server.sendPrimFreq user p) :=
  coupled_getUser_bind hp fun _ _ htwins _ => coupled_send (htwins.primFreq p)

theorem coupled_sendMessage (user : Ptr) (hp : p < c.next) (frequency : ℤ) (text : CxxString)
    (asel : Bool) :
    Coupled (Parallel c) (Server.sendMessage user p frequency text asel)
      (Server.sendMessage user p frequency text asel) :=
  coupled_getUser_bind hp fun _ _ htwins _ => coupled_send (htwins.message p frequency text asel)

theorem coupled_sendScript (user : Ptr) (hp : p < c.next) (script : ClientScript) :
    Coupled (Parallel c) (Server.sendScript user p script) (Server.sendScript user p script) :=
  coupled_getUser_bind hp fun _ _ htwins _ =>
    .ite (coupled_send (htwins.script p script)) (.throw _)

theorem coupled_sendRemoveScript (user : Ptr) (hp : p < c.next) (idx : ℤ) :
    Coupled (Parallel c) (Server.sendRemoveScript user p idx)
      (Server.sendRemoveScript user p idx) :=
  coupled_getUser_bind hp fun _ _ htwins _ => coupled_send (htwins.removeScript p idx)

/-- A message for every script of a user. -/
theorem coupled_forScripts (hp : p < c.next) {f : Option ClientScript → ServerM Unit}
    (hf : ∀ script, Coupled (Parallel c) (f script) (f script)) :
    Coupled (Parallel c) (getUser p >>= fun u => u.scripts.getAllScripts.forM f)
      (getUser p >>= fun u => u.scripts.getAllScripts.forM f) := by
  refine coupled_getUser_bind hp fun u v htwins _ => ?_
  rw [htwins.congr (fun w => w.scripts.getAllScripts) fun _ => rfl]
  exact .forM fun script _ => hf script

theorem coupled_sendScripts (user : Ptr) (hp : p < c.next) :
    Coupled (Parallel c) (sendScripts user p) (sendScripts user p) := by
  refine coupled_forScripts hp fun script => ?_
  cases script with
  | some script => exact coupled_sendScript user hp script
  | none => exact .throw _

theorem coupled_sendRemoveScripts (user : Ptr) (hp : p < c.next) :
    Coupled (Parallel c) (sendRemoveScripts user p) (sendRemoveScripts user p) := by
  refine coupled_forScripts hp fun script => ?_
  cases script with
  | some script => exact coupled_sendRemoveScript user hp script.idx
  | none => exact .throw _

theorem coupled_lowerInterval (hp : p < c.next) (reqInterval : ℤ) :
    Coupled (Parallel c) (lowerInterval p reqInterval) (lowerInterval p reqInterval) := by
  refine coupled_getUser_bind hp fun u v htwins _ => ?_
  rw [htwins.congr User.updateInterval fun _ => rfl]
  refine .ite (.bind ?_ fun _ => coupled_send (.refl _)) (.pure ())
  exact coupled_updateUser (fun _ => rfl) (fun _ => rfl) fun _ => rfl

/-- What a user asks of users of one type does not depend on the members. -/
theorem Twins.requested {known : Member → Bool} {u v : User} (h : Twins known u v)
    (type : AvClient) : u.getRequestedInterval type = v.getRequestedInterval type :=
  h.congr (fun w => w.getRequestedInterval type) fun _ => by cases type <;> rfl

theorem coupled_adjustTime (env : Environment) (hp : p < c.next) :
    Coupled (Parallel c) (adjustTime env p) (adjustTime env p) := by
  refine coupled_getUser_bind hp fun u v htwins hlocals => ?_
  have hkeys : u.localUsers.keys = v.localUsers.keys :=
    htwins.congr (fun w => w.localUsers.keys) fun _ => rfl
  rw [← hkeys, htwins.getType]
  refine coupled_arranged_bind env fun order horder => .get_bind fun s t h => ?_
  have hrequests : (order.map fun other => (s.heap other).getRequestedInterval v.getType) =
      order.map fun other => (t.heap other).getRequestedInterval v.getType := by
    refine List.map_congr_left fun other hother => Twins.requested (h.users other ?_) _
    exact hlocals other (AList.mem_keys.mpr (horder.mem_iff.mp hother))
  rw [hrequests, htwins.congr User.updateInterval fun _ => rfl]
  refine Coupled.ite (.bind ?_ fun _ => coupled_send (.refl _)) (.pure ()) s t h
  exact coupled_updateUser (fun _ => rfl) (fun _ => rfl) fun _ => rfl

theorem coupled_registerScript (env : Environment) (hp : p < c.next) (script : ClientScript) :
    Coupled (Parallel c) (registerScript env p script) (registerScript env p script) := by
  refine coupled_getUser_bind hp fun u v htwins _ => ?_
  rw [htwins.congr (fun w => w.scripts) fun _ => rfl]
  cases v.scripts.addScript script with
  | error e => exact .throw _
  | ok added =>
    refine .bind (coupled_updateUser (fun _ => rfl) (fun _ => rfl) fun _ => rfl) fun _ => ?_
    refine .bind (coupled_sendScript p hp _) fun _ => ?_
    exact coupled_iterateLocalUsers env hp fun other _ => coupled_sendScript other hp _

end Operations

end Win64Server.Unwritten
