import Win64Server.Departure
import Win64Server.Permissions
import Win64Server.Registry
import Win64Server.TwoMemories

/-!
What one event does to the server. A login makes at most one user object and says nothing about
any other; every other packet stays within its permission; a pass of the update changes the
intervals, the local users and the queue flags of users and the messages; a disconnect takes one
user out of the registry. What holds of the server along every run is derived from these facts.
-/
namespace Win64Server.ServerSteps

open Outcome Library Server Frames Permissions PositionClock TwoMemories

/-- All users show the same to `g`, and the registry and the memory are the same. -/
structure Within {α : Type} (g : User → α) (s t : Server) : Prop where
  users : Same g s t
  next : t.next = s.next
  storage : t.storage = s.storage
  clientManager : t.clientManager = s.clientManager

instance {α : Type} (g : User → α) : Frame g (Within g) where
  refl _ := ⟨fun _ => rfl, rfl, rfl, rfl⟩
  trans _ _ _ h h' := ⟨fun p => (h'.users p).trans (h.users p), h'.next.trans h.next,
    h'.storage.trans h.storage, h'.clientManager.trans h.clientManager⟩
  push _ _ _ := ⟨fun _ => rfl, rfl, rfl, rfl⟩
  ticks _ _ := ⟨fun _ => rfl, rfl, rfl, rfl⟩
  modifyUser _ _ _ hf := ⟨modifyUser_frame hf, rfl, rfl, rfl⟩

/-- A user as a login leaves it; a pilot gets a plan along with the fields of its type. -/
structure New (u : User) : Prop where
  localUsers : u.localUsers = ∅
  scripts : u.scripts = .init
  plan : ∀ a, u.derived = .aircraft a → a.flightPlan.isSome

/-- What is said to a new user is about nobody. -/
def Greeting (user : Ptr) (e : Sent) : Prop :=
  e.recipient = user ∧ e.message.about = none ∧
    ∀ sender text, e.message ≠ .privateMessage sender text

/-- A login that is turned down has made a user and taken an index too. -/
def refuse (r : Registry) (user : User) : Registry where
  heap := Function.update r.heap r.next (r.placed user)
  next := r.next + 1
  manager := r.manager.provideIndex.2

/-- One user object has been made and answered. -/
structure Joined (clientSocket : Socket) (s t : Server) : Prop where
  registry : ∃ user, t.registry = s.registry.login clientSocket user ∨
    t.registry = refuse s.registry user
  next : t.next = s.next + 1
  old : ∀ p ≠ s.next, t.heap p = s.heap p
  new : New (t.heap s.next)
  clients : ∀ c, t.clientManager.getUserBySocket c = s.clientManager.getUserBySocket c ∨
    (c = clientSocket ∧ t.clientManager.getUserBySocket c = some s.next)
  callsigns : ∀ c, t.clientManager.getUserByCallsign c = s.clientManager.getUserByCallsign c ∨
    t.clientManager.getUserByCallsign c = some s.next
  indices : ∀ i, t.clientManager.getUserByIndex i = s.clientManager.getUserByIndex i ∨
    t.clientManager.getUserByIndex i = some s.next
  sent : ∃ new, t.sent = s.sent ++ new ∧ ∀ e ∈ new, Greeting s.next e

section Login

open HandshakePacket HandshakeOutcomes

variable {clientSocket : Socket} {x y : Session} {f : Fields} {s : Server}

/-- A value that a program returns has the property. -/
def Yields {α : Type} (program : HandlerM α) (P : α → Prop) : Prop :=
  ∀ x a y, program.run x = .ok a y → P a

theorem Yields.bind {α β : Type} {program : HandlerM α} {f : α → HandlerM β} {P : β → Prop}
    (h : ∀ a, Yields (f a) P) : Yields (program >>= f) P := by
  intro x b y hrun
  obtain ⟨a, u, -, hrest⟩ := run_bind_ok.mp hrun
  exact h a u b y hrest

theorem Yields.pure {α : Type} {a : α} {P : α → Prop} (h : P a) : Yields (pure a) P := by
  intro x b y hrun
  cases hrun
  exact h

/-- The fields of a pilot. -/
def OfPilot : TypeFields → Prop
  | .pilot _ _ _ _ _ => True
  | _ => False

theorem yields_readTypeFields (type : ℕ) :
    Yields (readTypeFields type) fun fields => type = 1 → OfPilot fields := by
  unfold readTypeFields
  by_cases hcontroller : type = 0
  · rw [if_pos hcontroller]
    exact .bind fun rating => .bind fun position => .pure fun htype => by omega
  · rw [if_neg hcontroller]
    by_cases hpilot : type = 1
    · rw [if_pos hpilot]
      exact .bind fun rating => .bind fun acfTitle => .bind fun transponder =>
        .bind fun modeHeavy => .bind fun hash => .pure fun _ => trivial
    · rw [if_neg hpilot]
      exact .pure fun htype => absurd htype hpilot

/-- The fields of a pilot are read when the type is that of a pilot. -/
theorem yields_readFields : Yields readFields fun f => f.type = 1 → OfPilot f.typeFields := by
  unfold readFields
  refine .bind fun protoVersion => .bind fun callSign => .bind fun loginName => ?_
  refine .bind fun username => .bind fun password => .bind fun requestTime => ?_
  refine .bind fun latitude => .bind fun longitude => .bind fun visibility => ?_
  refine .bind fun type => .bind fun first => .bind fun second => fun x f y hrun => ?_
  obtain ⟨fields, z, hfields, hpure⟩ := run_bind_ok.mp hrun
  obtain rfl := (EStateM.Result.ok.inj hpure).1
  intro htype
  have hone : (type : ℤ) = 1 := htype
  exact yields_readTypeFields type x fields z hfields (by exact_mod_cast hone)

theorem new_fill {storage : Storage} {id : ℤ} {u : User}
    (hu : initialUser storage clientSocket f.type id = some u)
    (hpilot : f.type = 1 → OfPilot f.typeFields) (index : ℤ) :
    New { f.fill storage u with index := index } := by
  unfold initialUser at hu
  split at hu
  · next htype =>
    cases hu
    have hone : f.type = 1 := by
      unfold AvClient.ofInt at htype
      split at htype
      · cases htype
      · assumption
      · cases htype
    refine ⟨rfl, rfl, fun a ha => ?_⟩
    cases hfields : f.typeFields with
    | pilot rating acfTitle transponder modeHeavy hash =>
      simp only [Fields.fill, Fields.setDerived, User.construct, hfields] at ha
      cases ha
      rfl
    | controller rating position =>
      have hof := hpilot hone
      rw [hfields] at hof
      exact hof.elim
    | none =>
      have hof := hpilot hone
      rw [hfields] at hof
      exact hof.elim
  · cases hu
    refine ⟨rfl, rfl, fun a ha => ?_⟩
    simp only [Fields.fill, Fields.setDerived, User.construct] at ha
    split at ha <;> cases ha
  · cases hu

theorem enroll_self {u : User} :
    (enroll s u).heap s.next = { u with index := s.clientManager.provideIndex.1 } :=
  Function.update_self ..

theorem enroll_ne {u : User} {p : Ptr} (hp : p ≠ s.next) : (enroll s u).heap p = s.heap p :=
  Function.update_of_ne hp ..

theorem lookup_insert_cases {κ : Type} [DecidableEq κ] (m : AList fun _ : κ => Ptr) (key k : κ)
    (v : Ptr) :
    (m.insert key v).lookup k = m.lookup k ∨ k = key ∧ (m.insert key v).lookup k = some v := by
  by_cases hk : k = key
  · rw [hk]
    exact Or.inr ⟨rfl, AList.lookup_insert m⟩
  · exact Or.inl (AList.lookup_insert_ne hk)

/-- The right version is answered, and the user is put into the maps under each of its keys. -/
theorem joined_accepted {u : User} (hnew : ∀ index, New { u with index := index }) :
    Joined clientSocket s (finalState ((respond clientSocket s.next 1).run (enroll s u))) := by
  obtain ⟨hclients, -, hindices, hcallsigns⟩ := s.registry.provideIndex_maps
  let greeted := (((enroll s u).push s.next (.handshakeAccepted 1
    ((enroll s u).heap s.next).index ((enroll s u).heap s.next).updateInterval)).push s.next
      (.serverMessage welcomeMessage)).push s.next (.serverMessage rulesMessage)
  have hrun : (respond clientSocket s.next 1).run (enroll s u) = .ok () { greeted with
      clientManager := greeted.clientManager.providePlacement clientSocket s.next
        greeted.heap } := rfl
  rw [hrun, finalState_ok]
  refine ⟨⟨u, Or.inl rfl⟩, rfl, fun p => enroll_ne, enroll_self ▸ hnew _, fun c => ?_, fun c => ?_,
    fun i => ?_, ⟨_, by simp only [greeted, push_sent, List.append_assoc]; rfl, fun e he => ?_⟩⟩
  · exact (lookup_insert_cases _ clientSocket c s.next).imp_left
      fun h => h.trans (congrArg (AList.lookup c) hclients)
  · exact (lookup_insert_cases _ (greeted.heap s.next).identity.callsign c s.next).imp
      (fun h => h.trans (congrArg (AList.lookup c) hcallsigns)) And.right
  · exact (lookup_insert_cases _ (greeted.heap s.next).index i s.next).imp
      (fun h => h.trans (congrArg (AList.lookup i) hindices)) And.right
  · simp only [List.mem_append, List.mem_singleton] at he
    rcases he with rfl | rfl | rfl <;> exact ⟨rfl, rfl, fun _ _ h => by cases h⟩

/-- Another version is told so, and its socket is closed. -/
theorem joined_rejected {u : User} (hnew : ∀ index, New { u with index := index }) {response : ℤ}
    (hresponse : response ≠ 1) :
    Joined clientSocket s
      (finalState ((respond clientSocket s.next response).run (enroll s u))) := by
  obtain ⟨hclients, -, hindices, hcallsigns⟩ := s.registry.provideIndex_maps
  obtain ⟨t, hremove, hheap, hnext, hmanager, hsent⟩ := removeClientSocket_run
    ((enroll s u).push s.next (.handshakeRejected response)) clientSocket true
  have hrun : (respond clientSocket s.next response).run (enroll s u) = .ok () t := by
    rw [respond, if_neg hresponse]
    exact hremove
  rw [hrun, finalState_ok]
  refine ⟨⟨u, Or.inr ?_⟩, hnext, fun p hp => ?_, ?_, fun c => Or.inl ?_, fun c => Or.inl ?_,
    fun i => Or.inl ?_, _, hsent, fun e he => ?_⟩
  · rw [Server.registry, hheap, hnext, hmanager]
    rfl
  · rw [hheap]
    exact enroll_ne hp
  · rw [hheap]
    exact enroll_self ▸ hnew _
  · rw [hmanager]
    exact congrArg (AList.lookup c) hclients
  · rw [hmanager]
    exact congrArg (AList.lookup c) hcallsigns
  · rw [hmanager]
    exact congrArg (AList.lookup i) hindices
  · rw [List.mem_singleton.mp he]
    exact ⟨rfl, rfl, fun _ _ h => by cases h⟩

/-- The user has been made and has an index; the reply comes next. -/
theorem joined_respond {u : User} (hnew : ∀ index, New { u with index := index }) (response : ℤ) :
    Joined clientSocket s
      (finalState ((respond clientSocket s.next response).run (enroll s u))) := by
  by_cases hresponse : response = 1
  · rw [hresponse]
    exact joined_accepted hnew
  · exact joined_rejected hnew hresponse

theorem joined_accept (hpilot : f.type = 1 → OfPilot f.typeFields) :
    finalState ((accept clientSocket f).run s) = s ∨
      Joined clientSocket s (finalState ((accept clientSocket f).run s)) := by
  unfold accept
  split
  · cases stoi f.username with
    | error e => exact Or.inl rfl
    | ok id =>
      rw [EStateM.run_bind, EStateM.run_get]
      dsimp only
      cases hu : initialUser (s.storage s.next) clientSocket f.type id with
      | none => exact Or.inl rfl
      | some u =>
        have hjoined : Joined clientSocket s (finalState
            ((respond clientSocket s.next (if f.protoVersion ≠ protoVersion then 2 else 1)).run
              (enroll s (f.fill (s.storage s.next) u)))) :=
          joined_respond (new_fill hu hpilot) _
        refine Or.inr ?_
        simpa [allocate, assignIndex, Server.updateUser, Server.modifyUser, enroll] using hjoined
  · exact Or.inl rfl

theorem getPacket_login (env : Environment) :
    (registerPackets env).getPacket (45 : ℕ) = some examplePacket := by
  rw [getPacket_registerPackets]
  rfl

/-- A login leaves the server alone or makes one user. -/
theorem login_served (env : Environment) (s : Server) (clientSocket : Socket) (buf : BasicStream) :
    serve env s (.packet clientSocket 45 buf) = s ∨
      Joined clientSocket s (serve env s (.packet clientSocket 45 buf)) := by
  have hserve : serve env s (.packet clientSocket 45 buf) = (finalState
      ((handle clientSocket (s.clientManager.getUserBySocket clientSocket)).run
        ⟨s, buf, [(45, [])]⟩)).server := by
    rw [serve, TwoMemories.processPacket_run env clientSocket s buf (getPacket_login env)]
    rfl
  rw [hserve, handle]
  have hreads := ((kept_readFields (R := Eq)).keeps ⟨s, buf, [(45, [])]⟩).1
  cases hrun : readFields.run ⟨s, buf, [(45, [])]⟩ with
  | error e y =>
    rw [hrun, finalState_error] at hreads
    rw [run_bind_of_error hrun, finalState_error]
    exact Or.inl hreads.symm
  | ok f y =>
    rw [hrun, finalState_ok] at hreads
    obtain rfl : s = y.server := hreads
    rw [run_bind_of_ok hrun, finalState_onServer]
    exact joined_accept (yields_readFields _ f y hrun)

end Login

/-- Any other packet stays within its permission. A packet that asks for an interval of a type past
the array is undefined in the source, which stores behind the array; here its handler stops. -/
theorem packet_served (env : Environment) (s : Server) (clientSocket : Socket) {id : ℕ}
    (hlogin : id ≠ 45) (buf : BasicStream) :
    Acted (permission s clientSocket id buf) s (serve env s (.packet clientSocket id buf)) :=
  packet_acted clientSocket ⟨s, buf, []⟩ env hlogin 0

section Updates

variable {α : Type} {g : User → α} (env : Environment) (s : Server)

/-- A pass shows nothing to a function that does not look at the members it changes. -/
theorem pass_within (hg : Untouched g) : Within g s (serve env s .pass) :=
  (kept_globalUpdate env hg).keeps s

/-- A registration that is still there has been there before. -/
structure Departed {α : Type} (g : User → α) (s t : Server) : Prop where
  users : Same g s t
  next : t.next = s.next
  clients : ∀ c u, t.clientManager.getUserBySocket c = some u →
    s.clientManager.getUserBySocket c = some u
  callsigns : ∀ c u, t.clientManager.getUserByCallsign c = some u →
    s.clientManager.getUserByCallsign c = some u
  indices : ∀ i u, t.clientManager.getUserByIndex i = some u →
    s.clientManager.getUserByIndex i = some u

theorem Departed.of_within {s t : Server} (h : Within g s t) : Departed g s t :=
  ⟨h.users, h.next, fun _ _ hu => h.clientManager ▸ hu, fun _ _ hu => h.clientManager ▸ hu,
    fun _ _ hu => h.clientManager ▸ hu⟩

theorem lookup_of_erase {κ : Type} [DecidableEq κ] {l : AList fun _ : κ => Ptr} {k c : κ} {u : Ptr}
    (h : (l.erase k).lookup c = some u) : l.lookup c = some u := by
  by_cases hc : c = k
  · rw [hc, AList.lookup_erase] at h
    cases h
  · rwa [AList.lookup_erase_ne hc] at h

theorem Departed.removeUser {s t : Server} (h : Departed g s t) (clientSocket : Socket) :
    Departed g s { t with clientManager := t.clientManager.removeUser clientSocket t.heap } := by
  unfold ClientManager.removeUser
  cases t.clientManager.clients.lookup clientSocket with
  | none => exact h
  | some user =>
    exact ⟨h.users, h.next, fun c u hu => h.clients c u (lookup_of_erase hu),
      fun c u hu => h.callsigns c u (lookup_of_erase hu),
      fun i u hu => h.indices i u (lookup_of_erase hu)⟩

theorem kept_farewell (hg : Untouched g) (user other : Ptr) :
    Kept (Within g) (Departure.farewell env user other) := by
  have hforget : Kept (Within g)
      (updateUser other fun o => { o with localUsers := o.localUsers.erase user }) :=
    kept_updateUser other fun o => hg.localUsers o _
  have hadjust : Kept (Within g) (adjustTime env other) :=
    kept_adjustTime hg.updateInterval env other
  unfold Departure.farewell
  infer_instance

omit g in
/-- A departure leaves the server alone, or it comes to the end of its loop and then takes the
user out of the registry. -/
theorem disconnect_served (clientSocket : Socket) :
    serve env s (.disconnect clientSocket) = s ∨
      ∃ user m, s.clientManager.getUserBySocket clientSocket = some user ∧
        (iterateLocalUsers env user (Departure.farewell env user)).run s = .ok () m ∧
        serve env s (.disconnect clientSocket) =
          { m with clientManager := m.clientManager.removeUser clientSocket m.heap } := by
  rw [serve, disconnectUser, EStateM.run_bind, EStateM.run_get]
  dsimp only
  cases hsocket : s.clientManager.getUserBySocket clientSocket with
  | none => exact Or.inl rfl
  | some user =>
    dsimp only
    split
    · obtain ⟨m, hloop, -⟩ := Departure.forM_farewell_cleans env user
        (env.arrange s.ticks (s.heap user).localUsers.keys) { s with ticks := s.ticks + 1 }
      have hiterate : (iterateLocalUsers env user (Departure.farewell env user)).run s = .ok () m :=
        hloop
      exact Or.inr ⟨user, m, rfl, hiterate, congrArg finalState (run_bind_of_ok hiterate)⟩
    · exact Or.inl rfl

theorem disconnect_departed (hg : Untouched g) (clientSocket : Socket) :
    Departed g s (serve env s (.disconnect clientSocket)) := by
  rcases disconnect_served env s clientSocket with hsame | ⟨user, m, -, hloop, hserve⟩
  · rw [hsame]
    exact .of_within (Std.Refl.refl s)
  · have hround (other : Ptr) : Kept (Within g) (Departure.farewell env user other) :=
      kept_farewell env hg user other
    have hkept : Kept (Within g) (iterateLocalUsers env user (Departure.farewell env user)) :=
      inferInstance
    rw [hserve]
    exact (Departed.of_within (hkept.keeps.ok hloop)).removeUser clientSocket

end Updates

end Win64Server.ServerSteps
