import Win64Server.Registry

/-!
Whether the maps of the registry agree. Every user in the map by socket should be found by its id,
its index and its callsign, and nothing else should be found. Placement overwrites whatever it
meets, so a login keeps the agreement exactly when its keys are those of no other user.
-/
namespace Win64Server.Registry

open Library

variable {κ : Type} [DecidableEq κ]

/-- Every lookup by a key of a connected user finds that user, and none finds anyone else. -/
structure Agrees (r : Registry) : Prop where
  byId : Mirrors r.manager.clients r.manager.usersById fun u => (r.heap u).id
  byIndex : Mirrors r.manager.clients r.manager.usersByIndex fun u => (r.heap u).index
  byCallsign :
    Mirrors r.manager.clients r.manager.usersByCallsign fun u => (r.heap u).identity.callsign

/-- The three lookups of the source agree with the one by socket. -/
theorem Agrees.getUser {r : Registry} (h : r.Agrees) {clientSocket : Socket} {u : Ptr}
    (hu : r.manager.getUserBySocket clientSocket = some u) :
    r.manager.getUserById (r.heap u).id = some u ∧
      r.manager.getUserByIndex (r.heap u).index = some u ∧
      r.manager.getUserByCallsign (r.heap u).identity.callsign = some u :=
  ⟨h.byId.finds _ u hu, h.byIndex.finds _ u hu, h.byCallsign.finds _ u hu⟩

/-- The login brings no key of another connected user, and none that differs from those of the
user its socket already has. -/
def Distinct (r : Registry) (clientSocket : Socket) (user : User) : Prop :=
  ∀ s u, r.manager.clients.lookup s = some u →
    ((r.heap u).id = user.id ↔ s = clientSocket) ∧
    ((r.heap u).index = r.nextIndex ↔ s = clientSocket) ∧
    ((r.heap u).identity.callsign = user.identity.callsign ↔ s = clientSocket)

theorem mirrors_login_iff {r : Registry} (clientSocket : Socket) (user : User)
    {index : AList fun _ : κ => Ptr} {key : User → κ} (hsound : r.Sound)
    (hfiled : r.Filed index key) (h : Mirrors r.manager.clients index fun u => key (r.heap u)) :
    Mirrors (r.login clientSocket user).manager.clients
        (index.insert (key (r.placed user)) r.next)
        (fun u => key ((r.login clientSocket user).heap u)) ↔
      ∀ s u, r.manager.clients.lookup s = some u →
        (key (r.heap u) = key (r.placed user) ↔ s = clientSocket) := by
  have hself : key ((r.login clientSocket user).heap r.next) = key (r.placed user) := by
    rw [login_heap_self]
  have hold : ∀ s u, r.manager.clients.lookup s = some u →
      key ((r.login clientSocket user).heap u) = key (r.heap u) := fun s u hu => by
    rw [login_heap_old _ _ _ (hsound.old s u hu)]
  have hkeyed : Keyed index fun u => key ((r.login clientSocket user).heap u) := by
    intro k u hu
    obtain ⟨hkey, hlt⟩ := hfiled k u hu
    change key _ = k
    rw [login_heap_old _ _ _ hlt, hkey]
  have hinsert := (h.congr hold).insert_iff (s := clientSocket) hkeyed hsound.once hsound.absent
  rw [hself] at hinsert
  rw [login_clients, hinsert]
  exact forall_congr' fun s => forall_congr' fun u => forall_congr' fun hu => by rw [hold s u hu]

/-- A login keeps the agreement exactly when its keys are distinct. -/
theorem Agrees.login_iff {r : Registry} (hsound : r.Sound) (h : r.Agrees) {clientSocket : Socket}
    {user : User} : (r.login clientSocket user).Agrees ↔ r.Distinct clientSocket user := by
  have hid := mirrors_login_iff clientSocket user hsound hsound.byId h.byId
  have hindex := mirrors_login_iff clientSocket user hsound hsound.byIndex h.byIndex
  have hcallsign := mirrors_login_iff clientSocket user hsound hsound.byCallsign h.byCallsign
  constructor
  · rintro ⟨hbyId, hbyIndex, hbyCallsign⟩ s u hu
    rw [login_usersById] at hbyId
    rw [login_usersByIndex] at hbyIndex
    rw [login_usersByCallsign] at hbyCallsign
    exact ⟨hid.mp hbyId s u hu, hindex.mp hbyIndex s u hu, hcallsign.mp hbyCallsign s u hu⟩
  · intro hdistinct
    refine ⟨?_, ?_, ?_⟩
    · rw [login_usersById]
      exact hid.mpr fun s u hu => (hdistinct s u hu).1
    · rw [login_usersByIndex]
      exact hindex.mpr fun s u hu => (hdistinct s u hu).2.1
    · rw [login_usersByCallsign]
      exact hcallsign.mpr fun s u hu => (hdistinct s u hu).2.2

theorem Filed.keyed {r : Registry} {index : AList fun _ : κ => Ptr} {key : User → κ}
    (h : r.Filed index key) : Keyed index fun u => key (r.heap u) :=
  fun k u hu => (h k u hu).1

/-- A removal keeps it in any case. -/
theorem Agrees.remove {r : Registry} (hsound : r.Sound) (h : r.Agrees) {clientSocket : Socket} :
    (r.remove clientSocket).Agrees := by
  cases hu : r.manager.clients.lookup clientSocket with
  | none => rwa [remove_of_none hu]
  | some u =>
    rw [remove_of_some hu]
    exact ⟨h.byId.erase hsound.byId.keyed hsound.once hu,
      h.byIndex.erase hsound.byIndex.keyed hsound.once hu,
      h.byCallsign.erase hsound.byCallsign.keyed hsound.once hu⟩

theorem agrees_start : start.Agrees where
  byId := ⟨fun s u hu => (by cases hu), fun k u hu => (by cases hu)⟩
  byIndex := ⟨fun s u hu => (by cases hu), fun k u hu => (by cases hu)⟩
  byCallsign := ⟨fun s u hu => (by cases hu), fun k u hu => (by cases hu)⟩

/-- In a run from an empty registry the maps agree after every step exactly when every login
brings distinct keys. -/
theorem agrees_along_run_iff (events : List Event) :
    (∀ before, before <+: events → (start.run before).Agrees) ↔
      ∀ before clientSocket user, before ++ [.login clientSocket user] <+: events →
        (start.run before).Distinct clientSocket user := by
  refine along_logins_iff (fun r event h _ => h.step event) ?_ ?_ sound_start agrees_start events
  · intro r clientSocket user hsound h
    exact h.login_iff hsound
  · intro r clientSocket hsound h
    exact h.remove hsound

/-- A controller with the id 7 and the callsign of one letter. -/
def sameUser : User :=
  let u := User.construct .zeroed 1 7 (.controller ⟨0, 0⟩)
  { u with identity := { u.identity with callsign := [65] } }

/-- The same id and callsign on a second socket: the first user is no longer found by either. -/
theorem second_login_disagrees : ¬ ∀ events, (start.run events).Agrees := by
  intro h
  have hfinds := (h [.login 1 sameUser, .login 2 sameUser]).byId.finds 1 0 rfl
  exact absurd hfinds (by decide)

end Win64Server.Registry
