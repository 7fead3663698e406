import Win64Server.HandshakeOutcomes
import Win64Server.Library.Runs
import Win64Server.Library.SecondaryIndex

/-!
The registry of connected users over whole runs of logins and removals. A login allocates a user
object, takes an index for it and places it under its four keys; a removal takes the user of a
socket out again and gives its index back. The two invariants the registry is meant to have are
each kept by a step exactly under a condition on the state before it.
-/
namespace Win64Server

open Outcome Library

/-- The part of the server that logins and removals work on. -/
structure Registry where
  heap : Ptr → User
  next : Ptr
  manager : ClientManager

def Server.registry (s : Server) : Registry := ⟨s.heap, s.next, s.clientManager⟩

namespace Registry

/-- An accepted handshake, with the user it makes in everything but the index, or a removal. -/
inductive Event
  | login (clientSocket : Socket) (user : User)
  | remove (clientSocket : Socket)

/-- `provide_index`, then `provide_placement` of the new object. -/
def login (r : Registry) (clientSocket : Socket) (user : User) : Registry :=
  let (index, manager) := r.manager.provideIndex
  let heap := Function.update r.heap r.next { user with index := index }
  { heap := heap
    next := r.next + 1
    manager := manager.providePlacement clientSocket r.next heap }

def remove (r : Registry) (clientSocket : Socket) : Registry :=
  { r with manager := r.manager.removeUser clientSocket r.heap }

def step (r : Registry) : Event → Registry
  | .login clientSocket user => r.login clientSocket user
  | .remove clientSocket => r.remove clientSocket

def run (r : Registry) (events : List Event) : Registry := events.foldl step r

/-- The registry of a server before its first connection. -/
def start : Registry := (Server.initial fun _ => .zeroed).registry

theorem run_concat (r : Registry) (events : List Event) (event : Event) :
    r.run (events ++ [event]) = (r.run events).step event := by
  simp [run]

variable {κ : Type} [DecidableEq κ]

/-- The users of a map are filed under their own keys and older than the next allocation. -/
def Filed (r : Registry) (index : AList fun _ : κ => Ptr) (key : User → κ) : Prop :=
  ∀ k u, index.lookup k = some u → key (r.heap u) = k ∧ u < r.next

/-- What holds of every registry a run reaches; no user object is on two sockets. -/
structure Sound (r : Registry) : Prop where
  once : Once r.manager.clients
  old : ∀ s u, r.manager.clients.lookup s = some u → u < r.next
  byId : r.Filed r.manager.usersById User.id
  byIndex : r.Filed r.manager.usersByIndex User.index
  byCallsign : r.Filed r.manager.usersByCallsign fun u => u.identity.callsign

/-- The index the next login takes. -/
def nextIndex (r : Registry) : ℤ := r.manager.provideIndex.1

/-- The user object a login places. -/
def placed (r : Registry) (user : User) : User := { user with index := r.nextIndex }

section Login

variable (r : Registry) (clientSocket : Socket) (user : User)

theorem login_heap :
    (r.login clientSocket user).heap = Function.update r.heap r.next (r.placed user) := rfl

theorem login_next : (r.login clientSocket user).next = r.next + 1 := rfl

@[simp] theorem login_heap_self : (r.login clientSocket user).heap r.next = r.placed user := by
  simp [login_heap]

theorem login_heap_old {u : Ptr} (h : u < r.next) :
    (r.login clientSocket user).heap u = r.heap u := by
  rw [login_heap, Function.update_of_ne (Nat.ne_of_lt h)]

theorem provideIndex_maps :
    r.manager.provideIndex.2.clients = r.manager.clients ∧
    r.manager.provideIndex.2.usersById = r.manager.usersById ∧
    r.manager.provideIndex.2.usersByIndex = r.manager.usersByIndex ∧
    r.manager.provideIndex.2.usersByCallsign = r.manager.usersByCallsign := by
  unfold ClientManager.provideIndex ClientManager.getAvailableIndex
  cases r.manager.availableIndices <;> exact ⟨rfl, rfl, rfl, rfl⟩

theorem login_clients :
    (r.login clientSocket user).manager.clients = r.manager.clients.insert clientSocket r.next := by
  rw [← r.provideIndex_maps.1]
  rfl

theorem login_usersById :
    (r.login clientSocket user).manager.usersById = r.manager.usersById.insert user.id r.next := by
  rw [← r.provideIndex_maps.2.1, ← show (r.placed user).id = user.id from rfl,
    ← r.login_heap_self clientSocket user]
  rfl

theorem login_usersByIndex :
    (r.login clientSocket user).manager.usersByIndex =
      r.manager.usersByIndex.insert r.nextIndex r.next := by
  rw [← r.provideIndex_maps.2.2.1, ← show (r.placed user).index = r.nextIndex from rfl,
    ← r.login_heap_self clientSocket user]
  rfl

theorem login_usersByCallsign :
    (r.login clientSocket user).manager.usersByCallsign =
      r.manager.usersByCallsign.insert user.identity.callsign r.next := by
  rw [← r.provideIndex_maps.2.2.2,
    ← show (r.placed user).identity.callsign = user.identity.callsign from rfl,
    ← r.login_heap_self clientSocket user]
  rfl

variable {r clientSocket user}

theorem Filed.login {index : AList fun _ : κ => Ptr} {key : User → κ} (h : r.Filed index key) :
    (r.login clientSocket user).Filed (index.insert (key (r.placed user)) r.next) key := by
  intro k u hu
  rw [login_next]
  rcases lookup_insert_iff.mp hu with ⟨rfl, rfl⟩ | ⟨-, hold⟩
  · exact ⟨by rw [login_heap_self], Nat.lt_succ_self _⟩
  · obtain ⟨hkey, hlt⟩ := h k u hold
    exact ⟨by rw [login_heap_old _ _ _ hlt, hkey], Nat.lt_succ_of_lt hlt⟩

theorem Sound.absent (h : r.Sound) : Absent r.manager.clients r.next :=
  fun s hs => Nat.lt_irrefl _ (h.old s _ hs)

theorem Sound.login (h : r.Sound) : (r.login clientSocket user).Sound where
  once := by
    rw [login_clients]
    exact h.once.insert h.absent
  old s u hu := by
    rw [login_clients] at hu
    rw [login_next]
    rcases lookup_insert_iff.mp hu with ⟨-, rfl⟩ | ⟨-, hold⟩
    · exact Nat.lt_succ_self _
    · exact Nat.lt_succ_of_lt (h.old s u hold)
  byId := by
    rw [login_usersById]
    exact h.byId.login
  byIndex := by
    rw [login_usersByIndex]
    exact h.byIndex.login
  byCallsign := by
    rw [login_usersByCallsign]
    exact h.byCallsign.login

end Login

section Remove

variable {r : Registry} {clientSocket : Socket} {u : Ptr}

theorem remove_of_none (h : r.manager.clients.lookup clientSocket = none) :
    r.remove clientSocket = r := by
  simp only [remove, ClientManager.removeUser, h]

theorem remove_of_some (h : r.manager.clients.lookup clientSocket = some u) :
    r.remove clientSocket =
      { r with manager :=
          { clients := r.manager.clients.erase clientSocket
            usersById := r.manager.usersById.erase (r.heap u).id
            usersByIndex := r.manager.usersByIndex.erase (r.heap u).index
            usersByCallsign := r.manager.usersByCallsign.erase (r.heap u).identity.callsign
            availableIndices := r.manager.availableIndices ++ [(r.heap u).index] } } := by
  simp only [remove, ClientManager.removeUser, h]

theorem Sound.remove (h : r.Sound) : (r.remove clientSocket).Sound := by
  cases hu : r.manager.clients.lookup clientSocket with
  | none => rwa [remove_of_none hu]
  | some u =>
    rw [remove_of_some hu]
    exact {
      once := h.once.erase clientSocket
      old := fun s v hv => h.old s v (lookup_erase_iff.mp hv).2
      byId := fun k v hv => h.byId k v (lookup_erase_iff.mp hv).2
      byIndex := fun k v hv => h.byIndex k v (lookup_erase_iff.mp hv).2
      byCallsign := fun k v hv => h.byCallsign k v (lookup_erase_iff.mp hv).2 }

end Remove

theorem sound_start : start.Sound where
  once s s' u hs := by cases hs
  old s u hs := by cases hs
  byId k u hu := by cases hu
  byIndex k u hu := by cases hu
  byCallsign k u hu := by cases hu

theorem Sound.step {r : Registry} (h : r.Sound) (event : Event) : (r.step event).Sound := by
  cases event with
  | login clientSocket user => exact h.login
  | remove clientSocket => exact h.remove

section Along

variable {Inv P : Registry → Prop} {C : Registry → Socket → User → Prop}

/-- A condition on logins, as one on all events. -/
def OnLogin (C : Registry → Socket → User → Prop) (r : Registry) : Event → Prop
  | .login clientSocket user => C r clientSocket user
  | .remove _ => True

/-- A property that a removal keeps, and a login exactly under a condition, holds after every step
of a run exactly when all its logins meet the condition. -/
theorem along_logins_iff (hinv : ∀ r event, Inv r → P r → Inv (r.step event))
    (hlogin : ∀ r clientSocket user, Inv r → P r →
      (P (r.login clientSocket user) ↔ C r clientSocket user))
    (hremove : ∀ r clientSocket, Inv r → P r → P (r.remove clientSocket))
    (hInv : Inv start) (hP : P start) (events : List Event) :
    (∀ before, before <+: events → P (start.run before)) ↔
      ∀ before clientSocket user, before ++ [.login clientSocket user] <+: events →
        C (start.run before) clientSocket user := by
  have hstep : ∀ r event, Inv r → P r → (P (r.step event) ↔ OnLogin C r event) := by
    intro r event h hr
    cases event with
    | login clientSocket user => exact hlogin r clientSocket user h hr
    | remove clientSocket => exact iff_of_true (hremove r clientSocket h hr) trivial
  have hrun := along_run_iff hinv hstep hInv hP events
  refine hrun.trans ⟨fun h before clientSocket user => h before _, fun h before event hpre => ?_⟩
  cases event with
  | login clientSocket user => exact h before clientSocket user hpre
  | remove clientSocket => trivial

end Along

theorem initialUser_id {storage : Storage} {clientSocket : Socket} {userType id : ℤ} {u : User}
    (h : HandshakePacket.initialUser storage clientSocket userType id = some u) : u.id = id := by
  unfold HandshakePacket.initialUser at h
  split at h <;> cases h <;> rfl

/-- The handshake handler, when it accepts, does to the registry what a login does. -/
theorem accept_registry {s t : Server} {clientSocket : Socket} {f : HandshakePacket.Fields}
    (hversion : f.protoVersion = protoVersion) (hpassword : 0 ∉ f.password)
    (hrun : (HandshakePacket.accept clientSocket f).run s = .ok () t) :
    ∃ user, t.registry = s.registry.login clientSocket user ∧
      user.identity.callsign = f.callSign ∧ stoi f.username = .ok user.id := by
  by_cases hmakes : HandshakeOutcomes.MakesUser f.type f.username
  · obtain ⟨id, u, hid, hnew, hrespond⟩ :=
      HandshakeOutcomes.accept_makes (s := s) clientSocket hpassword hmakes
    rw [hrespond, if_neg (not_not.mpr hversion)] at hrun
    cases hrun
    refine ⟨f.fill (s.storage s.next) u, rfl, rfl, ?_⟩
    rw [hid]
    exact congrArg _ (initialUser_id hnew).symm
  · obtain ⟨e, hstop⟩ := HandshakeOutcomes.accept_stops (s := s) clientSocket hpassword hmakes
    rw [hstop] at hrun
    cases hrun

end Registry

end Win64Server
