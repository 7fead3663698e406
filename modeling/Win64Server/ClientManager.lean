import Win64Server.User

/-!
The registry of connected users: four maps from the keys of a user to its object, and the queue
of free client indices. The methods read the keys of a user through the object heap.
-/
namespace Win64Server

def maxClients : ℕ := 250

structure ClientManager where
  clients : AList (fun _ : Socket => Ptr)
  usersById : AList (fun _ : ℤ => Ptr)
  usersByIndex : AList (fun _ : ℤ => Ptr)
  usersByCallsign : AList (fun _ : CxxString => Ptr)
  availableIndices : List ℤ

namespace ClientManager

/-- `ClientManager(max_clients)`. -/
def construct (max : ℕ) : ClientManager where
  clients := ∅
  usersById := ∅
  usersByIndex := ∅
  usersByCallsign := ∅
  availableIndices := (List.range max).map Int.ofNat

/-- The front of the queue, or -1 when it is empty. -/
def getAvailableIndex (cm : ClientManager) : ℤ × ClientManager :=
  match cm.availableIndices with
  | [] => (-1, cm)
  | index :: rest => (index, { cm with availableIndices := rest })

/-- The branch on -1 in the source returns the same value as the line after it. -/
def provideIndex (cm : ClientManager) : ℤ × ClientManager := cm.getAvailableIndex

def providePlacement (cm : ClientManager) (clientSocket : Socket) (user : Ptr)
    (heap : Ptr → User) : ClientManager :=
  { cm with
    clients := cm.clients.insert clientSocket user
    usersById := cm.usersById.insert (heap user).id user
    usersByIndex := cm.usersByIndex.insert (heap user).index user
    usersByCallsign := cm.usersByCallsign.insert (heap user).identity.callsign user }

def removeUser (cm : ClientManager) (clientSocket : Socket) (heap : Ptr → User) :
    ClientManager :=
  match cm.clients.lookup clientSocket with
  | none => cm
  | some user =>
    { clients := cm.clients.erase clientSocket
      usersById := cm.usersById.erase (heap user).id
      usersByIndex := cm.usersByIndex.erase (heap user).index
      usersByCallsign := cm.usersByCallsign.erase (heap user).identity.callsign
      availableIndices := cm.availableIndices ++ [(heap user).index] }

def getUserById (cm : ClientManager) (id : ℤ) : Option Ptr := cm.usersById.lookup id

def getUserByIndex (cm : ClientManager) (index : ℤ) : Option Ptr := cm.usersByIndex.lookup index

def getUserBySocket (cm : ClientManager) (clientSocket : Socket) : Option Ptr :=
  cm.clients.lookup clientSocket

def getUserByCallsign (cm : ClientManager) (callsign : CxxString) : Option Ptr :=
  cm.usersByCallsign.lookup callsign

/-- The objects `iterate_users` goes over. -/
def users (cm : ClientManager) : List Ptr := cm.clients.entries.map Sigma.snd

theorem mem_users {cm : ClientManager} {user : Ptr} :
    user ∈ cm.users ↔ ∃ clientSocket, cm.clients.lookup clientSocket = some user := by
  simp only [users, List.mem_map, Sigma.exists, exists_eq_right]
  exact exists_congr fun clientSocket => AList.mem_lookup_iff.symm

theorem provideIndex_users (cm : ClientManager) : cm.provideIndex.2.users = cm.users := by
  unfold provideIndex getAvailableIndex
  split <;> rfl

end ClientManager

end Win64Server
