import Win64Server.Library.LockOrder
import Win64Server.User

/-!
The locks of the server. Each function is reduced to the blocks in which it holds a lock and what
it calls there; where it branches or loops on data, any way is possible. Apart from one, all
functions take their locks in one order, so that the threads never wait for each other in a
circle. The exception is a handshake that is rejected: its worker asks for the mutex of the
sockets while it holds it already.
-/
namespace Win64Server.LockUse

open Relation Function Library Locking

/-- The mutexes; those of a user's object by the user. -/
inductive Lock
  | clientSocketsMutex
  | timedTasksMutex
  | dataMutex
  | lastPacketReceivedMutex
  | clientMutex
  | idMutex
  | indexMutex
  | callsignMutex
  | queueMutex
  | localMutex (user : Ptr)
  | scriptsMutex (user : Ptr)
  | sendDataMutex (user : Ptr)
  | tasksMutex

open Lock

abbrev Code := Locking Lock Ptr

/-- `std::unique_lock` or `std::lock_guard` to the end of a block. -/
def unique (lock : Lock) (body : Code) : Code := scope lock .exclusive body

/-- `std::shared_lock` to the end of a block. -/
def shared (lock : Lock) (body : Code) : Code := scope lock .shared body

section ClientManager

def getAvailableIndex : Code := unique queueMutex skip

def providePlacement : Code :=
  unique clientMutex <| unique idMutex <| unique indexMutex <| unique callsignMutex skip

def getUserByIndex : Code := shared indexMutex skip

def getUserBySocket : Code := shared clientMutex skip

def getUserByCallsign : Code := shared callsignMutex skip

def iterateUsers (func : Ptr → Code) : Code := shared clientMutex (loop (choose func))

end ClientManager

section Users

/-- The end of every sender. -/
def write (user : Ptr) : Code := unique (sendDataMutex user) skip

def iterateLocalUsers (user : Ptr) (func : Ptr → Code) : Code :=
  shared (localMutex user) (loop (choose func))

/-- `addScript`, `getScript`, `deleteScript` and `getAllScripts`. -/
def scriptIndex (user : Ptr) : Code := unique (scriptsMutex user) skip

def registerScript (user : Ptr) : Code :=
  sequence [scriptIndex user, write user, iterateLocalUsers user write]

def unregisterScript (user : Ptr) : Code :=
  sequence [scriptIndex user, write user, iterateLocalUsers user write]

def adjustTime (user : Ptr) : Code :=
  seq (iterateLocalUsers user fun _ => skip) (optional (write user))

end Users

section Updates

def containsUser (user : Ptr) : Code := shared (localMutex user) skip

/-- `send_scripts` and `send_remove_scripts`. -/
def sendScripts (user scriptsUser : Ptr) : Code :=
  seq (scriptIndex scriptsUser) (loop (write user))

def startSeeing (user user2 : Ptr) : Code :=
  sequence [optional (write user2), write user, optional (write user), sendScripts user user2,
    unique (localMutex user) skip]

def stopSeeing (user user2 : Ptr) : Code :=
  sequence [write user, sendScripts user user2, unique (localMutex user) skip, adjustTime user2]

def updateLocalUsers (user : Ptr) : Code :=
  loop <| choose fun user2 =>
    seq (containsUser user)
      (alt (startSeeing user user2) (seq (containsUser user) (optional (stopSeeing user user2))))

def timeUpdate (user : Ptr) : Code := optional (write user)

def update (user : Ptr) : Code :=
  iterateLocalUsers user fun other =>
    seq (timeUpdate other) (optional (alt (write user) (write other)))

def updateOnlyQueues (user : Ptr) : Code :=
  optional (iterateLocalUsers user fun other => optional (write other))

def globalUpdate : Code :=
  sequence [iterateUsers updateLocalUsers, iterateUsers update, iterateUsers updateOnlyQueues,
    iterateUsers fun _ => skip]

end Updates

section Packets

/-- `removeClientSocket` after `removeClientData`. -/
def removeClientSocket : Code :=
  seq (unique dataMutex skip) (shared clientSocketsMutex skip)

/-- `HandshakePacket::handle`. The reply, and what follows it, goes to the new user. -/
def handshake (rejects : Bool) : Code :=
  optional <| seq getAvailableIndex <| choose fun newUser =>
    if rejects then
      alt (sequence [write newUser, write newUser, write newUser, providePlacement])
        (seq (write newUser) removeClientSocket)
    else sequence [write newUser, write newUser, write newUser, providePlacement]

/-- The handlers of a user's packets that tell its local users: the transponder, the mode, the
frequencies and the messages. -/
def tellLocalUsers (user : Ptr) : Code :=
  optional (iterateLocalUsers user fun other => optional (write other))

/-- What the packet with this number does. -/
def handle (rejects : Bool) (user : Ptr) (id : ℕ) : Code :=
  match id with
  | 2 | 8 | 13 => tellLocalUsers user
  | 5 | 7 | 10 => getUserByIndex
  | 6 => seq getUserByCallsign (tellLocalUsers user)
  | 11 => seq getUserByIndex (optional (write user))
  | 12 => seq getUserByCallsign (optional (choose write))
  | 14 => registerScript user
  | 15 => seq (scriptIndex user) (unregisterScript user)
  | 45 => handshake rejects
  | _ => skip

/-- The user of a socket is looked up before each packet. -/
def processPacket (rejects : Bool) : Code :=
  seq getUserBySocket <| choose fun user => choose (handle rejects user)

def handleClient (rejects : Bool) : Code :=
  sequence [unique dataMutex skip, shared dataMutex skip, unique lastPacketReceivedMutex skip,
    loop (processPacket rejects)]

end Packets

section Threads

def enqueue : Code := unique tasksMutex skip

def processClients (rejects : Bool) : Code :=
  shared clientSocketsMutex (loop (handleClient rejects))

/-- The tasks of the pool: those that the timer enqueues, and those that they enqueue. -/
def task (rejects : Bool) : Code :=
  oneOf [processClients rejects, enqueue, iterateUsers fun _ => enqueue, globalUpdate,
    choose write]

def worker (rejects : Bool) : Code := loop (seq (unique tasksMutex skip) (task rejects))

def timerFunction : Code :=
  loop <| sequence [unique timedTasksMutex (loop enqueue),
    shared lastPacketReceivedMutex (loop enqueue), loop enqueue]

/-- `main` from the start of the tasks on. -/
def main : Code :=
  seq (loop (unique timedTasksMutex skip)) (loop (unique clientSocketsMutex skip))

inductive Thread
  | main
  | timer
  | worker (i : ℕ)
  deriving DecidableEq

/-- What a thread of the server runs; `rejects` tells whether handshakes may be rejected. -/
def code (rejects : Bool) : Thread → Code
  | .main => main
  | .timer => timerFunction
  | .worker _ => worker rejects

end Threads

/-- The order in which the locks are taken. -/
def Lock.rank : Lock → ℕ
  | clientSocketsMutex => 0
  | timedTasksMutex => 1
  | dataMutex => 2
  | lastPacketReceivedMutex => 3
  | clientMutex => 4
  | idMutex => 5
  | indexMutex => 6
  | callsignMutex => 7
  | queueMutex => 8
  | localMutex _ => 9
  | scriptsMutex _ => 10
  | sendDataMutex _ => 11
  | tasksMutex => 12

/-- With handshakes that are rejected the mutex of the sockets is taken out of order. -/
def again (rejects : Bool) (lock : Lock) : Prop := rejects = true ∧ lock = clientSocketsMutex

/-- The code takes locks of this rank and above, in order. -/
abbrev TakesFrom (rejects : Bool) (held : Set Lock) (n : ℕ) (c : Code) : Prop :=
  c.Above rank (again rejects) n held

section Order

variable {rejects : Bool} {held : Set Lock} {func : Ptr → Code} {user user2 : Ptr}

theorem takesFrom_getUserByIndex : TakesFrom rejects held 6 getUserByIndex := above_scope trivial

theorem takesFrom_getUserBySocket : TakesFrom rejects held 4 getUserBySocket := above_scope trivial

theorem takesFrom_getUserByCallsign : TakesFrom rejects held 7 getUserByCallsign :=
  above_scope trivial

theorem takesFrom_write : TakesFrom rejects held 11 (write user) := above_scope trivial

theorem takesFrom_iterateUsers
    (h : ∀ user, TakesFrom rejects (insert clientMutex held) 5 (func user)) :
    TakesFrom rejects held 4 (iterateUsers func) := above_scope h

theorem takesFrom_iterateLocalUsers
    (h : ∀ other, TakesFrom rejects (insert (localMutex user) held) 10 (func other)) :
    TakesFrom rejects held 9 (iterateLocalUsers user func) := above_scope h

theorem takesFrom_scriptIndex : TakesFrom rejects held 10 (scriptIndex user) := above_scope trivial

theorem takesFrom_registerScript : TakesFrom rejects held 9 (registerScript user) :=
  ⟨takesFrom_scriptIndex.mono (by decide), takesFrom_write.mono (by decide),
    takesFrom_iterateLocalUsers fun _ => takesFrom_write.mono (by decide), trivial⟩

theorem takesFrom_unregisterScript : TakesFrom rejects held 9 (unregisterScript user) :=
  takesFrom_registerScript

theorem takesFrom_adjustTime : TakesFrom rejects held 9 (adjustTime user) :=
  ⟨takesFrom_iterateLocalUsers fun _ => trivial, takesFrom_write.mono (by decide), trivial⟩

theorem takesFrom_containsUser : TakesFrom rejects held 9 (containsUser user) := above_scope trivial

theorem takesFrom_sendScripts : TakesFrom rejects held 10 (sendScripts user user2) :=
  ⟨takesFrom_scriptIndex, takesFrom_write.mono (by decide)⟩

theorem takesFrom_startSeeing : TakesFrom rejects held 9 (startSeeing user user2) := by
  have hwrite (dest) : TakesFrom rejects held 9 (write dest) := takesFrom_write.mono (by decide)
  have hlocal : TakesFrom rejects held 9 (unique (localMutex user) skip) := above_scope trivial
  exact ⟨⟨hwrite user2, trivial⟩, hwrite user, ⟨hwrite user, trivial⟩,
    takesFrom_sendScripts.mono (by decide), hlocal, trivial⟩

theorem takesFrom_stopSeeing : TakesFrom rejects held 9 (stopSeeing user user2) := by
  have hlocal : TakesFrom rejects held 9 (unique (localMutex user) skip) := above_scope trivial
  exact ⟨takesFrom_write.mono (by decide), takesFrom_sendScripts.mono (by decide), hlocal,
    takesFrom_adjustTime, trivial⟩

theorem takesFrom_updateLocalUsers : TakesFrom rejects held 9 (updateLocalUsers user) :=
  fun _ => ⟨takesFrom_containsUser, takesFrom_startSeeing, takesFrom_containsUser,
    takesFrom_stopSeeing, trivial⟩

theorem takesFrom_update : TakesFrom rejects held 9 (update user) := by
  refine takesFrom_iterateLocalUsers fun other => ?_
  have hwrite (dest) : TakesFrom rejects (insert (localMutex user) held) 10 (write dest) :=
    takesFrom_write.mono (by decide)
  exact ⟨⟨hwrite other, trivial⟩, ⟨hwrite user, hwrite other⟩, trivial⟩

theorem takesFrom_tellLocalUsers : TakesFrom rejects held 9 (tellLocalUsers user) :=
  ⟨takesFrom_iterateLocalUsers fun _ => ⟨takesFrom_write.mono (by decide), trivial⟩, trivial⟩

/-- A pass holds `client_mutex_` around all it does. -/
theorem takesFrom_globalUpdate : TakesFrom rejects held 4 globalUpdate :=
  ⟨takesFrom_iterateUsers fun _ => takesFrom_updateLocalUsers.mono (by decide),
    takesFrom_iterateUsers fun _ => takesFrom_update.mono (by decide),
    takesFrom_iterateUsers fun _ => takesFrom_tellLocalUsers.mono (by decide),
    takesFrom_iterateUsers fun _ => trivial, trivial⟩

theorem takesFrom_providePlacement : TakesFrom rejects held 4 providePlacement :=
  above_scope <| above_scope <| above_scope <| above_scope trivial

/-- Here the mutex of the sockets is asked for again. -/
theorem takesFrom_handshake (hheld : clientSocketsMutex ∈ held) :
    TakesFrom rejects held 2 (handshake rejects) := by
  have hwrite (dest) : TakesFrom rejects held 2 (write dest) := takesFrom_write.mono (by decide)
  have hindex : TakesFrom rejects held 8 getAvailableIndex := above_scope trivial
  have haccepts (dest) :
      TakesFrom rejects held 2 (sequence [write dest, write dest, write dest, providePlacement]) :=
    ⟨hwrite dest, hwrite dest, hwrite dest, takesFrom_providePlacement.mono (by decide), trivial⟩
  refine ⟨⟨hindex.mono (by decide), fun newUser => ?_⟩, trivial⟩
  cases rejects with
  | false => exact haccepts newUser
  | true =>
    have hdata : TakesFrom true held 2 (unique dataMutex skip) := above_scope trivial
    have hsockets : TakesFrom true held 2 (shared clientSocketsMutex skip) :=
      ⟨.inr ⟨⟨rfl, rfl⟩, hheld⟩, trivial⟩
    exact ⟨haccepts newUser, hwrite newUser, hdata, hsockets⟩

theorem takesFrom_handle (hheld : clientSocketsMutex ∈ held) (id : ℕ) :
    TakesFrom rejects held 2 (handle rejects user id) := by
  have hindex : TakesFrom rejects held 2 getUserByIndex := takesFrom_getUserByIndex.mono (by decide)
  have hcallsign : TakesFrom rejects held 2 getUserByCallsign :=
    takesFrom_getUserByCallsign.mono (by decide)
  have htell : TakesFrom rejects held 2 (tellLocalUsers user) :=
    takesFrom_tellLocalUsers.mono (by decide)
  have hwrite (dest) : TakesFrom rejects held 2 (write dest) := takesFrom_write.mono (by decide)
  have hscripts : TakesFrom rejects held 2 (scriptIndex user) :=
    takesFrom_scriptIndex.mono (by decide)
  have hregister : TakesFrom rejects held 2 (registerScript user) :=
    takesFrom_registerScript.mono (by decide)
  have hunregister : TakesFrom rejects held 2 (unregisterScript user) :=
    takesFrom_unregisterScript.mono (by decide)
  unfold handle
  split
  · exact htell
  · exact htell
  · exact htell
  · exact hindex
  · exact hindex
  · exact hindex
  · exact ⟨hcallsign, htell⟩
  · exact ⟨hindex, hwrite user, trivial⟩
  · exact ⟨hcallsign, hwrite, trivial⟩
  · exact hregister
  · exact ⟨hscripts, hunregister⟩
  · exact takesFrom_handshake hheld
  · trivial

theorem takesFrom_handleClient (hheld : clientSocketsMutex ∈ held) :
    TakesFrom rejects held 2 (handleClient rejects) := by
  have hdata (mode) : TakesFrom rejects held 2 (scope dataMutex mode skip) := above_scope trivial
  have hreceived : TakesFrom rejects held 3 (unique lastPacketReceivedMutex skip) :=
    above_scope trivial
  exact ⟨hdata _, hdata _, hreceived.mono (by decide),
    ⟨takesFrom_getUserBySocket.mono (by decide), fun _ id => takesFrom_handle hheld id⟩, trivial⟩

theorem takesFrom_enqueue : TakesFrom rejects held 12 enqueue := above_scope trivial

theorem takesFrom_processClients : TakesFrom rejects held 0 (processClients rejects) := by
  have hclient : TakesFrom rejects (insert clientSocketsMutex held) 1 (handleClient rejects) :=
    (takesFrom_handleClient (Set.mem_insert _ _)).mono (by decide)
  exact above_scope hclient

theorem takesFrom_task : TakesFrom rejects held 0 (task rejects) :=
  ⟨takesFrom_processClients, takesFrom_enqueue.mono (by decide),
    (takesFrom_iterateUsers fun _ => takesFrom_enqueue.mono (by decide)).mono (by decide),
    takesFrom_globalUpdate.mono (by decide), fun _ => takesFrom_write.mono (by decide), trivial⟩

theorem takesFrom_timerFunction : TakesFrom rejects held 0 timerFunction := by
  have henqueue (locks) (n : ℕ) (hn : n ≤ 12) : TakesFrom rejects locks n enqueue :=
    takesFrom_enqueue.mono hn
  have htasks : TakesFrom rejects held 1 (unique timedTasksMutex (loop enqueue)) :=
    above_scope (henqueue _ 2 (by decide))
  have hreceived : TakesFrom rejects held 3 (shared lastPacketReceivedMutex (loop enqueue)) :=
    above_scope (henqueue _ 4 (by decide))
  exact ⟨htasks.mono (by decide), hreceived.mono (by decide), henqueue _ 0 (by decide), trivial⟩

theorem takesFrom_main : TakesFrom rejects held 0 main := by
  have htasks : TakesFrom rejects held 1 (unique timedTasksMutex skip) := above_scope trivial
  have hsockets : TakesFrom rejects held 0 (unique clientSocketsMutex skip) := above_scope trivial
  exact ⟨htasks.mono (by decide), hsockets⟩

theorem takesFrom_code (t : Thread) : TakesFrom rejects held 0 (code rejects t) := by
  cases t with
  | main => exact takesFrom_main
  | timer => exact takesFrom_timerFunction
  | worker i => exact ⟨takesFrom_enqueue.mono (by decide), takesFrom_task⟩

theorem rank_lt (lock : Lock) : rank lock < 13 := by
  cases lock <;> simp [rank]

end Order

section Deadlocks

variable {s : Threads Lock Ptr Thread} {t : Thread} {rejects : Bool}

theorem ordered_code (h : Reachable (code rejects) s) (t : Thread) :
    Ordered rank (again rejects) (s t) :=
  ordered_of_reachable takesFrom_code h t

/-- As long as no handshake is rejected, nobody waits for itself, through others or directly, and
whoever waits, waits for somebody who goes on. -/
theorem no_deadlock (h : Reachable (code false) s) (t : Thread) :
    ¬ TransGen (WaitsFor s) t t ∧
      (Waits s t → ∃ u, TransGen (WaitsFor s) t u ∧ ¬ Waits s u ∧ ∃ s', Step s u s') := by
  have hagain : ∀ u, ¬ AsksAgain (again false) s u := by
    rintro u ⟨lock, ⟨hrejects, -⟩, -⟩
    cases hrejects
  constructor
  · intro hcircle
    obtain ⟨u, -, -, hu⟩ := exists_asksAgain (ordered_code h) hcircle
    exact hagain u hu
  · intro hwaits
    obtain ⟨u, hchain, hu | hgoes⟩ := waits_resolve (ordered_code h) rank_lt hwaits
    · exact absurd hu (hagain u)
    · exact ⟨u, hchain, hgoes⟩

/-- What a worker has still to do when it polls the sockets, before the first of them. -/
def polling : List (Instr Lock Ptr) :=
  [.run (loop (handleClient false)), .release clientSocketsMutex .shared, .run (worker false)]

theorem alone_polling : Alone (code false) (.worker 0) polling := by
  have hstart : Alone (code false) (.worker 0) [.run (worker false)] := alone_start
  have htask := ((hstart.advance (.loopAgain _ _)).advance (.seq _ _ _)).pass (by simp)
  exact (htask.advance (.altFirst _ _ _)).acquire (by simp)

/-- The main thread while a worker polls. -/
theorem no_deadlock_polling :
    ¬ TransGen (WaitsFor (Function.update (start (code false)) (.worker 0) polling))
      Thread.main Thread.main :=
  (no_deadlock alone_polling .main).1

/-- The thread asks for the mutex of the sockets and holds it. -/
def Rejecting (s : Threads Lock Ptr Thread) (t : Thread) : Prop :=
  Requests s t clientSocketsMutex ∧ Holds s t clientSocketsMutex

/-- A circle of waits always goes through a handshake that is rejected. -/
theorem circles_reject (h : Reachable (code rejects) s) (hcircle : TransGen (WaitsFor s) t t) :
    ∃ u, TransGen (WaitsFor s) t u ∧ TransGen (WaitsFor s) u t ∧ Rejecting s u := by
  obtain ⟨u, hthere, hback, lock, ⟨-, rfl⟩, hrequests, hholds⟩ :=
    exists_asksAgain (ordered_code h) hcircle
  exact ⟨u, hthere, hback, hrequests, hholds⟩

/-- What the worker that rejects a handshake has still to do, when it has taken the connection's
data away. -/
def rejection : List (Instr Lock Ptr) :=
  [.run (shared clientSocketsMutex skip), .run (loop (processPacket true)), .run skip,
    .run (loop (handleClient true)), .release clientSocketsMutex .shared, .run (worker true)]

theorem alone_rejection : Alone (code true) (.worker 0) rejection := by
  have hstart : Alone (code true) (.worker 0) [.run (worker true)] := alone_start
  have htask := ((hstart.advance (.loopAgain _ _)).advance (.seq _ _ _)).pass (by simp)
  have hpolls := (htask.advance (.altFirst _ _ _)).acquire (by simp)
  -- The three blocks before the packets of a socket.
  have hclient := (hpolls.advance (.loopAgain _ _)).advance (.seq _ _ _)
  have hbuffer := (hclient.pass (by simp)).advance (.seq _ _ _)
  have hstamp := (hbuffer.pass (by simp)).advance (.seq _ _ _)
  have hpackets := (hstamp.pass (by simp)).advance (.seq _ _ _)
  have hpacket := ((hpackets.advance (.loopAgain _ _)).advance (.seq _ _ _)).pass (by simp)
  have hhandle := (hpacket.advance (.choose _ 0 _)).advance (.choose _ 45 _)
  have hindex := ((hhandle.advance (.altFirst _ _ _)).advance (.seq _ _ _)).pass (by simp)
  have hreply := ((hindex.advance (.choose _ 1 _)).advance (.altSecond _ _ _)).advance (.seq _ _ _)
  have hremove := (hreply.pass (by simp)).advance (.seq _ _ _)
  exact hremove.pass (by simp)

/-- The worker that rejects a handshake waits for itself. -/
theorem circles_reject_rejection :
    let s := Function.update (start (code true)) (.worker 0) rejection
    ∃ u, TransGen (WaitsFor s) (.worker 0) u ∧ TransGen (WaitsFor s) u (.worker 0) ∧
      Rejecting s u := by
  refine circles_reject alone_rejection (.single ⟨clientSocketsMutex, ?_, ?_⟩)
  · exact ⟨.shared, skip, _, update_self ..⟩
  · exact ⟨.shared, by simp [rejection]⟩

end Deadlocks

end Win64Server.LockUse
