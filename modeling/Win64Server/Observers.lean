import Win64Server.ServerEffects
import Win64Server.Handshake

/-!
Who is told about a user. News about a user goes along the user's own set of local users,
filtered by client type, and position updates go both ways between a user and the members of its
set. Whether the users told are the ones that see the user depends on visibility being mutual.
-/
namespace Win64Server.Observers

open Outcome Server

/-- Between two states a user has been sent a message about another. -/
def ToldAbout (s t : Server) (about user : Ptr) : Prop :=
  ∃ e ∈ t.sent.drop s.sent.length, e.recipient = user ∧ e.message.about = some about

theorem toldAbout_iff {s t : Server} {new : List Sent} {about user : Ptr}
    (h : t.sent = s.sent ++ new) :
    ToldAbout s t about user ↔ ∃ e ∈ new, e.recipient = user ∧ e.message.about = some about := by
  rw [ToldAbout, h, List.drop_left]

/-- A loop body that sends one message to each user that passes a test. It is only asked about
states in which the user objects are those the loop started with. -/
def Tells (heap : Ptr → User) (test : User → Bool) (message : Ptr → Outgoing)
    (func : Ptr → ServerM Unit) : Prop :=
  ∀ s other, s.heap = heap →
    (func other).run s = .ok () (if test (heap other) then s.push other (message other) else s)

/-- The messages of such a loop, in its order. -/
def messages (heap : Ptr → User) (test : User → Bool) (message : Ptr → Outgoing)
    (order : List Ptr) : List Sent :=
  (order.filter fun other => test (heap other)).map fun other => ⟨other, message other⟩

theorem messages_cons (heap : Ptr → User) (test : User → Bool) (message : Ptr → Outgoing)
    (other : Ptr) (order : List Ptr) :
    messages heap test message (other :: order) =
      if test (heap other) then ⟨other, message other⟩ :: messages heap test message order
      else messages heap test message order := by
  by_cases htest : test (heap other) = true
  · simp [messages, htest]
  · simp [messages, htest]

theorem Tells.forM {heap : Ptr → User} {test : User → Bool} {message : Ptr → Outgoing}
    {func : Ptr → ServerM Unit} (h : Tells heap test message func) (order : List Ptr) (s : Server)
    (hheap : s.heap = heap) :
    (order.forM func).run s =
      .ok () { s with sent := s.sent ++ messages heap test message order } := by
  induction order generalizing s with
  | nil => simp [messages]
  | cons other order ih =>
    rw [List.forM_eq_forM] at ih ⊢
    rw [List.forM_cons, run_bind_of_ok (h s other hheap), messages_cons]
    by_cases htest : test (heap other) = true
    · rw [if_pos htest, if_pos htest, ih (s.push other (message other)) hheap, push_sent,
        List.append_assoc, List.singleton_append]
      rfl
    · rw [if_neg htest, if_neg htest]
      exact ih s hheap

section Pushes

variable {s m t : Server} {user : Ptr}

/-- What precedes the loop of a push: messages to the user itself, and changes to that user's
object that keep its set of local users. -/
structure Prepares (user : Ptr) (s t : Server) : Prop where
  localUsers : (t.heap user).localUsers = (s.heap user).localUsers
  others : ∀ other, other ≠ user → t.heap other = s.heap other
  sent : ∃ own, t.sent = s.sent ++ own ∧ ∀ e ∈ own, e.recipient = user

theorem Prepares.refl (user : Ptr) (s : Server) : Prepares user s s :=
  ⟨rfl, fun _ _ => rfl, [], by simp, by simp⟩

theorem Prepares.modifyUser (h : Prepares user s t) {f : User → User}
    (hf : ∀ u, (f u).localUsers = u.localUsers) : Prepares user s (t.modifyUser user f) where
  localUsers := by rw [modifyUser_heap_self, hf, h.localUsers]
  others other hother := by rw [modifyUser_heap_ne _ _ _ _ hother, h.others other hother]
  sent := h.sent

theorem Prepares.push (h : Prepares user s t) (message : Outgoing) :
    Prepares user s (t.push user message) where
  localUsers := h.localUsers
  others := h.others
  sent := by
    obtain ⟨own, hsent, hown⟩ := h.sent
    refine ⟨own ++ [⟨user, message⟩], by rw [push_sent, hsent, List.append_assoc], fun e he => ?_⟩
    rcases List.mem_append.mp he with he | he
    · exact hown e he
    · rw [List.mem_singleton.mp he]

theorem Prepares.not_toldAbout (h : Prepares user s t) (other : Ptr) (hother : other ≠ user) :
    ¬ ToldAbout s t user other := by
  obtain ⟨own, hsent, hown⟩ := h.sent
  rw [toldAbout_iff hsent]
  rintro ⟨e, he, hrecipient, -⟩
  exact hother (hrecipient.symm.trans (hown e he))

theorem iterateLocalUsers_told (env : Environment) (test : User → Bool) (message : Ptr → Outgoing)
    {func : Ptr → ServerM Unit} (hprepares : Prepares user s m)
    (habout : ∀ other, (message other).about = some user)
    (h : Tells m.heap test message func) :
    ∃ t, (iterateLocalUsers env user func).run m = .ok () t ∧ t.heap = m.heap ∧
      ∀ other, other ≠ user → (ToldAbout s t user other ↔
        other ∈ (s.heap user).localUsers ∧ test (s.heap other) = true) := by
  let order := env.arrange m.ticks (m.heap user).localUsers.keys
  have hloop := h.forM order { m with ticks := m.ticks + 1 } rfl
  refine ⟨_, hloop, rfl, fun other hother => ?_⟩
  obtain ⟨own, hown, hself⟩ := hprepares.sent
  have hsent : m.sent ++ messages m.heap test message order =
      s.sent ++ (own ++ messages m.heap test message order) := by
    rw [← List.append_assoc, ← hown]
  rw [toldAbout_iff hsent, ← hprepares.localUsers, ← hprepares.others other hother]
  constructor
  · rintro ⟨e, he, rfl, -⟩
    rcases List.mem_append.mp he with he | he
    · exact absurd (hself e he) hother
    · obtain ⟨o, ho, rfl⟩ := List.mem_map.mp he
      obtain ⟨hmem, htest⟩ := List.mem_filter.mp ho
      exact ⟨(env.arrange_perm _ _).mem_iff.mp hmem, htest⟩
  · rintro ⟨hmem, htest⟩
    refine ⟨⟨other, message other⟩, List.mem_append_right _ (List.mem_map_of_mem ?_), rfl,
      habout other⟩
    exact List.mem_filter.mpr ⟨(env.arrange_perm _ _).mem_iff.mpr hmem, htest⟩

end Pushes

/-- How the run of a push may end: in a fault before its loop, without reaching the loop, or with
the members of the user's own set that pass the test told. -/
inductive Ends (user : Ptr) (occurs : Prop) (test : User → Bool) (s : Server) :
    EStateM.Result Fault Server Unit → Prop
  | failed {e : Fault} {t : Server} (h : ∀ other, other ≠ user → ¬ ToldAbout s t user other) :
      Ends user occurs test s (.error e t)
  | quiet {t : Server} (h : ∀ other, other ≠ user → ¬ ToldAbout s t user other)
      (hnot : ¬ occurs) : Ends user occurs test s (.ok () t)
  | told {t : Server} (hoccurs : occurs)
      (h : ∀ other, other ≠ user → (ToldAbout s t user other ↔
        other ∈ (s.heap user).localUsers ∧ test (s.heap other) = true)) :
      Ends user occurs test s (.ok () t)

/-- The part of a handler's result that concerns the server. -/
def serverOf : EStateM.Result Fault Session Unit → EStateM.Result Fault Server Unit
  | .ok a y => .ok a y.server
  | .error e y => .error e y.server

section Ends

variable {env : Environment} {user : Ptr} {occurs : Prop} {test : User → Bool} {s : Server}

theorem Ends.toldAbout_iff {r : EStateM.Result Fault Server Unit}
    (h : Ends user occurs test s r) {other : Ptr} (hother : other ≠ user) :
    ToldAbout s (finalState r) user other ↔
      (∃ t, r = .ok () t) ∧ occurs ∧ other ∈ (s.heap user).localUsers ∧
        test (s.heap other) = true := by
  cases h with
  | failed h => simpa using h other hother
  | quiet h hnot => simpa [hnot] using h other hother
  | told hoccurs h => simpa [hoccurs] using h other hother

theorem deref_some_bind {α : Type} (u : Ptr) (f : Ptr → HandlerM α) :
    (deref (some u) >>= f) = f u := rfl

theorem serverOf_onServer (op : ServerM Unit) (x : Session) :
    serverOf ((onServer op).run x) = op.run x.server := by
  rw [run_onServer]
  cases op.run x.server <;> rfl

/-- What a handler reads in front leaves the server alone. -/
theorem Ends.onBuf {α : Type} {op : StreamM α} {f : α → HandlerM Unit} {m : Server}
    (hprepares : Prepares user s m) {x : Session} (hx : x.server = m)
    (h : ∀ a y, y.server = m → Ends user occurs test s (serverOf ((f a).run y))) :
    Ends user occurs test s (serverOf ((onBuf op >>= f).run x)) := by
  subst hx
  rw [EStateM.run_bind, run_onBuf]
  cases op.run x.buf with
  | ok a buf => exact h a { x with buf := buf } rfl
  | error e buf => exact .failed hprepares.not_toldAbout

end Ends

section Senders

variable {env : Environment} {user : Ptr}

/-- `getType() == CONTROLLER`, the filter of three of the pushes. -/
def isController (u : User) : Bool := decide (u.getType = .controller)

/-- A change to the subclass part of a pilot and a loop that sends the changed part. -/
theorem ends_aircraft (message : Server → Aircraft → Ptr → Outgoing) {s : Server}
    {test : User → Bool} {f : Aircraft → Aircraft} {func : Aircraft → Ptr → ServerM Unit}
    (habout : ∀ m a other, (message m a other).about = some user)
    (hfunc : ∀ m a, Tells m.heap test (message m a) (func a)) :
    Ends user ((s.heap user).getType = .pilot) test s
      ((do
        let r ← getUser user
        if r.getType = AvClient.pilot then
          updateUser user fun r => r.modifyAircraft f
          let aircraft ← getAircraft user
          iterateLocalUsers env user (func aircraft)).run s) := by
  by_cases hpilot : (s.heap user).getType = .pilot
  · obtain ⟨a, ha⟩ := derived_of_pilot hpilot
    let m := s.modifyUser user fun r => r.modifyAircraft f
    have hm : (m.heap user).asAircraft = some (f a) := by
      rw [modifyUser_heap_self, modifyAircraft_aircraft ha]
      rfl
    have hprepares : Prepares user s m :=
      (Prepares.refl user s).modifyUser fun u => modifyAircraft_localUsers u f
    obtain ⟨t, hrun, -, htold⟩ := iterateLocalUsers_told env test (message m (f a)) hprepares
      (habout m (f a)) (hfunc m (f a))
    have hall := (run_bind_of_ok (f := fun aircraft => iterateLocalUsers env user (func aircraft))
      (getAircraft_run hm)).trans hrun
    rw [run_bind_of_ok (getUser_run s user), if_pos hpilot,
      run_bind_of_ok (updateUser_run s user _), hall]
    exact .told hpilot htold
  · rw [run_bind_of_ok (getUser_run s user), if_neg hpilot]
    exact .quiet (Prepares.refl user s).not_toldAbout hpilot

/-- The body of a loop that asks for the client type. -/
theorem tells_controllers {heap : Ptr → User} {message : Ptr → Outgoing}
    {func : Ptr → ServerM Unit}
    (hfunc : ∀ s other, s.heap = heap →
      (func other).run s = .ok () (s.push other (message other))) :
    Tells heap isController message (fun other => do
      let o ← getUser other
      if o.getType = AvClient.controller then func other) := by
  intro s other hs
  rw [run_bind_of_ok (getUser_run s other), ← hs]
  by_cases h : (s.heap other).getType = .controller
  · rw [if_pos h, if_pos (by simpa [isController] using h), hfunc s other hs]
  · rw [if_neg h, if_neg (by simpa [isController] using h)]
    rfl

theorem ends_transponder (clientSocket : Socket) (x : Session) :
    Ends user ((x.server.heap user).getType = .pilot) isController x.server
      (serverOf ((TransponderPacket.handle env clientSocket (some user)).run x)) := by
  refine Ends.onBuf (.refl user _) rfl fun code y hy => ?_
  rw [deref_some_bind, serverOf_onServer, hy]
  refine ends_aircraft (fun m a _ => .clientTransponder user (m.heap user) a)
    (fun _ _ _ => rfl) fun m a => tells_controllers fun s other hs => ?_
  rw [Server.sendClientTransponder, run_bind_of_ok (getUser_run s user), hs]
  rfl

theorem ends_mode (clientSocket : Socket) (x : Session) :
    Ends user ((x.server.heap user).getType = .pilot) (fun _ => true) x.server
      (serverOf ((ClientMode.handle env clientSocket (some user)).run x)) := by
  refine Ends.onBuf (.refl user _) rfl fun i y hy => ?_
  rw [deref_some_bind, serverOf_onServer, hy]
  refine ends_aircraft (fun m a _ => .clientModeChange user (m.heap user) a)
    (fun _ _ _ => rfl) fun m a s other hs => ?_
  rw [Server.sendClientModeChange, run_bind_of_ok (getUser_run s user), hs]
  rfl

theorem ends_primeFreq (clientSocket : Socket) (x : Session) :
    Ends user True isController x.server
      (serverOf ((PrimeFreqPacket.handle env clientSocket (some user)).run x)) := by
  refine Ends.onBuf (.refl user _) rfl fun flags y hy => ?_
  rw [readFrequency, bind_map_left]
  refine Ends.onBuf (.refl user _) hy fun first y hy => ?_
  rw [deref_some_bind, EStateM.run_bind, run_onServer, updateUser_run]
  dsimp only
  rw [bind_map_left]
  have hprepares : Prepares user x.server (y.server.modifyUser user fun r =>
      { r with frequencies := Function.update r.frequencies 0 (toInt32 (Int.ofNat first)) }) := by
    rw [hy]
    exact (Prepares.refl user _).modifyUser fun _ => rfl
  refine Ends.onBuf hprepares rfl fun second z hz => ?_
  rw [serverOf_onServer, hz, run_bind_of_ok (updateUser_run _ user _)]
  have hsend : ∀ (m : Server) (other : Ptr), (Server.sendPrimFreq other user).run m =
      .ok () (m.push other (.primFreq user (m.heap user))) := fun _ _ => rfl
  obtain ⟨t, hrun, -, htold⟩ := iterateLocalUsers_told env isController
    (fun _ => .primFreq user _) (hprepares.modifyUser (f := fun r =>
      { r with frequencies := Function.update r.frequencies 1 (toInt32 (Int.ofNat second)) })
      fun _ => rfl) (fun _ => rfl) (tells_controllers fun m other hm => by rw [hsend, hm])
  rw [hrun]
  exact .told trivial htold

theorem ends_registerScript (script : ClientScript) (s : Server) :
    Ends user True (fun _ => true) s ((registerScript env user script).run s) := by
  rw [registerScript, run_bind_of_ok (getUser_run s user)]
  cases hadd : (s.heap user).scripts.addScript script with
  | error e => exact .failed (Prepares.refl user s).not_toldAbout
  | ok result =>
    obtain ⟨scripts, placed⟩ := result
    dsimp only
    have hprepares : Prepares user s (s.modifyUser user fun u => { u with scripts := scripts }) :=
      (Prepares.refl user s).modifyUser fun _ => rfl
    rw [run_bind_of_ok (updateUser_run s user _)]
    by_cases hcast : placed.castable = true
    · have hsend : ∀ (m : Server) (other : Ptr), (Server.sendScript other user placed).run m =
          .ok () (m.push other (.script user (m.heap user) placed)) :=
        fun m other => sendScript_run m other hcast user
      obtain ⟨t, hrun, -, htold⟩ := iterateLocalUsers_told env (fun _ => true)
        (fun _ => .script user _ placed) (hprepares.push (.script user _ placed))
        (fun _ => rfl) fun m other hm => by rw [hsend, hm]; rfl
      rw [run_bind_of_ok (hsend _ user), hrun]
      exact .told trivial htold
    · rw [run_bind_of_error (sendScript_stops _ user hcast user)]
      exact .failed hprepares.not_toldAbout

theorem ends_unregisterScript (script : ClientScript) (s : Server) :
    Ends user True (fun _ => true) s ((unregisterScript env user script).run s) := by
  rw [unregisterScript, run_bind_of_ok (getUser_run s user)]
  cases hdelete : (s.heap user).scripts.deleteScript script.idx with
  | error e => exact .failed (Prepares.refl user s).not_toldAbout
  | ok scripts =>
    dsimp only
    have hprepares : Prepares user s (s.modifyUser user fun u => { u with scripts := scripts }) :=
      (Prepares.refl user s).modifyUser fun _ => rfl
    have hsend : ∀ (m : Server) (other : Ptr),
        (Server.sendRemoveScript other user script.idx).run m =
        .ok () (m.push other (.removeScript user (m.heap user) script.idx)) := fun _ _ => rfl
    obtain ⟨t, hrun, -, htold⟩ := iterateLocalUsers_told env (fun _ => true)
      (fun _ => .removeScript user _ script.idx)
      (hprepares.push (.removeScript user _ script.idx))
      (fun _ => rfl) fun m other hm => by rw [hsend, hm]; rfl
    rw [run_bind_of_ok (updateUser_run s user _), run_bind_of_ok (hsend _ user), hrun]
    exact .told trivial htold

/-- A pilot with its flight plan flagged and a plan past its first cycle. -/
def plansNews (u : User) : Prop :=
  u.getType = .pilot ∧ u.updateOnlyQueues 0 = true ∧
    ∃ a plan, u.derived = .aircraft a ∧ a.flightPlan = some plan ∧ plan.cycle ≠ 0

section Plan

variable {heap : Ptr → User} {a : Aircraft} {plan : FlightPlan}

theorem plansNews_iff {u : User} (hpilot : u.getType = .pilot)
    (hflag : u.updateOnlyQueues 0 = true) (ha : u.derived = .aircraft a)
    (hplan : a.flightPlan = some plan) : plansNews u ↔ plan.cycle ≠ 0 := by
  constructor
  · rintro ⟨-, -, a', plan', ha', hplan', hcycle⟩
    rw [ha] at ha'
    cases ha'
    rw [hplan] at hplan'
    cases hplan'
    exact hcycle
  · exact fun hcycle => ⟨hpilot, hflag, a, plan, ha, hplan, hcycle⟩

/-- The body of the loop over the queue: a plan in its first cycle goes to nobody. -/
theorem tells_plan (ha : (heap user).derived = .aircraft a) (hplan : a.flightPlan = some plan) :
    Tells heap (fun u => isController u && decide (plan.cycle ≠ 0))
      (fun _ => .flightPlanCycle user (heap user) plan) (fun other => do
        let o ← getUser other
        if o.getType = AvClient.controller ∧ plan.cycle ≠ 0 then
          Server.sendFlightPlanCycle other user) := by
  intro m other hm
  rw [run_bind_of_ok (getUser_run m other), ← hm]
  by_cases h : (m.heap other).getType = .controller ∧ plan.cycle ≠ 0
  · have hget : (getFlightPlan user).run m = .ok (some plan) m := by
      rw [getFlightPlan_run (by rw [hm]; exact asAircraft_of_derived ha), hplan]
    rw [if_pos h, if_pos (by simpa [isController] using h), Server.sendFlightPlanCycle,
      run_bind_of_ok (getUser_run m user), run_bind_of_ok hget]
    rfl
  · rw [if_neg h, if_neg (by simpa [isController] using h)]
    rfl

end Plan

theorem ends_updateOnlyQueues (s : Server) :
    Ends user (plansNews (s.heap user)) isController s
      ((Server.updateOnlyQueues env user).run s) := by
  rw [Server.updateOnlyQueues, run_bind_of_ok (getUser_run s user)]
  by_cases hflag : (s.heap user).getType = .pilot ∧ (s.heap user).updateOnlyQueues 0 = true
  · obtain ⟨a, ha⟩ := derived_of_pilot hflag.1
    rw [if_pos hflag, run_bind_of_ok (getFlightPlan_run (asAircraft_of_derived ha))]
    cases hplan : a.flightPlan with
    | none => exact .failed (Prepares.refl user s).not_toldAbout
    | some plan =>
      dsimp only
      obtain ⟨t, hrun, hheap, htold⟩ := iterateLocalUsers_told env _ _ (.refl user s)
        (fun _ => rfl) (tells_plan ha hplan)
      have hiff := plansNews_iff hflag.1 hflag.2 ha hplan
      rw [run_bind_of_ok hrun, updateUser_run]
      by_cases hcycle : plan.cycle ≠ 0
      · refine .told (hiff.mpr hcycle) fun other hother => ?_
        have hother' := htold other hother
        rw [decide_eq_true hcycle, Bool.and_true] at hother'
        exact hother'
      · refine .quiet (fun other hother hnews => ?_) (mt hiff.mp hcycle)
        have hother' := (htold other hother).mp hnews
        rw [decide_eq_false hcycle, Bool.and_false] at hother'
        exact Bool.false_ne_true hother'.2
  · rw [if_neg hflag]
    exact .quiet (Prepares.refl user s).not_toldAbout fun h => hflag ⟨h.1, h.2.1⟩

end Senders

/-- The six pushes: three packets, the two operations on scripts, and the queues of a pass. -/
inductive Push
  | transponder
  | mode
  | primeFreq
  | register (script : ClientScript)
  | unregister (script : ClientScript)
  | queues

namespace Push

def program (env : Environment) (clientSocket : Socket) (user : Ptr) : Push → HandlerM Unit
  | transponder => TransponderPacket.handle env clientSocket (some user)
  | mode => ClientMode.handle env clientSocket (some user)
  | primeFreq => PrimeFreqPacket.handle env clientSocket (some user)
  | register script => onServer (registerScript env user script)
  | unregister script => onServer (unregisterScript env user script)
  | queues => onServer (Server.updateOnlyQueues env user)

/-- Whether the push has something to tell about the user. -/
def occurs : Push → User → Prop
  | transponder, u => u.getType = .pilot
  | mode, u => u.getType = .pilot
  | queues, u => plansNews u
  | _, _ => True

/-- The client types the push filters on. -/
def audience : Push → User → Bool
  | transponder | primeFreq | queues => isController
  | _ => fun _ => true

theorem ends (push : Push) (env : Environment) (clientSocket : Socket) (user : Ptr) (x : Session) :
    Ends user (push.occurs (x.server.heap user)) push.audience x.server
      (serverOf ((push.program env clientSocket user).run x)) := by
  cases push with
  | transponder => exact ends_transponder clientSocket x
  | mode => exact ends_mode clientSocket x
  | primeFreq => exact ends_primeFreq clientSocket x
  | register script =>
    rw [program, serverOf_onServer]
    exact ends_registerScript script x.server
  | unregister script =>
    rw [program, serverOf_onServer]
    exact ends_unregisterScript script x.server
  | queues =>
    rw [program, serverOf_onServer]
    exact ends_updateOnlyQueues x.server

theorem toldAbout_iff (push : Push) (env : Environment) (clientSocket : Socket) {user other : Ptr}
    (x : Session) (hother : other ≠ user) :
    ToldAbout x.server (finalState ((push.program env clientSocket user).run x)).server user other ↔
      (∃ y, (push.program env clientSocket user).run x = .ok () y) ∧
        push.occurs (x.server.heap user) ∧ other ∈ (x.server.heap user).localUsers ∧
        push.audience (x.server.heap other) = true := by
  have h := (push.ends env clientSocket user x).toldAbout_iff hother
  cases hrun : (push.program env clientSocket user).run x with
  | ok u y =>
    rw [hrun] at h
    simpa [serverOf] using h
  | error e y =>
    rw [hrun] at h
    simpa [serverOf] using h

end Push

section Update

/-- A position message. -/
def isPosition : Outgoing → Bool
  | .pilotUpdate _ _ _ | .controllerUpdate _ _ => true
  | _ => false

/-- A message `update` may send: a position goes to the user about one of its local users, or,
when the user is not marked as needing an update, to one of them about the user. -/
def Exchange (user : Ptr) (locals : List Ptr) (updateRequired : Bool) (e : Sent) : Prop :=
  isPosition e.message = true →
    (e.recipient = user ∧ ∃ other ∈ locals, e.message.about = some other) ∨
      (updateRequired = false ∧ e.recipient ∈ locals ∧ e.message.about = some user)

/-- As long as the mark is what it was, the messages are of that kind and the mark stays. -/
def Exchanges (user : Ptr) (locals : List Ptr) (updateRequired : Bool) (s t : Server) : Prop :=
  (s.heap user).updateRequired = updateRequired →
    (t.heap user).updateRequired = updateRequired ∧
      ∃ new, t.sent = s.sent ++ new ∧ ∀ e ∈ new, Exchange user locals updateRequired e

variable {user other : Ptr} {locals : List Ptr} {updateRequired : Bool} {env : Environment}

instance : Std.Refl (Exchanges user locals updateRequired) :=
  ⟨fun _ h => ⟨h, [], by simp, by simp⟩⟩

instance : IsTrans Server (Exchanges user locals updateRequired) where
  trans s t r h h' hs := by
    obtain ⟨ht, new, hsent, hnew⟩ := h hs
    obtain ⟨hr, new', hsent', hnew'⟩ := h' ht
    refine ⟨hr, new ++ new', by rw [hsent', hsent, List.append_assoc], fun e he => ?_⟩
    rcases List.mem_append.mp he with he | he
    · exact hnew e he
    · exact hnew' e he

theorem exchanges_of_sends {s t : Server}
    (h : Sends (Exchange user locals updateRequired) s t) :
    Exchanges user locals updateRequired s t :=
  fun hs => ⟨by rw [h.heap]; exact hs, h.sent⟩

theorem exchanges_updateUser {p : Ptr} {f : User → User}
    (hf : ∀ u, (f u).updateRequired = u.updateRequired) :
    Keeps (Exchanges user locals updateRequired) (updateUser p f) := by
  intro s hs
  refine ⟨?_, [], by simp [finalState], by simp⟩
  exact (modifyUser_frame (g := User.updateRequired) (hf (s.heap p)) user).trans hs

theorem exchanges_lowerInterval (p : Ptr) (x : ℤ) :
    Keeps (Exchanges user locals updateRequired) (lowerInterval p x) := by
  refine .bind (fun s => Std.Refl.refl s) fun u => ?_
  split
  · refine .bind (exchanges_updateUser fun _ => rfl) fun _ => ?_
    exact (sends_send fun h => absurd h (by simp [isPosition])).mono fun _ _ => exchanges_of_sends
  · exact .pure ()

theorem exchanges_sendPosUpdate_self (hother : other ∈ locals) :
    Keeps (Exchanges user locals updateRequired) (sendPosUpdate user other) :=
  (sends_sendPosUpdate (fun _ _ _ => .inl ⟨rfl, other, hother, rfl⟩)
    fun _ _ => .inl ⟨rfl, other, hother, rfl⟩).mono fun _ _ => exchanges_of_sends

theorem exchanges_sendPosUpdate_other (hother : other ∈ locals)
    (hrequired : updateRequired = false) :
    Keeps (Exchanges user locals updateRequired) (sendPosUpdate other user) :=
  (sends_sendPosUpdate (fun _ _ _ => .inr ⟨hrequired, hother, rfl⟩)
    fun _ _ => .inr ⟨hrequired, hother, rfl⟩).mono fun _ _ => exchanges_of_sends

theorem exchanges_recordStamp (att : Attributes) (stamp : ℤ) :
    Keeps (Exchanges user locals updateRequired) (recordStamp user other att stamp) := by
  unfold recordStamp
  exact exchanges_updateUser fun _ => rfl

theorem exchanges_sendDue (hother : other ∈ locals) (userReqInterval : ℤ) (att : Attributes)
    (otherUpdateStamp : ℤ) :
    Keeps (Exchanges user locals updateRequired)
      (sendDue env user other updateRequired userReqInterval att otherUpdateStamp) := by
  unfold sendDue
  refine .bind (fun s => Std.Refl.refl s) fun o => ?_
  split
  · exact .pure ()
  split
  · exact .bind (exchanges_sendPosUpdate_self hother) fun _ => exchanges_recordStamp _ _
  next hrequired =>
    have hrequired := Bool.eq_false_iff.mpr hrequired
    split
    · refine .bind (fun s hs => ⟨hs, [], by simp [finalState], by simp⟩) fun now => ?_
      dsimp only
      split
      · split
        · exact .bind (exchanges_sendPosUpdate_self hother) fun _ => exchanges_recordStamp _ _
        split
        · exact .bind (exchanges_sendPosUpdate_other hother hrequired) fun _ =>
            exchanges_recordStamp _ _
        · exact .pure ()
      · exact .pure ()
    · exact .bind (exchanges_sendPosUpdate_other hother hrequired) fun _ =>
        exchanges_recordStamp _ _

theorem exchanges_updateAbout (hother : other ∈ locals) :
    Keeps (Exchanges user locals updateRequired) (updateAbout env user other) := by
  intro s hs
  have hround : Keeps (Exchanges user locals updateRequired) (do
      timeUpdate other user
      sendDue env user other (s.heap user).updateRequired
        ((s.heap user).getRequestedInterval (s.heap other).getType)
        (((s.heap user).localUsers.lookup other).getD fun _ => 0)
        (s.heap other).lastPositionUpdate) := by
    rw [hs]
    refine .bind ?_ fun _ => exchanges_sendDue hother _ _ _
    exact .bind (fun s => Std.Refl.refl s) fun u => .bind (fun s => Std.Refl.refl s) fun o =>
      exchanges_lowerInterval other _
  exact hround s hs

theorem update_exchanges (s : Server) :
    ∃ new, (finalState ((update env user).run s)).sent = s.sent ++ new ∧
      ∀ e ∈ new, Exchange user (s.heap user).localUsers.keys (s.heap user).updateRequired e := by
  let order := env.arrange s.ticks (s.heap user).localUsers.keys
  have hloop : Keeps (Exchanges user (s.heap user).localUsers.keys (s.heap user).updateRequired)
      (order.forM (updateAbout env user)) :=
    .forM fun other hother => exchanges_updateAbout ((env.arrange_perm _ _).mem_iff.mp hother)
  exact (hloop { s with ticks := s.ticks + 1 } rfl).2

end Update

/-- A push about a user tells exactly the members of the user's own set that it does not filter
out, so it tells the users that see it just when, among these, seeing is mutual. `update` sends
positions between a user and the members of the user's set, in both directions. -/
theorem told_along_own_set (env : Environment) :
    (∀ (push : Push) (clientSocket : Socket) (user other : Ptr) (x : Session), other ≠ user →
      (ToldAbout x.server (finalState ((push.program env clientSocket user).run x)).server user
          other ↔
        (∃ y, (push.program env clientSocket user).run x = .ok () y) ∧
          push.occurs (x.server.heap user) ∧ other ∈ (x.server.heap user).localUsers ∧
          push.audience (x.server.heap other) = true)) ∧
      (∀ (push : Push) (clientSocket : Socket) (user : Ptr) (x y : Session),
        (push.program env clientSocket user).run x = .ok () y →
        push.occurs (x.server.heap user) →
        ((∀ other, other ≠ user → (ToldAbout x.server y.server user other ↔
            user ∈ (x.server.heap other).localUsers ∧
              push.audience (x.server.heap other) = true)) ↔
          ∀ other, other ≠ user → push.audience (x.server.heap other) = true →
            (other ∈ (x.server.heap user).localUsers ↔
              user ∈ (x.server.heap other).localUsers))) ∧
      ∀ (user : Ptr) (s : Server), ∃ new,
        (finalState ((update env user).run s)).sent = s.sent ++ new ∧
          ∀ e ∈ new,
            Exchange user (s.heap user).localUsers.keys (s.heap user).updateRequired e := by
  refine ⟨?_, ?_, fun user s => update_exchanges s⟩
  · intro push clientSocket user other x hother
    exact push.toldAbout_iff env clientSocket x hother
  · intro push clientSocket user x y hrun hoccurs
    refine forall_congr' fun other => ?_
    have h (hother : other ≠ user) := push.toldAbout_iff env clientSocket x hother
    rw [hrun] at h
    simp only [finalState_ok, EStateM.Result.ok.injEq, true_and, exists_eq', hoccurs] at h
    constructor
    · intro hobserver hother haudience
      have := (h hother).symm.trans (hobserver hother)
      simpa only [haudience, and_true] using this
    · intro hmutual hother
      rw [h hother]
      exact and_congr_left fun haudience => hmutual hother haudience

section TwoUsers

open HandshakePacket

/-- A controller that sees far, and a pilot sixty miles away that does not. -/
def towerFields : Fields where
  protoVersion := protoVersion
  callSign := "TWR".toUTF8.toList
  loginName := []
  username := "1".toUTF8.toList
  password := []
  requestTime := 1000
  location := ⟨⟨0⟩, ⟨0⟩⟩
  visibility := 100
  type := 0
  frequencies _ := 99998
  typeFields := .controller 1 1

def flightFields : Fields where
  protoVersion := protoVersion
  callSign := "DAL1".toUTF8.toList
  loginName := []
  username := "2".toUTF8.toList
  password := []
  requestTime := 1000
  location := ⟨⟨0x3FF0000000000000⟩, ⟨0⟩⟩
  visibility := 10
  type := 1
  frequencies _ := 99998
  typeFields := .pilot 1 [] [] 0 0

def sixtyMiles (a b : Location) : Option ℚ := if a = b then some 0 else some 60

/-- The server after the two have logged in. -/
def twoUsers : Server :=
  finalState (((do
    accept 1 towerFields
    accept 2 flightFields) : ServerM Unit).run
      (Server.initial fun _ => Storage.zeroed))

/-- And after the first pass of the update. -/
def afterPass : Server := finalState ((globalUpdate (.orderly sixtyMiles)).run twoUsers)

theorem afterPass_run :
    (globalUpdate (.orderly sixtyMiles)).run twoUsers = .ok () afterPass :=
  run_eq_ok (by decide +kernel)

/-- A script of the controller reaches the pilot, which does not see the controller. -/
theorem script_reaches_pilot :
    ToldAbout afterPass
      (finalState ((Push.program (.orderly sixtyMiles) 1 0 (.register ⟨-1, [], [.int 0]⟩)).run
        ⟨afterPass, .empty, []⟩)).server 0 1 :=
  ((told_along_own_set (.orderly sixtyMiles)).1 (.register ⟨-1, [], [.int 0]⟩) 1 0 1
    ⟨afterPass, .empty, []⟩ (by decide)).mpr
    ⟨⟨_, run_eq_ok (by decide +kernel)⟩, trivial, by decide +kernel, rfl⟩

/-- The pilot changes its transponder and the controller that sees it is not told; the
controller's update goes to the pilot, which does not see the controller. -/
theorem transponder_misses_observer :
    (¬ ∀ (env : Environment) (s t : Server), (globalUpdate env).run s = .ok () t →
      ∀ (push : Push) (clientSocket : Socket) (user other : Ptr) (x y : Session), x.server = t →
        (push.program env clientSocket user).run x = .ok () y → push.occurs (t.heap user) →
        other ≠ user →
        (ToldAbout t y.server user other ↔
          user ∈ (t.heap other).localUsers ∧ push.audience (t.heap other) = true)) ∧
      ¬ ∀ (env : Environment) (s t : Server), (globalUpdate env).run s = .ok () t →
        ∀ (user : Ptr), ∀ e ∈ (finalState ((update env user).run t)).sent.drop t.sent.length,
          isPosition e.message = true → ∀ about, e.message.about = some about →
            about ∈ (t.heap e.recipient).localUsers := by
  constructor
  · intro h
    let x : Session := ⟨afterPass, .preallocated [49, 50, 48, 48, 0], []⟩
    have hrun := run_eq_ok (x := Push.program (.orderly sixtyMiles) 2 1 .transponder) (s := x)
      (by decide +kernel)
    have hpilot : (afterPass.heap 1).getType = .pilot := by decide +kernel
    have htold := (h _ _ _ afterPass_run .transponder 2 1 0 x _ rfl hrun hpilot (by decide)).mpr
      ⟨by decide +kernel, by decide +kernel⟩
    have hmem := ((Push.toldAbout_iff .transponder _ 2 x (by decide)).mp htold).2.2.1
    exact absurd hmem (by decide +kernel)
  · intro h
    have hsent : ∃ e ∈ (finalState ((update (.orderly sixtyMiles) 0).run afterPass)).sent.drop
        afterPass.sent.length,
        e.recipient = 1 ∧ isPosition e.message = true ∧ e.message.about = some 0 := by
      decide +kernel
    obtain ⟨e, he, hrecipient, hposition, habout⟩ := hsent
    have hmem := h _ _ _ afterPass_run 0 e he hposition 0 habout
    rw [hrecipient] at hmem
    exact absurd hmem (by decide +kernel)

end TwoUsers

end Win64Server.Observers
