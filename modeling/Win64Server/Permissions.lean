import Win64Server.KnownHandlers

/-!
What a packet is allowed to do. A packet works for the user of its connection: it changes certain
members of that user's object and of no other, and tells that user and its local users about it.
Only a flight plan names the pilot it is stored for, and only a private message goes to whoever
has the callsign in it.
-/
namespace Win64Server.Permissions

open Outcome Library Server Frames BasicStream PacketFields Unwritten

def mapAircraft (f : Aircraft → Aircraft) : Derived → Derived
  | .aircraft a => .aircraft (f a)
  | .controller x => .controller x

/-- What is left of a user when the members that a packet with this id may write are blanked. -/
def blank : ℕ → User → User
  | 1, u => { u with
      location := ⟨⟨0⟩, ⟨0⟩⟩, lastPositionUpdate := 0
      derived := mapAircraft (fun a => { a with state := ⟨0, 0, 0, 0, ⟨0⟩⟩ }) u.derived }
  | 2, u => { u with derived := mapAircraft (fun a => { a with transponder := [] }) u.derived }
  | 3, u => { u with location := ⟨⟨0⟩, ⟨0⟩⟩, lastPositionUpdate := 0 }
  | 5, u => { u with requestTime := fun _ => 0 }
  | 7, u => { u with derived := mapAircraft (fun a => { a with acfTitle := [] }) u.derived }
  | 8, u => { u with
      derived := mapAircraft (fun a => { a with mode := 0, heavy := false }) u.derived }
  | 10, u => { u with
      updateOnlyQueues := Function.update u.updateOnlyQueues 0 false
      derived := mapAircraft (fun a => { a with flightPlan := a.flightPlan.map fun plan =>
        ⟨[], [], [], [], [], [], [], [], [], plan.flightRules, 0⟩ }) u.derived }
  | 13, u => { u with frequencies := fun _ => 0 }
  | 14, u => { u with scripts := .init }
  | _, u => u

/-- `keeps` says of each user object what stays, `tells` which messages may be sent and `closes`
which sockets may be closed. -/
structure Permission where
  keeps : Ptr → User → User
  tells : Sent → Prop
  closes : Socket → Prop

/-- Nothing but what is permitted has happened between two states. -/
structure Acted (c : Permission) (s t : Server) : Prop where
  heap : ∀ p, c.keeps p (t.heap p) = c.keeps p (s.heap p)
  next : t.next = s.next
  storage : t.storage = s.storage
  clientManager : t.clientManager = s.clientManager
  clientSockets : t.clientSockets = s.clientSockets
  byteData : t.byteData = s.byteData
  lastPacketReceived : t.lastPacketReceived = s.lastPacketReceived
  closedSockets : ∃ new, t.closedSockets = s.closedSockets ++ new ∧ ∀ x ∈ new, c.closes x
  sent : ∃ new, t.sent = s.sent ++ new ∧ ∀ e ∈ new, c.tells e

/-- The user whose object the packet may change. -/
def target (s : Server) (clientSocket : Socket) (id : ℕ) (buf : BasicStream) : Option Ptr :=
  if id = 10 then updatedPilot s buf else s.clientManager.getUserBySocket clientSocket

/-- The one kind of message about a user that a packet may cause. It shows the user as it was, but
for the members that the packet may write. -/
def news (s : Server) (id : ℕ) (about : Ptr) (message : Outgoing) : Prop :=
  ∃ r, blank id r = blank id (s.heap about) ∧
    match id with
    | 2 => ∃ aircraft, message = .clientTransponder about r aircraft
    | 6 => ∃ frequency text asel, message = .message about r frequency text asel
    | 8 => ∃ aircraft, message = .clientModeChange about r aircraft
    | 11 => ∃ plan, message = .flightPlanCycle about r plan
    | 13 => message = .primFreq about r
    | 14 => ∃ script, message = .script about r script
    | _ => False

/-- The index of the pilot whose plan a packet asks for. -/
def requestedIndex (buf : BasicStream) : Option ℕ :=
  match readUnsignedShort.run buf with
  | .ok index _ => some index
  | .error _ _ => none

/-- The messages that a packet of this user may cause. -/
def mayTell (s : Server) (buf : BasicStream) (u : Ptr) (e : Sent) (id : ℕ) : Prop :=
  match id with
  | 2 | 6 | 8 | 13 => e.recipient ∈ (s.heap u).localUsers ∧ news s id u e.message
  | 14 => (e.recipient = u ∨ e.recipient ∈ (s.heap u).localUsers) ∧ news s id u e.message
  | 11 => e.recipient = u ∧ ∃ index about, requestedIndex buf = some index ∧
      s.clientManager.getUserByIndex index = some about ∧ news s id about e.message
  | 12 => e.recipient ≠ u ∧ ∃ callsign text,
      s.clientManager.getUserByCallsign callsign = some e.recipient ∧
        e.message = .privateMessage (s.heap u).identity.callsign text
  | _ => False

def permission (s : Server) (clientSocket : Socket) (id : ℕ) (buf : BasicStream) : Permission where
  keeps p u := if target s clientSocket id buf = some p then blank id u else u
  tells e := ∃ u, s.clientManager.getUserBySocket clientSocket = some u ∧ mayTell s buf u e id
  closes x := id = 9 ∧ x = clientSocket

namespace Acted

variable {c : Permission} {s t m : Server}

theorem refl (s : Server) : Acted c s s :=
  ⟨fun _ => rfl, rfl, rfl, rfl, rfl, rfl, rfl, ⟨[], by simp, by simp⟩, [], by simp, by simp⟩

theorem ticks (h : Acted c s t) (n : ℕ) : Acted c s { t with ticks := n } :=
  ⟨h.heap, h.next, h.storage, h.clientManager, h.clientSockets, h.byteData, h.lastPacketReceived,
    h.closedSockets, h.sent⟩

theorem push (h : Acted c s t) {recipient : Ptr} {message : Outgoing}
    (htells : c.tells ⟨recipient, message⟩) : Acted c s (t.push recipient message) := by
  obtain ⟨new, hsent, hnew⟩ := h.sent
  refine ⟨h.heap, h.next, h.storage, h.clientManager, h.clientSockets, h.byteData,
    h.lastPacketReceived, h.closedSockets, new ++ [⟨recipient, message⟩], ?_, fun e he => ?_⟩
  · rw [push_sent, hsent, List.append_assoc]
  · rcases List.mem_append.mp he with he | he
    · exact hnew e he
    · rw [List.mem_singleton.mp he]
      exact htells

theorem modifyUser (h : Acted c s t) {user : Ptr} {f : User → User}
    (hf : c.keeps user (f (t.heap user)) = c.keeps user (t.heap user)) :
    Acted c s (t.modifyUser user f) := by
  refine ⟨fun p => ?_, h.next, h.storage, h.clientManager, h.clientSockets, h.byteData,
    h.lastPacketReceived, h.closedSockets, h.sent⟩
  rw [← h.heap p]
  by_cases hp : p = user
  · rw [hp, modifyUser_heap_self, hf]
  · rw [modifyUser_heap_ne _ _ _ _ hp]

theorem close (h : Acted c s t) {clientSocket : Socket} (hcloses : c.closes clientSocket) :
    Acted c s { t with closedSockets := t.closedSockets ++ [clientSocket] } := by
  obtain ⟨new, hclosed, hnew⟩ := h.closedSockets
  refine ⟨h.heap, h.next, h.storage, h.clientManager, h.clientSockets, h.byteData,
    h.lastPacketReceived, ⟨new ++ [clientSocket], ?_, fun x hx => ?_⟩, h.sent⟩
  · rw [hclosed, List.append_assoc]
  · rcases List.mem_append.mp hx with hx | hx
    · exact hnew x hx
    · rw [List.mem_singleton.mp hx]
      exact hcloses

end Acted

/-- A state that only permitted acts lead to leads to another such state. -/
def Obeys (c : Permission) (s₀ s t : Server) : Prop := Acted c s₀ s → Acted c s₀ t

section Operations

variable {c : Permission} {s₀ : Server}

instance : Std.Refl (Obeys c s₀) := ⟨fun _ h => h⟩

instance : IsTrans Server (Obeys c s₀) := ⟨fun _ _ _ h h' => h' ∘ h⟩

instance (u : Ptr) : Kept (Obeys c s₀) (getUser u) := ⟨fun _ h => h⟩

instance (env : Environment) : Kept (Obeys c s₀) (readClock env) := ⟨fun _ h => h.ticks _⟩

instance (u : Ptr) : Kept (Obeys c s₀) (getAircraft u) := by
  unfold getAircraft
  refine .of_bind inferInstance fun r => ?_
  cases r.asAircraft <;> infer_instance

instance (u : Ptr) : Kept (Obeys c s₀) (getFlightPlan u) := by
  unfold getFlightPlan; infer_instance

theorem kept_updateUser {u : Ptr} {f : User → User}
    (hf : ∀ r, c.keeps u (f r) = c.keeps u r) : Kept (Obeys c s₀) (updateUser u f) :=
  ⟨fun _ h => h.modifyUser (hf _)⟩

/-- The user object in the message is what the packet has left of it. -/
theorem kept_sendUser {recipient u : Ptr} {message : User → Outgoing}
    (h : ∀ r, c.keeps u r = c.keeps u (s₀.heap u) → c.tells ⟨recipient, message r⟩) :
    Kept (Obeys c s₀) (getUser u >>= fun r => send recipient (message r)) :=
  ⟨fun s hacted => hacted.push (h (s.heap u) (hacted.heap u))⟩

theorem kept_sendFlightPlanCycle {recipient sender : Ptr}
    (h : ∀ r plan, c.keeps sender r = c.keeps sender (s₀.heap sender) →
      c.tells ⟨recipient, .flightPlanCycle sender r plan⟩) :
    Kept (Obeys c s₀) (Server.sendFlightPlanCycle recipient sender) := by
  refine ⟨fun s hacted => ?_⟩
  rw [Server.sendFlightPlanCycle, run_bind_of_ok (getUser_run s sender)]
  cases hair : (s.heap sender).asAircraft with
  | none =>
    rw [run_bind_of_error (getFlightPlan_run_of_none hair)]
    exact hacted
  | some a =>
    rw [run_bind_of_ok (getFlightPlan_run hair)]
    cases a.flightPlan with
    | none => exact hacted
    | some plan => exact hacted.push (h _ plan (hacted.heap sender))

/-- The loop meets the local users that the user had before the packet. -/
theorem kept_iterateLocalUsers {env : Environment} {u : Ptr} {func : Ptr → ServerM Unit}
    (hlocal : ∀ s, Acted c s₀ s → (s.heap u).localUsers = (s₀.heap u).localUsers)
    (hfunc : ∀ other ∈ (s₀.heap u).localUsers, Kept (Obeys c s₀) (func other)) :
    Kept (Obeys c s₀) (iterateLocalUsers env u func) := by
  refine ⟨fun s h => ?_⟩
  have hround : ∀ other ∈ env.arrange s.ticks (s.heap u).localUsers.keys,
      Keeps (Obeys c s₀) (func other) := by
    intro other hmem
    rw [(env.arrange_perm _ _).mem_iff, ← AList.mem_keys, hlocal s h] at hmem
    exact (hfunc other hmem).keeps
  exact Keeps.forM hround _ (h.ticks _)

theorem kept_deref_bind {α : Type} {user : Option Ptr} {f : Ptr → HandlerM α}
    (hf : ∀ u, user = some u → Kept (Lifted (Obeys c s₀)) (f u)) :
    Kept (Lifted (Obeys c s₀)) (deref user >>= f) := by
  cases user with
  | none => exact ⟨fun _ => Std.Refl.refl _⟩
  | some u => exact hf u rfl

end Operations

/-- A program that is run where the packet starts. -/
theorem acted_of_kept {c : Permission} {program : HandlerM Unit} (x : Session)
    (h : Kept (Lifted (Obeys c x.server)) program) :
    Acted c x.server (finalState (program.run x)).server := (h.keeps x).1 (.refl _)

section Handlers

variable {c : Permission} {s₀ : Server} {user : Option Ptr} {id : ℕ} (env : Environment)
  (clientSocket : Socket)

theorem blank_localUsers (id : ℕ) (u : User) : (blank id u).localUsers = u.localUsers := by
  unfold blank
  split <;> rfl

theorem modifyAircraft_eq (u : User) (f : Aircraft → Aircraft) :
    u.modifyAircraft f = { u with derived := mapAircraft f u.derived } := by
  unfold User.modifyAircraft
  split
  · next a ha => rw [ha]; rfl
  · next x hx =>
    rw [hx]
    cases u
    cases hx
    rfl

theorem mapAircraft_mapAircraft {f g : Aircraft → Aircraft} (h : ∀ a, g (f a) = g a)
    (d : Derived) : mapAircraft g (mapAircraft f d) = mapAircraft g d := by
  cases d with
  | aircraft a => exact congrArg Derived.aircraft (h a)
  | controller x => rfl

/-- The members that a packet of this kind may write are those of its user. -/
def Writes (c : Permission) (user : Option Ptr) (id : ℕ) : Prop :=
  ∀ p u, c.keeps p u = if user = some p then blank id u else u

theorem Writes.keeps (h : Writes c user id) {u : Ptr} (hu : user = some u) (r : User) :
    c.keeps u r = blank id r := by rw [h, if_pos hu]

theorem Writes.localUsers (h : Writes c user id) {s : Server} (hacted : Acted c s₀ s) (u : Ptr) :
    (s.heap u).localUsers = (s₀.heap u).localUsers := by
  have hsame := hacted.heap u
  rw [h, h] at hsame
  split at hsame
  · rw [← blank_localUsers id, hsame, blank_localUsers]
  · rw [hsame]

theorem Writes.kept_updateUser (h : Writes c user id) {u : Ptr} (hu : user = some u)
    {f : User → User} (hf : ∀ r, blank id (f r) = blank id r) :
    Kept (Obeys c s₀) (updateUser u f) :=
  Permissions.kept_updateUser fun r => by rw [h.keeps hu, h.keeps hu, hf]

theorem Writes.kept_modifyAircraft (h : Writes c user id) {u : Ptr} (hu : user = some u)
    {f : Aircraft → Aircraft} (hf : ∀ r, blank id (r.modifyAircraft f) = blank id r) :
    Kept (Obeys c s₀) (updateUser u fun r => r.modifyAircraft f) := h.kept_updateUser hu hf

/-- The local users of the user may be told about it. -/
def TellsLocal (c : Permission) (s₀ : Server) (user : Option Ptr) (id : ℕ) : Prop :=
  ∀ u, user = some u → ∀ e : Sent, e.recipient ∈ (s₀.heap u).localUsers →
    news s₀ id u e.message → c.tells e

theorem Writes.shown (h : Writes c user id) {u : Ptr} (hu : user = some u) {r : User}
    (hr : c.keeps u r = c.keeps u (s₀.heap u)) : blank id r = blank id (s₀.heap u) := by
  rwa [h.keeps hu, h.keeps hu] at hr

theorem acts_pilotUpdate (h : Writes c user 1) :
    Kept (Lifted (Obeys c s₀)) (PilotUpdate.handle env clientSocket user) := by
  unfold PilotUpdate.handle
  refine .of_bind inferInstance fun latitude => .of_bind inferInstance fun longitude => ?_
  refine kept_deref_bind fun u hu => ?_
  have hstore (f : User → User) (hf : ∀ r, blank 1 (f r) = blank 1 r) :
      Kept (Obeys c s₀) (updateUser u f) := h.kept_updateUser hu hf
  refine .of_bind (@kept_onServer _ _ _ (hstore _ fun _ => rfl)) fun _ => ?_
  refine .of_bind inferInstance fun hash => .of_bind inferInstance fun groundSpeed => ?_
  refine .of_bind inferInstance fun altitude => @kept_onServer _ _ _ ?_
  refine .of_bind (hstore _ fun r => ?_) fun _ => ?_
  · simp only [blank, modifyAircraft_eq, mapAircraft_mapAircraft, implies_true]
  · exact .of_bind inferInstance fun now => hstore _ fun _ => rfl

theorem acts_controllerUpdate (h : Writes c user 3) :
    Kept (Lifted (Obeys c s₀)) (ControllerUpdate.handle env clientSocket user) := by
  unfold ControllerUpdate.handle
  refine .of_bind inferInstance fun latitude => .of_bind inferInstance fun longitude => ?_
  refine kept_deref_bind fun u hu => @kept_onServer _ _ _ ?_
  refine .of_bind (h.kept_updateUser hu fun _ => rfl) fun _ => ?_
  exact .of_bind inferInstance fun now => h.kept_updateUser hu fun _ => rfl

theorem acts_transponder (h : Writes c user 2) (htells : TellsLocal c s₀ user 2) :
    Kept (Lifted (Obeys c s₀)) (TransponderPacket.handle env clientSocket user) := by
  unfold TransponderPacket.handle
  refine .of_bind inferInstance fun code => kept_deref_bind fun u hu => @kept_onServer _ _ _ ?_
  refine .of_bind inferInstance fun r => .of_ite ?_ inferInstance
  refine .of_bind (h.kept_modifyAircraft hu fun r => ?_) fun _ => ?_
  · simp only [blank, modifyAircraft_eq, mapAircraft_mapAircraft, implies_true]
  · refine .of_bind inferInstance fun aircraft => ?_
    refine kept_iterateLocalUsers (fun s hs => h.localUsers hs u) fun other hother => ?_
    refine .of_bind inferInstance fun o => .of_ite ?_ inferInstance
    exact kept_sendUser fun r hr => htells u hu _ hother ⟨r, h.shown hu hr, aircraft, rfl⟩

theorem blank_setRequestedInterval {u v : User} {type : ℕ} {request : ℤ}
    (h : u.setRequestedInterval type request = some v) : blank 5 v = blank 5 u := by
  unfold User.setRequestedInterval at h
  split at h
  · cases h
    rfl
  · cases h

/-- The user that is stored is a changed copy of the one that was read. -/
theorem acts_changeCycle (h : Writes c user 5) :
    Kept (Lifted (Obeys c s₀)) (ChangeCyclePacket.handle clientSocket user) := by
  unfold ChangeCyclePacket.handle
  refine .of_bind inferInstance fun index => .of_bind inferInstance fun x => ?_
  refine .of_bind inferInstance fun type => .of_bind inferInstance fun requestTime => ?_
  refine .of_ite (kept_deref_bind fun u hu => @kept_onServer _ _ _ ⟨fun s => ?_⟩) inferInstance
  rw [run_bind_of_ok (getUser_run s u)]
  cases hset : (s.heap u).setRequestedInterval type requestTime with
  | none => exact Std.Refl.refl s
  | some changed =>
    refine fun hacted => hacted.modifyUser (f := fun _ => changed) ?_
    rw [h.keeps hu, h.keeps hu, blank_setRequestedInterval hset]

theorem acts_message (h : Writes c user 6) (htells : TellsLocal c s₀ user 6) :
    Kept (Lifted (Obeys c s₀)) (MessageRxPacket.handle env clientSocket user) := by
  unfold MessageRxPacket.handle
  refine .of_bind inferInstance fun callsign => .of_bind inferInstance fun frequency => ?_
  refine .of_bind inferInstance fun message => .of_bind inferInstance fun x => ?_
  refine kept_deref_bind fun u hu => @kept_onServer _ _ _ ?_
  refine kept_iterateLocalUsers (fun s hs => h.localUsers hs u) fun other hother => ?_
  refine .of_bind inferInstance fun o => .of_ite ?_ inferInstance
  have hsend (asel : Bool) :
      Kept (Obeys c s₀) (Server.sendMessage other u frequency message asel) :=
    kept_sendUser fun r hr =>
      htells u hu _ hother ⟨r, h.shown hu hr, frequency, message, asel, rfl⟩
  cases x.server.clientManager.getUserByCallsign callsign with
  | none => exact hsend false
  | some a => exact .of_bind inferInstance fun r => hsend _

theorem acts_pilotTitle (h : Writes c user 7) :
    Kept (Lifted (Obeys c s₀)) (PilotTitle.handle clientSocket user) := by
  unfold PilotTitle.handle
  refine .of_bind inferInstance fun index => .of_bind inferInstance fun x => ?_
  refine .of_bind inferInstance fun title => ?_
  by_cases hown : x.server.clientManager.getUserByIndex index = user
  · rw [if_pos hown, hown]
    refine kept_deref_bind fun u hu => @kept_onServer _ _ _ (h.kept_modifyAircraft hu fun r => ?_)
    simp only [blank, modifyAircraft_eq, mapAircraft_mapAircraft, implies_true]
  · rw [if_neg hown]
    infer_instance

theorem acts_clientMode (h : Writes c user 8) (htells : TellsLocal c s₀ user 8) :
    Kept (Lifted (Obeys c s₀)) (ClientMode.handle env clientSocket user) := by
  unfold ClientMode.handle
  refine .of_bind inferInstance fun i => kept_deref_bind fun u hu => @kept_onServer _ _ _ ?_
  refine .of_bind inferInstance fun r => .of_ite ?_ inferInstance
  refine .of_bind (h.kept_modifyAircraft hu fun r => ?_) fun _ => ?_
  · simp only [blank, modifyAircraft_eq, mapAircraft_mapAircraft, implies_true]
  · refine .of_bind inferInstance fun aircraft => ?_
    refine kept_iterateLocalUsers (fun s hs => h.localUsers hs u) fun other hother => ?_
    exact kept_sendUser fun r hr => htells u hu _ hother ⟨r, h.shown hu hr, aircraft, rfl⟩

theorem acts_clientDisconnect (hcloses : c.closes clientSocket) :
    Kept (Lifted (Obeys c s₀)) (ClientDisconnect.handle clientSocket user) := by
  unfold ClientDisconnect.handle
  refine .of_bind inferInstance fun flag => kept_deref_bind fun u hu => ?_
  exact @kept_onServer _ _ _ ⟨fun s hacted => hacted.close hcloses⟩

theorem acts_primeFreq (h : Writes c user 13) (htells : TellsLocal c s₀ user 13) :
    Kept (Lifted (Obeys c s₀)) (PrimeFreqPacket.handle env clientSocket user) := by
  unfold PrimeFreqPacket.handle
  refine .of_bind inferInstance fun flags => .of_bind inferInstance fun first => ?_
  refine kept_deref_bind fun u hu => ?_
  refine .of_bind (@kept_onServer _ _ _ (h.kept_updateUser hu fun _ => rfl)) fun _ => ?_
  refine .of_bind inferInstance fun second => @kept_onServer _ _ _ ?_
  refine .of_bind (h.kept_updateUser hu fun _ => rfl) fun _ => ?_
  refine kept_iterateLocalUsers (fun s hs => h.localUsers hs u) fun other hother => ?_
  refine .of_bind inferInstance fun o => .of_ite ?_ inferInstance
  exact kept_sendUser fun r hr => htells u hu _ hother ⟨r, h.shown hu hr, rfl⟩

/-- The sender of a plan request is the only one told, about the pilot that has the index in it. -/
theorem acts_requestFlightPlan {x : Session} (h : Writes c user 11)
    (htells : ∀ u index about, user = some u → requestedIndex x.buf = some index →
      x.server.clientManager.getUserByIndex index = some about →
        ∀ e : Sent, e.recipient = u → news x.server 11 about e.message → c.tells e) :
    Acted c x.server
      (finalState ((RequestFlightPlan.handle clientSocket user).run x)).server := by
  unfold RequestFlightPlan.handle
  cases hfirst : readUnsignedShort.run x.buf with
  | error e buf =>
    rw [run_bind_of_error (by rw [run_onBuf, hfirst])]
    exact .refl _
  | ok index buf =>
    have hasked : requestedIndex x.buf = some index := by rw [requestedIndex, hfirst]
    rw [run_onBuf_bind hfirst]
    cases hsecond : readUnsignedShort.run buf with
    | error e buf' =>
      rw [run_bind_of_error (by rw [run_onBuf, hsecond])]
      exact .refl _
    | ok curCycle buf' =>
      rw [run_onBuf_bind hsecond, run_bind_of_ok (EStateM.run_get ..)]
      dsimp only
      cases hindex : x.server.clientManager.getUserByIndex index with
      | none => exact .refl _
      | some userFp =>
        refine acted_of_kept ⟨x.server, buf', x.dispatched⟩ (.of_ite ?_ inferInstance)
        refine .of_bind inferInstance fun plan => ?_
        cases plan with
        | none => infer_instance
        | some plan =>
          refine .of_ite (kept_deref_bind fun u hu => @kept_onServer _ _ _ ?_) inferInstance
          refine kept_sendFlightPlanCycle fun r plan hr =>
            htells u index userFp hu hasked hindex _ rfl ⟨r, ?_, plan, rfl⟩
          rw [h, h] at hr
          split at hr <;> exact hr

theorem acts_tempData (h : Writes c user 14) (htells : TellsLocal c s₀ user 14)
    (hself : ∀ u, user = some u → ∀ e : Sent, e.recipient = u → news s₀ 14 u e.message →
      c.tells e) :
    Kept (Lifted (Obeys c s₀)) (TempDataPacket.handle env clientSocket user) := by
  unfold TempDataPacket.handle
  refine .of_bind inferInstance fun assembly => .of_bind inferInstance fun slots => ?_
  refine .of_bind inferInstance fun first => kept_deref_bind fun u hu => ?_
  refine @kept_onServer _ _ _ (.of_bind inferInstance fun r => ?_)
  have hsend {recipient : Ptr} (script : ClientScript)
      (htold : ∀ r, c.keeps u r = c.keeps u (s₀.heap u) → c.tells ⟨recipient, .script u r script⟩) :
      Kept (Obeys c s₀) (Server.sendScript recipient u script) := by
    refine ⟨fun s hacted => ?_⟩
    rw [Server.sendScript, run_bind_of_ok (getUser_run s u)]
    split
    · exact hacted.push (htold (s.heap u) (hacted.heap u))
    · exact hacted
  cases r.scripts.addScript _ with
  | error e => infer_instance
  | ok placed =>
    refine .of_bind (h.kept_updateUser hu fun _ => rfl) fun _ => ?_
    refine .of_bind (hsend _ fun r hr => hself u hu _ rfl ⟨r, h.shown hu hr, _, rfl⟩) fun _ => ?_
    refine kept_iterateLocalUsers (fun s hs => h.localUsers hs u) fun other hother => ?_
    exact hsend _ fun r hr => htells u hu _ hother ⟨r, h.shown hu hr, _, rfl⟩

/-- The plan of the pilot that the packet names. -/
theorem acts_flightPlan {x : Session} (h : Writes c (updatedPilot x.server x.buf) 10) :
    Acted c x.server
      (finalState ((FlightPlanUpdate.handle clientSocket user).run x)).server := by
  cases hread : FlightPlanUpdate.readFields.run x.buf with
  | error e t =>
    obtain ⟨e', y, hrun, hserver⟩ := FlightPlanUpdate.handle_stops clientSocket user hread
    rw [hrun, finalState_error, hserver]
    exact .refl _
  | ok f t =>
    rw [FlightPlanUpdate.handle_run clientSocket user hread, finalState_onServer]
    rw [updatedPilot, hread] at h
    dsimp only at h ⊢
    cases hindex : x.server.clientManager.getUserByIndex f.index with
    | none => exact .refl _
    | some u =>
      rw [hindex] at h
      change Acted c x.server (finalState ((FlightPlanUpdate.apply u f).run x.server))
      cases hair : (x.server.heap u).asAircraft with
      | none =>
        rw [FlightPlanUpdate.apply_controller hair]
        exact .refl _
      | some a =>
        cases hplan : a.flightPlan with
        | none =>
          rw [FlightPlanUpdate.apply_noPlan hair hplan]
          exact .refl _
        | some plan =>
          rw [FlightPlanUpdate.apply_plan hair hplan]
          refine (Acted.refl x.server).modifyUser ?_
          have hderived := derived_of_asAircraft hair
          rw [h.keeps rfl, h.keeps rfl, FlightPlanUpdate.updated, modifyAircraft_eq]
          simp only [blank, hderived, mapAircraft, FlightPlanUpdate.Fields.store, hplan,
            Option.map_some, Function.update_idem]

/-- The text goes out in the name of the user. -/
theorem acts_privateMessage {x : Session}
    (htells : ∀ u recipient callsign text, user = some u → recipient ≠ u →
      x.server.clientManager.getUserByCallsign callsign = some recipient →
        c.tells ⟨recipient, .privateMessage (x.server.heap u).identity.callsign text⟩) :
    Acted c x.server
      (finalState ((PrivateMsgPacket.handle clientSocket user).run x)).server := by
  unfold PrivateMsgPacket.handle readText
  cases hfirst : readStringCopy.run x.buf with
  | error e buf =>
    rw [run_bind_of_error (by rw [run_onBuf, hfirst])]
    exact .refl _
  | ok callsign buf =>
    rw [run_onBuf_bind hfirst, run_bind_of_ok (EStateM.run_get ..)]
    cases hsecond : readStringCopy.run buf with
    | error e buf' =>
      rw [run_bind_of_error (by rw [run_onBuf, hsecond])]
      exact .refl _
    | ok message buf' =>
      rw [run_onBuf_bind hsecond]
      dsimp only
      cases hcallsign : x.server.clientManager.getUserByCallsign callsign with
      | none => exact .refl _
      | some u1 =>
        dsimp only
        by_cases hself : some u1 = user
        · rw [if_neg (not_not.mpr hself)]
          exact .refl _
        · rw [if_pos hself]
          cases user with
          | none => exact .refl _
          | some u =>
            have hne : u1 ≠ u := fun heq => hself (heq ▸ rfl)
            exact (Acted.refl _).push (htells u u1 callsign message rfl hne hcallsign)

end Handlers

section Packet

variable {env : Environment} (clientSocket : Socket) (x : Session)

/-- The handler of a packet is called with the user of the connection. -/
theorem processPacket_run {id : ℕ} (size : ℤ) {packet : Packet}
    (hpacket : (registerPackets env).getPacket id = some packet) :
    (processPacket (registerPackets env) clientSocket id size).run x =
      (packet.handle clientSocket (x.server.clientManager.getUserBySocket clientSocket)).run
        { x with dispatched := x.dispatched ++ [(id, x.buf.unread.take size.toNat)] } := by
  simp only [processPacket, EStateM.run_bind, EStateM.run_get, EStateM.run_set, hpacket]

/-- The permission of a packet covers its handler. -/
theorem handle_acted {id : ℕ} {packet : Packet} (hlogin : id ≠ 45)
    (hpacket : (registerPackets env).getPacket id = some packet) :
    Acted (permission x.server clientSocket id x.buf) x.server (finalState
      ((packet.handle clientSocket (x.server.clientManager.getUserBySocket clientSocket)).run
        x)).server := by
  have hlocal {id : ℕ} (hid : id ∈ [2, 6, 8, 13, 14]) :
      TellsLocal (permission x.server clientSocket id x.buf) x.server
        (x.server.clientManager.getUserBySocket clientSocket) id := by
    intro u hu e hrecipient hnews
    refine ⟨u, hu, ?_⟩
    simp only [List.mem_cons, List.not_mem_nil, or_false] at hid
    rcases hid with rfl | rfl | rfl | rfl | rfl
    · exact ⟨hrecipient, hnews⟩
    · exact ⟨hrecipient, hnews⟩
    · exact ⟨hrecipient, hnews⟩
    · exact ⟨hrecipient, hnews⟩
    · exact ⟨Or.inr hrecipient, hnews⟩
  revert hlogin
  apply getPacket_byte_cases hpacket
  case handshake => exact fun hlogin => absurd rfl hlogin
  case pong => exact fun _ => .refl _
  case pilotUpdate =>
    exact fun _ => acted_of_kept x (acts_pilotUpdate env clientSocket fun _ _ => rfl)
  case controllerUpdate =>
    exact fun _ => acted_of_kept x (acts_controllerUpdate env clientSocket fun _ _ => rfl)
  case transponder =>
    exact fun _ =>
      acted_of_kept x (acts_transponder env clientSocket (fun _ _ => rfl) (hlocal (by decide)))
  case changeCycle =>
    exact fun _ => acted_of_kept x (acts_changeCycle clientSocket fun _ _ => rfl)
  case message =>
    exact fun _ =>
      acted_of_kept x (acts_message env clientSocket (fun _ _ => rfl) (hlocal (by decide)))
  case pilotTitle =>
    exact fun _ => acted_of_kept x (acts_pilotTitle clientSocket fun _ _ => rfl)
  case clientMode =>
    exact fun _ =>
      acted_of_kept x (acts_clientMode env clientSocket (fun _ _ => rfl) (hlocal (by decide)))
  case clientDisconnect =>
    exact fun _ => acted_of_kept x (acts_clientDisconnect clientSocket ⟨rfl, rfl⟩)
  case flightPlanUpdate =>
    exact fun _ => @acts_flightPlan _ (x.server.clientManager.getUserBySocket clientSocket)
      clientSocket x fun _ _ => rfl
  case requestFlightPlan =>
    exact fun _ => acts_requestFlightPlan clientSocket (fun _ _ => rfl)
      fun u index about hu hasked hindex e hrecipient hnews =>
        ⟨u, hu, hrecipient, index, about, hasked, hindex, hnews⟩
  case privateMsg =>
    exact fun _ => acts_privateMessage clientSocket
      fun u recipient callsign text hu hne hcallsign => ⟨u, hu, hne, callsign, text, hcallsign, rfl⟩
  case primeFreq =>
    exact fun _ =>
      acted_of_kept x (acts_primeFreq env clientSocket (fun _ _ => rfl) (hlocal (by decide)))
  case tempData =>
    exact fun _ => acted_of_kept x (acts_tempData env clientSocket (fun _ _ => rfl)
      (hlocal (by decide)) fun u hu e hrecipient hnews => ⟨u, hu, Or.inl hrecipient, hnews⟩)

/-- Whatever a packet other than a login makes the server do, it is permitted to the user of its
connection. -/
theorem packet_acted (env : Environment) {id : ℕ} (hlogin : id ≠ 45) (size : ℤ) :
    Acted (permission x.server clientSocket id x.buf) x.server
      (finalState ((processPacket (registerPackets env) clientSocket id size).run x)).server := by
  cases hpacket : (registerPackets env).getPacket id with
  | none =>
    have hrun : (finalState
        ((processPacket (registerPackets env) clientSocket id size).run x)).server = x.server := by
      simp only [processPacket, EStateM.run_bind, EStateM.run_get, EStateM.run_set, hpacket]
      rfl
    rw [hrun]
    exact .refl _
  | some packet =>
    rw [processPacket_run clientSocket x size hpacket]
    exact handle_acted clientSocket
      { x with dispatched := x.dispatched ++ [(id, x.buf.unread.take size.toNat)] } hlogin hpacket

end Packet

end Win64Server.Permissions
