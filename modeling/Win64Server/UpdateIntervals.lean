import Win64Server.HandshakeOutcomes
import Win64Server.Observers
import Win64Server.Library.SecondaryIndex
import Mathlib.Logic.Relation

/-!
The update intervals over runs of passes. The first part of a pass may move an interval either
way; the second part only lowers intervals, and goes over every pair of an observer and a user it
sees, so after it no interval is above what an observer asks for. All the time, whoever changes
the interval of a user also tells the user.
-/
namespace Win64Server.UpdateIntervals

open Outcome Library Server

/-- The interval a message tells its recipient. -/
def interval : Outgoing → Option ℤ
  | .timeChange time => some time
  | .handshakeAccepted _ _ updateInterval => some updateInterval
  | _ => none

/-- The last interval a user has been told. -/
def lastInterval (sent : List Sent) (user : Ptr) : Option ℤ :=
  (sent.filterMap fun e => if e.recipient = user then interval e.message else none).getLast?

/-- The user has been told its interval. -/
def Told (user : Ptr) (s : Server) : Prop :=
  lastInterval s.sent user = some (s.heap user).updateInterval

/-- Everyone connected has been told its interval. -/
def AllTold (s : Server) : Prop := ∀ user ∈ s.clientManager.users, Told user s

/-- The interval of a user is set and the user told. -/
def tell (s : Server) (user : Ptr) (x : ℤ) : Server :=
  (s.modifyUser user fun u => { u with updateInterval := x }).push user (.timeChange x)

/-- A step of the server as far as intervals go: a user gets another one, a login at an address
nothing has been sent to, or whatever tells no interval, changes none and connects nobody, such
as movement, a request or the rest of what a pass does. -/
inductive Step (s : Server) : Server → Prop
  | tell (user : Ptr) (x : ℤ) : Step s (tell s user x)
  | login (clientSocket : Socket) (f : HandshakePacket.Fields)
      (hfresh : lastInterval s.sent s.next = none) :
      Step s (finalState ((HandshakePacket.accept clientSocket f).run s))
  | other (t : Server) (hsent : ∀ user, lastInterval t.sent user = lastInterval s.sent user)
      (hheap : ∀ user, (t.heap user).updateInterval = (s.heap user).updateInterval)
      (husers : ∀ user ∈ t.clientManager.users, user ∈ s.clientManager.users) : Step s t

abbrev Run : Server → Server → Prop := Relation.ReflTransGen Step

section Messages

variable {user : Ptr} {sent : List Sent}

theorem lastInterval_push_none {e : Sent} (h : e.recipient = user → interval e.message = none) :
    lastInterval (sent ++ [e]) user = lastInterval sent user := by
  unfold lastInterval
  by_cases he : e.recipient = user
  · simp [h he]
  · simp [he]

theorem lastInterval_push_some {message : Outgoing} {x : ℤ} (h : interval message = some x) :
    lastInterval (sent ++ [⟨user, message⟩]) user = some x := by
  simp [lastInterval, h]

theorem lastInterval_append_none {new : List Sent} (h : ∀ e ∈ new, interval e.message = none) :
    lastInterval (sent ++ new) user = lastInterval sent user := by
  have hnone : (new.filterMap fun e => if e.recipient = user then interval e.message else none) =
      [] := by
    apply List.filterMap_eq_nil_iff.mpr
    intro e he
    simp [h e he]
  simp only [lastInterval, List.filterMap_append, hnone, List.append_nil]

end Messages

section Passes

variable {s t : Server}

theorem Step.of_sends (h : Sends (fun e => interval e.message = none) s t) : Step s t := by
  obtain ⟨new, hsent, hnew⟩ := h.sent
  apply Step.other t
  · intro user
    rw [hsent, lastInterval_append_none hnew]
  · intro user
    rw [h.heap]
  · intro user huser
    rwa [h.clientManager] at huser

theorem Step.modifyUser {other : Ptr} {f : User → User}
    (hf : (f (s.heap other)).updateInterval = (s.heap other).updateInterval) :
    Step s (s.modifyUser other f) :=
  .other _ (fun _ => rfl) (modifyUser_frame (g := User.updateInterval) hf) fun _ => id

theorem run_ticks (s : Server) (n : ℕ) : Run s { s with ticks := n } :=
  .single (.other _ (fun _ => rfl) (fun _ => rfl) fun _ => id)

theorem runs_sends {α : Type} {x : ServerM α}
    (h : Keeps (Sends fun e => interval e.message = none) x) : Keeps Run x :=
  h.mono fun _ _ hsends => .single (.of_sends hsends)

theorem runs_updateUser {other : Ptr} {f : User → User}
    (hf : ∀ u, (f u).updateInterval = u.updateInterval) : Keeps Run (updateUser other f) :=
  fun s => .single (.modifyUser (hf (s.heap other)))

theorem runs_lowerInterval (other : Ptr) (x : ℤ) : Keeps Run (lowerInterval other x) := by
  intro s
  rw [lowerInterval_run, finalState_ok]
  split
  · exact .single (.tell other x)
  · exact .refl

theorem runs_adjustTime (env : Environment) (other : Ptr) : Keeps Run (adjustTime env other) := by
  intro s
  obtain ⟨time, hrun⟩ := adjustTime_run s other env
  rw [hrun, finalState_ok]
  have hasked : Run s { s with ticks := s.ticks + 1 } := run_ticks s _
  split
  · exact hasked.tail (.tell other time)
  · exact hasked

/-- A message that goes with a change of sight tells no interval. -/
theorem run_of_sightings (h : Sends (fun e => isSighting e.message = true) s t) : Run s t := by
  refine .single (.of_sends (h.mono fun e he => ?_))
  cases hmessage : e.message <;> simp_all [isSighting, interval]

theorem runs_visitUser (env : Environment) (observer : Ptr) (location : Location) (other : Ptr) :
    Keeps Run (visitUser env observer location other) :=
  keeps_visitUser_of (fun _ _ => run_of_sightings) (runs_lowerInterval other)
    (runs_adjustTime env other) (runs_updateUser fun _ => rfl) (runs_updateUser fun _ => rfl)
    location

theorem runs_updateLocalUsers (env : Environment) (observer : Ptr) :
    Keeps Run (updateLocalUsers env observer) :=
  .bind (fun _ => .refl) fun _ =>
    keeps_iterateUsers run_ticks fun other => runs_visitUser env observer _ other

theorem runs_passFlags (other : Ptr) : Keeps Run (passFlags other) := by
  refine .bind (fun _ => .refl) fun u => ?_
  split
  · exact runs_updateUser fun _ => rfl
  · exact .pure ()

theorem runs_sendDue (env : Environment) (observer other : Ptr) (required : Bool)
    (request : ℤ) (att : Attributes) (stamp : ℤ) :
    Keeps Run (sendDue env observer other required request att stamp) := by
  have hpos : ∀ told about, Keeps Run (sendPosUpdate told about) := fun _ _ =>
    runs_sends (sends_sendPosUpdate (fun _ _ => rfl) fun _ => rfl)
  have hrecord : Keeps Run (recordStamp observer other att stamp) :=
    runs_updateUser fun _ => rfl
  have hto := Keeps.bind (hpos observer other) fun _ => hrecord
  have hfrom := Keeps.bind (hpos other observer) fun _ => hrecord
  refine .bind (fun _ => .refl) fun o => ?_
  split
  · exact .pure ()
  · split
    · exact hto
    · split
      · refine .bind (fun s => run_ticks s _) fun now => ?_
        dsimp only
        split
        · split
          · exact hto
          · split
            · exact hfrom
            · exact .pure ()
        · exact .pure ()
      · exact hfrom

theorem runs_updateAbout (env : Environment) (observer other : Ptr) :
    Keeps Run (updateAbout env observer other) := by
  refine .bind (fun _ => .refl) fun u => .bind (fun _ => .refl) fun o => ?_
  refine .bind ?_ fun _ => runs_sendDue env observer other _ _ _ _
  refine .bind (fun _ => .refl) fun u => .bind (fun _ => .refl) fun o => ?_
  exact runs_lowerInterval other _

theorem runs_updateOnlyQueues (env : Environment) (pilot : Ptr) :
    Keeps Run (updateOnlyQueues env pilot) :=
  keeps_updateOnlyQueues_of (fun _ _ => run_of_sightings) run_ticks (runs_updateUser fun _ => rfl)

/-- A pass is a run of steps, also when it is cut short. -/
theorem runs_globalUpdate (env : Environment) : Keeps Run (globalUpdate env) := by
  refine .bind (keeps_iterateUsers run_ticks fun observer => ?_) fun _ => ?_
  · exact .bind (runs_updateLocalUsers env observer) fun _ => runs_passFlags observer
  refine .bind (keeps_iterateUsers run_ticks fun observer => ?_) fun _ => ?_
  · exact keeps_iterateLocalUsers run_ticks fun other => runs_updateAbout env observer other
  refine .bind (keeps_iterateUsers run_ticks fun pilot => ?_) fun _ => ?_
  · exact runs_updateOnlyQueues env pilot
  · exact keeps_iterateUsers run_ticks fun other => runs_updateUser fun _ => rfl

end Passes

/-- The interval of a user is no longer than an observer asks for. -/
def Respects (s : Server) (observer user : Ptr) : Prop :=
  (s.heap user).updateInterval ≤ (s.heap observer).getRequestedInterval (s.heap user).getType

/-- Intervals only go down, and whoever is newly seen respects the observer. -/
structure Lowers (s t : Server) : Prop where
  clientManager : t.clientManager = s.clientManager
  interval : ∀ u, (t.heap u).updateInterval ≤ (s.heap u).updateInterval
  request : ∀ u, (t.heap u).requestTime = (s.heap u).requestTime
  type : ∀ u, (t.heap u).getType = (s.heap u).getType
  seen : ∀ u v, v ∈ (t.heap u).localUsers → v ∈ (s.heap u).localUsers ∨ Respects t u v

section Lowers

variable {s t r : Server} {observer user : Ptr}

theorem Lowers.requested (h : Lowers s t) (observer user : Ptr) :
    (t.heap observer).getRequestedInterval (t.heap user).getType =
      (s.heap observer).getRequestedInterval (s.heap user).getType := by
  unfold User.getRequestedInterval
  rw [h.request, h.type]

theorem Lowers.respects (h : Lowers s t) (hs : Respects s observer user) :
    Respects t observer user := by
  unfold Respects
  rw [h.requested]
  exact (h.interval user).trans hs

theorem Lowers.refl (s : Server) : Lowers s s :=
  ⟨rfl, fun _ => le_rfl, fun _ => rfl, fun _ => rfl, fun _ _ h => Or.inl h⟩

theorem Lowers.trans (h : Lowers s t) (h' : Lowers t r) : Lowers s r where
  clientManager := h'.clientManager.trans h.clientManager
  interval u := (h'.interval u).trans (h.interval u)
  request u := (h'.request u).trans (h.request u)
  type u := (h'.type u).trans (h.type u)
  seen u v hv := by
    rcases h'.seen u v hv with hv | hv
    · rcases h.seen u v hv with hv | hv
      · exact Or.inl hv
      · exact Or.inr (h'.respects hv)
    · exact Or.inr hv

instance : Std.Refl Lowers := ⟨Lowers.refl⟩

instance : IsTrans Server Lowers := ⟨fun _ _ _ => Lowers.trans⟩

theorem lowers_of_sends {p : Sent → Prop} (h : Sends p s t) : Lowers s t := by
  refine ⟨h.clientManager, ?_, ?_, ?_, ?_⟩
  all_goals rw [h.heap]
  · exact fun _ => le_rfl
  · exact fun _ => rfl
  · exact fun _ => rfl
  · exact fun _ _ hv => Or.inl hv

theorem lowers_sends {α : Type} {p : Sent → Prop} {x : ServerM α} (h : Keeps (Sends p) x) :
    Keeps Lowers x :=
  h.mono fun _ _ => lowers_of_sends

theorem lowers_ticks (s : Server) (n : ℕ) : Lowers s { s with ticks := n } :=
  ⟨rfl, fun _ => le_rfl, fun _ => rfl, fun _ => rfl, fun _ _ h => Or.inl h⟩

/-- A change to one user that raises no interval, changes no request and no type, and lets it see
nobody new but those who respect it. -/
theorem lowers_modifyUser {f : User → User}
    (hinterval : (f (s.heap user)).updateInterval ≤ (s.heap user).updateInterval)
    (hrequest : (f (s.heap user)).requestTime = (s.heap user).requestTime)
    (htype : (f (s.heap user)).getType = (s.heap user).getType)
    (hseen : ∀ v, v ∈ (f (s.heap user)).localUsers →
      v ∈ (s.heap user).localUsers ∨ Respects (s.modifyUser user f) user v) :
    Lowers s (s.modifyUser user f) := by
  refine ⟨rfl, fun u => ?_, modifyUser_frame (g := User.requestTime) hrequest,
    modifyUser_frame (g := User.getType) htype, fun u v hv => ?_⟩
  all_goals by_cases hu : u = user
  · rw [hu, modifyUser_heap_self]
    exact hinterval
  · rw [modifyUser_heap_ne _ _ _ _ hu]
  · rw [hu, modifyUser_heap_self] at hv
    rw [hu]
    exact hseen v hv
  · rw [modifyUser_heap_ne _ _ _ _ hu] at hv
    exact Or.inl hv

theorem lowers_lowerInterval (other : Ptr) (x : ℤ) : Keeps Lowers (lowerInterval other x) := by
  intro s
  rw [lowerInterval_run]
  change Lowers s (if _ then _ else _)
  split
  · rename_i hgt
    have hlow : Lowers s (s.modifyUser other fun u => { u with updateInterval := x }) :=
      lowers_modifyUser hgt.le rfl rfl fun v hv => Or.inl hv
    exact hlow.trans (lowers_of_sends (p := fun _ => True) ⟨rfl, rfl, rfl, [_], rfl, by simp⟩)
  · exact Lowers.refl s

/-- What happens once the user respects the observer. -/
def LowersFrom (observer user : Ptr) (s t : Server) : Prop := Respects s observer user → Lowers s t

instance : Std.Refl (LowersFrom observer user) := ⟨fun s _ => Lowers.refl s⟩

instance : IsTrans Server (LowersFrom observer user) :=
  ⟨fun _ _ _ h h' hs => (h hs).trans (h' ((h hs).respects hs))⟩

theorem lowersFrom_recordStamp (att : Attributes) (stamp : ℤ) :
    Keeps (LowersFrom observer user) (recordStamp observer user att stamp) := by
  intro s hs
  rw [recordStamp, updateUser_run, finalState_ok]
  refine lowers_modifyUser le_rfl rfl rfl fun v hv => ?_
  rcases (AList.mem_insert _).mp hv with rfl | hv
  · right
    -- The record changes no interval and no type, also when the user is the observer itself.
    unfold Respects
    rw [modifyUser_frame (g := User.updateInterval), modifyUser_frame (g := User.getType),
      modifyUser_heap_self]
    · exact hs
    · rfl
    · rfl
  · exact Or.inl hv

theorem lowersFrom_sends {α : Type} {p : Sent → Prop} {x : ServerM α} (h : Keeps (Sends p) x) :
    Keeps (LowersFrom observer user) x :=
  h.mono fun _ _ hsends _ => lowers_of_sends hsends

theorem lowersFrom_sendDue (env : Environment) (observer user : Ptr) (required : Bool) (request : ℤ)
    (att : Attributes) (stamp : ℤ) :
    Keeps (LowersFrom observer user) (sendDue env observer user required request att stamp) := by
  have hpos : ∀ told about, Keeps (LowersFrom observer user) (sendPosUpdate told about) :=
    fun _ _ => lowersFrom_sends (p := fun _ => True)
      (sends_sendPosUpdate (fun _ _ => trivial) fun _ => trivial)
  have hrecord : Keeps (LowersFrom observer user) (recordStamp observer user att stamp) :=
    lowersFrom_recordStamp att stamp
  refine .bind (fun s => Std.Refl.refl s) fun o => ?_
  split
  · exact .pure ()
  · split
    · exact .bind (hpos _ _) fun _ => hrecord
    · split
      · refine .bind (fun s _ => lowers_ticks s _) fun now => ?_
        dsimp only
        split
        · split
          · exact .bind (hpos _ _) fun _ => hrecord
          · split
            · exact .bind (hpos _ _) fun _ => hrecord
            · exact .pure ()
        · exact .pure ()
      · exact .bind (hpos _ _) fun _ => hrecord

theorem timeUpdate_run (observer user : Ptr) (s : Server) :
    ∃ t, (timeUpdate user observer).run s = .ok () t ∧ Lowers s t ∧ Respects t observer user := by
  have hrun := lowerInterval_run s user
    ((s.heap observer).getRequestedInterval (s.heap user).getType)
  have hlow := (lowers_lowerInterval user _).ok hrun
  refine ⟨_, by simp only [timeUpdate, EStateM.run_bind, getUser_run, hrun], hlow, ?_⟩
  unfold Respects
  rw [hlow.requested]
  by_cases hgt : (s.heap user).updateInterval >
      (s.heap observer).getRequestedInterval (s.heap user).getType
  · rw [if_pos hgt, push_heap, modifyUser_heap_self]
  · rw [if_neg hgt]
    exact not_lt.mp hgt

/-- A round of `update` makes the local user respect the observer. -/
theorem updateAbout_lowers (env : Environment) (observer user : Ptr) (s : Server) :
    Lowers s (finalState ((updateAbout env observer user).run s)) ∧
      Respects (finalState ((updateAbout env observer user).run s)) observer user := by
  obtain ⟨t, htime, hlow, hrespects⟩ := timeUpdate_run observer user s
  have hdue := lowersFrom_sendDue env observer user
    (s.heap observer).updateRequired ((s.heap observer).getRequestedInterval (s.heap user).getType)
    (((s.heap observer).localUsers.lookup user).getD fun _ => 0) (s.heap user).lastPositionUpdate t
    hrespects
  have hrun : (updateAbout env observer user).run s =
      (sendDue env observer user (s.heap observer).updateRequired
        ((s.heap observer).getRequestedInterval (s.heap user).getType)
        (((s.heap observer).localUsers.lookup user).getD fun _ => 0)
        (s.heap user).lastPositionUpdate).run t := by
    simp only [updateAbout, EStateM.run_bind, getUser_run, htime]
  rw [hrun]
  exact ⟨hlow.trans hdue, hdue.respects hrespects⟩

theorem lowers_updateAbout (env : Environment) (other : Ptr) :
    Keeps Lowers (updateAbout env observer other) :=
  fun s => (updateAbout_lowers env observer other s).1

theorem lowers_update (env : Environment) (observer : Ptr) : Keeps Lowers (update env observer) :=
  keeps_iterateLocalUsers lowers_ticks fun other => lowers_updateAbout env other

/-- Everyone the observer sees respects it. -/
def AllRespect (observer : Ptr) (s : Server) : Prop :=
  ∀ user ∈ (s.heap observer).localUsers, Respects s observer user

theorem Lowers.allRespect (h : Lowers s t) (hs : AllRespect observer s) :
    AllRespect observer t := by
  intro v hv
  rcases h.seen observer v hv with hv | hv
  · exact h.respects (hs v hv)
  · exact hv

theorem update_allRespect (env : Environment) {u : Unit}
    (hrun : (update env observer).run s = .ok u t) : AllRespect observer t := by
  obtain ⟨v, m, hfirst, hloop⟩ := run_bind_ok.mp hrun
  cases hfirst
  obtain ⟨order, m, horder, hloop⟩ := run_bind_ok.mp hloop
  cases horder
  have hall := Keeps.forM_establishes (R := Lowers) (Q := fun v t => Respects t observer v)
    (fun v _ => lowers_updateAbout env v)
    (fun v _ s t u hround => by
      have h := (updateAbout_lowers env observer v s).2
      rwa [hround] at h)
    (fun v s t h hs => h.respects hs) hloop
  have hlow : Lowers _ t := (Keeps.forM fun v _ => lowers_updateAbout env v).ok hloop
  intro v hv
  rcases hlow.seen observer v hv with hv | hv
  · refine hall v ?_
    exact (env.arrange_perm _ _).mem_iff.mpr hv
  · exact hv

theorem lowers_updateOnlyQueues (env : Environment) (pilot : Ptr) :
    Keeps Lowers (updateOnlyQueues env pilot) := by
  refine .bind (fun s => Lowers.refl s) fun u => ?_
  split
  · refine .bind (lowers_sends (p := fun _ => True) (sends_getFlightPlan pilot)) fun plan => ?_
    cases plan with
    | none => exact .throw _
    | some fp =>
      refine .bind (keeps_iterateLocalUsers lowers_ticks fun other => ?_) fun _ => ?_
      · refine .bind (fun s => Lowers.refl s) fun o => ?_
        split
        · exact lowers_sends (p := fun _ => True) (sends_sendFlightPlanCycle fun _ _ => trivial)
        · exact .pure ()
      · intro s
        rw [updateUser_run, finalState_ok]
        exact lowers_modifyUser le_rfl rfl rfl fun v hv => Or.inl hv
  · exact .pure ()

theorem lowers_resetRequired (user : Ptr) : Keeps Lowers (resetRequired user) := by
  intro s
  rw [resetRequired, updateUser_run, finalState_ok]
  exact lowers_modifyUser le_rfl rfl rfl fun v hv => Or.inl hv

/-- After a pass nobody's interval is above what an observer asks for. -/
theorem globalUpdate_allRespect (env : Environment) {u : Unit}
    (hrun : (globalUpdate env).run s = .ok u t) :
    ∀ observer ∈ t.clientManager.users, AllRespect observer t := by
  obtain ⟨_, m, -, hrun⟩ := run_bind_ok.mp hrun
  obtain ⟨_, n, hupdates, hrun⟩ := run_bind_ok.mp hrun
  obtain ⟨_, o, hqueues, hreset⟩ := run_bind_ok.mp hrun
  have hlow : Lowers n t :=
    ((keeps_iterateUsers lowers_ticks fun pilot => lowers_updateOnlyQueues env pilot).ok
      hqueues).trans ((keeps_iterateUsers lowers_ticks lowers_resetRequired).ok hreset)
  obtain ⟨m', m'', hget, hloop⟩ := run_bind_ok.mp hupdates
  cases hget
  obtain ⟨order, m'', horder, hloop⟩ := run_bind_ok.mp hloop
  cases horder
  have hall := Keeps.forM_establishes (R := Lowers) (Q := AllRespect)
    (fun observer _ => lowers_update env observer)
    (fun observer _ s t u hround => update_allRespect env hround)
    (fun observer s t h hs => h.allRespect hs) hloop
  have hsecond : Lowers m n :=
    (keeps_iterateUsers lowers_ticks fun observer => lowers_update env observer).ok
      hupdates
  intro observer hobserver
  rw [(hsecond.trans hlow).clientManager] at hobserver
  refine hlow.allRespect (hall observer ?_)
  exact (env.arrange_perm _ _).mem_iff.mpr hobserver

end Lowers

section Login

open HandshakePacket HandshakeOutcomes

variable {s t : Server} {user other : Ptr} {clientSocket : Socket}

def KeepsTold (user : Ptr) (s t : Server) : Prop := Told user s → Told user t

instance : Std.Refl (KeepsTold user) := ⟨fun _ h => h⟩

instance : IsTrans Server (KeepsTold user) := ⟨fun _ _ _ h h' => h' ∘ h⟩

theorem keepsTold_tell (s : Server) (other : Ptr) (x : ℤ) : KeepsTold user s (tell s other x) := by
  intro h
  by_cases hother : user = other
  · subst hother
    simp only [Told, tell, push_sent, push_heap, modifyUser_heap_self]
    exact lastInterval_push_some rfl
  · have hne : (⟨other, .timeChange x⟩ : Sent).recipient = user →
        interval (⟨other, .timeChange x⟩ : Sent).message = none := fun he => absurd he.symm hother
    rw [Told, tell, push_sent, push_heap, modifyUser_heap_ne _ _ _ _ hother, modifyUser_sent,
      lastInterval_push_none hne]
    exact h

theorem keepsTold_send (h : user ≠ other) (message : Outgoing) :
    Keeps (KeepsTold user) (send other message) := by
  intro s hs
  have hne : (⟨other, message⟩ : Sent).recipient = user → interval message = none :=
    fun he => absurd he.symm h
  rw [send_run, finalState_ok, Told, push_sent, push_heap, lastInterval_push_none hne]
  exact hs

/-- The reply to a user is no concern of the others. -/
theorem keepsTold_respond (h : user ≠ other) (response : ℤ) :
    Keeps (KeepsTold user) (respond clientSocket other response) := by
  unfold respond
  split
  · refine .bind (fun s => Std.Refl.refl s) fun u => ?_
    refine .bind (keepsTold_send h _) fun _ => .bind (keepsTold_send h _) fun _ => ?_
    exact .bind (keepsTold_send h _) fun _ s hs => hs
  · refine .bind (keepsTold_send h _) fun _ s hs => ?_
    obtain ⟨t, hrun, hheap, -, -, hsent⟩ := removeClientSocket_run s clientSocket true
    rw [hrun, finalState_ok, Told, hheap, hsent]
    exact hs

/-- The reply that connects a user tells it the interval it starts with. -/
theorem respond_users (s : Server) (response : ℤ) :
    ∀ user ∈ (finalState ((respond clientSocket other response).run s)).clientManager.users,
      user ∈ s.clientManager.users ∨
        Told user (finalState ((respond clientSocket other response).run s)) := by
  intro user huser
  by_cases hresponse : response = 1
  · have hrun : (respond clientSocket other response).run s = .ok ()
        { ((s.push other (.handshakeAccepted response (s.heap other).index
            (s.heap other).updateInterval)).push other (.serverMessage welcomeMessage)).push other
              (.serverMessage rulesMessage) with
          clientManager := s.clientManager.providePlacement clientSocket other s.heap } := by
      rw [respond, if_pos hresponse]
      rfl
    rw [hrun, finalState_ok] at huser ⊢
    obtain ⟨socket', hlookup⟩ := ClientManager.mem_users.mp huser
    rcases lookup_insert_iff.mp hlookup with ⟨-, rfl⟩ | ⟨-, hold⟩
    · right
      unfold Told
      simp only [push_sent, push_heap]
      rw [lastInterval_push_none fun _ => rfl, lastInterval_push_none fun _ => rfl]
      exact lastInterval_push_some rfl
    · exact Or.inl (ClientManager.mem_users.mpr ⟨socket', hold⟩)
  · left
    obtain ⟨t, hremove, -, -, hclients, -⟩ :=
      removeClientSocket_run (s.push other (.handshakeRejected response)) clientSocket true
    have hrun : (respond clientSocket other response).run s = .ok () t := by
      rw [respond, if_neg hresponse]
      exact hremove
    rwa [hrun, finalState_ok, hclients] at huser

theorem AllTold.ne_next (h : AllTold s) (hfresh : lastInterval s.sent s.next = none)
    (huser : user ∈ s.clientManager.users) : user ≠ s.next := by
  rintro rfl
  have htold := h _ huser
  rw [Told, hfresh] at htold
  cases htold

/-- A handshake leaves everyone told. -/
theorem accept_allTold (clientSocket : Socket) (f : Fields)
    (hfresh : lastInterval s.sent s.next = none) (h : AllTold s) :
    AllTold (finalState ((accept clientSocket f).run s)) := by
  obtain hstop | ⟨u, hrun⟩ := accept_cases clientSocket f s
  · rwa [hstop]
  · -- The reply starts with the new user in memory and an index taken for it.
    let placed : Server := enroll s (f.fill (s.storage s.next) u)
    have husers : placed.clientManager.users = s.clientManager.users :=
      s.clientManager.provideIndex_users
    rw [hrun]
    intro user huser
    rcases respond_users placed _ user huser with hold | htold
    · rw [husers] at hold
      have hne : user ≠ s.next := h.ne_next hfresh hold
      have hheap : placed.heap user = s.heap user := Function.update_of_ne hne _ _
      apply keepsTold_respond hne
      rw [Told, hheap]
      exact h user hold
    · exact htold

end Login

section Runs

variable {s t : Server}

theorem Step.allTold (h : Step s t) (hs : AllTold s) : AllTold t := by
  cases h with
  | tell other x => exact fun user huser => keepsTold_tell s other x (hs user huser)
  | login clientSocket f hfresh => exact accept_allTold clientSocket f hfresh hs
  | other t hsent hheap husers =>
    intro user huser
    rw [Told, hsent, hheap]
    exact hs user (husers user huser)

theorem Run.allTold (h : Run s t) (hs : AllTold s) : AllTold t := by
  induction h with
  | refl => exact hs
  | tail _ hstep ih => exact hstep.allTold ih

/-- In any run that starts with everyone told, everyone has been told its interval at every
moment. A pass is a run of such steps itself, and after it no interval is above what an observer
asks for. -/
theorem intervals_respected (env : Environment) (hrun : Run s t) :
    (AllTold s → AllTold t) ∧
      ∀ r, (globalUpdate env).run t = .ok () r → Run t r ∧
        ∀ observer ∈ r.clientManager.users, ∀ user ∈ (r.heap observer).localUsers,
          (r.heap user).updateInterval ≤
            (r.heap observer).getRequestedInterval (r.heap user).getType :=
  ⟨hrun.allTold, fun _ hpass =>
    ⟨(runs_globalUpdate env).ok hpass, globalUpdate_allRespect env hpass⟩⟩

/-- Everyone sees everyone. -/
def inSight : Environment := .orderly fun _ _ => some 0

/-- A controller and a pilot after the first pass in which they see each other. -/
def inSightOnce : Server := finalState ((globalUpdate inSight).run Observers.twoUsers)

/-- They see each other, the next pass returns, and both have been told the interval the other
asks for. -/
theorem intervals_respected_second_pass :
    AllTold inSightOnce ∧
      ∃ r, (globalUpdate inSight).run inSightOnce = .ok () r ∧
        r.clientManager.users = [1, 0] ∧ 1 ∈ (r.heap 0).localUsers ∧ 0 ∈ (r.heap 1).localUsers ∧
        AllTold r ∧
        (r.heap 1).updateInterval ≤ (r.heap 0).getRequestedInterval (r.heap 1).getType ∧
        (r.heap 0).updateInterval ≤ (r.heap 1).getRequestedInterval (r.heap 0).getType := by
  have hfirst : Run Observers.twoUsers inSightOnce := runs_globalUpdate _ Observers.twoUsers
  have hstart : AllTold Observers.twoUsers := by
    unfold AllTold Told
    decide +kernel
  obtain ⟨htold, hpass⟩ := intervals_respected inSight hfirst
  have hsecond : (globalUpdate inSight).run inSightOnce = .ok () _ := run_eq_ok (by decide +kernel)
  obtain ⟨hrun, hrespect⟩ := hpass _ hsecond
  have hboth := (intervals_respected inSight (hfirst.trans hrun)).1 hstart
  refine ⟨htold hstart, _, hsecond, by decide +kernel, by decide +kernel, by decide +kernel, hboth,
    hrespect 0 (by decide +kernel) 1 (by decide +kernel),
    hrespect 1 (by decide +kernel) 0 (by decide +kernel)⟩

end Runs

end Win64Server.UpdateIntervals
