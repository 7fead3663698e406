import Win64Server.Departure
import Win64Server.Permissions

/-!
What a pass of the update says, and a departure. Both change of a user only its interval, its set
of local users and its queue flags, so whatever else a message about a user shows is as it was
before.
-/
namespace Win64Server.PassMessages

open Outcome Library Server Frames

/-- A message about a user, made from the object as it is. -/
inductive Speaks (about : Ptr) (u : User) : Outgoing → Prop
  | createClient : Speaks about u (.createClient about u)
  | deleteClient : Speaks about u (.deleteClient about u)
  | flightPlanCycle (plan : FlightPlan) : Speaks about u (.flightPlanCycle about u plan)
  | script (script : ClientScript) : Speaks about u (.script about u script)
  | removeScript (idx : ℤ) : Speaks about u (.removeScript about u idx)
  | pilotUpdate (a : Aircraft) (ha : u.derived = .aircraft a) :
      Speaks about u (.pilotUpdate about u a)
  | controllerUpdate (x : Controller) (hx : u.derived = .controller x) :
      Speaks about u (.controllerUpdate about u)

/-- A message to one of the users in `M`: its new interval, or one about one of them that shows the
same to `g` as in `s`. -/
structure Told {α : Type} (g : User → α) (M : Ptr → Prop) (s : Server) (e : Sent) : Prop where
  recipient : M e.recipient
  content : (∃ time, e.message = .timeChange time) ∨
    ∃ about, M about ∧ ∃ u, g u = g (s.heap about) ∧ Speaks about u e.message

/-- The states that are reached from `s₀` without a login or a departure from the registry, and
without touching any user but those in `M`. -/
structure Fine {α : Type} (g : User → α) (M : Ptr → Prop) (s₀ s : Server) : Prop where
  next : s.next = s₀.next
  clientManager : s.clientManager = s₀.clientManager
  users : Same g s₀ s
  others : ∀ p, ¬ M p → s.heap p = s₀.heap p
  locals : ∀ p, M p → ∀ v ∈ (s.heap p).localUsers, M v
  sent : ∃ new, s.sent = s₀.sent ++ new ∧ ∀ e ∈ new, Told g M s₀ e

def Stays {α : Type} (g : User → α) (M : Ptr → Prop) (s₀ s t : Server) : Prop :=
  Fine g M s₀ s → Fine g M s₀ t

variable {α : Type} {g : User → α} {M : Ptr → Prop} {s₀ s : Server} {user other : Ptr}

theorem fine_self (hlocals : ∀ p, M p → ∀ v ∈ (s.heap p).localUsers, M v) : Fine g M s s :=
  ⟨rfl, rfl, fun _ => rfl, fun _ _ => rfl, hlocals, [], (List.append_nil _).symm,
    fun _ he => absurd he List.not_mem_nil⟩

instance : Std.Refl (Stays g M s₀) := ⟨fun _ h => h⟩

instance : IsTrans Server (Stays g M s₀) := ⟨fun _ _ _ h h' => h' ∘ h⟩

theorem Fine.ticks (h : Fine g M s₀ s) (n : ℕ) : Fine g M s₀ { s with ticks := n } :=
  ⟨h.next, h.clientManager, h.users, h.others, h.locals, h.sent⟩

theorem Fine.push (h : Fine g M s₀ s) {message : Outgoing} (htold : Told g M s₀ ⟨user, message⟩) :
    Fine g M s₀ (s.push user message) := by
  obtain ⟨new, hsent, hnew⟩ := h.sent
  have hall : ∀ e ∈ new ++ [⟨user, message⟩], Told g M s₀ e :=
    List.forall_mem_append.mpr ⟨hnew, List.forall_mem_singleton.mpr htold⟩
  exact ⟨h.next, h.clientManager, h.users, h.others, h.locals, new ++ [⟨user, message⟩],
    by rw [push_sent, hsent, List.append_assoc], hall⟩

theorem Fine.modifyUser (h : Fine g M s₀ s) (huser : M user) {f : User → User}
    (hsame : g (f (s.heap user)) = g (s.heap user))
    (hlocals : ∀ v ∈ (f (s.heap user)).localUsers, M v) :
    Fine g M s₀ (s.modifyUser user f) := by
  refine ⟨h.next, h.clientManager, fun p => (modifyUser_frame hsame p).trans (h.users p),
    fun p hp => ?_, fun p hp v hv => ?_, h.sent⟩
  · have hne : p ≠ user := fun heq => hp (heq ▸ huser)
    rw [modifyUser_heap_ne _ _ _ _ hne]
    exact h.others p hp
  · by_cases heq : p = user
    · rw [heq, modifyUser_heap_self] at hv
      exact hlocals v hv
    · rw [modifyUser_heap_ne _ _ _ _ heq] at hv
      exact h.locals p hp v hv

/-- A message about a user shows it as it is. -/
theorem Fine.told (h : Fine g M s₀ s) (huser : M user) (hother : M other)
    {message : Outgoing} (hspeaks : Speaks other (s.heap other) message) :
    Told g M s₀ ⟨user, message⟩ :=
  ⟨huser, .inr ⟨other, hother, s.heap other, h.users other, hspeaks⟩⟩

theorem told_timeChange (huser : M user) (time : ℤ) :
    Told g M s₀ ⟨user, .timeChange time⟩ := ⟨huser, .inl ⟨time, rfl⟩⟩

instance (u : Ptr) : Kept (Stays g M s₀) (getUser u) := ⟨fun _ h => h⟩

instance (env : Environment) : Kept (Stays g M s₀) (readClock env) := ⟨fun _ h => h.ticks _⟩

instance (u : Ptr) : Kept (Stays g M s₀) (getAircraft u) := by
  unfold getAircraft
  refine .of_bind inferInstance fun r => ?_
  cases r.asAircraft <;> infer_instance

instance (u : Ptr) : Kept (Stays g M s₀) (getFlightPlan u) := by
  unfold getFlightPlan; infer_instance

theorem stays_updateUser (huser : M user) {f : User → User} (hsame : ∀ r, g (f r) = g r)
    (hlocals : ∀ r, (∀ v ∈ r.localUsers, M v) → ∀ v ∈ (f r).localUsers, M v) :
    Kept (Stays g M s₀) (updateUser user f) :=
  ⟨fun _ h => h.modifyUser huser (hsame _) (hlocals _ (h.locals user huser))⟩

section Messages

variable {s₀ : Server} {user other : Ptr} (huser : M user) (hother : M other)

include huser hother

theorem stays_createClient : Kept (Stays g M s₀) (Server.createClient user other) :=
  ⟨fun _ h => h.push (h.told huser hother .createClient)⟩

theorem stays_deleteClient : Kept (Stays g M s₀) (Server.deleteClient user other) :=
  ⟨fun _ h => h.push (h.told huser hother .deleteClient)⟩

theorem stays_sendRemoveScript (idx : ℤ) :
    Kept (Stays g M s₀) (Server.sendRemoveScript user other idx) :=
  ⟨fun _ h => h.push (h.told huser hother (.removeScript idx))⟩

theorem stays_sendScript (script : ClientScript) :
    Kept (Stays g M s₀) (Server.sendScript user other script) := by
  refine ⟨fun s h => ?_⟩
  by_cases hcast : script.castable = true
  · rw [sendScript_run s user hcast]
    exact h.push (h.told huser hother (.script script))
  · rw [sendScript_stops s user hcast]
    exact h

theorem stays_sendPosUpdate : Kept (Stays g M s₀) (sendPosUpdate user other) := by
  refine ⟨fun s h => ?_⟩
  rw [sendPosUpdate, run_bind_of_ok (getUser_run s other)]
  cases hderived : (s.heap other).derived with
  | aircraft a => exact h.push (h.told huser hother (.pilotUpdate a hderived))
  | controller x => exact h.push (h.told huser hother (.controllerUpdate x hderived))

theorem stays_sendFlightPlanCycle :
    Kept (Stays g M s₀) (Server.sendFlightPlanCycle user other) := by
  refine ⟨fun s h => ?_⟩
  rw [Server.sendFlightPlanCycle, run_bind_of_ok (getUser_run s other)]
  cases hair : (s.heap other).asAircraft with
  | none =>
    rw [run_bind_of_error (getFlightPlan_run_of_none hair)]
    exact h
  | some a =>
    rw [run_bind_of_ok (getFlightPlan_run hair)]
    cases a.flightPlan with
    | none => exact h
    | some plan => exact h.push (h.told huser hother (.flightPlanCycle plan))

theorem stays_createFlightPlan : Kept (Stays g M s₀) (Server.createFlightPlan user other) := by
  unfold Server.createFlightPlan
  refine .of_bind inferInstance fun c => .of_ite (.of_bind inferInstance fun plan => ?_)
    inferInstance
  cases plan with
  | none => infer_instance
  | some plan => exact .of_ite (stays_sendFlightPlanCycle huser hother) inferInstance

theorem stays_sendScripts : Kept (Stays g M s₀) (sendScripts user other) := by
  have hsend (script : ClientScript) : Kept (Stays g M s₀) (Server.sendScript user other script) :=
    stays_sendScript huser hother script
  unfold sendScripts
  refine .of_bind inferInstance fun u => @Kept.forM _ _ _ _ _ _ _ _ fun script => ?_
  cases script <;> infer_instance

theorem stays_sendRemoveScripts : Kept (Stays g M s₀) (sendRemoveScripts user other) := by
  have hsend (idx : ℤ) : Kept (Stays g M s₀) (Server.sendRemoveScript user other idx) :=
    stays_sendRemoveScript huser hother idx
  unfold sendRemoveScripts
  refine .of_bind inferInstance fun u => @Kept.forM _ _ _ _ _ _ _ _ fun script => ?_
  cases script <;> infer_instance

end Messages

/-- The elements of a loop are users that there are. -/
theorem stays_iterateLocalUsers (env : Environment) (huser : M user) {func : Ptr → ServerM Unit}
    (hfunc : ∀ v, M v → Kept (Stays g M s₀) (func v)) :
    Kept (Stays g M s₀) (iterateLocalUsers env user func) := by
  refine ⟨fun s h => ?_⟩
  have hround : ∀ v ∈ env.arrange s.ticks (s.heap user).localUsers.keys,
      Keeps (Stays g M s₀) (func v) := by
    intro v hv
    rw [(env.arrange_perm _ _).mem_iff, ← AList.mem_keys] at hv
    exact (hfunc v (h.locals user huser v hv)).keeps
  exact Keeps.forM hround _ (h.ticks _)

theorem stays_iterateUsers (env : Environment) {func : Ptr → ServerM Unit}
    (hclients : ∀ v ∈ s₀.clientManager.users, M v)
    (hfunc : ∀ v, M v → Kept (Stays g M s₀) (func v)) :
    Kept (Stays g M s₀) (iterateUsers env func) := by
  refine ⟨fun s h => ?_⟩
  have hround : ∀ v ∈ env.arrange s.ticks s.clientManager.users, Keeps (Stays g M s₀) (func v) := by
    intro v hv
    rw [(env.arrange_perm _ _).mem_iff, h.clientManager] at hv
    exact (hfunc v (hclients v hv)).keeps
  exact Keeps.forM hround _ (h.ticks _)

section Passes

variable (hg : Untouched g)

include hg

theorem Fine.tell (h : Fine g M s₀ s) (huser : M user) (time : ℤ) :
    Fine g M s₀ ((s.modifyUser user fun u => { u with updateInterval := time }).push user
      (.timeChange time)) :=
  (h.modifyUser huser (hg.updateInterval _ _) (h.locals user huser)).push
    (told_timeChange huser time)

theorem stays_lowerInterval (huser : M user) (reqInterval : ℤ) :
    Kept (Stays g M s₀) (lowerInterval user reqInterval) := by
  refine ⟨fun s h => ?_⟩
  rw [lowerInterval_run, finalState_ok]
  split
  · exact h.tell hg huser reqInterval
  · exact h

theorem stays_adjustTime (env : Environment) (huser : M user) :
    Kept (Stays g M s₀) (adjustTime env user) := by
  refine ⟨fun s h => ?_⟩
  obtain ⟨time, hrun⟩ := adjustTime_run s user env
  rw [hrun, finalState_ok]
  split
  · exact (h.ticks _).tell hg huser time
  · exact h.ticks _

theorem stays_visitUser (env : Environment) (huser : M user) (hother : M other)
    (location : Location) : Kept (Stays g M s₀) (visitUser env user location other) := by
  have hcontains : Kept (Stays g M s₀) (containsUser user other) := by
    unfold containsUser; infer_instance
  have hemplace : Kept (Stays g M s₀) (emplaceLocalUser user other) := by
    refine stays_updateUser huser (fun u => hg.localUsers u _) fun r hr v hv => ?_
    dsimp only at hv
    split at hv
    · exact hr v hv
    · rcases (AList.mem_insert _).mp hv with rfl | hv
      · exact hother
      · exact hr v hv
  have herase : Kept (Stays g M s₀) (eraseLocalUser user other) :=
    stays_updateUser huser (fun u => hg.localUsers u _) fun r hr v hv =>
      hr v (AList.mem_erase.mp hv).2
  have hstart : Kept (Stays g M s₀) (startSeeing user other) := by
    unfold startSeeing
    refine .of_bind inferInstance fun u => .of_bind inferInstance fun u2 => ?_
    refine .of_bind (stays_lowerInterval hg hother _) fun _ => ?_
    refine .of_bind (stays_createClient huser hother) fun _ => ?_
    refine .of_bind (stays_createFlightPlan huser hother) fun _ => ?_
    exact .of_bind (stays_sendScripts huser hother) fun _ => hemplace
  have hstop : Kept (Stays g M s₀) (stopSeeing env user other) := by
    unfold stopSeeing
    refine .of_bind (stays_deleteClient huser hother) fun _ => ?_
    refine .of_bind (stays_sendRemoveScripts huser hother) fun _ => ?_
    exact .of_bind herase fun _ => stays_adjustTime hg env hother
  unfold visitUser
  refine .of_ite (.of_bind inferInstance fun u2 => .of_bind inferInstance fun u => ?_) inferInstance
  refine .of_bind inferInstance fun seen => .of_ite hstart ?_
  exact .of_bind inferInstance fun seen => .of_ite hstop inferInstance

theorem stays_update (env : Environment) (huser : M user) :
    Kept (Stays g M s₀) (update env user) := by
  unfold update
  refine stays_iterateLocalUsers env huser fun other hother => ?_
  have hrecord (att : Attributes) (stamp : ℤ) :
      Kept (Stays g M s₀) (recordStamp user other att stamp) := by
    refine stays_updateUser huser (fun u => hg.localUsers u _) fun r hr v hv => ?_
    rcases (AList.mem_insert _).mp hv with rfl | hv
    · exact hother
    · exact hr v hv
  have hask : Kept (Stays g M s₀) (timeUpdate other user) := by
    unfold timeUpdate
    refine .of_bind inferInstance fun u => .of_bind inferInstance fun o => ?_
    exact stays_lowerInterval hg hother _
  have htell : Kept (Stays g M s₀) (sendPosUpdate user other) := stays_sendPosUpdate huser hother
  have htold : Kept (Stays g M s₀) (sendPosUpdate other user) := stays_sendPosUpdate hother huser
  unfold updateAbout sendDue
  refine .of_bind inferInstance fun u => .of_bind inferInstance fun o => ?_
  refine .of_bind inferInstance fun _ => .of_bind inferInstance fun o' => ?_
  refine .of_ite inferInstance (.of_ite inferInstance (.of_ite ?_ inferInstance))
  refine .of_bind inferInstance fun now => .of_ite (.of_ite inferInstance ?_) inferInstance
  exact .of_ite inferInstance inferInstance

theorem stays_updateOnlyQueues (env : Environment) (huser : M user) :
    Kept (Stays g M s₀) (updateOnlyQueues env user) := by
  unfold updateOnlyQueues
  refine .of_bind inferInstance fun u => .of_ite (.of_bind inferInstance fun plan => ?_)
    inferInstance
  cases plan with
  | none => infer_instance
  | some fp =>
    refine .of_bind (stays_iterateLocalUsers env huser fun other hother => ?_) fun _ => ?_
    · refine .of_bind inferInstance fun o => ?_
      exact .of_ite (stays_sendFlightPlanCycle hother huser) inferInstance
    · exact stays_updateUser huser (fun u => hg.updateOnlyQueues u _) fun r hr => hr

theorem stays_globalUpdate (env : Environment) (hclients : ∀ v ∈ s₀.clientManager.users, M v) :
    Kept (Stays g M s₀) (globalUpdate env) := by
  have hflags (user : Ptr) (huser : M user) : Kept (Stays g M s₀) (passFlags user) := by
    unfold passFlags
    refine .of_bind inferInstance fun u => .of_ite ?_ inferInstance
    exact stays_updateUser huser (fun _ => rfl) fun r hr => hr
  have hreset (user : Ptr) (huser : M user) : Kept (Stays g M s₀) (resetRequired user) :=
    stays_updateUser huser (fun _ => rfl) fun r hr => hr
  have hlocal (user : Ptr) (huser : M user) :
      Kept (Stays g M s₀) (updateLocalUsers env user) := by
    unfold updateLocalUsers
    refine .of_bind inferInstance fun u => ?_
    exact stays_iterateUsers env hclients fun other hother => stays_visitUser hg env huser hother _
  unfold globalUpdate
  refine .of_bind (stays_iterateUsers env hclients fun user huser => ?_) fun _ => ?_
  · exact .of_bind (hlocal user huser) fun _ => hflags user huser
  refine .of_bind (stays_iterateUsers env hclients fun user huser => ?_) fun _ => ?_
  · exact stays_update hg env huser
  refine .of_bind (stays_iterateUsers env hclients fun user huser => ?_) fun _ => ?_
  · exact stays_updateOnlyQueues hg env huser
  · exact stays_iterateUsers env hclients fun user huser => hreset user huser

theorem stays_farewell (env : Environment) (huser : M user) (hother : M other) :
    Kept (Stays g M s₀) (Departure.farewell env user other) := by
  unfold Departure.farewell
  refine .of_bind (stays_deleteClient hother huser) fun _ => ?_
  refine .of_bind ?_ fun _ => stays_adjustTime hg env hother
  refine stays_updateUser hother (fun u => hg.localUsers u _) fun r hr v hv => ?_
  exact hr v (AList.mem_erase.mp hv).2

end Passes

end Win64Server.PassMessages
