import Win64Server.Faults
import Win64Server.Standing

/-!
What a client knows of the other users. A client that follows the create and delete messages it is
sent has a set of users of its own, and in every run this is the set of local users that the
server keeps for it. Only for a user with a script that cannot be sent may the client be ahead,
since the message goes out before the scripts do.
-/
namespace Win64Server.Replica

open Outcome Library Server Frames Visits VisibleSets Permissions PositionClock TwoMemories
  ServerSteps Standing Faults

/-- What a message makes of the knowledge that `user` has of `other`. -/
def learn (user other : Ptr) (known : Bool) (e : Sent) : Bool :=
  if isCreate user other e then true else if isDelete user other e then false else known

/-- Whether `user` has been told of `other`, and not of its end since. -/
def knows (user other : Ptr) (sent : List Sent) : Bool := sent.foldl (learn user other) false

section Knowledge

variable {user other : Ptr} {s t : Server}

theorem foldl_learn_neither {known : Bool} {new : List Sent}
    (hcreate : new.countP (isCreate user other) = 0)
    (hdelete : new.countP (isDelete user other) = 0) :
    new.foldl (learn user other) known = known := by
  induction new generalizing known with
  | nil => rfl
  | cons e new ih =>
    rw [List.countP_cons] at hcreate hdelete
    have hc : isCreate user other e = false := by
      by_contra h
      simp [h] at hcreate
    have hd : isDelete user other e = false := by
      by_contra h
      simp [h] at hdelete
    rw [List.foldl_cons, learn, hc, hd]
    exact ih (by omega) (by omega)

theorem foldl_learn_create {known : Bool} {new : List Sent}
    (hcreate : new.countP (isCreate user other) ≠ 0)
    (hdelete : new.countP (isDelete user other) = 0) :
    new.foldl (learn user other) known = true := by
  induction new generalizing known with
  | nil => exact absurd rfl hcreate
  | cons e new ih =>
    rw [List.countP_cons] at hcreate hdelete
    by_cases hrest : new.countP (isCreate user other) = 0
    · have hc : isCreate user other e = true := by
        by_contra h
        simp [h, hrest] at hcreate
      rw [List.foldl_cons, learn, if_pos hc]
      exact foldl_learn_neither hrest (by omega)
    · exact ih hrest (by omega)

theorem foldl_learn_delete {known : Bool} {new : List Sent}
    (hcreate : new.countP (isCreate user other) = 0)
    (hdelete : new.countP (isDelete user other) ≠ 0) :
    new.foldl (learn user other) known = false := by
  induction new generalizing known with
  | nil => exact absurd rfl hdelete
  | cons e new ih =>
    rw [List.countP_cons] at hcreate hdelete
    by_cases hrest : new.countP (isDelete user other) = 0
    · have hd : isDelete user other e = true := by
        by_contra h
        simp [h, hrest] at hdelete
      have hc : isCreate user other e = false := by
        by_contra h
        simp [h] at hcreate
      rw [List.foldl_cons, learn, hc, if_pos hd]
      exact foldl_learn_neither (by omega) hrest
    · exact ih (by omega) hrest

/-- The counts of the two messages say what a client has learned in between. -/
theorem knows_same (hsent : ∃ new, t.sent = s.sent ++ new)
    (h : sight user t other = sight user s other) :
    knows user other t.sent = knows user other s.sent := by
  obtain ⟨new, hnew⟩ := hsent
  have hcreated := congrArg Sight.created h
  have hdeleted := congrArg Sight.deleted h
  simp only [sight, hnew, List.countP_append] at hcreated hdeleted
  rw [knows, hnew, List.foldl_append]
  exact foldl_learn_neither (by omega) (by omega)

theorem knows_created (hsent : ∃ new, t.sent = s.sent ++ new)
    (hcreated : (sight user t other).created = (sight user s other).created + 1)
    (hdeleted : (sight user t other).deleted = (sight user s other).deleted) :
    knows user other t.sent = true := by
  obtain ⟨new, hnew⟩ := hsent
  simp only [sight, hnew, List.countP_append] at hcreated hdeleted
  rw [knows, hnew, List.foldl_append]
  exact foldl_learn_create (by omega) (by omega)

theorem knows_deleted (hsent : ∃ new, t.sent = s.sent ++ new)
    (hcreated : (sight user t other).created = (sight user s other).created)
    (hdeleted : (sight user t other).deleted = (sight user s other).deleted + 1) :
    knows user other t.sent = false := by
  obtain ⟨new, hnew⟩ := hsent
  simp only [sight, hnew, List.countP_append] at hcreated hdeleted
  rw [knows, hnew, List.foldl_append]
  exact foldl_learn_delete (by omega) (by omega)

/-- Somebody nobody is told about is known to nobody. -/
theorem exists_create (h : knows user other s.sent = true) :
    ∃ e ∈ s.sent, isCreate user other e = true := by
  by_contra hnone
  push Not at hnone
  have hcreate : s.sent.countP (isCreate user other) = 0 :=
    List.countP_eq_zero.mpr fun e he => hnone e he
  by_cases hdelete : s.sent.countP (isDelete user other) = 0
  · rw [knows, foldl_learn_neither hcreate hdelete] at h
    cases h
  · rw [knows, foldl_learn_delete hcreate hdelete] at h
    cases h

end Knowledge

/-- What a client knows of another user is what the server keeps for it. -/
structure Agrees (s : Server) (user other : Ptr) : Prop where
  seen : other ∈ (s.heap user).localUsers → knows user other s.sent = true
  known : knows user other s.sent = true →
    other ∈ (s.heap user).localUsers ∨ ¬ Tellable (s.heap other)

def Faithful (s : Server) : Prop := ∀ user other, Agrees s user other

/-- A message about a script of a user. -/
def isScript : Outgoing → Bool
  | .script _ _ _ | .removeScript _ _ _ => true
  | _ => false

/-- A message that neither begins nor ends what a client knows of a user, and is about no script. -/
def Plain (e : Sent) : Prop := (∀ user other, Neither user other e) ∧ isScript e.message = false

/-- Nobody has begun or ceased to see anyone; a user may have written the entries of its set. -/
structure Aside (s t : Server) : Prop where
  entries : ∀ user other, (entry t user other).isSome = (entry s user other).isSome
  scripts : Same User.scripts s t
  sent : ∃ new, t.sent = s.sent ++ new ∧ ∀ e ∈ new, Plain e

section Pairs

variable {user other : Ptr} {s t : Server}

theorem mem_iff_entry : other ∈ (s.heap user).localUsers ↔ (entry s user other).isSome :=
  AList.lookup_isSome.symm

theorem Agrees.of_same (h : Agrees s user other)
    (hentry : (entry t user other).isSome = (entry s user other).isSome)
    (hscripts : (t.heap other).scripts = (s.heap other).scripts)
    (hknows : knows user other t.sent = knows user other s.sent) : Agrees t user other := by
  have htellable : Tellable (t.heap other) ↔ Tellable (s.heap other) := by
    rw [Tellable, Tellable, hscripts]
  constructor
  · rw [mem_iff_entry, hentry, hknows, ← mem_iff_entry]
    exact h.seen
  · rw [mem_iff_entry, hentry, hknows, htellable, ← mem_iff_entry]
    exact h.known

theorem Agrees.of_sight (h : Agrees s user other) (hsight : SameSight user other s t)
    (hscripts : (t.heap other).scripts = (s.heap other).scripts)
    (hsent : ∃ new, t.sent = s.sent ++ new) : Agrees t user other :=
  h.of_same (congrArg (fun b : Sight => b.entry.isSome) hsight) hscripts (knows_same hsent hsight)

theorem Aside.extends (h : Aside s t) : ∃ new, t.sent = s.sent ++ new := by
  obtain ⟨new, hsent, -⟩ := h.sent
  exact ⟨new, hsent⟩

/-- Of what clients see, plain messages say nothing. -/
theorem countP_plain {new : List Sent} (hplain : ∀ e ∈ new, Plain e) (user other : Ptr) :
    new.countP (isCreate user other) = 0 ∧ new.countP (isDelete user other) = 0 :=
  ⟨List.countP_eq_zero.mpr fun e he => by simp [((hplain e he).1 user other).1],
    List.countP_eq_zero.mpr fun e he => by simp [((hplain e he).1 user other).2]⟩

theorem Faithful.of_aside (h : Faithful s) (haside : Aside s t) : Faithful t := by
  obtain ⟨new, hsent, hplain⟩ := haside.sent
  intro user other
  obtain ⟨hcreate, hdelete⟩ := countP_plain hplain user other
  refine (h user other).of_same (haside.entries user other) (haside.scripts other) ?_
  rw [knows, hsent, List.foldl_append]
  exact foldl_learn_neither hcreate hdelete

theorem plain_nil (s : Server) : ∃ new, s.sent = s.sent ++ new ∧ ∀ e ∈ new, Plain e :=
  ⟨[], (List.append_nil s.sent).symm, fun _ he => absurd he List.not_mem_nil⟩

instance : Std.Refl Aside := ⟨fun s => ⟨fun _ _ => rfl, fun _ => rfl, plain_nil s⟩⟩

instance : IsTrans Server Aside where
  trans s t r h h' := by
    obtain ⟨new, hsent, hplain⟩ := h.sent
    obtain ⟨new', hsent', hplain'⟩ := h'.sent
    exact ⟨fun user other => (h'.entries user other).trans (h.entries user other),
      fun p => (h'.scripts p).trans (h.scripts p), new ++ new',
      by rw [hsent', hsent, List.append_assoc], List.forall_mem_append.mpr ⟨hplain, hplain'⟩⟩

end Pairs

section Visits

variable {env : Environment} {user other u v : Ptr} {s t : Server}

theorem sameSight_modifyUser_ne {f : User → User} (h : u ≠ user) :
    SameSight u v s (s.modifyUser user f) := by
  have hsent : (s.modifyUser user f).sent = s.sent ++ [] := by rw [modifyUser_sent, List.append_nil]
  refine sameSight_of_sent ?_ hsent fun e he => absurd he List.not_mem_nil
  rw [entry, modifyUser_heap_ne _ _ _ _ h]
  rfl

/-- The other clients notice nothing of what a user begins or ceases to see. -/
theorem keeps_startSeeing_ne (h : u ≠ user) :
    Keeps (SameSight u v) (startSeeing user other) := by
  have hcreate : Keeps (SameSight u v) (Server.createClient user other) := by
    intro s
    rw [createClient_run, finalState_ok]
    exact sameSight_push ⟨decide_eq_false fun heq => h heq.1.symm, rfl⟩
  have hemplace : Keeps (SameSight u v) (emplaceLocalUser user other) := by
    intro s
    rw [emplaceLocalUser, updateUser_run, finalState_ok]
    exact sameSight_modifyUser_ne h
  unfold startSeeing
  refine .bind (fun s => Std.Refl.refl s) fun r => .bind (fun s => Std.Refl.refl s) fun r2 => ?_
  refine .bind (keeps_lowerInterval other _) fun _ => .bind hcreate fun _ => ?_
  refine .bind (keeps_createFlightPlan user other) fun _ => ?_
  exact .bind (keeps_sendScripts user other) fun _ => hemplace

theorem keeps_stopSeeing_ne (h : u ≠ user) :
    Keeps (SameSight u v) (stopSeeing env user other) := by
  have hdelete : Keeps (SameSight u v) (Server.deleteClient user other) := by
    intro s
    rw [deleteClient_run, finalState_ok]
    exact sameSight_push ⟨rfl, decide_eq_false fun heq => h heq.1.symm⟩
  have herase : Keeps (SameSight u v) (eraseLocalUser user other) := by
    intro s
    rw [eraseLocalUser, updateUser_run, finalState_ok]
    exact sameSight_modifyUser_ne h
  unfold stopSeeing
  refine .bind hdelete fun _ => .bind (keeps_sendRemoveScripts user other) fun _ => ?_
  exact .bind herase fun _ => keeps_adjustTime env other

theorem keeps_startSeeing_pair (h : ¬ (u = user ∧ v = other)) :
    Keeps (SameSight u v) (startSeeing user other) := by
  by_cases hu : u = user
  · subst hu
    exact keeps_startSeeing fun hv => h ⟨rfl, hv⟩
  · exact keeps_startSeeing_ne hu

theorem keeps_stopSeeing_pair (h : ¬ (u = user ∧ v = other)) :
    Keeps (SameSight u v) (stopSeeing env user other) := by
  by_cases hu : u = user
  · subst hu
    exact keeps_stopSeeing fun hv => h ⟨rfl, hv⟩
  · exact keeps_stopSeeing_ne hu

/-- The visited user has a script that cannot be sent: the client has been told, the entry is not
there. -/
theorem startSeeing_known (h : ¬ Tellable (s.heap other)) :
    ∃ e t, (startSeeing user other).run s = .error e t ∧
      sight user t other =
        { sight user s other with created := (sight user s other).created + 1 } := by
  obtain ⟨m, hrun, hsight, hscripts⟩ := startSeeing_run user other s
  have htellable : ¬ Tellable (m.heap other) := by
    rw [Tellable, hscripts]
    exact h
  obtain ⟨e, t, hsend⟩ := sendScripts_stops user htellable
  have hsame : SameSight user other m (finalState ((sendScripts user other).run m)) :=
    keeps_sendScripts user other m
  rw [hsend, finalState_error] at hsame
  exact ⟨e, t, hrun.trans (run_bind_of_error hsend), hsame.trans hsight⟩

theorem visitUser_cases (env : Environment) (location : Location) (s : Server) :
    (visitUser env user location other).run s = .ok () s ∨
      (entry s user other = none ∧
        (visitUser env user location other).run s = (startSeeing user other).run s) ∨
      ((entry s user other).isSome ∧
        (visitUser env user location other).run s = (stopSeeing env user other).run s) := by
  have hcontains : (containsUser user other).run s =
      .ok (decide (other ∈ (s.heap user).localUsers)) s := rfl
  rw [visitUser]
  by_cases hself : user ≠ other
  · rw [if_pos hself, run_bind_of_ok (getUser_run s other), run_bind_of_ok (getUser_run s user),
      run_bind_of_ok hcontains]
    by_cases hmem : other ∈ (s.heap user).localUsers
    · have hsome : (entry s user other).isSome := mem_iff_entry.mp hmem
      simp only [hmem, decide_true, Bool.not_true, Bool.false_and, Bool.false_eq_true, if_false]
      rw [run_bind_of_ok hcontains]
      split
      · exact Or.inr (Or.inr ⟨hsome, rfl⟩)
      · exact Or.inl rfl
    · have hnone : entry s user other = none := AList.lookup_eq_none.mpr hmem
      simp only [hmem, decide_false, Bool.not_false, Bool.true_and]
      split
      · exact Or.inr (Or.inl ⟨hnone, rfl⟩)
      · rw [run_bind_of_ok hcontains]
        simp only [hmem, decide_false, Bool.false_and, Bool.false_eq_true, if_false]
        exact Or.inl rfl
  · rw [if_neg hself]
    exact Or.inl rfl

theorem Faithful.startSeeing (h : Faithful s) (hnone : entry s user other = none)
    (haround : Around user s (finalState ((Server.startSeeing user other).run s))) :
    Faithful (finalState ((Server.startSeeing user other).run s)) := by
  intro u v
  by_cases hpair : u = user ∧ v = other
  · obtain ⟨rfl, rfl⟩ := hpair
    by_cases htellable : Tellable (s.heap v)
    · obtain ⟨t, hrun, hsight⟩ := startSeeing_returns hnone htellable
      rw [hrun, finalState_ok] at haround ⊢
      have hknows : knows u v t.sent = true :=
        knows_created haround.sent (by rw [hsight]) (by rw [hsight])
      have hentry : (entry t u v).isSome := by
        rw [show entry t u v = some fun _ => 0 from congrArg Sight.entry hsight]
        rfl
      exact ⟨fun _ => hknows, fun _ => Or.inl (mem_iff_entry.mpr hentry)⟩
    · obtain ⟨e, t, hrun, hsight⟩ := @startSeeing_known u v s htellable
      rw [hrun, finalState_error] at haround ⊢
      have hknows : knows u v t.sent = true :=
        knows_created haround.sent (by rw [hsight]) (by rw [hsight])
      rw [Tellable, ← haround.scripts v] at htellable
      exact ⟨fun _ => hknows, fun _ => Or.inr htellable⟩
  · exact (h u v).of_sight (keeps_startSeeing_pair hpair s) (haround.scripts v) haround.sent

theorem Faithful.stopSeeing (h : Faithful s) (hwithdrawable : Withdrawable (s.heap other))
    (haround : Around user s (finalState ((Server.stopSeeing env user other).run s))) :
    Faithful (finalState ((Server.stopSeeing env user other).run s)) := by
  intro u v
  by_cases hpair : u = user ∧ v = other
  · obtain ⟨rfl, rfl⟩ := hpair
    obtain ⟨t, hrun, hsight⟩ := @stopSeeing_returns u v s env hwithdrawable
    rw [hrun, finalState_ok] at haround ⊢
    have hknows : knows u v t.sent = false :=
      knows_deleted haround.sent (by rw [hsight]) (by rw [hsight])
    have hentry : entry t u v = none := congrArg Sight.entry hsight
    constructor
    · intro hmem
      rw [mem_iff_entry, hentry] at hmem
      cases hmem
    · intro hknown
      rw [hknows] at hknown
      cases hknown
  · exact (h u v).of_sight (keeps_stopSeeing_pair hpair s) (haround.scripts v) haround.sent

theorem Faithful.visitUser (h : Faithful s) (hwithdrawable : Withdrawable (s.heap other))
    (location : Location) :
    Faithful (finalState ((Server.visitUser env user location other).run s)) := by
  have haround := @around_visitUser env user other location s
  rcases visitUser_cases env location s with hrun | ⟨hnone, hrun⟩ | ⟨-, hrun⟩
  · rw [hrun]
    exact h
  · rw [hrun] at haround ⊢
    exact h.startSeeing hnone haround
  · rw [hrun] at haround ⊢
    exact h.stopSeeing hwithdrawable haround

end Visits

section Asides

variable (env : Environment) (user other : Ptr)

instance : Kept Aside (getUser user) := ⟨fun s => Std.Refl.refl s⟩

theorem aside_ticks (s : Server) (n : ℕ) : Aside s { s with ticks := n } :=
  ⟨fun _ _ => rfl, fun _ => rfl, plain_nil s⟩

instance (users : List Ptr) : Kept Aside (arranged env users) := ⟨fun s => aside_ticks s _⟩

instance : Kept Aside (readClock env) := ⟨fun s => aside_ticks s _⟩

theorem aside_of_sends {s t : Server} (h : Sends Plain s t) : Aside s t := by
  obtain ⟨new, hsent, hnew⟩ := h.sent
  exact ⟨fun user other => by rw [entry, h.heap]; rfl, fun p => by rw [h.heap], new, hsent, hnew⟩

theorem aside_modifyUser {s : Server} {f : User → User} (hlocals : (f (s.heap user)).localUsers =
    (s.heap user).localUsers) (hscripts : (f (s.heap user)).scripts = (s.heap user).scripts) :
    Aside s (s.modifyUser user f) := by
  refine ⟨fun a b => ?_, modifyUser_frame hscripts, plain_nil s⟩
  rw [entry, modifyUser_frame (g := User.localUsers) hlocals a]
  rfl

theorem kept_aside_updateUser {f : User → User} (hlocals : ∀ u : User, (f u).localUsers =
    u.localUsers) (hscripts : ∀ u : User, (f u).scripts = u.scripts) :
    Kept Aside (updateUser user f) := ⟨fun _ => aside_modifyUser user (hlocals _) (hscripts _)⟩

theorem kept_aside_send {message : Outgoing} (h : Plain ⟨user, message⟩) :
    Kept Aside (send user message) := ⟨(sends_send h).mono fun _ _ => aside_of_sends⟩

instance kept_aside_sendTimeChange (time : ℤ) : Kept Aside (Server.sendTimeChange user time) :=
  kept_aside_send user ⟨fun _ _ => ⟨rfl, rfl⟩, rfl⟩

instance kept_aside_lowerInterval (reqInterval : ℤ) :
    Kept Aside (lowerInterval user reqInterval) := by
  unfold lowerInterval
  refine .of_bind inferInstance fun u => .of_ite ?_ inferInstance
  exact .of_bind (kept_aside_updateUser user (fun _ => rfl) fun _ => rfl) fun _ => inferInstance

instance kept_aside_adjustTime : Kept Aside (adjustTime env user) := by
  unfold adjustTime
  refine .of_bind inferInstance fun u => .of_bind inferInstance fun order => ?_
  refine .of_bind inferInstance fun s => .of_ite ?_ inferInstance
  exact .of_bind (kept_aside_updateUser user (fun _ => rfl) fun _ => rfl) fun _ => inferInstance

instance kept_aside_sendPosUpdate : Kept Aside (sendPosUpdate user other) :=
  ⟨(sends_sendPosUpdate (fun _ _ => ⟨fun _ _ => ⟨rfl, rfl⟩, rfl⟩)
    fun _ => ⟨fun _ _ => ⟨rfl, rfl⟩, rfl⟩).mono fun _ _ => aside_of_sends⟩

instance kept_aside_updateOnlyQueues : Kept Aside (updateOnlyQueues env user) := by
  have hsend (recipient : Ptr) : Kept Aside (Server.sendFlightPlanCycle recipient user) :=
    ⟨(sends_sendFlightPlanCycle fun _ _ => ⟨fun _ _ => ⟨rfl, rfl⟩, rfl⟩).mono fun _ _ =>
      aside_of_sends⟩
  have hplan : Kept Aside (getFlightPlan user) :=
    ⟨(sends_getFlightPlan user).mono fun _ _ => aside_of_sends⟩
  unfold updateOnlyQueues iterateLocalUsers
  refine .of_bind inferInstance fun u => .of_ite (.of_bind inferInstance fun plan => ?_)
    inferInstance
  cases plan with
  | none => infer_instance
  | some fp =>
    exact .of_bind inferInstance fun _ => kept_aside_updateUser user (fun _ => rfl) fun _ => rfl

instance kept_aside_passFlags : Kept Aside (passFlags user) := by
  unfold passFlags
  refine .of_bind inferInstance fun u => .of_ite ?_ inferInstance
  exact kept_aside_updateUser user (fun _ => rfl) fun _ => rfl

instance kept_aside_resetRequired : Kept Aside (resetRequired user) :=
  kept_aside_updateUser user (fun _ => rfl) fun _ => rfl

/-- Whatever fault it may end with. -/
abbrev Safe {α : Type} (I : Server → Prop) (program : ServerM α) : Prop :=
  Guarded I (fun _ => True) program

instance {α : Type} {s₀ : Server} (program : ServerM α) [h : Kept Aside program] :
    Safe (Aside s₀) program :=
  ⟨fun s hs => Trans.trans hs (h.keeps s), fun _ _ _ _ _ => trivial⟩

/-- The entry of a member is written anew. -/
theorem safe_recordStamp {s₀ : Server} {v : Ptr} (hv : (entry s₀ user v).isSome) (att : Attributes)
    (stamp : ℤ) : Safe (Aside s₀) (recordStamp user v att stamp) := by
  refine ⟨fun s h => ?_, fun _ _ _ _ _ => trivial⟩
  rw [recordStamp, updateUser_run, finalState_ok]
  refine ⟨fun a b => ?_, fun p => ?_, h.sent⟩
  · rw [← h.entries a b, entry]
    by_cases ha : a = user
    · subst ha
      rw [modifyUser_heap_self]
      by_cases hb : b = v
      · subst hb
        rw [AList.lookup_insert, h.entries a b, hv]
        rfl
      · rw [AList.lookup_insert_ne hb]
        rfl
    · rw [modifyUser_heap_ne _ _ _ _ ha]
      rfl
  · exact (modifyUser_frame (g := User.scripts) rfl p).trans (h.scripts p)

/-- The set stays as it is at the start of the turn. -/
instance kept_aside_update : Kept Aside (update env user) := by
  refine ⟨fun s => ?_⟩
  have hround : ∀ v ∈ env.arrange s.ticks (s.heap user).localUsers.keys,
      Safe (Aside s) (updateAbout env user v) := by
    intro v hv
    rw [(env.arrange_perm _ _).mem_iff, ← AList.mem_keys, mem_iff_entry] at hv
    have hrecord (att : Attributes) (stamp : ℤ) :
        Safe (Aside s) (recordStamp user v att stamp) := safe_recordStamp user hv att stamp
    have hask : Safe (Aside s) (timeUpdate v user) := by
      unfold timeUpdate; infer_instance
    unfold updateAbout sendDue
    refine .of_bind inferInstance fun u => .of_bind inferInstance fun o => ?_
    refine .of_bind inferInstance fun _ => .of_bind inferInstance fun o' => ?_
    refine .of_ite inferInstance (.of_ite inferInstance (.of_ite ?_ inferInstance))
    refine .of_bind inferInstance fun now => .of_ite (.of_ite inferInstance ?_) inferInstance
    exact .of_ite inferInstance inferInstance
  exact (Guarded.of_forM hround).keeps _ (aside_ticks s _)

end Asides

section Pass

variable {env : Environment} {user other : Ptr} {s₀ s t : Server}

/-- A faithful state of a pass that started in `s₀`. -/
structure Tracks (s₀ s : Server) : Prop where
  faithful : Faithful s
  scripts : Same User.scripts s₀ s

theorem Tracks.of_aside (h : Tracks s₀ s) (haside : Aside s t) : Tracks s₀ t :=
  ⟨h.faithful.of_aside haside, fun p => (haside.scripts p).trans (h.scripts p)⟩

instance {α : Type} (program : ServerM α) [h : Kept Aside program] : Safe (Tracks s₀) program :=
  ⟨fun s hs => hs.of_aside (h.keeps s), fun _ _ _ _ _ => trivial⟩

theorem safe_visitUser (h₀ : AllEquipped s₀) (location : Location) :
    Safe (Tracks s₀) (visitUser env user location other) := by
  refine ⟨fun s h => ⟨h.faithful.visitUser ?_ location, fun p => ?_⟩, fun _ _ _ _ _ => trivial⟩
  · rw [Withdrawable, h.scripts]
    exact (h₀ other).withdrawable
  · exact ((around_visitUser location s).scripts p).trans (h.scripts p)

theorem safe_iterateUsers {func : Ptr → ServerM Unit}
    (hfunc : ∀ user, Safe (Tracks s₀) (func user)) :
    Safe (Tracks s₀) (iterateUsers env func) := by
  unfold iterateUsers
  infer_instance

theorem safe_globalUpdate (env : Environment) (h₀ : AllEquipped s₀) :
    Safe (Tracks s₀) (globalUpdate env) := by
  have hlocal (user : Ptr) : Safe (Tracks s₀) (updateLocalUsers env user) := by
    unfold updateLocalUsers
    refine .of_bind inferInstance fun u => ?_
    exact safe_iterateUsers fun other => safe_visitUser h₀ u.location
  unfold globalUpdate
  refine .of_bind (safe_iterateUsers fun user => ?_) fun _ => ?_
  · exact .of_bind (hlocal user) fun _ => inferInstance
  refine .of_bind (safe_iterateUsers fun user => inferInstance) fun _ => ?_
  exact .of_bind (safe_iterateUsers fun user => inferInstance) fun _ =>
    safe_iterateUsers fun user => inferInstance

end Pass

section Departures

variable {env : Environment} {user other : Ptr} {s₀ s : Server}

/-- A member of the set of a departing user is told, and loses it. -/
theorem Faithful.deleted (h : Faithful s) (user other : Ptr) :
    Faithful ((s.push other (.deleteClient user (s.heap user))).modifyUser other fun o =>
      { o with localUsers := o.localUsers.erase user }) := by
  intro a b
  by_cases hpair : a = other ∧ b = user
  · obtain ⟨rfl, rfl⟩ := hpair
    constructor
    · intro hmem
      rw [modifyUser_heap_self] at hmem
      exact absurd rfl (AList.mem_erase.mp hmem).1
    · intro hknows
      have hcreate : isCreate a b ⟨a, .deleteClient b (s.heap b)⟩ = false := rfl
      have hdelete : isDelete a b ⟨a, .deleteClient b (s.heap b)⟩ = true :=
        decide_eq_true ⟨rfl, rfl⟩
      rw [modifyUser_sent, push_sent, knows, List.foldl_append, List.foldl_cons, learn, hcreate,
        if_pos hdelete] at hknows
      cases hknows
  · have hpush : SameSight a b s (s.push other (.deleteClient user (s.heap user))) :=
      sameSight_push ⟨rfl, decide_eq_false fun heq => hpair ⟨heq.1.symm, heq.2.symm⟩⟩
    have herase : SameSight a b (s.push other (.deleteClient user (s.heap user)))
        ((s.push other (.deleteClient user (s.heap user))).modifyUser other fun o =>
          { o with localUsers := o.localUsers.erase user }) := by
      by_cases ha : a = other
      · subst ha
        exact sameSight_modifyUser (AList.lookup_erase_ne fun hb => hpair ⟨rfl, hb⟩)
      · exact sameSight_modifyUser_ne ha
    exact (h a b).of_sight (herase.trans hpush) (modifyUser_frame (g := User.scripts) rfl b)
      ⟨_, rfl⟩

theorem safe_farewell : Safe (Tracks s₀) (Departure.farewell env user other) := by
  refine .of_like fun s h => ⟨Tracks s₀, adjustTime env other,
    (s.push other (.deleteClient user (s.heap user))).modifyUser other fun o =>
      { o with localUsers := o.localUsers.erase user }, ?_, fun _ h => h, inferInstance, rfl⟩
  exact ⟨h.faithful.deleted user other,
    fun p => (modifyUser_frame (g := User.scripts) rfl p).trans (h.scripts p)⟩

theorem Faithful.disconnect (h : Faithful s) (env : Environment) (clientSocket : Socket) :
    Faithful (serve env s (.disconnect clientSocket)) := by
  rcases disconnect_served env s clientSocket with hsame | ⟨user, m, -, hloop, hserve⟩
  · rw [hsame]
    exact h
  · have hround (other : Ptr) : Safe (Tracks s) (Departure.farewell env user other) := safe_farewell
    have hkept : Safe (Tracks s) (iterateLocalUsers env user (Departure.farewell env user)) := by
      unfold iterateLocalUsers; infer_instance
    have hm := (hkept.ok ⟨h, fun _ => rfl⟩ hloop).faithful
    rw [hserve]
    exact fun u v => ⟨(hm u v).seen, (hm u v).known⟩

end Departures

section Packets

variable {s t : Server}

/-- A script in a slot stays in it. -/
def Grows (s t : Server) : Prop :=
  ∀ p, Slotted (s.heap p).scripts → Slotted (t.heap p).scripts ∧
    ∀ i ∈ (s.heap p).scripts.usedIndices, i ∈ (t.heap p).scripts.usedIndices ∧
      (t.heap p).scripts.scripts i = (s.heap p).scripts.scripts i

instance : Quiet Grows where
  refl _ _ h := ⟨h, fun _ hi => ⟨hi, rfl⟩⟩
  trans s t r h h' p hs := by
    obtain ⟨ht, hst⟩ := h p hs
    obtain ⟨hr, htr⟩ := h' p ht
    refine ⟨hr, fun i hi => ?_⟩
    obtain ⟨hit, hsame⟩ := hst i hi
    obtain ⟨hir, hsame'⟩ := htr i hit
    exact ⟨hir, hsame'.trans hsame⟩
  push _ _ _ _ h := ⟨h, fun _ hi => ⟨hi, rfl⟩⟩
  ticks _ _ _ h := ⟨h, fun _ hi => ⟨hi, rfl⟩⟩

theorem Grows.tellable (h : Grows s t) {p : Ptr} (hs : Slotted (s.heap p).scripts)
    (ht : Tellable (t.heap p)) : Tellable (s.heap p) := by
  intro slot hslot
  obtain ⟨i, hi, rfl⟩ := List.mem_map.mp hslot
  obtain ⟨hit, hsame⟩ := (h p hs).2 i hi
  rw [← hsame]
  exact ht _ (List.mem_map.mpr ⟨i, hit, rfl⟩)

theorem grows_registerScript (env : Environment) (u : Ptr) (script : ClientScript) :
    Kept Grows (registerScript env u script) := by
  refine ⟨fun s => ?_⟩
  rw [registerScript, run_bind_of_ok (getUser_run s u)]
  cases hadd : (s.heap u).scripts.addScript script with
  | error e => exact Std.Refl.refl s
  | ok placed =>
    have hstore : Grows s (s.modifyUser u fun r => { r with scripts := placed.1 }) := by
      intro p hp
      by_cases hpu : p = u
      · subst hpu
        rw [modifyUser_heap_self]
        exact hp.addScript hadd
      · rw [modifyUser_heap_ne _ _ _ _ hpu]
        exact ⟨hp, fun _ hi => ⟨hi, rfl⟩⟩
    have htell : Kept Grows (do
        Server.sendScript u u placed.2
        iterateLocalUsers env u fun other => Server.sendScript other u placed.2 : ServerM Unit) :=
      inferInstance
    exact Trans.trans hstore (htell.keeps _)

theorem grows_tempData (env : Environment) (clientSocket : Socket) (user : Option Ptr) :
    Kept (Lifted Grows) (TempDataPacket.handle env clientSocket user) := by
  have hregister (u : Ptr) (script : ClientScript) : Kept Grows (registerScript env u script) :=
    grows_registerScript env u script
  unfold TempDataPacket.handle
  infer_instance

theorem blank_scripts {id : ℕ} (hid : id ≠ 14) (u : User) : (blank id u).scripts = u.scripts := by
  unfold blank
  split
  · rfl
  · rfl
  · rfl
  · rfl
  · rfl
  · rfl
  · rfl
  · rfl
  · exact absurd rfl hid
  · rfl

theorem packet_grows (env : Environment) (clientSocket : Socket) {id : ℕ} (hlogin : id ≠ 45)
    (buf : BasicStream) (s : Server) :
    Grows s (serve env s (.packet clientSocket id buf)) := by
  by_cases hid : id = 14
  · subst hid
    rw [serve, TwoMemories.processPacket_run env clientSocket s buf rfl]
    exact ((grows_tempData env clientSocket _).keeps ⟨s, buf, [(14, [])]⟩).1
  · have hacted := packet_served env s clientSocket hlogin buf
    have hscripts (p : Ptr) : ((serve env s (.packet clientSocket id buf)).heap p).scripts =
        (s.heap p).scripts := by
      have hkeeps := hacted.heap p
      simp only [permission] at hkeeps
      split at hkeeps
      · rw [← blank_scripts hid, hkeeps, blank_scripts hid]
      · rw [hkeeps]
    intro p hp
    rw [hscripts]
    exact ⟨hp, fun _ hi => ⟨hi, rfl⟩⟩

theorem neither_of_news {id : ℕ} {about recipient : Ptr} {message : Outgoing}
    (h : news s id about message) (user other : Ptr) : Neither user other ⟨recipient, message⟩ := by
  obtain ⟨r, -, hkind⟩ := h
  split at hkind
  · obtain ⟨_, rfl⟩ := hkind; exact ⟨rfl, rfl⟩
  · obtain ⟨_, _, _, rfl⟩ := hkind; exact ⟨rfl, rfl⟩
  · obtain ⟨_, rfl⟩ := hkind; exact ⟨rfl, rfl⟩
  · obtain ⟨_, rfl⟩ := hkind; exact ⟨rfl, rfl⟩
  · rw [hkind]; exact ⟨rfl, rfl⟩
  · obtain ⟨_, rfl⟩ := hkind; exact ⟨rfl, rfl⟩
  · exact hkind.elim

theorem neither_of_mayTell {buf : BasicStream} {u : Ptr} {e : Sent} {id : ℕ}
    (h : mayTell s buf u e id) (user other : Ptr) : Neither user other e := by
  unfold mayTell at h
  split at h
  · exact neither_of_news h.2 user other
  · exact neither_of_news h.2 user other
  · exact neither_of_news h.2 user other
  · exact neither_of_news h.2 user other
  · exact neither_of_news h.2 user other
  · obtain ⟨-, index, about, -, -, hnews⟩ := h
    exact neither_of_news hnews user other
  · obtain ⟨-, callsign, text, -, hmessage⟩ := h
    obtain ⟨recipient, message⟩ := e
    obtain rfl : message = _ := hmessage
    exact ⟨rfl, rfl⟩
  · exact h.elim

theorem Faithful.packet (h : Faithful s) (hequipped : AllEquipped s) (env : Environment)
    (clientSocket : Socket) {id : ℕ} (hlogin : id ≠ 45) (buf : BasicStream) :
    Faithful (serve env s (.packet clientSocket id buf)) := by
  have hacted := packet_served env s clientSocket hlogin buf
  have hgrows := packet_grows env clientSocket hlogin buf s
  obtain ⟨new, hsent, htells⟩ := hacted.sent
  intro user other
  have hlocals : ((serve env s (.packet clientSocket id buf)).heap user).localUsers =
      (s.heap user).localUsers := by
    rw [← unwritten_localUsers, unwritten_of_permission hacted, unwritten_localUsers]
  have hsight : SameSight user other s (serve env s (.packet clientSocket id buf)) := by
    refine sameSight_of_sent (by rw [entry, hlocals]; rfl) hsent fun e he => ?_
    obtain ⟨u, -, htell⟩ := htells e he
    exact neither_of_mayTell htell user other
  have hknows := knows_same ⟨new, hsent⟩ hsight
  constructor
  · rw [hlocals, hknows]
    exact (h user other).seen
  · rw [hlocals, hknows]
    intro hknown
    refine ((h user other).known hknown).imp_right fun hbad htellable => ?_
    exact hbad (hgrows.tellable (hequipped other).slots htellable)

end Packets

section Runs

variable {s t : Server}

/-- A new user sees nobody and is unknown. -/
theorem Faithful.joined (h : Faithful s) (hsound : Sound s) {clientSocket : Socket}
    (hjoined : Joined clientSocket s t) : Faithful t := by
  obtain ⟨new, hsent, hgreeting⟩ := hjoined.sent
  have hunknown (user other : Ptr) (hnext : user = s.next ∨ other = s.next) :
      ¬ knows user other s.sent = true := by
    intro hknows
    obtain ⟨e, he, hcreate⟩ := exists_create hknows
    have hhonest := hsound.sent e he
    unfold isCreate at hcreate
    split at hcreate
    · next about c hmessage =>
      obtain ⟨rfl, rfl⟩ := of_decide_eq_true hcreate
      have habout := (hhonest.shows about c (by rw [hmessage]; rfl)).1
      have hrecipient := hhonest.recipient
      rcases hnext with hnext | hnext
      · exact absurd hnext (Nat.ne_of_lt hrecipient)
      · exact absurd hnext (Nat.ne_of_lt habout)
    · cases hcreate
  intro user other
  have hknows : knows user other t.sent = knows user other s.sent := by
    have hneither : ∀ e ∈ new, Neither user other e := by
      intro e he
      obtain ⟨-, habout, -⟩ := hgreeting e he
      constructor
      · unfold isCreate
        split
        · next about c hmessage =>
          rw [hmessage] at habout
          cases habout
        · rfl
      · unfold isDelete
        split
        · next about c hmessage =>
          rw [hmessage] at habout
          cases habout
        · rfl
    rw [knows, hsent, List.foldl_append]
    exact foldl_learn_neither (List.countP_eq_zero.mpr fun e he => by simp [(hneither e he).1])
      (List.countP_eq_zero.mpr fun e he => by simp [(hneither e he).2])
  by_cases hnext : user = s.next ∨ other = s.next
  · have hnot : ¬ knows user other t.sent = true := by
      rw [hknows]
      exact hunknown user other hnext
    refine ⟨fun hmem => ?_, fun hknown => absurd hknown hnot⟩
    by_cases huser : user = s.next
    · rw [huser, hjoined.new.localUsers] at hmem
      exact absurd hmem (AList.notMem_empty other)
    · rw [hjoined.old user huser] at hmem
      exact absurd (hnext.resolve_left huser) (Nat.ne_of_lt (hsound.locals user other hmem))
  · push Not at hnext
    obtain ⟨hseen, hknown⟩ := h user other
    rw [← hjoined.old user hnext.1, ← hknows] at hseen hknown
    rw [← hjoined.old other hnext.2] at hknown
    exact ⟨hseen, hknown⟩

theorem Faithful.serve (h : Faithful s) (hsound : Sound s) (hequipped : AllEquipped s)
    (env : Environment) (e : Event) : Faithful (TwoMemories.serve env s e) := by
  cases e with
  | packet clientSocket id buf =>
    by_cases hlogin : id = 45
    · subst hlogin
      rcases login_served env s clientSocket buf with hsame | hjoined
      · rw [hsame]
        exact h
      · exact h.joined hsound hjoined
    · exact h.packet hequipped env clientSocket hlogin buf
  | disconnect clientSocket => exact h.disconnect env clientSocket
  | pass => exact ((safe_globalUpdate env hequipped).keeps s ⟨h, fun _ => rfl⟩).faithful

theorem faithful_initial (storage : Ptr → Storage) : Faithful (.initial storage) := by
  refine fun user other => ⟨fun hmem => absurd hmem (AList.notMem_empty other), fun hknown => ?_⟩
  cases hknown

/-- In every run the users that a client has been told of, and of whose end it has not been told
since, are those that the server keeps for it; only a user with a script that cannot be sent may be
known to a client without being kept for it. -/
theorem replica_faithful (storage : Ptr → Storage) (events : List (Environment × Event)) :
    Faithful (run storage events) := by
  have hinv : Sound (run storage events) ∧ AllEquipped (run storage events) ∧
      Faithful (run storage events) := by
    refine foldl_inv (Q := fun s => Sound s ∧ AllEquipped s ∧ Faithful s) (fun s e h => ?_)
      ⟨sound_initial storage, equipped_initial storage, faithful_initial storage⟩ events
    obtain ⟨hsound, hequipped, hfaithful⟩ := h
    exact ⟨(hsound.serve e.1 e.2).1, hequipped.serve e.1 e.2,
      hfaithful.serve hsound hequipped e.1 e.2⟩
  exact hinv.2.2

end Runs

end Win64Server.Replica
