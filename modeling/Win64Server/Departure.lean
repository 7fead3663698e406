import Win64Server.Observers

/-!
What a user leaves behind when it disconnects. The cleanup goes over the departing user's own set
of local users: it tells each member and takes the user out of the member's set. Users that see
the departing one without being seen by it are not among them.
-/
namespace Win64Server.Departure

open Outcome Server

/-- A `delete_client` for a user. -/
def isDelete (about : Ptr) : Outgoing → Bool
  | .deleteClient a _ => decide (a = about)
  | _ => false

/-- How often a user has been told that another one is gone. -/
def notices (about : Ptr) (sent : List Sent) (user : Ptr) : ℕ :=
  sent.countP fun e => decide (e.recipient = user) && isDelete about e.message

theorem notices_delete {about user recipient : Ptr} {sent : List Sent} (client : User) :
    notices about (sent ++ [⟨recipient, .deleteClient about client⟩]) user =
      notices about sent user + if user = recipient then 1 else 0 := by
  simp [notices, isDelete, List.countP_append, List.countP_cons, eq_comm]

theorem notices_timeChange {about user recipient : Ptr} {sent : List Sent} (time : ℤ) :
    notices about (sent ++ [⟨recipient, .timeChange time⟩]) user = notices about sent user := by
  simp [notices, isDelete, List.countP_append]

/-- What a part of the cleanup does: `told` counts the notices each user gets, and whoever is
told no longer has the departing user in its set. -/
structure Cleans (about : Ptr) (told : Ptr → ℕ) (s t : Server) : Prop where
  clientManager : t.clientManager = s.clientManager
  notices : ∀ user, notices about t.sent user = notices about s.sent user + told user
  sees : ∀ user, about ∈ (t.heap user).localUsers ↔
    about ∈ (s.heap user).localUsers ∧ told user = 0

section Cleanup

variable (env : Environment) {about : Ptr}

theorem Cleans.refl (s : Server) : Cleans about (fun _ => 0) s s :=
  ⟨rfl, fun _ => rfl, fun _ => by simp⟩

theorem Cleans.trans {told told' : Ptr → ℕ} {s t u : Server} (h : Cleans about told s t)
    (h' : Cleans about told' t u) : Cleans about (fun user => told user + told' user) s u where
  clientManager := h'.clientManager.trans h.clientManager
  notices user := by rw [h'.notices, h.notices, Nat.add_assoc]
  sees user := by rw [h'.sees, h.sees, Nat.add_eq_zero_iff, and_assoc]

/-- The interval of a user is no concern of the cleanup. -/
theorem adjustTime_cleans (about : Ptr) (s : Server) (user : Ptr) :
    ∃ t, (adjustTime env user).run s = .ok () t ∧ Cleans about (fun _ => 0) s t := by
  obtain ⟨time, hrun⟩ := adjustTime_run s user env
  refine ⟨_, hrun, ?_⟩
  split
  · refine ⟨rfl, fun other => notices_timeChange time, fun other => ?_⟩
    rw [push_heap, modifyUser_frame (g := User.localUsers) rfl]
    simp
  · exact ⟨rfl, fun _ => rfl, fun _ => by simp⟩

/-- The round of the cleanup for one local user. -/
def farewell (env : Environment) (user other : Ptr) : ServerM Unit := do
  Server.deleteClient other user
  updateUser other fun o => { o with localUsers := o.localUsers.erase user }
  adjustTime env other

theorem farewell_cleans (about : Ptr) (s : Server) (other : Ptr) :
    ∃ t, (farewell env about other).run s = .ok () t ∧
      Cleans about (fun user => if user = other then 1 else 0) s t := by
  let m := (s.push other (.deleteClient about (s.heap about))).modifyUser other fun o =>
    { o with localUsers := o.localUsers.erase about }
  have hm : Cleans about (fun user => if user = other then 1 else 0) s m := by
    refine ⟨rfl, fun user => notices_delete (s.heap about), fun user => ?_⟩
    by_cases huser : user = other
    · subst huser
      simp [m, AList.mem_erase]
    · simp [m, modifyUser_heap_ne _ _ _ _ huser, huser]
  obtain ⟨t, hrun, ht⟩ := adjustTime_cleans env about m other
  exact ⟨t, hrun, hm.trans ht⟩

theorem forM_farewell_cleans (about : Ptr) (order : List Ptr) (s : Server) :
    ∃ t, (order.forM (farewell env about)).run s = .ok () t ∧
      Cleans about (fun user => order.count user) s t := by
  induction order generalizing s with
  | nil => exact ⟨s, rfl, .refl s⟩
  | cons other order ih =>
    obtain ⟨m, hfirst, hm⟩ := farewell_cleans env about s other
    obtain ⟨t, hrest, ht⟩ := ih m
    refine ⟨t, ?_, ?_⟩
    · rw [List.forM_eq_forM, List.forM_cons, run_bind_of_ok hfirst]
      exact hrest
    · have hall := hm.trans ht
      have hcount : (fun user => (if user = other then 1 else 0) + order.count user) =
          fun user => (other :: order).count user := by
        funext user
        rw [List.count_cons, Nat.add_comm]
        by_cases huser : user = other
        · simp [huser]
        · simp [huser, Ne.symm huser]
      rwa [hcount] at hall

end Cleanup

/-- The connected users a disconnected one is still seen by, and the notices sent about it. -/
structure LeavesNoTrace (s t : Server) (user : Ptr) : Prop where
  forgotten : ∀ other ∈ t.clientManager.users, user ∉ (t.heap other).localUsers
  informed : ∀ other, user ∈ (s.heap other).localUsers →
    notices user t.sent other = notices user s.sent other + 1
  others : ∀ other, user ∉ (s.heap other).localUsers →
    notices user t.sent other = notices user s.sent other

/-- What `disconnect_user` does for a connected user. -/
theorem disconnectUser_run (env : Environment) {s : Server} {clientSocket : Socket} {user : Ptr}
    (hconnected : s.clientManager.getUserBySocket clientSocket = some user) :
    ∃ t, (disconnectUser env clientSocket).run s = .ok () t ∧
      (∀ other, notices user t.sent other = notices user s.sent other +
        if (s.heap user).valid = true ∧ other ∈ (s.heap user).localUsers then 1 else 0) ∧
      ∀ other, user ∈ (t.heap other).localUsers ↔ user ∈ (s.heap other).localUsers ∧
        ¬ ((s.heap user).valid = true ∧ other ∈ (s.heap user).localUsers) := by
  rw [disconnectUser, EStateM.run_bind, EStateM.run_get]
  dsimp only
  rw [hconnected]
  dsimp only
  by_cases hvalid : (s.heap user).valid = true
  · rw [if_pos hvalid]
    let order := env.arrange s.ticks (s.heap user).localUsers.keys
    obtain ⟨m, hloop, hm⟩ := forM_farewell_cleans env user order
      { s with ticks := s.ticks + 1 }
    have hcount (other : Ptr) :
        order.count other = if other ∈ (s.heap user).localUsers then 1 else 0 := by
      rw [(env.arrange_perm _ _).count_eq, (s.heap user).localUsers.keys_nodup.count]
      simp only [AList.mem_keys]
    refine ⟨{ m with clientManager := m.clientManager.removeUser clientSocket m.heap }, ?_,
      fun other => ?_, fun other => ?_⟩
    · have hiterate : (iterateLocalUsers env user (farewell env user)).run s = .ok () m := hloop
      exact run_bind_of_ok hiterate
    · simp only [hvalid, true_and, ← hcount]
      exact hm.notices other
    · have hsees := hm.sees other
      rw [hcount] at hsees
      simpa [hvalid] using hsees
  · rw [if_neg hvalid]
    exact ⟨s, rfl, fun _ => by simp [hvalid], fun _ => by simp [hvalid]⟩

/-- Disconnecting leaves no trace exactly when the users that see the departing one are the
members of its own set. -/
theorem leavesNoTrace_iff (env : Environment) {s : Server} {clientSocket : Socket} {user : Ptr}
    (hconnected : s.clientManager.getUserBySocket clientSocket = some user) :
    ∃ t, (disconnectUser env clientSocket).run s = .ok () t ∧
      (LeavesNoTrace s t user ↔ ∀ other, user ∈ (s.heap other).localUsers ↔
        (s.heap user).valid = true ∧ other ∈ (s.heap user).localUsers) := by
  obtain ⟨t, hrun, hnotices, hsees⟩ := disconnectUser_run env hconnected
  refine ⟨t, hrun, fun h other => ⟨fun hsaw => ?_, fun htold => ?_⟩, fun h => ⟨?_, ?_, ?_⟩⟩
  · have hinformed := (hnotices other).symm.trans (h.informed other hsaw)
    by_contra hnot
    rw [if_neg hnot] at hinformed
    omega
  · by_contra hnot
    have hothers := (hnotices other).symm.trans (h.others other hnot)
    rw [if_pos htold] at hothers
    omega
  · intro other _ hstill
    obtain ⟨hsaw, hnot⟩ := (hsees other).mp hstill
    exact hnot ((h other).mp hsaw)
  · intro other hsaw
    rw [hnotices, if_pos ((h other).mp hsaw)]
  · intro other hnot
    rw [hnotices, if_neg (mt (h other).mpr hnot), Nat.add_zero]

/-- The controller leaves, which the pilot it saw does not see. -/
theorem leavesNoTrace_iff_controller :
    ∃ t, (disconnectUser (.orderly Observers.sixtyMiles) 1).run Observers.afterPass = .ok () t ∧
      (LeavesNoTrace Observers.afterPass t 0 ↔
        ∀ other, 0 ∈ (Observers.afterPass.heap other).localUsers ↔
          (Observers.afterPass.heap 0).valid = true ∧
            other ∈ (Observers.afterPass.heap 0).localUsers) :=
  leavesNoTrace_iff (.orderly Observers.sixtyMiles) (by decide +kernel)

/-- The pilot leaves after the first pass, and the controller keeps it in its set untold. -/
theorem departed_pilot_still_seen :
    (globalUpdate (.orderly Observers.sixtyMiles)).run Observers.twoUsers =
        .ok () Observers.afterPass ∧
      Observers.afterPass.clientManager.getUserBySocket 2 = some 1 ∧
      ∃ t, (disconnectUser (.orderly Observers.sixtyMiles) 2).run Observers.afterPass = .ok () t ∧
        ¬ LeavesNoTrace Observers.afterPass t 1 := by
  refine ⟨Observers.afterPass_run, by decide +kernel, _, run_eq_ok (by decide +kernel), fun h => ?_⟩
  exact absurd (h.forgotten 0 (by decide +kernel)) (by decide +kernel)

end Win64Server.Departure
