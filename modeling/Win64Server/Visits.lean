import Win64Server.Frames
import Win64Server.Observers

/-!
One user's turn in the second loop of a pass. The turn visits the local users one after the
other; what a visit sends and records depends on the entry for the visited user and on the clock
alone, and the other visits of the turn leave that entry as it is.
-/
namespace Win64Server.Visits

open Outcome Server Frames Observers

/-- What no part of a pass changes of a user. -/
structure Settled where
  requestTime : Fin typeIntervals → ℤ
  type : AvClient
  stamp : ℤ
  updateRequired : Bool
  location : Location
  visibilityRange : ℤ

def settled (u : User) : Settled where
  requestTime := u.requestTime
  type := u.getType
  stamp := u.lastPositionUpdate
  updateRequired := u.updateRequired
  location := u.location
  visibilityRange := u.visibilityRange

/-- The entry for `other` in the set of `user`. -/
def entry (s : Server) (user other : Ptr) : Option Attributes :=
  (s.heap user).localUsers.lookup other

/-- Only the entries of some pairs may differ. -/
structure Only (changes : Ptr → Ptr → Prop) (s t : Server) : Prop where
  clientManager : t.clientManager = s.clientManager
  settled : Same settled s t
  entry : ∀ user other, ¬ changes user other → entry t user other = entry s user other

namespace Only

variable {changes : Ptr → Ptr → Prop} {s t : Server} {user other : Ptr}

instance : Frame (fun u => (Visits.settled u, u.localUsers)) (Only changes) where
  refl _ := ⟨rfl, fun _ => rfl, fun _ _ _ => rfl⟩
  trans _ _ _ h h' := ⟨h'.clientManager.trans h.clientManager,
    fun user => (h'.settled user).trans (h.settled user),
    fun user other hne => (h'.entry user other hne).trans (h.entry user other hne)⟩
  push _ _ _ := ⟨rfl, fun _ => rfl, fun _ _ _ => rfl⟩
  ticks _ _ := ⟨rfl, fun _ => rfl, fun _ _ _ => rfl⟩
  modifyUser s user f hf := by
    have hframe := modifyUser_frame (g := fun u => (Visits.settled u, u.localUsers)) hf
    simp only [Prod.mk.injEq] at hframe
    exact ⟨rfl, fun other => (hframe other).1, fun a b _ => by rw [Visits.entry, (hframe a).2]; rfl⟩

theorem mono {changes' : Ptr → Ptr → Prop} (h : Only changes s t)
    (himp : ∀ a b, changes a b → changes' a b) : Only changes' s t :=
  ⟨h.clientManager, h.settled, fun a b hne => h.entry a b (mt (himp a b) hne)⟩

theorem type (h : Only changes s t) (user : Ptr) : (t.heap user).getType = (s.heap user).getType :=
  congrArg Settled.type (h.settled user)

theorem stamp (h : Only changes s t) (user : Ptr) :
    (t.heap user).lastPositionUpdate = (s.heap user).lastPositionUpdate :=
  congrArg Settled.stamp (h.settled user)

theorem updateRequired (h : Only changes s t) (user : Ptr) :
    (t.heap user).updateRequired = (s.heap user).updateRequired :=
  congrArg Settled.updateRequired (h.settled user)

theorem requested (h : Only changes s t) (user other : Ptr) :
    (t.heap user).getRequestedInterval (t.heap other).getType =
      (s.heap user).getRequestedInterval (s.heap other).getType := by
  have hrequest : (t.heap user).requestTime = (s.heap user).requestTime :=
    congrArg Settled.requestTime (h.settled user)
  simp only [User.getRequestedInterval, h.type, hrequest]

/-- A change to the entry for one user. -/
theorem modifyUser {f : User → User} (hsettled : ∀ u, Visits.settled (f u) = Visits.settled u)
    (hentry : ∀ u : User, ∀ b, b ≠ other → (f u).localUsers.lookup b = u.localUsers.lookup b) :
    Only (fun a b => a = user ∧ b = other) s (s.modifyUser user f) := by
  refine ⟨rfl, modifyUser_frame (hsettled _), fun a b hne => ?_⟩
  by_cases ha : a = user
  · subst ha
    simp only [Visits.entry, modifyUser_heap_self]
    exact hentry _ b fun hb => hne ⟨rfl, hb⟩
  · simp only [Visits.entry, modifyUser_heap_ne _ _ _ _ ha]

end Only

section Visit

variable {s t : Server} {user other : Ptr}

/-- A position message between two users. -/
def ForPair (user other : Ptr) (e : Sent) : Prop :=
  isPosition e.message = true ∧
    ((e.recipient = user ∧ e.message.about = some other) ∨
      (e.recipient = other ∧ e.message.about = some user))

instance (user other : Ptr) (e : Sent) : Decidable (ForPair user other e) := by
  unfold ForPair
  infer_instance

/-- Between two states a position message for the pair has been sent. -/
def Exchanged (user other : Ptr) (s t : Server) : Prop :=
  ∃ e ∈ t.sent.drop s.sent.length, ForPair user other e

/-- The stamp in the entry for a local user. -/
def recorded (s : Server) (user other : Ptr) : ℤ :=
  ((entry s user other).getD fun _ => 0) lastPosUpdate

def request (s : Server) (user other : Ptr) : ℤ :=
  (s.heap user).getRequestedInterval (s.heap other).getType

/-- A visit sends a position and records the stamp. -/
def Due (now : ℤ) (s : Server) (user other : Ptr) : Prop :=
  (s.heap user).updateRequired = true ∨ recorded s user other = 0 ∨
    (recorded s user other ≠ (s.heap other).lastPositionUpdate ∧
      request s user other ≤ now - recorded s user other)

theorem Only.due_iff {changes : Ptr → Ptr → Prop} (h : Only changes s t)
    (hne : ¬ changes user other) (now : ℤ) : Due now t user other ↔ Due now s user other := by
  simp only [Due, recorded, request, h.entry user other hne, h.requested, h.stamp,
    h.updateRequired]

/-- The server once the visited user has been asked for a shorter interval if need be. -/
def asked (s : Server) (user other : Ptr) : Server :=
  if (s.heap other).updateInterval > request s user other then
    (s.modifyUser other fun u => { u with updateInterval := request s user other }).push other
      (.timeChange (request s user other))
  else s

theorem timeUpdate_asked (s : Server) (user other : Ptr) :
    (timeUpdate other user).run s = .ok () (asked s user other) := by
  simp only [timeUpdate, EStateM.run_bind, getUser_run, lowerInterval_run]
  rfl

theorem asked_interval_eq (s : Server) (user other : Ptr) :
    ((asked s user other).heap other).updateInterval =
      min (s.heap other).updateInterval (request s user other) := by
  unfold asked
  split
  next hmore =>
    rw [push_heap, modifyUser_heap_self]
    exact (min_eq_right (le_of_lt hmore)).symm
  next hless => exact (min_eq_left (not_lt.mp hless)).symm

theorem asked_interval (s : Server) (user other : Ptr) :
    ((asked s user other).heap other).updateInterval ≤ request s user other :=
  (asked_interval_eq s user other).trans_le (min_le_right _ _)

theorem asked_ticks (s : Server) (user other : Ptr) : (asked s user other).ticks = s.ticks := by
  unfold asked
  split <;> rfl

theorem asked_only (changes : Ptr → Ptr → Prop) : Only changes s (asked s user other) := by
  have hkept : Kept (Only changes) (lowerInterval other (request s user other)) :=
    kept_lowerInterval (fun _ _ => rfl) other _
  have h := hkept.keeps s
  rw [lowerInterval_run, finalState_ok] at h
  exact h

theorem asked_sent (s : Server) (user other : Ptr) :
    ∃ new, (asked s user other).sent = s.sent ++ new ∧
      ∀ e ∈ new, isPosition e.message = false := by
  unfold asked
  split
  · exact ⟨_, rfl, by simp [isPosition]⟩
  · exact ⟨[], by simp, by simp⟩

theorem sendPosUpdate_run (s : Server) (updatedUser aboutUser : Ptr) :
    ∃ message, isPosition message = true ∧ message.about = some aboutUser ∧
      (sendPosUpdate updatedUser aboutUser).run s = .ok () (s.push updatedUser message) := by
  rw [sendPosUpdate, run_bind_of_ok (getUser_run s aboutUser)]
  cases (s.heap aboutUser).derived with
  | aircraft aircraft => exact ⟨_, rfl, rfl, rfl⟩
  | controller c => exact ⟨_, rfl, rfl, rfl⟩

/-- A position has been sent between the two and the stamp recorded. -/
def Recorded (user other : Ptr) (att : Attributes) (stamp : ℤ) (s t : Server) : Prop :=
  ∃ (e : Sent) (n : ℕ), ForPair user other e ∧
    t = ({ s with ticks := n }.push e.recipient e.message).modifyUser user fun u =>
      { u with localUsers := u.localUsers.insert other (Function.update att lastPosUpdate stamp) }

theorem Recorded.sent {att : Attributes} {stamp : ℤ} (h : Recorded user other att stamp s t) :
    ∃ e, ForPair user other e ∧ t.sent = s.sent ++ [e] := by
  obtain ⟨e, n, hpair, rfl⟩ := h
  exact ⟨e, hpair, rfl⟩

theorem sendPosUpdate_records (user other : Ptr) {updatedUser aboutUser : Ptr}
    (hpair : (updatedUser = user ∧ aboutUser = other) ∨ (updatedUser = other ∧ aboutUser = user))
    (s : Server) (n : ℕ) (att : Attributes) (stamp : ℤ) :
    ∃ t, (do
      sendPosUpdate updatedUser aboutUser
      recordStamp user other att stamp : ServerM Unit).run { s with ticks := n } = .ok () t ∧
      Recorded user other att stamp s t := by
  obtain ⟨message, hposition, habout, hrun⟩ :=
    sendPosUpdate_run { s with ticks := n } updatedUser aboutUser
  refine ⟨_, run_bind_of_ok hrun, ⟨updatedUser, message⟩, n, ⟨hposition, ?_⟩, rfl⟩
  rcases hpair with ⟨rfl, rfl⟩ | ⟨rfl, rfl⟩
  · exact Or.inl ⟨rfl, habout⟩
  · exact Or.inr ⟨rfl, habout⟩

/-- What is left of a visit when the interval is within the request: one of the ways to send, or
nothing. Whichever way the interval since the last record compares with the bounds, a changed
stamp that is old enough is sent. -/
theorem sendDue_run {env : Environment} {now userReqInterval : ℤ} (user : Ptr)
    (updateRequired : Bool) (stamp : ℤ) (att : Attributes) (hclock : env.clock s.ticks = now)
    (hinterval : (s.heap other).updateInterval ≤ userReqInterval) :
    ∃ t, (sendDue env user other updateRequired userReqInterval att stamp).run s = .ok () t ∧
      (updateRequired = true ∨ att lastPosUpdate = 0 ∨
          (att lastPosUpdate ≠ stamp ∧ userReqInterval ≤ now - att lastPosUpdate) →
        Recorded user other att stamp s t) ∧
      (¬ (updateRequired = true ∨ att lastPosUpdate = 0 ∨
          (att lastPosUpdate ≠ stamp ∧ userReqInterval ≤ now - att lastPosUpdate)) →
        ∃ n, t = { s with ticks := n }) := by
  have hto := sendPosUpdate_records user other (Or.inl ⟨rfl, rfl⟩) s
  have hfrom := sendPosUpdate_records user other (Or.inr ⟨rfl, rfl⟩) s
  rw [sendDue, run_bind_of_ok (getUser_run s other)]
  dsimp only
  rw [if_neg (not_lt.mpr hinterval)]
  by_cases hrequired : updateRequired = true
  · rw [if_pos hrequired]
    obtain ⟨t, hrun, hrecorded⟩ := hto s.ticks att stamp
    exact ⟨t, hrun, fun _ => hrecorded, fun h => absurd (Or.inl hrequired) h⟩
  rw [if_neg hrequired]
  by_cases hlast : att lastPosUpdate = 0
  · rw [if_neg (not_not.mpr hlast)]
    obtain ⟨t, hrun, hrecorded⟩ := hfrom s.ticks att stamp
    exact ⟨t, hrun, fun _ => hrecorded, fun h => absurd (Or.inr (Or.inl hlast)) h⟩
  rw [if_pos hlast, run_bind_of_ok (readClock_run s env), hclock]
  by_cases hdue : att lastPosUpdate ≠ stamp ∧ now - att lastPosUpdate ≥ userReqInterval
  · rw [if_pos hdue]
    have hholds : ∃ t, Recorded user other att stamp s t ∧
        (if now - att lastPosUpdate ≥ userReqInterval - (s.heap other).updateInterval ∧
            now - att lastPosUpdate ≤ userReqInterval + (s.heap other).updateInterval then (do
          sendPosUpdate user other
          recordStamp user other att stamp : ServerM Unit)
        else if now - att lastPosUpdate > userReqInterval + (s.heap other).updateInterval then (do
          sendPosUpdate other user
          recordStamp user other att stamp : ServerM Unit)
        else return).run { s with ticks := s.ticks + 1 } = .ok () t := by
      by_cases hwithin : now - att lastPosUpdate ≥ userReqInterval - (s.heap other).updateInterval ∧
          now - att lastPosUpdate ≤ userReqInterval + (s.heap other).updateInterval
      · obtain ⟨t, hrun, hrecorded⟩ := hto (s.ticks + 1) att stamp
        exact ⟨t, hrecorded, by rw [if_pos hwithin]; exact hrun⟩
      · have hover : now - att lastPosUpdate > userReqInterval + (s.heap other).updateInterval := by
          omega
        obtain ⟨t, hrun, hrecorded⟩ := hfrom (s.ticks + 1) att stamp
        exact ⟨t, hrecorded, by rw [if_neg hwithin, if_pos hover]; exact hrun⟩
    obtain ⟨t, hrecorded, hrun⟩ := hholds
    exact ⟨t, hrun, fun _ => hrecorded, fun h => absurd (Or.inr (Or.inr hdue)) h⟩
  · rw [if_neg hdue]
    refine ⟨_, rfl, fun h => ?_, fun _ => ⟨_, rfl⟩⟩
    rcases h with h | h | h
    · exact absurd h hrequired
    · exact absurd h hlast
    · exact absurd h hdue

/-- What a visit does: at most the entry for the visited user changes, and a position is sent
exactly when it is due, in which case the stamp is recorded. -/
structure Visited (now : ℤ) (user other : Ptr) (s t : Server) : Prop where
  only : Only (fun a b => a = user ∧ b = other) s t
  sent : ∃ new, t.sent = s.sent ++ new ∧ (∀ e ∈ new, isPosition e.message = true →
      ForPair user other e) ∧ ((∃ e ∈ new, ForPair user other e) ↔ Due now s user other)
  due : Due now s user other →
    ∃ att, entry t user other = some att ∧ att lastPosUpdate = (s.heap other).lastPositionUpdate
  idle : ¬ Due now s user other → entry t user other = entry s user other

/-- A visit asks for the interval and then sends what is due. -/
theorem updateAbout_run {env : Environment} {now : ℤ} (hclock : env.clock s.ticks = now)
    (user other : Ptr) :
    ∃ t, (updateAbout env user other).run s = .ok () t ∧
      (Due now s user other → Recorded user other ((entry s user other).getD fun _ => 0)
        (s.heap other).lastPositionUpdate (asked s user other) t) ∧
      (¬ Due now s user other → ∃ n, t = { asked s user other with ticks := n }) := by
  have hasked : env.clock (asked s user other).ticks = now := by
    rw [asked_ticks]
    exact hclock
  obtain ⟨t, hdue, hrecords, hidle⟩ := sendDue_run user (s.heap user).updateRequired
    (s.heap other).lastPositionUpdate ((entry s user other).getD fun _ => 0) hasked
    (asked_interval s user other)
  refine ⟨t, ?_, hrecords, hidle⟩
  rw [updateAbout, run_bind_of_ok (getUser_run s user), run_bind_of_ok (getUser_run s other),
    run_bind_of_ok (timeUpdate_asked s user other)]
  exact hdue

theorem updateAbout_visited (env : Environment) {now : ℤ} (hclock : env.clock s.ticks = now)
    (user other : Ptr) :
    ∃ t, (updateAbout env user other).run s = .ok () t ∧ Visited now user other s t := by
  let att : Attributes := (entry s user other).getD fun _ => 0
  let stamp : ℤ := (s.heap other).lastPositionUpdate
  obtain ⟨t, hrun, hrecords, hidle⟩ := updateAbout_run hclock user other
  have hasked : Only (fun a b => a = user ∧ b = other) s (asked s user other) := asked_only _
  obtain ⟨new, hnew, hquiet⟩ := asked_sent s user other
  refine ⟨t, hrun, ?_⟩
  by_cases h : Due now s user other
  · obtain ⟨e, n, hpair, rfl⟩ := hrecords h
    refine ⟨?_, ⟨new ++ [e], ?_, fun e' he' hposition => ?_, iff_of_true ⟨e, by simp, hpair⟩ h⟩,
      fun _ => ⟨Function.update att lastPosUpdate stamp, ?_, Function.update_self ..⟩,
      fun hnot => absurd h hnot⟩
    · have hpush : Only (fun a b => a = user ∧ b = other) s
          ({ asked s user other with ticks := n }.push e.recipient e.message) :=
        ⟨hasked.clientManager, hasked.settled, hasked.entry⟩
      have hrecord (m : Server) : Only (fun a b => a = user ∧ b = other) m
          (m.modifyUser user fun u => { u with
            localUsers := u.localUsers.insert other (Function.update att lastPosUpdate stamp) }) :=
        Only.modifyUser (fun _ => rfl) fun u b hb => AList.lookup_insert_ne hb
      exact Trans.trans hpush (hrecord _)
    · rw [modifyUser_sent, push_sent, hnew, List.append_assoc]
    · rcases List.mem_append.mp he' with he' | he'
      · rw [hquiet e' he'] at hposition
        cases hposition
      · rw [List.mem_singleton.mp he']
        exact hpair
    · rw [entry, modifyUser_heap_self]
      exact AList.lookup_insert _
  · obtain ⟨n, rfl⟩ := hidle h
    have hentry : entry (asked s user other) user other = entry s user other :=
      (asked_only fun _ _ => False).entry user other id
    refine ⟨⟨hasked.clientManager, hasked.settled, hasked.entry⟩,
      ⟨new, hnew, fun e he hposition => ?_, iff_of_false ?_ h⟩, fun hdue => absurd hdue h,
      fun _ => hentry⟩
    · rw [hquiet e he] at hposition
      cases hposition
    · rintro ⟨e, he, hposition, -⟩
      rw [hquiet e he] at hposition
      cases hposition

end Visit

section Turn

variable {env : Environment} {now : ℤ} {user other : Ptr} {s t : Server}

/-- The visits to the other local users: the entry stays, and no position message is for this
pair. -/
structure Skips (user other : Ptr) (s t : Server) : Prop where
  only : Only (fun a b => a = user ∧ b ≠ other) s t
  sent : ∃ new, t.sent = s.sent ++ new ∧ ∀ e ∈ new, ¬ ForPair user other e

instance : Std.Refl (Skips user other) := ⟨fun s => ⟨Std.Refl.refl s, [], by simp, by simp⟩⟩

instance : IsTrans Server (Skips user other) where
  trans s t r h h' := by
    obtain ⟨new, hsent, hnew⟩ := h.sent
    obtain ⟨new', hsent', hnew'⟩ := h'.sent
    refine ⟨Trans.trans h.only h'.only, new ++ new', by rw [hsent', hsent, List.append_assoc],
      fun e he => ?_⟩
    rcases List.mem_append.mp he with he | he
    · exact hnew e he
    · exact hnew' e he

/-- A position message is for one pair of users, whichever way round. -/
theorem forPair_same {a b : Ptr} {e : Sent} (h : ForPair user other e) (h' : ForPair a b e) :
    (a = user ∧ b = other) ∨ (a = other ∧ b = user) := by
  obtain ⟨-, h⟩ := h
  obtain ⟨-, h'⟩ := h'
  rcases h with ⟨hr, ha⟩ | ⟨hr, ha⟩ <;> rcases h' with ⟨hr', ha'⟩ | ⟨hr', ha'⟩
  all_goals
    rw [hr] at hr'
    rw [ha] at ha'
    cases hr'
    cases ha'
    simp

theorem ForPair.eq_of_user {v : Ptr} {e : Sent} (h : ForPair user v e)
    (h' : ForPair user other e) : v = other := by
  rcases forPair_same h h' with ⟨-, hother⟩ | ⟨huser, hother⟩
  · exact hother.symm
  · exact huser.symm.trans hother.symm

theorem skips_updateAbout {v : Ptr} (hv : v ≠ other) :
    Keeps (Skips user other) (updateAbout env user v) := by
  intro s
  obtain ⟨t, hrun, hvisited⟩ := updateAbout_visited (s := s) env rfl user v
  rw [hrun, finalState_ok]
  obtain ⟨new, hsent, hnew, -⟩ := hvisited.sent
  refine ⟨hvisited.only.mono fun a b hab => ⟨hab.1, hab.2.trans_ne hv⟩, new, hsent,
    fun e he hpair => ?_⟩
  exact hv ((hnew e he hpair.1).eq_of_user hpair)

/-- A turn always returns. -/
theorem update_run (env : Environment) (user : Ptr) (s : Server) :
    ∃ t, (update env user).run s = .ok () t := by
  have hvisits : ∀ v ∈ env.arrange s.ticks (s.heap user).localUsers.keys, ∀ m,
      ∃ t, (updateAbout env user v).run m = .ok () t := by
    intro v _ m
    obtain ⟨t, hvisit, -⟩ := updateAbout_visited (s := m) env rfl user v
    exact ⟨t, hvisit⟩
  exact run_forM_returns hvisits { s with ticks := s.ticks + 1 }

/-- In a turn that begins in `s`, the visit to `other` begins in `a`. -/
def VisitedFrom (env : Environment) (user other : Ptr) (s a : Server) : Prop :=
  ∃ before after, env.arrange s.ticks (s.heap user).localUsers.keys = before ++ other :: after ∧
    (before.forM (updateAbout env user)).run { s with ticks := s.ticks + 1 } = .ok () a

/-- A turn comes to each local user once. -/
theorem update_visited (hmem : (entry s user other).isSome)
    (hrun : (update env user).run s = .ok () t) :
    ∃ a b, VisitedFrom env user other s a ∧ Skips user other s a ∧
      (updateAbout env user other).run a = .ok () b ∧ Skips user other b t := by
  let order := env.arrange s.ticks (s.heap user).localUsers.keys
  have hperm : order.Perm (s.heap user).localUsers.keys := env.arrange_perm _ _
  have hother : other ∈ order :=
    hperm.mem_iff.mpr (AList.lookup_isSome.mp hmem)
  have hnodup : order.Nodup := hperm.nodup_iff.mpr (s.heap user).localUsers.keys_nodup
  obtain ⟨before, after, horder⟩ := List.append_of_mem hother
  have hloop : (order.forM (updateAbout env user)).run { s with ticks := s.ticks + 1 } =
      .ok () t := hrun
  rw [horder] at hloop hnodup
  obtain ⟨-, hlater, hdisjoint⟩ := List.nodup_append.mp hnodup
  rw [List.forM_eq_forM, List.forM_append] at hloop
  obtain ⟨_, a, hbefore, hloop⟩ := run_bind_ok.mp hloop
  rw [List.forM_cons] at hloop
  obtain ⟨_, b, hvisit, hafter⟩ := run_bind_ok.mp hloop
  have hskips (vs : List Ptr) (hvs : ∀ v ∈ vs, v ≠ other) :
      Keeps (Skips user other) (vs.forM (updateAbout env user)) :=
    .forM fun v hv => skips_updateAbout (hvs v hv)
  have htick : Skips user other s { s with ticks := s.ticks + 1 } :=
    ⟨⟨rfl, fun _ => rfl, fun _ _ _ => rfl⟩, [], by simp, by simp⟩
  refine ⟨a, b, ⟨before, after, horder, hbefore⟩,
    Trans.trans htick ((hskips before ?_).ok hbefore), hvisit, (hskips after ?_).ok hafter⟩
  · intro v hv heq
    exact hdisjoint v hv other List.mem_cons_self heq
  · intro v hv heq
    exact (List.nodup_cons.mp hlater).1 (heq ▸ hv)

/-- The entry holds the user's latest stamp. -/
def UpToDate (user other : Ptr) (s : Server) : Prop :=
  ∃ att, entry s user other = some att ∧ att lastPosUpdate = (s.heap other).lastPositionUpdate

theorem Only.upToDate {changes : Ptr → Ptr → Prop} (h : Only changes s t)
    (hne : ¬ changes user other) (hs : UpToDate user other s) : UpToDate user other t := by
  obtain ⟨att, hatt, hstamp⟩ := hs
  exact ⟨att, (h.entry user other hne).trans hatt, hstamp.trans (h.stamp other).symm⟩

theorem Visited.upToDate (h : Visited now user other s t) (hs : UpToDate user other s) :
    UpToDate user other t := by
  by_cases hdue : Due now s user other
  · obtain ⟨att, hatt, hstamp⟩ := h.due hdue
    exact ⟨att, hatt, hstamp.trans (h.only.stamp other).symm⟩
  · obtain ⟨att, hatt, hstamp⟩ := hs
    exact ⟨att, (h.idle hdue).trans hatt, hstamp.trans (h.only.stamp other).symm⟩

/-- A turn sends a position message for the pair exactly when one is due, and then the entry is up
to date; if not it stays. -/
theorem update_turn (hclock : ∀ n, env.clock n = now) (hmem : (entry s user other).isSome)
    (hrun : (update env user).run s = .ok () t) :
    (Exchanged user other s t ↔ Due now s user other) ∧
      (Due now s user other → UpToDate user other t) ∧
      (¬ Due now s user other → entry t user other = entry s user other) := by
  obtain ⟨a, b, -, hbefore, hvisit, hafter⟩ := update_visited hmem hrun
  obtain ⟨b', hvisit', hvisited⟩ := updateAbout_visited env (hclock a.ticks) user other
  rw [hvisit] at hvisit'
  cases hvisit'
  have hne : ¬ (user = user ∧ other ≠ other) := fun h => h.2 rfl
  have hdue : Due now a user other ↔ Due now s user other := hbefore.only.due_iff hne now
  refine ⟨?_, fun h => ?_, fun h => ?_⟩
  · obtain ⟨new1, hsent1, hnew1⟩ := hbefore.sent
    obtain ⟨new2, hsent2, -, hnew2⟩ := hvisited.sent
    obtain ⟨new3, hsent3, hnew3⟩ := hafter.sent
    have hall : t.sent = s.sent ++ (new1 ++ (new2 ++ new3)) := by
      rw [hsent3, hsent2, hsent1, List.append_assoc, List.append_assoc]
    rw [Exchanged, hall, List.drop_left, ← hdue, ← hnew2]
    constructor
    · rintro ⟨e, he, hpair⟩
      rcases List.mem_append.mp he with he | he
      · exact absurd hpair (hnew1 e he)
      rcases List.mem_append.mp he with he | he
      · exact ⟨e, he, hpair⟩
      · exact absurd hpair (hnew3 e he)
    · rintro ⟨e, he, hpair⟩
      exact ⟨e, List.mem_append_right _ (List.mem_append_left _ he), hpair⟩
  · apply hafter.only.upToDate hne
    obtain ⟨att, hatt, hstamp⟩ := hvisited.due (hdue.mpr h)
    exact ⟨att, hatt, hstamp.trans (hvisited.only.stamp other).symm⟩
  · exact (hafter.only.entry user other hne).trans
      ((hvisited.idle (hdue.not.mpr h)).trans (hbefore.only.entry user other hne))

/-- A turn does nothing for a user that is not in the set. -/
theorem update_skips (hnone : entry s user other = none)
    (hrun : (update env user).run s = .ok () t) : Skips user other s t := by
  let order := env.arrange s.ticks (s.heap user).localUsers.keys
  have horder : other ∉ order := by
    rw [(env.arrange_perm _ _).mem_iff]
    exact AList.lookup_eq_none.mp hnone
  have hloop : (order.forM (updateAbout env user)).run { s with ticks := s.ticks + 1 } =
      .ok () t := hrun
  have hskips : Keeps (Skips user other) (order.forM (updateAbout env user)) :=
    .forM fun v hv => skips_updateAbout fun heq => horder (heq ▸ hv)
  have htick : Skips user other s { s with ticks := s.ticks + 1 } :=
    ⟨⟨rfl, fun _ => rfl, fun _ _ _ => rfl⟩, [], by simp, by simp⟩
  exact Trans.trans htick (hskips.ok hloop)

end Turn

section Loops

variable {env : Environment} {now : ℤ} {user other : Ptr} {s t : Server}

theorem only_update (c : Ptr) :
    Keeps (Only fun a _ => a = c) (update env c) := by
  refine keeps_iterateLocalUsers (fun s n => Frame.toQuiet.ticks s n) fun v s => ?_
  obtain ⟨t, hrun, hvisited⟩ := updateAbout_visited (s := s) env rfl c v
  rw [hrun, finalState_ok]
  exact hvisited.only.mono fun a b hab => hab.1

def StaysUpToDate (user other : Ptr) (s t : Server) : Prop :=
  UpToDate user other s → UpToDate user other t

instance : Std.Refl (StaysUpToDate user other) := ⟨fun _ h => h⟩

instance : IsTrans Server (StaysUpToDate user other) := ⟨fun _ _ _ h h' => h' ∘ h⟩

theorem staysUpToDate_update (c : Ptr) :
    Keeps (StaysUpToDate user other) (update env c) := by
  refine keeps_iterateLocalUsers (fun s n h => h) fun v s h => ?_
  obtain ⟨t, hrun, hvisited⟩ := updateAbout_visited (s := s) env rfl c v
  rw [hrun, finalState_ok]
  by_cases hpair : user = c ∧ other = v
  · obtain ⟨rfl, rfl⟩ := hpair
    exact hvisited.upToDate h
  · exact hvisited.only.upToDate hpair h

/-- The third loop and the fourth change no entry. -/
theorem only_updateOnlyQueues (changes : Ptr → Ptr → Prop) (pilot : Ptr) :
    Kept (Only changes) (updateOnlyQueues env pilot) :=
  kept_updateOnlyQueues env pilot fun _ _ => rfl

theorem only_resetRequired (changes : Ptr → Ptr → Prop) (user : Ptr) :
    Kept (Only changes) (resetRequired user) :=
  kept_resetRequired user

theorem only_passFlags (changes : Ptr → Ptr → Prop) (user : Ptr) :
    Kept (Only changes) (passFlags user) :=
  kept_passFlags user

end Loops

section FirstLoop

variable {env : Environment} {user other : Ptr} {s t : Server}

theorem only_emplace (c v : Ptr) :
    Kept (Only fun a b => a = c ∧ b = v) (emplaceLocalUser c v) := by
  refine ⟨fun s => ?_⟩
  rw [emplaceLocalUser, updateUser_run, finalState_ok]
  refine Only.modifyUser (fun _ => rfl) fun u b hb => ?_
  dsimp only
  split
  · rfl
  · exact AList.lookup_insert_ne hb

theorem only_erase (c v : Ptr) :
    Kept (Only fun a b => a = c ∧ b = v) (eraseLocalUser c v) := by
  refine ⟨fun s => ?_⟩
  rw [eraseLocalUser, updateUser_run, finalState_ok]
  exact Only.modifyUser (fun _ => rfl) fun u b hb => AList.lookup_erase_ne hb

theorem only_visitUser (location : Location) (c v : Ptr) :
    Kept (Only fun a b => a = c ∧ b = v) (visitUser env c location v) :=
  kept_visitUser env c (fun _ _ => rfl) (only_emplace c v) (only_erase c v) location

theorem only_updateLocalUsers (user : Ptr) :
    Keeps (Only fun a _ => a = user) (updateLocalUsers env user) := fun s =>
  keeps_iterateUsers (fun s n => Frame.toQuiet.ticks s n) (fun other =>
    (only_visitUser (s.heap user).location user other).keeps.mono fun _ _ h =>
      h.mono fun _ _ hab => hab.1) s

/-- The visited user is out of the range of the other one. -/
def OutOfRange (env : Environment) (s : Server) (user other : Ptr) : Prop :=
  beyond (env.dist (s.heap user).location (s.heap other).location) (s.heap user).visibilityRange

theorem outOfRange_iff (h : Same settled s t) :
    OutOfRange env t user other ↔ OutOfRange env s user other := by
  have hlocation (v : Ptr) : (t.heap v).location = (s.heap v).location :=
    congrArg Settled.location (h v)
  have hrange : (t.heap user).visibilityRange = (s.heap user).visibilityRange :=
    congrArg Settled.visibilityRange (h user)
  simp only [OutOfRange, hlocation, hrange]

end FirstLoop

end Win64Server.Visits
