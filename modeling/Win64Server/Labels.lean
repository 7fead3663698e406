import Win64Server.Introductions
import Win64Server.PositionReports
import Win64Server.Replica

/-!
Labels of users. A client shows with each user that it sees some members of it: the transponder
code, the mode, the frequency of a controller. It has them from the introduction of the user and
from the messages that announce a change. They are up to date in every run in which whoever changes
one of them has in its set those that see it.
-/
namespace Win64Server.Labels

open Outcome Library Server Frames Visits VisibleSets Observers Permissions PositionClock
  TwoMemories ServerSteps PassMessages Standing Replica PositionReports

/-- A member of users, and what a message says about the one it is about. -/
structure Label (β : Type) where
  of : User → β
  said : Outgoing → Option (Ptr × β)

variable {β : Type} {L : Label β}

/-- What `client` is told by a message about `user`. -/
def Label.tells (L : Label β) (client user : Ptr) (e : Sent) : Option β :=
  (L.said e.message).bind fun p => if e.recipient = client ∧ p.1 = user then some p.2 else none

/-- What `client` shows with `user`: what it has been told last. -/
def Label.shown (L : Label β) (client user : Ptr) (sent : List Sent) : Option β :=
  lastSaid (L.tells client user) sent

theorem Label.tells_eq_some {client user : Ptr} {e : Sent} {b : β} :
    L.tells client user e = some b ↔ e.recipient = client ∧ L.said e.message = some (user, b) := by
  rw [tells]
  cases hsaid : L.said e.message with
  | none => simp
  | some p =>
    obtain ⟨about, c⟩ := p
    simp only [Option.bind_some, Option.ite_none_right_eq_some, Option.some.injEq, Prod.mk.injEq]
    tauto

section Introduced

/-- Who is in a set and was not before has been introduced in between. -/
structure Introduces (s t : Server) : Prop where
  entries : ∀ user other, (entry t user other).isSome → (entry s user other).isSome ∨
    (sight user s other).created < (sight user t other).created
  created : ∀ user other, (sight user s other).created ≤ (sight user t other).created

instance : Std.Refl Introduces := ⟨fun _ => ⟨fun _ _ => Or.inl, fun _ _ => le_refl _⟩⟩

instance : IsTrans Server Introduces where
  trans s t r h h' := by
    refine ⟨fun user other hentry => ?_, fun user other =>
      (h.created user other).trans (h'.created user other)⟩
    rcases h'.entries user other hentry with ht | hlt
    · exact (h.entries user other ht).imp_right fun hlt =>
        Nat.lt_of_lt_of_le hlt (h'.created user other)
    · exact Or.inr (Nat.lt_of_le_of_lt (h.created user other) hlt)

theorem introduces_of_fewer {s t : Server}
    (hentries : ∀ u v, (entry t u v).isSome → (entry s u v).isSome)
    (hsent : ∃ new, t.sent = s.sent ++ new) : Introduces s t where
  entries u v h := Or.inl (hentries u v h)
  created u v := by
    obtain ⟨new, hnew⟩ := hsent
    rw [sight, sight, hnew, List.countP_append]
    exact Nat.le_add_right _ _

instance {α : Type} (program : ServerM α) [h : Kept Aside program] : Kept Introduces program :=
  ⟨fun s => introduces_of_fewer (fun u v hentry => (h.keeps s).entries u v ▸ hentry)
    (h.keeps s).extends⟩

variable {env : Environment} {user : Ptr}

/-- A step that changes what one client sees of one user. -/
theorem introduces_of_pair {s t : Server} {user other : Ptr}
    (hothers : ∀ u v, ¬ (u = user ∧ v = other) → SameSight u v s t)
    (hentry : (entry t user other).isSome → (entry s user other).isSome ∨
      (sight user s other).created < (sight user t other).created)
    (hcreated : (sight user s other).created ≤ (sight user t other).created) :
    Introduces s t where
  entries u v h := by
    by_cases hpair : u = user ∧ v = other
    · obtain ⟨rfl, rfl⟩ := hpair
      exact hentry h
    · have hsame : entry t u v = entry s u v := congrArg Sight.entry (hothers u v hpair)
      rw [hsame] at h
      exact Or.inl h
  created u v := by
    by_cases hpair : u = user ∧ v = other
    · obtain ⟨rfl, rfl⟩ := hpair
      exact hcreated
    · exact (congrArg Sight.created (hothers u v hpair)).ge

theorem introduces_startSeeing {s : Server} {user other : Ptr}
    (hnone : entry s user other = none) :
    Introduces s (finalState ((startSeeing user other).run s)) := by
  have hothers (u v : Ptr) (hpair : ¬ (u = user ∧ v = other)) :
      SameSight u v s (finalState ((startSeeing user other).run s)) :=
    keeps_startSeeing_pair hpair s
  by_cases htellable : Tellable (s.heap other)
  · obtain ⟨t, hrun, hsight⟩ := startSeeing_returns hnone htellable
    rw [hrun, finalState_ok] at hothers ⊢
    have hlt : (sight user s other).created < (sight user t other).created := by
      rw [hsight]
      exact Nat.lt_succ_self _
    exact introduces_of_pair hothers (fun _ => Or.inr hlt) hlt.le
  · obtain ⟨e, t, hrun, hsight⟩ := startSeeing_known htellable
    rw [hrun, finalState_error] at hothers ⊢
    have hlt : (sight user s other).created < (sight user t other).created := by
      rw [hsight]
      exact Nat.lt_succ_self _
    exact introduces_of_pair hothers (fun _ => Or.inr hlt) hlt.le

theorem introduces_stopSeeing {s : Server} {user other : Ptr}
    (hsome : (entry s user other).isSome)
    (haround : Around user s (finalState ((stopSeeing env user other).run s))) :
    Introduces s (finalState ((stopSeeing env user other).run s)) := by
  obtain ⟨new, hsent⟩ := haround.sent
  refine introduces_of_pair (fun u v hpair => keeps_stopSeeing_pair hpair s)
    (fun _ => Or.inl hsome) ?_
  rw [sight, sight, hsent, List.countP_append]
  exact Nat.le_add_right _ _

instance introduces_visitUser (other : Ptr) (location : Location) :
    Kept Introduces (visitUser env user location other) := by
  refine ⟨fun s => ?_⟩
  have haround : Around user s (finalState ((visitUser env user location other).run s)) :=
    around_visitUser location s
  rcases visitUser_cases env location s with hrun | ⟨hnone, hrun⟩ | ⟨hsome, hrun⟩
  · rw [hrun]
    exact Std.Refl.refl s
  · rw [hrun]
    exact introduces_startSeeing hnone
  · rw [hrun] at haround ⊢
    exact introduces_stopSeeing hsome haround

instance introduces_globalUpdate : Kept Introduces (globalUpdate env) := by
  have husers {func : Ptr → ServerM Unit} (hfunc : ∀ user, Kept Introduces (func user)) :
      Kept Introduces (iterateUsers env func) := by
    unfold iterateUsers; infer_instance
  have hlocal (user : Ptr) : Kept Introduces (updateLocalUsers env user) := by
    unfold updateLocalUsers
    exact .of_bind inferInstance fun u => husers fun other => inferInstance
  unfold globalUpdate
  refine .of_bind (husers fun user => inferInstance) fun _ => ?_
  refine .of_bind (husers fun user => inferInstance) fun _ => ?_
  exact .of_bind (husers fun user => inferInstance) fun _ => husers fun user => inferInstance

/-- A member of the set of a departing user loses it. -/
instance introduces_farewell (other : Ptr) :
    Kept Introduces (Departure.farewell env user other) := by
  have hdelete : Kept Introduces (Server.deleteClient other user) :=
    ⟨fun s => introduces_of_fewer (fun _ _ h => h) ⟨_, rfl⟩⟩
  have herase : Kept Introduces
      (updateUser other fun o => { o with localUsers := o.localUsers.erase user }) := by
    refine ⟨fun s => introduces_of_fewer (fun u v hentry => ?_) ⟨[], (List.append_nil _).symm⟩⟩
    rw [updateUser_run, finalState_ok, ← mem_iff_entry] at hentry
    rw [← mem_iff_entry]
    by_cases hu : u = other
    · subst hu
      rw [modifyUser_heap_self] at hentry
      exact (AList.mem_erase.mp hentry).2
    · rw [modifyUser_heap_ne _ _ _ _ hu] at hentry
      exact hentry
  unfold Departure.farewell
  infer_instance

end Introduced

/-- The packet of `user` has changed the label of nobody and told nobody of it, or it has told the
members of its set that are to hear of it. -/
inductive Announces (L : Label β) (audience : User → Bool) (user : Ptr) (s t : Server) : Prop
  | quiet (hsame : Same L.of s t)
      (hsent : ∃ new, t.sent = s.sent ++ new ∧ ∀ e ∈ new, L.said e.message = none)
  | told (new : List Sent) (hsent : t.sent = s.sent ++ new)
      (hnew : ∀ e ∈ new, L.said e.message = some (user, L.of (t.heap user)))
      (hall : ∀ v ∈ (s.heap user).localUsers, audience (s.heap v) = true →
        ∃ e ∈ new, e.recipient = v)

/-- A label that only the packets with this id change, when their bytes are ready, and that these
packets and the introductions tell. -/
structure Reported (L : Label β) (id : ℕ) (audience : User → Bool) (ready : BasicStream → Prop) :
    Prop where
  untouched : Untouched L.of
  blank : ∀ id' ≠ id, ∀ u, L.of (Permissions.blank id' u) = L.of u
  hears : ∀ u v, standing u = standing v → audience u = audience v
  about : ∀ m about b, L.said m = some (about, b) → m.about = some about
  create : ∀ about client, L.said (.createClient about client) = some (about, L.of client)
  speaks : ∀ about r m, Speaks about r m →
    L.said m = none ∨ L.said m = some (about, L.of r)
  news : ∀ s id' about m, id' ≠ id → Permissions.news s id' about m → L.said m = none
  announces : ∀ env s clientSocket buf user, s.clientManager.getUserBySocket clientSocket =
    some user → ready buf → Announces L audience user s (serve env s (.packet clientSocket id buf))
  id : id ≠ 45 ∧ id ≠ 10

/-- What a client shows with a user that it sees is what the user has. -/
def Current (L : Label β) (audience : User → Bool) (s : Server) : Prop :=
  ∀ v ∈ s.clientManager.users, audience (s.heap v) = true → ∀ u ∈ (s.heap v).localUsers,
    L.shown v u s.sent = some (L.of (s.heap u))

/-- Whoever reports a change has in its set the clients that see it. -/
def Heeded (id : ℕ) (audience : User → Bool) (ready : BasicStream → Prop) (s : Server) :
    Environment × Event → Prop
  | (_, .packet clientSocket id' buf) => id' = id →
    ∀ user ∈ s.clientManager.getUserBySocket clientSocket, ready buf ∧
      ∀ v ∈ s.clientManager.users, audience (s.heap v) = true → user ∈ (s.heap v).localUsers →
        v ∈ (s.heap user).localUsers
  | (_, .disconnect _) | (_, .pass) => True

instance (id : ℕ) (audience : User → Bool) (ready : BasicStream → Prop) [DecidablePred ready]
    (s : Server) : ∀ e, Decidable (Heeded id audience ready s e)
  | (_, .packet _ id' _) => inferInstanceAs (Decidable (id' = id → _))
  | (_, .disconnect _) | (_, .pass) => .isTrue trivial

section Steps

variable {id : ℕ} {audience : User → Bool} {ready : BasicStream → Prop} {s t : Server}
  {u v : Ptr}

/-- Messages that say nothing about a label leave it as it is shown. -/
theorem shown_of_silent {new : List Sent} (hsent : t.sent = s.sent ++ new)
    (hnew : ∀ e ∈ new, L.tells v u e = none) : L.shown v u t.sent = L.shown v u s.sent := by
  have hnone : lastSaid (L.tells v u) new = none := by
    cases hlast : lastSaid (L.tells v u) new with
    | none => rfl
    | some b =>
      obtain ⟨e, he, hb⟩ := List.mem_filterMap.mp (List.mem_of_getLast? hlast)
      rw [hnew e he] at hb
      cases hb
  rw [Label.shown, hsent, lastSaid_append, hnone]
  rfl

/-- Messages that tell of a label as it is keep it shown, and have it shown when there is one. -/
theorem shown_of_told {new : List Sent} {b : β} (hsent : t.sent = s.sent ++ new)
    (hnew : ∀ e ∈ new, ∀ c, L.tells v u e = some c → c = b)
    (h : L.shown v u s.sent = some b ∨ ∃ e ∈ new, L.tells v u e ≠ none) :
    L.shown v u t.sent = some b := by
  rw [Label.shown, hsent, lastSaid_append]
  rcases lastSaid_cases hnew with hnone | hsome
  · rcases h with hold | ⟨e, he, htells⟩
    · rw [hnone]
      exact hold
    · obtain ⟨c, hc⟩ := Option.ne_none_iff_exists'.mp htells
      exact absurd hnone (lastSaid_ne_none he hc)
  · rw [hsome]
    rfl

variable (hL : Reported L id audience ready)

include hL

/-- What a pass or a departure says of a label is what it is. -/
theorem Reported.tells_of_told {e : Sent} (h : Told L.of (· < s.next) s e) {b : β}
    (htells : L.tells v u e = some b) : b = L.of (s.heap u) := by
  obtain ⟨-, hsaid⟩ := Label.tells_eq_some.mp htells
  rcases h.content with ⟨time, htime⟩ | ⟨about, -, r, hr, hspeaks⟩
  · have habout := hL.about _ _ _ hsaid
    rw [htime] at habout
    cases habout
  · rcases hL.speaks about r _ hspeaks with hnone | hsome
    · rw [hnone] at hsaid
      cases hsaid
    · rw [hsome] at hsaid
      cases hsaid
      exact hr

theorem Reported.tells_of_create {e : Sent} (h : isCreate v u e = true) : L.tells v u e ≠ none := by
  unfold isCreate at h
  split at h
  · next about client hmessage =>
    obtain ⟨hrecipient, rfl⟩ := of_decide_eq_true h
    have htells : L.tells v about e = some (L.of client) := by
      rw [Label.tells_eq_some, hmessage]
      exact ⟨hrecipient, hL.create about client⟩
    rw [htells]
    exact Option.some_ne_none _
  · cases h

/-- A pass, or a departure but for the registry. -/
theorem Current.fine (h : Current L audience s) {m : Server} (hfine : Fine L.of (· < s.next) s m)
    (hstanding : Same standing s m) (hintroduces : Introduces s m) (hheap : t.heap = m.heap)
    (hsent : t.sent = m.sent) (hclients : ∀ v ∈ t.clientManager.users, v ∈ s.clientManager.users) :
    Current L audience t := by
  intro v hv haudience u hu
  obtain ⟨new, hnew, htold⟩ := hfine.sent
  rw [hheap] at haudience hu ⊢
  rw [hL.hears _ _ (hstanding v)] at haudience
  rw [hfine.users u, hsent]
  refine shown_of_told hnew (fun e he b hb => hL.tells_of_told (htold e he) hb) ?_
  rcases hintroduces.entries v u (mem_iff_entry.mp hu) with hold | hcreated
  · exact Or.inl (h v (hclients v hv) haudience u (mem_iff_entry.mpr hold))
  · rw [sight, sight, hnew, List.countP_append, Nat.lt_add_right_iff_pos] at hcreated
    obtain ⟨e, he, hcreate⟩ := List.countP_pos_iff.mp hcreated
    exact Or.inr ⟨e, he, hL.tells_of_create hcreate⟩

theorem Current.pass (h : Current L audience s) (hsound : Sound s) (env : Environment) :
    Current L audience (serve env s .pass) := by
  have hfine := hsound.fine_pass env hL.untouched
  have hstanding := (hsound.fine_pass env untouched_standing).users
  refine h.fine hL hfine hstanding (introduces_globalUpdate.keeps s) rfl rfl fun v hv => ?_
  rwa [hfine.clientManager] at hv

theorem Current.disconnect (h : Current L audience s) (hsound : Sound s) (env : Environment)
    (clientSocket : Socket) : Current L audience (serve env s (.disconnect clientSocket)) := by
  have hdeparted := disconnect_departed env s untouched_standing clientSocket
  rcases disconnect_served env s clientSocket with hsame | ⟨user, m, hsocket, hloop, hserve⟩
  · rw [hsame]
    exact h
  · have huser : user < s.next := hsound.clients clientSocket user hsocket
    have hkept : Kept (Stays L.of (· < s.next) s)
        (iterateLocalUsers env user (Departure.farewell env user)) :=
      stays_iterateLocalUsers (M := (· < s.next)) env huser fun other hother =>
        stays_farewell hL.untouched env huser hother
    have hintroduces : Kept Introduces
        (iterateLocalUsers env user (Departure.farewell env user)) := by
      unfold iterateLocalUsers; infer_instance
    have hfine : Fine L.of (· < s.next) s m := hkept.keeps.ok hloop (hsound.fine L.of)
    have hstanding : Same standing s m := by
      have husers := hdeparted.users
      rwa [hserve] at husers
    refine h.fine hL hfine hstanding (hintroduces.keeps.ok hloop) ?_ ?_ fun v hv => ?_
    · rw [hserve]
    · rw [hserve]
    · obtain ⟨c, hc⟩ := ClientManager.mem_users.mp hv
      exact ClientManager.mem_users.mpr ⟨c, hdeparted.clients c v hc⟩

theorem Current.joined (h : Current L audience s) (hsound : Sound s) {clientSocket : Socket}
    (hjoined : Joined clientSocket s t) : Current L audience t := by
  intro v hv haudience u hu
  obtain ⟨new, hsent, hgreeting⟩ := hjoined.sent
  obtain ⟨c, hc⟩ := ClientManager.mem_users.mp hv
  have hold : v ≠ s.next := by
    rintro rfl
    rw [hjoined.new.localUsers] at hu
    exact absurd hu (AList.notMem_empty u)
  rw [hjoined.old v hold] at haudience hu
  have hclient : s.clientManager.getUserBySocket c = some v := by
    rcases hjoined.clients c with hsame | ⟨-, hnext⟩
    · exact hsame.symm.trans hc
    · exact absurd (Option.some.inj (hc.symm.trans hnext)) hold
  rw [hjoined.old u (Nat.ne_of_lt (hsound.locals v u hu)), shown_of_silent hsent]
  · exact h v (ClientManager.mem_users.mpr ⟨c, hclient⟩) haudience u hu
  · intro e he
    by_contra hne
    obtain ⟨b, hb⟩ := Option.ne_none_iff_exists'.mp hne
    have habout := hL.about _ _ _ (Label.tells_eq_some.mp hb).2
    rw [(hgreeting e he).2.1] at habout
    cases habout

/-- A packet with another id says nothing about the label. -/
theorem Reported.said_of_mayTell {id' : ℕ} (hid : id' ≠ id) {buf : BasicStream} {user : Ptr}
    {e : Sent} (h : mayTell s buf user e id') : L.said e.message = none := by
  unfold mayTell at h
  split at h
  · exact hL.news s _ user _ hid h.2
  · exact hL.news s _ user _ hid h.2
  · exact hL.news s _ user _ hid h.2
  · exact hL.news s _ user _ hid h.2
  · exact hL.news s _ user _ hid h.2
  · obtain ⟨-, index, about, -, -, hnews⟩ := h
    exact hL.news s _ about _ hid hnews
  · obtain ⟨-, callsign, text, -, hmessage⟩ := h
    by_contra hne
    obtain ⟨p, hp⟩ := Option.ne_none_iff_exists'.mp hne
    have habout := hL.about _ _ _ hp
    rw [hmessage] at habout
    cases habout
  · exact h.elim

/-- What a packet that announces nothing leaves as it is. -/
theorem Current.silent (h : Current L audience s) (hsame : Same L.of s t)
    (hunwritten : ∀ p, unwritten (t.heap p) = unwritten (s.heap p))
    (hclients : t.clientManager = s.clientManager)
    (hsent : ∃ new, t.sent = s.sent ++ new ∧ ∀ e ∈ new, L.said e.message = none) :
    Current L audience t := by
  intro v hv haudience u hu
  obtain ⟨new, hnew, hnone⟩ := hsent
  rw [hclients] at hv
  rw [hL.hears _ _ (standing_of_unwritten (hunwritten v))] at haudience
  rw [← unwritten_localUsers, hunwritten, unwritten_localUsers] at hu
  rw [hsame u, shown_of_silent hnew]
  · exact h v hv haudience u hu
  · intro e he
    rw [Label.tells, hnone e he]
    rfl

/-- A change that is announced to those that see the user. -/
theorem Current.told (h : Current L audience s) {user : Ptr} {new : List Sent}
    (hothers : ∀ p ≠ user, t.heap p = s.heap p)
    (hunwritten : ∀ p, unwritten (t.heap p) = unwritten (s.heap p))
    (hclients : t.clientManager = s.clientManager)
    (hheeded : ∀ v ∈ s.clientManager.users, audience (s.heap v) = true →
      user ∈ (s.heap v).localUsers → v ∈ (s.heap user).localUsers)
    (hsent : t.sent = s.sent ++ new)
    (hnew : ∀ e ∈ new, L.said e.message = some (user, L.of (t.heap user)))
    (hall : ∀ v ∈ (s.heap user).localUsers, audience (s.heap v) = true →
      ∃ e ∈ new, e.recipient = v) : Current L audience t := by
  intro v hv haudience u hu
  rw [hclients] at hv
  rw [hL.hears _ _ (standing_of_unwritten (hunwritten v))] at haudience
  rw [← unwritten_localUsers, hunwritten, unwritten_localUsers] at hu
  by_cases huser : u = user
  · subst huser
    refine shown_of_told hsent (fun e he b hb => ?_) (Or.inr ?_)
    · have hsaid := (Label.tells_eq_some.mp hb).2
      rw [hnew e he] at hsaid
      cases hsaid
      rfl
    · obtain ⟨e, he, hrecipient⟩ := hall v (hheeded v hv haudience hu) haudience
      have htells : L.tells v u e = some (L.of (t.heap u)) :=
        Label.tells_eq_some.mpr ⟨hrecipient, hnew e he⟩
      exact ⟨e, he, by rw [htells]; exact Option.some_ne_none _⟩
  · rw [hothers u huser, shown_of_silent hsent]
    · exact h v hv haudience u hu
    · intro e he
      by_contra hne
      obtain ⟨b, hb⟩ := Option.ne_none_iff_exists'.mp hne
      have hsaid := (Label.tells_eq_some.mp hb).2
      rw [hnew e he] at hsaid
      exact huser (Prod.mk.inj (Option.some.inj hsaid)).1.symm

theorem Current.packet (h : Current L audience s) (env : Environment) {clientSocket : Socket}
    {id' : ℕ} {buf : BasicStream} (hlogin : id' ≠ 45)
    (hheeded : Heeded id audience ready s (env, .packet clientSocket id' buf)) :
    Current L audience (serve env s (.packet clientSocket id' buf)) := by
  have hacted := packet_served env s clientSocket hlogin buf
  have hunwritten := unwritten_of_permission hacted
  obtain ⟨new, hsent, htells⟩ := hacted.sent
  by_cases hid : id' = id
  · subst hid
    cases hsocket : s.clientManager.getUserBySocket clientSocket with
    | none =>
      have htarget (p : Ptr) : target s clientSocket id' buf ≠ some p := by
        rw [target, if_neg hL.id.2, hsocket]
        exact (Option.some_ne_none p).symm
      have hsame : Same L.of s (serve env s (.packet clientSocket id' buf)) := by
        intro p
        have hkeeps := hacted.heap p
        simp only [permission, if_neg (htarget p)] at hkeeps
        rw [hkeeps]
      refine h.silent hL hsame hunwritten hacted.clientManager ⟨new, hsent, fun e he => ?_⟩
      obtain ⟨user, huser, -⟩ := htells e he
      rw [hsocket] at huser
      cases huser
    | some user =>
      obtain ⟨hready, hseen⟩ := hheeded rfl user hsocket
      have hothers (p : Ptr) (hp : p ≠ user) :
          (serve env s (.packet clientSocket id' buf)).heap p = s.heap p := by
        have hkeeps := hacted.heap p
        have htarget : target s clientSocket id' buf ≠ some p := by
          rw [target, if_neg hL.id.2, hsocket]
          exact fun heq => hp (Option.some.inj heq).symm
        simp only [permission, if_neg htarget] at hkeeps
        exact hkeeps
      cases hL.announces env s clientSocket buf user hsocket hready with
      | quiet hsame hquiet => exact h.silent hL hsame hunwritten hacted.clientManager hquiet
      | told new' hsent' hnew hall =>
        exact h.told hL hothers hunwritten hacted.clientManager hseen hsent' hnew hall
  · have hsame : Same L.of s (serve env s (.packet clientSocket id' buf)) := by
      intro p
      have hkeeps := hacted.heap p
      simp only [permission] at hkeeps
      split at hkeeps
      · rw [← hL.blank id' hid, hkeeps, hL.blank id' hid]
      · rw [hkeeps]
    refine h.silent hL hsame hunwritten hacted.clientManager ⟨new, hsent, fun e he => ?_⟩
    obtain ⟨user, -, htell⟩ := htells e he
    exact hL.said_of_mayTell hid htell

theorem Current.serve (h : Current L audience s) (hsound : Sound s) (e : Environment × Event)
    (hheeded : Heeded id audience ready s e) :
    Current L audience (TwoMemories.serve e.1 s e.2) := by
  obtain ⟨env, event⟩ := e
  cases event with
  | packet clientSocket id' buf =>
    by_cases hlogin : id' = 45
    · subst hlogin
      rcases login_served env s clientSocket buf with hsame | hjoined
      · rw [hsame]
        exact h
      · exact h.joined hL hsound hjoined
    · exact h.packet hL env hlogin hheeded
  | disconnect clientSocket => exact h.disconnect hL hsound env clientSocket
  | pass => exact h.pass hL hsound env

/-- In every run in which whoever reports a change has in its set those that see it, every client
shows the label of each user that it sees as it is. -/
theorem current_run (storage : Ptr → Storage) (events : List (Environment × Event))
    (hheeded : EachStep (fun s e => TwoMemories.serve e.1 s e.2) (Heeded id audience ready)
      (.initial storage) events) : Current L audience (run storage events) := by
  have hinitial : Sound (.initial storage) ∧ Current L audience (.initial storage) :=
    ⟨sound_initial storage, fun v hv => by cases hv⟩
  have hinv (s : Server) (e : Environment × Event) (hs : Sound s ∧ Current L audience s)
      (he : Heeded id audience ready s e) :
      Sound (TwoMemories.serve e.1 s e.2) ∧ Current L audience (TwoMemories.serve e.1 s e.2) :=
    ⟨(hs.1.serve e.1 e.2).1, hs.2.serve hL hs.1 e he⟩
  have hgives (s : Server) (e : Environment × Event) (_ : Sound s ∧ Current L audience s)
      (_ : Heeded id audience ready s e) : True := trivial
  exact (hheeded.run hinv hgives hinitial).2.2

end Steps

section Announcing

variable {env : Environment} {audience : User → Bool} {s m : Server} {user : Ptr}

theorem announces_nothing (s : Server) : Announces L audience user s s :=
  .quiet (fun _ => rfl) ⟨[], (List.append_nil _).symm, fun _ he => absurd he List.not_mem_nil⟩

/-- The loop that announces a change which has been made. -/
theorem announces_loop (message : Outgoing) {func : Ptr → ServerM Unit}
    (hfunc : Tells m.heap audience (fun _ => message) func)
    (hsaid : L.said message = some (user, L.of (m.heap user))) (hsent : m.sent = s.sent)
    (hlocals : (m.heap user).localUsers = (s.heap user).localUsers)
    (haudience : ∀ p, audience (m.heap p) = audience (s.heap p)) :
    Announces L audience user s (finalState ((iterateLocalUsers env user func).run m)) := by
  let order := env.arrange m.ticks (m.heap user).localUsers.keys
  have hloop := hfunc.forM order { m with ticks := m.ticks + 1 } rfl
  have hrun : (iterateLocalUsers env user func).run m = .ok () { m with
      ticks := m.ticks + 1, sent := m.sent ++ messages m.heap audience (fun _ => message) order } :=
    hloop
  rw [hrun, finalState_ok]
  refine .told (messages m.heap audience (fun _ => message) order) ?_ (fun e he => ?_)
    fun v hv hhears => ?_
  · dsimp only
    rw [hsent]
  · obtain ⟨other, -, rfl⟩ := List.mem_map.mp he
    exact hsaid
  · rw [← hlocals] at hv
    have hmem : v ∈ order := (env.arrange_perm _ _).mem_iff.mpr (AList.mem_keys.mp hv)
    exact ⟨⟨v, message⟩, List.mem_map.mpr ⟨v, List.mem_filter.mpr
      ⟨hmem, (haudience v).trans hhears⟩, rfl⟩, rfl⟩

/-- A change to the subclass part of a pilot, and the loop that announces it. -/
theorem announces_aircraft (message : User → Aircraft → Outgoing) {f : Aircraft → Aircraft}
    {func : Aircraft → Ptr → ServerM Unit}
    (hfunc : ∀ (m : Server) a, Tells m.heap audience (fun _ => message (m.heap user) a) (func a))
    (hsaid : ∀ r a, r.asAircraft = some a → L.said (message r a) = some (user, L.of r))
    (haudience : ∀ u : User, audience (u.modifyAircraft f) = audience u) :
    Announces L audience user s (finalState ((do
      let r ← getUser user
      if r.getType = AvClient.pilot then
        updateUser user fun r => r.modifyAircraft f
        let aircraft ← getAircraft user
        iterateLocalUsers env user (func aircraft) : ServerM Unit).run s)) := by
  rw [run_bind_of_ok (getUser_run s user)]
  by_cases hpilot : (s.heap user).getType = .pilot
  · obtain ⟨a, ha⟩ := derived_of_pilot hpilot
    let m := s.modifyUser user fun r => r.modifyAircraft f
    have hm : (m.heap user).asAircraft = some (f a) := by
      rw [modifyUser_heap_self, modifyAircraft_aircraft ha]
      rfl
    rw [if_pos hpilot, run_bind_of_ok (updateUser_run s user _),
      run_bind_of_ok (getAircraft_run hm)]
    refine announces_loop _ (hfunc m (f a)) (hsaid _ _ hm) rfl ?_ fun p => ?_
    · rw [modifyUser_heap_self, modifyAircraft_localUsers]
    · exact modifyUser_frame (g := audience) (haudience _) p
  · rw [if_neg hpilot]
    exact announces_nothing s

/-- A packet whose first field is not there announces nothing. -/
theorem announces_read {α : Type} {op : StreamM α} {f : α → HandlerM Unit} {x : Session}
    (h : ∀ a buf, op.run x.buf = .ok a buf →
      Announces L audience user x.server (finalState ((f a).run { x with buf := buf })).server) :
    Announces L audience user x.server (finalState ((onBuf op >>= f).run x)).server := by
  cases hrun : op.run x.buf with
  | ok a buf =>
    rw [PacketFields.run_onBuf_bind hrun]
    exact h a buf hrun
  | error e buf =>
    have hstops : (onBuf op).run x = .error e { x with buf := buf } := by rw [run_onBuf, hrun]
    rw [run_bind_of_error hstops]
    exact announces_nothing x.server

theorem announces_packet {clientSocket : Socket} {id : ℕ} {buf : BasicStream} {packet : Packet}
    (hpacket : (registerPackets env).getPacket id = some packet)
    (hsocket : s.clientManager.getUserBySocket clientSocket = some user)
    (h : Announces L audience user s
      (finalState ((packet.handle clientSocket (some user)).run ⟨s, buf, [(id, [])]⟩)).server) :
    Announces L audience user s (serve env s (.packet clientSocket id buf)) := by
  rw [serve, TwoMemories.processPacket_run env clientSocket s buf hpacket, hsocket]
  exact h

/-- The packet that makes the server send this message. -/
def announcedBy : Outgoing → Option ℕ
  | .clientTransponder _ _ _ => some 2
  | .message _ _ _ _ _ => some 6
  | .clientModeChange _ _ _ => some 8
  | .flightPlanCycle _ _ _ => some 11
  | .primFreq _ _ => some 13
  | .script _ _ _ => some 14
  | _ => none

theorem announcedBy_of_news {id : ℕ} {about : Ptr} {m : Outgoing} (h : news s id about m) :
    announcedBy m = some id := by
  obtain ⟨r, -, hkind⟩ := h
  split at hkind
  · obtain ⟨_, rfl⟩ := hkind
    rfl
  · obtain ⟨_, _, _, rfl⟩ := hkind
    rfl
  · obtain ⟨_, rfl⟩ := hkind
    rfl
  · obtain ⟨_, rfl⟩ := hkind
    rfl
  · rw [hkind]
    rfl
  · obtain ⟨_, rfl⟩ := hkind
    rfl
  · exact hkind.elim

/-- A label is told by one packet's messages, so the others say nothing of it. -/
theorem said_of_news {id id' : ℕ} {about : Ptr} {m : Outgoing}
    (hsaid : ∀ m, L.said m = none ∨ announcedBy m = none ∨ announcedBy m = some id)
    (hid : id' ≠ id) (h : news s id' about m) : L.said m = none := by
  have hannounced := announcedBy_of_news h
  rcases hsaid m with hnone | hother | hid'
  · exact hnone
  · rw [hother] at hannounced
    cases hannounced
  · rw [hid'] at hannounced
    exact absurd (Option.some.inj hannounced).symm hid

end Announcing

section Transponder

variable {env : Environment} {user : Ptr}

/-- The code that the transponder of an aircraft sends. -/
def transponder : Label (Option CxxString) where
  of u := u.asAircraft.map Aircraft.transponder
  said
    | .createClient about client => some (about, client.asAircraft.map Aircraft.transponder)
    | .clientTransponder about _ aircraft => some (about, some aircraft.transponder)
    | _ => none

theorem map_asAircraft_of_derived {γ : Type} {g : Aircraft → γ} {f : Aircraft → Aircraft}
    {u v : User} (h : v.derived = mapAircraft f u.derived) (hf : ∀ a, g (f a) = g a) :
    v.asAircraft.map g = u.asAircraft.map g := by
  cases hu : u.derived <;> simp [User.asAircraft, h, hu, mapAircraft, hf]

theorem isController_of_standing {u v : User} (h : standing u = standing v) :
    isController u = isController v := by
  rw [isController, isController, ← Introductions.getType_standing, h,
    Introductions.getType_standing]

theorem isController_modifyAircraft (u : User) (f : Aircraft → Aircraft) :
    isController (u.modifyAircraft f) = isController u := by
  rw [isController, isController, Faults.modifyAircraft_type]

theorem announces_transponder (clientSocket : Socket) (x : Session) :
    Announces transponder isController user x.server
      (finalState ((TransponderPacket.handle env clientSocket (some user)).run x)).server := by
  refine announces_read fun code buf _ => ?_
  rw [deref_some_bind, finalState_onServer]
  refine announces_aircraft (fun r a => .clientTransponder user r a)
    (fun m a => tells_controllers fun t other ht => ?_) (fun r a ha => ?_)
    fun u => isController_modifyAircraft u _
  · rw [Server.sendClientTransponder, run_bind_of_ok (getUser_run t user), ht]
    rfl
  · simp [transponder, ha]

theorem reported_transponder :
    Reported transponder 2 isController fun _ => True where
  untouched := ⟨fun _ _ => rfl, fun _ _ => rfl, fun _ _ => rfl⟩
  blank := by
    intro id' hid u
    unfold Permissions.blank
    split
    · exact map_asAircraft_of_derived rfl fun _ => rfl
    · exact absurd rfl hid
    · rfl
    · rfl
    · exact map_asAircraft_of_derived rfl fun _ => rfl
    · exact map_asAircraft_of_derived rfl fun _ => rfl
    · exact map_asAircraft_of_derived rfl fun _ => rfl
    · rfl
    · rfl
    · rfl
  hears _ _ := isController_of_standing
  about := by
    intro m about b h
    cases m <;> cases h <;> rfl
  create _ _ := rfl
  speaks := by
    intro about r m h
    cases h <;> first | exact Or.inl rfl | exact Or.inr rfl
  news _ _ _ _ := said_of_news fun m => by
    cases m <;> first | exact Or.inl rfl | exact Or.inr (Or.inl rfl) | exact Or.inr (Or.inr rfl)
  announces := by
    intro env s clientSocket buf user hsocket _
    have hpacket : (registerPackets env).getPacket (2 : ℕ) = some (transponderPacket env) := by
      rw [getPacket_registerPackets]
      rfl
    exact announces_packet hpacket hsocket (announces_transponder clientSocket ⟨s, buf, [(2, [])]⟩)
  id := by decide

end Transponder

section Mode

variable {env : Environment} {user : Ptr}

/-- The mode of an aircraft and whether it is heavy, in one byte. -/
def mode : Label (Option ℤ) where
  of u := u.asAircraft.map modeByte
  said
    | .createClient about client => some (about, client.asAircraft.map modeByte)
    | .clientModeChange about _ aircraft => some (about, some (modeByte aircraft))
    | _ => none

theorem announces_mode (clientSocket : Socket) (x : Session) :
    Announces mode (fun _ => true) user x.server
      (finalState ((ClientMode.handle env clientSocket (some user)).run x)).server := by
  refine announces_read fun i buf _ => ?_
  rw [deref_some_bind, finalState_onServer]
  refine announces_aircraft (fun r a => .clientModeChange user r a)
    (fun m a t other ht => ?_) (fun r a ha => ?_) fun _ => rfl
  · rw [Server.sendClientModeChange, run_bind_of_ok (getUser_run t user), ht]
    rfl
  · simp [mode, ha]

theorem reported_mode : Reported mode 8 (fun _ => true) fun _ => True where
  untouched := ⟨fun _ _ => rfl, fun _ _ => rfl, fun _ _ => rfl⟩
  blank := by
    intro id' hid u
    unfold Permissions.blank
    split
    · exact map_asAircraft_of_derived rfl fun _ => rfl
    · exact map_asAircraft_of_derived rfl fun _ => rfl
    · rfl
    · rfl
    · exact map_asAircraft_of_derived rfl fun _ => rfl
    · exact absurd rfl hid
    · exact map_asAircraft_of_derived rfl fun _ => rfl
    · rfl
    · rfl
    · rfl
  hears _ _ _ := rfl
  about := by
    intro m about b h
    cases m <;> cases h <;> rfl
  create _ _ := rfl
  speaks := by
    intro about r m h
    cases h <;> first | exact Or.inl rfl | exact Or.inr rfl
  news _ _ _ _ := said_of_news fun m => by
    cases m <;> first | exact Or.inl rfl | exact Or.inr (Or.inl rfl) | exact Or.inr (Or.inr rfl)
  announces := by
    intro env s clientSocket buf user hsocket _
    have hpacket : (registerPackets env).getPacket (8 : ℕ) = some (clientMode env) := by
      rw [getPacket_registerPackets]
      rfl
    exact announces_packet hpacket hsocket (announces_mode clientSocket ⟨s, buf, [(8, [])]⟩)
  id := by decide

end Mode

section Frequency

variable {env : Environment} {user : Ptr}

/-- The primary frequency of a controller. -/
def primary (u : User) : Option ℤ :=
  match u.derived with
  | .controller _ => some (u.frequencies 0)
  | .aircraft _ => none

def frequency : Label (Option ℤ) where
  of := primary
  said
    | .createClient about client => some (about, primary client)
    | .primFreq about other => some (about, primary other)
    | _ => none

/-- The bytes of the packet are all there; between the two reads the first frequency is stored. -/
def Whole (buf : BasicStream) : Prop := 7 ≤ buf.unread.length

instance : DecidablePred Whole := fun buf => inferInstanceAs (Decidable (7 ≤ buf.unread.length))

theorem Whole.split {buf : BasicStream} (h : Whole buf) :
    ∃ (flags : UInt8) (first second : Bytes 3) (rest : List UInt8),
      buf.unread = [flags] ++ (first.1 ++ (second.1 ++ rest)) := by
  unfold Whole at h
  obtain ⟨flags, fields, hunread⟩ := List.exists_cons_of_length_pos (by omega :
    0 < buf.unread.length)
  rw [hunread, List.length_cons] at h
  refine ⟨flags, ⟨fields.take 3, by rw [List.length_take]; omega⟩,
    ⟨(fields.drop 3).take 3, by rw [List.length_take, List.length_drop]; omega⟩,
    (fields.drop 3).drop 3, ?_⟩
  rw [List.take_append_drop, List.take_append_drop, hunread]
  rfl

theorem announces_frequency (clientSocket : Socket) {x : Session} (hx : Whole x.buf) :
    Announces frequency isController user x.server
      (finalState ((PrimeFreqPacket.handle env clientSocket (some user)).run x)).server := by
  obtain ⟨flags, first, second, rest, hbuf⟩ := hx.split
  obtain ⟨x₁, hrun₁, hserver₁, hbuf₁⟩ := reads_next (PacketFields.reads_byte flags) hbuf
  obtain ⟨x₂, hrun₂, hserver₂, hbuf₂⟩ := reads_next (PacketFields.reads_frequency first) hbuf₁
  let store (i : Fin 2) (bytes : Bytes 3) (r : User) : User :=
    { r with frequencies := Function.update r.frequencies i (PacketFields.frequencyOf bytes) }
  obtain ⟨x₃, hrun₃, hserver₃, hbuf₃⟩ : ∃ x₃ : Session,
      (onServer (updateUser user (store 0 first))).run x₂ = .ok () x₃ ∧
      x₃.server = x₂.server.modifyUser user (store 0 first) ∧
      x₃.buf.unread = second.1 ++ rest := ⟨_, rfl, rfl, hbuf₂⟩
  obtain ⟨x₄, hrun₄, hserver₄, -⟩ := reads_next (PacketFields.reads_frequency second) hbuf₃
  rw [PrimeFreqPacket.handle, run_bind_of_ok hrun₁, run_bind_of_ok hrun₂, deref_some_bind,
    run_bind_of_ok hrun₃, run_bind_of_ok hrun₄, finalState_onServer,
    run_bind_of_ok (updateUser_run x₄.server user _)]
  rw [hserver₂, hserver₁] at hserver₃
  rw [hserver₃] at hserver₄
  rw [hserver₄]
  let m := (x.server.modifyUser user (store 0 first)).modifyUser user (store 1 second)
  have hsame {α : Type} {g : User → α} (hg : ∀ i bytes r, g (store i bytes r) = g r) (p : Ptr) :
      g (m.heap p) = g (x.server.heap p) :=
    (modifyUser_frame (hg 1 second _) p).trans (modifyUser_frame (hg 0 first _) p)
  refine announces_loop (m := m) (.primFreq user (m.heap user))
    (tells_controllers fun t other ht => ?_) rfl rfl
    (hsame (g := User.localUsers) (fun _ _ _ => rfl) user)
    (hsame (g := isController) fun _ _ _ => rfl)
  rw [Server.sendPrimFreq, run_bind_of_ok (getUser_run t user), ht]
  rfl

theorem reported_frequency : Reported frequency 13 isController Whole where
  untouched := ⟨fun _ _ => rfl, fun _ _ => rfl, fun _ _ => rfl⟩
  blank := by
    intro id' hid u
    have hprimary {v : User} {f : Aircraft → Aircraft} (hfreq : v.frequencies = u.frequencies)
        (hderived : v.derived = mapAircraft f u.derived) : primary v = primary u := by
      cases hu : u.derived <;> simp [primary, hderived, hu, mapAircraft, hfreq]
    unfold Permissions.blank
    split
    · exact hprimary rfl rfl
    · exact hprimary rfl rfl
    · rfl
    · rfl
    · exact hprimary rfl rfl
    · exact hprimary rfl rfl
    · exact hprimary rfl rfl
    · exact absurd rfl hid
    · rfl
    · rfl
  hears _ _ := isController_of_standing
  about := by
    intro m about b h
    cases m <;> cases h <;> rfl
  create _ _ := rfl
  speaks := by
    intro about r m h
    cases h <;> first | exact Or.inl rfl | exact Or.inr rfl
  news _ _ _ _ := said_of_news fun m => by
    cases m <;> first | exact Or.inl rfl | exact Or.inr (Or.inl rfl) | exact Or.inr (Or.inr rfl)
  announces := by
    intro env s clientSocket buf user hsocket hwhole
    have hpacket : (registerPackets env).getPacket (13 : ℕ) = some (primeFreqPacket env) := by
      rw [getPacket_registerPackets]
      rfl
    exact announces_packet hpacket hsocket
      (announces_frequency clientSocket (x := ⟨s, buf, [(13, [])]⟩) hwhole)
  id := by decide

end Frequency

section Runs

/-- In every run, each client shows the mode of each user that it sees as it is, and each controller
shows transponder codes and the frequencies of controllers as they are, when whoever reports such a
change has in its set those that see it and are told, and no frequency packet ends early. A code
that is too long for the stream of its message is outside. -/
theorem labels_current (storage : Ptr → Storage) (events : List (Environment × Event))
    (htransponder : EachStep (fun s e => serve e.1 s e.2)
      (Heeded 2 isController fun _ => True) (.initial storage) events)
    (hmode : EachStep (fun s e => serve e.1 s e.2)
      (Heeded 8 (fun _ => true) fun _ => True) (.initial storage) events)
    (hfrequency : EachStep (fun s e => serve e.1 s e.2)
      (Heeded 13 isController Whole) (.initial storage) events) :
    Current transponder isController (run storage events) ∧
      Current mode (fun _ => true) (run storage events) ∧
      Current frequency isController (run storage events) :=
  ⟨current_run reported_transponder storage events htransponder,
    current_run reported_mode storage events hmode,
    current_run reported_frequency storage events hfrequency⟩

/-- A controller and a pilot see each other. The pilot sets its code to 7 and its mode, and the
controller its frequencies. -/
def changes : List (Environment × Event) :=
  twoLogins ++ [(oneRoom, .pass), (oneRoom, .packet 2 2 (.preallocated [55, 0])),
    (oneRoom, .packet 2 8 (.preallocated [17])),
    (oneRoom, .packet 1 13 (.preallocated (List.replicate 7 1)))]

theorem labels_current_changes :
    transponder.shown 0 1 (run (fun _ => .zeroed) changes).sent = some (some [55]) := by
  have hlabels := labels_current (fun _ => .zeroed) changes (by decide +kernel)
    (by decide +kernel) (by decide +kernel)
  have hclient : 0 ∈ (run (fun _ => .zeroed) changes).clientManager.users := by decide +kernel
  have hhears : isController ((run (fun _ => .zeroed) changes).heap 0) = true := by
    decide +kernel
  have hseen : 1 ∈ ((run (fun _ => .zeroed) changes).heap 0).localUsers := by decide +kernel
  have hcode : transponder.of ((run (fun _ => .zeroed) changes).heap 1) = some [55] := by
    decide +kernel
  exact (hlabels.1 0 hclient hhears 1 hseen).trans (congrArg some hcode)

end Runs

end Win64Server.Labels
