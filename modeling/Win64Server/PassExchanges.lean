import Win64Server.VisibleSets

/-!
What a whole pass does for a pair of users. The first loop leaves each connected user the entries
that the distances ask for, the second gives each a turn, and neither the first loop nor the last
two send a position. So a pass sends one for the pair exactly when it is due in the turn of one of
the two, with the entry that the first loop leaves.
-/
namespace Win64Server.PassExchanges

open Outcome Library Server Frames Visits VisibleSets Observers

section FirstLoop

variable {env : Environment} {user other : Ptr} {s m t : Server}

/-- `other` comes into the sight of `user`. -/
structure Enters (env : Environment) (s : Server) (user other : Ptr) : Prop where
  connected : other ∈ s.clientManager.users
  ne : other ≠ user
  unseen : other ∉ (s.heap user).localUsers
  near : InRange env s user other

/-- `other` goes out of the sight of `user`. -/
structure Leaves (env : Environment) (s : Server) (user other : Ptr) : Prop where
  connected : other ∈ s.clientManager.users
  ne : other ≠ user
  seen : other ∈ (s.heap user).localUsers
  far : OutOfRange env s user other

/-- The entry that the first loop leaves a user for another one. -/
structure Sighted (env : Environment) (s : Server) (user other : Ptr) (left : Option Attributes) :
    Prop where
  enters : Enters env s user other → left = some fun _ => 0
  leaves : Leaves env s user other → left = none
  stays : ¬ Enters env s user other → ¬ Leaves env s user other → left = entry s user other

theorem sighted_settle (hother : other ∈ s.clientManager.users) :
    Sighted env s user other (settle env s user other (sight user s other)).entry := by
  refine ⟨fun h => ?_, fun h => ?_, fun henters hleaves => ?_⟩
  · rw [settle, if_neg h.ne, if_pos ⟨(isNone_entry s user other).mpr h.unseen, h.near⟩]
  · have hsome : (entry s user other).isSome := (isSome_entry s user other).mpr h.seen
    have hstart : ¬ ((sight user s other).entry.isNone ∧ InRange env s user other) :=
      fun hboth => not_outOfRange hboth.2 h.far
    rw [settle, if_neg h.ne, if_neg hstart, if_pos ⟨hsome, h.far⟩]
  · by_cases hself : other = user
    · rw [settle, if_pos hself]
      rfl
    have hstart : ¬ ((sight user s other).entry.isNone ∧ InRange env s user other) := fun hboth =>
      henters ⟨hother, hself, (isNone_entry s user other).mp hboth.1, hboth.2⟩
    have hstop : ¬ ((sight user s other).entry.isSome ∧ OutOfRange env s user other) :=
      fun hboth => hleaves ⟨hother, hself, (isSome_entry s user other).mp hboth.1, hboth.2⟩
    rw [settle, if_neg hself, if_neg hstart, if_neg hstop]
    rfl

/-- The loop over the others, when it returns. -/
theorem updateLocalUsers_sighted (hrun : (updateLocalUsers env user).run s = .ok () t)
    (other : Ptr) : Sighted env s user other (entry t user other) := by
  let order := env.arrange s.ticks s.clientManager.users
  have horder (other : Ptr) : other ∈ order ↔ other ∈ s.clientManager.users :=
    (env.arrange_perm _ _).mem_iff
  have hloop : (order.forM (visitUser env user (s.heap user).location)).run
      { s with ticks := s.ticks + 1 } = .ok () t := hrun
  have hstart : Around user s { s with ticks := s.ticks + 1 } := Frame.toQuiet.ticks s _
  have hpointwise := pointwise_visitUser env user s
  have hready : ∀ other ∈ order, Ready env s user other
      (sight user { s with ticks := s.ticks + 1 } other) := by
    by_contra hall
    obtain ⟨e, t', hfails, -⟩ := hpointwise.forM_fails hstart hall
    rw [hloop] at hfails
    cases hfails
  obtain ⟨t', hreturns, -, hin, hout⟩ := hpointwise.forM_returns hstart hready
  rw [hloop] at hreturns
  cases hreturns
  by_cases hother : other ∈ s.clientManager.users
  · have hsight : sight user t other = settle env s user other (sight user s other) :=
      hin other ((horder other).mpr hother)
    have hentry : entry t user other = (settle env s user other (sight user s other)).entry :=
      congrArg Sight.entry hsight
    rw [hentry]
    exact sighted_settle hother
  · have hentry : entry t user other = entry s user other :=
      congrArg Sight.entry (hout other ((horder other).not.mpr hother))
    exact ⟨fun h => absurd h.connected hother, fun h => absurd h.connected hother,
      fun _ _ => hentry⟩

theorem enters_iff (hclients : m.clientManager = s.clientManager) (hsettled : Same settled s m)
    (hentry : entry m user other = entry s user other) :
    Enters env m user other ↔ Enters env s user other := by
  have hseen : other ∈ (m.heap user).localUsers ↔ other ∈ (s.heap user).localUsers := by
    rw [← isSome_entry, ← isSome_entry, hentry]
  constructor
  · rintro ⟨hconnected, hne, hunseen, hnear⟩
    exact ⟨hclients ▸ hconnected, hne, hseen.not.mp hunseen, (inRange_iff hsettled).mp hnear⟩
  · rintro ⟨hconnected, hne, hunseen, hnear⟩
    exact ⟨hclients.symm ▸ hconnected, hne, hseen.not.mpr hunseen, (inRange_iff hsettled).mpr hnear⟩

theorem leaves_iff (hclients : m.clientManager = s.clientManager) (hsettled : Same settled s m)
    (hentry : entry m user other = entry s user other) :
    Leaves env m user other ↔ Leaves env s user other := by
  have hseen : other ∈ (m.heap user).localUsers ↔ other ∈ (s.heap user).localUsers := by
    rw [← isSome_entry, ← isSome_entry, hentry]
  constructor
  · rintro ⟨hconnected, hne, hin, hfar⟩
    exact ⟨hclients ▸ hconnected, hne, hseen.mp hin, (outOfRange_iff hsettled).mp hfar⟩
  · rintro ⟨hconnected, hne, hin, hfar⟩
    exact ⟨hclients.symm ▸ hconnected, hne, hseen.mpr hin, (outOfRange_iff hsettled).mpr hfar⟩

/-- Sighted from a state with the same entry. -/
theorem Sighted.of_same {left : Option Attributes} (h : Sighted env m user other left)
    (hclients : m.clientManager = s.clientManager) (hsettled : Same settled s m)
    (hentry : entry m user other = entry s user other) : Sighted env s user other left := by
  have henters : Enters env m user other ↔ Enters env s user other :=
    enters_iff hclients hsettled hentry
  have hleaves : Leaves env m user other ↔ Leaves env s user other :=
    leaves_iff hclients hsettled hentry
  refine ⟨fun h' => h.enters (henters.mpr h'), fun h' => h.leaves (hleaves.mpr h'), ?_⟩
  intro hstay hstay'
  exact (h.stays (henters.not.mpr hstay) (hleaves.not.mpr hstay')).trans hentry

/-- What is left once is left again. -/
theorem Sighted.again {left : Option Attributes} (h : Sighted env m user other left)
    (hclients : m.clientManager = s.clientManager) (hsettled : Same settled s m)
    (hs : Sighted env s user other (entry m user other)) : Sighted env s user other left := by
  by_cases henters : Enters env s user other
  · have hentry := hs.enters henters
    have hseen : other ∈ (m.heap user).localUsers := by
      rw [← isSome_entry, hentry]
      rfl
    have hstays : left = entry m user other :=
      h.stays (fun h' => h'.unseen hseen) fun h' =>
        not_outOfRange henters.near ((outOfRange_iff hsettled).mp h'.far)
    rw [hstays]
    exact hs
  by_cases hleaves : Leaves env s user other
  · have hentry := hs.leaves hleaves
    have hunseen : other ∉ (m.heap user).localUsers := by
      rw [← isNone_entry, hentry]
      rfl
    have hstays : left = entry m user other :=
      h.stays (fun h' => not_outOfRange ((inRange_iff hsettled).mp h'.near) hleaves.far)
        fun h' => hunseen h'.seen
    rw [hstays]
    exact hs
  · exact h.of_same hclients hsettled (hs.stays henters hleaves)

/-- Some users have had their round of the first loop. -/
structure Toured (env : Environment) (toured : List Ptr) (s t : Server) : Prop where
  clientManager : t.clientManager = s.clientManager
  settled : Same settled s t
  visited : ∀ user ∈ toured, ∀ other, Sighted env s user other (entry t user other)
  others : ∀ user, user ∉ toured → ∀ other, entry t user other = entry s user other

theorem round_toured (hrun : (do
      updateLocalUsers env user
      passFlags user : ServerM Unit).run s = .ok () t) : Toured env [user] s t := by
  obtain ⟨_, m, hlocal, hflags⟩ := run_bind_ok.mp hrun
  have hround : Only (fun a _ => a = user) s m := (only_updateLocalUsers user).ok hlocal
  have hlast : Only (fun _ _ => False) m t := (only_passFlags _ user).keeps.ok hflags
  refine ⟨hlast.clientManager.trans hround.clientManager, Trans.trans hround.settled hlast.settled,
    fun v hv other => ?_, fun v hv other => ?_⟩
  · rw [List.mem_singleton.mp hv, hlast.entry user other id]
    exact updateLocalUsers_sighted hlocal other
  · rw [hlast.entry v other id, hround.entry v other fun heq => hv (List.mem_singleton.mpr heq)]

theorem forM_toured {order : List Ptr} (hrun : (order.forM fun user => do
      updateLocalUsers env user
      passFlags user).run s = .ok () t) : Toured env order s t := by
  induction order generalizing s with
  | nil =>
    cases hrun
    exact ⟨rfl, fun _ => rfl, nofun, fun _ _ _ => rfl⟩
  | cons v order ih =>
    rw [List.forM_eq_forM, List.forM_cons] at hrun
    obtain ⟨_, m, hround, hrest⟩ := run_bind_ok.mp hrun
    have hfirst := round_toured hround
    have hlater := ih hrest
    refine ⟨hlater.clientManager.trans hfirst.clientManager,
      Trans.trans hfirst.settled hlater.settled, fun user huser other => ?_, fun user huser other =>
      ?_⟩
    · by_cases hv : user = v
      · have hm := hfirst.visited user (List.mem_singleton.mpr hv) other
        by_cases hagain : user ∈ order
        · exact (hlater.visited user hagain other).again hfirst.clientManager hfirst.settled hm
        · rw [hlater.others user hagain]
          exact hm
      · have hmem : user ∈ order := (List.mem_cons.mp huser).resolve_left hv
        exact (hlater.visited user hmem other).of_same hfirst.clientManager hfirst.settled
          (hfirst.others user (fun h => hv (List.mem_singleton.mp h)) other)
    · rw [hlater.others user (List.not_mem_of_not_mem_cons huser),
        hfirst.others user fun h => List.ne_of_not_mem_cons huser (List.mem_singleton.mp h)]

/-- The first loop, when it returns, does this for every connected user. -/
theorem firstLoop_toured (hrun : (iterateUsers env fun user => do
      updateLocalUsers env user
      passFlags user).run s = .ok () t) : Toured env s.clientManager.users s t := by
  have hloop : ((env.arrange s.ticks s.clientManager.users).forM fun user => do
      updateLocalUsers env user
      passFlags user).run { s with ticks := s.ticks + 1 } = .ok () t := hrun
  have hperm (user : Ptr) : user ∈ env.arrange s.ticks s.clientManager.users ↔
      user ∈ s.clientManager.users := (env.arrange_perm _ _).mem_iff
  obtain ⟨hclients, hsettled, hvisited, hothers⟩ := forM_toured hloop
  refine ⟨hclients, hsettled, fun user huser other => ?_, fun user huser => ?_⟩
  · have hsighted := hvisited user ((hperm user).mpr huser) other
    exact hsighted.of_same rfl (fun _ => rfl) rfl
  · exact hothers user ((hperm user).not.mpr huser)

end FirstLoop

section Turns

variable {env : Environment} {now : ℤ} {user other v : Ptr} {s m t : Server}

/-- A position is due for a local user. -/
def Wants (now : ℤ) (s : Server) (user other : Ptr) : Prop :=
  (entry s user other).isSome ∧ Due now s user other

theorem wants_iff (hsettled : Same settled s t) (hentry : entry t user other = entry s user other) :
    Wants now t user other ↔ Wants now s user other := by
  have hsame : Only (fun a b => ¬ (a = user ∧ b = other)) s { t with clientManager :=
      s.clientManager } := by
    refine ⟨rfl, hsettled, fun a b hab => ?_⟩
    obtain ⟨rfl, rfl⟩ := not_not.mp hab
    exact hentry
  have hdue : Due now t user other ↔ Due now s user other :=
    hsame.due_iff (fun h => h ⟨rfl, rfl⟩) now
  rw [Wants, Wants, hentry, hdue]

theorem forPair_comm {e : Sent} : ForPair user other e ↔ ForPair other user e :=
  and_congr_right fun _ => or_comm

theorem exchanged_comm : Exchanged user other s t ↔ Exchanged other user s t := by
  simp only [Exchanged, forPair_comm]

/-- An exchange happens in the one part or in the other. -/
theorem exchanged_trans (h : ∃ new, m.sent = s.sent ++ new) (h' : ∃ new, t.sent = m.sent ++ new) :
    Exchanged user other s t ↔ Exchanged user other s m ∨ Exchanged user other m t := by
  obtain ⟨new, hnew⟩ := h
  obtain ⟨new', hnew'⟩ := h'
  have hfirst : m.sent.drop s.sent.length = new := by rw [hnew, List.drop_left]
  have hsecond : t.sent.drop m.sent.length = new' := by rw [hnew', List.drop_left]
  have hall : t.sent.drop s.sent.length = new ++ new' := by
    rw [hnew', hnew, List.append_assoc, List.drop_left]
  simp only [Exchanged, hfirst, hsecond, hall, List.mem_append, or_and_right, exists_or]

/-- The own turn of a user. -/
theorem update_own (hclock : ∀ n, env.clock n = now) (hrun : (update env user).run s = .ok () t)
    (other : Ptr) :
    (Exchanged user other s t ↔ Wants now s user other) ∧
      (Wants now s user other → UpToDate user other t) ∧
      (¬ Wants now s user other → entry t user other = entry s user other) := by
  by_cases hmem : (entry s user other).isSome
  · obtain ⟨hexchanged, hupToDate, hidle⟩ := update_turn hclock hmem hrun
    rw [Wants, and_iff_right hmem]
    exact ⟨hexchanged, hupToDate, hidle⟩
  · have hskips := update_skips (Option.not_isSome_iff_eq_none.mp hmem) hrun
    have hnot : ¬ Wants now s user other := fun h => hmem h.1
    obtain ⟨new, hsent, hnew⟩ := hskips.sent
    refine ⟨iff_of_false ?_ hnot, fun h => absurd h hnot,
      fun _ => hskips.only.entry user other fun h => h.2 rfl⟩
    rintro ⟨e, he, hpair⟩
    rw [hsent, List.drop_left] at he
    exact hnew e he hpair

theorem update_messages (hrun : (update env v).run s = .ok () t) :
    ∃ new, t.sent = s.sent ++ new ∧ ∀ e ∈ new,
      Exchange v (s.heap v).localUsers.keys (s.heap v).updateRequired e := by
  have hfinal : finalState ((update env v).run s) = t := by rw [hrun, finalState_ok]
  rw [← hfinal]
  exact update_exchanges s

/-- The turn of a third user. -/
theorem update_third (huser : v ≠ user) (hother : v ≠ other)
    (hrun : (update env v).run s = .ok () t) : ¬ Exchanged user other s t := by
  obtain ⟨new, hsent, hnew⟩ := update_messages hrun
  rintro ⟨e, he, hpair⟩
  rw [hsent, List.drop_left] at he
  have hown : ∃ b, ForPair v b e := by
    rcases hnew e he hpair.1 with ⟨hrecipient, b, -, habout⟩ | ⟨-, -, habout⟩
    · exact ⟨b, hpair.1, Or.inl ⟨hrecipient, habout⟩⟩
    · exact ⟨e.recipient, hpair.1, Or.inr ⟨rfl, habout⟩⟩
  obtain ⟨b, hown⟩ := hown
  rcases forPair_same hpair hown with ⟨h, -⟩ | ⟨h, -⟩
  · exact huser h
  · exact hother h

theorem update_exchanged (hclock : ∀ n, env.clock n = now)
    (hrun : (update env v).run s = .ok () t) (user other : Ptr) :
    Exchanged user other s t ↔
      (v = user ∧ Wants now s user other) ∨ (v = other ∧ Wants now s other user) := by
  by_cases huser : v = user
  · subst huser
    rw [(update_own hclock hrun other).1]
    constructor
    · exact fun h => Or.inl ⟨rfl, h⟩
    · rintro (⟨-, h⟩ | ⟨rfl, h⟩)
      · exact h
      · exact h
  by_cases hother : v = other
  · subst hother
    rw [exchanged_comm, (update_own hclock hrun user).1]
    simp [huser]
  · refine iff_of_false (update_third huser hother hrun) ?_
    rintro (⟨h, -⟩ | ⟨h, -⟩)
    · exact huser h
    · exact hother h

theorem update_sent (hrun : (update env v).run s = .ok () t) : ∃ new, t.sent = s.sent ++ new := by
  obtain ⟨new, hsent, -⟩ := update_messages hrun
  exact ⟨new, hsent⟩

/-- What a turn leaves of what is due. -/
theorem update_wants (hclock : ∀ n, env.clock n = now)
    (hrun : (update env v).run s = .ok () t) (h : ¬ (v = user ∧ Wants now s user other)) :
    entry t user other = entry s user other ∧
      (Wants now t user other ↔ Wants now s user other) := by
  have honly : Only (fun a _ => a = v) s t := (only_update v).ok hrun
  have hentry : entry t user other = entry s user other := by
    by_cases hv : v = user
    · subst hv
      exact (update_own hclock hrun other).2.2 fun hwants => h ⟨rfl, hwants⟩
    · exact honly.entry user other fun heq => hv heq.symm
  exact ⟨hentry, wants_iff honly.settled hentry⟩

/-- The turns of some users, one after the other: each of the two exchanges what is due to it when
the first turn begins. -/
theorem turns_exchanged (hclock : ∀ n, env.clock n = now) {order : List Ptr}
    (hrun : (order.forM (update env)).run s = .ok () t) (user other : Ptr) :
    (∃ new, t.sent = s.sent ++ new) ∧
      (Exchanged user other s t ↔
        (user ∈ order ∧ Wants now s user other) ∨ (other ∈ order ∧ Wants now s other user)) := by
  induction order generalizing s with
  | nil =>
    cases hrun
    exact ⟨⟨[], (List.append_nil _).symm⟩, by simp [Exchanged]⟩
  | cons v order ih =>
    rw [List.forM_eq_forM, List.forM_cons] at hrun
    obtain ⟨_, m, hturn, hrest⟩ := run_bind_ok.mp hrun
    obtain ⟨hsent, hlater⟩ := ih hrest
    have hfirst := update_exchanged hclock hturn user other
    have hnew := update_sent hturn
    refine ⟨?_, ?_⟩
    · obtain ⟨new, hnew⟩ := hnew
      obtain ⟨new', hnew'⟩ := hsent
      exact ⟨new ++ new', by rw [hnew', hnew, List.append_assoc]⟩
    rw [exchanged_trans hnew hsent, hfirst, hlater]
    by_cases hown : v = user ∧ Wants now s user other
    · exact iff_of_true (Or.inl (Or.inl hown)) (Or.inl ⟨by simp [hown.1], hown.2⟩)
    by_cases hback : v = other ∧ Wants now s other user
    · exact iff_of_true (Or.inl (Or.inr hback)) (Or.inr ⟨by simp [hback.1], hback.2⟩)
    rw [(update_wants hclock hturn hown).2, (update_wants hclock hturn hback).2]
    rw [or_or_or_comm, ← or_and_right, ← or_and_right, List.mem_cons, List.mem_cons,
      eq_comm (a := user) (b := v), eq_comm (a := other) (b := v)]

/-- And then the entries hold the latest stamps where something was due, and are as they were
where nothing was. -/
theorem turns_entry (hclock : ∀ n, env.clock n = now) {order : List Ptr}
    (hrun : (order.forM (update env)).run s = .ok () t) (user other : Ptr) :
    (user ∈ order ∧ Wants now s user other → UpToDate user other t) ∧
      (¬ (user ∈ order ∧ Wants now s user other) → entry t user other = entry s user other) := by
  induction order generalizing s with
  | nil =>
    cases hrun
    exact ⟨fun h => absurd h.1 List.not_mem_nil, fun _ => rfl⟩
  | cons v order ih =>
    rw [List.forM_eq_forM, List.forM_cons] at hrun
    obtain ⟨_, m, hturn, hrest⟩ := run_bind_ok.mp hrun
    by_cases hown : v = user ∧ Wants now s user other
    · obtain ⟨rfl, hwants⟩ := hown
      have hstays : StaysUpToDate v other m t :=
        (Keeps.forM fun w _ => staysUpToDate_update w).ok hrest
      refine ⟨fun _ => hstays ((update_own hclock hturn other).2.1 hwants), fun h => ?_⟩
      exact absurd ⟨List.mem_cons_self, hwants⟩ h
    · obtain ⟨hentry, hwants⟩ := update_wants hclock hturn hown
      obtain ⟨hupToDate, hidle⟩ := ih hrest
      rw [hwants] at hupToDate hidle
      rw [hentry] at hidle
      have hmem : user ∈ v :: order ∧ Wants now s user other ↔
          user ∈ order ∧ Wants now s user other := by
        rw [List.mem_cons]
        constructor
        · rintro ⟨rfl | h, h'⟩
          · exact absurd ⟨rfl, h'⟩ hown
          · exact ⟨h, h'⟩
        · exact fun h => ⟨Or.inr h.1, h.2⟩
      rw [hmem]
      exact ⟨hupToDate, hidle⟩

end Turns

section Silence

variable {env : Environment} {user other : Ptr} {s t : Server}

/-- No position is sent. -/
def Silent (s t : Server) : Prop :=
  ∃ new, t.sent = s.sent ++ new ∧ ∀ e ∈ new, isPosition e.message = false

instance : Std.Refl Silent := ⟨fun s => ⟨[], (List.append_nil s.sent).symm, by simp⟩⟩

instance : IsTrans Server Silent where
  trans _ _ _ h h' := by
    obtain ⟨new, hsent, hnew⟩ := h
    obtain ⟨new', hsent', hnew'⟩ := h'
    exact ⟨new ++ new', by rw [hsent', hsent, List.append_assoc],
      List.forall_mem_append.mpr ⟨hnew, hnew'⟩⟩

theorem Silent.not_exchanged (h : Silent s t) : ¬ Exchanged user other s t := by
  obtain ⟨new, hsent, hnew⟩ := h
  rintro ⟨e, he, hposition, -⟩
  rw [hsent, List.drop_left] at he
  rw [hnew e he] at hposition
  cases hposition

theorem silent_ticks (s : Server) (n : ℕ) : Silent s { s with ticks := n } :=
  ⟨[], (List.append_nil s.sent).symm, by simp⟩

theorem silent_updateUser (v : Ptr) (f : User → User) : Keeps Silent (updateUser v f) :=
  fun s => ⟨[], (List.append_nil s.sent).symm, by simp⟩

theorem silent_of_sightings (h : Sends (fun e => isSighting e.message = true) s t) :
    Silent s t := by
  obtain ⟨new, hsent, hnew⟩ := h.sent
  refine ⟨new, hsent, fun e he => ?_⟩
  have hkind := hnew e he
  cases hmessage : e.message <;> simp_all [isSighting, isPosition]

theorem silent_tell (s : Server) (v : Ptr) (time : ℤ) :
    Silent s ((s.modifyUser v fun u => { u with updateInterval := time }).push v
      (.timeChange time)) :=
  ⟨[⟨v, .timeChange time⟩], rfl, by simp [isPosition]⟩

theorem silent_lowerInterval (v : Ptr) (time : ℤ) : Keeps Silent (lowerInterval v time) := by
  intro s
  rw [lowerInterval_run, finalState_ok]
  split
  · exact silent_tell s v time
  · exact Std.Refl.refl s

theorem silent_adjustTime (env : Environment) (v : Ptr) : Keeps Silent (adjustTime env v) := by
  intro s
  obtain ⟨time, hrun⟩ := adjustTime_run s v env
  rw [hrun, finalState_ok]
  split
  · exact Trans.trans (silent_ticks s _) (silent_tell _ v time)
  · exact silent_ticks s _

theorem silent_firstLoop : Keeps Silent (iterateUsers env fun user => do
    updateLocalUsers env user
    passFlags user) := by
  refine keeps_iterateUsers silent_ticks fun user => .bind ?_ fun _ => ?_
  · refine .bind (fun s => Std.Refl.refl s) fun u => keeps_iterateUsers silent_ticks fun v => ?_
    exact keeps_visitUser_of (fun _ _ => silent_of_sightings) (silent_lowerInterval v)
      (silent_adjustTime env v) (silent_updateUser user _) (silent_updateUser user _) u.location
  · refine .bind (fun s => Std.Refl.refl s) fun u => ?_
    split
    · exact silent_updateUser user _
    · exact .pure ()

theorem silent_lastLoops : Keeps Silent (do
    iterateUsers env (updateOnlyQueues env)
    iterateUsers env resetRequired) := by
  refine .bind (keeps_iterateUsers silent_ticks fun user => ?_) fun _ => ?_
  · exact keeps_updateOnlyQueues_of (fun _ _ => silent_of_sightings) silent_ticks
      (silent_updateUser user _)
  · exact keeps_iterateUsers silent_ticks fun user => silent_updateUser user _

theorem only_lastLoops : Keeps (Only fun _ _ => False) (do
    iterateUsers env (updateOnlyQueues env)
    iterateUsers env resetRequired) :=
  .bind (keeps_iterateUsers (fun s n => Frame.toQuiet.ticks s n) fun user =>
    (only_updateOnlyQueues _ user).keeps) fun _ =>
      keeps_iterateUsers (fun s n => Frame.toQuiet.ticks s n) fun user =>
        (only_resetRequired _ user).keeps

end Silence

section Passes

variable {env : Environment} {now : ℤ} {user other : Ptr} {s t : Server}

/-- A position is due in the turn that `user` has in a pass: the other one is in its set and the
first loop leaves it there, or it comes into sight. -/
def Takes (env : Environment) (now : ℤ) (s : Server) (user other : Ptr) : Prop :=
  user ∈ s.clientManager.users ∧
    (Enters env s user other ∨
      (other ∈ (s.heap user).localUsers ∧ ¬ Leaves env s user other ∧ Due now s user other))

theorem takes_iff {a : Server} (h : Toured env s.clientManager.users s a) :
    user ∈ s.clientManager.users ∧ Wants now a user other ↔ Takes env now s user other := by
  rw [Takes]
  refine and_congr_right fun huser => ?_
  have hsighted := h.visited user huser other
  by_cases henters : Enters env s user other
  · -- A new entry has no stamp, so that it is due.
    have hentry := hsighted.enters henters
    refine iff_of_true ⟨by rw [hentry]; rfl, Or.inr (Or.inl ?_)⟩ (Or.inl henters)
    rw [recorded, hentry]
    rfl
  by_cases hleaves : Leaves env s user other
  · have hgone : ¬ Wants now a user other := fun hwants => by
      have hsome := hwants.1
      rw [hsighted.leaves hleaves] at hsome
      cases hsome
    refine iff_of_false hgone ?_
    rintro (h' | ⟨-, h', -⟩)
    · exact henters h'
    · exact h' hleaves
  · rw [wants_iff h.settled (hsighted.stays henters hleaves), Wants, isSome_entry,
      or_iff_right henters, and_iff_right hleaves]

/-- The parts of a pass. -/
theorem globalUpdate_loops (hrun : (globalUpdate env).run s = .ok () t) :
    ∃ a b, Toured env s.clientManager.users s a ∧ Silent s a ∧
      ((env.arrange a.ticks a.clientManager.users).forM (update env)).run
        { a with ticks := a.ticks + 1 } = .ok () b ∧
      Silent b t ∧ Only (fun _ _ => False) b t := by
  obtain ⟨_, a, hfirst, hrun⟩ := run_bind_ok.mp hrun
  obtain ⟨_, b, hsecond, hlast⟩ := run_bind_ok.mp hrun
  exact ⟨a, b, firstLoop_toured hfirst, silent_firstLoop.ok hfirst, hsecond,
    silent_lastLoops.ok hlast, only_lastLoops.ok hlast⟩

theorem Silent.sent (h : Silent s t) : ∃ new, t.sent = s.sent ++ new := by
  obtain ⟨new, hsent, -⟩ := h
  exact ⟨new, hsent⟩

/-- A pass sends a position for a pair of users exactly when one is due in the turn of one of the
two. -/
theorem pass_exchanged (hclock : ∀ n, env.clock n = now)
    (hrun : (globalUpdate env).run s = .ok () t) (user other : Ptr) :
    Exchanged user other s t ↔ Takes env now s user other ∨ Takes env now s other user := by
  obtain ⟨a, b, htoured, hfirst, hturns, hlast, -⟩ := globalUpdate_loops hrun
  obtain ⟨hsent, hexchanged⟩ := turns_exchanged hclock hturns user other
  have hab : Exchanged user other a b ↔
      (user ∈ env.arrange a.ticks a.clientManager.users ∧ Wants now a user other) ∨
        (other ∈ env.arrange a.ticks a.clientManager.users ∧ Wants now a other user) := hexchanged
  rw [(env.arrange_perm _ _).mem_iff, (env.arrange_perm _ _).mem_iff, htoured.clientManager,
    takes_iff htoured, takes_iff htoured] at hab
  have hsecond : ∃ new, b.sent = a.sent ++ new := hsent
  have htail : Exchanged user other a t ↔ Exchanged user other a b := by
    rw [exchanged_trans hsecond hlast.sent, or_iff_left hlast.not_exchanged]
  have hsuffix : ∃ new, t.sent = a.sent ++ new := by
    obtain ⟨new, hnew⟩ := hsecond
    obtain ⟨new', hnew'⟩ := hlast.sent
    exact ⟨new ++ new', by rw [hnew', hnew, List.append_assoc]⟩
  rw [exchanged_trans hfirst.sent hsuffix, or_iff_right hfirst.not_exchanged, htail, hab]

/-- After a pass the entry of a connected user holds the latest stamp when one was due in its turn;
otherwise it is the one that the first loop has left. -/
theorem pass_entry (hclock : ∀ n, env.clock n = now)
    (hrun : (globalUpdate env).run s = .ok () t) {user : Ptr}
    (huser : user ∈ s.clientManager.users) (other : Ptr) :
    Same settled s t ∧ (Takes env now s user other → UpToDate user other t) ∧
      (¬ Takes env now s user other → Sighted env s user other (entry t user other)) := by
  obtain ⟨a, b, htoured, -, hturns, -, hlast⟩ := globalUpdate_loops hrun
  obtain ⟨hupToDate, hidle⟩ := turns_entry hclock hturns user other
  have hmem : user ∈ env.arrange a.ticks a.clientManager.users ∧
      Wants now { a with ticks := a.ticks + 1 } user other ↔ Takes env now s user other := by
    rw [(env.arrange_perm _ _).mem_iff, htoured.clientManager, ← takes_iff htoured]
    exact Iff.rfl
  rw [hmem] at hupToDate hidle
  have hsecond : Only (fun _ _ => True) { a with ticks := a.ticks + 1 } b :=
    (Keeps.forM fun v _ => (only_update v).mono fun _ _ h => h.mono fun _ _ _ => trivial).ok hturns
  have hsettled : Same settled a b := hsecond.settled
  refine ⟨?_, fun h => hlast.upToDate id (hupToDate h), fun h => ?_⟩
  · exact Trans.trans htoured.settled (Trans.trans hsettled hlast.settled)
  · rw [hlast.entry user other id, hidle h]
    exact htoured.visited user huser other

/-- For a local user: a pass sends a position for the pair and leaves the latest stamp recorded
exactly when the local user stays in sight, and a position is due in the user's own turn, or the
latest stamp was recorded already and one is due in the turn of the other. -/
theorem pass_records_iff (hclock : ∀ n, env.clock n = now)
    (hrun : (globalUpdate env).run s = .ok () t) (huser : user ∈ s.clientManager.users)
    (hseen : other ∈ (s.heap user).localUsers) :
    (Exchanged user other s t ∧ ∃ att, entry t user other = some att ∧
        att lastPosUpdate = (s.heap other).lastPositionUpdate) ↔
      ¬ Leaves env s user other ∧ (Due now s user other ∨
        (recorded s user other = (s.heap other).lastPositionUpdate ∧
          Takes env now s other user)) := by
  obtain ⟨hsettled, hupToDate, hsighted⟩ := pass_entry hclock hrun huser other
  rw [pass_exchanged hclock hrun user other]
  have hnew : ¬ Enters env s user other := fun h => h.unseen hseen
  have htakes : Takes env now s user other ↔ ¬ Leaves env s user other ∧ Due now s user other := by
    rw [Takes, and_iff_right huser, or_iff_right hnew, and_iff_right hseen]
  by_cases hown : Takes env now s user other
  · obtain ⟨hstays, hdue⟩ := htakes.mp hown
    obtain ⟨att, hatt, hlast⟩ := hupToDate hown
    have hstamp : (t.heap other).lastPositionUpdate = (s.heap other).lastPositionUpdate :=
      congrArg Settled.stamp (hsettled other)
    exact iff_of_true ⟨Or.inl hown, att, hatt, hlast.trans hstamp⟩ ⟨hstays, Or.inl hdue⟩
  have hleft := hsighted hown
  rw [or_iff_right hown]
  constructor
  · rintro ⟨hback, att, hatt, hlast⟩
    have hstays : ¬ Leaves env s user other := fun h => by
      rw [hleft.leaves h] at hatt
      cases hatt
    rw [hleft.stays hnew hstays] at hatt
    refine ⟨hstays, Or.inr ⟨?_, hback⟩⟩
    rw [recorded, hatt]
    exact hlast
  · rintro ⟨hstays, hdue | ⟨hrecorded, hback⟩⟩
    · exact absurd (htakes.mpr ⟨hstays, hdue⟩) hown
    · obtain ⟨att, hatt⟩ := Option.isSome_iff_exists.mp ((isSome_entry s user other).mpr hseen)
      rw [recorded, hatt] at hrecorded
      exact ⟨hback, att, (hleft.stays hnew hstays).trans hatt, hrecorded⟩

end Passes

end Win64Server.PassExchanges
