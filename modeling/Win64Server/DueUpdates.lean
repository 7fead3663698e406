import Win64Server.Visits

/-!
What `update` sends. The loop asks each local user for a short enough interval and compares the
clock with the stamp it has recorded. The window around the request never holds a message back,
whatever the signs of the two intervals: one position goes out exactly when one is due.
-/
namespace Win64Server.DueUpdates

open Outcome Server Frames Observers Visits

/-- The number of position messages for a pair between two states. -/
def exchanges (user other : Ptr) (s t : Server) : ℕ :=
  (t.sent.drop s.sent.length).countP fun e => decide (ForPair user other e)

/-- The guard of the branch "Interval Requested is Lower than current Update Interval". -/
def RequestedLower (user other : Ptr) (s : Server) : Prop :=
  (s.heap other).updateInterval > request s user other

/-- The guards that lead to "It has not yet within range", for an interval since the record. -/
structure NotYetWithin (user other : Ptr) (s : Server) (interval : ℤ) : Prop where
  longEnough : interval ≥ request s user other
  outside : ¬ (interval ≥ request s user other - (s.heap other).updateInterval ∧
    interval ≤ request s user other + (s.heap other).updateInterval)
  notOverlapped : ¬ interval > request s user other + (s.heap other).updateInterval

section Guards

variable {env : Environment} {user other : Ptr} {s t : Server}

theorem request_asked (s : Server) (user other : Ptr) :
    request (asked s user other) user other = request s user other :=
  (asked_only fun _ _ => False).requested user other

theorem not_requestedLower (s : Server) (user other : Ptr) :
    ¬ RequestedLower user other (asked s user other) := by
  rw [RequestedLower, request_asked]
  exact not_lt.mpr (asked_interval s user other)

/-- An interval that is long enough is in the window, or it is beyond the window already. For a
negative update interval the window is empty. -/
theorem not_notYetWithin (s : Server) (user other : Ptr) (interval : ℤ) :
    ¬ NotYetWithin user other (asked s user other) interval := by
  rintro ⟨hlong, houtside, hnot⟩
  have hasked := not_lt.mp (not_requestedLower s user other)
  omega

end Guards

section Counting

variable {env : Environment} {now : ℤ} {user other : Ptr} {s t r : Server}

theorem exchanges_eq {new : List Sent} (h : t.sent = s.sent ++ new) :
    exchanges user other s t = new.countP fun e => decide (ForPair user other e) := by
  rw [exchanges, h, List.drop_left]

theorem exchanges_trans {new new' : List Sent} (h : t.sent = s.sent ++ new)
    (h' : r.sent = t.sent ++ new') :
    exchanges user other s r = exchanges user other s t + exchanges user other t r := by
  have hall : r.sent = s.sent ++ (new ++ new') := by rw [h', h, List.append_assoc]
  rw [exchanges_eq hall, exchanges_eq h, exchanges_eq h', List.countP_append]

theorem exchanges_skips (h : Skips user other s t) : exchanges user other s t = 0 := by
  obtain ⟨new, hsent, hnew⟩ := h.sent
  rw [exchanges_eq hsent, List.countP_eq_zero]
  intro e he
  rw [decide_eq_true_eq]
  exact hnew e he

theorem countP_asks {asks : List Sent} (h : ∀ e ∈ asks, isPosition e.message = false) :
    asks.countP (fun e => decide (ForPair user other e)) = 0 := by
  rw [List.countP_eq_zero]
  intro e he hpair
  have hposition := (of_decide_eq_true hpair).1
  rw [h e he] at hposition
  cases hposition

/-- One visit. -/
theorem exchanges_updateAbout (hclock : env.clock s.ticks = now)
    (hrun : (updateAbout env user other).run s = .ok () t) :
    (∃ new, t.sent = s.sent ++ new) ∧
      (Due now s user other → exchanges user other s t = 1) ∧
      (¬ Due now s user other → exchanges user other s t = 0) := by
  obtain ⟨t', hrun', hrecords, hidle⟩ := updateAbout_run hclock user other
  rw [hrun] at hrun'
  cases hrun'
  obtain ⟨asks, hasks, hquiet⟩ := asked_sent s user other
  by_cases h : Due now s user other
  · obtain ⟨e, hpair, hpush⟩ := (hrecords h).sent
    have hsent : t.sent = s.sent ++ (asks ++ [e]) := by rw [hpush, hasks, List.append_assoc]
    refine ⟨⟨_, hsent⟩, fun _ => ?_, fun hnot => absurd h hnot⟩
    rw [exchanges_eq hsent, List.countP_append, countP_asks hquiet, List.countP_singleton,
      if_pos (decide_eq_true hpair)]
  · obtain ⟨n, rfl⟩ := hidle h
    refine ⟨⟨asks, hasks⟩, fun hdue => absurd hdue h, fun _ => ?_⟩
    exact (exchanges_eq hasks).trans (countP_asks hquiet)

end Counting

section Turn

variable {env : Environment} {user other : Ptr} {s : Server}

/-- In its turn a user exchanges exactly one position with a local user when one is due by the
clock of the visit, and then it records the stamp; otherwise it sends none and the entry stays. The
two branches that hold a message back are not reached. -/
theorem update_sends (env : Environment) (hlocal : (entry s user other).isSome) :
    ∃ t a, (update env user).run s = .ok () t ∧ VisitedFrom env user other s a ∧
      (Due (env.clock a.ticks) s user other → exchanges user other s t = 1 ∧
        recorded t user other = (s.heap other).lastPositionUpdate) ∧
      (¬ Due (env.clock a.ticks) s user other → exchanges user other s t = 0 ∧
        entry t user other = entry s user other) ∧
      ¬ RequestedLower user other (asked a user other) ∧
      ∀ interval, ¬ NotYetWithin user other (asked a user other) interval := by
  obtain ⟨t, hrun⟩ := update_run env user s
  obtain ⟨a, b, hfrom, hbefore, hvisit, hafter⟩ := update_visited hlocal hrun
  have hne : ¬ (user = user ∧ other ≠ other) := fun h => h.2 rfl
  have hdue : Due (env.clock a.ticks) a user other ↔ Due (env.clock a.ticks) s user other :=
    hbefore.only.due_iff hne _
  obtain ⟨b', hvisit', hvisited⟩ := updateAbout_visited env (s := a) rfl user other
  rw [hvisit] at hvisit'
  cases hvisit'
  obtain ⟨⟨new₂, hsent₂⟩, hone, hnone⟩ := exchanges_updateAbout rfl hvisit
  obtain ⟨new₁, hsent₁, -⟩ := hbefore.sent
  obtain ⟨new₃, hsent₃, -⟩ := hafter.sent
  have hcount : exchanges user other s t = exchanges user other a b := by
    have hrest : t.sent = a.sent ++ (new₂ ++ new₃) := by rw [hsent₃, hsent₂, List.append_assoc]
    rw [exchanges_trans hsent₁ hrest, exchanges_trans hsent₂ hsent₃, exchanges_skips hbefore,
      exchanges_skips hafter, zero_add, add_zero]
  have hentry : entry t user other = entry b user other := hafter.only.entry user other hne
  refine ⟨t, a, hrun, hfrom, fun h => ⟨hcount.trans (hone (hdue.mpr h)), ?_⟩,
    fun h => ⟨hcount.trans (hnone (hdue.not.mpr h)), ?_⟩, not_requestedLower a user other,
    not_notYetWithin a user other⟩
  · obtain ⟨att, hatt, hstamp⟩ := hvisited.due (hdue.mpr h)
    rw [recorded, hentry, hatt, Option.getD_some, hstamp]
    exact hbefore.only.stamp other
  · rw [hentry, hvisited.idle (hdue.not.mpr h)]
    exact hbefore.only.entry user other hne

end Turn

/-- A user with one local user, whose position has not been exchanged yet. -/
def neighbours : Server where
  __ := Server.initial fun _ => .zeroed
  heap _ := { User.construct .zeroed 1 1 (.aircraft (.construct .zeroed)) with
    localUsers := (∅ : AList fun _ => Attributes).insert 1 fun _ => 0 }

/-- Loops in the order of the keys. -/
def inOrder : Environment := .orderly fun _ _ => none

theorem neighbours_exchange :
    ∃ t a, (update inOrder 0).run neighbours = .ok () t ∧ VisitedFrom inOrder 0 1 neighbours a ∧
      (Due (inOrder.clock a.ticks) neighbours 0 1 → exchanges 0 1 neighbours t = 1 ∧
        recorded t 0 1 = (neighbours.heap 1).lastPositionUpdate) ∧
      (¬ Due (inOrder.clock a.ticks) neighbours 0 1 → exchanges 0 1 neighbours t = 0 ∧
        entry t 0 1 = entry neighbours 0 1) ∧
      ¬ RequestedLower 0 1 (asked a 0 1) ∧ ∀ interval, ¬ NotYetWithin 0 1 (asked a 0 1) interval :=
  update_sends inOrder rfl

end Win64Server.DueUpdates
