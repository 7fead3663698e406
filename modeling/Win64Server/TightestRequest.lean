import Win64Server.ServerEffects
import Win64Server.Library.MarkedMinimum

/-!
What `adjust_time` makes of the requests of the local users. It looks for the smallest of them, in
the order in which the hash map presents them, with the default value standing for none seen yet.
-/
namespace Win64Server.TightestRequest

open Outcome Library Server

/-- The intervals that the local users ask of a user of this type. -/
def requests (s : Server) (user : Ptr) : List ℤ :=
  (s.heap user).localUsers.keys.map fun other =>
    (s.heap other).getRequestedInterval (s.heap user).getType

/-- The same in the order of the loop that `adjust_time` makes. -/
def requestsMet (env : Environment) (s : Server) (user : Ptr) : List ℤ :=
  (env.arrange s.ticks (s.heap user).localUsers.keys).map fun other =>
    (s.heap other).getRequestedInterval (s.heap user).getType

/-- The interval is the smallest request, or the default value when there is none. -/
def Tightest (s : Server) (user : Ptr) (time : ℤ) : Prop :=
  LeastOr defaultUpdateTime (requests s user) time

/-- The default value is the smallest request, and the local user met last asks for more. -/
def LastAboveDefault (requests : List ℤ) : Prop := Forgets defaultUpdateTime requests

/-- The default value is the smallest request, but not the only one. -/
def AboveDefault (requests : List ℤ) : Prop :=
  defaultUpdateTime ∈ requests ∧ (∀ r ∈ requests, defaultUpdateTime ≤ r) ∧
    ∃ r ∈ requests, r ≠ defaultUpdateTime

theorem tightest_eq (requests : List ℤ) :
    tightest requests = runningMin defaultUpdateTime requests := by
  unfold tightest runningMin
  congr

theorem requestsMet_perm (env : Environment) (s : Server) (user : Ptr) :
    (requestsMet env s user).Perm (requests s user) :=
  (env.arrange_perm _ _).map _

/-- The interval a user is left with is the one computed, also when it had that one before. -/
theorem adjustTime_interval (env : Environment) (s : Server) (user : Ptr) :
    ∃ t, (adjustTime env user).run s = .ok () t ∧
      (t.heap user).updateInterval = tightest (requestsMet env s user) := by
  have hrun : (adjustTime env user).run s =
      (if tightest (requestsMet env s user) ≠ (s.heap user).updateInterval then (do
        updateUser user fun u => { u with updateInterval := tightest (requestsMet env s user) }
        Server.sendTimeChange user (tightest (requestsMet env s user)))
      else return : ServerM Unit).run { s with ticks := s.ticks + 1 } := rfl
  rw [hrun]
  split
  · exact ⟨_, rfl, by simp⟩
  · rename_i hsame
    exact ⟨_, rfl, (not_not.mp hsame).symm⟩

/-- Loops in the order of the keys, except that one list is presented in the order of another. -/
def presenting (met stored : List Ptr) (h : met.Perm stored) : Environment where
  arrange _ users := if users = stored then met else users
  arrange_perm _ users := by
    split
    · rename_i heq
      rw [heq]
      exact h
    · exact .refl users
  dist _ _ := none
  clock _ := 0

/-- Every order of the requests is the order of some loop over the local users. -/
theorem exists_requestsMet {s : Server} {user : Ptr} {order : List ℤ}
    (h : order.Perm (requests s user)) : ∃ env, requestsMet env s user = order := by
  let request (other : Ptr) : ℤ := (s.heap other).getRequestedInterval (s.heap user).getType
  have hkeys := congrFun (congrFun (List.eq_map_comp_perm request) order)
    (s.heap user).localUsers.keys
  obtain ⟨users, horder, hperm⟩ := hkeys.mpr h
  exact ⟨presenting users _ hperm, by simp [requestsMet, presenting, horder, request]⟩

/-- The new interval is the smallest request, unless that is the default value and the local user
met last asks for more; so it is the smallest in every order unless the default value is the
smallest request and not the only one. -/
theorem interval_tightest_iff (s : Server) (user : Ptr) :
    (∀ env, ∃ t, (adjustTime env user).run s = .ok () t ∧
      (Tightest s user (t.heap user).updateInterval ↔
        ¬ LastAboveDefault (requestsMet env s user))) ∧
    ((∀ env t, (adjustTime env user).run s = .ok () t →
      Tightest s user (t.heap user).updateInterval) ↔ ¬ AboveDefault (requests s user)) := by
  constructor
  · intro env
    obtain ⟨t, hrun, hinterval⟩ := adjustTime_interval env s user
    refine ⟨t, hrun, ?_⟩
    rw [hinterval, tightest_eq, Tightest, ← LeastOr.perm (requestsMet_perm env s user)]
    exact runningMin_least_iff
  · rw [AboveDefault, ← runningMin_least_of_perm_iff]
    constructor
    · intro hall order hperm
      obtain ⟨env, horder⟩ := exists_requestsMet hperm
      obtain ⟨t, hrun, hinterval⟩ := adjustTime_interval env s user
      rw [← horder, ← tightest_eq, ← hinterval]
      exact hall env t hrun
    · intro hall env t hrun
      obtain ⟨t', hrun', hinterval⟩ := adjustTime_interval env s user
      obtain rfl : t' = t := by
        rw [hrun'] at hrun
        cases hrun
        rfl
      rw [hinterval, tightest_eq]
      exact hall _ (requestsMet_perm env s user)

/-- User 0 sees users 1 and 2, which ask for the default interval and for a longer one. -/
def defaultAndLonger : Server where
  __ := Server.initial fun _ => .zeroed
  heap p :=
    { User.construct .zeroed 0 0 (.controller ⟨0, 0⟩) with
      localUsers := if p = 0 then (AList.insert 1 0 (.singleton 2 0)) else ∅
      requestTime := fun _ => if p = 1 then 2000 else 3000 }

/-- Met in this order, the longer interval is taken. -/
theorem longer_taken : ¬ ∀ (env : Environment) (s : Server) (user : Ptr),
    ∃ t, (adjustTime env user).run s = .ok () t ∧ Tightest s user (t.heap user).updateInterval := by
  intro hall
  obtain ⟨t, hrun, htightest⟩ := hall (.orderly fun _ _ => none) defaultAndLonger 0
  obtain ⟨t', hrun', hinterval⟩ :=
    adjustTime_interval (.orderly fun _ _ => none) defaultAndLonger 0
  obtain rfl : t' = t := by
    rw [hrun'] at hrun
    cases hrun
    rfl
  have hmet : tightest (requestsMet (.orderly fun _ _ => none) defaultAndLonger 0) = 3000 := by
    decide
  rw [hinterval, hmet] at htightest
  rcases htightest with ⟨hnil, -⟩ | ⟨-, hlow⟩
  · exact absurd hnil (by decide)
  · have hle : (3000 : ℤ) ≤ 2000 := hlow (show 2000 ∈ requests defaultAndLonger 0 by decide)
    omega

end Win64Server.TightestRequest
