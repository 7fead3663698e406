import Win64Server.Registry
import Mathlib.Data.List.Range

/-!
The pool of client indices. A login takes the front of the queue and a removal puts the index of
the removed user at its end, so the indices in use and the free ones stay apart and in range as
long as no login finds the queue empty: such a login is placed under the index -1.
-/
namespace Win64Server.Registry

open Library

/-- Users have different indices, all of them in range, and none of them is free. -/
structure Pooled (r : Registry) : Prop where
  distinct : ∀ s s' u u', r.manager.clients.lookup s = some u →
    r.manager.clients.lookup s' = some u' → u ≠ u' → (r.heap u).index ≠ (r.heap u').index
  inRange : ∀ s u, r.manager.clients.lookup s = some u →
    0 ≤ (r.heap u).index ∧ (r.heap u).index < maxClients
  nodup : r.manager.availableIndices.Nodup
  apart : ∀ s u, r.manager.clients.lookup s = some u →
    (r.heap u).index ∉ r.manager.availableIndices

/-- The free indices are in range. -/
def FreeInRange (r : Registry) : Prop :=
  ∀ i ∈ r.manager.availableIndices, 0 ≤ i ∧ i < maxClients

theorem login_availableIndices (r : Registry) (clientSocket : Socket) (user : User) :
    (r.login clientSocket user).manager.availableIndices = r.manager.availableIndices.tail := by
  change r.manager.provideIndex.2.availableIndices = _
  unfold ClientManager.provideIndex ClientManager.getAvailableIndex
  cases h : r.manager.availableIndices with
  | nil => exact h
  | cons i rest => rfl

theorem nextIndex_of_cons {r : Registry} {i : ℤ} {rest : List ℤ}
    (h : r.manager.availableIndices = i :: rest) : r.nextIndex = i := by
  simp only [nextIndex, ClientManager.provideIndex, ClientManager.getAvailableIndex, h]

theorem nextIndex_of_nil {r : Registry} (h : r.manager.availableIndices = []) :
    r.nextIndex = -1 := by
  simp only [nextIndex, ClientManager.provideIndex, ClientManager.getAvailableIndex, h]

/-- A user after a login is the new one or an older one on another socket. -/
theorem login_lookup {r : Registry} (hsound : r.Sound) {clientSocket s : Socket} {user : User}
    {u : Ptr} (h : (r.login clientSocket user).manager.clients.lookup s = some u) :
    (u = r.next ∧ ((r.login clientSocket user).heap u).index = r.nextIndex) ∨
      (r.manager.clients.lookup s = some u ∧
        (r.login clientSocket user).heap u = r.heap u) := by
  rw [login_clients] at h
  rcases lookup_insert_iff.mp h with ⟨-, rfl⟩ | ⟨-, hold⟩
  · exact Or.inl ⟨rfl, by rw [login_heap_self]; rfl⟩
  · exact Or.inr ⟨hold, login_heap_old _ _ _ (hsound.old s u hold)⟩

/-- The user of a login that finds no index is out of range. -/
theorem not_pooled_of_nil {r : Registry} (hnil : r.manager.availableIndices = [])
    {clientSocket : Socket} {user : User} : ¬ (r.login clientSocket user).Pooled := by
  intro h
  have hplaced : (r.login clientSocket user).manager.clients.lookup clientSocket =
      some r.next := by
    rw [login_clients, AList.lookup_insert]
  have hrange := (h.inRange clientSocket r.next hplaced).1
  rw [login_heap_self] at hrange
  change 0 ≤ r.nextIndex at hrange
  rw [nextIndex_of_nil hnil] at hrange
  exact absurd hrange (by decide)

/-- A login keeps the indices apart exactly when it finds one in the queue. -/
theorem Pooled.login_iff {r : Registry} (hsound : r.Sound) (hfree : r.FreeInRange) (h : r.Pooled)
    {clientSocket : Socket} {user : User} :
    (r.login clientSocket user).Pooled ↔ r.manager.availableIndices ≠ [] := by
  constructor
  · exact fun hnew hnil => not_pooled_of_nil hnil hnew
  · intro hne
    obtain ⟨i, rest, hcons⟩ := List.exists_cons_of_ne_nil hne
    have hnext := nextIndex_of_cons hcons
    have hnodup := h.nodup
    rw [hcons, List.nodup_cons] at hnodup
    have hmem : i ∈ r.manager.availableIndices := by rw [hcons]; exact List.mem_cons_self
    -- No older user has the index that is handed out.
    have hunused : ∀ s u, r.manager.clients.lookup s = some u → (r.heap u).index ≠ i :=
      fun s u hu hi => h.apart s u hu (hi ▸ hmem)
    refine ⟨?_, ?_, ?_, ?_⟩
    · intro s s' u u' hu hu' hne'
      rcases login_lookup hsound hu with ⟨rfl, hi⟩ | ⟨hold, hheap⟩
      · rcases login_lookup hsound hu' with ⟨rfl, -⟩ | ⟨hold', hheap'⟩
        · exact absurd rfl hne'
        · rw [hi, hnext, hheap']
          exact (hunused s' u' hold').symm
      · rcases login_lookup hsound hu' with ⟨rfl, hi'⟩ | ⟨hold', hheap'⟩
        · rw [hi', hnext, hheap]
          exact hunused s u hold
        · rw [hheap, hheap']
          exact h.distinct s s' u u' hold hold' hne'
    · intro s u hu
      rcases login_lookup hsound hu with ⟨rfl, hi⟩ | ⟨hold, hheap⟩
      · rw [hi, hnext]
        exact hfree i hmem
      · rw [hheap]
        exact h.inRange s u hold
    · rw [login_availableIndices, hcons]
      exact hnodup.2
    · intro s u hu
      rw [login_availableIndices, hcons, List.tail_cons]
      rcases login_lookup hsound hu with ⟨rfl, hi⟩ | ⟨hold, hheap⟩
      · rw [hi, hnext]
        exact hnodup.1
      · rw [hheap]
        intro hrest
        exact h.apart s u hold (hcons ▸ List.mem_cons_of_mem i hrest)

/-- A removal keeps them apart in any case. -/
theorem Pooled.remove {r : Registry} (hsound : r.Sound) (h : r.Pooled) {clientSocket : Socket} :
    (r.remove clientSocket).Pooled := by
  cases hu : r.manager.clients.lookup clientSocket with
  | none => rwa [remove_of_none hu]
  | some u =>
    rw [remove_of_some hu]
    have hother : ∀ s v, (r.manager.clients.erase clientSocket).lookup s = some v →
        r.manager.clients.lookup s = some v ∧ v ≠ u := by
      intro s v hv
      obtain ⟨hs, hold⟩ := lookup_erase_iff.mp hv
      exact ⟨hold, fun hvu => hs (hsound.once s clientSocket u (hvu ▸ hold) hu)⟩
    refine ⟨?_, ?_, ?_, ?_⟩
    · intro s s' v v' hv hv' hne
      exact h.distinct s s' v v' (hother s v hv).1 (hother s' v' hv').1 hne
    · intro s v hv
      exact h.inRange s v (hother s v hv).1
    · exact List.nodup_append.mpr ⟨h.nodup, List.nodup_singleton _, by
        intro i hi j hj hij
        rw [List.mem_singleton] at hj
        exact h.apart clientSocket u hu (hj ▸ hij ▸ hi)⟩
    · intro s v hv hmem
      obtain ⟨hold, hne⟩ := hother s v hv
      rcases List.mem_append.mp hmem with hfree | hlast
      · exact h.apart s v hold hfree
      · exact h.distinct s clientSocket v u hold hu hne (List.mem_singleton.mp hlast)

theorem FreeInRange.step {r : Registry} (hfree : r.FreeInRange) (h : r.Pooled) (e : Event) :
    (r.step e).FreeInRange := by
  intro i hi
  cases e with
  | login clientSocket user =>
    change i ∈ (r.login clientSocket user).manager.availableIndices at hi
    rw [login_availableIndices] at hi
    exact hfree i (List.mem_of_mem_tail hi)
  | remove clientSocket =>
    change i ∈ (r.remove clientSocket).manager.availableIndices at hi
    cases hu : r.manager.clients.lookup clientSocket with
    | none =>
      rw [remove_of_none hu] at hi
      exact hfree i hi
    | some u =>
      rw [remove_of_some hu] at hi
      rcases List.mem_append.mp hi with hold | hlast
      · exact hfree i hold
      · rw [List.mem_singleton.mp hlast]
        exact h.inRange clientSocket u hu

theorem start_availableIndices :
    start.manager.availableIndices = (List.range maxClients).map Int.ofNat := rfl

theorem pooled_start : start.Pooled where
  distinct s s' u u' hu := by cases hu
  inRange s u hu := by cases hu
  nodup := by
    rw [start_availableIndices]
    exact List.nodup_range.map fun i j hij => Int.ofNat.inj hij
  apart s u hu := by cases hu

theorem freeInRange_start : start.FreeInRange := by
  intro i hi
  rw [start_availableIndices, List.mem_map] at hi
  obtain ⟨n, hn, rfl⟩ := hi
  exact ⟨Int.natCast_nonneg n, Int.ofNat_lt.mpr (List.mem_range.mp hn)⟩

/-- In a run from an empty registry the indices are in range, unique and apart from the free ones
after every step exactly when no login finds the queue empty. -/
theorem pooled_along_run_iff (events : List Event) :
    (∀ before, before <+: events → (start.run before).Pooled) ↔
      ∀ before clientSocket user, before ++ [.login clientSocket user] <+: events →
        (start.run before).manager.availableIndices ≠ [] := by
  have hinv : ∀ (r : Registry) event, r.Sound ∧ r.FreeInRange → r.Pooled →
      (r.step event).Sound ∧ (r.step event).FreeInRange := by
    intro r event ⟨hsound, hfree⟩ h
    exact ⟨hsound.step event, hfree.step h event⟩
  have hlogin : ∀ (r : Registry) clientSocket user, r.Sound ∧ r.FreeInRange → r.Pooled →
      ((r.login clientSocket user).Pooled ↔ r.manager.availableIndices ≠ []) := by
    intro r clientSocket user ⟨hsound, hfree⟩ h
    exact h.login_iff hsound hfree
  refine along_logins_iff hinv hlogin ?_ ⟨sound_start, freeInRange_start⟩ pooled_start events
  intro r clientSocket ⟨hsound, _⟩ h
  exact h.remove hsound

/-- So many logins take so many indices from the front of the queue. -/
theorem logins_availableIndices (clientSocket : Socket) (user : User) (n : ℕ) :
    (start.run (List.replicate n (.login clientSocket user))).manager.availableIndices =
      start.manager.availableIndices.drop n := by
  induction n with
  | zero => rfl
  | succ n ih =>
    rw [List.replicate_succ', run_concat]
    change ((start.run _).login clientSocket user).manager.availableIndices = _
    rw [login_availableIndices, ih, List.tail_drop]

/-- One login more than there are indices. -/
theorem exhausted_login_out_of_range : ¬ ∀ events, (start.run events).Pooled := by
  intro h
  let user := User.construct .zeroed 1 7 (.controller ⟨0, 0⟩)
  have hfull := logins_availableIndices 1 user maxClients
  have hlen : start.manager.availableIndices.length = maxClients := by
    rw [start_availableIndices, List.length_map, List.length_range]
  have hnil : start.manager.availableIndices.drop maxClients = [] :=
    List.drop_eq_nil_of_le hlen.le
  rw [hnil] at hfull
  have hnew := h (List.replicate maxClients (.login 1 user) ++ [.login 1 user])
  rw [run_concat] at hnew
  exact not_pooled_of_nil hfull hnew

end Win64Server.Registry
