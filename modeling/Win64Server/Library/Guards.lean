import Win64Server.Library.Outcome

/-!
Programs under an invariant. From a state with the invariant the program leads to a state with the
invariant, and what it may throw there is limited. Instances build the fact for a program from
those for its parts.
-/
namespace Win64Server.Outcome

variable {ε σ α β : Type}

class Guarded (I : σ → Prop) (P : ε → Prop) (x : EStateM ε σ α) : Prop where
  keeps : ∀ s, I s → I (finalState (x.run s))
  raised : ∀ s e t, I s → x.run s = .error e t → P e

namespace Guarded

variable {I J : σ → Prop} {P : ε → Prop}

theorem ok {x : EStateM ε σ α} (h : Guarded I P x) {s t : σ} {a : α} (hs : I s)
    (hrun : x.run s = .ok a t) : I t := by
  have hkeeps := h.keeps s hs
  rwa [hrun] at hkeeps

theorem error {x : EStateM ε σ α} (h : Guarded I P x) {s t : σ} {e : ε} (hs : I s)
    (hrun : x.run s = .error e t) : I t := by
  have hkeeps := h.keeps s hs
  rwa [hrun] at hkeeps

/-- A program that leaves the invariant alone, by what it may throw from any state. -/
theorem of_raises {x : EStateM ε σ α} (hkeeps : ∀ s, I s → I (finalState (x.run s)))
    (h : Raises P x) : Guarded I P x := ⟨hkeeps, fun s e t _ => h.raised s e t⟩

/-- What the program does from a state, by a state that the invariant is about. -/
theorem of_run {x : EStateM ε σ α}
    (h : ∀ s, I s → (∃ a t, x.run s = .ok a t ∧ I t) ∨ ∃ e t, x.run s = .error e t ∧ I t ∧ P e) :
    Guarded I P x where
  keeps s hs := by
    rcases h s hs with ⟨a, t, hrun, ht⟩ | ⟨e, t, hrun, ht, -⟩ <;> rw [hrun] <;> exact ht
  raised s e t hs hrun := by
    rcases h s hs with ⟨a, t', hok, -⟩ | ⟨e', t', herror, -, he⟩
    · rw [hok] at hrun
      cases hrun
    · rw [herror] at hrun
      cases hrun
      exact he

instance pure (a : α) : Guarded I P (pure a : EStateM ε σ α) :=
  ⟨fun _ hs => hs, fun _ _ _ _ h => by cases h⟩

instance get : Guarded I P (get : EStateM ε σ σ) :=
  ⟨fun _ hs => hs, fun _ _ _ _ h => by cases h⟩

theorem modify {f : σ → σ} (hf : ∀ s, I s → I (f s)) :
    Guarded I P (modify f : EStateM ε σ PUnit) :=
  ⟨hf, fun _ _ _ _ h => by cases h⟩

instance throw (e : ε) [he : Fact (P e)] : Guarded I P (throw e : EStateM ε σ α) where
  keeps s hs := hs
  raised s e' t _ h := by
    cases h
    exact he.out

instance bind (x : EStateM ε σ α) (f : α → EStateM ε σ β) [hx : Guarded I P x]
    [hf : ∀ a, Guarded I P (f a)] : Guarded I P (x >>= f) where
  keeps s hs := by
    cases hrun : x.run s with
    | ok a t =>
      rw [run_bind_of_ok hrun]
      exact (hf a).keeps t (hx.ok hs hrun)
    | error e t =>
      rw [run_bind_of_error hrun]
      exact hx.error hs hrun
  raised s e t hs hrun := by
    rcases run_bind_error.mp hrun with hfirst | ⟨a, u, hfirst, hsecond⟩
    · exact hx.raised s e t hs hfirst
    · exact (hf a).raised u e t (hx.ok hs hfirst) hsecond

theorem of_bind {x : EStateM ε σ α} {f : α → EStateM ε σ β} (hx : Guarded I P x)
    (hf : ∀ a, Guarded I P (f a)) : Guarded I P (x >>= f) :=
  inferInstance

instance map (f : α → β) (x : EStateM ε σ α) [hx : Guarded I P x] : Guarded I P (f <$> x) :=
  of_bind hx fun a => inferInstanceAs (Guarded I P (Pure.pure (f a) : EStateM ε σ β))

instance ite (c : Prop) [Decidable c] (x y : EStateM ε σ α) [hx : Guarded I P x]
    [hy : Guarded I P y] : Guarded I P (if c then x else y) := by
  split
  · exact hx
  · exact hy

theorem of_ite {c : Prop} [Decidable c] {x y : EStateM ε σ α} (hx : Guarded I P x)
    (hy : Guarded I P y) : Guarded I P (if c then x else y) :=
  inferInstance

theorem of_forM {xs : List α} {f : α → EStateM ε σ PUnit} (hf : ∀ a ∈ xs, Guarded I P (f a)) :
    Guarded I P (xs.forM f) := by
  induction xs with
  | nil => exact pure PUnit.unit
  | cons a xs ih =>
    rw [List.forM_eq_forM, List.forM_cons]
    exact of_bind (hf a List.mem_cons_self) fun _ =>
      ih fun b hb => hf b (List.mem_cons_of_mem a hb)

instance forM (xs : List α) (f : α → EStateM ε σ PUnit) [hf : ∀ a, Guarded I P (f a)] :
    Guarded I P (xs.forM f) := of_forM fun a _ => hf a

/-- A program that from each state goes on like one that is guarded by more. -/
theorem of_like {x : EStateM ε σ α} (h : ∀ s, I s → ∃ (J : σ → Prop) (y : EStateM ε σ α) (m : σ),
    J m ∧ (∀ t, J t → I t) ∧ Guarded J P y ∧ x.run s = y.run m) : Guarded I P x where
  keeps s hs := by
    obtain ⟨J, y, m, hJ, hJI, hy, hrun⟩ := h s hs
    rw [hrun]
    exact hJI _ (hy.keeps m hJ)
  raised s e t hs hrun := by
    obtain ⟨J, y, m, hJ, -, hy, hsame⟩ := h s hs
    exact hy.raised m e t hJ (hsame.symm.trans hrun)

end Guarded

end Win64Server.Outcome
