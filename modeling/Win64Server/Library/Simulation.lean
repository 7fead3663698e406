import Win64Server.Library.Outcome

/-!
Two machines that do the same. Programs over different states are run side by side from states
that a relation connects; the rules put together programs that both return and arrive in states
that a relation connects again, which may be another one after each step.
-/
namespace Win64Server.Outcome

variable {ε σ τ α β : Type}

/-- Two runs of different machines end alike: with the same value or the same exception, in related
states. -/
inductive EndsAlike (R : σ → τ → Prop) : EStateM.Result ε σ α → EStateM.Result ε τ α → Prop
  | ok (a : α) {s : σ} {t : τ} (h : R s t) : EndsAlike R (.ok a s) (.ok a t)
  | error (e : ε) {s : σ} {t : τ} (h : R s t) : EndsAlike R (.error e s) (.error e t)

theorem EndsAlike.map {R : σ → τ → Prop} {x : EStateM ε σ α} {y : EStateM ε τ α} {s : σ} {t : τ}
    (h : EndsAlike R (x.run s) (y.run t)) (f : α → β) :
    EndsAlike R ((f <$> x).run s) ((f <$> y).run t) := by
  rw [run_map, run_map]
  generalize x.run s = r at h
  generalize y.run t = r' at h
  cases h with
  | ok a h => exact .ok (f a) h
  | error e h => exact .error e h

theorem EndsAlike.finalState {R : σ → τ → Prop} {r : EStateM.Result ε σ α}
    {r' : EStateM.Result ε τ α} (h : EndsAlike R r r') : R (finalState r) (finalState r') := by
  cases h with
  | ok a h => exact h
  | error e h => exact h

/-- From states related by `R` both programs return, in states related by `R'`. -/
def Simulates (R R' : σ → τ → Prop) (x : EStateM ε σ PUnit) (y : EStateM ε τ PUnit) : Prop :=
  ∀ s t, R s t → ∃ s' t', x.run s = .ok .unit s' ∧ y.run t = .ok .unit t' ∧ R' s' t'

namespace Simulates

variable {R R' R'' : σ → τ → Prop}

theorem pure : Simulates R R (pure .unit : EStateM ε σ PUnit) (pure .unit : EStateM ε τ PUnit) :=
  fun s t h => ⟨s, t, rfl, rfl, h⟩

theorem modify {f : σ → σ} {g : τ → τ} (h : ∀ s t, R s t → R' (f s) (g t)) :
    Simulates R R' (modify f : EStateM ε σ PUnit) (modify g : EStateM ε τ PUnit) :=
  fun s t hst => ⟨f s, g t, rfl, rfl, h s t hst⟩

theorem bind {x : EStateM ε σ PUnit} {y : EStateM ε τ PUnit} {f : PUnit → EStateM ε σ PUnit}
    {g : PUnit → EStateM ε τ PUnit} (hx : Simulates R R' x y)
    (hf : Simulates R' R'' (f .unit) (g .unit)) : Simulates R R'' (x >>= f) (y >>= g) := by
  intro s t h
  obtain ⟨s', t', hrun, hrun', h'⟩ := hx s t h
  obtain ⟨s'', t'', hrest, hrest', h''⟩ := hf s' t' h'
  exact ⟨s'', t'', (run_bind_of_ok hrun).trans hrest, (run_bind_of_ok hrun').trans hrest', h''⟩

/-- A step that only the first machine takes. -/
theorem bind_left {x : EStateM ε σ PUnit} {f : PUnit → EStateM ε σ PUnit}
    {y : EStateM ε τ PUnit} (hx : ∀ s t, R s t → x.run s = .ok .unit s)
    (hf : Simulates R R' (f .unit) y) : Simulates R R' (x >>= f) y := by
  intro s t h
  obtain ⟨s', t', hrun, hrun', h'⟩ := hf s t h
  exact ⟨s', t', (run_bind_of_ok (hx s t h)).trans hrun, hrun', h'⟩

theorem forM {α : Type} {f : α → EStateM ε σ PUnit} {g : α → EStateM ε τ PUnit} {xs : List α}
    (h : ∀ a ∈ xs, Simulates R R (f a) (g a)) : Simulates R R (xs.forM f) (xs.forM g) := by
  induction xs with
  | nil => exact pure
  | cons a xs ih =>
    simp only [List.forM_eq_forM, List.forM_cons] at ih ⊢
    exact (h a List.mem_cons_self).bind (ih fun b hb => h b (List.mem_cons_of_mem _ hb))

end Simulates

end Win64Server.Outcome
