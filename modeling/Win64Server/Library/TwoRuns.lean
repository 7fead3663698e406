import Win64Server.Library.Outcome

/-!
Two runs side by side. Programs are run from two states that a relation allows to differ in some
respects; the runs go the same way when both return the same value or throw the same exception,
again in related states. A loop goes the same way when each of its rounds does, from whatever
states it begins in.
-/
namespace Win64Server.Outcome

variable {ε σ α β : Type}

/-- Two runs end alike: in states related by `Q` with the same value, or in states related by `E`
with the same exception. -/
inductive Matched (E Q : σ → σ → Prop) : EStateM.Result ε σ α → EStateM.Result ε σ α → Prop
  | ok (a : α) {s t : σ} (h : Q s t) : Matched E Q (.ok a s) (.ok a t)
  | error (e : ε) {s t : σ} (h : E s t) : Matched E Q (.error e s) (.error e t)

/-- Run from related states, two programs end alike. -/
def Coupled (R : σ → σ → Prop) (x y : EStateM ε σ α) : Prop :=
  ∀ s t, R s t → Matched R R (x.run s) (y.run t)

/-- If the program returns from here, it does so in a state with the property. -/
def After (x : EStateM ε σ α) (P : σ → Prop) (s : σ) : Prop :=
  returned (x.run s) = true → P (finalState (x.run s))

instance (x : EStateM ε σ α) (P : σ → Prop) [DecidablePred P] : DecidablePred (After x P) :=
  fun s => inferInstanceAs (Decidable (returned (x.run s) = true → P (finalState (x.run s))))

theorem After.of_ok {x : EStateM ε σ α} {P : σ → Prop} {s t : σ} {a : α} (h : After x P s)
    (hrun : x.run s = .ok a t) : P t := by
  rw [After, hrun] at h
  exact h rfl

/-- `P` holds at the beginning of each round of a loop over these elements, as long as the rounds
return. -/
def EachRound (P : α → σ → Prop) (f : α → EStateM ε σ PUnit) : List α → σ → Prop
  | [], _ => True
  | a :: xs, s => P a s ∧ After (f a) (EachRound P f xs) s

instance decidableEachRound {P : α → σ → Prop} [∀ a, DecidablePred (P a)]
    (f : α → EStateM ε σ PUnit) : ∀ xs : List α, DecidablePred (EachRound P f xs)
  | [], _ => .isTrue trivial
  | a :: xs, s =>
    have : DecidablePred (EachRound P f xs) := decidableEachRound f xs
    inferInstanceAs (Decidable (P a s ∧ After (f a) (EachRound P f xs) s))

namespace Matched

variable {E Q : σ → σ → Prop}

theorem mono {E' Q' : σ → σ → Prop} {r r' : EStateM.Result ε σ α} (h : Matched E Q r r')
    (hE : ∀ s t, E s t → E' s t) (hQ : ∀ s t, Q s t → Q' s t) : Matched E' Q' r r' := by
  cases h with
  | ok a h => exact .ok a (hQ _ _ h)
  | error e h => exact .error e (hE _ _ h)

theorem finalState {r r' : EStateM.Result ε σ α} (h : Matched Q Q r r') :
    Q (finalState r) (finalState r') := by
  cases h with
  | ok a h => exact h
  | error e h => exact h

/-- When the runs return, what follows continues from related states. -/
theorem bind {R : σ → σ → Prop} {x y : EStateM ε σ α} {f g : α → EStateM ε σ β} {s t : σ}
    (hx : Matched E R (x.run s) (y.run t))
    (hf : ∀ a s' t', x.run s = .ok a s' → R s' t' → Matched E Q ((f a).run s') ((g a).run t')) :
    Matched E Q ((x >>= f).run s) ((y >>= g).run t) := by
  rw [EStateM.run_bind, EStateM.run_bind]
  cases hrun : x.run s with
  | ok a s' =>
    rw [hrun] at hx
    generalize y.run t = r at hx
    cases hx with
    | ok _ h => exact hf a s' _ hrun h
  | error e s' =>
    rw [hrun] at hx
    generalize y.run t = r at hx
    cases hx with
    | error _ h => exact .error e h

/-- A loop whose rounds end alike whenever `P` holds where they begin. -/
theorem forM {P : α → σ → Prop} {f g : α → EStateM ε σ PUnit} {xs : List α}
    (hf : ∀ a ∈ xs, ∀ s t, Q s t → P a s → Matched Q Q ((f a).run s) ((g a).run t)) {s t : σ}
    (h : Q s t) (hrounds : EachRound P f xs s) :
    Matched Q Q ((xs.forM f).run s) ((xs.forM g).run t) := by
  induction xs generalizing s t with
  | nil => exact .ok _ h
  | cons a xs ih =>
    simp only [List.forM_eq_forM, List.forM_cons] at ih ⊢
    refine (hf a (by simp) s t h hrounds.1).bind fun u s' t' hrun h' => ?_
    exact ih (fun b hb => hf b (by simp [hb])) h' (hrounds.2.of_ok hrun)

end Matched

namespace Coupled

variable {R : σ → σ → Prop}

theorem pure (a : α) : Coupled R (pure a : EStateM ε σ α) (pure a) := fun _ _ h => .ok a h

theorem throw (e : ε) : Coupled R (throw e : EStateM ε σ α) (throw e) := fun _ _ h => .error e h

theorem modify {f g : σ → σ} (h : ∀ s t, R s t → R (f s) (g t)) :
    Coupled R (modify f : EStateM ε σ PUnit) (modify g) := fun s t hst => .ok _ (h s t hst)

theorem bind {x y : EStateM ε σ α} {f g : α → EStateM ε σ β} (hx : Coupled R x y)
    (hf : ∀ a, Coupled R (f a) (g a)) : Coupled R (x >>= f) (y >>= g) :=
  fun s t h => (hx s t h).bind fun a s' t' _ h' => hf a s' t' h'

/-- What follows sees two related states. -/
theorem get_bind {f g : σ → EStateM ε σ α}
    (hf : ∀ s t, R s t → Matched R R ((f s).run s) ((g t).run t)) :
    Coupled R (get >>= f) (get >>= g) := fun s t h => hf s t h

theorem map {f : α → β} {x y : EStateM ε σ α} (hx : Coupled R x y) :
    Coupled R (f <$> x) (f <$> y) := by
  intro s t h
  have hr := hx s t h
  rw [run_map, run_map]
  cases hrun : x.run s with
  | ok a s' =>
    rw [hrun] at hr
    generalize y.run t = r at hr
    cases hr with
    | ok _ h' => exact .ok _ h'
  | error e s' =>
    rw [hrun] at hr
    generalize y.run t = r at hr
    cases hr with
    | error _ h' => exact .error e h'

theorem ite {c : Prop} [Decidable c] {x x' y y' : EStateM ε σ α} (hx : Coupled R x y)
    (hx' : Coupled R x' y') : Coupled R (if c then x else x') (if c then y else y') := by
  split
  · exact hx
  · exact hx'

theorem forM {f g : α → EStateM ε σ PUnit} {xs : List α} (hf : ∀ a ∈ xs, Coupled R (f a) (g a)) :
    Coupled R (xs.forM f) (xs.forM g) := by
  induction xs with
  | nil => exact pure PUnit.unit
  | cons a xs ih =>
    simp only [List.forM_eq_forM, List.forM_cons] at ih ⊢
    exact bind (hf a (by simp)) fun _ => ih fun b hb => hf b (by simp [hb])

end Coupled

end Win64Server.Outcome
