import Mathlib.Logic.Relation
import Mathlib.Tactic.Common

/-!
Loops that need not end. A round of a loop asks for another round, ends the loop with a result or
fails; the loop is run for a number of rounds and gives no answer when they are not enough. How
it ends does not depend on that number. An invariant with a variant shows that it ends, an
invariant alone what holds when it does.
-/
namespace Win64Server.Library

variable {σ ρ ε : Type}

inductive Round (σ ρ : Type)
  | again (s : σ)
  | done (r : ρ)

/-- At most so many rounds. -/
def loop (round : σ → Except ε (Round σ ρ)) : ℕ → σ → Option (Except ε ρ)
  | 0, _ => none
  | rounds + 1, s =>
    match round s with
    | .ok (.again t) => loop round rounds t
    | .ok (.done r) => some (.ok r)
    | .error e => some (.error e)

variable {round : σ → Except ε (Round σ ρ)} {s t : σ} {r r' : Except ε ρ}

theorem loop_mono {n m : ℕ} (h : loop round n s = some r) (hle : n ≤ m) :
    loop round m s = some r := by
  induction n generalizing m s with
  | zero => cases h
  | succ n ih =>
    obtain ⟨m, rfl⟩ : ∃ k, m = k + 1 := ⟨m - 1, by omega⟩
    rw [loop] at h ⊢
    split at h
    · exact ih h (by omega)
    · exact h
    · exact h

/-- The loop ends, given rounds enough. -/
def Ends (round : σ → Except ε (Round σ ρ)) (s : σ) (r : Except ε ρ) : Prop :=
  ∃ rounds, loop round rounds s = some r

/-- The states in which a round of the loop begins. -/
def Visits (round : σ → Except ε (Round σ ρ)) : σ → σ → Prop :=
  Relation.ReflTransGen fun s t => round s = .ok (.again t)

namespace Ends

theorem unique (h : Ends round s r) (h' : Ends round s r') : r = r' := by
  obtain ⟨n, hn⟩ := h
  obtain ⟨m, hm⟩ := h'
  have hn' := loop_mono hn (Nat.le_max_left n m)
  have hm' := loop_mono hm (Nat.le_max_right n m)
  exact Option.some.inj (hn'.symm.trans hm')

theorem of_done {v : ρ} (h : round s = .ok (.done v)) : Ends round s (.ok v) :=
  ⟨1, by rw [loop, h]⟩

theorem of_error {e : ε} (h : round s = .error e) : Ends round s (.error e) :=
  ⟨1, by rw [loop, h]⟩

theorem again_iff (h : round s = .ok (.again t)) : Ends round s r ↔ Ends round t r := by
  constructor
  · rintro ⟨n, hn⟩
    cases n with
    | zero => cases hn
    | succ n =>
      rw [loop, h] at hn
      exact ⟨n, hn⟩
  · rintro ⟨n, hn⟩
    exact ⟨n + 1, by rw [loop, h]; exact hn⟩

theorem visits_iff (h : Visits round s t) : Ends round s r ↔ Ends round t r := by
  induction h with
  | refl => exact Iff.rfl
  | tail _ hround ih => exact ih.trans (again_iff hround)

end Ends

/-- What a round leads to: a state with one property or an end with the other. -/
inductive Reaches (next : σ → Prop) (ends : Except ε ρ → Prop) : Except ε (Round σ ρ) → Prop
  | again {t : σ} (h : next t) : Reaches next ends (.ok (.again t))
  | done {v : ρ} (h : ends (.ok v)) : Reaches next ends (.ok (.done v))
  | error {e : ε} (h : ends (.error e)) : Reaches next ends (.error e)

variable {Inv : σ → Prop} {P : Except ε ρ → Prop}

/-- With an invariant and a number that gets smaller the loop ends. -/
theorem ends_of_variant (variant : σ → ℕ)
    (hround : ∀ s, Inv s → Reaches (fun t => Inv t ∧ variant t < variant s) P (round s))
    (hs : Inv s) : ∃ r, Ends round s r ∧ P r := by
  induction hn : variant s using Nat.strongRecOn generalizing s with
  | ind n ih =>
    have hstep := hround s hs
    generalize hrun : round s = x at hstep
    cases hstep with
    | again h =>
      obtain ⟨ht, hless⟩ := h
      obtain ⟨r, hends, hr⟩ := ih _ (hn ▸ hless) ht rfl
      exact ⟨r, (Ends.again_iff hrun).mpr hends, hr⟩
    | done h => exact ⟨_, .of_done hrun, h⟩
    | error h => exact ⟨_, .of_error hrun, h⟩

/-- With an invariant alone it is known how the loop ends if it does. -/
theorem Ends.of_inv (hround : ∀ s, Inv s → Reaches Inv P (round s)) (hs : Inv s)
    (h : Ends round s r) : P r := by
  obtain ⟨n, hn⟩ := h
  induction n generalizing s with
  | zero => cases hn
  | succ n ih =>
    have hstep := hround s hs
    rw [loop] at hn
    generalize round s = x at hstep hn
    cases hstep with
    | again h => exact ih h hn
    | done h => exact Option.some.inj hn ▸ h
    | error h => exact Option.some.inj hn ▸ h

theorem Visits.inv (hround : ∀ s t, Inv s → round s = .ok (.again t) → Inv t) (hs : Inv s)
    (h : Visits round s t) : Inv t := by
  induction h with
  | refl => exact hs
  | tail _ hstep ih => exact hround _ _ ih hstep

end Win64Server.Library
