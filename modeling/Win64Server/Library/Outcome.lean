import Mathlib.Order.Defs.PartialOrder
import Mathlib.Tactic.Basic
import Mathlib.Tactic.Common
import Mathlib.Logic.Basic

/-!
Rules for programs with state and exceptions. A program is an `EStateM ε σ α`: it ends with a
value or with an exception, and in both cases with a state. The inversion rules take a
successful run apart at its binds; `Keeps` collects what every run does to the state, whichever
way it ends, and is closed under sequencing and loops when the relation is a preorder.
-/
namespace Win64Server.Outcome

variable {ε σ α β : Type}

/-- The state in which a run ended, by value or by exception. -/
def finalState : EStateM.Result ε σ α → σ
  | .ok _ s => s
  | .error _ s => s

@[simp] theorem finalState_ok (a : α) (s : σ) :
    finalState (.ok a s : EStateM.Result ε σ α) = s := rfl

@[simp] theorem finalState_error (e : ε) (s : σ) :
    finalState (.error e s : EStateM.Result ε σ α) = s := rfl

/-- Whether a run ended by value. -/
def returned : EStateM.Result ε σ α → Bool
  | .ok _ _ => true
  | .error _ _ => false

theorem run_eq_ok {x : EStateM ε σ PUnit} {s : σ} (h : returned (x.run s) = true) :
    x.run s = .ok PUnit.unit (finalState (x.run s)) := by
  cases hrun : x.run s with
  | ok u t => rfl
  | error e t =>
    rw [hrun] at h
    cases h

@[simp] theorem run_throw (e : ε) (s : σ) :
    EStateM.run (throw e : EStateM ε σ α) s = .error e s := rfl

/-- A bind that returns is two runs that return. -/
theorem run_bind_ok {x : EStateM ε σ α} {f : α → EStateM ε σ β} {s t : σ} {b : β} :
    (x >>= f).run s = .ok b t ↔ ∃ a u, x.run s = .ok a u ∧ (f a).run u = .ok b t := by
  rw [EStateM.run_bind]
  cases h : x.run s with
  | ok a u =>
    constructor
    · intro hf
      exact ⟨a, u, rfl, hf⟩
    · rintro ⟨a', u', hok, hf⟩
      cases hok
      exact hf
  | error e u =>
    constructor
    · intro hf
      cases hf
    · rintro ⟨a', u', hok, _⟩
      cases hok

/-- A bind that throws does so in its first part or, after that returned, in its second. -/
theorem run_bind_error {x : EStateM ε σ α} {f : α → EStateM ε σ β} {s t : σ} {e : ε} :
    (x >>= f).run s = .error e t ↔
      x.run s = .error e t ∨ ∃ a u, x.run s = .ok a u ∧ (f a).run u = .error e t := by
  rw [EStateM.run_bind]
  cases h : x.run s with
  | ok a u =>
    constructor
    · intro hf
      exact Or.inr ⟨a, u, rfl, hf⟩
    · rintro (hbad | ⟨a', u', hok, hf⟩)
      · cases hbad
      · cases hok
        exact hf
  | error e' u =>
    constructor
    · intro hf
      cases hf
      exact Or.inl rfl
    · rintro (hbad | ⟨a', u', hok, _⟩)
      · cases hbad
        rfl
      · cases hok

theorem run_bind_of_ok {x : EStateM ε σ α} {f : α → EStateM ε σ β} {s u : σ} {a : α}
    (h : x.run s = .ok a u) : (x >>= f).run s = (f a).run u := by
  rw [EStateM.run_bind, h]

theorem run_bind_of_error {x : EStateM ε σ α} {f : α → EStateM ε σ β} {s u : σ} {e : ε}
    (h : x.run s = .error e u) : (x >>= f).run s = .error e u := by
  rw [EStateM.run_bind, h]

@[simp] theorem run_map (f : α → β) (x : EStateM ε σ α) (s : σ) :
    (f <$> x).run s = match x.run s with
      | .ok a t => .ok (f a) t
      | .error e t => .error e t := by
  change EStateM.map f x s = _
  unfold EStateM.map
  change (match x.run s with
    | .ok a t => EStateM.Result.ok (f a) t
    | .error e t => .error e t) = _
  cases x.run s <;> rfl

theorem run_map_ok {f : α → β} {x : EStateM ε σ α} {s t : σ} {b : β} :
    (f <$> x).run s = .ok b t ↔ ∃ a, x.run s = .ok a t ∧ b = f a := by
  rw [run_map]
  cases x.run s with
  | ok a u =>
    constructor
    · intro h
      cases h
      exact ⟨a, rfl, rfl⟩
    · rintro ⟨_, h, rfl⟩
      cases h
      rfl
  | error e u => simp

/-- A loop none of whose rounds does anything. -/
theorem run_forM_idle {f : α → EStateM ε σ PUnit} {xs : List α} {s : σ}
    (h : ∀ a ∈ xs, (f a).run s = .ok PUnit.unit s) : (xs.forM f).run s = .ok PUnit.unit s := by
  induction xs with
  | nil => rfl
  | cons a xs ih =>
    rw [List.forM_eq_forM, List.forM_cons, run_bind_of_ok (h a (by simp))]
    exact ih fun b hb => h b (by simp [hb])

/-- A loop all of whose rounds return. -/
theorem run_forM_returns {f : α → EStateM ε σ PUnit} {xs : List α}
    (h : ∀ a ∈ xs, ∀ s, ∃ t, (f a).run s = .ok PUnit.unit t) (s : σ) :
    ∃ t, (xs.forM f).run s = .ok PUnit.unit t := by
  induction xs generalizing s with
  | nil => exact ⟨s, rfl⟩
  | cons a xs ih =>
    obtain ⟨u, hfirst⟩ := h a List.mem_cons_self s
    obtain ⟨t, hrest⟩ := ih (fun b hb => h b (List.mem_cons_of_mem a hb)) u
    rw [List.forM_eq_forM] at hrest ⊢
    rw [List.forM_cons, run_bind_of_ok hfirst]
    exact ⟨t, hrest⟩

/-- A loop with a round that always fails. -/
theorem run_forM_stops {f : α → EStateM ε σ PUnit} {xs : List α} {a : α} (ha : a ∈ xs)
    (h : ∀ s, ∃ e t, (f a).run s = .error e t) (s : σ) :
    ∃ e t, (xs.forM f).run s = .error e t := by
  induction xs generalizing s with
  | nil => cases ha
  | cons b xs ih =>
    rw [List.forM_eq_forM, List.forM_cons]
    cases hfirst : (f b).run s with
    | error e t => exact ⟨e, t, run_bind_of_error hfirst⟩
    | ok u t =>
      rw [run_bind_of_ok hfirst]
      rcases List.mem_cons.mp ha with rfl | hrest
      · obtain ⟨e, m, hstop⟩ := h s
        rw [hfirst] at hstop
        cases hstop
      · exact ih hrest t

/-- Whatever the run does, its start and its end are related by `R`. -/
def Keeps (R : σ → σ → Prop) (x : EStateM ε σ α) : Prop :=
  ∀ s, R s (finalState (x.run s))

namespace Keeps

variable {R : σ → σ → Prop}

theorem ok {x : EStateM ε σ α} (h : Keeps R x) {s t : σ} {a : α} (hrun : x.run s = .ok a t) :
    R s t := by
  simpa only [hrun, finalState_ok] using h s

theorem mono {R' : σ → σ → Prop} {x : EStateM ε σ α} (h : Keeps R x)
    (himp : ∀ s t, R s t → R' s t) : Keeps R' x :=
  fun s => himp _ _ (h s)

theorem modify {f : σ → σ} (h : ∀ s, R s (f s)) :
    Keeps R (modify f : EStateM ε σ PUnit) := h

section Reflexive

variable [Std.Refl R]

theorem pure (a : α) : Keeps R (pure a : EStateM ε σ α) := fun s => Std.Refl.refl s

theorem get : Keeps R (get : EStateM ε σ σ) := fun s => Std.Refl.refl s

theorem throw (e : ε) : Keeps R (throw e : EStateM ε σ α) := fun s => Std.Refl.refl s

end Reflexive

theorem bind [IsTrans σ R] {x : EStateM ε σ α} {f : α → EStateM ε σ β} (hx : Keeps R x)
    (hf : ∀ a, Keeps R (f a)) : Keeps R (x >>= f) := by
  intro s
  have hs := hx s
  rw [EStateM.run_bind]
  cases h : x.run s with
  | ok a u =>
    rw [h] at hs
    exact Trans.trans hs (hf a u)
  | error e u =>
    rw [h] at hs
    exact hs

/-- What the second part of a bind keeps holds between the ends of the first and the whole. -/
theorem after [Std.Refl R] (x : EStateM ε σ α) {f : α → EStateM ε σ β} (hf : ∀ a, Keeps R (f a))
    (s : σ) : R (finalState (x.run s)) (finalState ((x >>= f).run s)) := by
  rw [EStateM.run_bind]
  cases x.run s with
  | ok a u => exact hf a u
  | error e u => exact Std.Refl.refl u

theorem map {f : α → β} {x : EStateM ε σ α} (hx : Keeps R x) : Keeps R (f <$> x) := by
  intro s
  have hs := hx s
  rw [run_map]
  cases h : x.run s with
  | ok a u =>
    rw [h] at hs
    exact hs
  | error e u =>
    rw [h] at hs
    exact hs

/-- A loop keeps what its body keeps. -/
theorem forM [Std.Refl R] [IsTrans σ R] {xs : List α} {f : α → EStateM ε σ PUnit}
    (hf : ∀ a ∈ xs, Keeps R (f a)) : Keeps R (xs.forM f) := by
  induction xs with
  | nil => exact pure PUnit.unit
  | cons a xs ih =>
    rw [List.forM_eq_forM, List.forM_cons]
    exact bind (hf a (by simp)) fun _ => ih fun b hb => hf b (by simp [hb])

/-- A loop whose rounds each establish a fact about their element, which no round undoes,
establishes it for all elements. -/
theorem forM_establishes [Std.Refl R] [IsTrans σ R] {Q : α → σ → Prop} {xs : List α}
    {f : α → EStateM ε σ PUnit} (hkeep : ∀ a ∈ xs, Keeps R (f a))
    (hround : ∀ a ∈ xs, ∀ s t u, (f a).run s = .ok u t → Q a t)
    (hstable : ∀ a s t, R s t → Q a s → Q a t) {s t : σ} {u : PUnit}
    (hrun : (xs.forM f).run s = .ok u t) : ∀ a ∈ xs, Q a t := by
  induction xs generalizing s with
  | nil => simp
  | cons b xs ih =>
    rw [List.forM_eq_forM, List.forM_cons] at hrun
    obtain ⟨v, m, hfirst, hrest⟩ := run_bind_ok.mp hrun
    have hlater : Keeps R (xs.forM f) := forM fun a ha => hkeep a (List.mem_cons_of_mem b ha)
    have hq : Q b t := hstable b m t (hlater.ok hrest) (hround b List.mem_cons_self s m v hfirst)
    have hqs := ih (fun a ha => hkeep a (List.mem_cons_of_mem b ha))
      (fun a ha => hround a (List.mem_cons_of_mem b ha)) hrest
    intro a ha
    rcases List.mem_cons.mp ha with rfl | ha
    · exact hq
    · exact hqs a ha

end Keeps

/-- A program that throws has changed nothing. -/
def Atomic (x : EStateM ε σ α) : Prop := ∀ s e t, x.run s = .error e t → t = s

namespace Atomic

theorem map {f : α → β} {x : EStateM ε σ α} (hx : Atomic x) : Atomic (f <$> x) := by
  intro s e t hrun
  rw [run_map] at hrun
  cases h : x.run s with
  | ok a u =>
    rw [h] at hrun
    cases hrun
  | error e' u =>
    rw [h] at hrun
    cases hrun
    exact hx s e t h

/-- One check of the state, before anything is changed. -/
theorem checked {c : σ → Prop} [∀ s, Decidable (c s)] {x : σ → EStateM ε σ α} {e : σ → ε}
    (hx : ∀ s, ∃ a t, (x s).run s = .ok a t) :
    Atomic (get >>= fun s => if c s then x s else throw (e s)) := by
  intro s e' t hrun
  change (if c s then x s else throw (e s)).run s = .error e' t at hrun
  split at hrun
  · obtain ⟨a, u, hok⟩ := hx s
    rw [hok] at hrun
    cases hrun
  · cases hrun
    rfl

end Atomic

/-- `Keeps` as a fact that instances build for a program from those for its parts. -/
class Kept (R : σ → σ → Prop) (x : EStateM ε σ α) : Prop where
  keeps : Keeps R x

namespace Kept

variable {R : σ → σ → Prop}

instance pure [Std.Refl R] (a : α) : Kept R (pure a : EStateM ε σ α) := ⟨.pure a⟩

instance get [Std.Refl R] : Kept R (get : EStateM ε σ σ) := ⟨.get⟩

instance throw [Std.Refl R] (e : ε) : Kept R (throw e : EStateM ε σ α) := ⟨.throw e⟩

instance ite (c : Prop) [Decidable c] (x y : EStateM ε σ α) [hx : Kept R x] [hy : Kept R y] :
    Kept R (if c then x else y) := by
  split
  · exact hx
  · exact hy

theorem of_ite {c : Prop} [Decidable c] {x y : EStateM ε σ α} (hx : Kept R x) (hy : Kept R y) :
    Kept R (if c then x else y) :=
  inferInstance

section Transitive

variable [IsTrans σ R]

instance bind (x : EStateM ε σ α) (f : α → EStateM ε σ β) [hx : Kept R x]
    [hf : ∀ a, Kept R (f a)] : Kept R (x >>= f) := ⟨hx.keeps.bind fun a => (hf a).keeps⟩

instance map (f : α → β) (x : EStateM ε σ α) [hx : Kept R x] : Kept R (f <$> x) :=
  ⟨hx.keeps.map⟩

instance forM [Std.Refl R] (xs : List α) (f : α → EStateM ε σ PUnit) [hf : ∀ a, Kept R (f a)] :
    Kept R (xs.forM f) := ⟨.forM fun a _ => (hf a).keeps⟩

theorem of_bind {x : EStateM ε σ α} {f : α → EStateM ε σ β} (hx : Kept R x)
    (hf : ∀ a, Kept R (f a)) : Kept R (x >>= f) :=
  inferInstance

end Transitive

end Kept

/-- Whatever exception a run of the program ends with, it is one of `P`. Instances build the fact
for a program from those for its parts. -/
class Raises (P : ε → Prop) (x : EStateM ε σ α) : Prop where
  raised : ∀ s e t, x.run s = .error e t → P e

namespace Raises

variable {P : ε → Prop}

instance pure (a : α) : Raises P (pure a : EStateM ε σ α) where
  raised s e t h := by cases h

instance get : Raises P (get : EStateM ε σ σ) where
  raised s e t h := by cases h

instance set (s : σ) : Raises P (set s : EStateM ε σ PUnit) where
  raised s e t h := by cases h

instance modify (f : σ → σ) : Raises P (modify f : EStateM ε σ PUnit) where
  raised s e t h := by cases h

instance throw (e : ε) [he : Fact (P e)] : Raises P (throw e : EStateM ε σ α) where
  raised s e' t h := by
    cases h
    exact he.out

instance bind (x : EStateM ε σ α) (f : α → EStateM ε σ β) [hx : Raises P x]
    [hf : ∀ a, Raises P (f a)] : Raises P (x >>= f) where
  raised s e t h := by
    rcases run_bind_error.mp h with hfirst | ⟨a, u, -, hsecond⟩
    · exact hx.raised s e t hfirst
    · exact (hf a).raised u e t hsecond

instance map (f : α → β) (x : EStateM ε σ α) [hx : Raises P x] : Raises P (f <$> x) where
  raised s e t h := by
    rw [run_map] at h
    cases hrun : x.run s with
    | ok a u =>
      rw [hrun] at h
      cases h
    | error e' u =>
      rw [hrun] at h
      cases h
      exact hx.raised s e t hrun

instance ite (c : Prop) [Decidable c] (x y : EStateM ε σ α) [hx : Raises P x]
    [hy : Raises P y] : Raises P (if c then x else y) := by
  split
  · exact hx
  · exact hy

instance forM (xs : List α) (f : α → EStateM ε σ PUnit) [hf : ∀ a, Raises P (f a)] :
    Raises P (xs.forM f) := by
  induction xs with
  | nil => exact pure PUnit.unit
  | cons a xs ih =>
    rw [List.forM_eq_forM, List.forM_cons]
    infer_instance

instance mapM (xs : List α) (f : α → EStateM ε σ β) [hf : ∀ a, Raises P (f a)] :
    Raises P (xs.mapM f) := by
  induction xs with
  | nil => exact pure []
  | cons a xs ih =>
    rw [List.mapM_cons]
    infer_instance

theorem of_bind {x : EStateM ε σ α} {f : α → EStateM ε σ β} (hx : Raises P x)
    (hf : ∀ a, Raises P (f a)) : Raises P (x >>= f) :=
  inferInstance

theorem of_ite {c : Prop} [Decidable c] {x y : EStateM ε σ α} (hx : Raises P x)
    (hy : Raises P y) : Raises P (if c then x else y) :=
  inferInstance

end Raises

end Win64Server.Outcome
