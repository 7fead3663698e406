import Win64Server.Library.Outcome

/-!
Loops over independent entries. The body of the loop visits one key at a time. A visit that
returns changes what is seen of its key by an idempotent function, a visit that fails leaves the
key in some other way, and neither touches what is seen of the other keys. In any order, and with
any repetitions, the loop applies the function to each key it is given, or it leaves one behind.
-/
namespace Win64Server.Library

open Outcome

variable {ε σ ι β : Type}

/-- Visits in states with the property `P`, where `view` is what is seen of a key, `f` is what a
visit does to it, `Ready` says of a view that a visit returns, and `Left` relates the views around
a visit that fails. -/
structure Pointwise (P : σ → Prop) (view : σ → ι → β) (f : ι → β → β) (Ready : ι → β → Prop)
    (Left : ι → β → β → Prop) (visit : ι → EStateM ε σ PUnit) : Prop where
  idem : ∀ i b, f i (f i b) = f i b
  ready : ∀ i b, Ready i (f i b)
  keeps : ∀ i s, P s → P (finalState ((visit i).run s))
  others : ∀ i s, P s → ∀ j, j ≠ i → view (finalState ((visit i).run s)) j = view s j
  returns : ∀ i s, P s → Ready i (view s i) →
    ∃ t, (visit i).run s = .ok PUnit.unit t ∧ view t i = f i (view s i)
  fails : ∀ i s, P s → ¬ Ready i (view s i) →
    ∃ e t, (visit i).run s = .error e t ∧ Left i (view s i) (view t i)

namespace Pointwise

variable {P : σ → Prop} {view : σ → ι → β} {f : ι → β → β} {Ready : ι → β → Prop}
  {Left : ι → β → β → Prop} {visit : ι → EStateM ε σ PUnit} {s : σ} {is : List ι}

/-- A visit to a key, as its effect on every key. -/
theorem visit_ready (h : Pointwise P view f Ready Left visit) (hs : P s) {i : ι}
    (hready : Ready i (view s i)) :
    ∃ t, (visit i).run s = .ok PUnit.unit t ∧ P t ∧ view t i = f i (view s i) ∧
      ∀ j, j ≠ i → view t j = view s j := by
  obtain ⟨t, hrun, hview⟩ := h.returns i s hs hready
  have hkeeps := h.keeps i s hs
  have hothers := h.others i s hs
  rw [hrun, finalState_ok] at hkeeps hothers
  exact ⟨t, hrun, hkeeps, hview, hothers⟩

/-- A later visit does to a key what it would have done at the start. -/
theorem again (h : Pointwise P view f Ready Left visit) {t : σ} {i : ι}
    (hview : view t i = f i (view s i)) (hothers : ∀ j, j ≠ i → view t j = view s j) (j : ι) :
    f j (view t j) = f j (view s j) := by
  by_cases hj : j = i
  · rw [hj, hview, h.idem]
  · rw [hothers j hj]

theorem forM_returns (h : Pointwise P view f Ready Left visit) (hs : P s)
    (hready : ∀ i ∈ is, Ready i (view s i)) :
    ∃ t, (is.forM visit).run s = .ok PUnit.unit t ∧ P t ∧
      (∀ i ∈ is, view t i = f i (view s i)) ∧ ∀ i, i ∉ is → view t i = view s i := by
  induction is generalizing s with
  | nil => exact ⟨s, rfl, hs, nofun, fun _ _ => rfl⟩
  | cons i is ih =>
    obtain ⟨m, hvisit, hm, hview, hothers⟩ := h.visit_ready hs (hready i List.mem_cons_self)
    have hready' : ∀ j ∈ is, Ready j (view m j) := by
      intro j hj
      by_cases hji : j = i
      · rw [hji, hview]
        exact h.ready i _
      · rw [hothers j hji]
        exact hready j (List.mem_cons_of_mem i hj)
    obtain ⟨t, hloop, ht, hin, hout⟩ := ih hm hready'
    refine ⟨t, ?_, ht, fun j hj => ?_, fun j hj => ?_⟩
    · rw [List.forM_eq_forM] at hloop ⊢
      rw [List.forM_cons, run_bind_of_ok hvisit, hloop]
    · by_cases hrest : j ∈ is
      · rw [hin j hrest, h.again hview hothers]
      · obtain rfl := (List.mem_cons.mp hj).resolve_right hrest
        rw [hout j hrest, hview]
    · rw [hout j (List.not_mem_of_not_mem_cons hj), hothers j (List.ne_of_not_mem_cons hj)]

/-- The first visit that fails leaves its key behind. -/
theorem forM_fails (h : Pointwise P view f Ready Left visit) (hs : P s)
    (hready : ¬ ∀ i ∈ is, Ready i (view s i)) :
    ∃ e t, (is.forM visit).run s = .error e t ∧
      ∃ i ∈ is, ¬ Ready i (view s i) ∧ Left i (view s i) (view t i) := by
  induction is generalizing s with
  | nil => exact absurd nofun hready
  | cons i is ih =>
    rw [List.forM_eq_forM, List.forM_cons]
    by_cases hi : Ready i (view s i)
    · obtain ⟨m, hvisit, hm, hview, hothers⟩ := h.visit_ready hs hi
      have hready' : ¬ ∀ j ∈ is, Ready j (view m j) := by
        intro hall
        refine hready fun j hj => ?_
        by_cases hji : j = i
        · rw [hji]
          exact hi
        · rw [← hothers j hji]
          exact hall j ((List.mem_cons.mp hj).resolve_left hji)
      obtain ⟨e, t, hloop, j, hj, hnot, hleft⟩ := ih hm hready'
      -- The key that fails is another one, since this one stays ready.
      have hji : j ≠ i := by
        rintro rfl
        rw [hview] at hnot
        exact hnot (h.ready j _)
      rw [hothers j hji] at hnot hleft
      exact ⟨e, t, (run_bind_of_ok hvisit).trans hloop, j, List.mem_cons_of_mem i hj, hnot, hleft⟩
    · obtain ⟨e, t, hvisit, hleft⟩ := h.fails i s hs hi
      exact ⟨e, t, run_bind_of_error hvisit, i, List.mem_cons_self, hi, hleft⟩

end Pointwise

end Win64Server.Library
