import Mathlib.Tactic.Basic

/-!
Mutual exclusion. A mutex names the thread that holds it, and a system says which of its threads
are in a critical section. The mutex guards the sections when a thread in one of them holds it;
the rules below are for steps that enter a section, leave one, or do neither.
-/
namespace Win64Server.Library

variable {ι : Type} {mutex mutex' : Option ι} {critical critical' : ι → Prop} {i j : ι}

/-- A thread in a critical section holds the mutex. -/
def Guards (mutex : Option ι) (critical : ι → Prop) : Prop := ∀ i, critical i → mutex = some i

namespace Guards

theorem eq (h : Guards mutex critical) (hi : critical i) (hj : critical j) : i = j :=
  Option.some.inj ((h i hi).symm.trans (h j hj))

/-- A thread takes the free mutex. -/
theorem enter (h : Guards none critical) (hothers : ∀ j, j ≠ i → critical' j → critical j) :
    Guards (some i) critical' := by
  intro j hj
  by_cases heq : j = i
  · rw [heq]
  · cases h j (hothers j heq hj)

/-- A thread leaves its section, and gives the mutex back. -/
theorem exit (h : Guards mutex critical) (hin : critical i) (hout : ¬ critical' i)
    (hothers : ∀ j, j ≠ i → critical' j → critical j) : Guards mutex' critical' := by
  intro j hj
  have hne : j ≠ i := by
    rintro rfl
    exact hout hj
  exact absurd (h.eq (hothers j hne hj) hin) hne

theorem keep (h : Guards mutex critical) (hothers : ∀ j, critical' j → critical j) :
    Guards mutex critical' := fun j hj => h j (hothers j hj)

end Guards

end Win64Server.Library
