import Mathlib.Order.Bounds.Basic
import Mathlib.Data.List.Induction

/-!
A running minimum that marks "nothing seen so far" with a value of its own. It is the minimum as
long as no element equals the mark; an element that does makes it forget what it has seen.
-/
namespace Win64Server.Library

variable {α : Type} [LinearOrder α] (mark : α)

def keepLower (current x : α) : α := if current = mark ∨ x < current then x else current

def runningMin (xs : List α) : α := xs.foldl (keepLower mark) mark

/-- The smallest element, or the mark when there is none. -/
def LeastOr (xs : List α) (m : α) : Prop := xs = [] ∧ m = mark ∨ IsLeast {x | x ∈ xs} m

/-- The mark is the smallest element, and something else comes last. -/
def Forgets (xs : List α) : Prop :=
  mark ∈ xs ∧ (∀ x ∈ xs, mark ≤ x) ∧ xs.getLast? ≠ some mark

variable {mark} {xs ys : List α} {x y m : α}

theorem runningMin_append :
    runningMin mark (xs ++ [x]) = keepLower mark (runningMin mark xs) x := by
  simp [runningMin]

variable (mark) in
theorem runningMin_mem (h : xs ≠ []) : runningMin mark xs ∈ xs := by
  induction xs using List.reverseRecOn with
  | nil => exact absurd rfl h
  | append_singleton xs x ih =>
    rw [runningMin_append, keepLower]
    split
    · simp
    · rename_i hkeep
      push Not at hkeep
      have hne : xs ≠ [] := by
        rintro rfl
        exact hkeep.1 rfl
      exact List.mem_append_left _ (ih hne)

/-- One more element, when the minimum of the others is known. -/
theorem keepLower_least {r : α} (hr : r ∈ xs) (hlow : ∀ y ∈ xs, r ≤ y) :
    (∀ y ∈ xs ++ [x], keepLower mark r x ≤ y) ∨
      mark ∈ xs ++ [x] ∧ (∀ y ∈ xs ++ [x], mark ≤ y) ∧ mark < keepLower mark r x := by
  simp only [List.forall_mem_append, List.forall_mem_singleton, keepLower]
  rcases le_or_gt x r with hle | hgt
  · left
    split
    · exact ⟨fun y hy => hle.trans (hlow y hy), le_rfl⟩
    · rename_i hkeep
      push Not at hkeep
      exact ⟨hlow, hkeep.2⟩
  · rcases eq_or_ne r mark with rfl | hne
    · -- The mark was the minimum, so the larger element replaces it.
      right
      rw [if_pos (Or.inl rfl)]
      exact ⟨List.mem_append_left _ hr, ⟨hlow, hgt.le⟩, hgt⟩
    · left
      have hkeep : ¬ (r = mark ∨ x < r) := not_or.mpr ⟨hne, hgt.not_gt⟩
      rw [if_neg hkeep]
      exact ⟨hlow, hgt.le⟩

/-- One more element, after the mark has been the minimum and is forgotten. -/
theorem keepLower_forgotten {r : α} (hmem : mark ∈ xs) (hlow : ∀ y ∈ xs, mark ≤ y) (hr : mark < r) :
    (∀ y ∈ xs ++ [x], keepLower mark r x ≤ y) ∨
      mark ∈ xs ++ [x] ∧ (∀ y ∈ xs ++ [x], mark ≤ y) ∧ mark < keepLower mark r x := by
  simp only [List.forall_mem_append, List.forall_mem_singleton, keepLower]
  rcases le_or_gt x mark with hle | hgt
  · left
    rw [if_pos (Or.inr (hle.trans_lt hr))]
    exact ⟨fun y hy => hle.trans (hlow y hy), le_rfl⟩
  · right
    refine ⟨List.mem_append_left _ hmem, ⟨hlow, hgt.le⟩, ?_⟩
    split
    · exact hgt
    · exact hr

/-- What is not the minimum is above a mark that is. -/
theorem runningMin_lower (h : xs ≠ []) : (∀ y ∈ xs, runningMin mark xs ≤ y) ∨
    mark ∈ xs ∧ (∀ y ∈ xs, mark ≤ y) ∧ mark < runningMin mark xs := by
  induction xs using List.reverseRecOn with
  | nil => exact absurd rfl h
  | append_singleton xs x ih =>
    rw [runningMin_append]
    rcases eq_or_ne xs [] with rfl | hne
    · left
      simp [runningMin, keepLower]
    · rcases ih hne with hlow | ⟨hmem, hlow, hr⟩
      · exact keepLower_least (runningMin_mem mark hne) hlow
      · exact keepLower_forgotten hmem hlow hr

/-- A mark that is the minimum is the result when it comes last. -/
theorem runningMin_eq_mark_iff (hmem : mark ∈ xs) (hlow : ∀ y ∈ xs, mark ≤ y) :
    runningMin mark xs = mark ↔ xs.getLast? = some mark := by
  rcases List.eq_nil_or_concat xs with rfl | ⟨front, x, rfl⟩
  · cases hmem
  · rw [List.concat_eq_append] at hlow ⊢
    rw [List.getLast?_concat, Option.some.injEq, runningMin_append, keepLower]
    have hx : mark ≤ x := hlow x (by simp)
    have hr : mark ≤ runningMin mark front := by
      rcases eq_or_ne front [] with rfl | hne
      · exact le_rfl
      · exact hlow _ (List.mem_append_left _ (runningMin_mem mark hne))
    by_cases htake : runningMin mark front = mark ∨ x < runningMin mark front
    · rw [if_pos htake]
    · rw [if_neg htake]
      push Not at htake
      have habove : mark < x := lt_of_lt_of_le (lt_of_le_of_ne hr htake.1.symm) htake.2
      exact iff_of_false htake.1 habove.ne'

theorem runningMin_least_iff : LeastOr mark xs (runningMin mark xs) ↔ ¬ Forgets mark xs := by
  rcases eq_or_ne xs [] with rfl | hne
  · have hleast : LeastOr mark [] (runningMin mark []) := Or.inl ⟨rfl, rfl⟩
    simp [hleast, Forgets]
  · have hmem := runningMin_mem mark hne
    have hleast : LeastOr mark xs (runningMin mark xs) ↔ ∀ y ∈ xs, runningMin mark xs ≤ y := by
      constructor
      · rintro (⟨hnil, -⟩ | ⟨-, hlow⟩)
        · exact absurd hnil hne
        · exact hlow
      · exact fun hlow => Or.inr ⟨hmem, hlow⟩
    rw [hleast]
    constructor
    · rintro hlow ⟨hmark, hmarkLow, hlast⟩
      refine hlast ((runningMin_eq_mark_iff hmark hmarkLow).mp ?_)
      exact le_antisymm (hlow _ hmark) (hmarkLow _ hmem)
    · intro hnot
      refine (runningMin_lower hne).resolve_right ?_
      rintro ⟨hmark, hmarkLow, hgt⟩
      refine hnot ⟨hmark, hmarkLow, fun hlast => ?_⟩
      exact hgt.ne' ((runningMin_eq_mark_iff hmark hmarkLow).mpr hlast)

theorem LeastOr.perm (hperm : ys.Perm xs) : LeastOr mark ys m ↔ LeastOr mark xs m := by
  have hnil : ys = [] ↔ xs = [] := by
    rw [← List.length_eq_zero_iff, ← List.length_eq_zero_iff, hperm.length_eq]
  have hset : {x | x ∈ ys} = {x | x ∈ xs} := Set.ext fun x => hperm.mem_iff
  rw [LeastOr, LeastOr, hnil, hset]

/-- In every order the result is the minimum, unless the mark is the minimum and not alone. -/
theorem runningMin_least_of_perm_iff : (∀ ys, ys.Perm xs → LeastOr mark xs (runningMin mark ys)) ↔
    ¬ (mark ∈ xs ∧ (∀ x ∈ xs, mark ≤ x) ∧ ∃ x ∈ xs, x ≠ mark) := by
  constructor
  · rintro hall ⟨hmark, hlow, x, hx, hne⟩
    -- The order that ends with this element.
    have hperm : (xs.erase x ++ [x]).Perm xs :=
      List.perm_append_comm.trans (List.perm_cons_erase hx).symm
    have hleast := (LeastOr.perm hperm).mpr (hall _ hperm)
    refine runningMin_least_iff.mp hleast ⟨hperm.mem_iff.mpr hmark, ?_, ?_⟩
    · exact fun y hy => hlow y (hperm.mem_iff.mp hy)
    · rw [List.getLast?_concat, Ne, Option.some.injEq]
      exact hne
  · intro hnot ys hperm
    rw [← LeastOr.perm hperm, runningMin_least_iff]
    rintro ⟨hmark, hlow, hlast⟩
    have hmem : mark ∈ xs := hperm.mem_iff.mp hmark
    refine hnot ⟨hmem, fun y hy => hlow y (hperm.mem_iff.mpr hy), ?_⟩
    have hne : ys ≠ [] := List.ne_nil_of_mem hmark
    refine ⟨ys.getLast hne, hperm.mem_iff.mp (List.getLast_mem hne), fun heq => hlast ?_⟩
    rw [List.getLast?_eq_some_getLast hne, heq]

end Win64Server.Library
