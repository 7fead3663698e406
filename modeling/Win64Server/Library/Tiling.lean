import Mathlib.Data.List.Basic
import Mathlib.Order.CompletePartialOrder
import Mathlib.Order.Interval.Set.Disjoint

/-!
Consecutive intervals. A list of intervals tiles the stretch between two points when each begins
where the one before it ends. Such intervals are disjoint and cover the stretch.
-/
namespace Win64Server.Library

variable {α : Type} [LinearOrder α]

/-- From `a` to `b`, each interval without its end. -/
inductive Tiles : α → List (α × α) → α → Prop
  | nil (a : α) : Tiles a [] a
  | cons {a b c : α} {rest : List (α × α)} (hle : a ≤ b) (hrest : Tiles b rest c) :
      Tiles a ((a, b) :: rest) c

namespace Tiles

variable {a b : α} {tiles : List (α × α)}

theorem le (h : Tiles a tiles b) : a ≤ b := by
  induction h with
  | nil a => exact le_rfl
  | cons hle _ ih => exact hle.trans ih

theorem within (h : Tiles a tiles b) {tile : α × α} (htile : tile ∈ tiles) :
    a ≤ tile.1 ∧ tile.1 ≤ tile.2 ∧ tile.2 ≤ b := by
  induction h with
  | nil a => cases htile
  | cons hle hrest ih =>
    rcases List.mem_cons.mp htile with rfl | hmem
    · exact ⟨le_rfl, hle, hrest.le⟩
    · obtain ⟨hlow, hmiddle, hhigh⟩ := ih hmem
      exact ⟨hle.trans hlow, hmiddle, hhigh⟩

theorem pairwise_disjoint (h : Tiles a tiles b) :
    tiles.Pairwise fun r q => Disjoint (Set.Ico r.1 r.2) (Set.Ico q.1 q.2) := by
  induction h with
  | nil a => exact .nil
  | cons hle hrest ih =>
    refine List.pairwise_cons.mpr ⟨fun q hq => ?_, ih⟩
    obtain ⟨hbehind, -, -⟩ := hrest.within hq
    refine Set.disjoint_left.mpr fun x hx hxq => ?_
    exact absurd hx.2 (not_lt.mpr (hbehind.trans hxq.1))

theorem mem_iff (h : Tiles a tiles b) {x : α} :
    (∃ tile ∈ tiles, x ∈ Set.Ico tile.1 tile.2) ↔ x ∈ Set.Ico a b := by
  induction h with
  | nil a => simp
  | @cons a b c rest hle hrest ih =>
    constructor
    · rintro ⟨tile, htile, hx⟩
      rcases List.mem_cons.mp htile with rfl | hmem
      · exact ⟨hx.1, hx.2.trans_le hrest.le⟩
      · obtain ⟨hlow, hhigh⟩ := ih.mp ⟨tile, hmem, hx⟩
        exact ⟨hle.trans hlow, hhigh⟩
    · rintro ⟨hlow, hhigh⟩
      by_cases hx : x < b
      · exact ⟨(a, b), List.mem_cons_self, hlow, hx⟩
      · obtain ⟨tile, hmem, htile⟩ := ih.mpr ⟨not_lt.mp hx, hhigh⟩
        exact ⟨tile, List.mem_cons_of_mem _ hmem, htile⟩

end Tiles

end Win64Server.Library
