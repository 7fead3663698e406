import Win64Server.Cxx
import Win64Server.Library.Rounds
import Mathlib.Data.List.Sort
import Mathlib.Order.Defs.LinearOrder

/-!
The binary search. The inner routine takes both bounds as subscripts of the array, and the wrapper
passes the length as the upper one, so the window of the search begins with one subscript behind
the array. The search comes to read it when the window has shrunk to that subscript alone.
-/
namespace Win64Server.BinarySearch

open Library

/-- An array sorted in ascending order. -/
abbrev Ascending (α : Type) [LinearOrder α] := {elements : List α // elements.Pairwise (· ≤ ·)}

/-- The subscripts the search goes on with. -/
structure Window where
  first : ℤ
  last : ℤ

def Window.width (w : Window) : ℕ := (w.last + 1 - w.first).toNat

section Search

variable {α : Type} {sortedArray : List α} {i : ℕ}

/-- `sortedArray[i]`. -/
def element (sortedArray : List α) (i : ℤ) : Except Fault α :=
  if 0 ≤ i then
    match sortedArray[i.toNat]? with
    | some a => .ok a
    | none => .error (.undefined .readPastBlock)
  else
    .error (.undefined .readPastBlock)

theorem element_eq (h : i < sortedArray.length) : element sortedArray i = .ok sortedArray[i] := by
  simp [element, h]

theorem element_behind (h : sortedArray.length ≤ i) :
    element sortedArray i = .error (.undefined .readPastBlock) := by
  simp [element, h]

variable [LinearOrder α]

/-- One round of the loop of `binarySearch1`, or what follows the loop. -/
def round (sortedArray : List α) (key : α) (w : Window) : Except Fault (Round Window ℤ) :=
  if w.first ≤ w.last then
    let mid := (w.first + w.last).tdiv 2
    match element sortedArray mid with
    | .error e => .error e
    | .ok a =>
      if key > a then .ok (.again ⟨mid + 1, w.last⟩)
      else if key < a then .ok (.again ⟨w.first, mid - 1⟩)
      else .ok (.done mid)
  else
    .ok (.done (-(w.first + 1)))

def binarySearch1 (rounds : ℕ) (sortedArray : List α) (first last : ℤ) (key : α) :
    Option (Except Fault ℤ) :=
  loop (round sortedArray key) rounds ⟨first, last⟩

def binarySearch (rounds : ℕ) (sortedArray : List α) (length : ℤ) (key : α) :
    Option (Except Fault ℤ) :=
  binarySearch1 rounds sortedArray 0 length key

variable {key : α} {w : Window}

theorem le_of_index_le (hsorted : sortedArray.Pairwise (· ≤ ·)) {j : ℕ} (hij : i ≤ j)
    (hj : j < sortedArray.length) : sortedArray[i] ≤ sortedArray[j] := by
  rcases Nat.eq_or_lt_of_le hij with rfl | hlt
  · exact le_rfl
  · exact List.pairwise_iff_getElem.mp hsorted i j (by omega) hj hlt

/-- What is left of the window is too small and what is right of it too large. -/
structure Narrowed (sortedArray : List α) (key : α) (w : Window) : Prop where
  first_nonneg : 0 ≤ w.first
  first_le : w.first ≤ sortedArray.length
  last_le : w.last ≤ sortedArray.length
  below : ∀ (j : ℕ) (h : j < sortedArray.length), j < w.first → sortedArray[j] < key
  above : ∀ (j : ℕ) (h : j < sortedArray.length), w.last < j → key < sortedArray[j]

theorem narrowed_start : Narrowed sortedArray key ⟨0, sortedArray.length⟩ where
  first_nonneg := le_rfl
  first_le := by simp
  last_le := le_rfl
  below j _ hj := by simp at hj; omega
  above j h hj := by simp at hj; omega

/-- The middle of the window, which is behind the array only when nothing else is left. -/
theorem mid_bounds (hfirst : 0 ≤ w.first) (hwindow : w.first ≤ w.last) :
    ∃ mid : ℕ, (w.first + w.last).tdiv 2 = mid ∧ w.first ≤ mid ∧ mid ≤ w.last ∧
      (mid < w.last ∨ w.first = w.last) := by
  refine ⟨((w.first + w.last) / 2).toNat, ?_, ?_, ?_, ?_⟩
  · rw [Int.tdiv_eq_ediv_of_nonneg (by omega)]
    omega
  · omega
  · omega
  · omega

/-- What a search with this result and this array promises. -/
def Found (sortedArray : List α) (key : α) : Except Fault ℤ → Prop
  | .ok result =>
    (key ∈ sortedArray → ∃ i : ℕ, result = i ∧ sortedArray[i]? = some key) ∧
      (key ∉ sortedArray → result = -(sortedArray.countP (· < key) : ℤ) - 1)
  | .error _ => False

/-- The elements before a point are exactly those that are smaller. -/
theorem countP_lt_eq (hlength : i ≤ sortedArray.length)
    (hbelow : ∀ (j : ℕ) (h : j < sortedArray.length), j < i → sortedArray[j] < key)
    (habove : ∀ (j : ℕ) (h : j < sortedArray.length), i ≤ j → key < sortedArray[j]) :
    sortedArray.countP (· < key) = i := by
  rw [← List.take_append_drop i sortedArray, List.countP_append]
  have hfront : (sortedArray.take i).countP (· < key) = i := by
    have hall : ∀ a ∈ sortedArray.take i, a < key := by
      intro a ha
      obtain ⟨j, hj, rfl⟩ := List.mem_iff_getElem.mp ha
      rw [List.length_take] at hj
      rw [List.getElem_take]
      exact hbelow j (by omega) (by omega)
    rw [List.countP_eq_length.mpr (by simpa using hall), List.length_take]
    omega
  have hback : (sortedArray.drop i).countP (· < key) = 0 := by
    refine List.countP_eq_zero.mpr fun a ha => ?_
    obtain ⟨j, hj, rfl⟩ := List.mem_iff_getElem.mp ha
    rw [List.length_drop] at hj
    rw [List.getElem_drop]
    simpa using (habove (i + j) (by omega) (by omega)).le
  rw [hfront, hback, Nat.add_zero]

/-- An empty window means that the key is not there and where it would be. -/
theorem Narrowed.found_of_empty (h : Narrowed sortedArray key w) (hempty : ¬ w.first ≤ w.last) :
    Found sortedArray key (.ok (-(w.first + 1))) := by
  obtain ⟨i, hi⟩ := Int.eq_ofNat_of_zero_le h.first_nonneg
  have hlength := h.first_le
  have hbelow : ∀ (j : ℕ) (h : j < sortedArray.length), j < i → sortedArray[j] < key :=
    fun j hj hji => h.below j hj (by omega)
  have habove : ∀ (j : ℕ) (h : j < sortedArray.length), i ≤ j → key < sortedArray[j] :=
    fun j hj hij => h.above j hj (by omega)
  constructor
  · intro hmem
    obtain ⟨j, hj, rfl⟩ := List.mem_iff_getElem.mp hmem
    rcases Nat.lt_or_ge j i with hji | hij
    · exact absurd (hbelow j hj hji) (lt_irrefl _)
    · exact absurd (habove j hj hij) (lt_irrefl _)
  · intro _
    rw [countP_lt_eq (by omega) hbelow habove, hi]
    omega

/-- A round of a search for a key that some element reaches: it reads inside the array, finds the
key or narrows the window. -/
theorem Narrowed.round (hsorted : sortedArray.Pairwise (· ≤ ·)) (hkey : ∃ a ∈ sortedArray, key ≤ a)
    (h : Narrowed sortedArray key w) :
    Reaches (fun v => Narrowed sortedArray key v ∧ v.width < w.width) (Found sortedArray key)
      (round sortedArray key w) := by
  unfold BinarySearch.round Window.width
  by_cases hwindow : w.first ≤ w.last
  · obtain ⟨mid, hmid, hlow, hhigh, hinner⟩ := mid_bounds h.first_nonneg hwindow
    have hinside : mid < sortedArray.length := by
      by_contra hout
      -- Only the subscript behind the array is left, so all elements are smaller.
      obtain ⟨a, ha, hle⟩ := hkey
      obtain ⟨j, hj, rfl⟩ := List.mem_iff_getElem.mp ha
      have hlast := h.last_le
      exact absurd hle (not_le.mpr (h.below j hj (by omega)))
    rw [if_pos hwindow]
    dsimp only
    rw [hmid, element_eq hinside]
    dsimp only
    split
    · rename_i hgt
      refine .again ⟨⟨?_, ?_, h.last_le, fun j hj hjm => ?_, h.above⟩, ?_⟩
      · dsimp only
        omega
      · dsimp only
        omega
      · dsimp only at hjm
        exact (le_of_index_le hsorted (by omega) hinside).trans_lt hgt
      · dsimp only
        omega
    · split
      · rename_i hlt
        refine .again ⟨⟨h.first_nonneg, h.first_le, ?_, h.below, fun j hj hmj => ?_⟩, ?_⟩
        · dsimp only
          omega
        · dsimp only at hmj
          exact hlt.trans_le (le_of_index_le hsorted (by omega) hj)
        · dsimp only
          omega
      · rename_i hgt hlt
        have heq : sortedArray[mid] = key := le_antisymm (not_lt.mp hlt) (not_lt.mp hgt)
        refine .done ⟨fun _ => ⟨mid, rfl, ?_⟩, fun hnot => ?_⟩
        · rw [List.getElem?_eq_getElem hinside, heq]
        · exact absurd (heq ▸ List.getElem_mem hinside) hnot
  · rw [if_neg hwindow]
    exact .done (h.found_of_empty hwindow)

/-- The window of a search whose lower bound is all that has moved. -/
structure OnlyRaised (sortedArray : List α) (w : Window) : Prop where
  first_nonneg : 0 ≤ w.first
  first_le : w.first ≤ w.last
  last_eq : w.last = (sortedArray.length : ℤ)

theorem OnlyRaised.round (hsmaller : ∀ a ∈ sortedArray, a < key) (h : OnlyRaised sortedArray w) :
    Reaches (fun v => OnlyRaised sortedArray v ∧ v.width < w.width)
      (fun r => r = .error (.undefined .readPastBlock)) (round sortedArray key w) := by
  obtain ⟨mid, hmid, hlow, hhigh, hinner⟩ := mid_bounds h.first_nonneg h.first_le
  have hlast := h.last_eq
  unfold BinarySearch.round Window.width
  rw [if_pos h.first_le]
  dsimp only
  rw [hmid]
  by_cases hinside : mid < sortedArray.length
  · rw [element_eq hinside]
    dsimp only
    rw [if_pos (hsmaller _ (List.getElem_mem hinside))]
    refine .again ⟨⟨?_, ?_, hlast⟩, ?_⟩
    · dsimp only
      omega
    · dsimp only
      omega
    · dsimp only
      omega
  · rw [element_behind (not_lt.mp hinside)]
    exact .error rfl

/-- When all elements are smaller, the search ends with a read behind the array. -/
theorem runs_off (hsmaller : ∀ a ∈ sortedArray, a < key) :
    Ends (round sortedArray key) ⟨0, sortedArray.length⟩ (.error (.undefined .readPastBlock)) := by
  have hstart : OnlyRaised sortedArray ⟨0, sortedArray.length⟩ := ⟨le_rfl, by simp, rfl⟩
  obtain ⟨r, hends, rfl⟩ := ends_of_variant Window.width
    (fun _ hw => OnlyRaised.round hsmaller hw) hstart
  exact hends

/-- The search ends inside the array and does what its comment says. -/
def MeetsContract (sortedArray : List α) (key : α) : Prop :=
  ∃ rounds result, binarySearch rounds sortedArray sortedArray.length key = some result ∧
    Found sortedArray key result

/-- The search meets its contract exactly when some element is not smaller than the key. -/
theorem meetsContract_iff (sortedArray : Ascending α) (key : α) :
    MeetsContract sortedArray.1 key ↔ ∃ a ∈ sortedArray.1, key ≤ a := by
  constructor
  · rintro ⟨rounds, result, hrun, hfound⟩
    by_contra hnone
    have hsmaller : ∀ a ∈ sortedArray.1, a < key := fun a ha =>
      not_le.mp fun hle => hnone ⟨a, ha, hle⟩
    rw [Ends.unique ⟨rounds, hrun⟩ (runs_off hsmaller)] at hfound
    exact hfound
  · intro hkey
    obtain ⟨result, ⟨rounds, hrun⟩, hfound⟩ :=
      ends_of_variant Window.width (fun _ hw => Narrowed.round sortedArray.2 hkey hw)
        narrowed_start
    exact ⟨rounds, result, hrun, hfound⟩

end Search

/-- A key behind the last element. -/
theorem search_reads_behind :
    ¬ ∀ (sortedArray : Ascending ℤ) (key : ℤ), MeetsContract sortedArray.1 key := by
  intro h
  obtain ⟨rounds, result, hrun, hfound⟩ := h ⟨[1, 2], by decide⟩ 3
  have hoff : Ends (round [1, 2] (3 : ℤ)) ⟨0, 2⟩ (.error (.undefined .readPastBlock)) :=
    ⟨4, by decide⟩
  rw [Ends.unique ⟨rounds, hrun⟩ hoff] at hfound
  exact hfound

end Win64Server.BinarySearch
