import Mathlib.Data.List.Basic
import Mathlib.Data.Nat.Find

/-!
Maximal runs of marked symbols. A run is a stretch of a word, given by its two ends, whose symbols
all have the mark while the symbols at its borders do not. Every marked symbol lies in one run,
and the runs of a word in their order spell the word without its other symbols.
-/
namespace Win64Server.Library

variable {α : Type} (p : α → Bool) (word : List α)

/-- The symbol at this position is there and has the mark. -/
def Marked (i : ℕ) : Prop := ∃ a, word[i]? = some a ∧ p a = true

structure MaximalRun (start stop : ℕ) : Prop where
  lt : start < stop
  all : ∀ i, start ≤ i → i < stop → Marked p word i
  before : ∀ i, i + 1 = start → ¬ Marked p word i
  after : ¬ Marked p word stop

/-- The symbols from one position up to another. -/
def stretch (run : ℕ × ℕ) : List α := (word.drop run.1).take (run.2 - run.1)

variable {p word} {start stop start' stop' i : ℕ}

theorem Marked.lt_length (h : Marked p word i) : i < word.length := by
  obtain ⟨a, ha, -⟩ := h
  exact (List.getElem?_eq_some_iff.mp ha).1

theorem marked_iff (h : i < word.length) : Marked p word i ↔ p word[i] = true := by
  simp [Marked, List.getElem?_eq_getElem h]

namespace MaximalRun

theorem stop_le (h : MaximalRun p word start stop) : stop ≤ word.length := by
  have hlt := h.lt
  have hlast := (h.all (stop - 1) (by omega) (by omega)).lt_length
  omega

/-- A run that begins earlier ends before the other one begins. -/
theorem stop_lt (h : MaximalRun p word start stop) (h' : MaximalRun p word start' stop')
    (hlt : start < start') : stop < start' := by
  have hfirst := h'.all start' le_rfl h'.lt
  by_contra hle
  rcases Nat.eq_or_lt_of_le (not_lt.mp hle) with heq | hinside
  · exact h.after (heq ▸ hfirst)
  · exact h'.before (start' - 1) (by omega) (h.all _ (by omega) (by omega))

theorem stop_unique (h : MaximalRun p word start stop) (h' : MaximalRun p word start stop') :
    stop = stop' := by
  rcases Nat.lt_trichotomy stop stop' with hlt | heq | hgt
  · exact absurd (h'.all stop (Nat.le_of_lt h.lt) hlt) h.after
  · exact heq
  · exact absurd (h.all stop' (Nat.le_of_lt h'.lt) hgt) h'.after

theorem stretch_length (h : MaximalRun p word start stop) :
    (stretch word (start, stop)).length = stop - start := by
  have hstop := h.stop_le
  rw [stretch, List.length_take, List.length_drop]
  exact Nat.min_eq_left (by omega)

theorem stretch_marked (h : MaximalRun p word start stop) {a : α}
    (ha : a ∈ stretch word (start, stop)) : p a = true := by
  obtain ⟨j, hj, rfl⟩ := List.mem_iff_getElem.mp ha
  have hlength := h.stretch_length
  have hstop := h.stop_le
  have hmarked := h.all (start + j) (by omega) (by omega)
  rw [marked_iff (by omega)] at hmarked
  simpa [stretch] using hmarked

theorem stretch_ne_nil (h : MaximalRun p word start stop) : stretch word (start, stop) ≠ [] := by
  have hlt := h.lt
  have hlength := h.stretch_length
  intro hnil
  rw [hnil, List.length_nil] at hlength
  omega

end MaximalRun

open Classical in
/-- A marked symbol lies in a run. -/
theorem exists_maximalRun (h : Marked p word i) :
    ∃ start stop, MaximalRun p word start stop ∧ start ≤ i ∧ i < stop := by
  have hstop : ∃ j, i ≤ j ∧ ¬ Marked p word j :=
    ⟨max i word.length, le_max_left _ _, fun hm => by
      have hlt := hm.lt_length
      omega⟩
  have hstart : ∃ j, ∀ k, j ≤ k → k ≤ i → Marked p word k := by
    refine ⟨i, fun k hlow hhigh => ?_⟩
    obtain rfl : k = i := by omega
    exact h
  obtain ⟨hle, hafter⟩ := Nat.find_spec hstop
  have hne : Nat.find hstop ≠ i := fun heq => hafter (by rwa [heq])
  have hfirst : Nat.find hstart ≤ i := Nat.find_le fun k hlow hhigh => by
    obtain rfl : k = i := by omega
    exact h
  refine ⟨Nat.find hstart, Nat.find hstop, ⟨by omega, fun k hlow hhigh => ?_, ?_, hafter⟩, hfirst,
    by omega⟩
  · rcases Nat.lt_or_ge i k with hik | hki
    · by_contra hnot
      exact Nat.find_min hstop hhigh ⟨Nat.le_of_lt hik, hnot⟩
    · exact Nat.find_spec hstart k hlow hki
  · intro j hj hmarked
    refine Nat.find_min hstart (m := j) (by omega) fun k hlow hhigh => ?_
    rcases Nat.eq_or_lt_of_le hlow with rfl | hlt
    · exact hmarked
    · exact Nat.find_spec hstart k (by omega) hhigh

/-- A list of all runs of a word, in their order. -/
structure RunsOf (p : α → Bool) (word : List α) (runs : List (ℕ × ℕ)) : Prop where
  mem_iff : ∀ start stop, (start, stop) ∈ runs ↔ MaximalRun p word start stop
  ordered : runs.Pairwise fun r q => r.2 < q.1

/-- What lies before the first of some runs and between them has no mark. -/
theorem flatten_stretch {runs : List (ℕ × ℕ)} {first : ℕ}
    (hordered : runs.Pairwise fun r q => r.2 < q.1)
    (hruns : ∀ run ∈ runs, first ≤ run.1 ∧ MaximalRun p word run.1 run.2)
    (hcover : ∀ i, first ≤ i → Marked p word i → ∃ run ∈ runs, run.1 ≤ i ∧ i < run.2) :
    (runs.map (stretch word)).flatten = (word.drop first).filter p := by
  induction runs generalizing first with
  | nil =>
    have hnone : ∀ a ∈ word.drop first, ¬ p a = true := by
      intro a ha hmark
      obtain ⟨j, hj, rfl⟩ := List.mem_iff_getElem.mp ha
      rw [List.length_drop] at hj
      rw [List.getElem_drop] at hmark
      obtain ⟨run, hrun, -⟩ := hcover (first + j) (by omega) ((marked_iff (by omega)).mpr hmark)
      cases hrun
    rw [List.filter_eq_nil_iff.mpr hnone]
    rfl
  | cons run runs ih =>
    obtain ⟨hlow, hrun⟩ := hruns run List.mem_cons_self
    obtain ⟨hbehind, hrest⟩ := List.pairwise_cons.mp hordered
    have hlt := hrun.lt
    have hskip : word.drop first =
        (word.drop first).take (run.1 - first) ++ (stretch word run ++ word.drop run.2) := by
      have hjoin : stretch word run ++ word.drop run.2 = word.drop run.1 := by
        have hback : word.drop run.2 = (word.drop run.1).drop (run.2 - run.1) := by
          rw [List.drop_drop]
          congr 1
          omega
        rw [hback, stretch, List.take_append_drop]
      have hback : word.drop run.1 = (word.drop first).drop (run.1 - first) := by
        rw [List.drop_drop]
        congr 1
        omega
      rw [hjoin, hback, List.take_append_drop]
    have hgap : ∀ a ∈ (word.drop first).take (run.1 - first), ¬ p a = true := by
      intro a ha hmark
      obtain ⟨j, hj, rfl⟩ := List.mem_iff_getElem.mp ha
      rw [List.length_take, List.length_drop] at hj
      rw [List.getElem_take, List.getElem_drop] at hmark
      obtain ⟨other, hother, hle, -⟩ :=
        hcover (first + j) (by omega) ((marked_iff (by omega)).mpr hmark)
      rcases List.mem_cons.mp hother with rfl | hlater
      · omega
      · have hfar := hbehind other hlater
        omega
    have hself : (stretch word run).filter p = stretch word run :=
      List.filter_eq_self.mpr fun a ha => hrun.stretch_marked ha
    have hlater : ∀ other ∈ runs, run.2 ≤ other.1 ∧ MaximalRun p word other.1 other.2 :=
      fun other hother => ⟨Nat.le_of_lt (hbehind other hother),
        (hruns other (List.mem_cons_of_mem _ hother)).2⟩
    have hcover' : ∀ i, run.2 ≤ i → Marked p word i →
        ∃ other ∈ runs, other.1 ≤ i ∧ i < other.2 := by
      intro i hi hmark
      obtain ⟨other, hother, hin⟩ := hcover i (by omega) hmark
      rcases List.mem_cons.mp hother with rfl | hmem
      · omega
      · exact ⟨other, hmem, hin⟩
    rw [hskip, List.filter_append, List.filter_append, List.filter_eq_nil_iff.mpr hgap, hself,
      List.map_cons, List.flatten_cons, ih hrest hlater hcover', List.nil_append]

namespace RunsOf

variable {runs : List (ℕ × ℕ)}

theorem flatten_eq_filter (h : RunsOf p word runs) :
    (runs.map (stretch word)).flatten = word.filter p := by
  have hruns : ∀ run ∈ runs, 0 ≤ run.1 ∧ MaximalRun p word run.1 run.2 :=
    fun run hrun => ⟨Nat.zero_le _, (h.mem_iff run.1 run.2).mp hrun⟩
  have hcover : ∀ i, 0 ≤ i → Marked p word i → ∃ run ∈ runs, run.1 ≤ i ∧ i < run.2 := by
    intro i _ hmark
    obtain ⟨start, stop, hrun, hlow, hhigh⟩ := exists_maximalRun hmark
    exact ⟨(start, stop), (h.mem_iff start stop).mpr hrun, hlow, hhigh⟩
  have hflatten := flatten_stretch h.ordered hruns hcover
  rwa [List.drop_zero] at hflatten

/-- Neighbours are in one run exactly when both have the mark. -/
theorem adjacent_iff (h : RunsOf p word runs) :
    (∃ run ∈ runs, run.1 ≤ i ∧ i + 1 < run.2) ↔ Marked p word i ∧ Marked p word (i + 1) := by
  constructor
  · rintro ⟨run, hrun, hlow, hhigh⟩
    have hmax := (h.mem_iff run.1 run.2).mp hrun
    exact ⟨hmax.all i hlow (by omega), hmax.all (i + 1) (by omega) hhigh⟩
  · rintro ⟨hfirst, hsecond⟩
    obtain ⟨start, stop, hrun, hlow, hhigh⟩ := exists_maximalRun hfirst
    refine ⟨(start, stop), (h.mem_iff start stop).mpr hrun, hlow, ?_⟩
    rcases Nat.eq_or_lt_of_le (Nat.succ_le_of_lt hhigh) with heq | hlt
    · exact absurd (heq ▸ hsecond) hrun.after
    · exact hlt

end RunsOf

end Win64Server.Library
