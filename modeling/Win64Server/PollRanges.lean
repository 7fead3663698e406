import Win64Server.Library.Tiling
import Win64Server.Polling

/-!
The ranges that the timer hands out, for any number of them. The loop carries the end of the last
range and the clients that the division leaves over, and each of the first ranges takes one of
these.
-/
namespace Win64Server.Polling

open Library

/-- What `timer_function` computes for a list of so many clients, with another number of ranges
in place of `PROCESS_THREADS`. -/
def rangesInto (processThreads numClients : ℕ) : List (ℕ × ℕ) :=
  rangesFrom (numClients / processThreads) processThreads 0 (numClients % processThreads)

theorem ranges_eq (numClients : ℕ) : ranges numClients = rangesInto processThreads numClients :=
  rfl

section Loop

variable (clientsPerThread : ℕ) {rounds first remaining : ℕ}

theorem rangesFrom_length (rounds first remaining : ℕ) :
    (rangesFrom clientsPerThread rounds first remaining).length = rounds := by
  induction rounds generalizing first remaining with
  | zero => rfl
  | succ rounds ih => rw [rangesFrom, List.length_cons, ih]

/-- The clients left over are used up when there are no more of them than ranges. -/
theorem rangesFrom_tiles (h : remaining ≤ rounds) :
    Tiles first (rangesFrom clientsPerThread rounds first remaining)
      (first + rounds * clientsPerThread + remaining) := by
  induction rounds generalizing first remaining with
  | zero =>
    obtain rfl : remaining = 0 := by omega
    simpa [rangesFrom] using Tiles.nil first
  | succ rounds ih =>
    rw [rangesFrom]
    refine .cons ?_ ?_
    · omega
    · have hleft : remaining - 1 ≤ rounds := by omega
      convert ih hleft using 1
      rw [Nat.succ_mul]
      split <;> omega

theorem rangesFrom_size {range : ℕ × ℕ}
    (h : range ∈ rangesFrom clientsPerThread rounds first remaining) :
    range.2 = range.1 + clientsPerThread ∨ range.2 = range.1 + clientsPerThread + 1 := by
  induction rounds generalizing first remaining with
  | zero => cases h
  | succ rounds ih =>
    rcases List.mem_cons.mp h with rfl | hrest
    · dsimp only
      split
      · exact Or.inr rfl
      · exact Or.inl rfl
    · exact ih hrest

end Loop

/-- The ranges are consecutive, disjoint and as even as they can be, and they cover the clients. -/
theorem ranges_partition (numClients processThreads : ℕ) (hthreads : 1 ≤ processThreads) :
    let ranges := rangesInto processThreads numClients
    ranges.length = processThreads ∧ Tiles 0 ranges numClients ∧
      ranges.Pairwise (fun r q => Disjoint (Set.Ico r.1 r.2) (Set.Ico q.1 q.2)) ∧
      (∀ i, (∃ range ∈ ranges, i ∈ Set.Ico range.1 range.2) ↔ i < numClients) ∧
      ∀ r ∈ ranges, ∀ q ∈ ranges, r.2 - r.1 ≤ q.2 - q.1 + 1 := by
  intro ranges
  have hmod := Nat.mod_lt numClients hthreads
  have htiles : Tiles 0 ranges numClients := by
    have h : Tiles 0 ranges (0 + processThreads * (numClients / processThreads) +
        numClients % processThreads) := rangesFrom_tiles _ hmod.le
    rwa [Nat.zero_add, Nat.div_add_mod] at h
  refine ⟨rangesFrom_length _ _ _ _, htiles, htiles.pairwise_disjoint, fun i => ?_, ?_⟩
  · rw [htiles.mem_iff, Set.mem_Ico]
    exact and_iff_right (Nat.zero_le i)
  · intro r hr q hq
    have hrsize := rangesFrom_size _ hr
    have hqsize := rangesFrom_size _ hq
    omega

/-- Seven clients in three ranges. -/
theorem ranges_partition_seven : rangesInto 3 7 = [(0, 3), (3, 5), (5, 7)] ∧
    Tiles 0 (rangesInto 3 7) 7 :=
  ⟨by decide, (ranges_partition 7 3 (by decide)).2.1⟩

end Win64Server.Polling
