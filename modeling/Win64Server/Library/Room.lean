import Mathlib.Data.List.Basic

/-!
Writing into a buffer that grows only when it is asked to. A writer either reserves the bytes of
a field before it stores them, and the buffer grows by that many when they do not fit, or it
stores them without asking. The demands of a record decide alone whether everything is stored
inside the buffer.
-/
namespace Win64Server.Library

/-- The fields of a record in the order they are written. `abort` is a writer that gives up. -/
inductive Demands
  | done
  | abort
  | reserved (n : ℕ) (next : Demands)
  | bare (n : ℕ) (next : Demands)

namespace Demands

/-- The room left after a reserved field: a field that does not fit leaves it as it was. -/
def afterReserved (room n : ℕ) : ℕ := if n ≤ room then room - n else room

/-- Every field finds the room it needs. -/
def Fits : ℕ → Demands → Prop
  | _, done | _, abort => True
  | room, reserved n next => Fits (afterReserved room n) next
  | room, bare n next => n ≤ room ∧ Fits (room - n) next

instance decidableFits : (room : ℕ) → (D : Demands) → Decidable (Fits room D)
  | _, done | _, abort => isTrue trivial
  | room, reserved n next => decidableFits (afterReserved room n) next
  | room, bare n next =>
    have := decidableFits (room - n) next
    inferInstanceAs (Decidable (n ≤ room ∧ Fits (room - n) next))

/-- The bytes of the record, when it is finished. -/
def total : Demands → Option ℕ
  | done => some 0
  | abort => none
  | reserved n next | bare n next => (n + ·) <$> next.total

/-- The bytes the buffer may grow by. -/
def growth : Demands → ℕ
  | done | abort => 0
  | reserved n next => n + next.growth
  | bare _ next => next.growth

/-- A record that fits is no longer than the room it found and the room it may have made. -/
theorem total_le {room n : ℕ} {D : Demands} (hfits : D.Fits room) (htotal : D.total = some n) :
    n ≤ room + D.growth := by
  induction D generalizing room n with
  | done =>
    cases htotal
    exact Nat.zero_le _
  | abort => cases htotal
  | reserved k next ih =>
    simp only [total, Option.map_eq_map, Option.map_eq_some_iff] at htotal
    obtain ⟨m, hm, rfl⟩ := htotal
    have hnext := ih hfits hm
    simp only [growth]
    unfold afterReserved at hnext
    split at hnext <;> omega
  | bare k next ih =>
    simp only [total, Option.map_eq_map, Option.map_eq_some_iff] at htotal
    obtain ⟨m, hm, rfl⟩ := htotal
    obtain ⟨hk, hrest⟩ := hfits
    have hnext := ih hrest hm
    simp only [growth]
    omega

end Demands

end Win64Server.Library
