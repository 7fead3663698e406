import Mathlib.Data.List.Basic

/-!
Incremental framing. A framer recognises a complete frame at the head of the received symbols
and says what is left behind it. When its verdict does not change as more symbols arrive, the
frames found in a stream do not depend on how the stream was cut into received pieces.
-/
namespace Win64Server.Library

structure Framer (β F : Type) where
  next : List β → Option (F × List β)
  shrinks : ∀ bs f rest, next bs = some (f, rest) → rest.length < bs.length
  stable : ∀ bs f rest more, next bs = some (f, rest) → next (bs ++ more) = some (f, rest ++ more)

namespace Framer

variable {β F : Type} (framer : Framer β F)

/-- The frames at the head of the symbols, and what is left when no further one is complete. -/
inductive Frames : List β → List F → List β → Prop
  | stop {bs : List β} (hnone : framer.next bs = none) : Frames bs [] bs
  | cons {bs rest tail : List β} {f : F} {fs : List F} (hnext : framer.next bs = some (f, rest))
      (hrest : Frames rest fs tail) : Frames bs (f :: fs) tail

/-- A frame starts, complete or not, at the head of the nonempty second list. -/
inductive Starts : List β → List β → Prop
  | here {bs : List β} (hne : bs ≠ []) : Starts bs bs
  | later {bs rest x : List β} {f : F} (hnext : framer.next bs = some (f, rest))
      (hrest : Starts rest x) : Starts bs x

theorem frames_exist (bs : List β) : ∃ fs tail, framer.Frames bs fs tail := by
  induction h : bs.length using Nat.strongRecOn generalizing bs with
  | ind n ih =>
    cases hnext : framer.next bs with
    | none => exact ⟨[], bs, .stop hnext⟩
    | some p =>
      obtain ⟨f, rest⟩ := p
      have hlt : rest.length < n := h ▸ framer.shrinks bs f rest hnext
      obtain ⟨fs, tail, hrest⟩ := ih rest.length hlt rest rfl
      exact ⟨f :: fs, tail, .cons hnext hrest⟩

variable {framer}

theorem Frames.unique {bs tail tail' : List β} {fs fs' : List F} (h : framer.Frames bs fs tail)
    (h' : framer.Frames bs fs' tail') : fs = fs' ∧ tail = tail' := by
  induction h generalizing fs' with
  | stop hnone =>
    cases h' with
    | stop _ => exact ⟨rfl, rfl⟩
    | cons hnext _ => simp [hnone] at hnext
  | cons hnext hrest ih =>
    cases h' with
    | stop hnone => simp [hnext] at hnone
    | cons hnext' hrest' =>
      rw [hnext] at hnext'
      cases hnext'
      obtain ⟨rfl, rfl⟩ := ih hrest'
      exact ⟨rfl, rfl⟩

/-- The frames of a stream are those of its first part, followed by those found once the second
part is put behind what the first left over. -/
theorem Frames.append {bs mid tail more : List β} {fs gs : List F}
    (h : framer.Frames bs fs mid) (hmore : framer.Frames (mid ++ more) gs tail) :
    framer.Frames (bs ++ more) (fs ++ gs) tail := by
  induction h with
  | stop hnone => exact hmore
  | cons hnext hrest ih => exact .cons (framer.stable _ _ _ more hnext) (ih hmore)

theorem Starts.append {bs x : List β} (h : framer.Starts bs x) (more : List β) :
    framer.Starts (bs ++ more) (x ++ more) := by
  induction h with
  | here hne => exact .here (by simp [hne])
  | later hnext hrest ih => exact .later (framer.stable _ _ _ more hnext) ih

/-- Frame starts found after some frames were taken off are frame starts of the whole. -/
theorem Frames.starts {bs mid more x : List β} {fs : List F} (h : framer.Frames bs fs mid)
    (hx : framer.Starts (mid ++ more) x) : framer.Starts (bs ++ more) x := by
  induction h with
  | stop hnone => exact hx
  | cons hnext hrest ih => exact .later (framer.stable _ _ _ more hnext) (ih hx)

/-- Complete frames one after the other, and a piece that is none. -/
theorem frames_flatten {f : List β → F} {messages : List (List β)} {tail : List β}
    (h : ∀ m ∈ messages, framer.next m = some (f m, [])) (htail : framer.next tail = none) :
    framer.Frames (messages.flatten ++ tail) (messages.map f) tail := by
  induction messages with
  | nil => exact .stop htail
  | cons m messages ih =>
    obtain ⟨hm, hrest⟩ := List.forall_mem_cons.mp h
    rw [List.flatten_cons, List.append_assoc, List.map_cons]
    exact .cons (framer.stable _ _ _ _ hm) (ih hrest)

/-- What is short of a complete frame is not yet one. -/
theorem next_eq_none {m part missing : List β} {f : F} (h : framer.next m = some (f, []))
    (hm : m = part ++ missing) (hmissing : missing ≠ []) : framer.next part = none := by
  cases hpart : framer.next part with
  | none => rfl
  | some p =>
    have hstable := framer.stable part p.1 p.2 missing hpart
    rw [← hm, h, Option.some_inj, Prod.mk.injEq] at hstable
    exact absurd (List.append_eq_nil_iff.mp hstable.2.symm).2 hmissing

end Framer

end Win64Server.Library
