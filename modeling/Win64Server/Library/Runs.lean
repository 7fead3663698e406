import Mathlib.Data.List.Induction
import Mathlib.Data.List.Infix
import Mathlib.Logic.Relation

/-!
Properties along a run. A run applies events one after the other; a property that a step keeps
exactly under a condition on the state and the event holds all along a run exactly when every
step meets the condition.
-/
namespace Win64Server.Library

variable {σ ε : Type} {step : σ → ε → σ} {Inv P : σ → Prop} {C : σ → ε → Prop}

theorem inv_of_along (hinv : ∀ s e, Inv s → P s → Inv (step s e)) {s : σ} (hInv : Inv s)
    (events : List ε) (hall : ∀ before, before <+: events → P (before.foldl step s)) :
    Inv (events.foldl step s) := by
  induction events using List.reverseRecOn with
  | nil => exact hInv
  | append_singleton events e ih =>
    rw [List.foldl_append]
    have hbefore : events <+: events ++ [e] := List.prefix_append _ _
    exact hinv _ _ (ih fun before hb => hall before (hb.trans hbefore)) (hall _ hbefore)

/-- `Inv` may rely on the property that is followed along the run. -/
theorem along_run_iff (hinv : ∀ s e, Inv s → P s → Inv (step s e))
    (hstep : ∀ s e, Inv s → P s → (P (step s e) ↔ C s e)) {s : σ} (hInv : Inv s) (hP : P s)
    (events : List ε) :
    (∀ before, before <+: events → P (before.foldl step s)) ↔
      ∀ before e, before ++ [e] <+: events → C (before.foldl step s) e := by
  induction events using List.reverseRecOn with
  | nil => simp [hP]
  | append_singleton events e ih =>
    -- Along the first part both sides speak of the same states, so only the last step is new.
    have hlast : (∀ before, before <+: events → P (before.foldl step s)) →
        Inv (events.foldl step s) := inv_of_along hinv hInv events
    constructor
    · intro hall before e' hpre
      have hfirst : ∀ before, before <+: events → P (before.foldl step s) :=
        fun b hb => hall b (hb.trans (List.prefix_append _ _))
      rcases List.prefix_concat_iff.mp hpre with heq | hpre
      · obtain ⟨rfl, he⟩ := List.append_inj' heq rfl
        obtain rfl := List.singleton_inj.mp he
        have hend := hall _ hpre
        rw [List.foldl_append] at hend
        exact (hstep _ _ (hlast hfirst) (hfirst _ (List.prefix_refl _))).mp hend
      · exact ih.mp hfirst before e' hpre
    · intro hall before hpre
      have hfirst : ∀ before, before <+: events → P (before.foldl step s) :=
        ih.mpr fun b e' hb => hall b e' (hb.trans (List.prefix_append _ _))
      rcases List.prefix_concat_iff.mp hpre with rfl | hpre
      · rw [List.foldl_append]
        exact (hstep _ _ (hlast hfirst) (hfirst _ (List.prefix_refl _))).mpr
          (hall _ _ (List.prefix_refl _))
      · exact hfirst before hpre

/-- Every event of a run meets a condition in the state in which it happens. -/
def EachStep (step : σ → ε → σ) (C : σ → ε → Prop) : σ → List ε → Prop
  | _, [] => True
  | s, e :: events => C s e ∧ EachStep step C (step s e) events

instance decidableEachStep [∀ s e, Decidable (C s e)] :
    ∀ (s : σ) (events : List ε), Decidable (EachStep step C s events)
  | _, [] => .isTrue trivial
  | s, e :: events =>
    have : Decidable (EachStep step C (step s e) events) := decidableEachStep _ events
    inferInstanceAs (Decidable (C s e ∧ EachStep step C (step s e) events))

/-- An invariant that every step keeps under the condition, with what the two give at each step. -/
theorem EachStep.run {D : σ → ε → Prop} (hinv : ∀ s e, Inv s → C s e → Inv (step s e))
    (hgives : ∀ s e, Inv s → C s e → D s e) {s : σ} (hs : Inv s) {events : List ε}
    (h : EachStep step C s events) :
    EachStep step D s events ∧ Inv (events.foldl step s) := by
  induction events generalizing s with
  | nil => exact ⟨trivial, hs⟩
  | cons e events ih =>
    obtain ⟨hfirst, hrest⟩ := h
    obtain ⟨hD, hend⟩ := ih (hinv s e hs hfirst) hrest
    exact ⟨⟨hgives s e hs hfirst, hD⟩, hend⟩

/-- Two conditions that agree at every step of a run, one of which keeps the invariant that makes
them agree. -/
theorem EachStep.iff_of_inv {D R : σ → ε → Prop} {s : σ} {events : List ε}
    (hR : EachStep step R s events) (hinv : ∀ s e, Inv s → D s e → Inv (step s e))
    (hiff : ∀ s e, Inv s → R s e → (D s e ↔ C s e)) (hs : Inv s) :
    EachStep step D s events ↔ EachStep step C s events := by
  induction events generalizing s with
  | nil => exact Iff.rfl
  | cons e events ih =>
    have hfirst := hiff s e hs hR.1
    constructor
    · intro h
      exact ⟨hfirst.mp h.1, (ih hR.2 (hinv s e hs h.1)).mp h.2⟩
    · intro h
      have hD := hfirst.mpr h.1
      exact ⟨hD, (ih hR.2 (hinv s e hs hD)).mpr h.2⟩

/-- What no step undoes holds at the end of a run. -/
theorem foldl_inv {Q : σ → Prop} (hstable : ∀ s e, Q s → Q (step s e)) {s : σ} (h : Q s)
    (events : List ε) : Q (events.foldl step s) := by
  induction events generalizing s with
  | nil => exact h
  | cons e events ih => exact ih (hstable s e h)

/-- It is still so later in the run. -/
theorem foldl_stable {Q : σ → Prop} (hstable : ∀ s e, Q s → Q (step s e)) {s : σ}
    {before events : List ε} (hbefore : before <+: events) (h : Q (before.foldl step s)) :
    Q (events.foldl step s) := by
  obtain ⟨rest, rfl⟩ := hbefore
  rw [List.foldl_append]
  exact foldl_inv hstable h rest

/-- When a step that does not meet the condition leaves a mark for good, a run without the mark
meets the condition at every step. -/
theorem EachStep.of_unmarked {Q : σ → Prop} (hinv : ∀ s e, Inv s → C s e → Inv (step s e))
    (hbroken : ∀ s e, Inv s → ¬ C s e → Q (step s e)) (hstable : ∀ s e, Q s → Q (step s e)) {s : σ}
    (hs : Inv s) {events : List ε} (h : ¬ Q (events.foldl step s)) : EachStep step C s events := by
  induction events generalizing s with
  | nil => trivial
  | cons e events ih =>
    have hfirst : C s e := by
      by_contra hnot
      exact h (foldl_inv hstable (hbroken s e hs hnot) events)
    exact ⟨hfirst, ih (hinv s e hs hfirst) h⟩

section Output

variable {ω : Type} {emit : σ → ε → List ω}

/-- What the steps of a run put out, one after the other. -/
def emitted (step : σ → ε → σ) (emit : σ → ε → List ω) : σ → List ε → List ω
  | _, [] => []
  | s, e :: events => emit s e ++ emitted step emit (step s e) events

/-- When each step adds its own output to what has been put out before, a run adds the outputs of
its steps in their order. -/
theorem foldl_emitted (out : σ → List ω) (h : ∀ s e, out (step s e) = out s ++ emit s e) (s : σ)
    (events : List ε) : out (events.foldl step s) = out s ++ emitted step emit s events := by
  induction events generalizing s with
  | nil => exact (List.append_nil _).symm
  | cons e events ih =>
    rw [List.foldl_cons, ih, h, List.append_assoc]
    rfl

variable {β : Type} {said : ω → Option β} {new : List ω} {b : β}

/-- The last value that is said in an output. -/
def lastSaid (said : ω → Option β) (output : List ω) : Option β := (output.filterMap said).getLast?

theorem lastSaid_append (old new : List ω) :
    lastSaid said (old ++ new) = (lastSaid said new).or (lastSaid said old) := by
  rw [lastSaid, List.filterMap_append, List.getLast?_append]
  rfl

/-- An output that says this value or nothing. -/
theorem lastSaid_cases (h : ∀ o ∈ new, ∀ c, said o = some c → c = b) :
    lastSaid said new = none ∨ lastSaid said new = some b := by
  cases hlast : lastSaid said new with
  | none => exact Or.inl rfl
  | some c =>
    obtain ⟨o, ho, hc⟩ := List.mem_filterMap.mp (List.mem_of_getLast? hlast)
    rw [h o ho c hc]
    exact Or.inr rfl

theorem lastSaid_ne_none {o : ω} (ho : o ∈ new) (hsaid : said o = some b) :
    lastSaid said new ≠ none := by
  intro hnone
  have hmem : b ∈ new.filterMap said := List.mem_filterMap.mpr ⟨o, ho, hsaid⟩
  rw [List.getLast?_eq_none_iff.mp hnone] at hmem
  exact absurd hmem List.not_mem_nil

end Output

/-- Some run from here ends in a state with the property. -/
def Leads (next : σ → σ → Prop) (P : σ → Prop) (s : σ) : Prop :=
  ∃ t, Relation.ReflTransGen next s t ∧ P t

namespace Leads

variable {next : σ → σ → Prop} {s t : σ}

theorem here (h : P s) : Leads next P s := ⟨s, .refl, h⟩

theorem after (hnext : next s t) (h : Leads next P t) : Leads next P s := by
  obtain ⟨u, hrun, hu⟩ := h
  exact ⟨u, .head hnext hrun, hu⟩

end Leads

end Win64Server.Library
