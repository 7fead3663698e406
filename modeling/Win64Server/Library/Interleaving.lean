import Win64Server.Library.Outcome
import Mathlib.Logic.Function.Basic
import Mathlib.Logic.Relation

/-!
Threads that share a state. A thread is the list of the atomic actions it still has to perform;
performing an action may put further ones in front of the rest. The threads take their actions
one at a time in any order, and the state may change from outside in between. A thread that runs
alone is compared with a program over the state.
-/
namespace Win64Server.Library

open Outcome Relation

variable {α β ε σ : Type} {perform : α → EStateM ε σ (List α)}

/-- A thread performs all its actions with nothing in between. -/
inductive Alone (perform : α → EStateM ε σ (List α)) : List α → σ → σ → Prop
  | nil (s : σ) : Alone perform [] s s
  | cons {a : α} {rest new : List α} {s m t : σ} (hrun : (perform a).run s = .ok new m)
      (hrest : Alone perform (new ++ rest) m t) : Alone perform (a :: rest) s t

theorem alone_append {xs ys : List α} {s t : σ} :
    Alone perform (xs ++ ys) s t ↔ ∃ m, Alone perform xs s m ∧ Alone perform ys m t := by
  constructor
  · intro h
    generalize hzs : xs ++ ys = zs at h
    induction h generalizing xs with
    | nil s =>
      obtain ⟨rfl, rfl⟩ := List.append_eq_nil_iff.mp hzs
      exact ⟨s, .nil s, .nil s⟩
    | cons hrun hrest ih =>
      cases xs with
      | nil =>
        subst hzs
        exact ⟨_, .nil _, .cons hrun hrest⟩
      | cons x xs =>
        obtain ⟨rfl, rfl⟩ := List.cons_eq_cons.mp hzs
        obtain ⟨m, hfirst, hsecond⟩ := ih (List.append_assoc _ _ _)
        exact ⟨m, .cons hrun hfirst, hsecond⟩
  · rintro ⟨m, hfirst, hsecond⟩
    induction hfirst with
    | nil s => exact hsecond
    | cons hrun _ ih =>
      rw [List.cons_append]
      refine .cons hrun ?_
      rw [← List.append_assoc]
      exact ih hsecond

/-- The actions, performed alone, do what the program does. -/
def Implements (perform : α → EStateM ε σ (List α)) (actions : List α)
    (program : EStateM ε σ PUnit) : Prop :=
  ∀ s t, Alone perform actions s t ↔ program.run s = .ok PUnit.unit t

namespace Implements

theorem nil : Implements perform [] (pure PUnit.unit) := by
  intro s t
  constructor
  · intro h
    cases h
    rfl
  · intro h
    cases h
    exact .nil s

theorem append {xs ys : List α} {x y : EStateM ε σ PUnit} (hx : Implements perform xs x)
    (hy : Implements perform ys y) : Implements perform (xs ++ ys) (x >>= fun _ => y) := by
  intro s t
  rw [alone_append, run_bind_ok]
  constructor
  · rintro ⟨m, hfirst, hsecond⟩
    exact ⟨PUnit.unit, m, (hx s m).mp hfirst, (hy m t).mp hsecond⟩
  · rintro ⟨_, m, hfirst, hsecond⟩
    exact ⟨m, (hx s m).mpr hfirst, (hy m t).mpr hsecond⟩

/-- One action that goes on with the actions its result asks for. -/
theorem act {a : α} {op : EStateM ε σ β} {next : β → List α} {y : β → EStateM ε σ PUnit}
    (hperform : perform a = next <$> op)
    (h : ∀ b, Implements perform (next b) (y b)) : Implements perform [a] (op >>= y) := by
  intro s t
  rw [run_bind_ok]
  constructor
  · intro halone
    cases halone with
    | cons hrun hrest =>
      rw [hperform] at hrun
      obtain ⟨b, hop, rfl⟩ := run_map_ok.mp hrun
      rw [List.append_nil] at hrest
      exact ⟨b, _, hop, (h b _ t).mp hrest⟩
  · rintro ⟨b, m, hop, hy⟩
    refine .cons (by rw [hperform]; exact run_map_ok.mpr ⟨b, hop, rfl⟩) ?_
    rw [List.append_nil]
    exact (h b m t).mpr hy

/-- One action that puts nothing in front of the rest. -/
theorem last {a : α} {x : EStateM ε σ PUnit} (hperform : perform a = (fun _ => []) <$> x) :
    Implements perform [a] x := by
  have h : Implements perform [a] (x >>= fun _ => pure PUnit.unit) := act hperform fun _ => nil
  rwa [bind_pure_unit] at h

theorem cons {a : α} {rest : List α} {x y : EStateM ε σ PUnit}
    (hperform : perform a = (fun _ => []) <$> x) (hrest : Implements perform rest y) :
    Implements perform (a :: rest) (x >>= fun _ => y) :=
  append (last hperform) hrest

theorem congr {actions : List α} {x y : EStateM ε σ PUnit} (h : Implements perform actions x)
    (heq : ∀ s, y.run s = x.run s) : Implements perform actions y := by
  intro s t
  rw [h s t, heq]

theorem forM {f : β → α} {g : β → EStateM ε σ PUnit} (h : ∀ b, Implements perform [f b] (g b))
    (xs : List β) : Implements perform (xs.map f) (xs.forM g) := by
  induction xs with
  | nil => exact nil
  | cons b xs ih =>
    rw [List.forM_eq_forM, List.forM_cons, List.map_cons, ← List.singleton_append]
    exact append (h b) ih

end Implements

/-- The threads, and the state they share. -/
structure Config (ι α σ : Type) where
  threads : ι → List α
  shared : σ

variable {ι : Type} [DecidableEq ι] {outside : σ → σ → Prop}
  {allowed : Config ι α σ → ι → α → Prop}

/-- A thread takes its next action, if it may, or the state changes from outside. -/
inductive Step (perform : α → EStateM ε σ (List α)) (outside : σ → σ → Prop)
    (allowed : Config ι α σ → ι → α → Prop) : Config ι α σ → Config ι α σ → Prop
  | act {c : Config ι α σ} {i : ι} {a : α} {rest new : List α} {t : σ}
      (hthread : c.threads i = a :: rest) (hallowed : allowed c i a)
      (hrun : (perform a).run c.shared = .ok new t) :
      Step perform outside allowed c ⟨Function.update c.threads i (new ++ rest), t⟩
  | outside {c : Config ι α σ} {t : σ} (h : outside c.shared t) :
      Step perform outside allowed c ⟨c.threads, t⟩

/-- A thread that runs alone is one of the interleavings. -/
theorem Alone.interleaved {actions : List α} {s t : σ} (h : Alone perform actions s t) (i : ι)
    (rest : List α) (threads : ι → List α) (hthread : threads i = actions ++ rest) :
    ReflTransGen (Step perform outside fun _ _ _ => True) ⟨threads, s⟩
      ⟨Function.update threads i rest, t⟩ := by
  induction h generalizing threads with
  | nil s =>
    rw [List.nil_append] at hthread
    rw [← hthread, Function.update_eq_self]
  | @cons a actions new s m t hrun _ ih =>
    have hnext := ih (Function.update threads i ((new ++ actions) ++ rest)) (by simp)
    rw [Function.update_idem] at hnext
    refine .head ?_ hnext
    rw [List.append_assoc]
    exact .act hthread trivial hrun

section Schedule

variable [∀ c i a, Decidable (allowed c i a)]

/-- The named thread takes its next action, if it may. -/
def Config.advance (perform : α → EStateM ε σ (List α)) (allowed : Config ι α σ → ι → α → Prop)
    [∀ c i a, Decidable (allowed c i a)] (c : Config ι α σ) (i : ι) : Option (Config ι α σ) :=
  match c.threads i with
  | [] => none
  | a :: rest =>
    if allowed c i a then
      match (perform a).run c.shared with
      | .ok new t => some ⟨Function.update c.threads i (new ++ rest), t⟩
      | .error _ _ => none
    else none

/-- The threads take their actions in this order. -/
def Config.schedule (perform : α → EStateM ε σ (List α)) (allowed : Config ι α σ → ι → α → Prop)
    [∀ c i a, Decidable (allowed c i a)] (c : Config ι α σ) (order : List ι) :
    Option (Config ι α σ) :=
  order.foldlM (Config.advance perform allowed) c

theorem Config.advance_step {c c' : Config ι α σ} {i : ι}
    (h : c.advance perform allowed i = some c') : Step perform outside allowed c c' := by
  unfold Config.advance at h
  cases hthread : c.threads i with
  | nil =>
    rw [hthread] at h
    cases h
  | cons a rest =>
    rw [hthread] at h
    dsimp only at h
    split at h
    next hallowed =>
      cases hrun : (perform a).run c.shared with
      | ok new t =>
        rw [hrun] at h
        cases h
        exact .act hthread hallowed hrun
      | error e t =>
        rw [hrun] at h
        cases h
    next => cases h

/-- Where that leads, if every thread has an action to take at its turns. -/
def Config.after (perform : α → EStateM ε σ (List α)) (allowed : Config ι α σ → ι → α → Prop)
    [∀ c i a, Decidable (allowed c i a)] (c : Config ι α σ) (order : List ι) : Config ι α σ :=
  (c.schedule perform allowed order).getD c

theorem Config.schedule_run {c c' : Config ι α σ} {order : List ι}
    (h : c.schedule perform allowed order = some c') :
    ReflTransGen (Step perform outside allowed) c c' := by
  induction order generalizing c with
  | nil =>
    cases h
    exact .refl
  | cons i order ih =>
    rw [Config.schedule, List.foldlM_cons] at h
    obtain ⟨m, hfirst, hrest⟩ := Option.bind_eq_some_iff.mp h
    exact .head (Config.advance_step hfirst) (ih hrest)

theorem Config.after_run {c : Config ι α σ} {order : List ι}
    (h : (c.schedule perform allowed order).isSome = true) :
    ReflTransGen (Step perform outside allowed) c (c.after perform allowed order) := by
  obtain ⟨c', hc'⟩ := Option.isSome_iff_exists.mp h
  rw [Config.after, hc', Option.getD_some]
  exact Config.schedule_run hc'

end Schedule

end Win64Server.Library
