import Win64Server.Library.Layout

/-!
Readers against encodings. A reader decodes a sequence of symbols to a value when, on every input
that begins with the sequence, it returns the value and takes exactly the sequence.
-/
namespace Win64Server.Library

open Outcome

variable {ε σ α γ β : Type} (cursor : Cursor σ β)

def Decodes (x : EStateM ε σ α) (p : List β) (a : α) : Prop :=
  ∀ s rest, cursor.view s = p ++ rest → ∃ t, x.run s = .ok a t ∧ cursor.Moved s p.length t

variable {cursor} {x : EStateM ε σ α} {f : α → EStateM ε σ γ} {p q : List β} {a : α} {c : γ}

namespace Decodes

theorem pure (a : α) : Decodes cursor (Pure.pure a : EStateM ε σ α) [] a :=
  fun s _ _ => ⟨s, rfl, cursor.refl s⟩

theorem bind (hx : Decodes cursor x p a) (hf : Decodes cursor (f a) q c) :
    Decodes cursor (x >>= f) (p ++ q) c := by
  intro s rest hs
  rw [List.append_assoc] at hs
  obtain ⟨t, hxt, ht⟩ := hx s (q ++ rest) hs
  have hview : cursor.view t = q ++ rest := by
    rw [cursor.view_of_moved ht, hs, List.drop_left]
  obtain ⟨u, hfu, hu⟩ := hf t rest hview
  refine ⟨u, (run_bind_of_ok hxt).trans hfu, ?_⟩
  rw [List.length_append]
  exact cursor.trans ht hu

theorem of_eq {b : α} (hx : Decodes cursor x p a) (h : a = b) : Decodes cursor x p b := h ▸ hx

theorem map (hx : Decodes cursor x p a) (g : α → γ) : Decodes cursor (g <$> x) p (g a) := by
  intro s rest hs
  obtain ⟨t, hxt, ht⟩ := hx s rest hs
  exact ⟨t, run_map_ok.mpr ⟨a, hxt, rfl⟩, ht⟩

/-- The last reader of a sequence, whose result is only returned. -/
theorem last (hx : Decodes cursor x p a) (hf : f a = Pure.pure c) :
    Decodes cursor (x >>= f) p c := by
  have h : Decodes cursor (x >>= f) (p ++ []) c := bind hx (by rw [hf]; exact pure c)
  rwa [List.append_nil] at h

/-- A list of readers, one after the other. -/
theorem mapM {ι : Type} {x : ι → EStateM ε σ α} {p : ι → List β} {a : ι → α} (is : List ι)
    (h : ∀ i ∈ is, Decodes cursor (x i) (p i) (a i)) :
    Decodes cursor (is.mapM x) (is.flatMap p) (is.map a) := by
  induction is with
  | nil => exact pure []
  | cons i is ih =>
    rw [List.mapM_cons, List.flatMap_cons, List.map_cons]
    refine (h i (by simp)).bind ?_
    exact (ih fun j hj => h j (by simp [hj])).last rfl

end Decodes

end Win64Server.Library
