import Mathlib.Data.List.AList
import Mathlib.Data.Set.Function

/-!
A table of objects and a second table that finds the same objects by one of their keys. Putting
an object into both tables overwrites what either held before, so the two keep agreeing exactly
when the entries that are overwritten belong to the same object.
-/
namespace Win64Server.Library

variable {σ κ α : Type} [DecidableEq σ] [DecidableEq κ]

/-- The second table finds every object of the first by its key, and finds no others. -/
structure Mirrors (table : AList fun _ : σ => α) (index : AList fun _ : κ => α) (key : α → κ) :
    Prop where
  finds : ∀ s a, table.lookup s = some a → index.lookup (key a) = some a
  only : ∀ k a, index.lookup k = some a → ∃ s, table.lookup s = some a

/-- Objects are filed under their own key. -/
def Keyed (index : AList fun _ : κ => α) (key : α → κ) : Prop :=
  ∀ k a, index.lookup k = some a → key a = k

/-- No object is in the table twice. -/
def Once (table : AList fun _ : σ => α) : Prop :=
  ∀ s s' a, table.lookup s = some a → table.lookup s' = some a → s = s'

/-- The object is in neither place of the table. -/
def Absent (table : AList fun _ : σ => α) (a : α) : Prop := ∀ s, table.lookup s ≠ some a

variable {table : AList fun _ : σ => α} {index : AList fun _ : κ => α} {key : α → κ} {s : σ} {a : α}

theorem lookup_insert_iff {t : σ} {b c : α} :
    (table.insert s b).lookup t = some c ↔ (t = s ∧ c = b) ∨ (t ≠ s ∧ table.lookup t = some c) := by
  by_cases h : t = s
  · subst h
    simp [eq_comm]
  · simp [AList.lookup_insert_ne h, h]

theorem lookup_erase_iff {t : σ} {c : α} :
    (table.erase s).lookup t = some c ↔ t ≠ s ∧ table.lookup t = some c := by
  by_cases h : t = s
  · subst h
    simp
  · simp [AList.lookup_erase_ne h, h]

theorem Once.insert (h : Once table) (habsent : Absent table a) : Once (table.insert s a) := by
  intro t t' b hb hb'
  rcases lookup_insert_iff.mp hb with ⟨hts, hba⟩ | ⟨-, hold⟩
  · rcases lookup_insert_iff.mp hb' with ⟨hts', -⟩ | ⟨-, hold'⟩
    · rw [hts, hts']
    · exact absurd (hba ▸ hold') (habsent t')
  · rcases lookup_insert_iff.mp hb' with ⟨-, hba⟩ | ⟨-, hold'⟩
    · exact absurd (hba ▸ hold) (habsent t)
    · exact h t t' b hold hold'

theorem Once.erase (h : Once table) (s : σ) : Once (table.erase s) :=
  fun t t' b hb hb' => h t t' b (lookup_erase_iff.mp hb).2 (lookup_erase_iff.mp hb').2

theorem Mirrors.congr {key' : α → κ} (h : Mirrors table index key)
    (hkey : ∀ t b, table.lookup t = some b → key' b = key b) : Mirrors table index key' where
  finds t b hb := by
    rw [hkey t b hb]
    exact h.finds t b hb
  only := h.only

/-- A new object keeps the two tables in agreement exactly when it shares its key with the
object it replaces, if there is one, and with no other. -/
theorem Mirrors.insert_iff (h : Mirrors table index key) (hkeyed : Keyed index key)
    (honce : Once table) (habsent : Absent table a) :
    Mirrors (table.insert s a) (index.insert (key a) a) key ↔
      ∀ t b, table.lookup t = some b → (key b = key a ↔ t = s) := by
  constructor
  · intro hnew t b hb
    have hne : b ≠ a := fun hba => habsent t (hba ▸ hb)
    constructor
    · intro hkey
      by_contra hts
      have hfound := hnew.finds t b (lookup_insert_iff.mpr (Or.inr ⟨hts, hb⟩))
      rw [hkey, AList.lookup_insert] at hfound
      exact hne (Option.some.inj hfound).symm
    · rintro rfl
      by_contra hkey
      have hstale : (index.insert (key a) a).lookup (key b) = some b :=
        lookup_insert_iff.mpr (Or.inr ⟨hkey, h.finds t b hb⟩)
      obtain ⟨u, hu⟩ := hnew.only _ _ hstale
      rcases lookup_insert_iff.mp hu with ⟨-, hba⟩ | ⟨hut, hu⟩
      · exact hne hba
      · exact hut (honce u t b hu hb)
  · intro hkeys
    constructor
    · intro t b hb
      rcases lookup_insert_iff.mp hb with ⟨rfl, rfl⟩ | ⟨hts, hb⟩
      · rw [AList.lookup_insert]
      · have hkey : key b ≠ key a := fun hkey => hts ((hkeys t b hb).mp hkey)
        exact lookup_insert_iff.mpr (Or.inr ⟨hkey, h.finds t b hb⟩)
    · intro k b hb
      rcases lookup_insert_iff.mp hb with ⟨rfl, rfl⟩ | ⟨hk, hb⟩
      · exact ⟨s, AList.lookup_insert _⟩
      · obtain ⟨t, ht⟩ := h.only k b hb
        have hts : t ≠ s := fun hts => hk ((hkeyed k b hb).symm.trans ((hkeys t b ht).mpr hts))
        exact ⟨t, lookup_insert_iff.mpr (Or.inr ⟨hts, ht⟩)⟩

/-- Taking an object out of both tables keeps them in agreement. -/
theorem Mirrors.erase (h : Mirrors table index key) (hkeyed : Keyed index key)
    (honce : Once table) (hs : table.lookup s = some a) :
    Mirrors (table.erase s) (index.erase (key a)) key := by
  constructor
  · intro t b hb
    obtain ⟨hts, hb⟩ := lookup_erase_iff.mp hb
    refine lookup_erase_iff.mpr ⟨fun hkey => hts ?_, h.finds t b hb⟩
    have hfound := h.finds t b hb
    rw [hkey, h.finds s a hs] at hfound
    obtain rfl := Option.some.inj hfound
    exact honce t s a hb hs
  · intro k b hb
    obtain ⟨hk, hb⟩ := lookup_erase_iff.mp hb
    obtain ⟨t, ht⟩ := h.only k b hb
    refine ⟨t, lookup_erase_iff.mpr ⟨fun hts => hk ?_, ht⟩⟩
    rw [hts, hs] at ht
    rw [← hkeyed k b hb, Option.some.inj ht]

/-- The table has the elements of a set, each at its key. -/
def Tabulates {α κ : Type} (key : α → κ) (known : Set α) (table : κ → Option α) : Prop :=
  ∀ k a, table k = some a ↔ a ∈ known ∧ key a = k

section Tabulates

variable {known S : Set α} {contents : κ → Option α}

omit [DecidableEq κ] in
theorem Tabulates.congr {key' : α → κ} (h : Tabulates key known contents)
    (hkey : ∀ a ∈ known, key' a = key a) : Tabulates key' known contents := by
  intro k a
  rw [h k a]
  exact and_congr_right fun ha => by rw [hkey a ha]

/-- What is new takes its place; nothing else is there as long as the keys are different. -/
theorem Tabulates.insert (h : Tabulates key known contents) (hinj : Set.InjOn key S)
    (hknown : known ⊆ S) (ha : a ∈ S) :
    Tabulates key (insert a known) (Function.update contents (key a) (some a)) := by
  intro k b
  by_cases hk : k = key a
  · subst hk
    rw [Function.update_self]
    constructor
    · intro hb
      cases hb
      exact ⟨Set.mem_insert a known, rfl⟩
    · rintro ⟨hb, hkey⟩
      have hbS : b ∈ S := by
        rcases hb with rfl | hb
        · exact ha
        · exact hknown hb
      rw [hinj hbS ha hkey]
  · rw [Function.update_of_ne hk, h k b]
    constructor
    · exact fun ⟨hb, hkey⟩ => ⟨Set.mem_insert_of_mem a hb, hkey⟩
    · rintro ⟨rfl | hb, hkey⟩
      · exact absurd hkey.symm hk
      · exact ⟨hb, hkey⟩

theorem Tabulates.erase (h : Tabulates key known contents) (hinj : Set.InjOn key S)
    (hknown : known ⊆ S) (ha : a ∈ S) :
    Tabulates key (known \ {a}) (Function.update contents (key a) none) := by
  intro k b
  by_cases hk : k = key a
  · subst hk
    rw [Function.update_self]
    constructor
    · intro hb
      cases hb
    · rintro ⟨⟨hb, hne⟩, hkey⟩
      exact absurd (hinj (hknown hb) ha hkey) hne
  · rw [Function.update_of_ne hk, h k b]
    constructor
    · rintro ⟨hb, hkey⟩
      exact ⟨⟨hb, fun heq => hk (hkey.symm.trans (congrArg key heq))⟩, hkey⟩
    · exact fun ⟨hb, hkey⟩ => ⟨hb.1, hkey⟩

end Tabulates

end Win64Server.Library
