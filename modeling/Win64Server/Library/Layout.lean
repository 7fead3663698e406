import Win64Server.Library.Outcome
import Mathlib.Data.List.Basic

/-!
Layouts of self-describing records. A layout says which field comes next, a field of fixed
length or one closed by a stop symbol, and may choose the rest of the record by the contents of
the fields before it. `Encodes` is the set of complete records. `Takes` describes a reader that
is not told where the record ends: it takes fields off whatever input it finds, and accepts a
stopped field cut off by the end of the input.
-/
namespace Win64Server.Library

open Outcome

inductive Layout (β : Type)
  | done
  | fixed (n : ℕ) (next : List β → Layout β)
  | stopped (next : List β → Layout β)

namespace Layout

variable {β : Type}

/-- The fields of the first layout and then those of the second. -/
def andThen : Layout β → Layout β → Layout β
  | done, K => K
  | fixed n next, K => fixed n fun bs => (next bs).andThen K
  | stopped next, K => stopped fun bs => (next bs).andThen K

variable (stop : β)

inductive Encodes : Layout β → List β → Prop
  | done : Encodes done []
  | fixed {n : ℕ} {next : List β → Layout β} {bs rest : List β} (hlen : bs.length = n)
      (hrest : Encodes (next bs) rest) : Encodes (fixed n next) (bs ++ rest)
  | stopped {next : List β → Layout β} {bs rest : List β} (hstop : stop ∉ bs)
      (hrest : Encodes (next bs) rest) : Encodes (stopped next) (bs ++ stop :: rest)

/-- A record whose last field is a nonempty stopped field without its stop symbol. -/
inductive CutShort : Layout β → List β → Prop
  | fixed {n : ℕ} {next : List β → Layout β} {bs rest : List β} (hlen : bs.length = n)
      (hrest : CutShort (next bs) rest) : CutShort (fixed n next) (bs ++ rest)
  | stopped {next : List β → Layout β} {bs rest : List β} (hstop : stop ∉ bs)
      (hrest : CutShort (next bs) rest) : CutShort (stopped next) (bs ++ stop :: rest)
  | cut {next : List β → Layout β} {bs v : List β} (hne : bs ≠ []) (hstop : stop ∉ bs)
      (hrest : Encodes stop (next v) []) : CutShort (stopped next) bs

/-- The reader takes `k` symbols off the input. What it makes of a field cut off by the end of
the input is left open. -/
inductive Takes : Layout β → List β → ℕ → Prop
  | done {bs : List β} : Takes done bs 0
  | fixed {n k : ℕ} {next : List β → Layout β} {bs rest : List β} (hlen : bs.length = n)
      (hrest : Takes (next bs) rest k) : Takes (fixed n next) (bs ++ rest) (n + k)
  | stopped {k : ℕ} {next : List β → Layout β} {bs rest : List β} (hstop : stop ∉ bs)
      (hrest : Takes (next bs) rest k) :
      Takes (stopped next) (bs ++ stop :: rest) (bs.length + 1 + k)
  | cut {k : ℕ} {next : List β → Layout β} {bs v : List β} (hne : bs ≠ []) (hstop : stop ∉ bs)
      (hrest : Takes (next v) [] k) : Takes (stopped next) bs (bs.length + k)

variable {stop}

theorem CutShort.ne_nil {L : Layout β} {bs : List β} (h : CutShort stop L bs) : bs ≠ [] := by
  induction h with
  | fixed hlen hrest ih => simp [ih]
  | stopped hstop hrest ih => simp
  | cut hne hstop hrest => exact hne

theorem Takes.le_length {L : Layout β} {bs : List β} {k : ℕ} (h : Takes stop L bs k) :
    k ≤ bs.length := by
  induction h with
  | done => exact Nat.zero_le _
  | fixed hlen hrest ih =>
    rw [List.length_append]
    omega
  | stopped hstop hrest ih =>
    rw [List.length_append, List.length_cons]
    omega
  | cut hne hstop hrest ih =>
    rw [List.length_nil] at ih
    omega

theorem Encodes.takes {L : Layout β} {p : List β} (h : Encodes stop L p) (r : List β) :
    Takes stop L (p ++ r) p.length := by
  induction h with
  | done => exact .done
  | fixed hlen hrest ih =>
    rw [List.append_assoc, List.length_append, hlen]
    exact .fixed hlen ih
  | @stopped next bs rest hstop hrest ih =>
    have hlen : (bs ++ stop :: rest).length = bs.length + 1 + rest.length := by
      rw [List.length_append, List.length_cons]
      omega
    rw [List.append_assoc, List.cons_append, hlen]
    exact .stopped hstop ih

theorem CutShort.takes {L : Layout β} {p : List β} (h : CutShort stop L p) :
    Takes stop L p p.length := by
  induction h with
  | fixed hlen hrest ih =>
    rw [List.length_append, hlen]
    exact .fixed hlen ih
  | @stopped next bs rest hstop hrest ih =>
    have hlen : (bs ++ stop :: rest).length = bs.length + 1 + rest.length := by
      rw [List.length_append, List.length_cons]
      omega
    rw [hlen]
    exact .stopped hstop ih
  | @cut next bs v hne hstop hrest =>
    have h0 : Takes stop (next v) [] 0 := by simpa using hrest.takes []
    simpa using Takes.cut hne hstop h0

/-- The reader takes a complete record off the input, or all of the input when that is a record
cut short. -/
theorem takes_iff {L : Layout β} {bs : List β} {k : ℕ} :
    Takes stop L bs k ↔
      (k ≤ bs.length ∧ Encodes stop L (bs.take k)) ∨ (k = bs.length ∧ CutShort stop L bs) := by
  constructor
  · intro h
    induction h with
    | done => exact Or.inl ⟨Nat.zero_le _, by simpa using Encodes.done⟩
    | @fixed n k next bs rest hlen hrest ih =>
      rcases ih with ⟨hk, henc⟩ | ⟨hk, hcut⟩
      · refine Or.inl ⟨by rw [List.length_append]; omega, ?_⟩
        rw [List.take_append, List.take_of_length_le (by omega), hlen, Nat.add_sub_cancel_left]
        exact .fixed hlen henc
      · exact Or.inr ⟨by rw [List.length_append]; omega, .fixed hlen hcut⟩
    | @stopped k next bs rest hstop hrest ih =>
      rcases ih with ⟨hk, henc⟩ | ⟨hk, hcut⟩
      · refine Or.inl ⟨by rw [List.length_append, List.length_cons]; omega, ?_⟩
        have hsub : bs.length + 1 + k - bs.length = k + 1 := by omega
        rw [List.take_append, List.take_of_length_le (by omega), hsub, List.take_succ_cons]
        exact .stopped hstop henc
      · exact Or.inr ⟨by rw [List.length_append, List.length_cons]; omega, .stopped hstop hcut⟩
    | @cut k next bs v hne hstop hrest ih =>
      have hk : k = 0 := Nat.le_zero.mp hrest.le_length
      subst hk
      rcases ih with ⟨_, henc⟩ | ⟨_, hcut⟩
      · exact Or.inr ⟨rfl, .cut hne hstop henc⟩
      · exact absurd rfl hcut.ne_nil
  · rintro (⟨hk, henc⟩ | ⟨rfl, hcut⟩)
    · have h := henc.takes (bs.drop k)
      rwa [List.take_append_drop, List.length_take, Nat.min_eq_left hk] at h
    · exact hcut.takes

/-- A reader takes exactly the first part of its input when that part is a record, or when it
is a record cut short and there is no second part. -/
theorem takes_append_iff {L : Layout β} {p r : List β} :
    Takes stop L (p ++ r) p.length ↔ Encodes stop L p ∨ (r = [] ∧ CutShort stop L p) := by
  rw [takes_iff, List.take_left]
  constructor
  · rintro (⟨_, henc⟩ | ⟨hlen, hcut⟩)
    · exact Or.inl henc
    · have hr : r = [] := by
        rw [List.length_append] at hlen
        exact List.length_eq_zero_iff.mp (by omega)
      subst hr
      exact Or.inr ⟨rfl, by simpa using hcut⟩
  · rintro (henc | ⟨rfl, hcut⟩)
    · exact Or.inl ⟨by rw [List.length_append]; omega, henc⟩
    · exact Or.inr ⟨by simp, by simpa using hcut⟩

theorem append_stop_inj {as bs cs ds : List β} (ha : stop ∉ as) (hb : stop ∉ bs)
    (h : as ++ stop :: cs = bs ++ stop :: ds) : as = bs ∧ cs = ds := by
  rcases List.append_eq_append_iff.mp h with ⟨mid, rfl, hmid⟩ | ⟨mid, rfl, hmid⟩
  all_goals
    cases mid with
    | nil => simpa [eq_comm] using hmid
    | cons b mid =>
      rw [List.cons_append, List.cons.injEq] at hmid
      simp [hmid.1] at ha hb

/-- A reader has no choice in how much it takes. -/
theorem Takes.unique {L : Layout β} {bs : List β} {k j : ℕ} (h : Takes stop L bs k)
    (h' : Takes stop L bs j) : k = j := by
  induction h generalizing j with
  | done =>
    cases h'
    rfl
  | @fixed n k next bs rest hlen hrest ih =>
    generalize hw : bs ++ rest = w at h'
    cases h' with
    | fixed hlen' hrest' =>
      obtain ⟨rfl, rfl⟩ := List.append_inj hw (hlen.trans hlen'.symm)
      rw [ih hrest']
  | @stopped k next bs rest hstop hrest ih =>
    generalize hw : bs ++ stop :: rest = w at h'
    cases h' with
    | @stopped j _ bs' rest' hstop' hrest' =>
      obtain ⟨rfl, rfl⟩ := append_stop_inj hstop hstop' hw
      rw [ih hrest']
    | cut hne' hstop' hrest' => exact absurd (hw ▸ by simp) hstop'
  | @cut k next bs v hne hstop hrest ih =>
    have hk : k = 0 := Nat.le_zero.mp hrest.le_length
    cases h' with
    | @stopped j _ bs' rest' hstop' hrest' => simp at hstop
    | cut hne' hstop' hrest' =>
      have hj := hrest'.le_length
      rw [List.length_nil] at hj
      omega

theorem encodes_andThen {L K : Layout β} {p : List β} (h : Encodes stop (L.andThen K) p) :
    ∃ q r, p = q ++ r ∧ Encodes stop L q ∧ Encodes stop K r := by
  induction L generalizing p with
  | done => exact ⟨[], p, rfl, .done, h⟩
  | fixed n next ih =>
    cases h with
    | @fixed _ _ bs rest hlen hrest =>
      obtain ⟨q, r, rfl, hq, hr⟩ := ih bs hrest
      exact ⟨bs ++ q, r, (List.append_assoc ..).symm, .fixed hlen hq, hr⟩
  | stopped next ih =>
    cases h with
    | @stopped _ bs rest hstop hrest =>
      obtain ⟨q, r, rfl, hq, hr⟩ := ih bs hrest
      exact ⟨bs ++ stop :: q, r, by rw [List.append_assoc, List.cons_append], .stopped hstop hq, hr⟩

/-- A record that ends in a field of fixed length is never cut short in a stopped one. -/
theorem not_cutShort_andThen {L K : Layout β} (hencodes : ¬ Encodes stop K [])
    (hcut : ∀ p, ¬ CutShort stop K p) (p : List β) : ¬ CutShort stop (L.andThen K) p := by
  induction L generalizing p with
  | done => exact hcut p
  | fixed n next ih =>
    intro h
    cases h with
    | fixed _ hrest => exact ih _ _ hrest
  | stopped next ih =>
    intro h
    cases h with
    | stopped _ hrest => exact ih _ _ hrest
    | cut _ _ hrest =>
      obtain ⟨q, r, hqr, -, hr⟩ := encodes_andThen hrest
      rw [(List.append_eq_nil_iff.mp hqr.symm).2] at hr
      exact hencodes hr

theorem Takes.andThen {L K : Layout β} {bs : List β} {k j : ℕ} (h : Takes stop L bs k)
    (hK : Takes stop K (bs.drop k) j) : Takes stop (L.andThen K) bs (k + j) := by
  induction h with
  | done => simpa [Layout.andThen] using hK
  | @fixed n k next bs rest hlen hrest ih =>
    rw [Nat.add_assoc]
    refine .fixed hlen (ih ?_)
    rwa [← hlen, List.drop_length_add_append] at hK
  | @stopped k next bs rest hstop hrest ih =>
    rw [Nat.add_assoc]
    refine .stopped hstop (ih ?_)
    have hsplit : bs.length + 1 + k = bs.length + (k + 1) := by omega
    rwa [hsplit, List.drop_length_add_append, List.drop_succ_cons] at hK
  | @cut k next bs v hne hstop hrest ih =>
    rw [Nat.add_assoc]
    refine .cut (v := v) hne hstop (ih ?_)
    rw [List.drop_nil]
    rwa [List.drop_eq_nil_of_le (by omega)] at hK

end Layout

/-- What it means for a state to be left with `k` symbols taken off the input it had. -/
structure Cursor (σ β : Type) where
  view : σ → List β
  Moved : σ → ℕ → σ → Prop
  view_of_moved : ∀ {s t k}, Moved s k t → view t = (view s).drop k
  refl : ∀ s, Moved s 0 s
  trans : ∀ {s t u k j}, Moved s k t → Moved t j u → Moved s (k + j) u

/-! Programs that read a record off the input of a cursor. -/

section Reading

variable {ε σ α γ β : Type} (cursor : Cursor σ β) (stop : β)

/-- The program takes exactly `n` symbols and returns their value. -/
def ReadsFixed (x : EStateM ε σ α) (n : ℕ) (value : List β → α) : Prop :=
  ∀ s a t, x.run s = .ok a t →
    n ≤ (cursor.view s).length ∧ a = value ((cursor.view s).take n) ∧ cursor.Moved s n t

/-- The program takes a stopped field and returns a value for its contents; for a field without
a stop symbol the value is that of any contents. -/
def ReadsStopped (x : EStateM ε σ α) (value : List β → α → Prop) : Prop :=
  ∀ s a t, x.run s = .ok a t →
    (∃ bs rest, stop ∉ bs ∧ value bs a ∧ cursor.view s = bs ++ stop :: rest ∧
      cursor.Moved s (bs.length + 1) t) ∨
    (cursor.view s ≠ [] ∧ stop ∉ cursor.view s ∧ (∃ bs, value bs a) ∧
      cursor.Moved s (cursor.view s).length t)

/-- The program leaves the input alone. -/
def Quiet (x : EStateM ε σ α) : Prop := ∀ s a t, x.run s = .ok a t → cursor.Moved s 0 t

/-- When the program returns, it has taken a record of the layout off the input. -/
def Follows (x : EStateM ε σ α) (L : Layout β) : Prop :=
  ∀ s a t, x.run s = .ok a t → ∃ k, Layout.Takes stop L (cursor.view s) k ∧ cursor.Moved s k t

variable {cursor stop}

theorem Quiet.follows {x : EStateM ε σ α} (h : Quiet cursor x) : Follows cursor stop x .done :=
  fun s a t hrun => ⟨0, .done, h s a t hrun⟩

theorem Follows.quiet_bind {x : EStateM ε σ α} {f : α → EStateM ε σ γ} {L : Layout β}
    (hx : Quiet cursor x) (hf : ∀ a, Follows cursor stop (f a) L) :
    Follows cursor stop (x >>= f) L := by
  intro s c t hrun
  obtain ⟨a, u, hxu, hfu⟩ := run_bind_ok.mp hrun
  have hu := hx s a u hxu
  obtain ⟨k, htakes, ht⟩ := hf a u c t hfu
  rw [cursor.view_of_moved hu, List.drop_zero] at htakes
  exact ⟨0 + k, by rwa [Nat.zero_add], cursor.trans hu ht⟩

theorem Follows.fixed_bind {x : EStateM ε σ α} {f : α → EStateM ε σ γ} {n : ℕ}
    {value : List β → α} {next : List β → Layout β} (hx : ReadsFixed cursor x n value)
    (hf : ∀ bs, Follows cursor stop (f (value bs)) (next bs)) :
    Follows cursor stop (x >>= f) (.fixed n next) := by
  intro s c t hrun
  obtain ⟨a, u, hxu, hfu⟩ := run_bind_ok.mp hrun
  obtain ⟨hlen, rfl, hu⟩ := hx s a u hxu
  obtain ⟨k, htakes, ht⟩ := hf _ u c t hfu
  refine ⟨n + k, ?_, cursor.trans hu ht⟩
  rw [cursor.view_of_moved hu] at htakes
  have h := Layout.Takes.fixed (List.length_take_of_le hlen) htakes
  rwa [List.take_append_drop] at h

theorem Follows.stopped_bind {x : EStateM ε σ α} {f : α → EStateM ε σ γ}
    {value : List β → α → Prop} {next : List β → Layout β} (hx : ReadsStopped cursor stop x value)
    (hf : ∀ bs a, value bs a → Follows cursor stop (f a) (next bs)) :
    Follows cursor stop (x >>= f) (.stopped next) := by
  intro s c t hrun
  obtain ⟨a, u, hxu, hfu⟩ := run_bind_ok.mp hrun
  rcases hx s a u hxu with ⟨bs, rest, hstop, hvalue, hs, hu⟩ | ⟨hne, hstop, ⟨bs, hvalue⟩, hu⟩
  · obtain ⟨k, htakes, ht⟩ := hf bs a hvalue u c t hfu
    refine ⟨bs.length + 1 + k, ?_, cursor.trans hu ht⟩
    rw [cursor.view_of_moved hu, hs, List.drop_length_add_append, List.drop_succ_cons,
      List.drop_zero] at htakes
    rw [hs]
    exact .stopped hstop htakes
  · obtain ⟨k, htakes, ht⟩ := hf bs a hvalue u c t hfu
    rw [cursor.view_of_moved hu, List.drop_length] at htakes
    exact ⟨_, .cut hne hstop htakes, cursor.trans hu ht⟩

theorem ReadsFixed.map {x : EStateM ε σ α} {n : ℕ} {value : List β → α}
    (hx : ReadsFixed cursor x n value) (g : α → γ) :
    ReadsFixed cursor (g <$> x) n fun bs => g (value bs) := by
  intro s c t hrun
  obtain ⟨a, hxt, rfl⟩ := run_map_ok.mp hrun
  obtain ⟨hlen, rfl, ht⟩ := hx s a t hxt
  exact ⟨hlen, rfl, ht⟩

theorem Follows.map {x : EStateM ε σ α} {L : Layout β} (hx : Follows cursor stop x L) (g : α → γ) :
    Follows cursor stop (g <$> x) L := by
  intro s c t hrun
  obtain ⟨a, hxt, rfl⟩ := run_map_ok.mp hrun
  exact hx s a t hxt

theorem Follows.bind {x : EStateM ε σ α} {f : α → EStateM ε σ γ} {L K : Layout β}
    (hx : Follows cursor stop x L) (hf : ∀ a, Follows cursor stop (f a) K) :
    Follows cursor stop (x >>= f) (L.andThen K) := by
  intro s c t hrun
  obtain ⟨a, u, hxu, hfu⟩ := run_bind_ok.mp hrun
  obtain ⟨k, hL, hu⟩ := hx s a u hxu
  obtain ⟨j, hK, ht⟩ := hf a u c t hfu
  rw [cursor.view_of_moved hu] at hK
  exact ⟨k + j, hL.andThen hK, cursor.trans hu ht⟩

/-- A program that reads nothing more returns with the layout it has followed so far. -/
theorem Follows.bind_quiet {x : EStateM ε σ α} {f : α → EStateM ε σ γ} {L : Layout β}
    (hx : Follows cursor stop x L) (hf : ∀ a, Quiet cursor (f a)) :
    Follows cursor stop (x >>= f) L := by
  intro s c t hrun
  obtain ⟨a, u, hxu, hfu⟩ := run_bind_ok.mp hrun
  obtain ⟨k, hL, hu⟩ := hx s a u hxu
  exact ⟨k, hL, cursor.trans hu (hf a u c t hfu)⟩

theorem Quiet.throw (e : ε) : Quiet cursor (throw e : EStateM ε σ α) := by
  intro s a t hrun
  cases hrun

theorem Quiet.pure (a : α) : Quiet cursor (pure a : EStateM ε σ α) := by
  intro s a' t hrun
  cases hrun
  exact cursor.refl s

theorem ReadsFixed.follows {x : EStateM ε σ α} {n : ℕ} {value : List β → α}
    (hx : ReadsFixed cursor x n value) : Follows cursor stop x (.fixed n fun _ => .done) := by
  rw [← bind_pure x]
  exact Follows.fixed_bind hx fun _ => (Quiet.pure _).follows

theorem ReadsStopped.follows {x : EStateM ε σ α} {value : List β → α → Prop}
    (hx : ReadsStopped cursor stop x value) : Follows cursor stop x (.stopped fun _ => .done) := by
  rw [← bind_pure x]
  exact Follows.stopped_bind hx fun _ a _ => (Quiet.pure a).follows

/-- A loop over a list follows the layouts of its rounds, one after the other. -/
theorem Follows.mapM {f : γ → EStateM ε σ α} {layout : γ → Layout β}
    (hf : ∀ c, Follows cursor stop (f c) (layout c)) (cs : List γ) :
    Follows cursor stop (cs.mapM f) (cs.foldr (fun c L => (layout c).andThen L) .done) := by
  induction cs with
  | nil => exact (Quiet.pure []).follows
  | cons c cs ih =>
    rw [List.mapM_cons]
    refine Follows.bind (hf c) fun a => ?_
    rw [bind_pure_comp]
    exact Follows.map ih _

end Reading

end Win64Server.Library
