import Mathlib.Data.Set.Insert
import Mathlib.Logic.Function.Basic
import Mathlib.Logic.Relation
import Mathlib.Order.Nat

/-!
Locks taken in order. The threads of a program take a lock for the time of a block, shared or
alone, and an exception may cut a block short. When a block only takes locks of a higher rank than
those its thread holds, a thread that waits for a lock waits, through the holders of the locks, for
a thread that does not wait.
-/
namespace Win64Server.Library

open Relation Function

inductive Mode
  | shared
  | exclusive

/-- What code does with the locks `L`; `choose` goes on with one of its branches, and `loop`
repeats its body any number of times. -/
inductive Locking (L ι : Type)
  | skip
  | scope (lock : L) (mode : Mode) (body : Locking L ι)
  | seq (first second : Locking L ι)
  | alt (first second : Locking L ι)
  | choose (branch : ι → Locking L ι)
  | loop (body : Locking L ι)

namespace Locking

variable {L ι κ : Type}

/-- Some of the code or nothing. -/
def optional (code : Locking L ι) : Locking L ι := alt code skip

def sequence (codes : List (Locking L ι)) : Locking L ι := codes.foldr seq skip

def oneOf (codes : List (Locking L ι)) : Locking L ι := codes.foldr alt skip

/-- What a thread has still to do: the block it is in, then what is behind it. A lock is held as
long as its release is to come. -/
inductive Instr (L ι : Type)
  | run (code : Locking L ι)
  | release (lock : L) (mode : Mode)

/-- A step that no other thread can prevent. -/
inductive Advance : List (Instr L ι) → List (Instr L ι) → Prop
  | skip (rest : List (Instr L ι)) : Advance (.run skip :: rest) rest
  | seq (a b : Locking L ι) (rest : List (Instr L ι)) :
      Advance (.run (seq a b) :: rest) (.run a :: .run b :: rest)
  | altFirst (a b : Locking L ι) (rest : List (Instr L ι)) :
      Advance (.run (alt a b) :: rest) (.run a :: rest)
  | altSecond (a b : Locking L ι) (rest : List (Instr L ι)) :
      Advance (.run (alt a b) :: rest) (.run b :: rest)
  | choose (branch : ι → Locking L ι) (i : ι) (rest : List (Instr L ι)) :
      Advance (.run (choose branch) :: rest) (.run (branch i) :: rest)
  | loopAgain (a : Locking L ι) (rest : List (Instr L ι)) :
      Advance (.run (loop a) :: rest) (.run a :: .run (loop a) :: rest)
  | loopEnd (a : Locking L ι) (rest : List (Instr L ι)) : Advance (.run (loop a) :: rest) rest
  | release (lock : L) (mode : Mode) (rest : List (Instr L ι)) :
      Advance (.release lock mode :: rest) rest

abbrev Threads (L ι κ : Type) := κ → List (Instr L ι)

def Holds (s : Threads L ι κ) (t : κ) (lock : L) : Prop := ∃ mode, .release lock mode ∈ s t

/-- The thread is about to take the lock. -/
def Requests (s : Threads L ι κ) (t : κ) (lock : L) : Prop :=
  ∃ mode body rest, s t = .run (scope lock mode body) :: rest

/-- The lock is to be had in this mode. -/
def Free (s : Threads L ι κ) (lock : L) : Mode → Prop
  | .shared => ∀ t, .release lock .exclusive ∉ s t
  | .exclusive => ∀ t, ¬ Holds s t lock

/-- The thread `t` goes on. -/
inductive Step [DecidableEq κ] (s : Threads L ι κ) (t : κ) : Threads L ι κ → Prop
  | advance {code : List (Instr L ι)} (hadvance : Advance (s t) code) : Step s t (update s t code)
  | acquire {lock : L} {mode : Mode} {body : Locking L ι} {rest : List (Instr L ι)}
      (hcode : s t = .run (scope lock mode body) :: rest) (hfree : Free s lock mode) :
      Step s t (update s t (.run body :: .release lock mode :: rest))

/-- An exception cuts short what the thread `t` is at. Its locks are still to be released, and what
is behind it may be cut short in the same way. -/
def Cut [DecidableEq κ] (s : Threads L ι κ) (t : κ) (s' : Threads L ι κ) : Prop :=
  ∃ code rest, s t = .run code :: rest ∧ s' = update s t rest

def start (codes : κ → Locking L ι) : Threads L ι κ := fun t => [.run (codes t)]

/-- The states that the threads come to in any order, with exceptions anywhere. -/
def Reachable [DecidableEq κ] (codes : κ → Locking L ι) : Threads L ι κ → Prop :=
  ReflTransGen (fun s s' => ∃ t, Step s t s' ∨ Cut s t s') (start codes)

/-- The thread asks for a lock that somebody holds. Whether it may have it nevertheless, to share
it, is left open. -/
def Waits (s : Threads L ι κ) (t : κ) : Prop := ∃ lock, Requests s t lock ∧ ∃ u, Holds s u lock

def WaitsFor (s : Threads L ι κ) (t u : κ) : Prop := ∃ lock, Requests s t lock ∧ Holds s u lock

section Order

variable (rank : L → ℕ) (again : L → Prop)

/-- The code takes locks from this rank on, and inside a block only higher ones. The locks `again`
may also be taken when they are held already. -/
def Above : Locking L ι → ℕ → Set L → Prop
  | skip, _, _ => True
  | scope lock _ body, n, held =>
    (n ≤ rank lock ∨ again lock ∧ lock ∈ held) ∧
      body.Above (max n (rank lock + 1)) (insert lock held)
  | seq a b, n, held | alt a b, n, held => a.Above n held ∧ b.Above n held
  | choose branch, n, held => ∀ i, (branch i).Above n held
  | loop a, n, held => a.Above n held

/-- The ranks from here on are above those of the locks held. -/
def floor : List (Instr L ι) → ℕ
  | [] => 0
  | .run _ :: rest => floor rest
  | .release lock _ :: rest => max (floor rest) (rank lock + 1)

def held : List (Instr L ι) → Set L
  | [] => ∅
  | .run _ :: rest => held rest
  | .release lock _ :: rest => insert lock (held rest)

def Ordered : List (Instr L ι) → Prop
  | [] => True
  | .run code :: rest => code.Above rank again (floor rank rest) (held rest) ∧ Ordered rest
  | .release _ _ :: rest => Ordered rest

/-- The thread asks for a lock that it holds. -/
def AsksAgain (s : Threads L ι κ) (t : κ) : Prop :=
  ∃ lock, again lock ∧ Requests s t lock ∧ Holds s t lock

variable {rank again} {code code' : List (Instr L ι)} {s s' : Threads L ι κ} {t u : κ}
  {lock lock' : L} {m n : ℕ} {mode : Mode} {body : Locking L ι} {locks : Set L}

theorem Above.mono (h : body.Above rank again n locks) (hle : m ≤ n) :
    body.Above rank again m locks := by
  induction body generalizing m n locks with
  | skip => trivial
  | scope lock mode body ih =>
    exact ⟨h.1.imp_left hle.trans, ih h.2 (by omega)⟩
  | seq a b iha ihb => exact ⟨iha h.1 hle, ihb h.2 hle⟩
  | alt a b iha ihb => exact ⟨iha h.1 hle, ihb h.2 hle⟩
  | choose branch ih => exact fun i => ih i (h i) hle
  | loop a ih => exact ih (n := n) h hle

/-- A block in order. -/
theorem above_scope (h : body.Above rank again (rank lock + 1) (insert lock locks)) :
    (scope lock mode body).Above rank again (rank lock) locks := by
  refine ⟨.inl le_rfl, ?_⟩
  rwa [max_eq_right (Nat.le_succ _)]

theorem Ordered.advance (h : Ordered rank again code) (hstep : Advance code code') :
    Ordered rank again code' := by
  cases hstep with
  | skip => exact h.2
  | seq a b rest => exact ⟨h.1.1, h.1.2, h.2⟩
  | altFirst a b rest => exact ⟨h.1.1, h.2⟩
  | altSecond a b rest => exact ⟨h.1.2, h.2⟩
  | choose branch i rest => exact ⟨h.1 i, h.2⟩
  | loopAgain a rest => exact ⟨h.1, h.1, h.2⟩
  | loopEnd => exact h.2
  | release lock mode rest => exact h

/-- The locks held are below the floor. -/
theorem lt_floor (hheld : .release lock mode ∈ code) : rank lock < floor rank code := by
  induction code with
  | nil => cases hheld
  | cons instr code ih =>
    cases instr with
    | run body => exact ih ((List.mem_cons.mp hheld).resolve_left (by simp))
    | release lock' mode' =>
      rcases List.mem_cons.mp hheld with heq | hrest
      · cases heq
        exact Nat.lt_of_succ_le (le_max_right _ _)
      · exact (ih hrest).trans_le (le_max_left _ _)

theorem ordered_step [DecidableEq κ] (h : ∀ t, Ordered rank again (s t)) (hstep : Step s t s')
    (u : κ) : Ordered rank again (s' u) := by
  by_cases hu : u = t
  · subst hu
    cases hstep with
    | advance hadvance =>
      rw [update_self]
      exact (h u).advance hadvance
    | acquire hcode hfree =>
      have hordered := h u
      rw [hcode] at hordered
      rw [update_self]
      exact ⟨hordered.1.2, hordered.2⟩
  · cases hstep <;> rw [update_of_ne hu] <;> exact h u

theorem ordered_cut [DecidableEq κ] (h : ∀ t, Ordered rank again (s t)) (hcut : Cut s t s')
    (u : κ) : Ordered rank again (s' u) := by
  obtain ⟨code, rest, hcode, rfl⟩ := hcut
  by_cases hu : u = t
  · subst hu
    have hordered := h u
    rw [hcode] at hordered
    rw [update_self]
    exact hordered.2
  · rw [update_of_ne hu]
    exact h u

theorem ordered_of_reachable [DecidableEq κ] {codes : κ → Locking L ι}
    (hcodes : ∀ t, (codes t).Above rank again 0 ∅) (h : Reachable codes s) (t : κ) :
    Ordered rank again (s t) := by
  induction h generalizing t with
  | refl => exact ⟨hcodes t, trivial⟩
  | tail _ hstep ih =>
    obtain ⟨u, hstep | hcut⟩ := hstep
    · exact ordered_step ih hstep t
    · exact ordered_cut ih hcut t

theorem exists_release (hheld : lock ∈ held code) : ∃ mode, .release lock mode ∈ code := by
  induction code with
  | nil => cases hheld
  | cons instr code ih =>
    cases instr with
    | run body =>
      obtain ⟨mode, hmem⟩ := ih hheld
      exact ⟨mode, List.mem_cons_of_mem _ hmem⟩
    | release lock' mode' =>
      rcases hheld with rfl | hrest
      · exact ⟨mode', List.mem_cons_self⟩
      · obtain ⟨mode, hmem⟩ := ih hrest
        exact ⟨mode, List.mem_cons_of_mem _ hmem⟩

/-- A thread asks for a lock above those it holds, unless it holds that one already. -/
theorem Ordered.held_lt (h : Ordered rank again (s t)) (hheld : Holds s t lock)
    (hrequests : Requests s t lock') (hagain : ¬ AsksAgain again s t) :
    rank lock < rank lock' := by
  obtain ⟨mode', body, rest, hcode⟩ := id hrequests
  rw [hcode] at h
  rcases h.1.1 with hfloor | ⟨hlock, hheld'⟩
  · obtain ⟨mode, hmem⟩ := hheld
    rw [hcode] at hmem
    have hrest := (List.mem_cons.mp hmem).resolve_left (by simp)
    exact (lt_floor hrest).trans_le hfloor
  · obtain ⟨mode, hmem⟩ := exists_release hheld'
    have hholds : Holds s t lock' := ⟨mode, hcode ▸ List.mem_cons_of_mem _ hmem⟩
    exact absurd ⟨lock', hlock, hrequests, hholds⟩ hagain

theorem Requests.unique (h : Requests s t lock) (h' : Requests s t lock') : lock = lock' := by
  obtain ⟨mode, body, rest, hcode⟩ := h
  obtain ⟨mode', body', rest', hcode'⟩ := h'
  rw [hcode] at hcode'
  cases hcode'
  rfl

/-- Along the waits the ranks of the locks that are asked for go up. -/
theorem waitsFor_lt (hordered : ∀ t, Ordered rank again (s t))
    (hagain : ∀ v, TransGen (WaitsFor s) t v → TransGen (WaitsFor s) v u ∨ v = u →
      ¬ AsksAgain again s v)
    (h : TransGen (WaitsFor s) t u) (ht : Requests s t lock) (hu : Requests s u lock') :
    rank lock < rank lock' := by
  induction h using TransGen.head_induction_on generalizing lock with
  | single hwait =>
    obtain ⟨lock₁, hrequests, hheld⟩ := id hwait
    rw [ht.unique hrequests]
    exact (hordered _).held_lt hheld hu (hagain _ (.single hwait) (.inr rfl))
  | head hwait hrest ih =>
    obtain ⟨lock₁, hrequests, hheld⟩ := id hwait
    obtain ⟨v, ⟨lock₂, hnext, -⟩, -⟩ := TransGen.head'_iff.mp hrest
    rw [ht.unique hrequests]
    have hlt := (hordered _).held_lt hheld hnext (hagain _ (.single hwait) (.inl hrest))
    exact hlt.trans (ih (fun v hv => hagain v (.head hwait hv)) hnext)

/-- In a circle of waits there is somebody who waits for itself. -/
theorem exists_asksAgain (hordered : ∀ t, Ordered rank again (s t))
    (hcircle : TransGen (WaitsFor s) t t) :
    ∃ u, TransGen (WaitsFor s) t u ∧ TransGen (WaitsFor s) u t ∧ AsksAgain again s u := by
  by_contra hnone
  obtain ⟨u, ⟨lock, hrequests, -⟩, -⟩ := TransGen.head'_iff.mp hcircle
  have hlt := waitsFor_lt hordered (fun v hv hback hagain => ?_) hcircle hrequests hrequests
  · exact lt_irrefl _ hlt
  rcases hback with hback | rfl
  · exact hnone ⟨v, hv, hback, hagain⟩
  · exact hnone ⟨v, hcircle, hcircle, hagain⟩

variable [DecidableEq κ] [Nonempty ι]

/-- A thread that has something to do and does not wait can go on. -/
theorem exists_step (hcode : s t ≠ []) (hwaits : ¬ Waits s t) : ∃ s', Step s t s' := by
  cases h : s t with
  | nil => exact absurd h hcode
  | cons instr rest =>
    have hadvance {code : List (Instr L ι)} (hstep : Advance (instr :: rest) code) :
        ∃ s', Step s t s' := ⟨_, .advance (h ▸ hstep)⟩
    cases instr with
    | release lock mode => exact hadvance (.release lock mode rest)
    | run code =>
      cases code with
      | skip => exact hadvance (.skip rest)
      | seq a b => exact hadvance (.seq a b rest)
      | alt a b => exact hadvance (.altFirst a b rest)
      | choose branch => exact hadvance (.choose branch (Classical.arbitrary ι) rest)
      | loop a => exact hadvance (.loopEnd a rest)
      | scope lock mode body =>
        have hnobody : ∀ u, ¬ Holds s u lock := fun u hheld =>
          hwaits ⟨lock, ⟨mode, body, rest, h⟩, u, hheld⟩
        have hfree : Free s lock mode := by
          cases mode with
          | shared => exact fun u hmem => hnobody u ⟨.exclusive, hmem⟩
          | exclusive => exact hnobody
        exact ⟨_, .acquire h hfree⟩

/-- Who waits, waits in the end for a thread that can go on, or for one that waits for itself. -/
theorem waits_resolve (hordered : ∀ t, Ordered rank again (s t)) (hbound : ∀ lock, rank lock < n)
    (hwaits : Waits s t) :
    ∃ u, TransGen (WaitsFor s) t u ∧
      (AsksAgain again s u ∨ ¬ Waits s u ∧ ∃ s', Step s u s') := by
  obtain ⟨lock, hrequests, u, hheld⟩ := hwaits
  -- The rank of the lock asked for goes up with every holder, and it is bounded.
  induction hk : n - rank lock using Nat.strongRecOn generalizing t lock u with
  | ind k ih =>
    have hwait : WaitsFor s t u := ⟨lock, hrequests, hheld⟩
    by_cases hagain : AsksAgain again s u
    · exact ⟨u, .single hwait, .inl hagain⟩
    by_cases hnext : Waits s u
    · obtain ⟨lock', hrequests', v, hheld'⟩ := hnext
      have hlt : rank lock < rank lock' := (hordered u).held_lt hheld hrequests' hagain
      have hlock' := hbound lock'
      obtain ⟨w, hchain, hdone⟩ := ih (n - rank lock') (by omega) lock' hrequests' v hheld' rfl
      exact ⟨w, .head hwait hchain, hdone⟩
    · obtain ⟨mode, hmem⟩ := hheld
      have hcode : s u ≠ [] := List.ne_nil_of_mem hmem
      exact ⟨u, .single hwait, .inr ⟨hnext, exists_step hcode hnext⟩⟩

end Order

section Alone

variable [DecidableEq κ] {codes : κ → Locking L ι} {t : κ} {code code' rest : List (Instr L ι)}
  {lock : L} {mode : Mode} {body : Locking L ι}

/-- The thread gets so far before the others start. -/
def Alone (codes : κ → Locking L ι) (t : κ) (code : List (Instr L ι)) : Prop :=
  Reachable codes (update (start codes) t code)

theorem alone_start : Alone codes t [.run (codes t)] := by
  have hstart : update (start codes) t [.run (codes t)] = start codes := update_eq_self t _
  rw [Alone, hstart]
  exact .refl

theorem Alone.advance (h : Alone codes t code) (hstep : Advance code code') :
    Alone codes t code' := by
  have hnext : Step (update (start codes) t code) t (update (start codes) t code') := by
    have hcode : Advance (update (start codes) t code t) code' := by rwa [update_self]
    simpa using Step.advance hcode
  exact h.tail ⟨t, .inl hnext⟩

theorem Alone.acquire (h : Alone codes t (.run (scope lock mode body) :: rest))
    (hfree : ∀ mode', .release lock mode' ∉ rest) :
    Alone codes t (.run body :: .release lock mode :: rest) := by
  have hnobody : ∀ u mode',
      .release lock mode' ∉ update (start codes) t (.run (scope lock mode body) :: rest) u := by
    intro u mode' hmem
    by_cases hu : u = t
    · subst hu
      rw [update_self] at hmem
      exact hfree mode' ((List.mem_cons.mp hmem).resolve_left (by simp))
    · rw [update_of_ne hu] at hmem
      simp [start] at hmem
  have hmode : Free (update (start codes) t (.run (scope lock mode body) :: rest)) lock mode := by
    cases mode with
    | shared => exact fun u => hnobody u .exclusive
    | exclusive => exact fun u ⟨mode', hmem⟩ => hnobody u mode' hmem
  have hnext := Step.acquire (update_self t _ (start codes)) hmode
  rw [update_idem] at hnext
  exact h.tail ⟨t, .inl hnext⟩

/-- A block in which nothing happens. -/
theorem Alone.pass (h : Alone codes t (.run (scope lock mode skip) :: rest))
    (hfree : ∀ mode', .release lock mode' ∉ rest) : Alone codes t rest :=
  ((h.acquire hfree).advance (.skip _)).advance (.release lock mode rest)

end Alone

end Locking

end Win64Server.Library
