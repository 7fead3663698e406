import Win64Server.User
import Mathlib.Data.List.Sort

/-!
The slots of a user's scripts. A script goes to the front of a queue of free slots and its slot goes
back to the end of the queue when it is deleted, so the slots in use and the free ones stay apart.
The scripts are shared objects that are told their slots. A slot that is deleted while it is free
comes twice into the queue, and an object that is added while it is live loses its first slot.
-/
namespace Win64Server.ScriptSlots

/-- A `ScriptIndex` that holds pointers, with the objects they point to. -/
structure Slots where
  heap : ℕ → ClientScript
  scripts : ℕ → Option ℕ
  availableIndices : List ℕ
  usedIndices : List ℕ

namespace Slots

def init (heap : ℕ → ClientScript) : Slots where
  heap := heap
  scripts := fun _ => none
  availableIndices := List.range ScriptIndex.size
  usedIndices := []

theorem init_availableIndices (heap : ℕ → ClientScript) :
    (init heap).availableIndices = List.range ScriptIndex.size := by
  simp only [init]

def addScript (s : Slots) (script : ℕ) : Except Exception Slots :=
  match s.availableIndices with
  | idx :: rest =>
    .ok { heap := Function.update s.heap script { s.heap script with idx := idx }
          scripts := Function.update s.scripts idx (some script)
          availableIndices := rest
          usedIndices := if idx ∈ s.usedIndices then s.usedIndices
            else s.usedIndices.orderedInsert (· ≤ ·) idx }
  | [] => .error (.runtimeError "No free space available")

def deleteScript (s : Slots) (idx : ℤ) : Except Exception Slots :=
  if 0 ≤ idx ∧ idx < ScriptIndex.size then
    .ok { s with
      scripts := Function.update s.scripts idx.toNat none
      availableIndices := s.availableIndices ++ [idx.toNat]
      usedIndices := s.usedIndices.erase idx.toNat }
  else
    .error (.outOfRange "Index out of range")

def getAllScripts (s : Slots) : List (Option ℕ) := s.usedIndices.map s.scripts

/-- The index with the objects in place of the pointers. -/
def view (s : Slots) : ScriptIndex where
  scripts := fun i => (s.scripts i).map s.heap
  availableIndices := s.availableIndices
  usedIndices := s.usedIndices

/-- An object that is in no slot is added as its value is. -/
theorem view_addScript {s : Slots} {script : ℕ} (h : ∀ i, s.scripts i ≠ some script) :
    (s.addScript script).map view = (s.view.addScript (s.heap script)).map Prod.fst := by
  unfold addScript ScriptIndex.addScript
  cases hfree : s.availableIndices with
  | nil => simp [view, hfree, Except.map]
  | cons idx rest =>
    have hslots : (fun i => (Function.update s.scripts idx (some script) i).map
          (Function.update s.heap script { s.heap script with idx := idx })) =
        Function.update (fun i => (s.scripts i).map s.heap) idx
          (some { s.heap script with idx := idx }) := by
      funext i
      by_cases hi : i = idx
      · subst hi
        simp
      · rw [Function.update_of_ne hi, Function.update_of_ne hi]
        cases ho : s.scripts i with
        | none => rfl
        | some o =>
          have hne : o ≠ script := fun heq => h i (heq ▸ ho)
          simp [Function.update_of_ne hne]
    simp [view, hfree, Except.map, hslots]

theorem view_deleteScript (s : Slots) (idx : ℤ) :
    (s.deleteScript idx).map view = s.view.deleteScript idx := by
  unfold deleteScript ScriptIndex.deleteScript
  by_cases h : 0 ≤ idx ∧ idx < ScriptIndex.size
  · have hslots : (fun i => (Function.update s.scripts idx.toNat none i).map s.heap) =
        Function.update (fun i => (s.scripts i).map s.heap) idx.toNat none := by
      funext i
      by_cases hi : i = idx.toNat
      · subst hi
        simp
      · rw [Function.update_of_ne hi, Function.update_of_ne hi]
    simp [h, Except.map, view, hslots]
  · simp [h, Except.map]

end Slots

inductive Call
  | add (script : ℕ)
  | delete (idx : ℤ)

def Call.perform (s : Slots) : Call → Except Exception Slots
  | add script => s.addScript script
  | delete idx => s.deleteScript idx

/-- Both calls test before they change anything. -/
def Slots.after (s : Slots) (call : Call) : Slots :=
  match call.perform s with
  | .ok t => t
  | .error _ => s

/-- The array, the queue and the set are in step. -/
structure Slots.InStep (s : Slots) : Prop where
  nodup : s.availableIndices.Nodup
  apart : ∀ i ∈ s.availableIndices, i ∉ s.usedIndices
  covers : ∀ i, i < ScriptIndex.size ↔ i ∈ s.availableIndices ∨ i ∈ s.usedIndices
  occupied : ∀ i, (s.scripts i).isSome ↔ i ∈ s.usedIndices
  numbered : ∀ i script, s.scripts i = some script → (s.heap script).idx = i
  ascending : s.usedIndices.Pairwise (· < ·)
  listed : s.getAllScripts = ((List.range ScriptIndex.size).filterMap s.scripts).map some

/-- An addition leaves the live scripts where they are, and with a full index it throws and changes
nothing. -/
def Call.Harmless (s : Slots) : Call → Prop
  | add script =>
    (∀ i, (s.scripts i).isSome → (s.after (.add script)).scripts i = s.scripts i) ∧
      ((∀ i < ScriptIndex.size, (s.scripts i).isSome) →
        s.addScript script = .error (.runtimeError "No free space available") ∧
          s.after (.add script) = s)
  | delete _ => True

/-- What the index promises over a sequence of calls. -/
def Separate : Slots → List Call → Prop
  | s, [] => s.InStep
  | s, call :: calls => s.InStep ∧ call.Harmless s ∧ Separate (s.after call) calls

/-- A deletion meets a script, and an object that finds a free slot is not live already. -/
def Call.Proper (s : Slots) : Call → Prop
  | add script => s.availableIndices = [] ∨ ∀ i, s.scripts i ≠ some script
  | delete idx => 0 ≤ idx ∧ idx < ScriptIndex.size → (s.scripts idx.toNat).isSome

/-- Every call of a sequence is a proper one where it is made. -/
def AllProper : Slots → List Call → Prop
  | _, [] => True
  | s, call :: calls => call.Proper s ∧ AllProper (s.after call) calls

section Listing

variable {s : Slots}

/-- The set lists the occupied slots in order. -/
theorem usedIndices_eq (hcovers : ∀ i ∈ s.usedIndices, i < ScriptIndex.size)
    (hoccupied : ∀ i, (s.scripts i).isSome ↔ i ∈ s.usedIndices)
    (hascending : s.usedIndices.Pairwise (· < ·)) :
    s.usedIndices = (List.range ScriptIndex.size).filter fun i => (s.scripts i).isSome := by
  refine hascending.eq_of_mem_iff (List.pairwise_lt_range.filter _) fun i => ?_
  rw [List.mem_filter, List.mem_range, hoccupied]
  exact ⟨fun h => ⟨hcovers i h, h⟩, And.right⟩

theorem getAllScripts_eq (h : s.usedIndices =
      (List.range ScriptIndex.size).filter fun i => (s.scripts i).isSome) :
    s.getAllScripts = ((List.range ScriptIndex.size).filterMap s.scripts).map some := by
  rw [Slots.getAllScripts, h]
  induction List.range ScriptIndex.size with
  | nil => rfl
  | cons i slots ih =>
    cases hi : s.scripts i with
    | none => simp [hi, ih]
    | some script => simp [hi, ih]

theorem pairwise_orderedInsert {used : List ℕ} {idx : ℕ} (h : used.Pairwise (· < ·))
    (hidx : idx ∉ used) : (used.orderedInsert (· ≤ ·) idx).Pairwise (· < ·) := by
  have hnodup : (used.orderedInsert (· ≤ ·) idx).Nodup :=
    (List.perm_orderedInsert _ idx used).nodup_iff.mpr
      (List.nodup_cons.mpr ⟨hidx, h.imp fun hlt => hlt.ne⟩)
  exact ((h.imp fun hlt => hlt.le).orderedInsert idx used).imp₂
    (fun _ _ hle hne => lt_of_le_of_ne hle hne) hnodup

/-- The list of scripts needs no proof of its own. -/
theorem inStep_of (hnodup : s.availableIndices.Nodup)
    (hapart : ∀ i ∈ s.availableIndices, i ∉ s.usedIndices)
    (hcovers : ∀ i, i < ScriptIndex.size ↔ i ∈ s.availableIndices ∨ i ∈ s.usedIndices)
    (hoccupied : ∀ i, (s.scripts i).isSome ↔ i ∈ s.usedIndices)
    (hnumbered : ∀ i script, s.scripts i = some script → (s.heap script).idx = i)
    (hascending : s.usedIndices.Pairwise (· < ·)) : s.InStep :=
  ⟨hnodup, hapart, hcovers, hoccupied, hnumbered, hascending, getAllScripts_eq
    (usedIndices_eq (fun i hi => (hcovers i).mpr (Or.inr hi)) hoccupied hascending)⟩

theorem inStep_init (heap : ℕ → ClientScript) : (Slots.init heap).InStep := by
  have hunused (i : ℕ) : i ∉ (Slots.init heap).usedIndices := List.not_mem_nil
  have hnodup : (Slots.init heap).availableIndices.Nodup := by
    rw [Slots.init_availableIndices]
    exact List.nodup_range
  refine inStep_of hnodup (fun i _ => hunused i) (fun i => ?_) (fun i => ?_)
    (fun i script h => ?_) .nil
  · rw [Slots.init_availableIndices, List.mem_range]
    exact ⟨Or.inl, fun h => h.resolve_right (hunused i)⟩
  · exact iff_of_false (by simp [Slots.init]) (hunused i)
  · cases h

end Listing

section Steps

variable {s : Slots} {script idx : ℕ} {rest : List ℕ}

theorem after_add (h : s.availableIndices = idx :: rest) : s.after (.add script) =
    { heap := Function.update s.heap script { s.heap script with idx := idx }
      scripts := Function.update s.scripts idx (some script)
      availableIndices := rest
      usedIndices := if idx ∈ s.usedIndices then s.usedIndices
        else s.usedIndices.orderedInsert (· ≤ ·) idx } := by
  simp only [Slots.after, Call.perform, Slots.addScript, h]

theorem after_add_scripts (h : s.availableIndices = idx :: rest) :
    (s.after (.add script)).scripts = Function.update s.scripts idx (some script) := by
  rw [after_add h]

theorem after_add_idx (h : s.availableIndices = idx :: rest) :
    ((s.after (.add script)).heap script).idx = idx := by
  rw [after_add h]
  dsimp only
  rw [Function.update_self]

theorem after_add_none (h : s.availableIndices = []) : s.after (.add script) = s := by
  simp only [Slots.after, Call.perform, Slots.addScript, h]

theorem after_delete (h : idx < ScriptIndex.size) : s.after (.delete idx) =
    { s with
      scripts := Function.update s.scripts idx none
      availableIndices := s.availableIndices ++ [idx]
      usedIndices := s.usedIndices.erase idx } := by
  have hrange : (0 : ℤ) ≤ idx ∧ (idx : ℤ) < ScriptIndex.size := by omega
  simp only [Slots.after, Call.perform, Slots.deleteScript, if_pos hrange, Int.toNat_natCast]

theorem after_delete_outside {idx : ℤ} (h : ¬ (0 ≤ idx ∧ idx < ScriptIndex.size)) :
    s.after (.delete idx) = s := by
  simp only [Slots.after, Call.perform, Slots.deleteScript, if_neg h]

/-- The slot at the front of the queue is empty. -/
theorem Slots.InStep.front (hs : s.InStep) (h : s.availableIndices = idx :: rest) :
    s.scripts idx = none ∧ idx ∉ s.usedIndices := by
  have hused : idx ∉ s.usedIndices := hs.apart idx (by rw [h]; exact List.mem_cons_self)
  refine ⟨?_, hused⟩
  rw [← Option.not_isSome_iff_eq_none, hs.occupied]
  exact hused

/-- An object that is not live gets a slot of its own. -/
theorem Slots.InStep.add (hs : s.InStep) (h : s.availableIndices = idx :: rest)
    (hlive : ∀ i, s.scripts i ≠ some script) : (s.after (.add script)).InStep := by
  obtain ⟨-, hused⟩ := hs.front h
  have hnodup := hs.nodup
  have hapart := hs.apart
  have hcovers := hs.covers
  rw [h] at hnodup hapart hcovers
  obtain ⟨hidx, hrest⟩ := List.nodup_cons.mp hnodup
  rw [after_add h, if_neg hused]
  refine inStep_of hrest ?_ ?_ ?_ ?_ (pairwise_orderedInsert hs.ascending hused)
  · intro i hi hmem
    rcases (List.mem_orderedInsert _).mp hmem with rfl | hold
    · exact hidx hi
    · exact hapart i (List.mem_cons_of_mem _ hi) hold
  · intro i
    rw [hcovers, List.mem_cons, List.mem_orderedInsert, or_assoc, or_left_comm]
  · intro i
    dsimp only
    rw [List.mem_orderedInsert]
    by_cases hi : i = idx
    · simp [hi]
    · rw [Function.update_of_ne hi, hs.occupied]
      simp [hi]
  · intro i o ho
    dsimp only at ho ⊢
    by_cases hi : i = idx
    · subst hi
      rw [Function.update_self] at ho
      cases ho
      rw [Function.update_self]
    · rw [Function.update_of_ne hi] at ho
      have hne : o ≠ script := fun heq => hlive i (heq ▸ ho)
      rw [Function.update_of_ne hne]
      exact hs.numbered i o ho

/-- An object that is live already loses its number in the slot it has. -/
theorem not_inStep_add (hs : s.InStep) (h : s.availableIndices = idx :: rest) {i : ℕ}
    (hlive : s.scripts i = some script) : ¬ (s.after (.add script)).InStep := by
  intro hnew
  have hne : i ≠ idx := by
    rintro rfl
    rw [(hs.front h).1] at hlive
    cases hlive
  have hnumber := hnew.numbered i script (by
    rw [after_add_scripts h, Function.update_of_ne hne, hlive])
  rw [after_add_idx h] at hnumber
  exact hne (Int.ofNat.inj hnumber).symm

/-- The slot of a live script goes back to the queue. -/
theorem Slots.InStep.delete (hs : s.InStep) (hidx : idx < ScriptIndex.size)
    (hlive : (s.scripts idx).isSome) : (s.after (.delete idx)).InStep := by
  have hused := (hs.occupied idx).mp hlive
  have hfree : idx ∉ s.availableIndices := fun hmem => hs.apart idx hmem hused
  have hdistinct : s.usedIndices.Nodup := hs.ascending.imp fun hlt => hlt.ne
  rw [after_delete hidx]
  refine inStep_of ?_ ?_ ?_ ?_ ?_ (hs.ascending.sublist List.erase_sublist)
  · exact List.nodup_append.mpr ⟨hs.nodup, List.nodup_singleton _, by
      intro i hi j hj hij
      rw [List.mem_singleton] at hj
      exact hfree (hj ▸ hij ▸ hi)⟩
  · intro i hi hmem
    obtain ⟨hne, hold⟩ := hdistinct.mem_erase_iff.mp hmem
    rcases List.mem_append.mp hi with hi | hi
    · exact hs.apart i hi hold
    · exact hne (List.mem_singleton.mp hi)
  · intro i
    rw [hs.covers, List.mem_append, List.mem_singleton, hdistinct.mem_erase_iff]
    by_cases hi : i = idx
    · simp [hi, hused]
    · simp [hi]
  · intro i
    dsimp only
    rw [hdistinct.mem_erase_iff]
    by_cases hi : i = idx
    · simp [hi]
    · rw [Function.update_of_ne hi, hs.occupied]
      simp [hi]
  · intro i o ho
    dsimp only at ho
    by_cases hi : i = idx
    · rw [hi, Function.update_self] at ho
      cases ho
    · rw [Function.update_of_ne hi] at ho
      exact hs.numbered i o ho

/-- A slot that is free already comes into the queue once more. -/
theorem not_inStep_delete (hs : s.InStep) (hidx : idx < ScriptIndex.size)
    (hempty : ¬ (s.scripts idx).isSome) : ¬ (s.after (.delete idx)).InStep := by
  intro hnew
  rw [hs.occupied] at hempty
  have hfree : idx ∈ s.availableIndices := ((hs.covers idx).mp hidx).resolve_right hempty
  have hnodup := hnew.nodup
  rw [after_delete hidx] at hnodup
  exact (List.nodup_append.mp hnodup).2.2 idx hfree idx (List.mem_singleton_self _) rfl

/-- One call. -/
theorem Slots.InStep.after_iff (hs : s.InStep) (call : Call) :
    (s.after call).InStep ↔ call.Proper s := by
  cases call with
  | add script =>
    cases h : s.availableIndices with
    | nil =>
      rw [after_add_none h]
      exact iff_of_true hs (Or.inl h)
    | cons idx rest =>
      constructor
      · intro hnew
        refine Or.inr fun i hlive => ?_
        exact not_inStep_add hs h hlive hnew
      · rintro (hnil | hlive)
        · rw [h] at hnil
          cases hnil
        · exact hs.add h hlive
  | delete idx =>
    by_cases hrange : 0 ≤ idx ∧ idx < ScriptIndex.size
    · obtain ⟨k, rfl⟩ := Int.eq_ofNat_of_zero_le hrange.1
      have hk : k < ScriptIndex.size := by omega
      constructor
      · intro hnew _
        by_contra hempty
        exact not_inStep_delete hs hk hempty hnew
      · intro hproper
        exact hs.delete hk (hproper hrange)
    · rw [after_delete_outside hrange]
      exact iff_of_true hs fun h => absurd h hrange

/-- In step, no call does harm. -/
theorem Slots.InStep.harmless (hs : s.InStep) (call : Call) : call.Harmless s := by
  cases call with
  | delete idx => trivial
  | add script =>
    cases h : s.availableIndices with
    | nil =>
      refine ⟨fun i _ => by rw [after_add_none h], fun _ => ⟨?_, after_add_none h⟩⟩
      simp only [Slots.addScript, h]
    | cons idx rest =>
      have hfront := (hs.front h).1
      constructor
      · intro i hlive
        have hne : i ≠ idx := by
          rintro rfl
          rw [hfront] at hlive
          cases hlive
        rw [after_add_scripts h, Function.update_of_ne hne]
      · intro hfull
        have hidx : idx < ScriptIndex.size :=
          (hs.covers idx).mpr (Or.inl (by rw [h]; exact List.mem_cons_self))
        have hlive := hfull idx hidx
        rw [hfront] at hlive
        cases hlive

end Steps

/-- The slots are never shared exactly in the sequences in which every deletion meets a script and
no live object is added. -/
theorem separate_iff (heap : ℕ → ClientScript) (calls : List Call) :
    Separate (.init heap) calls ↔ AllProper (.init heap) calls := by
  have hs := inStep_init heap
  generalize Slots.init heap = s at hs
  induction calls generalizing s with
  | nil => exact iff_of_true hs trivial
  | cons call calls ih =>
    constructor
    · rintro ⟨-, -, hrest⟩
      have hnew : (s.after call).InStep := by
        cases calls with
        | nil => exact hrest
        | cons _ _ => exact hrest.1
      exact ⟨(hs.after_iff call).mp hnew, (ih _ hnew).mp hrest⟩
    · rintro ⟨hproper, hrest⟩
      have hnew := (hs.after_iff call).mpr hproper
      exact ⟨hs, hs.harmless call, (ih _ hnew).mpr hrest⟩

/-- The first slot is deleted before there is a script in it. -/
theorem deleteScript_free : ¬ ∀ (heap : ℕ → ClientScript) (calls : List Call),
    Separate (.init heap) calls := by
  intro h
  have hnew := (h (fun _ => ⟨0, [], []⟩) [.delete 0]).2.2
  have hidx : 0 < ScriptIndex.size := by decide
  exact not_inStep_delete (inStep_init _) hidx (by simp [Slots.init]) hnew

end Win64Server.ScriptSlots
