import Win64Server.BasicStream

/-!
Stream operations that throw. All of them check their argument and the position before they change
anything, but one: `delete_bytes_from_mark` has taken the marked bytes off the size of the stream
when it finds that there are too few bytes to delete.
-/
namespace Win64Server.StreamErrors

open Outcome BasicStream

/-- The operations that can throw, with their arguments. -/
inductive Operation
  | read
  | readUnsignedByte
  | readUnsignedShort
  | read3Byte
  | readUnsignedInt
  | readQWord
  | readStdString
  | readString
  | skipBytes (bytesToSkip : ℕ)
  | reset
  | deleteMarkedBlock
  | deleteBytesFromMark (bytesToDelete : ℕ)
  | deleteBytesFromIndex (bytesToDelete : ℕ)

/-- The operation, whose result does not matter here. -/
def Operation.perform : Operation → StreamM Unit
  | .read => discard BasicStream.read
  | .readUnsignedByte => discard BasicStream.readUnsignedByte
  | .readUnsignedShort => discard BasicStream.readUnsignedShort
  | .read3Byte => discard BasicStream.read3Byte
  | .readUnsignedInt => discard BasicStream.readUnsignedInt
  | .readQWord => discard BasicStream.readQWord
  | .readStdString => discard BasicStream.readStdString
  | .readString => discard BasicStream.readString
  | .skipBytes bytesToSkip => BasicStream.skipBytes bytesToSkip
  | .reset => BasicStream.reset
  | .deleteMarkedBlock => BasicStream.deleteMarkedBlock
  | .deleteBytesFromMark bytesToDelete => BasicStream.deleteBytesFromMark bytesToDelete
  | .deleteBytesFromIndex bytesToDelete => BasicStream.deleteBytesFromIndex bytesToDelete

/-- The bytes, the position, the size and the mark are the same. -/
structure Unchanged (s t : BasicStream) : Prop where
  data : t.data = s.data
  index : t.index = s.index
  dataSize : t.dataSize = s.dataSize
  mark : t.mark = s.mark

/-- A throw of the operation changes nothing. -/
def Harmless (op : Operation) (s : BasicStream) : Prop :=
  ∀ e t, op.perform.run s = .error (.thrown e) t → Unchanged s t

/-- More bytes are to be deleted than there are behind a marked block that is not empty. -/
def Overdeletes (op : Operation) (s : BasicStream) : Prop :=
  ∃ n mark, op = .deleteBytesFromMark n ∧ s.mark = some mark ∧ mark < s.index ∧
    s.dataSize - s.index < n

section Checks

theorem atomic_readBytes (n : ℕ) : Atomic (readBytes n) := .checked fun _ => ⟨_, _, rfl⟩

theorem atomic_read3Byte : Atomic BasicStream.read3Byte := by
  unfold BasicStream.read3Byte
  rw [← map_eq_pure_bind]
  exact (atomic_readBytes 3).map

theorem atomic_readStdString : Atomic BasicStream.readStdString := .checked fun _ => ⟨_, _, rfl⟩

theorem atomic_readString : Atomic BasicStream.readString := .checked fun _ => ⟨_, _, rfl⟩

theorem atomic_skipBytes (n : ℕ) : Atomic (BasicStream.skipBytes n) :=
  .checked fun _ => ⟨_, _, rfl⟩

theorem atomic_reset : Atomic BasicStream.reset := by
  intro s e t hrun
  cases hmark : s.mark with
  | some mark => simp [BasicStream.reset, hmark] at hrun
  | none =>
    simp only [BasicStream.reset, EStateM.run_bind, EStateM.run_get, hmark] at hrun
    cases hrun
    rfl

theorem atomic_deleteMarkedBlock : Atomic BasicStream.deleteMarkedBlock := by
  intro s e t hrun
  cases hmark : s.mark with
  | some mark =>
    by_cases h : mark ≤ s.index ∧ s.index ≤ s.dataSize
    · simp [BasicStream.deleteMarkedBlock, hmark, h] at hrun
    · simp only [BasicStream.deleteMarkedBlock, EStateM.run_bind, EStateM.run_get, hmark, h,
        dite_false] at hrun
      cases hrun
      rfl
  | none =>
    simp only [BasicStream.deleteMarkedBlock, EStateM.run_bind, EStateM.run_get, hmark] at hrun
    cases hrun
    rfl

theorem atomic_deleteBytesFromIndex (n : ℕ) : Atomic (BasicStream.deleteBytesFromIndex n) := by
  intro s e t hrun
  by_cases hfew : n > s.bytesToCopy
  · simp only [BasicStream.deleteBytesFromIndex, EStateM.run_bind, EStateM.run_get, hfew,
      dite_true] at hrun
    cases hrun
    rfl
  · by_cases h : s.index ≤ s.dataSize
    · simp [BasicStream.deleteBytesFromIndex, hfew, h] at hrun
    · simp only [BasicStream.deleteBytesFromIndex, EStateM.run_bind, EStateM.run_get, hfew, h,
        dite_false] at hrun
      cases hrun
      rfl

end Checks

section Marks

variable {s t : BasicStream} {n : ℕ}

/-- Apart from the one operation, a throw leaves the whole stream as it was. -/
theorem atomic_perform (op : Operation) (hop : ∀ n, op ≠ .deleteBytesFromMark n) :
    Atomic op.perform := by
  cases op with
  | read => exact ((atomic_readBytes 1).map).map
  | readUnsignedByte => exact ((atomic_readBytes 1).map).map
  | readUnsignedShort => exact ((atomic_readBytes 2).map).map
  | read3Byte => exact atomic_read3Byte.map
  | readUnsignedInt => exact ((atomic_readBytes 4).map).map
  | readQWord => exact ((atomic_readBytes 8).map).map
  | readStdString => exact atomic_readStdString.map
  | readString => exact atomic_readString.map
  | skipBytes n => exact atomic_skipBytes n
  | reset => exact atomic_reset
  | deleteMarkedBlock => exact atomic_deleteMarkedBlock
  | deleteBytesFromMark n => exact absurd rfl (hop n)
  | deleteBytesFromIndex n => exact atomic_deleteBytesFromIndex n

/-- Too many bytes: the size of the stream has lost the marked ones. -/
theorem deleteBytesFromMark_many {mark : ℕ} (hmark : s.mark = some mark) (hle : mark ≤ s.index)
    (hsize : s.index ≤ s.dataSize) (hmany : s.dataSize - s.index < n) :
    ∃ t e, (BasicStream.deleteBytesFromMark n).run s = .error (.thrown e) t ∧ t.data = s.data ∧
      t.index = s.index ∧ t.dataSize = s.dataSize - (s.index - mark) ∧ t.mark = s.mark := by
  have h : mark ≤ s.index ∧ s.index ≤ s.dataSize := ⟨hle, hsize⟩
  simp only [BasicStream.deleteBytesFromMark, EStateM.run_bind, EStateM.run_get, hmark, h,
    and_self, dite_true, EStateM.run_set, gt_iff_lt, hmany]
  exact ⟨_, _, rfl, rfl, rfl, rfl, rfl⟩

theorem deleteBytesFromMark_few {mark : ℕ} (hmark : s.mark = some mark) (hle : mark ≤ s.index)
    (hsize : s.index ≤ s.dataSize) (hfew : ¬ s.dataSize - s.index < n) :
    ∃ t, (BasicStream.deleteBytesFromMark n).run s = .ok () t := by
  have h : mark ≤ s.index ∧ s.index ≤ s.dataSize := ⟨hle, hsize⟩
  simp only [BasicStream.deleteBytesFromMark, EStateM.run_bind, EStateM.run_get, hmark, h,
    and_self, dite_true, EStateM.run_set, gt_iff_lt, hfew, dite_false]
  exact ⟨_, rfl⟩

theorem deleteBytesFromMark_unmarked (hmark : s.mark = none) :
    (BasicStream.deleteBytesFromMark n).run s =
      .error (.thrown (.runtimeError "No mark has been set")) s := by
  simp only [BasicStream.deleteBytesFromMark, EStateM.run_bind, EStateM.run_get, hmark]
  rfl

end Marks

/-- A throwing operation changes nothing, unless it deletes more bytes from a mark than there
are. -/
theorem harmless_iff (op : Operation) (s : BasicStream) (hindex : s.index ≤ s.dataSize)
    (hmark : ∀ mark, s.mark = some mark → mark ≤ s.index) :
    Harmless op s ↔ ¬ Overdeletes op s := by
  by_cases hop : ∀ n, op ≠ .deleteBytesFromMark n
  · refine iff_of_true (fun e t hrun => ?_) ?_
    · obtain rfl := atomic_perform op hop s _ t hrun
      exact ⟨rfl, rfl, rfl, rfl⟩
    · rintro ⟨n, mark, hn, -⟩
      exact hop n hn
  · push Not at hop
    obtain ⟨n, rfl⟩ := hop
    cases hset : s.mark with
    | none =>
      refine iff_of_true (fun e t hrun => ?_) ?_
      · rw [Operation.perform, deleteBytesFromMark_unmarked hset] at hrun
        cases hrun
        exact ⟨rfl, rfl, rfl, rfl⟩
      · rintro ⟨n', mark, -, hsome, -⟩
        rw [hset] at hsome
        cases hsome
    | some mark =>
      have hle : mark ≤ s.index := hmark mark hset
      by_cases hmany : s.dataSize - s.index < n
      · obtain ⟨t, e, hrun, hdata, hindex', hsize, hmark'⟩ :=
          deleteBytesFromMark_many hset hle hindex hmany
        constructor
        · rintro hharmless ⟨n', mark', hn, hsome, hlt, -⟩
          have hunchanged := hharmless e t hrun
          rw [hset] at hsome
          cases hsome
          have hsame := hunchanged.dataSize
          omega
        · intro hover e' t' hrun'
          rw [Operation.perform, hrun] at hrun'
          cases hrun'
          have heq : mark = s.index :=
            Nat.le_antisymm hle (not_lt.mp fun hlt => hover ⟨n, mark, rfl, hset, hlt, hmany⟩)
          refine ⟨hdata, hindex', ?_, hmark'⟩
          rw [hsize, heq, Nat.sub_self, Nat.sub_zero]
      · obtain ⟨t, hok⟩ := deleteBytesFromMark_few hset hle hindex hmany
        refine iff_of_true (fun e t' hrun => ?_) ?_
        · rw [Operation.perform, hok] at hrun
          cases hrun
        · rintro ⟨n', mark', hn, -, -, hmany'⟩
          cases hn
          exact hmany hmany'

/-- Two bytes of which one has been read and marked. -/
def oneMarked : BasicStream where
  data := [1, 2]
  index := 1
  dataSize := 2
  mark := some 0
  bitPosition := 0
  frameStack := []
  size_le := le_rfl

/-- Five bytes cannot be skipped here. -/
theorem harmless_skipBytes :
    (∃ e t, (Operation.skipBytes 5).perform.run oneMarked = .error (.thrown e) t) ∧
      Harmless (.skipBytes 5) oneMarked := by
  refine ⟨⟨_, _, rfl⟩, (harmless_iff (.skipBytes 5) oneMarked (by decide) ?_).mpr ?_⟩
  · rintro mark hmark
    cases hmark
    decide
  · rintro ⟨n, mark, hn, -⟩
    cases hn

/-- The stream loses its last byte to a deletion that throws. -/
theorem deleteBytesFromMark_harmful : ¬ ∀ (op : Operation) (s : BasicStream),
    s.index ≤ s.dataSize → (∀ mark, s.mark = some mark → mark ≤ s.index) → Harmless op s := by
  intro h
  have hmark : ∀ mark, oneMarked.mark = some mark → mark ≤ oneMarked.index := by
    rintro mark hmark
    cases hmark
    decide
  have hharmless := h (.deleteBytesFromMark 2) oneMarked (by decide) hmark
  obtain ⟨t, e, hrun, -, -, hsize, -⟩ := deleteBytesFromMark_many (s := oneMarked) (n := 2)
    (show oneMarked.mark = some 0 from rfl) (by decide) (by decide) (by decide)
  have hsame := (hharmless e t hrun).dataSize
  rw [hsize] at hsame
  cases hsame

end Win64Server.StreamErrors
