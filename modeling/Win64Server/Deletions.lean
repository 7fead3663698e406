import Win64Server.StreamReading

/-!
What the three deletions leave of a stream. Each moves the bytes behind the deleted ones down over
them and takes their number off the size, so it cuts one piece out of the received bytes.
-/
namespace Win64Server.BasicStream

open Outcome

/-- The received bytes, read or not. -/
def contents (s : BasicStream) : List UInt8 := s.data.take s.dataSize

theorem contents_length (s : BasicStream) : s.contents.length = s.dataSize := by
  rw [contents, List.length_take, Nat.min_eq_left s.size_le]

theorem contents_take (s : BasicStream) {n : ℕ} (h : n ≤ s.dataSize) :
    s.contents.take n = s.data.take n := by
  rw [contents, List.take_take, Nat.min_eq_left h]

theorem contents_drop (s : BasicStream) (n : ℕ) :
    s.contents.drop n = (s.data.drop n).take (s.dataSize - n) := by
  rw [contents, List.drop_take]

/-- The part of the block in front of the moved bytes and the moved bytes themselves. -/
theorem take_memmove {data : List UInt8} {target source count : ℕ}
    (htarget : target ≤ data.length) (hsource : source + count ≤ data.length) :
    (memmove data target source count).take (target + count) =
      data.take target ++ (data.drop source).take count := by
  have hmoved : ((data.drop source).take count).length = count := by
    rw [List.length_take, List.length_drop]
    omega
  have hhead : (data.take target ++ (data.drop source).take count).length = target + count := by
    rw [List.length_append, hmoved, List.length_take, Nat.min_eq_left htarget]
  rw [memmove, List.take_left' hhead]

variable {s : BasicStream} {mark n : ℕ}

theorem deleteMarkedBlock_splices (hmark : s.mark = some mark) (hle : mark ≤ s.index)
    (hindex : s.index ≤ s.dataSize) :
    ∃ t, deleteMarkedBlock.run s = .ok () t ∧
      t.contents = s.contents.take mark ++ s.contents.drop s.index ∧
      t.dataSize = s.dataSize - (s.index - mark) ∧ t.index = mark ∧ t.mark = none := by
  have h : mark ≤ s.index ∧ s.index ≤ s.dataSize := ⟨hle, hindex⟩
  have hblock := s.size_le
  simp only [deleteMarkedBlock, EStateM.run_bind, EStateM.run_get, hmark, h, and_self, dite_true,
    EStateM.run_set, EStateM.Result.ok.injEq, true_and, exists_eq_left', and_true]
  have hsize : s.dataSize - (s.index - mark) = mark + (s.dataSize - s.index) := by omega
  rw [contents_take s (by omega), contents_drop, contents]
  simp only [hsize]
  exact take_memmove (by omega) (by omega)

theorem deleteBytesFromIndex_splices (hindex : s.index ≤ s.dataSize)
    (hn : n ≤ s.dataSize - s.index) :
    ∃ t, (deleteBytesFromIndex n).run s = .ok () t ∧
      t.contents = s.contents.take s.index ++ s.contents.drop (s.index + n) ∧
      t.dataSize = s.dataSize - n ∧ t.index = s.index ∧ t.mark = s.mark := by
  have hblock := s.size_le
  have hcopy : s.bytesToCopy = s.dataSize - s.index := if_pos hindex
  have hfew : ¬ n > s.bytesToCopy := by omega
  simp only [deleteBytesFromIndex, EStateM.run_bind, EStateM.run_get, hfew, dite_false, hindex,
    dite_true, EStateM.run_set, EStateM.Result.ok.injEq, true_and, exists_eq_left', and_true]
  have hrest : s.dataSize - (s.index + n) = s.bytesToCopy - n := by omega
  have hsize : s.dataSize - n = s.index + (s.bytesToCopy - n) := by omega
  rw [contents_take s hindex, contents_drop, hrest, contents]
  simp only [hsize]
  exact take_memmove (by omega) (by omega)

theorem deleteBytesFromMark_splices (hmark : s.mark = some mark) (hle : mark ≤ s.index)
    (hindex : s.index ≤ s.dataSize) (hn : n ≤ s.dataSize - s.index) :
    ∃ t, (deleteBytesFromMark n).run s = .ok () t ∧
      t.contents = s.contents.take mark ++ s.contents.drop (s.index + n) ∧
      t.dataSize = s.dataSize - (s.index - mark) - n ∧ t.index = mark ∧ t.mark = none := by
  have h : mark ≤ s.index ∧ s.index ≤ s.dataSize := ⟨hle, hindex⟩
  have hblock := s.size_le
  have hfew : ¬ n > s.dataSize - s.index := by omega
  simp only [deleteBytesFromMark, EStateM.run_bind, EStateM.run_get, hmark, h, and_self, dite_true,
    hfew, dite_false, EStateM.run_set, EStateM.Result.ok.injEq, true_and, exists_eq_left', and_true]
  have hrest : s.dataSize - (s.index + n) = s.dataSize - s.index - n := by omega
  have hsize : s.dataSize - (s.index - mark) - n = mark + (s.dataSize - s.index - n) := by omega
  rw [contents_take s (by omega), contents_drop, hrest, contents]
  simp only [hsize]
  exact take_memmove (by omega) (by omega)

/-- Deleting the marked block and then `n` more bytes cuts out both pieces at once. -/
theorem deleteMarkedBlock_deleteBytesFromIndex_splices (hmark : s.mark = some mark)
    (hle : mark ≤ s.index) (hindex : s.index ≤ s.dataSize) (hn : n ≤ s.dataSize - s.index) :
    ∃ t, (do deleteMarkedBlock; deleteBytesFromIndex n).run s = .ok () t ∧
      t.contents = s.contents.take mark ++ s.contents.drop (s.index + n) ∧
      t.dataSize = s.dataSize - (s.index - mark) - n ∧ t.index = mark ∧ t.mark = none := by
  obtain ⟨u, hblock, hcontents, hsize, huindex, humark⟩ :=
    deleteMarkedBlock_splices hmark hle hindex
  obtain ⟨t, hdelete, hrest, htsize, htindex, htmark⟩ :=
    deleteBytesFromIndex_splices (s := u) (n := n) (by omega) (by omega)
  have hhead : (s.contents.take mark).length = mark := by
    rw [List.length_take, contents_length]
    omega
  refine ⟨t, (run_bind_of_ok hblock).trans hdelete, ?_, by rw [htsize, hsize],
    by rw [htindex, huindex], by rw [htmark, humark]⟩
  have hkept : u.contents.take mark = s.contents.take mark := by
    rw [hcontents, List.take_left' hhead]
  have hcut : u.contents.drop (mark + n) = s.contents.drop (s.index + n) := by
    rw [hcontents, ← List.drop_drop, List.drop_left' hhead, List.drop_drop]
  rw [hrest, huindex, hkept, hcut]

theorem deletions_are_splices (hmark : s.mark = some mark) (hle : mark ≤ s.index)
    (hindex : s.index ≤ s.dataSize) (hn : n ≤ s.dataSize - s.index) :
    (∃ t, deleteMarkedBlock.run s = .ok () t ∧
      t.contents = s.contents.take mark ++ s.contents.drop s.index ∧
      t.index = mark ∧ t.mark = none) ∧
    (∃ t, (deleteBytesFromIndex n).run s = .ok () t ∧
      t.contents = s.contents.take s.index ++ s.contents.drop (s.index + n) ∧
      t.index = s.index ∧ t.mark = s.mark) ∧
    ∃ t u, (deleteBytesFromMark n).run s = .ok () t ∧
      (do deleteMarkedBlock; deleteBytesFromIndex n).run s = .ok () u ∧
      t.contents = u.contents ∧ t.dataSize = u.dataSize ∧ t.index = u.index ∧ t.mark = u.mark := by
  obtain ⟨a, hblock, hacontents, -, haindex, hamark⟩ := deleteMarkedBlock_splices hmark hle hindex
  obtain ⟨b, hbytes, hbcontents, -, hbindex, hbmark⟩ := deleteBytesFromIndex_splices hindex hn
  obtain ⟨t, hboth, htcontents, htsize, htindex, htmark⟩ :=
    deleteBytesFromMark_splices hmark hle hindex hn
  obtain ⟨u, htwo, hucontents, husize, huindex, humark⟩ :=
    deleteMarkedBlock_deleteBytesFromIndex_splices hmark hle hindex hn
  exact ⟨⟨a, hblock, hacontents, haindex, hamark⟩, ⟨b, hbytes, hbcontents, hbindex, hbmark⟩,
    t, u, hboth, htwo, htcontents.trans hucontents.symm, htsize.trans husize.symm,
    htindex.trans huindex.symm, htmark.trans humark.symm⟩

/-- Five bytes, of which the second and the third are marked and read. -/
def marked : BasicStream where
  data := [10, 11, 12, 13, 14]
  index := 3
  dataSize := 5
  mark := some 1
  bitPosition := 0
  frameStack := []
  size_le := le_rfl

theorem marked_deletions :
    (∃ t, deleteMarkedBlock.run marked = .ok () t ∧ t.contents = [10, 13, 14] ∧
      t.index = 1 ∧ t.mark = none) ∧
    (∃ t, (deleteBytesFromIndex 1).run marked = .ok () t ∧ t.contents = [10, 11, 12, 14] ∧
      t.index = 3 ∧ t.mark = some 1) ∧
    ∃ t u, (deleteBytesFromMark 1).run marked = .ok () t ∧
      (do deleteMarkedBlock; deleteBytesFromIndex 1).run marked = .ok () u ∧
      t.contents = u.contents ∧ t.dataSize = u.dataSize ∧ t.index = u.index ∧ t.mark = u.mark :=
  deletions_are_splices (s := marked) (n := 1) rfl (by decide) (by decide) (by decide)

end Win64Server.BasicStream
