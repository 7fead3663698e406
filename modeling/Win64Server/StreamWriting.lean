import Win64Server.BasicStream
import Mathlib.Tactic.Ring

/-!
What the writers do, said in terms of the bytes written so far. The fixed-width writers make room
first and always append their bytes; the string writer appends only what fits; closing a frame
overwrites the bytes in front of it with the number of bytes behind it.
-/
namespace Win64Server.BasicStream

open Outcome

/-- The bytes that can be stored without growing. -/
def room (s : BasicStream) : ℕ := s.dataSize - s.index

/-- A writer has appended these bytes and left the open frames alone. -/
structure Appended (s : BasicStream) (bytes : List UInt8) (t : BasicStream) : Prop where
  written : t.written = s.written ++ bytes
  index : t.index = s.index + bytes.length
  frames : t.frameStack = s.frameStack
  bounded : t.index ≤ t.dataSize

theorem Appended.refl {s : BasicStream} (h : s.index ≤ s.dataSize) : Appended s [] s :=
  ⟨by simp, rfl, rfl, h⟩

theorem Appended.trans {s t u : BasicStream} {bytes more : List UInt8} (h : Appended s bytes t)
    (h' : Appended t more u) : Appended s (bytes ++ more) u where
  written := by rw [h'.written, h.written, List.append_assoc]
  index := by rw [h'.index, h.index, List.length_append, Nat.add_assoc]
  frames := h'.frames.trans h.frames
  bounded := h'.bounded

theorem written_length {s : BasicStream} (h : s.index ≤ s.dataSize) :
    s.written.length = s.index := by
  have hsize := s.size_le
  rw [written, List.length_take]
  omega

theorem put_run {s : BasicStream} (h : s.index < s.dataSize) (b : UInt8) :
    ∃ t, (put b).run s = .ok () t ∧ Appended s [b] t ∧ t.dataSize = s.dataSize := by
  have hsize := s.size_le
  refine ⟨{ s with data := s.data.set s.index b, index := s.index + 1, size_le := by simpa }, ?_,
    ⟨?_, rfl, rfl, h⟩, rfl⟩
  · simp [put, store, h]
  · exact take_succ_set (by omega) b

theorem put_overrun {s : BasicStream} (h : s.dataSize ≤ s.index) (b : UInt8) :
    (put b).run s = .error (.undefined .writePastEnd) s := by
  have hnot : ¬ s.index < s.dataSize := by omega
  simp [put, store, hnot]

/-- A run of stores stays in the block exactly when the block has room for it. -/
theorem forM_put_run (bytes : List UInt8) {s : BasicStream} (h : s.index ≤ s.dataSize) :
    (bytes.length ≤ s.room →
      ∃ t, (bytes.forM put).run s = .ok () t ∧ Appended s bytes t ∧ t.dataSize = s.dataSize) ∧
    (¬ bytes.length ≤ s.room →
      ∃ t, (bytes.forM put).run s = .error (.undefined .writePastEnd) t) := by
  induction bytes generalizing s with
  | nil =>
    exact ⟨fun _ => ⟨s, rfl, .refl h, rfl⟩, fun hnot => absurd (Nat.zero_le _) hnot⟩
  | cons b bytes ih =>
    rw [List.forM_eq_forM, List.forM_cons]
    by_cases hroom : s.index < s.dataSize
    · obtain ⟨u, hput, hu, husize⟩ := put_run hroom b
      obtain ⟨hfits, hover⟩ := ih hu.bounded
      have hindex := hu.index
      rw [List.length_singleton] at hindex
      rw [run_bind_of_ok hput]
      simp only [room, husize, hindex, List.length_cons] at hfits hover ⊢
      refine ⟨fun hle => ?_, fun hnot => hover (by omega)⟩
      obtain ⟨t, hrun, ht, htsize⟩ := hfits (by omega)
      exact ⟨t, hrun, hu.trans ht, htsize⟩
    · rw [run_bind_of_error (put_overrun (by omega) b)]
      simp only [room, List.length_cons]
      exact ⟨fun hle => absurd hle (by omega), fun _ => ⟨s, rfl⟩⟩

theorem ensureCapacity_run (n : ℕ) {s : BasicStream} (h : s.index ≤ s.dataSize) :
    ∃ t, (ensureCapacity n).run s = .ok () t ∧ Appended s [] t ∧
      t.dataSize = if s.index + n ≤ s.dataSize then s.dataSize else s.dataSize + n := by
  by_cases hfits : s.index + n ≤ s.dataSize
  · exact ⟨s, by simp [ensureCapacity, hfits], .refl h, by simp [hfits]⟩
  · simp only [ensureCapacity, EStateM.run_bind, EStateM.run_get, hfits, ite_false, EStateM.run_set]
    refine ⟨_, rfl, ⟨?_, rfl, rfl, by simp only; omega⟩, rfl⟩
    have hsize := s.size_le
    simp only [written, List.append_nil]
    rw [List.take_append_of_le_length (by rw [List.length_take]; omega), List.take_take,
      Nat.min_eq_left h]

/-- A fixed-width writer always returns. -/
theorem writeBytes_run (n : ℕ) (value : ℤ) {s : BasicStream} (h : s.index ≤ s.dataSize) :
    ∃ t, (writeBytes n value).run s = .ok () t ∧ Appended s (beBytes n value) t ∧
      t.dataSize = if s.index + n ≤ s.dataSize then s.dataSize else s.dataSize + n := by
  obtain ⟨u, hgrow, hu, husize⟩ := ensureCapacity_run n h
  have hindex : u.index = s.index := hu.index
  have hroom : (beBytes n value).length ≤ u.room := by
    rw [beBytes_length, room, husize, hindex]
    split <;> omega
  obtain ⟨t, hput, ht, htsize⟩ := (forM_put_run (beBytes n value) hu.bounded).1 hroom
  refine ⟨t, ?_, hu.trans ht, by rw [htsize, husize]⟩
  rw [writeBytes, run_bind_of_ok hgrow, hput]

theorem writeBytes_appends (n : ℕ) (value : ℤ) {s : BasicStream} (h : s.index ≤ s.dataSize) :
    ∃ t, (writeBytes n value).run s = .ok () t ∧ Appended s (beBytes n value) t := by
  obtain ⟨t, hrun, ht, -⟩ := writeBytes_run n value h
  exact ⟨t, hrun, ht⟩

/-- Overwriting bytes that are already there. -/
theorem forM_store_run (bytes : List UInt8) (position : ℕ) {s : BasicStream}
    (h : position + bytes.length ≤ s.dataSize) :
    ∃ t, ((bytes.zipIdx position).forM fun (b, i) => store i b).run s = .ok () t ∧
      t.data = s.data.take position ++ bytes ++ s.data.drop (position + bytes.length) ∧
      t.index = s.index ∧ t.dataSize = s.dataSize ∧ t.frameStack = s.frameStack := by
  induction bytes generalizing position s with
  | nil => exact ⟨s, rfl, by simp, rfl, rfl, rfl⟩
  | cons b bytes ih =>
    have hsize := s.size_le
    rw [List.length_cons] at h
    have hstore : (store position b).run s =
        .ok () { s with data := s.data.set position b, size_le := by simpa } := by
      have hlt : position < s.dataSize := by omega
      simp [store, hlt]
    obtain ⟨t, hrun, hdata, hindex, hdataSize, hframes⟩ := ih (position + 1)
      (s := { s with data := s.data.set position b, size_le := by simpa }) (by simp only; omega)
    refine ⟨t, ?_, ?_, hindex, hdataSize, hframes⟩
    · rw [List.zipIdx_cons, List.forM_eq_forM, List.forM_cons, run_bind_of_ok hstore]
      exact hrun
    · rw [hdata]
      exact overwrite_cons (by omega) b bytes

/-- The header of either kind of frame. -/
def openFrame (width : ℕ) (id : ℤ) : StreamM Unit := do
  ensureCapacity (1 + width)
  writeBytes 1 id
  writeBytes width 0
  pushFrame

theorem pushFrame_run {s : BasicStream} (h : s.frameStack.length < frameStackSize) :
    pushFrame.run s = .ok () { s with frameStack := toInt32 s.index :: s.frameStack } := by
  have hnot : ¬ frameStackSize ≤ s.frameStack.length := by omega
  simp [pushFrame, hnot]

/-- Opening a frame writes its number and zeros for its size, and records where it begins. -/
theorem openFrame_run (width : ℕ) (id : ℤ) {s : BasicStream} (h : s.index ≤ s.dataSize)
    (hframes : s.frameStack.length < frameStackSize) :
    ∃ t, (openFrame width id).run s = .ok () t ∧
      t.written = s.written ++ beBytes 1 id ++ beBytes width 0 ∧
      t.index = s.index + (1 + width) ∧ t.index ≤ t.dataSize ∧
      t.frameStack = toInt32 t.index :: s.frameStack ∧
      (s.index + (1 + width) ≤ s.dataSize → t.dataSize = s.dataSize) := by
  obtain ⟨r, hreserve, hr, hrsize⟩ := ensureCapacity_run (1 + width) h
  obtain ⟨t, hid, ht, htsize⟩ := writeBytes_run 1 id hr.bounded
  obtain ⟨u, hplaceholder, hu, husize⟩ := writeBytes_run width 0 ht.bounded
  have hrindex : r.index = s.index := hr.index
  have htindex : t.index = s.index + 1 := by rw [ht.index, hrindex, beBytes_length]
  have huindex : u.index = s.index + (1 + width) := by
    rw [hu.index, htindex, beBytes_length, Nat.add_assoc]
  have hsame : u.frameStack = s.frameStack := (hu.frames.trans ht.frames).trans hr.frames
  refine ⟨{ u with frameStack := toInt32 u.index :: u.frameStack }, ?_, ?_, huindex, hu.bounded,
    by rw [hsame], fun hfits => ?_⟩
  · rw [openFrame, run_bind_of_ok hreserve, run_bind_of_ok hid, run_bind_of_ok hplaceholder]
    exact pushFrame_run (by rw [hsame]; exact hframes)
  · change u.written = _
    rw [hu.written, ht.written, hr.written, List.append_nil]
  · change u.dataSize = s.dataSize
    rw [if_pos hfits] at hrsize
    rw [if_pos (by omega), hrsize] at htsize
    rw [if_pos (by omega), htsize] at husize
    exact husize

/-- Closing a frame stores the number of bytes behind its start in front of it. -/
theorem closeFrame_run (width : ℕ) {s : BasicStream} {start : ℕ} {rest : List ℤ}
    (hframes : s.frameStack = (start : ℤ) :: rest)
    (hwidth : width ≤ start) (hstart : start ≤ s.index) (h : s.index ≤ s.dataSize) :
    ∃ t, (closeFrame width).run s = .ok () t ∧ t.index = s.index ∧ t.dataSize = s.dataSize ∧
      t.frameStack = rest ∧
      t.data = s.data.take (start - width) ++ beBytes width (s.index - start) ++
        s.data.drop start := by
  have hlen := beBytes_length width ((s.index : ℤ) - start)
  obtain ⟨u, hstore, hdata, hindex, hsize, -⟩ := forM_store_run
    (beBytes width ((s.index : ℤ) - start)) (start - width) (s := s) (by rw [hlen]; omega)
  have hback : start - width + width = start := by omega
  refine ⟨{ u with frameStack := rest }, ?_, hindex, hsize, rfl, ?_⟩
  · have hle : (width : ℤ) ≤ start := by omega
    have hposition : (start : ℤ).toNat - width = start - width := by omega
    simp only [closeFrame, EStateM.run_bind, EStateM.run_get, hframes, hle, ite_true, hposition]
    rw [hstore]
    rfl
  · change u.data = _
    rw [hdata, hlen, hback]

/-- The same for the bytes written so far. -/
theorem written_closed {width start : ℕ} {s t : BasicStream} (hwidth : width ≤ start)
    (hstart : start ≤ s.index) (h : s.index ≤ s.dataSize) (hindex : t.index = s.index)
    (hdata : t.data = s.data.take (start - width) ++ beBytes width (s.index - start) ++
      s.data.drop start) :
    t.written = s.written.take (start - width) ++ beBytes width (s.index - start) ++
      s.written.drop start := by
  have hsize := s.size_le
  have hhead : (s.data.take (start - width) ++ beBytes width ((s.index : ℤ) - start)).length =
      start := by
    rw [List.length_append, List.length_take, beBytes_length]
    omega
  rw [written, hindex, hdata, List.take_append, List.take_of_length_le (by omega), hhead]
  rw [written, List.take_take, Nat.min_eq_left (by omega), List.drop_take]

end Win64Server.BasicStream
