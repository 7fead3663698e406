import Win64Server.BasicStream
import Win64Server.Library.Decoding

/-!
What the stream operations do, said in terms of the bytes not yet read. The fixed-width readers
take that many bytes off them, the string reader takes a NUL-terminated field, and deleting the
marked block keeps them while the cursor goes back to the mark.
-/
namespace Win64Server.BasicStream

open Outcome Library

theorem unread_eq (s : BasicStream) :
    s.unread = (s.data.drop s.index).take (s.dataSize - s.index) := by
  rw [unread, List.drop_take]

theorem unread_advance (s : BasicStream) (n : ℕ) :
    ({ s with index := s.index + n } : BasicStream).unread = s.unread.drop n := by
  simp only [unread, List.drop_drop]

theorem readBytes_run (s : BasicStream) {n : ℕ} (hn : 0 < n) (h : n ≤ s.unread.length) :
    (readBytes n).run s = .ok (s.unread.take n) { s with index := s.index + n } := by
  rw [unread_length] at h
  have hbound : s.index + (n - 1) < s.dataSize := by omega
  have htake : s.unread.take n = (s.data.drop s.index).take n := by
    rw [unread_eq, List.take_take, Nat.min_eq_left h]
  simp only [readBytes, EStateM.run_bind, EStateM.run_get, hbound, ite_true, EStateM.run_set,
    EStateM.run_pure, htake]

theorem readBytes_ok {s t : BasicStream} {n : ℕ} {bytes : List UInt8} (hn : 0 < n)
    (hrun : (readBytes n).run s = .ok bytes t) :
    n ≤ s.unread.length ∧ bytes = s.unread.take n ∧ t = { s with index := s.index + n } := by
  have h : n ≤ s.unread.length := by
    by_contra hshort
    rw [unread_length] at hshort
    have hbound : ¬ s.index + (n - 1) < s.dataSize := by omega
    simp [readBytes, hbound] at hrun
  rw [readBytes_run s hn h] at hrun
  cases hrun
  exact ⟨h, rfl, rfl⟩

/-- A reader changes nothing of the stream but its index. -/
def cursor : Cursor BasicStream UInt8 where
  view := unread
  Moved s k t := t = { s with index := s.index + k }
  view_of_moved := by
    rintro s t k rfl
    exact unread_advance s k
  refl _ := rfl
  trans := by
    rintro s t u k j rfl rfl
    simp only [Nat.add_assoc]

theorem readsFixed_readBytes {n : ℕ} (hn : 0 < n) : ReadsFixed cursor (readBytes n) n id := by
  intro s bytes t hrun
  exact readBytes_ok hn hrun

theorem readsFixed_readUnsignedByte : ReadsFixed cursor readUnsignedByte 1 beNat :=
  (readsFixed_readBytes (by decide)).map beNat

theorem readsFixed_readUnsignedShort : ReadsFixed cursor readUnsignedShort 2 beNat :=
  (readsFixed_readBytes (by decide)).map beNat

theorem readsFixed_read3Byte : ReadsFixed cursor read3Byte 3 fun bytes =>
    if beNat bytes > 8388607 then (beNat bytes + 2 ^ 32 - 16777216) % 2 ^ 32 else beNat bytes := by
  have hbytes : ReadsFixed cursor (readBytes 3) 3 id := readsFixed_readBytes (by decide)
  have h := hbytes.map fun bytes =>
    if beNat bytes > 8388607 then (beNat bytes + 2 ^ 32 - 16777216) % 2 ^ 32 else beNat bytes
  rwa [map_eq_pure_bind] at h

theorem readsFixed_readUnsignedInt : ReadsFixed cursor readUnsignedInt 4 beNat :=
  (readsFixed_readBytes (by decide)).map beNat

theorem readsFixed_readQWord :
    ReadsFixed cursor readQWord 8 fun bytes => toInt64 (beNat bytes) :=
  (readsFixed_readBytes (by decide)).map fun bytes => toInt64 (beNat bytes)

theorem mark_run (s : BasicStream) :
    markPosition.run s = .ok () { s with mark := some s.index } := rfl

theorem reset_run {s : BasicStream} {mark : ℕ} (h : s.mark = some mark) :
    reset.run s = .ok () { s with index := mark, mark := none } := by
  simp [reset, h]

/-- The unread bytes survive the move, and the bytes in front of the mark do not matter. -/
theorem deleteMarkedBlock_run {s : BasicStream} {mark : ℕ} (hmark : s.mark = some mark)
    (hle : mark ≤ s.index) (hsize : s.index ≤ s.dataSize) :
    ∃ t, deleteMarkedBlock.run s = .ok () t ∧ t.unread = s.unread ∧ t.index = mark ∧
      t.mark = none := by
  have h : mark ≤ s.index ∧ s.index ≤ s.dataSize := ⟨hle, hsize⟩
  have hblock := s.size_le
  simp only [deleteMarkedBlock, EStateM.run_bind, EStateM.run_get, hmark, h, and_self, dite_true,
    EStateM.run_set, EStateM.Result.ok.injEq, true_and, exists_eq_left', and_true]
  have hhead : (s.data.take mark).length = mark := by
    rw [List.length_take]
    omega
  have hsub : s.dataSize - (s.index - mark) - mark = s.dataSize - s.index := by omega
  rw [unread_eq s, unread_eq]
  simp only [memmove, List.append_assoc]
  rw [List.drop_left' hhead, hsub, List.take_append_of_le_length, List.take_take, Nat.min_self]
  rw [List.length_take, List.length_drop]
  omega

/-- A deletion that returns has kept the unread bytes. -/
theorem deleteMarkedBlock_ok {s t : BasicStream}
    (hrun : deleteMarkedBlock.run s = .ok () t) : t.unread = s.unread := by
  cases hmark : s.mark with
  | none => simp [deleteMarkedBlock, hmark] at hrun
  | some mark =>
    by_cases h : mark ≤ s.index ∧ s.index ≤ s.dataSize
    · obtain ⟨t', hok, hunread, -, -⟩ := deleteMarkedBlock_run hmark h.1 h.2
      rw [hok] at hrun
      cases hrun
      exact hunread
    · simp [deleteMarkedBlock, hmark, h] at hrun

theorem stringSpan_terminated {s : BasicStream} {bs rest : List UInt8} (h0 : 0 ∉ bs)
    (h : s.unread = bs ++ 0 :: rest) : s.stringSpan = bs.length + 1 := by
  have htake : (bs ++ 0 :: rest).takeWhile (· ≠ 0) = bs := by
    rw [List.takeWhile_append_of_pos]
    · simp
    · intro b hb
      have hne : b ≠ 0 := fun he => h0 (he ▸ hb)
      simpa using hne
  rw [stringSpan, h, htake, List.length_append, List.length_cons]
  omega

theorem stringSpan_unterminated {s : BasicStream} (h0 : 0 ∉ s.unread) :
    s.stringSpan = s.unread.length := by
  have htake : s.unread.takeWhile (· ≠ 0) = s.unread := cStr_eq_self h0
  rw [stringSpan, htake]
  omega

theorem readString_ok {s t : BasicStream} {pointer : ℕ} (hrun : readString.run s = .ok pointer t) :
    s.unread ≠ [] ∧ pointer = s.index ∧ t = { s with index := s.index + s.stringSpan } := by
  by_cases h : s.index < s.dataSize
  · simp only [readString, EStateM.run_bind, EStateM.run_get, h, ite_true, EStateM.run_set,
      EStateM.run_pure, EStateM.Result.ok.injEq] at hrun
    refine ⟨?_, hrun.1.symm, hrun.2.symm⟩
    intro hnil
    have hlen := s.unread_length
    rw [hnil, List.length_nil] at hlen
    omega
  · simp [readString, h] at hrun

theorem stdString_ok {s t : BasicStream} {pointer : ℕ} {value : CxxString}
    (hrun : (stdString pointer).run s = .ok value t) :
    value = cStr (s.data.drop pointer) ∧ t = s := by
  by_cases h : 0 ∈ s.data.drop pointer
  · simp only [stdString, EStateM.run_bind, EStateM.run_get, h, ite_true, EStateM.run_pure,
      EStateM.Result.ok.injEq] at hrun
    exact ⟨hrun.1.symm, hrun.2.symm⟩
  · simp [stdString, h] at hrun

/-- The block from the cursor on starts with the unread bytes. -/
theorem exists_drop_eq (s : BasicStream) : ∃ stale, s.data.drop s.index = s.unread ++ stale := by
  rw [unread_eq]
  exact ⟨_, (List.take_append_drop _ _).symm⟩

theorem cStr_append_zero {bs rest : List UInt8} (h0 : 0 ∉ bs) : cStr (bs ++ 0 :: rest) = bs := by
  unfold cStr
  rw [List.takeWhile_append_of_pos]
  · simp
  · intro b hb
    have hne : b ≠ 0 := fun he => h0 (he ▸ hb)
    simpa using hne

theorem readsStopped_readString : ReadsStopped cursor 0 readString fun _ _ => True := by
  intro s pointer t hrun
  obtain ⟨hne, rfl, rfl⟩ := readString_ok hrun
  by_cases h0 : 0 ∈ s.unread
  · obtain ⟨bs, rest, hsplit, hbs⟩ := List.eq_append_cons_of_mem h0
    refine Or.inl ⟨bs, rest, hbs, trivial, hsplit, ?_⟩
    rw [stringSpan_terminated hbs hsplit]
    rfl
  · refine Or.inr ⟨hne, h0, ⟨[], trivial⟩, ?_⟩
    rw [stringSpan_unterminated h0]
    rfl

/-- The copy of a terminated string is the string; that of an unterminated one runs on into the
memory behind the stream. -/
theorem readsStopped_readStringCopy :
    ReadsStopped cursor 0 readStringCopy fun bs value => value = bs := by
  intro s value t hrun
  obtain ⟨pointer, u, hread, hcopy⟩ := run_bind_ok.mp hrun
  obtain ⟨hvalue, rfl⟩ := stdString_ok hcopy
  rcases readsStopped_readString s pointer t hread with
    ⟨bs, rest, hbs, -, hsplit, ht⟩ | ⟨hne, h0, -, ht⟩
  · refine Or.inl ⟨bs, rest, hbs, ?_, hsplit, ht⟩
    obtain ⟨-, rfl, rfl⟩ := readString_ok hread
    obtain ⟨stale, hblock⟩ := exists_drop_eq s
    have hunread : s.unread = bs ++ 0 :: rest := hsplit
    rw [hvalue]
    change cStr (s.data.drop s.index) = bs
    rw [hblock, hunread, List.append_assoc, List.cons_append, cStr_append_zero hbs]
  · exact Or.inr ⟨hne, h0, ⟨value, rfl⟩, ht⟩

theorem decodes_readBytes {n : ℕ} (hn : 0 < n) (bytes : Bytes n) :
    Decodes cursor (readBytes n) bytes.1 bytes.1 := by
  intro s rest hs
  have hunread : s.unread = bytes.1 ++ rest := hs
  have hle : n ≤ s.unread.length := by
    rw [hunread, List.length_append, bytes.2]
    omega
  have hrun := readBytes_run s hn hle
  rw [hunread, List.take_left' bytes.2] at hrun
  exact ⟨_, hrun, by rw [bytes.2]; rfl⟩

theorem readString_run (text : Text) {s : BasicStream} {rest : List UInt8}
    (h : s.unread = text.1 ++ 0 :: rest) :
    readString.run s = .ok s.index { s with index := s.index + (text.1.length + 1) } := by
  have hlength : s.unread.length = text.1.length + 1 + rest.length := by
    rw [h, List.length_append, List.length_cons]
    omega
  have hindex : s.index < s.dataSize := by
    rw [unread_length] at hlength
    omega
  simp [readString, hindex, stringSpan_terminated text.2 h]

theorem decodes_readStringCopy (text : Text) :
    Decodes cursor readStringCopy (text.1 ++ [0]) text.1 := by
  intro s rest hs
  have hunread : s.unread = text.1 ++ 0 :: rest := by
    rw [← List.singleton_append, ← List.append_assoc]
    exact hs
  obtain ⟨stale, hblock⟩ := exists_drop_eq s
  rw [hunread, List.append_assoc, List.cons_append] at hblock
  refine ⟨_, (run_bind_of_ok (readString_run text hunread)).trans ?_,
    by rw [List.length_append]; rfl⟩
  simp [stdString, hblock, cStr_append_zero text.2]

end Win64Server.BasicStream
