import Win64Server.StreamReading

/-!
The three string readers, byte by byte. Each loop is run on a stream that records which positions
of its block are read: the bounded loop of `read_string` and `read_std_string`, the loop of
`readString`, which counts but does not look at the end of the data, and the scan of a caller who
makes a `std::string` of the returned pointer.
-/
namespace Win64Server.StringReaders

open Outcome Library BasicStream

/-- A stream and the positions of its block that have been read. -/
structure Watched where
  stream : BasicStream
  loads : List ℕ

abbrev WatchedM := EStateM Fault Watched

/-- `data[position]`. -/
def load (position : ℕ) : WatchedM UInt8 := do
  let w ← get
  match w.stream.data[position]? with
  | some byte =>
    set { w with loads := w.loads ++ [position] }
    return byte
  | none => throw (.undefined .readPastBlock)

def moveTo (index : ℕ) : WatchedM Unit :=
  modify fun w => { w with stream := { w.stream with index := index } }

/-- `data[index++]`. -/
def next : WatchedM UInt8 := do
  let w ← get
  let byte ← load w.stream.index
  moveTo (w.stream.index + 1)
  return byte

/-- The loop of `readString` with so many bytes left to count: what it stores in `output`. The byte
that ends it is taken off the stream in any case. -/
def outputLoop : ℕ → WatchedM CxxString
  | 0 => do
    let _ ← next
    return []
  | left + 1 => do
    let byte ← next
    if byte ≠ 0 then
      let rest ← outputLoop left
      return byte :: rest
    else
      return []

/-- `readString(char* output)`; the string it leaves in `output`. -/
def readStringOutput : WatchedM CxxString := outputLoop 5000

/-- The loop of `read_std_string` and `read_string`, which makes at most as many rounds as bytes are
left. -/
def passString : ℕ → WatchedM CxxString
  | 0 => return []
  | rounds + 1 => do
    let w ← get
    if w.stream.index < w.stream.dataSize then
      let byte ← load w.stream.index
      if byte ≠ 0 then
        moveTo (w.stream.index + 1)
        let rest ← passString rounds
        return byte :: rest
      else
        return []
    else
      return []

/-- `if (index < data_size) index++`. -/
def passNul : WatchedM Unit := do
  let w ← get
  if w.stream.index < w.stream.dataSize then
    moveTo (w.stream.index + 1)

def readStdString : WatchedM CxxString := do
  let w ← get
  if w.stream.index < w.stream.dataSize then
    let result ← passString (w.stream.dataSize - w.stream.index)
    passNul
    return result
  else
    throw (.thrown (.outOfRange "End of stream reached"))

def readString : WatchedM ℕ := do
  let w ← get
  if w.stream.index < w.stream.dataSize then
    let _ ← passString (w.stream.dataSize - w.stream.index)
    passNul
    return w.stream.index
  else
    throw (.thrown (.outOfRange "End of stream reached"))

/-- The scan for a terminator, which leaves the block after so many bytes at the latest. -/
def scanFrom : ℕ → ℕ → WatchedM CxxString
  | 0, _ => throw (.undefined .readPastBlock)
  | rounds + 1, position => do
    let byte ← load position
    if byte ≠ 0 then
      let rest ← scanFrom rounds (position + 1)
      return byte :: rest
    else
      return []

/-- `std::string(const char*)`. -/
def stdString (pointer : ℕ) : WatchedM CxxString := do
  let w ← get
  scanFrom (w.stream.data.length + 1 - pointer) pointer

/-- `const std::string x = buf.read_string();` -/
def readStringCopy : WatchedM CxxString := do
  stdString (← readString)

theorem load_run {w : Watched} {position : ℕ} {byte : UInt8}
    (h : w.stream.data[position]? = some byte) :
    (load position).run w = .ok byte { w with loads := w.loads ++ [position] } := by
  simp [load, h]

theorem load_ok {w v : Watched} {position : ℕ} {byte : UInt8}
    (h : (load position).run w = .ok byte v) :
    w.stream.data[position]? = some byte ∧ v = { w with loads := w.loads ++ [position] } := by
  cases hbyte : w.stream.data[position]? with
  | some b =>
    rw [load_run hbyte] at h
    cases h
    exact ⟨rfl, rfl⟩
  | none => simp [load, hbyte] at h

/-- The stream with the index at another position and these further positions read. -/
def Watched.moved (w : Watched) (index count : ℕ) : Watched where
  stream := { w.stream with index := index }
  loads := w.loads ++ List.range' w.stream.index count

theorem Watched.moved_next (w : Watched) (index count : ℕ) :
    (w.moved (w.stream.index + 1) 1).moved index count = w.moved index (count + 1) := by
  simp [moved, List.range'_succ]

theorem next_run {w : Watched} {byte : UInt8} (h : w.stream.data[w.stream.index]? = some byte) :
    next.run w = .ok byte (w.moved (w.stream.index + 1) 1) := by
  have hload := load_run h
  exact (run_bind_of_ok hload).trans rfl

theorem drop_eq_cons {data : List UInt8} {position : ℕ} {byte : UInt8} {rest : List UInt8}
    (h : data.drop position = byte :: rest) :
    data[position]? = some byte ∧ data.drop (position + 1) = rest := by
  constructor
  · rw [← Nat.add_zero position, ← List.getElem?_drop, h]
    rfl
  · rw [← List.drop_drop, h]
    rfl

theorem outputLoop_run {left : ℕ} {w : Watched} {text rest : List UInt8} (h0 : 0 ∉ text)
    (hleft : text.length ≤ left) (h : w.stream.data.drop w.stream.index = text ++ 0 :: rest) :
    (outputLoop left).run w =
      .ok text (w.moved (w.stream.index + (text.length + 1)) (text.length + 1)) := by
  induction left generalizing w text with
  | zero =>
    obtain rfl := List.length_eq_zero_iff.mp (Nat.le_zero.mp hleft)
    obtain ⟨hbyte, -⟩ := drop_eq_cons h
    exact (run_bind_of_ok (next_run hbyte)).trans rfl
  | succ left ih =>
    cases text with
    | nil =>
      obtain ⟨hbyte, -⟩ := drop_eq_cons h
      exact (run_bind_of_ok (next_run hbyte)).trans rfl
    | cons byte text =>
      obtain ⟨hbyte, hdrop⟩ := drop_eq_cons h
      have hne : byte ≠ 0 := fun he => h0 (by simp [he])
      have hrest := ih (w := w.moved (w.stream.index + 1) 1) (fun hmem => h0 (by simp [hmem]))
        (Nat.le_of_succ_le_succ hleft) hdrop
      refine (run_bind_of_ok (next_run hbyte)).trans ?_
      rw [if_pos hne]
      refine (run_bind_of_ok hrest).trans ?_
      have hindex : w.stream.index + 1 + (text.length + 1) =
          w.stream.index + (text.length + 1 + 1) := by omega
      rw [Watched.moved_next]
      simp only [Watched.moved, hindex, EStateM.run_pure, List.length_cons]

theorem outputLoop_length {left : ℕ} {w v : Watched} {text : CxxString}
    (h : (outputLoop left).run w = .ok text v) : text.length ≤ left := by
  induction left generalizing w text with
  | zero =>
    obtain ⟨byte, u, -, hpure⟩ := run_bind_ok.mp h
    cases hpure
    exact le_rfl
  | succ left ih =>
    obtain ⟨byte, u, -, hrest⟩ := run_bind_ok.mp h
    by_cases hne : byte ≠ 0
    · rw [if_pos hne] at hrest
      obtain ⟨rest, u', hloop, hpure⟩ := run_bind_ok.mp hrest
      cases hpure
      exact Nat.succ_le_succ (ih hloop)
    · rw [if_neg hne] at hrest
      cases hrest
      exact Nat.zero_le _

theorem unread_cons {s : BasicStream} {byte : UInt8} {rest : List UInt8}
    (h : s.unread = byte :: rest) : s.index < s.dataSize ∧ s.data[s.index]? = some byte := by
  have hlength := s.unread_length
  rw [h, List.length_cons] at hlength
  obtain ⟨stale, hblock⟩ := exists_drop_eq s
  rw [h, List.cons_append] at hblock
  exact ⟨by omega, (drop_eq_cons hblock).1⟩

theorem stringSpan_cons_of_ne {s t : BasicStream} {byte : UInt8} {rest : List UInt8}
    (hs : s.unread = byte :: rest) (ht : t.unread = rest) (hne : byte ≠ 0) :
    s.stringSpan = t.stringSpan + 1 := by
  rw [stringSpan, stringSpan, hs, ht, List.takeWhile_cons_of_pos (by simpa), List.length_cons,
    List.length_cons]
  omega

theorem stringSpan_cons_nul {s : BasicStream} {rest : List UInt8} (hs : s.unread = 0 :: rest) :
    s.stringSpan = 1 := by
  rw [stringSpan, hs, List.takeWhile_cons_of_neg (by simp)]
  simp

/-- The bounded loop passes the bytes before the NUL, and reads the NUL too if it is there. -/
theorem passString_run {rounds : ℕ} {w : Watched}
    (hrounds : w.stream.dataSize - w.stream.index ≤ rounds) :
    (passString rounds).run w = .ok (cStr w.stream.unread)
      (w.moved (w.stream.index + (cStr w.stream.unread).length) w.stream.stringSpan) := by
  induction rounds generalizing w with
  | zero =>
    have hnil : w.stream.unread = [] := by
      rw [← List.length_eq_zero_iff, unread_length]
      omega
    simp [passString, hnil, cStr, stringSpan, Watched.moved]
  | succ rounds ih =>
    cases hunread : w.stream.unread with
    | nil =>
      have hend : ¬ w.stream.index < w.stream.dataSize := by
        have hlength := w.stream.unread_length
        rw [hunread, List.length_nil] at hlength
        omega
      simp [passString, hend, cStr, stringSpan, hunread, Watched.moved]
    | cons byte rest =>
      obtain ⟨hindex, hbyte⟩ := unread_cons hunread
      have hload := load_run hbyte
      rw [passString, EStateM.run_bind, EStateM.run_get]
      dsimp only
      rw [if_pos hindex]
      refine (run_bind_of_ok hload).trans ?_
      by_cases hne : byte ≠ 0
      · rw [if_pos hne]
        have hmoved : (moveTo (w.stream.index + 1)).run
            { w with loads := w.loads ++ [w.stream.index] } =
            .ok () (w.moved (w.stream.index + 1) 1) := rfl
        refine (run_bind_of_ok hmoved).trans ?_
        have hadvanced : (w.moved (w.stream.index + 1) 1).stream.unread = rest := by
          have hdrop := unread_advance w.stream 1
          rw [hunread] at hdrop
          exact hdrop
        have hrest := ih (w := w.moved (w.stream.index + 1) 1) (by
          dsimp only [Watched.moved]
          omega)
        refine (run_bind_of_ok hrest).trans ?_
        have hspan := stringSpan_cons_of_ne hunread hadvanced hne
        have hindex' : w.stream.index + 1 + (cStr rest).length =
            w.stream.index + ((cStr rest).length + 1) := by omega
        have htext : cStr (byte :: rest) = byte :: cStr rest :=
          List.takeWhile_cons_of_pos (by simpa)
        rw [Watched.moved_next, hadvanced, ← hspan, htext, List.length_cons, ← hindex']
        rfl
      · rw [if_neg hne]
        obtain rfl : byte = 0 := not_not.mp hne
        have htext : cStr (0 :: rest) = [] := List.takeWhile_cons_of_neg (by simp)
        rw [htext, stringSpan_cons_nul hunread]
        rfl

/-- The NUL is stepped over if the loop stopped in front of one. -/
theorem passNul_run {w : Watched} (hindex : w.stream.index < w.stream.dataSize) :
    passNul.run (w.moved (w.stream.index + (cStr w.stream.unread).length) w.stream.stringSpan) =
      .ok () (w.moved (w.stream.index + w.stream.stringSpan) w.stream.stringSpan) := by
  have hlength := w.stream.unread_length
  have hprefix : (cStr w.stream.unread).length ≤ w.stream.unread.length :=
    (List.takeWhile_prefix _).length_le
  have hspan : w.stream.stringSpan =
      min ((cStr w.stream.unread).length + 1) w.stream.unread.length := rfl
  by_cases hnul : w.stream.index + (cStr w.stream.unread).length < w.stream.dataSize
  · have hstep : w.stream.index + (cStr w.stream.unread).length + 1 =
        w.stream.index + w.stream.stringSpan := by omega
    rw [← hstep]
    simp [passNul, Watched.moved, hnul, moveTo]
  · have hend : w.stream.index + (cStr w.stream.unread).length =
        w.stream.index + w.stream.stringSpan := by omega
    rw [hend] at hnul ⊢
    simp [passNul, Watched.moved, hnul]

theorem readStdString_run {w : Watched} (hindex : w.stream.index < w.stream.dataSize) :
    readStdString.run w = .ok (cStr w.stream.unread)
      (w.moved (w.stream.index + w.stream.stringSpan) w.stream.stringSpan) := by
  rw [readStdString, EStateM.run_bind, EStateM.run_get]
  dsimp only
  rw [if_pos hindex]
  refine (run_bind_of_ok (passString_run le_rfl)).trans ?_
  exact (run_bind_of_ok (passNul_run hindex)).trans rfl

theorem readString_run {w : Watched} (hindex : w.stream.index < w.stream.dataSize) :
    readString.run w = .ok w.stream.index
      (w.moved (w.stream.index + w.stream.stringSpan) w.stream.stringSpan) := by
  rw [readString, EStateM.run_bind, EStateM.run_get]
  dsimp only
  rw [if_pos hindex]
  refine (run_bind_of_ok (passString_run le_rfl)).trans ?_
  exact (run_bind_of_ok (passNul_run hindex)).trans rfl

theorem scanFrom_run (rounds : ℕ) {position : ℕ} {w : Watched} {text rest : List UInt8}
    (h0 : 0 ∉ text) (hrounds : text.length < rounds)
    (h : w.stream.data.drop position = text ++ 0 :: rest) :
    (scanFrom rounds position).run w =
      .ok text { w with loads := w.loads ++ List.range' position (text.length + 1) } := by
  induction rounds generalizing w text position with
  | zero => omega
  | succ rounds ih =>
    cases text with
    | nil =>
      obtain ⟨hbyte, -⟩ := drop_eq_cons h
      exact (run_bind_of_ok (load_run hbyte)).trans rfl
    | cons byte text =>
      obtain ⟨hbyte, hdrop⟩ := drop_eq_cons h
      have hne : byte ≠ 0 := fun he => h0 (by simp [he])
      have hrest := ih (w := { w with loads := w.loads ++ [position] })
        (fun hmem => h0 (by simp [hmem])) (Nat.lt_of_succ_lt_succ hrounds) hdrop
      refine (run_bind_of_ok (load_run hbyte)).trans ?_
      rw [if_pos hne]
      refine (run_bind_of_ok hrest).trans ?_
      have hloads : [position] ++ List.range' (position + 1) (text.length + 1) =
          List.range' position (text.length + 1 + 1) := List.range'_succ.symm
      simp only [EStateM.run_pure, List.append_assoc, hloads, List.length_cons]

/-- A scan that returns has read the terminator behind the string. -/
theorem scanFrom_ok {rounds position : ℕ} {w v : Watched} {text : CxxString}
    (h : (scanFrom rounds position).run w = .ok text v) :
    w.stream.data[position + text.length]? = some 0 ∧ position + text.length ∈ v.loads := by
  induction rounds generalizing w text position with
  | zero => cases h
  | succ rounds ih =>
    obtain ⟨byte, u, hload, hrest⟩ := run_bind_ok.mp h
    obtain ⟨hbyte, rfl⟩ := load_ok hload
    by_cases hne : byte ≠ 0
    · rw [if_pos hne] at hrest
      obtain ⟨rest, u', hscan, hpure⟩ := run_bind_ok.mp hrest
      cases hpure
      have hstop := ih hscan
      rwa [Nat.add_assoc, Nat.add_comm 1] at hstop
    · rw [if_neg hne] at hrest
      cases hrest
      have hzero : byte = 0 := not_not.mp hne
      exact ⟨hzero ▸ hbyte, by simp⟩

/-- A scan over memory without a terminator leaves the block, with the stream as it was. -/
theorem scanFrom_unterminated (rounds : ℕ) {position : ℕ} {w : Watched}
    (h0 : 0 ∉ w.stream.data.drop position) :
    ∃ loads, (scanFrom rounds position).run w =
      .error (.undefined .readPastBlock) ⟨w.stream, loads⟩ := by
  induction rounds generalizing w position with
  | zero => exact ⟨w.loads, rfl⟩
  | succ rounds ih =>
    cases hbyte : w.stream.data[position]? with
    | none =>
      refine ⟨w.loads, ?_⟩
      have hload : (load position).run w = .error (.undefined .readPastBlock) w := by
        simp [load, hbyte]
      exact run_bind_of_error hload
    | some byte =>
      have hmem : byte ∈ w.stream.data.drop position := by
        refine List.mem_of_getElem? (i := 0) ?_
        rw [List.getElem?_drop, Nat.add_zero, hbyte]
      have hne : byte ≠ 0 := fun he => h0 (he ▸ hmem)
      have hrest : 0 ∉ w.stream.data.drop (position + 1) := by
        rw [← List.drop_drop]
        exact fun hin => h0 (List.mem_of_mem_drop hin)
      obtain ⟨loads, hscan⟩ := ih (w := { w with loads := w.loads ++ [position] }) hrest
      refine ⟨loads, (run_bind_of_ok (load_run hbyte)).trans ?_⟩
      rw [if_pos hne]
      exact run_bind_of_error hscan

/-- What a run does to the stream itself. -/
def forget {α : Type} : EStateM.Result Fault Watched α → EStateM.Result Fault BasicStream α
  | .ok a w => .ok a w.stream
  | .error e w => .error e w.stream

theorem forget_readStdString (w : Watched) :
    forget (readStdString.run w) = BasicStream.readStdString.run w.stream := by
  by_cases hindex : w.stream.index < w.stream.dataSize
  · rw [readStdString_run hindex]
    simp [BasicStream.readStdString, hindex, forget, Watched.moved]
  · simp [readStdString, BasicStream.readStdString, hindex, forget]

theorem forget_stdString (pointer : ℕ) (w : Watched) :
    forget ((stdString pointer).run w) = (BasicStream.stdString pointer).run w.stream := by
  have hwatched : (stdString pointer).run w =
      (scanFrom (w.stream.data.length + 1 - pointer) pointer).run w := rfl
  rw [hwatched]
  by_cases h0 : 0 ∈ w.stream.data.drop pointer
  · obtain ⟨text, rest, hsplit, htext⟩ := List.eq_append_cons_of_mem h0
    have hlength := congrArg List.length hsplit
    rw [List.length_drop, List.length_append, List.length_cons] at hlength
    rw [scanFrom_run _ htext (by omega) hsplit]
    simp [BasicStream.stdString, forget, hsplit, cStr_append_zero htext]
  · obtain ⟨loads, hscan⟩ := scanFrom_unterminated (w.stream.data.length + 1 - pointer) h0
    rw [hscan]
    simp [BasicStream.stdString, h0, forget]

theorem forget_readStringCopy (w : Watched) :
    forget (readStringCopy.run w) = BasicStream.readStringCopy.run w.stream := by
  by_cases hindex : w.stream.index < w.stream.dataSize
  · have hread : BasicStream.readString.run w.stream =
        .ok w.stream.index { w.stream with index := w.stream.index + w.stream.stringSpan } := by
      simp [BasicStream.readString, hindex]
    have hwatched : readStringCopy.run w = (stdString w.stream.index).run
        (w.moved (w.stream.index + w.stream.stringSpan) w.stream.stringSpan) :=
      run_bind_of_ok (readString_run hindex)
    rw [hwatched, forget_stdString]
    exact (run_bind_of_ok hread).symm
  · simp [readStringCopy, BasicStream.readStringCopy, readString, BasicStream.readString, hindex,
      forget, EStateM.run_bind]

/-- A reader returns this string, leaves this index and reads nothing behind the received data. -/
def Yields (s : BasicStream) (text : CxxString) (index : ℕ) (reader : WatchedM CxxString) : Prop :=
  ∃ w, reader.run ⟨s, []⟩ = .ok text w ∧ w.stream.index = index ∧ ∀ p ∈ w.loads, p < s.dataSize

variable {s : BasicStream}

/-- The positions of the bytes that the bounded loop reads are within the data. -/
theorem stringSpan_within (s : BasicStream) {p : ℕ}
    (hp : p ∈ List.range' s.index s.stringSpan) : p < s.dataSize := by
  obtain ⟨i, hi, rfl⟩ := List.mem_range'.mp hp
  have hlength := s.unread_length
  have hspan : s.stringSpan ≤ s.unread.length := Nat.min_le_right _ _
  omega

theorem readStdString_yields (h : s.index < s.dataSize) :
    Yields s (cStr s.unread) (s.index + s.stringSpan) readStdString :=
  ⟨_, readStdString_run (w := ⟨s, []⟩) h, rfl, fun _ hp => stringSpan_within s hp⟩

/-- With a terminator in the data, the bytes from the index on are the string and its NUL. -/
theorem exists_string (h0 : 0 ∈ s.unread) : ∃ rest, 0 ∉ cStr s.unread ∧
    s.data.drop s.index = cStr s.unread ++ 0 :: rest ∧
    s.stringSpan = (cStr s.unread).length + 1 := by
  obtain ⟨text, rest, hsplit, htext⟩ := List.eq_append_cons_of_mem h0
  obtain ⟨stale, hblock⟩ := exists_drop_eq s
  have hvalue : cStr s.unread = text := by rw [hsplit, cStr_append_zero htext]
  rw [hvalue]
  refine ⟨rest ++ stale, htext, ?_, stringSpan_terminated htext hsplit⟩
  rw [hblock, hsplit, List.append_assoc, List.cons_append]

theorem readStringCopy_yields (h : s.index < s.dataSize) (h0 : 0 ∈ s.unread) :
    Yields s (cStr s.unread) (s.index + s.stringSpan) readStringCopy := by
  obtain ⟨rest, htext, hdrop, hspan⟩ := exists_string h0
  have hlength := congrArg List.length hdrop
  rw [List.length_drop, List.length_append, List.length_cons] at hlength
  have hscan := scanFrom_run (s.data.length + 1 - s.index)
    (w := Watched.moved ⟨s, []⟩ (s.index + s.stringSpan) s.stringSpan) htext (by omega) hdrop
  rw [← hspan] at hscan
  refine ⟨_, (run_bind_of_ok (readString_run (w := ⟨s, []⟩) h)).trans hscan, rfl, fun p hp => ?_⟩
  rcases List.mem_append.mp hp with hread | hcopied
  · exact stringSpan_within s hread
  · exact stringSpan_within s hcopied

theorem readStringOutput_yields (h0 : 0 ∈ s.unread) (hlength : (cStr s.unread).length ≤ 5000) :
    Yields s (cStr s.unread) (s.index + s.stringSpan) readStringOutput := by
  obtain ⟨rest, htext, hdrop, hspan⟩ := exists_string h0
  have hrun := outputLoop_run (w := ⟨s, []⟩) htext hlength hdrop
  rw [← hspan] at hrun
  exact ⟨_, hrun, rfl, fun p hp => stringSpan_within s hp⟩

/-- The copy of a string that does not end in the data reads on behind it. -/
theorem mem_of_readStringCopy_yields (h : s.index < s.dataSize) {text : CxxString} {index : ℕ}
    (hyields : Yields s text index readStringCopy) : 0 ∈ s.unread := by
  obtain ⟨w, hrun, -, hloads⟩ := hyields
  obtain ⟨pointer, u, hread, hscan⟩ := run_bind_ok.mp hrun
  rw [readString_run (w := ⟨s, []⟩) h] at hread
  cases hread
  obtain ⟨hzero, hmem⟩ := scanFrom_ok hscan
  have hwithin : s.index + text.length < s.dataSize := hloads _ hmem
  have hunread : s.unread[text.length]? = some 0 := by
    rw [unread_eq, List.getElem?_take, if_pos (by omega), List.getElem?_drop]
    exact hzero
  exact List.mem_of_getElem? hunread

/-- The three readers yield the same string, leave the same index and stay in the data exactly when
the string ends there and is not longer than `readString` counts. -/
theorem readers_agree_iff (s : BasicStream) (h : s.index < s.dataSize) :
    (∃ text index, Yields s text index readStringCopy ∧ Yields s text index readStringOutput ∧
      Yields s text index readStdString) ↔
    0 ∈ s.unread ∧ (cStr s.unread).length ≤ 5000 := by
  constructor
  · rintro ⟨text, index, hcopy, ⟨w, houtput, -, -⟩, ⟨v, hstd, -, -⟩⟩
    have htext : text = cStr s.unread := by
      rw [readStdString_run (w := ⟨s, []⟩) h] at hstd
      cases hstd
      rfl
    exact ⟨mem_of_readStringCopy_yields h hcopy, htext ▸ outputLoop_length houtput⟩
  · rintro ⟨h0, hlength⟩
    exact ⟨cStr s.unread, s.index + s.stringSpan, readStringCopy_yields h h0,
      readStringOutput_yields h0 hlength, readStdString_yields h⟩

/-- One received byte, with a stale one and a NUL behind it. -/
def oneLetter : BasicStream where
  data := [65, 66, 0]
  index := 0
  dataSize := 1
  mark := none
  bitPosition := 0
  frameStack := []
  size_le := by decide

/-- The bounded reader yields the letter, the other two go on to the stale one. -/
theorem oneLetter_differs : ¬ ∀ s : BasicStream, s.index < s.dataSize →
    ∃ text index, Yields s text index readStringCopy ∧ Yields s text index readStringOutput ∧
      Yields s text index readStdString := by
  intro hall
  obtain ⟨text, index, hcopy, -, -⟩ := hall oneLetter (by decide)
  exact absurd (mem_of_readStringCopy_yields (by decide) hcopy) (by decide)

theorem readers_agree_short : ∃ text index,
    Yields (.preallocated [65, 66, 0]) text index readStringCopy ∧
      Yields (.preallocated [65, 66, 0]) text index readStringOutput ∧
      Yields (.preallocated [65, 66, 0]) text index readStdString :=
  (readers_agree_iff (.preallocated [65, 66, 0]) (by decide)).mpr (by decide)

end Win64Server.StringReaders
