import Win64Server.Cxx
import Win64Server.Library.MaximalRuns
import Win64Server.Library.Rounds

/-!
Wrapping a text into lines. Each round takes the characters up to the last space within reach, so
every line but the first begins with the space at which the line before it was broken. The length
of a line is an `int`, and its NUL is stored behind the block that was allocated for the length.
-/
namespace Win64Server.WordWrap

open Library

/-- What the function takes from the C library: the spaces of the locale, and how many bytes the
block has that a `malloc` which succeeds returns for a request. -/
structure Runtime where
  isspace : UInt8 → Bool
  malloc : ℕ → ℕ
  le_malloc : ∀ request, request ≤ malloc request

/-- A NUL-terminated buffer. -/
structure Buffer where
  text : CxxString
  zero_notMem : 0 ∉ text
  length_lt : text.length < 2 ^ 63

structure Progress where
  count : ℕ
  dest : List CxxString

section Program

variable (c : Runtime) (text : CxxString) (maxlength : ℕ)

/-- Whether the character here ends the way back: `none` is outside the buffer. -/
def halts (i : ℕ) : Option Bool := (text ++ [0])[i]?.map fun ch => ch = 0 || c.isspace ch

/-- `while (*(endptr) && !isspace(*(endptr))) endptr--;`. -/
def backUp : ℕ → Except Fault ℕ
  | 0 =>
    match halts c text 0 with
    | some true => .ok 0
    | _ => .error (.undefined .readPastBlock)
  | i + 1 =>
    match halts c text (i + 1) with
    | some true => .ok (i + 1)
    | some false => backUp i
    | none => .error (.undefined .readPastBlock)

/-- Where `endptr` ends up for a line that begins at `count`. -/
def endptr (count : ℕ) : Except Fault ℕ :=
  let reach := (count + maxlength) % 2 ^ 64
  backUp c text (if reach ≤ text.length then reach else text.length)

/-- The string that is pushed for so many characters. The NUL stands at their end, and it has to be
inside the block as well. -/
def pushed (rest : CxxString) (size : ℤ) : Except Fault CxxString :=
  let request := (size % 2 ^ 64).toNat
  if 0 ≤ size ∧ size < c.malloc request then .ok (cStr (rest.take request))
  else .error (.undefined .writePastEnd)

/-- One round of the loop. What `rtrim` returns for the line is not used. -/
def round (s : Progress) : Except Fault (Round Progress (List CxxString)) :=
  match endptr c text maxlength s.count with
  | .error e => .error e
  | .ok stop =>
    let size := toInt32 (stop - s.count)
    match pushed c (text.drop s.count) size with
    | .error e => .error e
    | .ok out =>
      let dest := s.dest ++ [out]
      if (text ++ [0])[stop]? = some 0 then .ok (.done dest)
      else .ok (.again ⟨((s.count + size) % 2 ^ 64).toNat, dest⟩)

def start : Progress := ⟨0, []⟩

def wordWrap (rounds : ℕ) : Option (Except Fault (List CxxString)) :=
  loop (round c text maxlength) rounds start

end Program

section Purpose

variable (c : Runtime) (text : CxxString) (maxlength : ℕ)

/-- The characters of the words. -/
def nonSpace (ch : UInt8) : Bool := !c.isspace ch

def spaceAt (i : ℕ) : Bool := text[i]?.any c.isspace

/-- Every maximal run of characters that are no spaces is shorter than a line may be. -/
def ShortWords : Prop :=
  ∀ start stop, MaximalRun (nonSpace c) text start stop → stop - start < maxlength

/-- A break before each of the lines, and none of them inside a word. -/
def Unbroken (lines : List CxxString) : Prop :=
  ∀ first last, lines = first ++ last → ∀ i, i + 1 = first.flatten.length →
    ¬ (Marked (nonSpace c) text i ∧ Marked (nonSpace c) text (i + 1))

structure WellWrapped (lines : List CxxString) : Prop where
  length_le : ∀ line ∈ lines, line.length ≤ maxlength
  flatten_eq : lines.flatten = text
  unbroken : Unbroken c text lines

/-- A line from `p` takes what is left or breaks at the last space within reach. -/
def nextBreak (p : ℕ) : ℕ :=
  if text.length ≤ p + maxlength then text.length
  else Nat.findGreatest (fun i => spaceAt c text i = true) (p + maxlength)

/-- The positions at which lines that take as much as they can begin. -/
inductive Begins : ℕ → Prop
  | first : Begins 0
  | next {p : ℕ} (h : Begins p) (hmore : nextBreak c text maxlength p < text.length) :
      Begins (nextBreak c text maxlength p)

/-- Every such line has a length that is an `int`, and gets a block with a byte to spare. -/
def HasBlocks : Prop :=
  ∀ p, Begins c text maxlength p →
    nextBreak c text maxlength p - p < 2 ^ 31 ∧
      nextBreak c text maxlength p - p < c.malloc (nextBreak c text maxlength p - p)

end Purpose

section Breaks

variable {c : Runtime} {text : CxxString} {maxlength p i : ℕ}

theorem spaceAt_of_not_marked (hi : i < text.length) (h : ¬ Marked (nonSpace c) text i) :
    spaceAt c text i = true := by
  rw [marked_iff hi, nonSpace] at h
  simpa [spaceAt, hi] using h

theorem not_marked_of_spaceAt (h : spaceAt c text i = true) : ¬ Marked (nonSpace c) text i := by
  rintro ⟨a, ha, hword⟩
  rw [spaceAt, ha] at h
  rw [nonSpace] at hword
  simp_all

/-- There is a space behind the beginning of a line that does not reach to the end. -/
theorem exists_space (hwords : ShortWords c text maxlength) (hmax : 1 ≤ maxlength)
    (hlong : p + maxlength < text.length) :
    ∃ i, p < i ∧ i ≤ p + maxlength ∧ spaceAt c text i = true := by
  by_contra hnone
  push Not at hnone
  have hmarked : ∀ i, p < i → i ≤ p + maxlength → Marked (nonSpace c) text i := by
    intro i hlow hhigh
    by_contra hnot
    exact hnone i hlow hhigh (spaceAt_of_not_marked (by omega) hnot)
  obtain ⟨first, stop, hrun, hlow, hhigh⟩ :=
    exists_maximalRun (hmarked (p + 1) (by omega) (by omega))
  have hshort := hwords first stop hrun
  -- The run goes on until it is behind everything within reach.
  have hbehind : p + maxlength < stop := by
    by_contra hinside
    exact hrun.after (hmarked stop (by omega) (by omega))
  omega

theorem nextBreak_le : nextBreak c text maxlength p ≤ text.length := by
  unfold nextBreak
  split
  · exact le_rfl
  · have hle := Nat.findGreatest_le (P := fun i => spaceAt c text i = true) (p + maxlength)
    omega

/-- A line begins before it ends, is not too long, and ends at a space or with the text. -/
theorem nextBreak_bounds (hwords : ShortWords c text maxlength) (hmax : 1 ≤ maxlength)
    (hp : p ≤ text.length) :
    p ≤ nextBreak c text maxlength p ∧ nextBreak c text maxlength p ≤ p + maxlength ∧
      ¬ Marked (nonSpace c) text (nextBreak c text maxlength p) ∧
      (nextBreak c text maxlength p < text.length →
        p < nextBreak c text maxlength p ∧ p + maxlength < text.length) := by
  unfold nextBreak
  split
  · refine ⟨hp, by omega, fun hmark => ?_, fun hlt => ?_⟩
    · exact absurd hmark.lt_length (lt_irrefl _)
    · exact absurd hlt (lt_irrefl _)
  · rename_i hlong
    obtain ⟨i, hlow, hhigh, hspace⟩ := exists_space hwords hmax (not_le.mp hlong)
    have hreach := Nat.le_findGreatest (P := fun i => spaceAt c text i = true) hhigh hspace
    have hle := Nat.findGreatest_le (P := fun i => spaceAt c text i = true) (p + maxlength)
    have hbreak := Nat.findGreatest_spec (P := fun i => spaceAt c text i = true) hhigh hspace
    exact ⟨by omega, hle, not_marked_of_spaceAt hbreak, fun _ => ⟨by omega, by omega⟩⟩

end Breaks

section Rounds

variable {c : Runtime} {buffer : Buffer} {maxlength : UInt64} {i : ℕ}

theorem halts_inside (h : i < buffer.text.length) :
    halts c buffer.text i = some (spaceAt c buffer.text i) := by
  have hne : buffer.text[i] ≠ 0 := fun heq =>
    buffer.zero_notMem (heq ▸ List.getElem_mem h)
  rw [halts, List.getElem?_append_left h, List.getElem?_eq_getElem h, spaceAt,
    List.getElem?_eq_getElem h]
  simp [hne]

theorem halts_end : halts c buffer.text buffer.text.length = some true := by
  simp [halts]

/-- The way back ends at the last place within the buffer that stops it. -/
theorem backUp_ok {limit : ℕ} (hlimit : limit ≤ buffer.text.length)
    (hstop : ∃ i ≤ limit, halts c buffer.text i = some true) :
    ∃ q ≤ limit, backUp c buffer.text limit = .ok q ∧ halts c buffer.text q = some true ∧
      ∀ i, q < i → i ≤ limit → halts c buffer.text i = some false := by
  induction limit with
  | zero =>
    obtain ⟨i, hi, hhalts⟩ := hstop
    obtain rfl : i = 0 := by omega
    refine ⟨0, le_rfl, ?_, hhalts, fun i hlow hhigh => by omega⟩
    rw [backUp, hhalts]
  | succ limit ih =>
    by_cases hhere : halts c buffer.text (limit + 1) = some true
    · refine ⟨limit + 1, le_rfl, ?_, hhere, fun i hlow hhigh => by omega⟩
      rw [backUp, hhere]
    · have hgoes : halts c buffer.text (limit + 1) = some false := by
        rcases Nat.eq_or_lt_of_le hlimit with hend | hinside
        · exact absurd (hend ▸ halts_end) hhere
        · rw [halts_inside hinside] at hhere ⊢
          simpa using hhere
      have hearlier : ∃ i ≤ limit, halts c buffer.text i = some true := by
        obtain ⟨i, hi, hhalts⟩ := hstop
        rcases Nat.eq_or_lt_of_le hi with rfl | hlt
        · exact absurd hhalts hhere
        · exact ⟨i, by omega, hhalts⟩
      obtain ⟨q, hq, hrun, hhalts, hrest⟩ := ih (by omega) hearlier
      refine ⟨q, by omega, ?_, hhalts, fun i hlow hhigh => ?_⟩
      · rw [backUp, hgoes]
        exact hrun
      · rcases Nat.eq_or_lt_of_le hhigh with rfl | hlt
        · exact hgoes
        · exact hrest i hlow (by omega)

/-- The count and the lines belong together, and the sum of the next check does not wrap. -/
structure Sized (buffer : Buffer) (maxlength : UInt64) (s : Progress) : Prop where
  count_le : s.count ≤ buffer.text.length
  length_eq : s.dest.flatten.length = s.count
  fits : s.count = 0 ∨ maxlength.toNat < buffer.text.length

variable {s : Progress}

theorem sized_start : Sized buffer maxlength start := ⟨Nat.zero_le _, rfl, Or.inl rfl⟩

theorem endptr_eq (hwords : ShortWords c buffer.text maxlength.toNat) (hmax : 1 ≤ maxlength.toNat)
    (hs : Sized buffer maxlength s) :
    endptr c buffer.text maxlength.toNat s.count =
      .ok (nextBreak c buffer.text maxlength.toNat s.count) := by
  have hlength := buffer.length_lt
  have hword := maxlength.toNat_lt
  have hcount := hs.count_le
  have hreach : (s.count + maxlength.toNat) % 2 ^ 64 = s.count + maxlength.toNat := by
    rcases hs.fits with hzero | hfits
    · omega
    · omega
  unfold endptr nextBreak
  dsimp only
  rw [hreach]
  by_cases hend : buffer.text.length ≤ s.count + maxlength.toNat
  · have hlimit : (if s.count + maxlength.toNat ≤ buffer.text.length then
        s.count + maxlength.toNat else buffer.text.length) = buffer.text.length := by
      split <;> omega
    rw [hlimit, if_pos hend]
    obtain ⟨q, hq, hrun, -, hrest⟩ := backUp_ok le_rfl ⟨_, le_rfl, halts_end (c := c)⟩
    rcases Nat.eq_or_lt_of_le hq with rfl | hlt
    · exact hrun
    · have hnot := hrest _ hlt le_rfl
      rw [halts_end] at hnot
      cases hnot
  · rw [if_pos (by omega), if_neg hend]
    obtain ⟨i, hlow, hhigh, hspace⟩ := exists_space hwords hmax (not_le.mp hend)
    have hhalt : halts c buffer.text i = some true := by
      rw [halts_inside (by omega), hspace]
    obtain ⟨q, hq, hrun, hhalts, hrest⟩ := backUp_ok (by omega) ⟨i, hhigh, hhalt⟩
    rw [hrun]
    refine congrArg Except.ok (Nat.findGreatest_eq_iff.mpr ⟨hq, fun _ => ?_, ?_⟩).symm
    · rw [halts_inside (by omega)] at hhalts
      exact Option.some.inj hhalts
    · intro j hqj hj hspace'
      have hgoes := hrest j hqj hj
      rw [halts_inside (by omega), hspace'] at hgoes
      cases hgoes

/-- The NUL of the buffer is what the loop ends at. -/
theorem ends_iff {q : ℕ} (hq : q ≤ buffer.text.length) :
    (buffer.text ++ [0])[q]? = some 0 ↔ ¬ q < buffer.text.length := by
  rcases Nat.eq_or_lt_of_le hq with rfl | hlt
  · simp
  · rw [List.getElem?_append_left hlt, List.getElem?_eq_getElem hlt]
    refine iff_of_false (fun heq => ?_) (not_not.mpr hlt)
    exact buffer.zero_notMem (Option.some.inj heq ▸ List.getElem_mem hlt)

/-- A round whose block is large enough for the size it has computed. -/
theorem round_pushes (hwords : ShortWords c buffer.text maxlength.toNat)
    (hmax : 1 ≤ maxlength.toNat) (hs : Sized buffer maxlength s) {n : ℕ}
    (hsize : toInt32 (nextBreak c buffer.text maxlength.toNat s.count - s.count) = n)
    (hn : n ≤ nextBreak c buffer.text maxlength.toNat s.count - s.count)
    (hblock : n < c.malloc n) :
    round c buffer.text maxlength.toNat s =
      if nextBreak c buffer.text maxlength.toNat s.count < buffer.text.length then
        .ok (.again ⟨s.count + n, s.dest ++ [(buffer.text.drop s.count).take n]⟩)
      else .ok (.done (s.dest ++ [(buffer.text.drop s.count).take n])) := by
  have hle : nextBreak c buffer.text maxlength.toNat s.count ≤ buffer.text.length := nextBreak_le
  have hlength := buffer.length_lt
  have hcount := hs.count_le
  have hrequest : ((n : ℤ) % 2 ^ 64).toNat = n := by omega
  have hline : cStr ((buffer.text.drop s.count).take n) = (buffer.text.drop s.count).take n :=
    cStr_eq_self fun hzero =>
      buffer.zero_notMem (List.mem_of_mem_drop (List.mem_of_mem_take hzero))
  have hpushed : pushed c (buffer.text.drop s.count) n =
      .ok ((buffer.text.drop s.count).take n) := by
    rw [pushed, hrequest, if_pos ⟨by omega, by exact_mod_cast hblock⟩, hline]
  have hnext : (((s.count : ℤ) + n) % 2 ^ 64).toNat = s.count + n := by omega
  unfold round
  rw [endptr_eq hwords hmax hs]
  dsimp only
  rw [hsize, hpushed]
  dsimp only
  rw [hnext]
  by_cases hmore : nextBreak c buffer.text maxlength.toNat s.count < buffer.text.length
  · rw [if_pos hmore, if_neg fun hnul => (ends_iff hle).mp hnul hmore]
  · rw [if_neg hmore, if_pos ((ends_iff hle).mpr hmore)]

/-- A round whose size is negative or whose NUL lies behind the block. -/
theorem round_stops (hwords : ShortWords c buffer.text maxlength.toNat)
    (hmax : 1 ≤ maxlength.toNat) (hs : Sized buffer maxlength s) {size : ℤ}
    (hsize : toInt32 (nextBreak c buffer.text maxlength.toNat s.count - s.count) = size)
    (hblock : ¬ (0 ≤ size ∧ size < c.malloc (size % 2 ^ 64).toNat)) :
    round c buffer.text maxlength.toNat s = .error (.undefined .writePastEnd) := by
  unfold round
  rw [endptr_eq hwords hmax hs]
  dsimp only
  rw [hsize, pushed, if_neg hblock]

/-- The line of a round that pushes `n` characters. -/
theorem Sized.push (hs : Sized buffer maxlength s) {n : ℕ} (hn : s.count + n ≤ buffer.text.length) :
    (s.dest ++ [(buffer.text.drop s.count).take n]).flatten.length = s.count + n := by
  rw [List.flatten_append, List.length_append, hs.length_eq, List.flatten_singleton,
    List.length_take, List.length_drop]
  omega

end Rounds

section Wrapping

variable {c : Runtime} {buffer : Buffer} {maxlength : UInt64} {s : Progress}
  {lines : List CxxString}

theorem Unbroken.concat {text line : CxxString} (h : Unbroken c text lines)
    (hend : ¬ Marked (nonSpace c) text (lines ++ [line]).flatten.length) :
    Unbroken c text (lines ++ [line]) := by
  intro first last heq i hi hboth
  rcases List.eq_nil_or_concat last with rfl | ⟨rest, x, rfl⟩
  · rw [List.append_nil] at heq
    rw [heq, ← hi] at hend
    exact hend hboth.2
  · rw [List.concat_eq_append, ← List.append_assoc] at heq
    exact h first rest (List.append_inj' heq rfl).1 i hi hboth

/-- The lines pushed so far are lines of the text up to a place where the next one begins. -/
structure Wrapping (c : Runtime) (buffer : Buffer) (maxlength : UInt64) (s : Progress) : Prop where
  sized : Sized buffer maxlength s
  begins : Begins c buffer.text maxlength.toNat s.count
  flatten_eq : s.dest.flatten = buffer.text.take s.count
  length_le : ∀ line ∈ s.dest, line.length ≤ maxlength.toNat
  unbroken : Unbroken c buffer.text s.dest

theorem wrapping_start : Wrapping c buffer maxlength start where
  sized := sized_start
  begins := .first
  flatten_eq := rfl
  length_le := by simp [start]
  unbroken := by
    intro first last heq i hi
    obtain ⟨rfl, -⟩ := List.append_eq_nil_iff.mp heq.symm
    cases hi

/-- A round pushes the line up to the next break, or the last line. -/
theorem Wrapping.round (hwords : ShortWords c buffer.text maxlength.toNat)
    (hmax : 1 ≤ maxlength.toNat) (hblocks : HasBlocks c buffer.text maxlength.toNat)
    (h : Wrapping c buffer maxlength s) :
    Reaches (fun t => Wrapping c buffer maxlength t ∧
        buffer.text.length - t.count < buffer.text.length - s.count)
      (fun r => ∃ lines, r = .ok lines ∧ WellWrapped c buffer.text maxlength.toNat lines)
      (round c buffer.text maxlength.toNat s) := by
  obtain ⟨hint, hblock⟩ := hblocks s.count h.begins
  obtain ⟨hlow, hhigh, hbreak, hmore⟩ := nextBreak_bounds hwords hmax h.sized.count_le
  have hle : nextBreak c buffer.text maxlength.toNat s.count ≤ buffer.text.length := nextBreak_le
  have hbegins := h.begins.next
  revert hint hblock hlow hhigh hbreak hmore hle hbegins
  generalize hq : nextBreak c buffer.text maxlength.toNat s.count = q
  intro hint hblock hlow hhigh hbreak hmore hle hbegins
  have hsize : toInt32 (nextBreak c buffer.text maxlength.toNat s.count - s.count) =
      (q - s.count : ℕ) := by
    rw [hq, toInt32_of_lt (by omega) (by omega)]
    omega
  have hround := round_pushes hwords hmax h.sized hsize (by omega) hblock
  have hsum : s.count + (q - s.count) = q := by omega
  let dest := s.dest ++ [(buffer.text.drop s.count).take (q - s.count)]
  have hflatten : dest.flatten = buffer.text.take q := by
    rw [List.flatten_append, List.flatten_singleton, h.flatten_eq, ← List.take_add, hsum]
  have hlength : ∀ line ∈ dest, line.length ≤ maxlength.toNat := by
    intro line hline
    rcases List.mem_append.mp hline with hold | hnew
    · exact h.length_le line hold
    · obtain rfl := List.mem_singleton.mp hnew
      rw [List.length_take]
      omega
  have hcount : dest.flatten.length = q := by
    rw [h.sized.push (by omega), hsum]
  have hunbroken : Unbroken c buffer.text dest := h.unbroken.concat (by
    change ¬ Marked (nonSpace c) buffer.text dest.flatten.length
    rwa [hcount])
  rw [hround, hq, hsum]
  by_cases hend : q < buffer.text.length
  · rw [if_pos hend]
    obtain ⟨hless, hfar⟩ := hmore hend
    refine .again ⟨⟨⟨hle, hcount, Or.inr (by omega)⟩, hbegins hend, hflatten, hlength,
      hunbroken⟩, ?_⟩
    dsimp only
    omega
  · rw [if_neg hend]
    obtain rfl : q = buffer.text.length := by omega
    rw [List.take_length] at hflatten
    exact .done ⟨dest, rfl, hlength, hflatten, hunbroken⟩

/-- A round that starts too far from the end of a text with such lines pushes less than there is,
and leaves the end as far away. -/
theorem falls_short (hwords : ShortWords c buffer.text maxlength.toNat)
    (hmax : 2 ^ 32 ≤ maxlength.toNat)
    (h : Sized buffer maxlength s ∧ s.count + 2 ^ 31 ≤ buffer.text.length) :
    Reaches (fun t => Sized buffer maxlength t ∧ t.count + 2 ^ 31 ≤ buffer.text.length)
      (fun r => ∀ lines, r = .ok lines → lines.flatten ≠ buffer.text)
      (round c buffer.text maxlength.toNat s) := by
  obtain ⟨hs, hfar⟩ := h
  obtain ⟨hlow, hhigh, -, hmore⟩ := nextBreak_bounds hwords (by omega) hs.count_le
  have hle : nextBreak c buffer.text maxlength.toNat s.count ≤ buffer.text.length := nextBreak_le
  revert hlow hhigh hmore hle
  generalize hq : nextBreak c buffer.text maxlength.toNat s.count = q
  intro hlow hhigh hmore hle
  generalize hsize : toInt32 (nextBreak c buffer.text maxlength.toNat s.count - s.count) = size
  by_cases hblock : 0 ≤ size ∧ size < c.malloc (size % 2 ^ 64).toNat
  · obtain ⟨n, rfl⟩ := Int.eq_ofNat_of_zero_le hblock.1
    have hbounds : (n : ℤ) ≤ q - s.count ∧ (n : ℤ) < 2 ^ 31 := by
      rw [← hsize, hq]
      exact toInt32_bounds (by omega)
    have hrequest : ((n : ℤ) % 2 ^ 64).toNat = n := by omega
    rw [hrequest] at hblock
    rw [round_pushes hwords (by omega) hs hsize (by omega) (by exact_mod_cast hblock.2), hq]
    have hcount := hs.push (n := n) (by omega)
    by_cases hend : q < buffer.text.length
    · rw [if_pos hend]
      obtain ⟨-, hreach⟩ := hmore hend
      refine .again ⟨⟨?_, hcount, Or.inr (by omega)⟩, ?_⟩
      · dsimp only
        omega
      · dsimp only
        omega
    · rw [if_neg hend]
      refine .done ?_
      rintro _ ⟨⟩ heq
      rw [heq] at hcount
      omega
  · rw [round_stops hwords (by omega) hs hsize hblock]
    refine .error ?_
    rintro lines ⟨⟩

/-- A round from which the whole text is pushed has a block for its line. -/
theorem block_of_ends (hwords : ShortWords c buffer.text maxlength.toNat)
    (hmax : 1 ≤ maxlength.toNat) (hs : Sized buffer maxlength s)
    (hends : Ends (round c buffer.text maxlength.toNat) s (.ok lines))
    (hflatten : lines.flatten = buffer.text) :
    nextBreak c buffer.text maxlength.toNat s.count - s.count < 2 ^ 31 ∧
      nextBreak c buffer.text maxlength.toNat s.count - s.count <
        c.malloc (nextBreak c buffer.text maxlength.toNat s.count - s.count) := by
  obtain ⟨hlow, hhigh, -, -⟩ := nextBreak_bounds hwords hmax hs.count_le
  have hle : nextBreak c buffer.text maxlength.toNat s.count ≤ buffer.text.length := nextBreak_le
  have hcount := hs.count_le
  revert hlow hhigh hle
  generalize hq : nextBreak c buffer.text maxlength.toNat s.count = q
  intro hlow hhigh hle
  generalize hsize : toInt32 (nextBreak c buffer.text maxlength.toNat s.count - s.count) = size
  by_cases hblock : 0 ≤ size ∧ size < c.malloc (size % 2 ^ 64).toNat
  · rw [hq] at hsize
    by_cases hint : q - s.count < 2 ^ 31
    · rw [toInt32_of_lt (by omega) (by omega)] at hsize
      have hrequest : (size % 2 ^ 64).toNat = q - s.count := by omega
      rw [hrequest] at hblock
      exact ⟨hint, by omega⟩
    · -- The size has lost its high bits, so some of the text is never pushed.
      have hwrapped : 2 ^ 32 ≤ q - s.count := by
        by_contra hsmall
        rw [toInt32_of_ge (by omega) (by omega)] at hsize
        omega
      have hshort := hends.of_inv (fun t ht => falls_short hwords (by omega) ht)
        ⟨hs, by omega⟩ lines rfl
      exact absurd hflatten hshort
  · have hfault := Ends.of_error (round_stops hwords hmax hs hsize hblock)
    cases hends.unique hfault

/-- Every line of the text that begins within reach is one the loop comes to. -/
theorem visits_begins (hwords : ShortWords c buffer.text maxlength.toNat)
    (hmax : 1 ≤ maxlength.toNat)
    (hends : Ends (round c buffer.text maxlength.toNat) start (.ok lines))
    (hflatten : lines.flatten = buffer.text) {p : ℕ}
    (hp : Begins c buffer.text maxlength.toNat p) :
    ∃ s, Visits (round c buffer.text maxlength.toNat) start s ∧ s.count = p ∧
      Sized buffer maxlength s := by
  induction hp with
  | first => exact ⟨start, .refl, rfl, sized_start⟩
  | @next p hp hmore ih =>
    obtain ⟨s, hvisits, rfl, hs⟩ := ih
    obtain ⟨hint, hblock⟩ :=
      block_of_ends hwords hmax hs ((Ends.visits_iff hvisits).mp hends) hflatten
    obtain ⟨hlow, hhigh, -, hfar⟩ := nextBreak_bounds hwords hmax hs.count_le
    have hsize : toInt32 (nextBreak c buffer.text maxlength.toNat s.count - s.count) =
        (nextBreak c buffer.text maxlength.toNat s.count - s.count : ℕ) := by
      rw [toInt32_of_lt (by omega) (by omega)]
      omega
    have hround := round_pushes hwords hmax hs hsize le_rfl hblock
    rw [if_pos hmore] at hround
    have hlength := hs.push (n := nextBreak c buffer.text maxlength.toNat s.count - s.count)
      (by omega)
    refine ⟨_, hvisits.tail hround, by dsimp only; omega, ⟨?_, hlength, Or.inr ?_⟩⟩
    · dsimp only
      omega
    · have hreach := (hfar hmore).2
      omega

end Wrapping

/-- The loop ends with lines that are the text, `endptr` is never in front of the line, and no word
is broken. -/
def WrapsWell (c : Runtime) (buffer : Buffer) (maxlength : UInt64) : Prop :=
  (∃ rounds lines, wordWrap c buffer.text maxlength.toNat rounds = some (.ok lines) ∧
    WellWrapped c buffer.text maxlength.toNat lines) ∧
  ∀ s stop, Visits (round c buffer.text maxlength.toNat) start s →
    endptr c buffer.text maxlength.toNat s.count = .ok stop → s.count ≤ stop

/-- "a b". -/
def twoWords : Buffer := ⟨[97, 32, 98], by decide, by decide⟩

/-- Blocks that are always one byte larger than asked for. -/
def roomy : Runtime := ⟨isSpace, fun request => request + 1, fun request => Nat.le_succ request⟩

end Win64Server.WordWrap
