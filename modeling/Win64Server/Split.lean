import Win64Server.Cxx
import Win64Server.Library.MaximalRuns
import Win64Server.Library.Rounds

/-!
Splitting a string at delimiters. The loop keeps the beginning of the next token and its end,
where `npos` stands both for a string that has no more tokens and for a token that goes on to the
end of the string. Searches from `npos` find nothing, and a length counted back from `npos` is more
than the string has.
-/
namespace Win64Server.Split

open Library

/-- `std::string::npos`, the largest `size_t`. -/
def npos : ℕ := 2 ^ 64 - 1

/-- A `std::string`, which is never as long as `npos`. -/
structure StdString where
  chars : CxxString
  length_lt : chars.length < npos

/-- The position of the first character of this kind from `pos` on. -/
def findFrom (kind : UInt8 → Bool) (str : CxxString) (pos : ℕ) : ℕ :=
  match (str.drop pos).findIdx? kind with
  | some i => pos + i
  | none => npos

def findFirstOf (str delimiters : CxxString) (pos : ℕ) : ℕ :=
  findFrom (fun c => delimiters.contains c) str pos

def findFirstNotOf (str delimiters : CxxString) (pos : ℕ) : ℕ :=
  findFrom (fun c => !delimiters.contains c) str pos

def substr (str : CxxString) (pos count : ℕ) : Except Fault CxxString :=
  if pos > str.length then .error (.thrown (.outOfRange "invalid string position"))
  else .ok ((str.drop pos).take count)

/-- The difference of two `size_t`s. -/
def minus (a b : ℕ) : ℕ := (a + 2 ^ 64 - b) % 2 ^ 64

structure Progress where
  lastPos : ℕ
  pos : ℕ
  elems : List CxxString

/-- One round of the loop, or what follows it. -/
def round (str delimiters : CxxString) (s : Progress) :
    Except Fault (Round Progress (List CxxString)) :=
  if npos ≠ s.pos ∨ npos ≠ s.lastPos then
    match substr str s.lastPos (minus s.pos s.lastPos) with
    | .error e => .error e
    | .ok token =>
      let lastPos := findFirstNotOf str delimiters s.pos
      .ok (.again ⟨lastPos, findFirstOf str delimiters lastPos, s.elems ++ [token]⟩)
  else
    .ok (.done s.elems)

/-- What the loop begins with. -/
def start (str delimiters : CxxString) (elems : List CxxString) : Progress :=
  let lastPos := findFirstNotOf str delimiters 0
  ⟨lastPos, findFirstOf str delimiters lastPos, elems⟩

/-- The `split` that appends to a given vector. -/
def splitInto (rounds : ℕ) (str delimiters : CxxString) (elems : List CxxString) :
    Option (Except Fault (List CxxString)) :=
  loop (round str delimiters) rounds (start str delimiters elems)

def split (rounds : ℕ) (s delim : CxxString) : Option (Except Fault (List CxxString)) :=
  splitInto rounds s delim []

section Searching

variable {kind : UInt8 → Bool} {str : CxxString} {pos : ℕ}

/-- A search finds the next character of the kind or tells that there is none. -/
theorem findFrom_cases (kind : UInt8 → Bool) (str : CxxString) (pos : ℕ) :
    (findFrom kind str pos = npos ∧ ∀ i, pos ≤ i → ¬ Marked kind str i) ∨
      (pos ≤ findFrom kind str pos ∧ Marked kind str (findFrom kind str pos) ∧
        ∀ i, pos ≤ i → i < findFrom kind str pos → ¬ Marked kind str i) := by
  unfold findFrom
  cases hfind : (str.drop pos).findIdx? kind with
  | none =>
    refine Or.inl ⟨rfl, ?_⟩
    rintro i hi ⟨a, ha, hkind⟩
    have hmem : a ∈ str.drop pos := by
      refine List.mem_of_getElem? (i := i - pos) ?_
      rw [List.getElem?_drop, Nat.add_sub_cancel' hi]
      exact ha
    have hnot := List.findIdx?_eq_none_iff.mp hfind a hmem
    rw [hnot] at hkind
    cases hkind
  | some j =>
    obtain ⟨hj, hkind, hbefore⟩ := List.findIdx?_eq_some_iff_getElem.mp hfind
    have hlength := hj
    rw [List.length_drop] at hlength
    dsimp only
    refine Or.inr ⟨Nat.le_add_right _ _, ?_, fun i hlow hhigh hmark => ?_⟩
    · rw [marked_iff (by omega)]
      rwa [List.getElem_drop] at hkind
    · have hnot := hbefore (i - pos) (by omega)
      rw [marked_iff hmark.lt_length] at hmark
      simp only [List.getElem_drop, Nat.add_sub_cancel' hlow] at hnot
      exact hnot hmark

/-- A search from the end of the string. -/
theorem findFrom_npos (h : str.length < npos) : findFrom kind str npos = npos := by
  rw [findFrom, List.drop_eq_nil_of_le h.le]
  rfl

end Searching

/-- The characters of the tokens. -/
def kept (delimiters : CxxString) (c : UInt8) : Bool := !delimiters.contains c

section Loop

variable {str delimiters : CxxString} {s : Progress} {i : ℕ}

theorem not_marked_kept (h : Marked (fun c => delimiters.contains c) str i) :
    ¬ Marked (kept delimiters) str i := by
  rintro ⟨b, hb, hkept⟩
  obtain ⟨a, ha, hdelimiter⟩ := h
  obtain rfl := Option.some.inj (ha.symm.trans hb)
  dsimp only at hdelimiter
  rw [kept, hdelimiter] at hkept
  cases hkept

theorem marked_kept (hlength : i < str.length)
    (h : ¬ Marked (fun c => delimiters.contains c) str i) : Marked (kept delimiters) str i := by
  rw [marked_iff hlength] at h ⊢
  rw [Bool.not_eq_true] at h
  rw [kept, h]
  rfl

/-- The end of the token that begins at `lastPos`. -/
def Progress.stop (s : Progress) (str : CxxString) : ℕ :=
  if s.pos = npos then str.length else s.pos

/-- The tokens found so far are those that begin before `lastPos`, and there begins the next one
if there is one. -/
structure Scanned (str delimiters : CxxString) (s : Progress) (runs : List (ℕ × ℕ)) : Prop where
  elems_eq : s.elems = runs.map (stretch str)
  mem_iff : ∀ start stop,
    (start, stop) ∈ runs ↔ MaximalRun (kept delimiters) str start stop ∧ start < s.lastPos
  ordered : runs.Pairwise fun r q => r.2 < q.1
  pos_eq : s.pos = findFirstOf str delimiters s.lastPos
  begins : s.lastPos = npos ∨ Marked (kept delimiters) str s.lastPos ∧
    ∀ i, i + 1 = s.lastPos → ¬ Marked (kept delimiters) str i

variable {runs : List (ℕ × ℕ)}

theorem Scanned.maximalRun (h : Scanned str delimiters s runs) (hlength : str.length < npos)
    (hmore : s.lastPos ≠ npos) :
    MaximalRun (kept delimiters) str s.lastPos (s.stop str) := by
  obtain ⟨hmarked, hbefore⟩ := h.begins.resolve_left hmore
  have hinside := hmarked.lt_length
  unfold Progress.stop
  rw [h.pos_eq, findFirstOf]
  rcases findFrom_cases (fun c => delimiters.contains c) str s.lastPos with
    ⟨hnone, hrest⟩ | ⟨hlow, hfound, hrest⟩
  · rw [if_pos hnone]
    refine ⟨hinside, fun i hi hstop => marked_kept hstop (hrest i hi), hbefore, fun hend => ?_⟩
    exact absurd hend.lt_length (lt_irrefl _)
  · have hend := hfound.lt_length
    rw [if_neg (by omega)]
    have hne : s.lastPos ≠ findFrom (fun c => delimiters.contains c) str s.lastPos :=
      fun heq => not_marked_kept hfound (heq ▸ hmarked)
    exact ⟨by omega, fun i hi hstop => marked_kept (by omega) (hrest i hi hstop), hbefore,
      not_marked_kept hfound⟩

/-- The count that `substr` gets reaches to the end of the token. -/
theorem Scanned.substr_eq (h : Scanned str delimiters s runs) (hlength : str.length < npos)
    (hmore : s.lastPos ≠ npos) :
    substr str s.lastPos (minus s.pos s.lastPos) = .ok (stretch str (s.lastPos, s.stop str)) := by
  have hrun := h.maximalRun hlength hmore
  have hlt := hrun.lt
  have hle := hrun.stop_le
  rw [substr, if_neg (by omega), stretch]
  unfold npos at hlength
  unfold Progress.stop at hlt hle ⊢
  unfold minus
  split at hlt
  · rename_i hnpos
    rw [if_pos hnpos, hnpos, npos]
    rw [List.take_of_length_le (by rw [List.length_drop]; omega),
      List.take_of_length_le (by rw [List.length_drop])]
  · rename_i hfound
    rw [if_neg hfound] at hle ⊢
    congr 2
    omega

/-- The next round begins at the next token behind the end of this one. -/
theorem Scanned.next (h : Scanned str delimiters s runs) (hlength : str.length < npos)
    (hmore : s.lastPos ≠ npos) :
    Scanned str delimiters
        ⟨findFirstNotOf str delimiters s.pos,
          findFirstOf str delimiters (findFirstNotOf str delimiters s.pos),
          s.elems ++ [stretch str (s.lastPos, s.stop str)]⟩
        (runs ++ [(s.lastPos, s.stop str)]) ∧
      s.lastPos < findFirstNotOf str delimiters s.pos := by
  have hrun := h.maximalRun hlength hmore
  have hlt := hrun.lt
  have hle := hrun.stop_le
  let lastPos := findFirstNotOf str delimiters s.pos
  -- Between the end of the token and the next beginning there are delimiters only.
  have hnext : s.stop str < lastPos ∧
      (∀ i, s.stop str ≤ i → i < lastPos → ¬ Marked (kept delimiters) str i) ∧
      (lastPos = npos ∨ Marked (kept delimiters) str lastPos) := by
    by_cases hpos : s.pos = npos
    · have hend : lastPos = npos := by
        change findFrom _ str s.pos = npos
        rw [hpos, findFrom_npos hlength]
      have hstop : s.stop str = str.length := if_pos hpos
      refine ⟨by omega, fun i hi _ hmark => ?_, Or.inl hend⟩
      have hinside := hmark.lt_length
      omega
    · have hstop : s.stop str = s.pos := if_neg hpos
      rw [hstop] at hle ⊢
      rcases findFrom_cases (kept delimiters) str s.pos with
        ⟨hnone, hrest⟩ | ⟨hlow, hfound, hrest⟩
      · have hend : lastPos = npos := hnone
        exact ⟨by omega, fun i hi _ => hrest i hi, Or.inl hend⟩
      · have hne : s.pos ≠ lastPos := fun heq => hrun.after (by
          rw [hstop, heq]
          exact hfound)
        exact ⟨lt_of_le_of_ne hlow hne, hrest, Or.inr hfound⟩
  obtain ⟨hfar, hgap, hbegins⟩ := hnext
  refine ⟨⟨?_, fun start stop => ?_, ?_, rfl, ?_⟩, hlt.trans hfar⟩
  · rw [List.map_append, h.elems_eq]
    rfl
  · rw [List.mem_append, List.mem_singleton, h.mem_iff]
    dsimp only
    constructor
    · rintro (⟨hmax, hbefore⟩ | hself)
      · exact ⟨hmax, hbefore.trans (hlt.trans hfar)⟩
      · cases hself
        exact ⟨hrun, hlt.trans hfar⟩
    · rintro ⟨hmax, hbefore⟩
      rcases Nat.lt_trichotomy start s.lastPos with hless | rfl | hgreater
      · exact Or.inl ⟨hmax, hless⟩
      · rw [hmax.stop_unique hrun]
        exact Or.inr rfl
      · have hbehind := hrun.stop_lt hmax hgreater
        exact absurd (hmax.all start le_rfl hmax.lt) (hgap start hbehind.le hbefore)
  · refine List.pairwise_append.mpr ⟨h.ordered, List.pairwise_singleton _ _, ?_⟩
    rintro r hr q hq
    obtain rfl := List.mem_singleton.mp hq
    obtain ⟨hmax, hbefore⟩ := (h.mem_iff r.1 r.2).mp hr
    exact hmax.stop_lt hrun hbefore
  · refine hbegins.imp_right fun hmarked => ⟨hmarked, fun i hi => ?_⟩
    dsimp only at hi
    exact hgap i (by omega) (by omega)

theorem scanned_start :
    Scanned str delimiters (start str delimiters []) [] := by
  refine ⟨rfl, fun first stop => ?_, .nil, rfl, ?_⟩
  · simp only [List.not_mem_nil, false_iff, not_and]
    intro hmax hbefore
    have hmarked := hmax.all first le_rfl hmax.lt
    rcases findFrom_cases (kept delimiters) str 0 with ⟨-, hrest⟩ | ⟨-, -, hrest⟩
    · exact hrest first (Nat.zero_le _) hmarked
    · exact hrest first (Nat.zero_le _) hbefore hmarked
  · rcases findFrom_cases (kept delimiters) str 0 with ⟨hnone, -⟩ | ⟨-, hfound, hrest⟩
    · exact Or.inl hnone
    · refine Or.inr ⟨hfound, fun i hi => hrest i (Nat.zero_le _) ?_⟩
      have heq : i + 1 = findFrom (kept delimiters) str 0 := hi
      omega

/-- Without a beginning there is no end either, and all tokens are found. -/
theorem Scanned.runsOf (h : Scanned str delimiters s runs) (hlength : str.length < npos)
    (hend : s.lastPos = npos) : s.pos = npos ∧ RunsOf (kept delimiters) str runs := by
  refine ⟨?_, fun start stop => ?_, h.ordered⟩
  · rw [h.pos_eq, hend]
    exact findFrom_npos hlength
  · rw [h.mem_iff, hend]
    refine and_iff_left_of_imp fun hmax => ?_
    have hlt := hmax.lt
    have hle := hmax.stop_le
    omega

/-- A round adds a token and goes on behind it, or ends with all of them. -/
theorem Scanned.round (h : ∃ runs, Scanned str delimiters s runs) (hlength : str.length < npos) :
    Reaches (fun t => (∃ runs, Scanned str delimiters t runs) ∧
        str.length - t.lastPos < str.length - s.lastPos)
      (fun r => ∃ runs, r = .ok (runs.map (stretch str)) ∧ RunsOf (kept delimiters) str runs)
      (round str delimiters s) := by
  obtain ⟨runs, hs⟩ := h
  unfold Split.round
  by_cases hmore : s.lastPos = npos
  · obtain ⟨hpos, hall⟩ := hs.runsOf hlength hmore
    rw [if_neg (by rw [hpos, hmore]; simp)]
    exact .done ⟨runs, by rw [hs.elems_eq], hall⟩
  · rw [if_pos (Or.inr (Ne.symm hmore)), hs.substr_eq hlength hmore]
    obtain ⟨hnext, hless⟩ := hs.next hlength hmore
    have hinside := (hs.begins.resolve_left hmore).1.lt_length
    refine .again ⟨⟨_, hnext⟩, ?_⟩
    dsimp only
    omega

end Loop

/-- The tokens are the maximal runs of characters that are no delimiters. -/
theorem split_spec (s : StdString) (delim : CxxString) :
    ∃ tokens, (∃ rounds, split rounds s.chars delim = some (.ok tokens)) ∧
      ∃ runs : List (ℕ × ℕ), tokens = runs.map (stretch s.chars) ∧
        (runs.Pairwise fun r q => r.2 < q.1) ∧
        (∀ start stop, (start, stop) ∈ runs ↔
          MaximalRun (fun c => !delim.contains c) s.chars start stop) ∧
        (∀ token ∈ tokens, token ≠ [] ∧ ∀ c ∈ token, c ∉ delim) ∧
        tokens.flatten = s.chars.filter (fun c => !delim.contains c) ∧
        ∀ i (h : i + 1 < s.chars.length),
          (∃ run ∈ runs, run.1 ≤ i ∧ i + 1 < run.2) ↔
            s.chars[i] ∉ delim ∧ s.chars[i + 1] ∉ delim := by
  obtain ⟨r, hends, runs, rfl, hruns⟩ :=
    ends_of_variant (fun t : Progress => s.chars.length - t.lastPos)
      (fun t ht => Scanned.round ht s.length_lt) ⟨[], scanned_start⟩
  refine ⟨_, hends, runs, rfl, hruns.ordered, hruns.mem_iff, ?_, hruns.flatten_eq_filter, ?_⟩
  · intro token htoken
    obtain ⟨run, hrun, rfl⟩ := List.mem_map.mp htoken
    have hmax := (hruns.mem_iff run.1 run.2).mp hrun
    refine ⟨hmax.stretch_ne_nil, fun c hc => ?_⟩
    have hkept := hmax.stretch_marked hc
    simpa [kept] using hkept
  · intro i hi
    rw [hruns.adjacent_iff, marked_iff (by omega), marked_iff hi]
    simp [kept]

end Win64Server.Split
