import Win64Server.BasicStream

/-!
Writing bits. `write_bits` replaces bits of one byte after the other; each replacement is described
by the bit position it begins at and the bits it stores, and a sequence of writes leaves the
concatenation of its bits in the buffer. The bit position and the sum that rounds it up are `int`s.
-/
namespace Win64Server.BitAccess

open Outcome BasicStream

/-- A bit of a block, counted from the most significant bit of its first byte. -/
def bit (data : List UInt8) (k : ℕ) : Bool := (data.getD (k / 8) 0).toBitVec.getLsbD (7 - k % 8)

/-- The bits that `write_bits` is given, most significant first. -/
abbrev Field := ℕ × BitVec 32

def Field.bits (field : Field) : List Bool :=
  (List.range field.1).map fun j => field.2.getLsbD (field.1 - 1 - j)

/-- The bits from `start` to `stop` are new, the other bits are the old ones. -/
def Overwritten (start stop : ℕ) (new : ℕ → Bool) (data data' : List UInt8) : Prop :=
  ∀ k, bit data' k = if start ≤ k ∧ k < stop then new k else bit data k

theorem Overwritten.trans {start middle stop : ℕ} {new : ℕ → Bool} {data data' data'' : List UInt8}
    (h : Overwritten start middle new data data') (h' : Overwritten middle stop new data' data'')
    (hstart : start ≤ middle) (hstop : middle ≤ stop) :
    Overwritten start stop new data data'' := by
  intro k
  rw [h' k, h k]
  grind

theorem Overwritten.congr {start stop : ℕ} {new new' : ℕ → Bool} {data data' : List UInt8}
    (h : Overwritten start stop new data data') (heq : ∀ k, start ≤ k → k < stop → new k = new' k) :
    Overwritten start stop new' data data' := by
  intro k
  rw [h k]
  by_cases hk : start ≤ k ∧ k < stop
  · rw [if_pos hk, if_pos hk, heq k hk.1 hk.2]
  · rw [if_neg hk, if_neg hk]

section Bytes

theorem bit_set {data : List UInt8} {p : ℕ} (hp : p < data.length) (b : UInt8) (k : ℕ) :
    bit (data.set p b) k = if k / 8 = p then b.toBitVec.getLsbD (7 - k % 8) else bit data k := by
  unfold bit
  rw [List.getD_eq_getElem?_getD, List.getD_eq_getElem?_getD, List.getElem?_set]
  by_cases h : p = k / 8
  · rw [if_pos h, if_pos h.symm, if_pos hp, Option.getD_some]
  · rw [if_neg h, if_neg (Ne.symm h)]

theorem getLsbD_bitMaskOut : ∀ n ≤ 8, ∀ i < 32, (bitMaskOut n).getLsbD i = decide (i < n) := by
  decide

/-- Bits under the mask are replaced. -/
theorem getLsbD_apply {p : Patch} (byte : UInt8) {i : ℕ} (hi : i < 8)
    (hmask : p.bits.getLsbD i = true → p.mask.getLsbD i = true) :
    (p.apply byte).toBitVec.getLsbD i =
      if p.mask.getLsbD i then p.bits.getLsbD i else byte.toBitVec.getLsbD i := by
  have hi' : i < 32 := by omega
  simp only [Patch.apply, BitVec.getLsbD_setWidth, BitVec.getLsbD_or, BitVec.getLsbD_and,
    BitVec.getLsbD_signExtend, BitVec.getLsbD_not, hi, hi', decide_true, Bool.true_and, if_true]
  cases hm : p.mask.getLsbD i with
  | true => simp
  | false =>
    have hb : p.bits.getLsbD i = false := by
      by_contra hset
      rw [hmask (by simpa using hset)] at hm
      cases hm
    simp [hb]

/-- A patch whose mask covers the bits from `low` to `high` of a byte, counted from the least
significant one, and whose bits are those of the value from bit `shift` on. -/
structure Covers (value : BitVec 32) (p : Patch) (low high shift : ℕ) : Prop where
  mask : ∀ i < 32, p.mask.getLsbD i = decide (low ≤ i ∧ i < high)
  bits : ∀ i < 32, p.bits.getLsbD i =
    (decide (low ≤ i ∧ i < high) && value.getLsbD (shift + (i - low)))

theorem Covers.getLsbD_apply {value : BitVec 32} {p : Patch} {low high shift : ℕ}
    (h : Covers value p low high shift) (byte : UInt8) {i : ℕ} (hi : i < 8) :
    (p.apply byte).toBitVec.getLsbD i =
      if low ≤ i ∧ i < high then value.getLsbD (shift + (i - low))
      else byte.toBitVec.getLsbD i := by
  have hmask := h.mask i (by omega)
  have hbits := h.bits i (by omega)
  rw [BitAccess.getLsbD_apply byte hi (by rw [hmask, hbits]; simp +contextual), hmask, hbits]
  by_cases hc : low ≤ i ∧ i < high
  · simp [hc]
  · rw [if_neg hc, decide_eq_false hc]
    rfl

/-- The rest of a byte is filled with the upper bits of the value. -/
theorem covers_full (value : BitVec 32) (bytePos : ℤ) {bitOffset numBits : ℕ}
    (hoffset : bitOffset ≤ 8) (hle : bitOffset ≤ numBits) (hbits : numBits ≤ 32) :
    Covers value ⟨bytePos, bitMaskOut bitOffset,
      value.sshiftRight (numBits - bitOffset) &&& bitMaskOut bitOffset⟩ 0 bitOffset
      (numBits - bitOffset) := by
  constructor
  · intro i hi
    simp [getLsbD_bitMaskOut bitOffset hoffset i hi]
  · intro i hi
    simp only [BitVec.getLsbD_and, BitVec.getLsbD_sshiftRight,
      getLsbD_bitMaskOut bitOffset hoffset i hi]
    by_cases h : i < bitOffset
    · have hshift : numBits - bitOffset + i < 32 := by omega
      simp [h, hi, hshift]
    · simp [h]

/-- The last bits of the value leave room at the end of the byte. -/
theorem covers_last (value : BitVec 32) (bytePos : ℤ) {bitOffset numBits : ℕ}
    (hoffset : bitOffset ≤ 8) (hle : numBits ≤ bitOffset) :
    Covers value ⟨bytePos, bitMaskOut numBits <<< (bitOffset - numBits),
      (value &&& bitMaskOut numBits) <<< (bitOffset - numBits)⟩ (bitOffset - numBits) bitOffset
      0 := by
  constructor
  · intro i hi
    rw [BitVec.getLsbD_shiftLeft, getLsbD_bitMaskOut numBits (by omega) _ (by omega)]
    grind
  · intro i hi
    rw [BitVec.getLsbD_shiftLeft, BitVec.getLsbD_and,
      getLsbD_bitMaskOut numBits (by omega) _ (by omega)]
    grind

end Bytes

section Patches

/-- What `write_bits` leaves alone. -/
structure Rewritten (s t : BasicStream) : Prop where
  index : t.index = s.index
  dataSize : t.dataSize = s.dataSize
  length : t.data.length = s.data.length

theorem Rewritten.trans {s t u : BasicStream} (h : Rewritten s t) (h' : Rewritten t u) :
    Rewritten s u :=
  ⟨h'.index.trans h.index, h'.dataSize.trans h.dataSize, h'.length.trans h.length⟩

variable {value : BitVec 32}

/-- One byte: the bits under the mask end where the byte has `low` more bits. -/
theorem storePatch_run {p : Patch} {low high shift b : ℕ} (stop : ℕ)
    (hp : Covers value p low high shift) (hpos : p.bytePos = b) (hhigh : high ≤ 8)
    (hlow : low ≤ high)
    (hstop : stop = 8 * b + (8 - low) + shift) {s : BasicStream} (hb : b < s.dataSize) :
    ∃ t, (storePatch p).run s = .ok () t ∧ t.bitPosition = s.bitPosition ∧ Rewritten s t ∧
      Overwritten (8 * b + (8 - high)) (8 * b + (8 - low)) (fun k => value.getLsbD (stop - 1 - k))
        s.data t.data := by
  have hlength := s.size_le
  refine ⟨{ s with
      data := s.data.set b (p.apply (s.data.getD b 0))
      size_le := by simpa using s.size_le }, ?_, rfl, ⟨rfl, rfl, List.length_set⟩, ?_⟩
  · have hnat : p.bytePos.toNat = b := by rw [hpos, Int.toNat_natCast]
    have hnonneg : 0 ≤ p.bytePos := by omega
    simp only [storePatch, store, EStateM.run_bind, EStateM.run_get, if_pos hnonneg, hnat,
      if_pos hb]
    rfl
  · intro k
    rw [bit_set (by omega)]
    by_cases hk : k / 8 = b
    · have hold : bit s.data k = (s.data.getD b 0).toBitVec.getLsbD (7 - k % 8) := by
        rw [bit, hk]
      rw [if_pos hk, hp.getLsbD_apply _ (by omega), ← hold]
      by_cases hin : low ≤ 7 - k % 8 ∧ 7 - k % 8 < high
      · rw [if_pos hin, if_pos (by omega)]
        congr 1
        omega
      · rw [if_neg hin, if_neg (by omega)]
    · rw [if_neg hk, if_neg (by omega)]

/-- One write: the induction is on the bytes, each of which takes the upper bits of what is left. -/
theorem patches_run (value : BitVec 32) (b bitOffset : ℕ) {numBits : ℕ} {s : BasicStream}
    (hpos : 0 < bitOffset) (hoffset : bitOffset ≤ 8) (hbits : numBits ≤ 32)
    (hroom : 8 * b + (8 - bitOffset) + numBits ≤ 8 * s.dataSize) (hone : 0 < numBits) :
    ∃ t, ((patches value b bitOffset numBits).forM storePatch).run s = .ok () t ∧
      t.bitPosition = s.bitPosition ∧ Rewritten s t ∧
      Overwritten (8 * b + (8 - bitOffset)) (8 * b + (8 - bitOffset) + numBits)
        (fun k => value.getLsbD (8 * b + (8 - bitOffset) + numBits - 1 - k)) s.data t.data := by
  induction numBits using Nat.strong_induction_on generalizing b bitOffset s with
  | _ numBits ih =>
    have hb : b < s.dataSize := by omega
    rw [patches]
    by_cases hmore : numBits > bitOffset
    · rw [if_pos ⟨hmore, hpos⟩]
      obtain ⟨u, hrun, hposition, hsame, hover⟩ := storePatch_run
        (8 * b + (8 - bitOffset) + numBits) (covers_full value b hoffset (by omega) hbits) rfl
        hoffset (Nat.zero_le _) (by omega) hb
      have hbyte : 8 * (b + 1) + (8 - 8) = 8 * b + (8 - 0) := by omega
      have hend : 8 * b + (8 - 0) + (numBits - bitOffset) = 8 * b + (8 - bitOffset) + numBits := by
        omega
      obtain ⟨t, hrest, hposition', hsame', hover'⟩ := ih (numBits - bitOffset) (by omega)
        (b + 1) 8 (s := u) (by omega) le_rfl (by omega)
        (by rw [hsame.dataSize, hbyte, hend]; exact hroom) (by omega)
      rw [hbyte, hend] at hover'
      refine ⟨t, ?_, hposition'.trans hposition, hsame.trans hsame',
        hover.trans hover' (by omega) (by omega)⟩
      rw [List.forM_eq_forM, List.forM_cons, run_bind_of_ok hrun]
      exact hrest
    · rw [if_neg (fun h => hmore h.1)]
      obtain ⟨p, hp, hcovers, hpat⟩ : ∃ p : Patch, p.bytePos = b ∧
          Covers value p (bitOffset - numBits) bitOffset 0 ∧
          (if numBits = bitOffset then
            [(⟨b, bitMaskOut bitOffset, value &&& bitMaskOut bitOffset⟩ : Patch)]
          else
            [⟨b, bitMaskOut numBits <<< (bitOffset - numBits),
              (value &&& bitMaskOut numBits) <<< (bitOffset - numBits)⟩]) = [p] := by
        have hlast := covers_last value b hoffset (Nat.le_of_not_lt hmore)
        by_cases heq : numBits = bitOffset
        · subst heq
          exact ⟨_, rfl, hlast, by simp⟩
        · exact ⟨_, rfl, hlast, if_neg heq⟩
      have hend : 8 * b + (8 - bitOffset) + numBits = 8 * b + (8 - (bitOffset - numBits)) := by
        omega
      obtain ⟨t, hrun, hposition, hsame, hover⟩ := storePatch_run
        (8 * b + (8 - bitOffset) + numBits) hcovers hp hoffset (Nat.sub_le _ _) (by omega) hb
      rw [← hend] at hover
      refine ⟨t, ?_, hposition, hsame, hover⟩
      rw [hpat, List.forM_eq_forM, List.forM_cons, run_bind_of_ok hrun]
      rfl

end Patches

section Sections

/-- The bits a list of fields stands for. -/
abbrev allBits (fields : List Field) : List Bool := fields.flatMap Field.bits

theorem Field.length_bits (field : Field) : field.bits.length = field.1 := by
  simp [Field.bits]

theorem length_allBits (field : Field) (fields : List Field) :
    (allBits (field :: fields)).length = field.1 + (allBits fields).length := by
  rw [allBits, List.flatMap_cons, List.length_append, field.length_bits]

/-- The bits of the first field. -/
theorem getD_allBits_first (field : Field) (fields : List Field) {j : ℕ} (hj : j < field.1) :
    (allBits (field :: fields)).getD j false = field.2.getLsbD (field.1 - 1 - j) := by
  rw [allBits, List.flatMap_cons, List.getD_eq_getElem?_getD,
    List.getElem?_append_left (by rwa [field.length_bits])]
  simp [Field.bits, hj]

/-- The bits behind it. -/
theorem getD_allBits_rest (field : Field) (fields : List Field) {j : ℕ} (hj : field.1 ≤ j) :
    (allBits (field :: fields)).getD j false = (allBits fields).getD (j - field.1) false := by
  rw [allBits, List.flatMap_cons, List.getD_eq_getElem?_getD, List.getD_eq_getElem?_getD,
    List.getElem?_append_right (by rwa [field.length_bits]), field.length_bits]

/-- One call of `write_bits` at a position that is an `int`. -/
theorem writeBits_run (field : Field) {s : BasicStream} {q : ℕ} (hq : s.bitPosition = q)
    (hone : 1 ≤ field.1) (hbits : field.1 ≤ 32) (hroom : q + field.1 ≤ 8 * s.dataSize)
    (hint : q + field.1 < 2 ^ 31) :
    ∃ t, (writeBits field.1 field.2).run s = .ok () t ∧ t.bitPosition = (q + field.1 : ℕ) ∧
      Rewritten s t ∧
      Overwritten q (q + field.1) (fun k => field.2.getLsbD (q + field.1 - 1 - k))
        s.data t.data := by
  have hbyte : (q : ℤ) / 8 = (q / 8 : ℕ) := by omega
  have hoffset : 8 - ((q : ℤ) % 8).toNat = 8 - q % 8 := by omega
  have hpos : 8 * (q / 8) + (8 - (8 - q % 8)) = q := by omega
  have hnext : toInt32 (q + field.1) = (q + field.1 : ℕ) := by
    rw [Nat.cast_add, toInt32_of_lt (by omega) (by omega)]
  obtain ⟨t, hrun, hposition, hsame, hover⟩ := patches_run field.2 (q / 8) (8 - q % 8)
    (s := { s with bitPosition := (q + field.1 : ℕ) })
    (by omega) (by omega) hbits (by rw [hpos]; exact hroom) hone
  rw [hpos] at hover
  refine ⟨t, ?_, hposition, ⟨hsame.index, hsame.dataSize, hsame.length⟩, hover⟩
  simp only [writeBits, EStateM.run_bind, EStateM.run_get, hq, hbyte, hoffset, hnext]
  exact hrun

/-- The fields are written one after the other. -/
theorem forM_writeBits_run (fields : List Field) {s : BasicStream} {q : ℕ} (hq : s.bitPosition = q)
    (hfields : ∀ field ∈ fields, 1 ≤ field.1 ∧ field.1 ≤ 32)
    (hroom : q + (allBits fields).length ≤ 8 * s.dataSize)
    (hint : q + (allBits fields).length < 2 ^ 31) :
    ∃ t, (fields.forM fun field => writeBits field.1 field.2).run s = .ok () t ∧
      t.bitPosition = (q + (allBits fields).length : ℕ) ∧ Rewritten s t ∧
      Overwritten q (q + (allBits fields).length) (fun k => (allBits fields).getD (k - q) false)
        s.data t.data := by
  induction fields generalizing s q with
  | nil =>
    refine ⟨s, rfl, by simpa using hq, ⟨rfl, rfl, rfl⟩, fun k => ?_⟩
    rw [if_neg]
    simp
  | cons field fields ih =>
    have hlength := length_allBits field fields
    rw [hlength] at hroom hint
    obtain ⟨hone, hbits⟩ := hfields field List.mem_cons_self
    obtain ⟨u, hrun, hposition, hsame, hover⟩ :=
      writeBits_run field hq hone hbits (by omega) (by omega)
    obtain ⟨t, hrest, hposition', hsame', hover'⟩ := ih hposition
      (fun f hf => hfields f (List.mem_cons_of_mem _ hf)) (by rw [hsame.dataSize]; omega) (by omega)
    have hend : q + field.1 + (allBits fields).length = q + (allBits (field :: fields)).length := by
      omega
    rw [hend] at hposition' hover'
    have hfirst : ∀ k, q ≤ k → k < q + field.1 → field.2.getLsbD (q + field.1 - 1 - k) =
        (allBits (field :: fields)).getD (k - q) false := by
      intro k hk hk'
      rw [getD_allBits_first field fields (by omega)]
      congr 1
      omega
    have hlast : ∀ k, q + field.1 ≤ k → k < q + (allBits (field :: fields)).length →
        (allBits fields).getD (k - (q + field.1)) false =
          (allBits (field :: fields)).getD (k - q) false := by
      intro k hk hk'
      rw [getD_allBits_rest field fields (by omega)]
      congr 1
      omega
    refine ⟨t, ?_, hposition', hsame.trans hsame',
      (hover.congr hfirst).trans (hover'.congr hlast) (by omega) (by omega)⟩
    rw [List.forM_eq_forM, List.forM_cons, run_bind_of_ok hrun]
    exact hrest

/-- From `init_bit_access` to `finish_bit_access`. -/
def writeSection (fields : List Field) : StreamM Unit := do
  initBitAccess
  fields.forM fun field => writeBits field.1 field.2
  finishBitAccess

/-- The fields stand in the buffer one behind the other, nothing else has changed, and the stream
goes on at the next byte. -/
structure Concatenated (s : BasicStream) (fields : List Field) (t : BasicStream) : Prop where
  bits : (List.range (allBits fields).length).map (fun j => bit t.data (8 * s.index + j)) =
    allBits fields
  others : ∀ k, k < 8 * s.index ∨ 8 * s.index + (allBits fields).length ≤ k →
    bit t.data k = bit s.data k
  length : t.data.length = s.data.length
  index : t.index = (8 * s.index + (allBits fields).length + 7) / 8

theorem writeSection_run (fields : List Field) {s : BasicStream}
    (hfields : ∀ field ∈ fields, 1 ≤ field.1 ∧ field.1 ≤ 32)
    (hroom : 8 * s.index + (allBits fields).length ≤ 8 * s.dataSize)
    (hint : 8 * s.index + (allBits fields).length < 2 ^ 31) :
    ∃ t, (writeSection fields).run s = .ok () t ∧
      Overwritten (8 * s.index) (8 * s.index + (allBits fields).length)
        (fun k => (allBits fields).getD (k - 8 * s.index) false) s.data t.data ∧
      t.data.length = s.data.length ∧
      t.index =
        ((toInt32 ((8 * s.index + (allBits fields).length : ℕ) + 7)).tdiv 8 % 2 ^ 64).toNat := by
  have hbegin : toInt32 (s.index * 8) = (8 * s.index : ℕ) := by
    rw [toInt32_of_lt (by omega) (by omega)]
    omega
  obtain ⟨t, hrun, hposition, hsame, hover⟩ := forM_writeBits_run fields
    (s := { s with bitPosition := (8 * s.index : ℕ) }) rfl hfields hroom hint
  refine ⟨{ t with
    index := ((toInt32 (t.bitPosition + 7)).tdiv 8 % 2 ^ 64).toNat }, ?_, hover, hsame.length, ?_⟩
  · have hinit : initBitAccess.run s = .ok () { s with bitPosition := (8 * s.index : ℕ) } := by
      rw [← hbegin]
      rfl
    rw [writeSection, run_bind_of_ok hinit, run_bind_of_ok hrun]
    rfl
  · rw [hposition]

/-- Rounding up adds seven first, in an `int`. -/
theorem roundUp_iff {q : ℕ} (hq : q < 2 ^ 31) :
    ((toInt32 (q + 7)).tdiv 8 % 2 ^ 64).toNat = (q + 7) / 8 ↔ q + 7 < 2 ^ 31 := by
  constructor
  · intro h
    by_contra hlarge
    have hwrap : toInt32 (q + 7) = (q : ℤ) + 7 - 2 ^ 32 :=
      toInt32_of_ge (by omega) (by omega)
    rw [hwrap] at h
    have hneg : ((q : ℤ) + 7 - 2 ^ 32).tdiv 8 = -((2 ^ 32 - (q + 7)) / 8 : ℤ) := by
      rw [show (q : ℤ) + 7 - 2 ^ 32 = -(2 ^ 32 - (q + 7)) by ring, Int.neg_tdiv,
        Int.tdiv_eq_ediv_of_nonneg (by omega)]
    rw [hneg] at h
    omega
  · intro h
    rw [toInt32_of_lt (by omega) (by omega), Int.tdiv_eq_ediv_of_nonneg (by omega)]
    omega

end Sections

/-- Within the range of the position the fields always arrive; the index is right unless the
position has come within seven of the end of that range. -/
theorem concatenated_iff (fields : List Field) (s : BasicStream)
    (hfields : ∀ field ∈ fields, 1 ≤ field.1 ∧ field.1 ≤ 32)
    (hroom : 8 * s.index + (allBits fields).length ≤ 8 * s.dataSize)
    (hint : 8 * s.index + (allBits fields).length < 2 ^ 31) :
    (∃ t, (writeSection fields).run s = .ok () t ∧ Concatenated s fields t) ↔
      8 * s.index + (allBits fields).length + 7 < 2 ^ 31 := by
  obtain ⟨t, hrun, hover, hlength, hindex⟩ := writeSection_run fields hfields hroom hint
  rw [← roundUp_iff hint, ← hindex]
  constructor
  · rintro ⟨u, hrun', hu⟩
    rw [hrun] at hrun'
    cases hrun'
    exact hu.index
  · intro h
    refine ⟨t, hrun, ⟨?_, fun k hk => ?_, hlength, h⟩⟩
    · refine List.ext_getElem (by simp) fun j hj hj' => ?_
      rw [List.getElem_map, List.getElem_range, hover, if_pos (by omega)]
      dsimp only
      rw [Nat.add_sub_cancel_left,
        List.getD_eq_getElem?_getD, List.getElem?_eq_getElem hj', Option.getD_some]
    · rw [hover k, if_neg (by omega)]

/-- Three bits and a whole `int`, from the second byte on. -/
theorem concatenated_second : ∃ t, (writeSection [(3, 5#32), (32, 0xfffffff0#32)]).run
      { preallocated (List.replicate 8 0xa5) with index := 1 } = .ok () t ∧
    Concatenated { preallocated (List.replicate 8 0xa5) with index := 1 }
      [(3, 5#32), (32, 0xfffffff0#32)] t :=
  (concatenated_iff [(3, 5#32), (32, 0xfffffff0#32)]
    { preallocated (List.replicate 8 0xa5) with index := 1 } (by decide) (by decide)
    (by decide)).mpr (by decide)

/-- Three bits in the last byte that a position can name. -/
theorem lastByte_misplaced : ¬ ∀ (fields : List Field) (s : BasicStream),
    (∀ field ∈ fields, 1 ≤ field.1 ∧ field.1 ≤ 32) →
    8 * s.index + (allBits fields).length ≤ 8 * s.dataSize →
    8 * s.index + (allBits fields).length < 2 ^ 31 →
    ∃ t, (writeSection fields).run s = .ok () t ∧ Concatenated s fields t := by
  intro h
  have hlast (n : ℕ) (hn : n = 2 ^ 28) : False := by
    have hlength : (allBits [(3, 0#32)]).length = 3 := rfl
    have hsize : ({ preallocated (List.replicate n 0) with index := n - 1 } :
        BasicStream).dataSize = n := List.length_replicate
    have hfields : ∀ field ∈ ([(3, 0#32)] : List Field), 1 ≤ field.1 ∧ field.1 ≤ 32 := by decide
    have hroom : 8 * (n - 1) + (allBits [(3, 0#32)]).length ≤
        8 * ({ preallocated (List.replicate n 0) with index := n - 1 } : BasicStream).dataSize := by
      omega
    have hint : 8 * (n - 1) + (allBits [(3, 0#32)]).length < 2 ^ 31 := by omega
    obtain ⟨t, hrun, -, -, hindex⟩ := writeSection_run
      (s := { preallocated (List.replicate n 0) with index := n - 1 }) _ hfields hroom hint
    obtain ⟨u, hrun', hu⟩ :=
      h _ { preallocated (List.replicate n 0) with index := n - 1 } hfields hroom hint
    rw [hrun] at hrun'
    cases hrun'
    have hup := (roundUp_iff hint).mp (hindex.symm.trans hu.index)
    omega
  exact hlast _ rfl

end Win64Server.BitAccess
