import Win64Server.StreamAgreement
import Win64Server.Library.Decoding

/-!
Round trips through the older stream. Its numbers come in more arrangements: with the bytes in
another order, with 128 added to the last byte, negated, or taken from 128. Every one of them has a
reader that undoes it, for some a signed and an unsigned one; arrays are read back the way they
were written, and so are strings that the reader's bound lets through.
-/
namespace Win64Server.StreamRoundTrip

open Outcome Library
open StreamAgreement (advance_run load_run)

/-- The encodings of numbers. Where there is a reader for either sign, the flag selects it. -/
inductive Number
  | byte (signed : Bool)
  | byteA (signed : Bool)
  | byteC (signed : Bool)
  | byteS (signed : Bool)
  | word (signed : Bool)
  | wordA (signed : Bool)
  | wordBigEndian (signed : Bool)
  | wordBigEndianA (signed : Bool)
  | threeByte
  | dWord
  | dWordV1
  | dWordV2
  | qWord

namespace Number

def write : Number → ℤ → RawM Unit
  | byte _ => Stream.writeByte
  | byteA _ => Stream.writeByteA
  | byteC _ => Stream.writeByteC
  | byteS _ => Stream.writeByteS
  | word _ => Stream.writeWord
  | wordA _ => Stream.writeWordA
  | wordBigEndian _ => Stream.writeWordBigEndian
  | wordBigEndianA _ => Stream.writeWordBigEndianA
  | threeByte => Stream.write3Byte
  | dWord => Stream.writeDWord
  | dWordV1 => Stream.writeDWordV1
  | dWordV2 => Stream.writeDWordV2
  | qWord => Stream.writeQWord

def read : Number → RawM ℤ
  | byte false => Stream.readUnsignedByte
  | byte true => Stream.readSignedByte
  | byteA false => Stream.readUnsignedByteA
  | byteA true => Stream.readSignedByteA
  | byteC false => Stream.readUnsignedByteC
  | byteC true => Stream.readSignedByteC
  | byteS false => Stream.readUnsignedByteS
  | byteS true => Stream.readSignedByteS
  | word false => Stream.readUnsignedWord
  | word true => Stream.readSignedWord
  | wordA false => Stream.readUnsignedWordA
  | wordA true => Stream.readSignedWordA
  | wordBigEndian false => Stream.readUnsignedWordBigEndian
  | wordBigEndian true => Stream.readSignedWordBigEndian
  | wordBigEndianA false => Stream.readUnsignedWordBigEndianA
  | wordBigEndianA true => Stream.readSignedWordBigEndianA
  | threeByte => Stream.read3Byte
  | dWord => Stream.readDWord
  | dWordV1 => Stream.readDWordV1
  | dWordV2 => Stream.readDWordV2
  | qWord => Stream.readQWord

/-- In bytes. -/
def width : Number → ℕ
  | byte _ | byteA _ | byteC _ | byteS _ => 1
  | word _ | wordA _ | wordBigEndian _ | wordBigEndianA _ => 2
  | threeByte => 3
  | dWord | dWordV1 | dWordV2 => 4
  | qWord => 8

/-- Whether the reader returns a signed number. -/
def signed : Number → Bool
  | byte signed | byteA signed | byteC signed | byteS signed => signed
  | word signed | wordA signed | wordBigEndian signed | wordBigEndianA signed => signed
  | threeByte | dWordV1 | dWordV2 => true
  | dWord | qWord => false

/-- The argument reduced to the width. -/
def value (number : Number) (x : ℤ) : ℤ :=
  if number.signed then x.bmod (256 ^ number.width) else x % 256 ^ number.width

def bytes (x : ℤ) : Number → List UInt8
  | byte _ => beBytes 1 x
  | byteA _ => beBytes 1 (x + 128)
  | byteC _ => beBytes 1 (-x)
  | byteS _ => beBytes 1 (128 - x)
  | word _ => beBytes 2 x
  | wordA _ => [toChar (x / 256), toChar (x + 128)]
  | wordBigEndian _ => [toChar x, toChar (x / 256)]
  | wordBigEndianA _ => [toChar (x + 128), toChar (x / 256)]
  | threeByte => beBytes 3 x
  | dWord => beBytes 4 x
  | dWordV1 => [toChar (x / 2 ^ 8), toChar x, toChar (x / 2 ^ 24), toChar (x / 2 ^ 16)]
  | dWordV2 => [toChar (x / 2 ^ 16), toChar (x / 2 ^ 24), toChar x, toChar (x / 2 ^ 8)]
  | qWord => beBytes 8 x

theorem bytes_length (number : Number) (x : ℤ) : (number.bytes x).length = number.width := by
  cases number <;> rfl

end Number

/-- The orders in which the bytes of an array are written. -/
inductive Arrangement
  | forward
  | reverse
  | reverseA

namespace Arrangement

def write : Arrangement → List UInt8 → ℤ → ℤ → RawM Unit
  | forward => Stream.writeBytes
  | reverse => Stream.writeBytesReverse
  | reverseA => Stream.writeBytesReverseA

def read : Arrangement → List UInt8 → ℤ → ℤ → RawM (List UInt8)
  | forward => Stream.readBytes
  | reverse => Stream.readBytesReverse
  | reverseA => Stream.readBytesReverseA

/-- The least bound that the loop can compute: the reversed ones subtract one more. -/
def least : Arrangement → ℤ
  | forward => -2 ^ 31
  | reverse => -2 ^ 31 + 1
  | reverseA => -2 ^ 31 + 1

def bytes (piece : List UInt8) : Arrangement → List UInt8
  | forward => piece
  | reverse => piece.reverse
  | reverseA => piece.reverse.map (· + 128)

/-- The bounds of the loop are `int`s, and the bytes it goes over are in the array. -/
structure Spans (arrangement : Arrangement) (length : ℕ) (i j : ℤ) : Prop where
  least : arrangement.least ≤ j + i
  most : j + i < 2 ^ 31
  inside : 0 < i → 0 ≤ j ∧ j + i ≤ length

end Arrangement

/-- `i` bytes of an array from `j` on, to be read back into an array from `k` on. -/
structure Piece (arrangement : Arrangement) where
  source : List UInt8
  output : List UInt8
  i : ℤ
  j : ℤ
  k : ℤ
  source_spans : arrangement.Spans source.length i j
  output_spans : arrangement.Spans output.length i k

namespace Piece

variable {arrangement : Arrangement} (piece : Piece arrangement)

def content : List UInt8 := (piece.source.drop piece.j.toNat).take piece.i.toNat

/-- The output with the piece in its place. -/
def copied : List UInt8 :=
  piece.output.take piece.k.toNat ++ piece.content ++
    piece.output.drop (piece.k.toNat + piece.i.toNat)

end Piece

/-- A string that the reader does not cut off, to be read back into an array it fits in. -/
structure Line where
  text : Text
  output : List UInt8
  short : text.1.length ≤ 5000
  fits : text.1.length < output.length

/-- A write and the read that goes with it. -/
inductive Field
  | number (number : Number) (x : ℤ)
  | bytes (arrangement : Arrangement) (piece : Piece arrangement)
  | text (line : Line)

/-- What a reader returns, or the string or array it leaves behind. -/
inductive Value
  | number (n : ℤ)
  | bytes (contents : List UInt8)
  | text (s : CxxString)
deriving DecidableEq

namespace Field

def write : Field → RawM Unit
  | number kind x => kind.write x
  | bytes arrangement piece => arrangement.write piece.source piece.i piece.j
  | text line => Stream.writeString line.text.1

def read : Field → RawM Value
  | number kind _ => .number <$> kind.read
  | bytes arrangement piece => .bytes <$> arrangement.read piece.output piece.i piece.k
  | text line => (fun output => .text (cStr output)) <$> Stream.readString line.output

def value : Field → Value
  | number kind x => .number (kind.value x)
  | bytes _ piece => .bytes piece.copied
  | text line => .text line.text.1

def size : Field → ℕ
  | number kind _ => kind.width
  | bytes _ piece => piece.i.toNat
  | text line => line.text.1.length + 1

def encoded : Field → List UInt8
  | number kind x => kind.bytes x
  | bytes arrangement piece => arrangement.bytes piece.content
  | text line => line.text.1 ++ [0]

end Field

section Positions

theorem mem_positions {n : ℕ} {k j : ℤ} (h : k ∈ Stream.positions 1 n j) : j ≤ k ∧ k < j + n := by
  induction n generalizing j with
  | zero => cases h
  | succ n ih =>
    rcases List.mem_cons.mp h with rfl | h
    · omega
    · have hrest := ih h
      omega

theorem positions_succ (n : ℕ) (j : ℤ) :
    Stream.positions 1 (n + 1) j = Stream.positions 1 n j ++ [j + n] := by
  induction n generalizing j with
  | zero => simp [Stream.positions]
  | succ n ih =>
    rw [Stream.positions, ih, Stream.positions, List.cons_append]
    congr 3
    push_cast
    omega

theorem positions_down (n : ℕ) (j : ℤ) :
    Stream.positions (-1) n (j + n - 1) = (Stream.positions 1 n j).reverse := by
  induction n with
  | zero => rfl
  | succ n ih =>
    rw [positions_succ, List.reverse_append, Stream.positions, List.reverse_singleton,
      List.singleton_append, ← ih]
    congr 2 <;> push_cast <;> omega

namespace Arrangement

/-- The order in which the loop goes over the array. -/
def order : Arrangement → ℤ → ℤ → List ℤ
  | forward => Stream.upwards
  | reverse => Stream.downwards
  | reverseA => Stream.downwards

/-- What is added to a byte on its way into the stream. -/
def shift : Arrangement → ℤ
  | forward => 0
  | reverse => 0
  | reverseA => 128

theorem write_eq (arrangement : Arrangement) (source : List UInt8) (i j : ℤ) :
    arrangement.write source i j =
      Stream.putElements arrangement.shift source (arrangement.order i j) := by
  cases arrangement <;> rfl

theorem read_eq (arrangement : Arrangement) (output : List UInt8) (i k : ℤ) :
    arrangement.read output i k =
      Stream.takeElements arrangement.shift output (arrangement.order i k) := by
  cases arrangement <;> rfl

end Arrangement

theorem upwards_eq {i j : ℤ} (hleast : -2 ^ 31 ≤ j + i) (hmost : j + i < 2 ^ 31) :
    Stream.upwards i j = Stream.positions 1 i.toNat j := by
  rw [Stream.upwards, toInt32_of_lt hleast hmost]
  congr 1
  omega

theorem downwards_eq {i j : ℤ} (hleast : -2 ^ 31 + 1 ≤ j + i) (hmost : j + i < 2 ^ 31) :
    Stream.downwards i j = Stream.positions (-1) i.toNat (j + i - 1) := by
  rw [Stream.downwards, toInt32_of_lt (by omega) hmost, toInt32_of_lt (by omega) (by omega)]
  congr 1
  omega

/-- With a count below one the loops do nothing, and otherwise their start is in the array. -/
theorem Arrangement.Spans.order_eq {arrangement : Arrangement} {length : ℕ} {i j : ℤ}
    (h : arrangement.Spans length i j) :
    arrangement.order i j = match arrangement with
      | forward => Stream.positions 1 i.toNat j.toNat
      | _ => Stream.positions (-1) i.toNat (j.toNat + i.toNat - 1) := by
  have hleast := h.least
  have hmost := h.most
  by_cases hi : 0 < i
  · obtain ⟨hj, -⟩ := h.inside hi
    have hstart : (j.toNat : ℤ) = j := Int.toNat_of_nonneg hj
    have hcount : (i.toNat : ℤ) = i := Int.toNat_of_nonneg hi.le
    rw [hstart, hcount]
    cases arrangement with
    | forward => exact upwards_eq hleast hmost
    | reverse => exact downwards_eq hleast hmost
    | reverseA => exact downwards_eq hleast hmost
  · have hnone : i.toNat = 0 := by omega
    rw [hnone]
    cases arrangement with
    | forward => simp [order, upwards_eq hleast hmost, hnone, Stream.positions]
    | reverse => simp [order, downwards_eq hleast hmost, hnone, Stream.positions]
    | reverseA => simp [order, downwards_eq hleast hmost, hnone, Stream.positions]

theorem Arrangement.Spans.room {arrangement : Arrangement} {length : ℕ} {i j : ℤ}
    (h : arrangement.Spans length i j) : j.toNat + i.toNat ≤ length ∨ i.toNat = 0 := by
  by_cases hi : 0 < i
  · obtain ⟨hj, hle⟩ := h.inside hi
    omega
  · omega

/-- The positions of both loops are in the array. -/
theorem positions_inside {length n j : ℕ} (h : j + n ≤ length ∨ n = 0) :
    (∀ k ∈ Stream.positions 1 n j, 0 ≤ k ∧ k < length) ∧
      ∀ k ∈ Stream.positions (-1) n (j + n - 1), 0 ≤ k ∧ k < length := by
  have hup : ∀ k ∈ Stream.positions 1 n j, 0 ≤ k ∧ k < length := by
    intro k hk
    have hbounds := mem_positions hk
    omega
  rw [positions_down]
  exact ⟨hup, fun k hk => hup k (List.mem_reverse.mp hk)⟩

theorem positions_length (step : ℤ) (n : ℕ) (k : ℤ) :
    (Stream.positions step n k).length = n := by
  induction n generalizing k with
  | zero => rfl
  | succ n ih => rw [Stream.positions, List.length_cons, ih]

theorem Piece.content_length {arrangement : Arrangement} (piece : Piece arrangement) :
    piece.content.length = piece.i.toNat := by
  have hroom := piece.source_spans.room
  rw [Piece.content, List.length_take, List.length_drop]
  omega

end Positions

section Bytes

/-- Where a byte is added to as a signed `char` does not matter. -/
theorem toChar_toInt8_add (b : UInt8) (x : ℤ) :
    toChar (toInt8 b.toNat + x) = toChar (b.toNat + x) := by
  refine StreamAgreement.toChar_congr ?_
  rw [toInt8, Int.add_emod, show (256 : ℤ) = ((2 ^ 8 : ℕ) : ℤ) by norm_num, Int.bmod_emod,
    ← Int.add_emod]

theorem toChar_toInt8 (b : UInt8) : toChar (toInt8 b.toNat) = b := by
  simpa [toChar_toNat] using toChar_toInt8_add b 0

theorem toChar_toInt32 (x : ℤ) : toChar (toInt32 x) = toChar x := by
  refine StreamAgreement.toChar_congr ?_
  have h : toInt32 x % ((2 ^ 32 : ℕ) : ℤ) = x % ((2 ^ 32 : ℕ) : ℤ) := Int.bmod_emod
  omega

theorem toChar_add (b c : UInt8) : toChar (b.toNat + c.toNat) = b + c := by
  rw [← toChar_toNat (b + c), UInt8.toNat_add]
  exact StreamAgreement.toChar_congr (by push_cast; omega)

theorem toChar_shift (b : UInt8) : toChar (toInt8 b.toNat + 128) = b + 128 := by
  rw [toChar_toInt8_add]
  exact toChar_add b 128

/-- Two shifts by 128 cancel. -/
theorem toChar_unshift (b : UInt8) : toChar (toInt8 (b + 128).toNat - 128) = b := by
  rw [sub_eq_add_neg, toChar_toInt8_add, UInt8.toNat_add, ← toChar_toNat b]
  have hb := b.toNat_lt
  refine StreamAgreement.toChar_congr ?_
  rw [toChar_toNat]
  change (((b.toNat + 128) % 2 ^ 8 : ℕ) + -128 : ℤ) % 256 = _
  omega

end Bytes

section Writing

/-- Bytes of an array, as the loop goes over it. -/
theorem putElements_eq {plus : ℤ} {source : List UInt8} {ks : List ℤ}
    (h : ∀ k ∈ ks, 0 ≤ k ∧ k < source.length) :
    Stream.putElements plus source ks =
      ((ks.map fun k => source.getD k.toNat 0).map fun b =>
        toChar (toInt8 b.toNat + plus)).forM Stream.put := by
  induction ks with
  | nil => rfl
  | cons k ks ih =>
    have hk : Stream.element source k = pure (toInt8 (source.getD k.toNat 0).toNat) := by
      rw [Stream.element, if_pos (h k List.mem_cons_self)]
    have hrest := ih fun k hk => h k (List.mem_cons_of_mem _ hk)
    rw [Stream.putElements, List.forM_eq_forM] at hrest ⊢
    rw [List.forM_cons, List.map_cons, List.map_cons, List.forM_eq_forM, List.forM_cons, hrest,
      hk, pure_bind]
    rfl

theorem map_positions {source : List UInt8} {n j : ℕ} (h : j + n ≤ source.length) :
    (Stream.positions 1 n j).map (fun k => source.getD k.toNat 0) = (source.drop j).take n := by
  induction n generalizing j with
  | zero => rfl
  | succ n ih =>
    have hj : j < source.length := by omega
    have hdrop : source.drop j = source.getD j 0 :: source.drop (j + 1) := by
      rw [List.drop_eq_getElem_cons hj, List.getD, List.getElem?_eq_getElem hj]
      rfl
    have hrest := ih (j := j + 1) (by omega)
    rw [hdrop, List.take_succ_cons, ← hrest]
    rfl

/-- The three loops put the bytes of the piece in their order. -/
theorem write_piece {arrangement : Arrangement} (piece : Piece arrangement) :
    arrangement.write piece.source piece.i piece.j =
      (arrangement.bytes piece.content).forM Stream.put := by
  have hspans := piece.source_spans
  obtain ⟨hup, hdown⟩ := positions_inside hspans.room
  have hcontent : (Stream.positions 1 piece.i.toNat piece.j.toNat).map
      (fun k => piece.source.getD k.toNat 0) = piece.content := by
    rcases hspans.room with hle | hnone
    · exact map_positions hle
    · rw [Piece.content, hnone]
      rfl
  rw [arrangement.write_eq, hspans.order_eq]
  cases arrangement with
  | forward =>
    rw [putElements_eq hup, hcontent]
    simp [Arrangement.shift, Arrangement.bytes, toChar_toInt8]
  | reverse =>
    rw [putElements_eq hdown, positions_down, List.map_reverse, hcontent]
    simp [Arrangement.shift, Arrangement.bytes, toChar_toInt8]
  | reverseA =>
    rw [putElements_eq hdown, positions_down, List.map_reverse, hcontent]
    simp [Arrangement.shift, Arrangement.bytes, toChar_shift]

theorem write_number (kind : Number) (x : ℤ) :
    kind.write x = (kind.bytes x).forM Stream.put := by
  have hshift : toChar (toInt32 (x + 128)) = toChar (x + 128) := toChar_toInt32 _
  cases kind with
  | byte => exact StreamAgreement.writeByte_eq x
  | byteA => simp [Number.write, Number.bytes, Stream.writeByteA, beBytes, hshift]
  | byteC => simp [Number.write, Number.bytes, Stream.writeByteC, beBytes, toChar_toInt32]
  | byteS => simp [Number.write, Number.bytes, Stream.writeByteS, beBytes, toChar_toInt32]
  | word => exact StreamAgreement.writeWord_eq x
  | wordA =>
    simp [Number.write, Number.bytes, Stream.writeWordA, hshift, Int.shiftRight_eq_div_pow]
  | wordBigEndian =>
    simp [Number.write, Number.bytes, Stream.writeWordBigEndian, Int.shiftRight_eq_div_pow]
  | wordBigEndianA =>
    simp [Number.write, Number.bytes, Stream.writeWordBigEndianA, hshift,
      Int.shiftRight_eq_div_pow]
  | threeByte => exact StreamAgreement.write3Byte_eq x
  | dWord => exact StreamAgreement.writeDWord_eq x
  | dWordV1 => simp [Number.write, Number.bytes, Stream.writeDWordV1, Int.shiftRight_eq_div_pow]
  | dWordV2 => simp [Number.write, Number.bytes, Stream.writeDWordV2, Int.shiftRight_eq_div_pow]
  | qWord => exact StreamAgreement.writeQWord_eq x

theorem write_field (field : Field) : field.write = field.encoded.forM Stream.put := by
  cases field with
  | number kind x => exact write_number kind x
  | bytes arrangement piece => exact write_piece piece
  | text line =>
    rw [Field.write, Stream.writeString, cStr_eq_self line.text.2]
    rfl

/-- All the fields are one run of bytes. -/
theorem write_fields (fields : List Field) :
    fields.forM Field.write = (fields.flatMap Field.encoded).forM Stream.put := by
  induction fields with
  | nil => rfl
  | cons field fields ih =>
    rw [List.forM_eq_forM, List.forM_eq_forM] at ih ⊢
    rw [List.forM_cons, List.flatMap_cons, List.forM_append, ih, write_field, List.forM_eq_forM]

/-- The stream with the bytes stored from an offset on, and the offset behind them. -/
def stored (s : Stream) (start : ℕ) (bytes : List UInt8) : Stream :=
  { s with
    buffer := s.buffer.take start ++ bytes ++ s.buffer.drop (start + bytes.length)
    currentOffset := (start + bytes.length : ℕ) }

theorem puts_run (bytes : List UInt8) {s : Stream} {start : ℕ} (hoffset : s.currentOffset = start)
    (hroom : start + bytes.length ≤ s.buffer.length) (hlt : start + bytes.length < 2 ^ 31) :
    (bytes.forM Stream.put).run s = .ok () (stored s start bytes) := by
  induction bytes generalizing s start with
  | nil =>
    simp [stored, ← hoffset]
  | cons b bytes ih =>
    rw [List.length_cons] at hroom hlt
    have hput : (Stream.put b).run s = .ok ()
        { s with
          buffer := s.buffer.set start b
          currentOffset := (start + 1 : ℕ) } := by
      have hrange : (0 : ℤ) ≤ start ∧ (start : ℤ) < s.buffer.length := by omega
      have hnext : toInt32 ((start : ℤ) + 1) = (start + 1 : ℕ) := by
        rw [toInt32_of_lt (by omega) (by omega)]
        rfl
      simp [Stream.put, Stream.store, Stream.advance, hoffset, hrange, hnext]
    rw [List.forM_eq_forM, List.forM_cons, run_bind_of_ok hput, ← List.forM_eq_forM,
      ih rfl (by rw [List.length_set]; omega) (by omega)]
    have hlast : start + 1 + bytes.length = start + (b :: bytes).length := by
      rw [List.length_cons]
      omega
    have hbuffer := overwrite_cons (show start < s.buffer.length by omega) b bytes
    rw [hlast] at hbuffer
    simp only [stored, hlast, hbuffer]

end Writing

section Reading

/-- The bytes from the offset on, as far as an `int` counts. -/
def unread (s : Stream) : List UInt8 :=
  if 0 ≤ s.currentOffset then (s.buffer.take (2 ^ 31 - 1)).drop s.currentOffset.toNat else []

/-- A reader moves the offset over bytes that are there. -/
def cursor : Cursor Stream UInt8 where
  view := unread
  Moved s k t :=
    t = { s with currentOffset := s.currentOffset + k } ∧ (k = 0 ∨ 0 ≤ s.currentOffset)
  view_of_moved := by
    rintro s t k ⟨rfl, rfl | hoffset⟩
    · simp [unread]
    · have hsum : (s.currentOffset + k).toNat = s.currentOffset.toNat + k := by omega
      have hnext : 0 ≤ s.currentOffset + k := by omega
      simp only [unread, if_pos hoffset, if_pos hnext, hsum, List.drop_drop]
  refl s := ⟨by simp, .inl rfl⟩
  trans := by
    rintro s t u k j ⟨rfl, hk⟩ ⟨rfl, hj⟩
    refine ⟨by simp [Int.add_assoc], ?_⟩
    dsimp only at hj
    omega

variable {t : Stream} {i : ℕ} {p : List UInt8}

/-- The stream stands at an offset, and these bytes come next. -/
structure Next (t : Stream) (i : ℕ) (p : List UInt8) : Prop where
  offset : t.currentOffset = i
  bytes : (t.buffer.drop i).take p.length = p
  room : i + p.length ≤ t.buffer.length
  lt : i + p.length < 2 ^ 31

/-- A reader is described by what it does where its bytes come next. -/
theorem decodes_of_next {α : Type} {x : RawM α} {a : α} (hne : p ≠ [])
    (h : ∀ (t : Stream) (i : ℕ), Next t i p →
      x.run t = .ok a { t with currentOffset := (i + p.length : ℕ) }) :
    Decodes cursor x p a := by
  intro s rest hs
  change unread s = _ at hs
  have hoffset : 0 ≤ s.currentOffset := by
    by_contra hneg
    rw [unread, if_neg hneg] at hs
    exact hne (List.append_eq_nil_iff.mp hs.symm).1
  obtain ⟨i, hi⟩ := Int.eq_ofNat_of_zero_le hoffset
  rw [unread, if_pos hoffset, hi, Int.toNat_natCast, List.drop_take] at hs
  have hlength := congrArg List.length hs
  rw [List.length_take, List.length_drop, List.length_append] at hlength
  have hpos := List.length_pos_iff.mpr hne
  have hnext : Next s i p := by
    refine ⟨hi, ?_, by omega, by omega⟩
    have htake := congrArg (List.take p.length) hs
    rwa [List.take_take, Nat.min_eq_left (by omega), List.take_left] at htake
  refine ⟨_, h s i hnext, ?_, .inr hoffset⟩
  rw [hi]
  rfl

/-- A byte of those that come next, wherever the offset stands by now. -/
theorem Next.load (h : Next t i p) {u : Stream} (hbuffer : u.buffer = t.buffer) {position : ℤ}
    {m : ℕ} (hposition : position = i + m) (hm : m < p.length) :
    (Stream.load position).run u = .ok ((p.getD m 0).toNat : ℤ) u := by
  have hroom := h.room
  have hbyte : t.buffer.getD (i + m) 0 = p.getD m 0 := by
    conv_rhs => rw [← h.bytes]
    rw [List.getD, List.getD, List.getElem?_take_of_lt hm, List.getElem?_drop]
  rw [load_run (k := i + m) (by rw [hposition]; rfl) (by rw [hbuffer]; omega), hbuffer, hbyte]

theorem Next.loadChar (h : Next t i p) {u : Stream} (hbuffer : u.buffer = t.buffer) {position : ℤ}
    {m : ℕ} (hposition : position = i + m) (hm : m < p.length) :
    (Stream.loadChar position).run u = .ok (toInt8 (p.getD m 0).toNat) u :=
  run_map_ok.mpr ⟨_, h.load hbuffer hposition hm, rfl⟩

theorem decodes_next (b : UInt8) : Decodes cursor Stream.next [b] (toInt8 b.toNat) := by
  refine decodes_of_next (List.cons_ne_nil _ _) fun t i h => ?_
  have hposition : t.currentOffset = (i : ℤ) + (0 : ℕ) := by rw [h.offset]; simp
  have hload := h.loadChar (u := t) rfl hposition (by simp)
  have hlt := h.lt
  obtain ⟨u, hadvance, hu, -, -⟩ := advance_run h.offset (n := 1) (m := i + 1) (by omega) hlt
  rw [Stream.next, run_bind_of_ok (EStateM.run_get ..),
    run_bind_of_ok hload, run_bind_of_ok hadvance, hu]
  rfl

theorem decodes_readUnsignedByte (b : UInt8) :
    Decodes cursor Stream.readUnsignedByte [b] (b.toNat : ℤ) := by
  refine decodes_of_next (List.cons_ne_nil _ _) fun t i h => ?_
  rw [StreamAgreement.readUnsignedByte_run h.offset h.room h.lt]
  have hbytes : (t.buffer.drop i).take 1 = [b] := h.bytes
  rw [hbytes]
  simp [beNat]

theorem decodes_readUnsignedWord (a b : UInt8) :
    Decodes cursor Stream.readUnsignedWord [a, b] (beNat [a, b] : ℤ) := by
  refine decodes_of_next (List.cons_ne_nil _ _) fun t i h => ?_
  have hbytes : (t.buffer.drop i).take 2 = [a, b] := h.bytes
  rw [StreamAgreement.readUnsignedWord_run h.offset h.room h.lt, hbytes]
  rfl

/-- Of the two bytes, one is read as it is and one is read as a signed `char`. -/
theorem decodes_readWordAt {a b : UInt8} (high low : ℕ) (hhigh : high < 2) (hlow : low < 2)
    (minus : ℤ) :
    Decodes cursor (Stream.readWordAt (2 - high) (2 - low) minus) [a, b]
      (([a, b].getD high 0).toNat * 2 ^ 8 + (toInt8 ([a, b].getD low 0).toNat - minus) % 256) := by
  refine decodes_of_next (List.cons_ne_nil _ _) fun t i h => ?_
  have hlt := h.lt
  obtain ⟨u, hadvance, hu, hmoved, hbuffer⟩ :=
    advance_run h.offset (n := 2) (m := i + 2) (by omega) hlt
  rw [Stream.readWordAt, run_bind_of_ok hadvance, run_bind_of_ok (EStateM.run_get ..),
    run_bind_of_ok (h.load hbuffer (m := high) (by omega) hhigh),
    run_bind_of_ok (h.loadChar hbuffer (m := low) (by omega) hlow), hu]
  rfl

theorem decodes_readDWordAt {bytes : List UInt8} (hlength : bytes.length = 4)
    (first second third fourth : ℕ) (hfirst : first < 4) (hsecond : second < 4)
    (hthird : third < 4) (hfourth : fourth < 4) :
    Decodes cursor (Stream.readDWordAt (4 - first) (4 - second) (4 - third) (4 - fourth)) bytes
      (toInt32 ((bytes.getD first 0).toNat * 2 ^ 24 + (bytes.getD second 0).toNat * 2 ^ 16 +
        (bytes.getD third 0).toNat * 2 ^ 8 + (bytes.getD fourth 0).toNat)) := by
  refine decodes_of_next (by rintro rfl; cases hlength) fun t i h => ?_
  have hlt := h.lt
  rw [hlength] at hlt ⊢
  obtain ⟨u, hadvance, hu, hmoved, hbuffer⟩ :=
    advance_run h.offset (n := 4) (m := i + 4) (by omega) hlt
  rw [← hlength] at hfirst hsecond hthird hfourth
  rw [Stream.readDWordAt, run_bind_of_ok hadvance, run_bind_of_ok (EStateM.run_get ..),
    run_bind_of_ok (h.load hbuffer (m := first) (by omega) hfirst),
    run_bind_of_ok (h.load hbuffer (m := second) (by omega) hsecond),
    run_bind_of_ok (h.load hbuffer (m := third) (by omega) hthird),
    run_bind_of_ok (h.load hbuffer (m := fourth) (by omega) hfourth), hu]
  rfl

end Reading

section Numbers

theorem natCast_toChar (x : ℤ) : ((toChar x).toNat : ℤ) = x % 256 := by
  have h := beNat_beBytes 1 x
  simpa [beBytes, beNat] using h

theorem toInt8_emod (x : ℤ) : toInt8 x % 256 = x % 256 := by
  have h : toInt8 x % ((2 ^ 8 : ℕ) : ℤ) = x % ((2 ^ 8 : ℕ) : ℤ) := Int.bmod_emod
  simpa using h

theorem toInt8_congr {x y : ℤ} (h : x % 256 = y % 256) : toInt8 x = toInt8 y := by
  have hx : (x % 256).bmod 256 = x.bmod 256 := Int.emod_bmod x 256
  have hy : (y % 256).bmod 256 = y.bmod 256 := Int.emod_bmod y 256
  change x.bmod 256 = y.bmod 256
  rw [← hx, ← hy, h]

theorem toInt8_toChar (x : ℤ) : toInt8 (toChar x).toNat = toInt8 x :=
  toInt8_congr (by rw [natCast_toChar, Int.emod_emod])

theorem signedWord_emod (x : ℤ) : Stream.signedWord (x % 65536) = x.bmod 65536 := by
  unfold Stream.signedWord Int.bmod
  dsimp only
  split <;> split <;> omega

theorem decodes_byte (y : ℤ) (f : ℤ → ℤ) :
    Decodes cursor (f <$> Stream.next) (beBytes 1 y) (f (toInt8 y)) :=
  ((decodes_next (toChar y)).map f).of_eq (by rw [toInt8_toChar])

theorem decodes_word (x : ℤ) : Decodes cursor Stream.readUnsignedWord (beBytes 2 x) (x % 65536) :=
  (decodes_readUnsignedWord _ _).of_eq (beNat_beBytes 2 x)

theorem decodes_wordA (x : ℤ) :
    Decodes cursor Stream.readUnsignedWordA [toChar (x / 256), toChar (x + 128)] (x % 65536) := by
  refine (decodes_readWordAt 0 1 (by decide) (by decide) 128).of_eq ?_
  change ((toChar (x / 256)).toNat : ℤ) * 2 ^ 8 +
    (toInt8 (toChar (x + 128)).toNat - 128) % 256 = x % 65536
  have hlow := toInt8_emod (x + 128)
  rw [toInt8_toChar, natCast_toChar]
  omega

theorem decodes_wordBigEndian (x : ℤ) :
    Decodes cursor Stream.readUnsignedWordBigEndian [toChar x, toChar (x / 256)] (x % 65536) := by
  refine (decodes_readWordAt 1 0 (by decide) (by decide) 0).of_eq ?_
  change ((toChar (x / 256)).toNat : ℤ) * 2 ^ 8 + (toInt8 (toChar x).toNat - 0) % 256 = x % 65536
  have hlow := toInt8_emod x
  rw [toInt8_toChar, natCast_toChar]
  omega

theorem decodes_wordBigEndianA (x : ℤ) :
    Decodes cursor Stream.readUnsignedWordBigEndianA [toChar (x + 128), toChar (x / 256)]
      (x % 65536) := by
  refine (decodes_readWordAt 1 0 (by decide) (by decide) 128).of_eq ?_
  change ((toChar (x / 256)).toNat : ℤ) * 2 ^ 8 +
    (toInt8 (toChar (x + 128)).toNat - 128) % 256 = x % 65536
  have hlow := toInt8_emod (x + 128)
  rw [toInt8_toChar, natCast_toChar]
  omega

/-- The sign of the 24 bits is extended. -/
theorem decodes_threeByte (x : ℤ) :
    Decodes cursor Stream.read3Byte (beBytes 3 x) (x.bmod (256 ^ 3)) := by
  refine decodes_of_next (List.cons_ne_nil _ _) fun t i h => ?_
  have hbytes : (t.buffer.drop i).take 3 = beBytes 3 x := h.bytes
  rw [StreamAgreement.read3Byte_run h.offset h.room h.lt, hbytes, beNat_beBytes]
  congr 1
  unfold Int.bmod
  dsimp only
  split <;> split <;> omega

theorem decodes_dWord (x : ℤ) : Decodes cursor Stream.readDWord (beBytes 4 x) (x % 256 ^ 4) := by
  refine decodes_of_next (List.cons_ne_nil _ _) fun t i h => ?_
  have hbytes : (t.buffer.drop i).take 4 = beBytes 4 x := h.bytes
  rw [StreamAgreement.readDWord_run h.offset h.room h.lt, hbytes, beNat_beBytes]
  rfl

theorem decodes_qWord (x : ℤ) : Decodes cursor Stream.readQWord (beBytes 8 x) (x % 256 ^ 8) := by
  refine decodes_of_next (List.cons_ne_nil _ _) fun t i h => ?_
  have hbytes : (t.buffer.drop i).take 8 = beBytes 8 x := h.bytes
  rw [StreamAgreement.readQWord_run h.offset h.room h.lt, hbytes, beNat_beBytes]
  have hreduced : x % 256 ^ 8 % 2 ^ 64 = x % 256 ^ 8 := by norm_num
  rw [hreduced]
  rfl

/-- The four bytes of a number, summed up with their weights. -/
theorem toInt32_sum (x : ℤ) :
    toInt32 ((toChar (x / 2 ^ 24)).toNat * 2 ^ 24 + (toChar (x / 2 ^ 16)).toNat * 2 ^ 16 +
      (toChar (x / 2 ^ 8)).toNat * 2 ^ 8 + (toChar x).toNat) = x.bmod (256 ^ 4) := by
  have hsum : ((toChar (x / 2 ^ 24)).toNat * 2 ^ 24 + (toChar (x / 2 ^ 16)).toNat * 2 ^ 16 +
      (toChar (x / 2 ^ 8)).toNat * 2 ^ 8 + (toChar x).toNat : ℤ) = x % 2 ^ 32 := by
    simp only [natCast_toChar]
    omega
  rw [hsum]
  exact Int.emod_bmod x (2 ^ 32)

theorem decodes_dWordV1 (x : ℤ) :
    Decodes cursor Stream.readDWordV1
      [toChar (x / 2 ^ 8), toChar x, toChar (x / 2 ^ 24), toChar (x / 2 ^ 16)]
      (x.bmod (256 ^ 4)) :=
  (decodes_readDWordAt rfl 2 3 0 1 (by decide) (by decide) (by decide) (by decide)).of_eq
    (toInt32_sum x)

theorem decodes_dWordV2 (x : ℤ) :
    Decodes cursor Stream.readDWordV2
      [toChar (x / 2 ^ 16), toChar (x / 2 ^ 24), toChar x, toChar (x / 2 ^ 8)]
      (x.bmod (256 ^ 4)) :=
  (decodes_readDWordAt rfl 1 0 3 2 (by decide) (by decide) (by decide) (by decide)).of_eq
    (toInt32_sum x)

/-- Every encoding is undone by its readers. -/
theorem decodes_number (kind : Number) (x : ℤ) :
    Decodes cursor kind.read (kind.bytes x) (kind.value x) := by
  cases kind with
  | byte signed =>
    cases signed with
    | false => exact (decodes_readUnsignedByte (toChar x)).of_eq (natCast_toChar x)
    | true => exact (decodes_next (toChar x)).of_eq (toInt8_toChar x)
  | byteA signed =>
    have hmod := toInt8_emod (x + 128)
    have hunsigned : (toInt8 (x + 128) - 128) % 256 = x % 256 ^ 1 := by omega
    cases signed with
    | false => exact (decodes_byte (x + 128) _).of_eq hunsigned
    | true => exact (decodes_byte (x + 128) _).of_eq (toInt8_congr (y := x) (by omega))
  | byteC signed =>
    have hmod := toInt8_emod (-x)
    have hunsigned : -toInt8 (-x) % 256 = x % 256 ^ 1 := by omega
    cases signed with
    | false => exact (decodes_byte (-x) _).of_eq hunsigned
    | true => exact (decodes_byte (-x) _).of_eq (toInt8_congr (y := x) (by omega))
  | byteS signed =>
    have hmod := toInt8_emod (128 - x)
    have hunsigned : (128 - toInt8 (128 - x)) % 256 = x % 256 ^ 1 := by omega
    cases signed with
    | false => exact (decodes_byte (128 - x) _).of_eq hunsigned
    | true => exact (decodes_byte (128 - x) _).of_eq (toInt8_congr (y := x) (by omega))
  | word signed =>
    cases signed with
    | false => exact decodes_word x
    | true => exact ((decodes_word x).map _).of_eq (signedWord_emod x)
  | wordA signed =>
    cases signed with
    | false => exact decodes_wordA x
    | true => exact ((decodes_wordA x).map _).of_eq (signedWord_emod x)
  | wordBigEndian signed =>
    cases signed with
    | false => exact decodes_wordBigEndian x
    | true => exact ((decodes_wordBigEndian x).map _).of_eq (signedWord_emod x)
  | wordBigEndianA signed =>
    cases signed with
    | false => exact decodes_wordBigEndianA x
    | true => exact ((decodes_wordBigEndianA x).map _).of_eq (signedWord_emod x)
  | threeByte => exact decodes_threeByte x
  | dWord => exact decodes_dWord x
  | dWordV1 => exact decodes_dWordV1 x
  | dWordV2 => exact decodes_dWordV2 x
  | qWord => exact decodes_qWord x

end Numbers

section Arrays

/-- The bytes put into an array at the positions of a loop. -/
def fill : List UInt8 → List ℤ → List UInt8 → List UInt8
  | array, k :: ks, b :: bs => fill (array.set k.toNat b) ks bs
  | array, _, _ => array

theorem fill_up (bs array : List UInt8) {k : ℕ}
    (h : k + bs.length ≤ array.length) :
    fill array (Stream.positions 1 bs.length k) bs =
      array.take k ++ bs ++ array.drop (k + bs.length) := by
  induction bs generalizing array k with
  | nil => simp [fill]
  | cons b bs ih =>
    rw [List.length_cons] at h
    have hrest := ih (array.set k b) (k := k + 1) (by rw [List.length_set]; omega)
    rw [List.length_cons, Stream.positions, fill, Int.toNat_natCast]
    exact hrest.trans (overwrite_cons (by omega) b bs)

theorem fill_down (bs array : List UInt8) {k : ℕ}
    (h : k + bs.length ≤ array.length) :
    fill array (Stream.positions (-1) bs.length (k + bs.length - 1)) bs =
      array.take k ++ bs.reverse ++ array.drop (k + bs.length) := by
  induction bs generalizing array with
  | nil => simp [fill, Stream.positions]
  | cons b bs ih =>
    rw [List.length_cons] at h
    have hrest := ih (array.set (k + bs.length) b) (by rw [List.length_set]; omega)
    have hlast : ((k : ℤ) + (bs.length + 1 : ℕ) - 1).toNat = k + bs.length := by omega
    have hbefore : (k : ℤ) + (bs.length + 1 : ℕ) - 1 + -1 = k + bs.length - 1 := by omega
    have hlt : k + bs.length < (array.set (k + bs.length) b).length := by
      rw [List.length_set]
      omega
    rw [List.take_set_of_le (by omega), List.drop_eq_getElem_cons hlt, List.getElem_set_self,
      List.drop_set_of_lt (by omega)] at hrest
    rw [List.length_cons, Stream.positions, fill, hlast, hbefore, hrest]
    simp [Nat.add_assoc]

/-- One round of the loop takes one byte. -/
theorem decodes_takeElements (minus : ℤ) (array : List UInt8) {ks : List ℤ} {bs : List UInt8}
    (hlength : ks.length = bs.length) (h : ∀ k ∈ ks, 0 ≤ k ∧ k < array.length) :
    Decodes cursor (Stream.takeElements minus array ks) bs
      (fill array ks (bs.map fun b => toChar (toInt8 b.toNat - minus))) := by
  induction bs generalizing array ks with
  | nil =>
    rw [List.length_nil, List.length_eq_zero_iff] at hlength
    rw [hlength]
    exact .pure array
  | cons b bs ih =>
    cases ks with
    | nil => cases hlength
    | cons k ks =>
      have hset : Stream.setElement array k (toChar (toInt8 b.toNat - minus)) =
          pure (array.set k.toNat (toChar (toInt8 b.toNat - minus))) := by
        rw [Stream.setElement, if_pos (h k List.mem_cons_self)]
      have hrest := ih (array.set k.toNat (toChar (toInt8 b.toNat - minus)))
        (Nat.succ.inj hlength) fun k' hk' => by
          rw [List.length_set]
          exact h k' (List.mem_cons_of_mem k hk')
      rw [Stream.takeElements, List.foldlM_cons, bind_assoc]
      refine (decodes_next b).bind (p := [b]) ?_
      rw [hset, pure_bind]
      exact hrest

theorem fill_content {arrangement : Arrangement} (piece : Piece arrangement) :
    fill piece.output (Stream.positions 1 piece.i.toNat piece.k.toNat) piece.content =
        piece.copied ∧
      fill piece.output (Stream.positions (-1) piece.i.toNat (piece.k.toNat + piece.i.toNat - 1))
        piece.content.reverse = piece.copied := by
  have hlength := piece.content_length
  rcases piece.output_spans.room with hle | hnone
  · constructor
    · have hup := fill_up piece.content piece.output (k := piece.k.toNat) (by omega)
      rwa [hlength] at hup
    · have hdown := fill_down piece.content.reverse piece.output (k := piece.k.toNat)
        (by rw [List.length_reverse]; omega)
      rwa [List.length_reverse, hlength, List.reverse_reverse] at hdown
  · have hempty : piece.content = [] := List.length_eq_zero_iff.mp (by omega)
    simp [Piece.copied, hempty, hnone, Stream.positions, fill]

/-- The three loops put the bytes back in the order their writers took them. -/
theorem decodes_piece {arrangement : Arrangement} (piece : Piece arrangement) :
    Decodes cursor (arrangement.read piece.output piece.i piece.k)
      (arrangement.bytes piece.content) piece.copied := by
  obtain ⟨hup, hdown⟩ := positions_inside piece.output_spans.room
  obtain ⟨hfill, hfill'⟩ := fill_content piece
  have hlength := piece.content_length
  rw [arrangement.read_eq, piece.output_spans.order_eq]
  cases arrangement with
  | forward =>
    refine (decodes_takeElements 0 piece.output ?_ hup).of_eq ?_
    · rw [positions_length]
      exact hlength.symm
    · simpa [Arrangement.bytes, toChar_toInt8] using hfill
  | reverse =>
    refine (decodes_takeElements 0 piece.output ?_ hdown).of_eq ?_
    · rw [positions_length, Arrangement.bytes, List.length_reverse]
      exact hlength.symm
    · simpa [Arrangement.bytes, toChar_toInt8] using hfill'
  | reverseA =>
    refine (decodes_takeElements 128 piece.output ?_ hdown).of_eq ?_
    · rw [positions_length, Arrangement.bytes, List.length_map, List.length_reverse]
      exact hlength.symm
    · have hcancel : (fun b : UInt8 => toChar (toInt8 b.toNat - 128)) ∘ (· + 128) = id :=
        funext toChar_unshift
      rw [Arrangement.bytes, List.map_map, hcancel, List.map_id]
      exact hfill'

end Arrays

section Texts

/-- The reader has rounds left for the text. -/
theorem decodes_readStringFrom {text : CxxString} (htext : 0 ∉ text) {rounds : ℕ}
    (hrounds : text.length ≤ rounds) (output : List UInt8) {k : ℕ}
    (hfits : k + text.length < output.length) :
    Decodes cursor (Stream.readStringFrom rounds output k) (text ++ [0])
      (output.take k ++ (text ++ [0]) ++ output.drop (k + (text ++ [0]).length)) := by
  induction text generalizing rounds output k with
  | nil =>
    rw [List.length_nil, Nat.add_zero] at hfits
    have hset : Stream.setElement output k 0 =
        pure (output.take k ++ ([] ++ [0]) ++ output.drop (k + 1)) := by
      have hlast : output.set k 0 = output.take k ++ 0 :: output.drop (k + 1) :=
        List.set_eq_take_append_cons_drop.trans (if_pos hfits)
      rw [Stream.setElement, if_pos (by omega), Int.toNat_natCast, hlast, List.nil_append,
        List.append_assoc]
      rfl
    cases rounds with
    | zero => exact (decodes_readUnsignedByte 0).last hset
    | succ rounds => exact (decodes_readUnsignedByte 0).last hset
  | cons b text ih =>
    rw [List.length_cons] at hrounds hfits
    obtain ⟨hb, htext⟩ := not_or.mp (mt List.mem_cons.mpr htext)
    cases rounds with
    | zero => omega
    | succ rounds =>
      have hne : (b.toNat : ℤ) ≠ 0 := by
        intro h
        exact hb (UInt8.toNat_inj.mp (Int.natCast_eq_zero.mp h).symm)
      have hset : Stream.setElement output k (toChar b.toNat) = pure (output.set k b) := by
        rw [Stream.setElement, if_pos (by omega), Int.toNat_natCast, toChar_toNat]
      have hrest := ih htext (Nat.le_of_succ_le_succ hrounds) (output.set k b) (k := k + 1)
        (by rw [List.length_set]; omega)
      refine (decodes_readUnsignedByte b).bind (p := [b]) ?_
      rw [if_neg hne, hset, pure_bind]
      exact hrest.of_eq (overwrite_cons (by omega) b (text ++ [0]))

end Texts

theorem decodes_field (field : Field) : Decodes cursor field.read field.encoded field.value := by
  cases field with
  | number kind x => exact (decodes_number kind x).map _
  | bytes arrangement piece => exact (decodes_piece piece).map _
  | text line =>
    have hread := decodes_readStringFrom line.text.2 line.short line.output (k := 0)
      (by rw [Nat.zero_add]; exact line.fits)
    refine (hread.map _).of_eq ?_
    rw [List.take_zero, List.nil_append, List.append_assoc, List.singleton_append,
      BasicStream.cStr_append_zero line.text.2]
    rfl

theorem encoded_length (field : Field) : field.encoded.length = field.size := by
  cases field with
  | number kind x => exact kind.bytes_length x
  | bytes arrangement piece =>
    refine Eq.trans ?_ piece.content_length
    cases arrangement <;> simp [Field.encoded, Arrangement.bytes]
  | text line => exact List.length_append

/-- Whatever is written with enough space is read back from where the writing began, and the
reading ends where the writing ended. -/
theorem writes_read_back (fields : List Field) (s : Stream) (start : ℕ)
    (hstart : s.currentOffset = start)
    (hspace : start + (fields.map Field.size).sum ≤ s.buffer.length)
    (hint : start + (fields.map Field.size).sum < 2 ^ 31) :
    ∃ t u, (fields.forM Field.write).run s = .ok () t ∧
      (fields.mapM Field.read).run { t with currentOffset := start } =
        .ok (fields.map Field.value) u ∧
      u.currentOffset = t.currentOffset := by
  have hlength : (fields.flatMap Field.encoded).length = (fields.map Field.size).sum := by
    rw [List.length_flatMap, funext encoded_length]
  have hwritten : (fields.forM Field.write).run s =
      .ok () (stored s start (fields.flatMap Field.encoded)) := by
    rw [write_fields]
    exact puts_run _ hstart (by omega) (by omega)
  let back : Stream := { stored s start (fields.flatMap Field.encoded) with currentOffset := start }
  have hback : (0 : ℤ) ≤ start := Int.natCast_nonneg start
  have hunread : unread back = fields.flatMap Field.encoded ++
      (s.buffer.drop (start + (fields.flatMap Field.encoded).length)).take
        (2 ^ 31 - 1 - start - (fields.flatMap Field.encoded).length) := by
    have hhead : (s.buffer.take start).length = start := List.length_take_of_le (by omega)
    simp only [back, unread, stored, if_pos hback, Int.toNat_natCast]
    rw [List.drop_take, List.append_assoc, List.drop_left' hhead, List.take_append,
      List.take_of_length_le (by omega)]
  obtain ⟨t, hread, ht, -⟩ :=
    Decodes.mapM fields (fun field _ => decodes_field field) back _ hunread
  refine ⟨_, t, hwritten, hread, ?_⟩
  rw [ht]
  rfl

/-- Two bytes behind the first of an array, to be put at the front of another. -/
def lastTwo : Piece .reverseA where
  source := [1, 2, 200]
  output := [9, 9]
  i := 2
  j := 1
  k := 0
  source_spans := ⟨by decide, by decide, by decide⟩
  output_spans := ⟨by decide, by decide, by decide⟩

theorem zero_notMem_letter : 0 ∉ ([65] : CxxString) := by decide

def letter : Line where
  text := ⟨[65], zero_notMem_letter⟩
  output := [9, 9, 9]
  short := by decide
  fits := by decide

/-- From the second byte of the block to its end. -/
def mixedFields : List Field :=
  [.number (.byteS true) 200, .number (.wordBigEndianA false) (-2), .number .dWordV2 (2 ^ 31),
    .bytes .reverseA lastTwo, .text letter]

theorem writes_read_back_mixedFields : ∃ t u,
    (mixedFields.forM Field.write).run
      { Stream.around (List.replicate 12 0) 0 with currentOffset := 1 } = .ok () t ∧
    (mixedFields.mapM Field.read).run { t with currentOffset := (1 : ℕ) } =
      .ok [.number (-56), .number 65534, .number (-2 ^ 31), .bytes [2, 200], .text [65]] u ∧
    u.currentOffset = t.currentOffset :=
  writes_read_back mixedFields { Stream.around (List.replicate 12 0) 0 with currentOffset := 1 } 1
    rfl (by decide) (by decide)

end Win64Server.StreamRoundTrip
