import Win64Server.StreamReading
import Win64Server.StreamWriting

/-!
Round trips through a stream. A list of fields is written behind a mark and read back from there,
each with the reader that goes with its writer. Whatever the writers made of the block meanwhile,
every reader decodes the bytes of its field and ignores what follows them.
-/
namespace Win64Server.RoundTrip

open Outcome Library BasicStream

/-- A field with the value its writer is given. -/
inductive Field
  | byte (value : UInt8)
  | short (value : UInt16)
  | threeByte (value : UInt32)
  | int (value : UInt32)
  | qword (value : Int64)
  | text (value : Text)

/-- What a reader returns. -/
inductive Value
  | number (n : ℤ)
  | text (s : CxxString)
deriving DecidableEq

namespace Field

def write : Field → StreamM Unit
  | byte value => writeByte value.toNat
  | short value => writeShort value.toNat
  | threeByte value => write3Byte value.toNat
  | int value => writeInt value.toNat
  | qword value => writeQWord value.toInt
  | text value => writeString value.1

/-- The reader for fields of this kind. -/
def read : Field → StreamM Value
  | byte _ => (fun n : ℕ => .number n) <$> readUnsignedByte
  | short _ => (fun n : ℕ => .number n) <$> readUnsignedShort
  | threeByte _ => (fun n : ℕ => .number n) <$> read3Byte
  | int _ => (fun n : ℕ => .number n) <$> readUnsignedInt
  | qword _ => .number <$> readQWord
  | text _ => .text <$> readStdString

/-- The value to be read back; of three bytes it is the sign extension. -/
def value : Field → Value
  | byte value => .number value.toNat
  | short value => .number value.toNat
  | threeByte value => .number ((value.toBitVec.setWidth 24).signExtend 32).toNat
  | int value => .number value.toNat
  | qword value => .number value.toInt
  | text value => .text value.1

def bytes : Field → List UInt8
  | byte value => beBytes 1 value.toNat
  | short value => beBytes 2 value.toNat
  | threeByte value => beBytes 3 value.toNat
  | int value => beBytes 4 value.toNat
  | qword value => beBytes 8 value.toInt
  | text value => value.1 ++ [0]

/-- A string with its NUL fits in the stream; the other fields make room for themselves. -/
def HasRoom (s : BasicStream) : Field → Prop
  | text value => s.index + (value.1.length + 1) ≤ s.dataSize
  | _ => True

instance (s : BasicStream) (field : Field) : Decidable (field.HasRoom s) := by
  cases field <;> unfold HasRoom <;> infer_instance

end Field

/-- Every string fits in the stream as it is when the string is written. -/
def Fits : List Field → BasicStream → Prop
  | [], _ => True
  | field :: fields, s => field.HasRoom s ∧ Fits fields (finalState (field.write.run s))

instance decidableFits : ∀ (fields : List Field) (s : BasicStream), Decidable (Fits fields s)
  | [], _ => .isTrue trivial
  | field :: fields, s =>
    have : Decidable (Fits fields (finalState (field.write.run s))) := decidableFits fields _
    inferInstanceAs (Decidable (_ ∧ _))

section Writing

/-- The mark is left where it is. -/
def SameMark (s t : BasicStream) : Prop := t.mark = s.mark

instance : Std.Refl SameMark := ⟨fun _ => rfl⟩

instance : IsTrans BasicStream SameMark := ⟨fun _ _ _ h h' => h'.trans h⟩

theorem sameMark_store (position : ℕ) (b : UInt8) : Keeps SameMark (store position b) := by
  intro s
  by_cases h : position < s.dataSize
  · simp [store, h, SameMark]
  · simp [store, h, SameMark]

theorem sameMark_put (b : UInt8) : Keeps SameMark (put b) :=
  .bind .get fun s => .bind (sameMark_store s.index b) fun _ => .modify fun _ => rfl

theorem sameMark_ensureCapacity (n : ℕ) : Keeps SameMark (ensureCapacity n) := by
  intro s
  by_cases h : s.index + n ≤ s.dataSize
  · simp [ensureCapacity, h, SameMark]
  · simp [ensureCapacity, h, SameMark]

theorem sameMark_writeBytes (n : ℕ) (value : ℤ) : Keeps SameMark (writeBytes n value) :=
  .bind (sameMark_ensureCapacity n) fun _ => .forM fun b _ => sameMark_put b

theorem sameMark_write (field : Field) : Keeps SameMark field.write := by
  cases field with
  | text value => exact .forM fun b _ => sameMark_put b
  | _ => exact sameMark_writeBytes _ _

theorem write_run (field : Field) {s : BasicStream} (h : s.index ≤ s.dataSize)
    (hroom : field.HasRoom s) :
    ∃ t, field.write.run s = .ok () t ∧ Appended s field.bytes t := by
  cases field with
  | text value =>
    have hfits : (value.1 ++ [0]).length ≤ s.room := by
      unfold Field.HasRoom at hroom
      rw [List.length_append, List.length_singleton, room]
      omega
    obtain ⟨t, hrun, ht, -⟩ := (forM_put_run (value.1 ++ [0]) h).1 hfits
    refine ⟨t, ?_, ht⟩
    rw [Field.write, writeString, cStr_eq_self value.2, hrun]
  | _ => exact writeBytes_appends _ _ h

/-- The fields one after the other, behind what was there. -/
theorem forM_write_run (fields : List Field) {s : BasicStream} (h : s.index ≤ s.dataSize)
    (hfits : Fits fields s) :
    ∃ t, (fields.forM Field.write).run s = .ok () t ∧
      Appended s (fields.flatMap Field.bytes) t := by
  induction fields generalizing s with
  | nil => exact ⟨s, rfl, .refl h⟩
  | cons field fields ih =>
    obtain ⟨hroom, hrest⟩ := hfits
    obtain ⟨u, hrun, hu⟩ := write_run field h hroom
    rw [hrun, finalState_ok] at hrest
    obtain ⟨t, hrun', ht⟩ := ih hu.bounded hrest
    refine ⟨t, ?_, hu.trans ht⟩
    rw [List.forM_eq_forM, List.forM_cons, run_bind_of_ok hrun]
    exact hrun'

end Writing

section Reading

theorem decodes_beBytes {n : ℕ} (hn : 0 < n) (value : ℤ) :
    Decodes cursor (readBytes n) (beBytes n value) (beBytes n value) :=
  decodes_readBytes hn ⟨beBytes n value, beBytes_length n value⟩

/-- A number below the range of its bytes is read back. -/
theorem decodes_number {n m : ℕ} (hn : 0 < n) (h : m < 256 ^ n) :
    Decodes cursor ((fun n : ℕ => Value.number n) <$> (beNat <$> readBytes n)) (beBytes n m)
      (.number m) := by
  have hdecodes := ((decodes_beBytes hn m).map beNat).map fun n : ℕ => Value.number n
  rwa [beNat_beBytes_of_lt h] at hdecodes

/-- The two's complement correction of `read3Byte` is a sign extension. -/
theorem signExtend_threeByte (value : UInt32) :
    (if value.toNat % 2 ^ 24 > 8388607 then (value.toNat % 2 ^ 24 + 2 ^ 32 - 16777216) % 2 ^ 32
      else value.toNat % 2 ^ 24) = ((value.toBitVec.setWidth 24).signExtend 32).toNat := by
  rw [BitVec.toNat_signExtend, BitVec.msb_eq_decide, BitVec.toNat_setWidth, BitVec.toNat_setWidth,
    UInt32.toNat_toBitVec]
  simp only [decide_eq_true_eq]
  split <;> split <;> omega

theorem decodes_threeByte (value : UInt32) :
    Decodes cursor read3Byte (beBytes 3 value.toNat)
      ((value.toBitVec.setWidth 24).signExtend 32).toNat := by
  have hnat : beNat (beBytes 3 value.toNat) = value.toNat % 2 ^ 24 := by
    have h := beNat_beBytes 3 value.toNat
    norm_num at h
    omega
  rw [← signExtend_threeByte, ← hnat]
  exact (decodes_beBytes (by decide) value.toNat).last rfl

theorem decodes_qword (value : Int64) :
    Decodes cursor readQWord (beBytes 8 value.toInt) value.toInt := by
  have h := (decodes_beBytes (n := 8) (by decide) value.toInt).map
    fun bytes => toInt64 (beNat bytes)
  have hvalue : toInt64 (beNat (beBytes 8 value.toInt)) = value.toInt := by
    rw [beNat_beBytes, toInt64]
    exact (Int.emod_bmod value.toInt (2 ^ 64)).trans value.toInt_bmod
  rwa [hvalue] at h

theorem decodes_readStdString (text : Text) :
    Decodes cursor readStdString (text.1 ++ [0]) text.1 := by
  intro s rest hs
  have hunread : s.unread = text.1 ++ 0 :: rest := by
    rw [← List.singleton_append, ← List.append_assoc]
    exact hs
  have hlength : s.unread.length = text.1.length + 1 + rest.length := by
    rw [hunread, List.length_append, List.length_cons]
    omega
  have hindex : s.index < s.dataSize := by
    rw [unread_length] at hlength
    omega
  refine ⟨{ s with index := s.index + (text.1.length + 1) }, ?_, by rw [List.length_append]; rfl⟩
  simp [readStdString, hindex, stringSpan_terminated text.2 hunread, hunread,
    cStr_append_zero text.2]

theorem decodes_read (field : Field) : Decodes cursor field.read field.bytes field.value := by
  cases field with
  | byte value => exact decodes_number (by decide) value.toNat_lt
  | short value => exact decodes_number (by decide) value.toNat_lt
  | threeByte value => exact (decodes_threeByte value).map _
  | int value => exact decodes_number (by decide) value.toNat_lt
  | qword value => exact (decodes_qword value).map _
  | text value => exact (decodes_readStdString value).map _

end Reading

/-- Fields written behind a mark are read back from there, and the reading stops where the writing
did. -/
theorem round_trip (block : List UInt8) (fields : List Field)
    (hfits : Fits fields (finalState (markPosition.run (.preallocated block)))) :
    ∃ s t,
      (do
        markPosition
        fields.forM Field.write : StreamM Unit).run (.preallocated block) = .ok () s ∧
      (do
        reset
        fields.mapM Field.read : StreamM (List Value)).run s = .ok (fields.map Field.value) t ∧
      t.index = s.index := by
  rw [mark_run, finalState_ok] at hfits
  let marked : BasicStream := { BasicStream.preallocated block with mark := some 0 }
  obtain ⟨s, hrun, hs⟩ := forM_write_run fields (s := marked) (Nat.zero_le _) hfits
  have hkept : Keeps SameMark (fields.forM Field.write) := .forM fun field _ => sameMark_write field
  have hmark : s.mark = some 0 := hkept.ok hrun
  let back : BasicStream := { s with index := 0, mark := none }
  have hunread : back.unread = fields.flatMap Field.bytes ++
      (s.data.take s.dataSize).drop s.index := by
    have hwritten : s.written = fields.flatMap Field.bytes := hs.written
    have htake : (s.data.take s.dataSize).take s.index = s.written := by
      rw [List.take_take, Nat.min_eq_left hs.bounded, BasicStream.written]
    rw [← hwritten, ← htake, List.take_append_drop]
    rfl
  obtain ⟨t, hread, ht⟩ := Decodes.mapM fields (fun field _ => decodes_read field) back _ hunread
  refine ⟨s, t, ?_, ?_, ?_⟩
  · rw [run_bind_of_ok (mark_run _)]
    exact hrun
  · rw [run_bind_of_ok (reset_run hmark)]
    exact hread
  · have hindex : s.index = 0 + (fields.flatMap Field.bytes).length := hs.index
    have hmoved : t = { back with index := 0 + (fields.flatMap Field.bytes).length } := ht
    rw [hmoved, hindex]

/-- A string that just fits, three bytes with the sign bit set, and a negative number. -/
def threeFields : List Field := [.text ⟨[65], by decide⟩, .threeByte 0x800001, .qword (-2)]

theorem round_trip_threeFields : ∃ s t,
    (do
      markPosition
      threeFields.forM Field.write : StreamM Unit).run (.preallocated [7, 7]) = .ok () s ∧
    (do
      reset
      threeFields.mapM Field.read : StreamM (List Value)).run s =
        .ok [.text [65], .number 0xFF800001, .number (-2)] t ∧
    t.index = s.index :=
  round_trip [7, 7] threeFields (by decide)

end Win64Server.RoundTrip
