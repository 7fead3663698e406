import Win64Server.Cxx
import Win64Server.Library.Outcome

/-!
The byte stream a connection is read from and messages are built in. `data` is the allocated
block; the stream owns its first `dataSize` bytes and what lies behind them is stale memory
that only a missing bounds check can reach. Every operation is a program over one stream, so a
throwing operation leaves the stream as it was at the throw.
-/
namespace Win64Server

/-- `frameStack` holds the open frames, innermost first. -/
structure BasicStream where
  data : List UInt8
  index : ℕ
  dataSize : ℕ
  mark : Option ℕ
  bitPosition : ℤ
  frameStack : List ℤ
  size_le : dataSize ≤ data.length

abbrev StreamM := EStateM Fault BasicStream

namespace BasicStream

open Outcome

/-- `BasicStream(preallocateSize)`: `block` is the uninitialised storage `new` returns. -/
def preallocated (block : List UInt8) : BasicStream where
  data := block
  index := 0
  dataSize := block.length
  mark := none
  bitPosition := 0
  frameStack := []
  size_le := le_rfl

def empty : BasicStream := preallocated []

/-- The bytes received and not yet read. -/
def unread (s : BasicStream) : List UInt8 := (s.data.take s.dataSize).drop s.index

@[simp] theorem unread_empty : empty.unread = [] := rfl

theorem unread_length (s : BasicStream) : s.unread.length = s.dataSize - s.index := by
  simp [unread, Nat.min_eq_left s.size_le]

def available (s : BasicStream) : ℕ := if s.index < s.dataSize then s.dataSize - s.index else 0

theorem available_eq (s : BasicStream) : s.available = s.unread.length := by
  rw [unread_length]
  unfold available
  split <;> omega

/-- `add_data`: the received bytes are put behind the stream's own in a new block, whose last
bytes stay unset when `recv` returns fewer bytes than `ioctlsocket` announced. -/
def addData (received spare : List UInt8) : StreamM Unit :=
  modify fun s =>
    { s with
      data := s.data.take s.dataSize ++ received ++ spare
      dataSize := s.dataSize + received.length
      size_le := by simp [Nat.min_eq_left s.size_le] }

/-- The bounds check and the cursor move that all fixed-width readers share. -/
def readBytes (n : ℕ) : StreamM (List UInt8) := do
  let s ← get
  if s.index + (n - 1) < s.dataSize then
    set { s with index := s.index + n }
    return (s.data.drop s.index).take n
  else
    throw (.thrown (.outOfRange "End of stream reached"))

/-- `read` returns a `char`. -/
def read : StreamM ℤ := (fun bytes => toInt8 (beNat bytes)) <$> readBytes 1

def readUnsignedByte : StreamM ℕ := beNat <$> readBytes 1

def readUnsignedShort : StreamM ℕ := beNat <$> readBytes 2

/-- The 24 bits are sign-extended in a `uint32_t`. -/
def read3Byte : StreamM ℕ := do
  let value := beNat (← readBytes 3)
  return if value > 8388607 then (value + 2 ^ 32 - 16777216) % 2 ^ 32 else value

def readUnsignedInt : StreamM ℕ := beNat <$> readBytes 4

def readQWord : StreamM ℤ := (fun bytes => toInt64 (beNat bytes)) <$> readBytes 8

/-- The bytes a string reader passes over: up to and including the first NUL, or all of them
when none is left in the stream. -/
def stringSpan (s : BasicStream) : ℕ :=
  min ((s.unread.takeWhile (· ≠ 0)).length + 1) s.unread.length

/-- `read_string` returns a pointer into the block, here its offset. -/
def readString : StreamM ℕ := do
  let s ← get
  if s.index < s.dataSize then
    set { s with index := s.index + s.stringSpan }
    return s.index
  else
    throw (.thrown (.outOfRange "End of stream reached"))

/-- `read_std_string` copies the bytes it passes over, without the NUL. -/
def readStdString : StreamM CxxString := do
  let s ← get
  if s.index < s.dataSize then
    set { s with index := s.index + s.stringSpan }
    return cStr s.unread
  else
    throw (.thrown (.outOfRange "End of stream reached"))

/-- `std::string(const char*)`: the scan for the terminator is bounded by nothing but the
memory it runs over. -/
def stdString (pointer : ℕ) : StreamM CxxString := do
  let s ← get
  if 0 ∈ s.data.drop pointer then
    return cStr (s.data.drop pointer)
  else
    throw (.undefined .readPastBlock)

/-- `const std::string x = buf.read_string();` -/
def readStringCopy : StreamM CxxString := do
  stdString (← readString)

/-- The sum is a `size_t`: a large enough argument wraps round and moves the index back. -/
def skipBytes (bytesToSkip : ℕ) : StreamM Unit := do
  let s ← get
  let target := (s.index + bytesToSkip) % 2 ^ 64
  if target ≤ s.dataSize then
    set { s with index := target }
  else
    throw (.thrown (.outOfRange "Cannot skip more bytes than available"))

def markPosition : StreamM Unit := modify fun s => { s with mark := some s.index }

def reset : StreamM Unit := do
  let s ← get
  match s.mark with
  | some mark => set { s with index := mark, mark := none }
  | none => throw (.thrown (.runtimeError "No mark has been set"))

/-- `memmove(data + target, data + source, count)` inside one block. -/
def memmove (data : List UInt8) (target source count : ℕ) : List UInt8 :=
  data.take target ++ (data.drop source).take count ++ data.drop (target + count)

/-- The bytes from `index` on move down to the mark. With the three positions out of order the
unsigned differences wrap and the move leaves the block. -/
def deleteMarkedBlock : StreamM Unit := do
  let s ← get
  match s.mark with
  | some mark =>
    if h : mark ≤ s.index ∧ s.index ≤ s.dataSize then
      set { s with
        data := memmove s.data mark s.index (s.dataSize - s.index)
        dataSize := s.dataSize - (s.index - mark)
        index := mark
        mark := none
        size_le := by
          have hsize := s.size_le
          simp only [memmove, List.length_append, List.length_take, List.length_drop]
          omega }
    else
      throw (.undefined .overlappingMove)
  | none => throw (.thrown (.runtimeError "No mark has been set"))

theorem memmove_length {data : List UInt8} {target source count : ℕ}
    (htarget : target ≤ data.length) (hsource : source + count ≤ data.length)
    (hroom : target + count ≤ data.length) :
    (memmove data target source count).length = data.length := by
  simp only [memmove, List.length_append, List.length_take, List.length_drop]
  omega

/-- `data_size` has already lost the marked bytes when the argument is checked. With the three
positions out of order the unsigned differences wrap, as in `deleteMarkedBlock`. -/
def deleteBytesFromMark (bytesToDelete : ℕ) : StreamM Unit := do
  let s ← get
  match s.mark with
  | some mark =>
    if h : mark ≤ s.index ∧ s.index ≤ s.dataSize then
      let bytesToMove := s.dataSize - s.index
      set { s with
        dataSize := s.dataSize - (s.index - mark)
        size_le := le_trans (Nat.sub_le _ _) s.size_le }
      if hfew : bytesToDelete > bytesToMove then
        throw (.thrown (.runtimeError
          "Cannot delete more bytes than available from mark position"))
      else
        set { s with
          data := memmove s.data mark (s.index + bytesToDelete) (bytesToMove - bytesToDelete)
          dataSize := s.dataSize - (s.index - mark) - bytesToDelete
          index := mark
          mark := none
          size_le := by
            have hsize := s.size_le
            rw [memmove_length (by omega) (by omega) (by omega)]
            omega }
    else
      throw (.undefined .overlappingMove)
  | none => throw (.thrown (.runtimeError "No mark has been set"))

/-- `data_size - index`, which wraps when the index is behind the end of the stream. -/
def bytesToCopy (s : BasicStream) : ℕ :=
  if s.index ≤ s.dataSize then s.dataSize - s.index else s.dataSize + 2 ^ 64 - s.index

/-- With the index behind the end of the stream the move leaves the block. -/
def deleteBytesFromIndex (bytesToDelete : ℕ) : StreamM Unit := do
  let s ← get
  if hfew : bytesToDelete > s.bytesToCopy then
    throw (.thrown (.runtimeError
      "Cannot delete more bytes than available from current position"))
  else if h : s.index ≤ s.dataSize then
    set { s with
      data := memmove s.data s.index (s.index + bytesToDelete) (s.bytesToCopy - bytesToDelete)
      dataSize := s.dataSize - bytesToDelete
      size_le := by
        have hsize := s.size_le
        have hcopy : s.bytesToCopy = s.dataSize - s.index := if_pos h
        rw [memmove_length (by omega) (by omega) (by omega)]
        omega }
  else
    throw (.undefined .overlappingMove)

/-- A store into the block. Past `dataSize` the memory is not the stream's. -/
def store (position : ℕ) (byte : UInt8) : StreamM Unit := do
  let s ← get
  if position < s.dataSize then
    set { s with
      data := s.data.set position byte
      size_le := by simpa using s.size_le }
  else
    throw (.undefined .writePastEnd)

/-- `data[index++] = byte`. -/
def put (byte : UInt8) : StreamM Unit := do
  let s ← get
  store s.index byte
  modify fun s => { s with index := s.index + 1 }

/-- The block grows by the bytes asked for, not by the bytes missing. The added storage is
unset; the writers below fill what they send. -/
def ensureCapacity (additionalBytes : ℕ) : StreamM Unit := do
  let s ← get
  if s.index + additionalBytes ≤ s.dataSize then
    return
  else
    set { s with
      data := s.data.take s.dataSize ++ List.replicate additionalBytes 0
      dataSize := s.dataSize + additionalBytes
      size_le := by simp [Nat.min_eq_left s.size_le] }

/-- The fixed-width writers: make room, then store the low `n` bytes of the value. -/
def writeBytes (n : ℕ) (value : ℤ) : StreamM Unit := do
  ensureCapacity n
  (beBytes n value).forM put

def writeByte (value : ℤ) : StreamM Unit := writeBytes 1 value

def writeShort (value : ℤ) : StreamM Unit := writeBytes 2 value

def write3Byte (value : ℤ) : StreamM Unit := writeBytes 3 value

def writeInt (value : ℤ) : StreamM Unit := writeBytes 4 value

def writeQWord (value : ℤ) : StreamM Unit := writeBytes 8 value

/-- The one writer that does not ask for capacity. -/
def writeString (s : CxxString) : StreamM Unit := (cStr s ++ [0]).forM put

def frameStackSize : ℕ := 100

def createFrame (id : ℤ) : StreamM Unit := (beBytes 1 id).forM put

/-- With a full stack the frame is opened on the wire but not recorded. -/
def pushFrame : StreamM Unit :=
  modify fun s =>
    if s.frameStack.length ≥ frameStackSize then s
    else { s with frameStack := toInt32 s.index :: s.frameStack }

def createFrameVarSize (id : ℤ) : StreamM Unit := do
  ensureCapacity 2
  writeByte id
  writeByte 0
  pushFrame

def createFrameVarSizeWord (id : ℤ) : StreamM Unit := do
  ensureCapacity 3
  writeByte id
  writeShort 0
  pushFrame

/-- Closing a frame stores the `width` low bytes of its size in front of its first byte. -/
def closeFrame (width : ℕ) : StreamM Unit := do
  let s ← get
  match s.frameStack with
  | [] => return
  | start :: rest =>
    if width ≤ start then
      let size := beBytes width (s.index - start)
      (size.zipIdx (start.toNat - width)).forM fun (byte, position) => store position byte
      modify fun s => { s with frameStack := rest }
    else
      throw (.undefined .writePastEnd)

def endFrameVarSize : StreamM Unit := closeFrame 1

def endFrameVarSizeWord : StreamM Unit := closeFrame 2

/-- `bit_mask_out[n]`. -/
def bitMaskOut (n : ℕ) : BitVec 32 := 1#32 <<< n - 1

/-- What `write_bits` does to one byte: the bits under the mask are replaced. -/
structure Patch where
  bytePos : ℤ
  mask : BitVec 32
  bits : BitVec 32

/-- `data[byte_pos] &= ~mask` and `data[byte_pos] |= bits`, computed in `int`s. -/
def Patch.apply (p : Patch) (byte : UInt8) : UInt8 :=
  let cleared := (byte.toBitVec.signExtend 32 &&& ~~~p.mask).setWidth 8
  ⟨(cleared.signExtend 32 ||| p.bits).setWidth 8⟩

/-- The bytes `write_bits` goes through, with `bitOffset` bits of the current byte still to be
written; from the second byte on these are all eight. -/
def patches (value : BitVec 32) (bytePos : ℤ) (bitOffset numBits : ℕ) : List Patch :=
  if numBits > bitOffset ∧ 0 < bitOffset then
    ⟨bytePos, bitMaskOut bitOffset,
      value.sshiftRight (numBits - bitOffset) &&& bitMaskOut bitOffset⟩ ::
      patches value (bytePos + 1) 8 (numBits - bitOffset)
  else if numBits = bitOffset then
    [⟨bytePos, bitMaskOut bitOffset, value &&& bitMaskOut bitOffset⟩]
  else
    [⟨bytePos, bitMaskOut numBits <<< (bitOffset - numBits),
      (value &&& bitMaskOut numBits) <<< (bitOffset - numBits)⟩]
termination_by numBits

def storePatch (p : Patch) : StreamM Unit := do
  let s ← get
  if 0 ≤ p.bytePos then
    store p.bytePos.toNat (p.apply (s.data.getD p.bytePos.toNat 0))
  else
    throw (.undefined .writePastEnd)

def initBitAccess : StreamM Unit := modify fun s => { s with bitPosition := toInt32 (s.index * 8) }

/-- For up to 32 bits; the source shifts an `int`, and there are no masks for more. -/
def writeBits (numBits : ℕ) (value : BitVec 32) : StreamM Unit := do
  let s ← get
  let bitOffset := 8 - (s.bitPosition % 8).toNat
  set { s with bitPosition := toInt32 (s.bitPosition + numBits) }
  (patches value (s.bitPosition / 8) bitOffset numBits).forM storePatch

/-- The sum is an `int`, the index a `size_t`. -/
def finishBitAccess : StreamM Unit :=
  modify fun s => { s with index := ((toInt32 (s.bitPosition + 7)).tdiv 8 % 2 ^ 64).toNat }

/-- The bytes `write` hands to `send_data`. -/
def written (s : BasicStream) : List UInt8 := s.data.take s.index

/-- `clear` zeroes the stream's own bytes and gives them up; the open frames stay recorded. -/
def clear (s : BasicStream) : BasicStream :=
  { s with
    data := List.replicate s.dataSize 0 ++ s.data.drop s.dataSize
    index := 0
    dataSize := 0
    mark := none
    bitPosition := 0
    size_le := Nat.zero_le _ }

end BasicStream

end Win64Server
