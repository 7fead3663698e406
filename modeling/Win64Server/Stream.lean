import Win64Server.BasicStream

/-!
The older byte stream. It works on a block that it never replaces, with `int` offsets and without
a bounds check of its own: an access outside the block is undefined.
-/
namespace Win64Server

/-- `frameStack` holds the open frames, innermost first. -/
structure Stream where
  buffer : List UInt8
  currentOffset : ℤ
  bitPosition : ℤ
  frameStack : List ℤ

abbrev RawM := EStateM Fault Stream

namespace Stream

/-- `Stream(char*, std::size_t)`, which does not set `bitPosition`. -/
def around (block : List UInt8) (unset : ℤ) : Stream where
  buffer := block
  currentOffset := 0
  bitPosition := unset
  frameStack := []

def store (position : ℤ) (byte : UInt8) : RawM Unit := do
  let s ← get
  if 0 ≤ position ∧ position < s.buffer.length then
    set { s with buffer := s.buffer.set position.toNat byte }
  else
    throw (.undefined .writePastEnd)

/-- `buffer[position] & 0xff`. -/
def load (position : ℤ) : RawM ℤ := do
  let s ← get
  if 0 ≤ position ∧ position < s.buffer.length then
    return (s.buffer.getD position.toNat 0).toNat
  else
    throw (.undefined .readPastBlock)

/-- `currentOffset += n`. -/
def advance (n : ℤ) : RawM Unit :=
  modify fun s => { s with currentOffset := toInt32 (s.currentOffset + n) }

/-- `buffer[currentOffset++] = byte`. -/
def put (byte : UInt8) : RawM Unit := do
  let s ← get
  store s.currentOffset byte
  advance 1

def writeByte (i : ℤ) : RawM Unit := put (toChar i)

/-- The sum is an `int`, which wraps. -/
def writeByteA (i : ℤ) : RawM Unit := put (toChar (toInt32 (i + 128)))

def writeByteC (i : ℤ) : RawM Unit := put (toChar (toInt32 (-i)))

def writeByteS (i : ℤ) : RawM Unit := put (toChar (toInt32 (128 - i)))

/-- `abyte0[k]`, a signed `char`. -/
def element (abyte0 : List UInt8) (k : ℤ) : RawM ℤ :=
  if 0 ≤ k ∧ k < abyte0.length then return toInt8 (abyte0.getD k.toNat 0).toNat
  else throw (.undefined .indexPastArray)

/-- `abyte0[k] = byte`. -/
def setElement (abyte0 : List UInt8) (k : ℤ) (byte : UInt8) : RawM (List UInt8) :=
  if 0 ≤ k ∧ k < abyte0.length then return abyte0.set k.toNat byte
  else throw (.undefined .indexPastArray)

/-- So many positions, one step apart. -/
def positions (step : ℤ) : ℕ → ℤ → List ℤ
  | 0, _ => []
  | n + 1, k => k :: positions step n (k + step)

/-- `for (int k = j; k < j + i; k++)`. -/
def upwards (i j : ℤ) : List ℤ := positions 1 (toInt32 (j + i) - j).toNat j

/-- `for (int k = (j + i) - 1; k >= j; k--)`. -/
def downwards (i j : ℤ) : List ℤ :=
  let first := toInt32 (toInt32 (j + i) - 1)
  positions (-1) (first - j + 1).toNat first

/-- `buffer[currentOffset++] = (char)(abyte0[k] + plus)` for each `k`. -/
def putElements (plus : ℤ) (abyte0 : List UInt8) (ks : List ℤ) : RawM Unit :=
  ks.forM fun k => do
    let c ← element abyte0 k
    put (toChar (c + plus))

def writeBytes (abyte0 : List UInt8) (i j : ℤ) : RawM Unit :=
  putElements 0 abyte0 (upwards i j)

def writeBytesReverse (abyte0 : List UInt8) (i j : ℤ) : RawM Unit :=
  putElements 0 abyte0 (downwards i j)

def writeBytesReverseA (abyte0 : List UInt8) (i j : ℤ) : RawM Unit :=
  putElements 128 abyte0 (downwards i j)

def writeWord (i : ℤ) : RawM Unit := do
  put (toChar (i >>> (8 : ℕ)))
  put (toChar i)

def writeWordA (i : ℤ) : RawM Unit := do
  put (toChar (i >>> (8 : ℕ)))
  put (toChar (toInt32 (i + 128)))

def writeWordBigEndian (i : ℤ) : RawM Unit := do
  put (toChar i)
  put (toChar (i >>> (8 : ℕ)))

def writeWordBigEndianA (i : ℤ) : RawM Unit := do
  put (toChar (toInt32 (i + 128)))
  put (toChar (i >>> (8 : ℕ)))

def write3Byte (i : ℤ) : RawM Unit := do
  put (toChar (i >>> (16 : ℕ)))
  put (toChar (i >>> (8 : ℕ)))
  put (toChar i)

def writeDWord (i : ℤ) : RawM Unit := do
  put (toChar (i >>> (24 : ℕ)))
  put (toChar (i >>> (16 : ℕ)))
  put (toChar (i >>> (8 : ℕ)))
  put (toChar i)

def writeDWordV1 (i : ℤ) : RawM Unit := do
  put (toChar (i >>> (8 : ℕ)))
  put (toChar i)
  put (toChar (i >>> (24 : ℕ)))
  put (toChar (i >>> (16 : ℕ)))

def writeDWordV2 (i : ℤ) : RawM Unit := do
  put (toChar (i >>> (16 : ℕ)))
  put (toChar (i >>> (24 : ℕ)))
  put (toChar i)
  put (toChar (i >>> (8 : ℕ)))

/-- The argument is an `unsigned __int64`. -/
def writeQWord (l : ℤ) : RawM Unit := do
  let l := l % 2 ^ 64
  put (toChar (l >>> (56 : ℕ)))
  put (toChar (l >>> (48 : ℕ)))
  put (toChar (l >>> (40 : ℕ)))
  put (toChar (l >>> (32 : ℕ)))
  put (toChar (l >>> (24 : ℕ)))
  put (toChar (l >>> (16 : ℕ)))
  put (toChar (l >>> (8 : ℕ)))
  put (toChar l)

def writeString (s : CxxString) : RawM Unit := (cStr s ++ [0]).forM put

def frameStackSize : ℕ := 10

def createFrame (id : ℤ) : RawM Unit := put (toChar id)

/-- With a full stack the frame is opened on the wire but not recorded. -/
def pushFrame : RawM Unit :=
  modify fun s =>
    if s.frameStack.length ≥ frameStackSize then s
    else { s with frameStack := s.currentOffset :: s.frameStack }

def createFrameVarSize (id : ℤ) : RawM Unit := do
  put (toChar id)
  put 0
  pushFrame

def createFrameVarSizeWord (id : ℤ) : RawM Unit := do
  put (toChar id)
  writeWord 0
  pushFrame

def writeFrameSize (i : ℤ) : RawM Unit := do
  let s ← get
  store (toInt32 (s.currentOffset - i - 1)) (toChar i)

def writeFrameSizeWord (i : ℤ) : RawM Unit := do
  let s ← get
  store (toInt32 (s.currentOffset - i - 2)) (toChar (i >>> (8 : ℕ)))
  store (toInt32 (s.currentOffset - i - 1)) (toChar i)

/-- `frameStack[frameStackPtr--]`, with nothing done when the stack is empty. -/
def popFrame (writeSize : ℤ → RawM Unit) : RawM Unit := do
  let s ← get
  match s.frameStack with
  | [] => return
  | start :: rest =>
    set { s with frameStack := rest }
    writeSize (toInt32 (s.currentOffset - start))

def endFrameVarSize : RawM Unit := popFrame writeFrameSize

def endFrameVarSizeWord : RawM Unit := popFrame writeFrameSizeWord

def initBitAccess : RawM Unit :=
  modify fun s => { s with bitPosition := toInt32 (s.currentOffset * 8) }

/-- A read and a store of one byte, as in the newer stream. -/
def storePatch (p : BasicStream.Patch) : RawM Unit := do
  let byte ← load p.bytePos
  store p.bytePos (p.apply (toChar byte))

def writeBits (numBits : ℕ) (value : BitVec 32) : RawM Unit := do
  let s ← get
  let bitOffset := 8 - (s.bitPosition % 8).toNat
  set { s with bitPosition := toInt32 (s.bitPosition + numBits) }
  (BasicStream.patches value (s.bitPosition / 8) bitOffset numBits).forM storePatch

def finishBitAccess : RawM Unit :=
  modify fun s => { s with currentOffset := (toInt32 (s.bitPosition + 7)).tdiv 8 }

def readUnsignedByte : RawM ℤ := do
  let s ← get
  let byte ← load s.currentOffset
  advance 1
  return byte

/-- `buffer[position]`, a signed `char`. -/
def loadChar (position : ℤ) : RawM ℤ := toInt8 <$> load position

/-- `buffer[currentOffset++]`. -/
def next : RawM ℤ := do
  let s ← get
  let c ← loadChar s.currentOffset
  advance 1
  return c

def readUnsignedByteA : RawM ℤ := (fun c => (c - 128) % 256) <$> next

def readUnsignedByteC : RawM ℤ := (fun c => -c % 256) <$> next

def readUnsignedByteS : RawM ℤ := (fun c => (128 - c) % 256) <$> next

def readSignedByte : RawM ℤ := next

def readSignedByteA : RawM ℤ := (fun c => toInt8 (c - 128)) <$> next

def readSignedByteC : RawM ℤ := (fun c => toInt8 (-c)) <$> next

def readSignedByteS : RawM ℤ := (fun c => toInt8 (128 - c)) <$> next

/-- `abyte0[k] = (char)(buffer[currentOffset++] - minus)` for each `k`. Returns the array. -/
def takeElements (minus : ℤ) (abyte0 : List UInt8) (ks : List ℤ) : RawM (List UInt8) :=
  ks.foldlM (fun abyte0 k => do
    let c ← next
    setElement abyte0 k (toChar (c - minus))) abyte0

def readBytes (abyte0 : List UInt8) (i j : ℤ) : RawM (List UInt8) :=
  takeElements 0 abyte0 (upwards i j)

def readBytesReverse (abyte0 : List UInt8) (i j : ℤ) : RawM (List UInt8) :=
  takeElements 0 abyte0 (downwards i j)

def readBytesReverseA (abyte0 : List UInt8) (i j : ℤ) : RawM (List UInt8) :=
  takeElements 128 abyte0 (downwards i j)

def readUnsignedWord : RawM ℤ := do
  advance 2
  let s ← get
  let high ← load (s.currentOffset - 2)
  let low ← load (s.currentOffset - 1)
  return high * 2 ^ 8 + low

/-- The high and the low byte stand so far in front of the new offset. -/
def readWordAt (high low minus : ℤ) : RawM ℤ := do
  advance 2
  let s ← get
  let highByte ← load (s.currentOffset - high)
  let lowByte ← loadChar (s.currentOffset - low)
  return highByte * 2 ^ 8 + (lowByte - minus) % 256

def readUnsignedWordA : RawM ℤ := readWordAt 2 1 128

def readUnsignedWordBigEndian : RawM ℤ := readWordAt 1 2 0

def readUnsignedWordBigEndianA : RawM ℤ := readWordAt 1 2 128

/-- `if (i > 32767) i -= 0x10000`. -/
def signedWord (i : ℤ) : ℤ := if i > 32767 then i - 65536 else i

def readSignedWord : RawM ℤ := signedWord <$> readUnsignedWord

def readSignedWordA : RawM ℤ := signedWord <$> readWordAt 2 1 128

def readSignedWordBigEndian : RawM ℤ := signedWord <$> readWordAt 1 2 0

def readSignedWordBigEndianA : RawM ℤ := signedWord <$> readWordAt 1 2 128

def read3Byte : RawM ℤ := do
  advance 3
  let s ← get
  let high ← load (s.currentOffset - 3)
  let middle ← load (s.currentOffset - 2)
  let low ← load (s.currentOffset - 1)
  let i := high * 2 ^ 16 + middle * 2 ^ 8 + low
  return if i > 8388607 then i - 16777216 else i

/-- The sum is an `int`, the result an `unsigned int`. -/
def readDWord : RawM ℤ := do
  advance 4
  let s ← get
  let first ← load (s.currentOffset - 4)
  let second ← load (s.currentOffset - 3)
  let third ← load (s.currentOffset - 2)
  let fourth ← load (s.currentOffset - 1)
  return toInt32 (first * 2 ^ 24 + second * 2 ^ 16 + third * 2 ^ 8 + fourth) % 2 ^ 32

/-- The bytes, highest first, stand so far in front of the new offset. -/
def readDWordAt (first second third fourth : ℤ) : RawM ℤ := do
  advance 4
  let s ← get
  let firstByte ← load (s.currentOffset - first)
  let secondByte ← load (s.currentOffset - second)
  let thirdByte ← load (s.currentOffset - third)
  let fourthByte ← load (s.currentOffset - fourth)
  return toInt32 (firstByte * 2 ^ 24 + secondByte * 2 ^ 16 + thirdByte * 2 ^ 8 + fourthByte)

def readDWordV1 : RawM ℤ := readDWordAt 2 1 4 3

def readDWordV2 : RawM ℤ := readDWordAt 3 4 1 2

/-- `((__int64)dw1 << 32) | (__int64)dw2` as an `unsigned __int64`. -/
def readQWord : RawM ℤ := do
  let dw1 ← readDWord
  let dw2 ← readDWord
  return ((dw1.toNat <<< 32 ||| dw2.toNat : ℕ) : ℤ) % 2 ^ 64

/-- With so many rounds left until `count` is 5000. The last byte read goes into `output` only when
there is a round left and it is not a NUL. -/
def readStringFrom : ℕ → List UInt8 → ℤ → RawM (List UInt8)
  | 0, output, outputOffset => do
    let _ ← readUnsignedByte
    setElement output outputOffset 0
  | rounds + 1, output, outputOffset => do
    let b ← readUnsignedByte
    if b = 0 then setElement output outputOffset 0
    else
      let output ← setElement output outputOffset (toChar b)
      readStringFrom rounds output (outputOffset + 1)

/-- What `output` is after the read. -/
def readString (output : List UInt8) : RawM (List UInt8) := readStringFrom 5000 output 0

end Stream

end Win64Server
