import Win64Server.BitAccess
import Win64Server.StreamReading
import Win64Server.StreamWriting
import Win64Server.Stream
import Win64Server.Library.Simulation

/-!
Both byte streams write and read the same bytes. The two are run side by side on equal blocks; they
stay in step as long as the block is large enough, whatever is written and however frames and bit
sections are interleaved. The newer stream keeps its offset in a `size_t` and its bit position in
an `int`, the older one keeps both in an `int`.
-/
namespace Win64Server.StreamAgreement

open Outcome

/-- A call that both streams offer. -/
inductive Call
  | byte (value : ℤ)
  | word (value : ℤ)
  | threeByte (value : ℤ)
  | dword (value : ℤ)
  | qword (value : ℤ)
  | string (s : CxxString)
  | frame (id : ℤ)
  | frameVarSize (id : ℤ)
  | frameVarSizeWord (id : ℤ)
  | endFrameVarSize
  | endFrameVarSizeWord
  | initBits
  | bits (numBits : ℕ) (value : BitVec 32)
  | finishBits

/-- Where both streams are: the offset, how many frames are open, and the bit position when a bit
section is open. -/
structure Place where
  offset : ℕ
  opened : ℕ
  position : Option ℕ

def Place.forward (place : Place) (n : ℕ) : Place := { place with offset := place.offset + n }

def Place.start : Place := ⟨0, 0, none⟩

namespace Call

def onBasic : Call → StreamM Unit
  | byte value => BasicStream.writeByte value
  | word value => BasicStream.writeShort value
  | threeByte value => BasicStream.write3Byte value
  | dword value => BasicStream.writeInt value
  | qword value => BasicStream.writeQWord value
  | string s => BasicStream.writeString s
  | frame id => BasicStream.createFrame id
  | frameVarSize id => BasicStream.createFrameVarSize id
  | frameVarSizeWord id => BasicStream.createFrameVarSizeWord id
  | endFrameVarSize => BasicStream.endFrameVarSize
  | endFrameVarSizeWord => BasicStream.endFrameVarSizeWord
  | initBits => BasicStream.initBitAccess
  | bits numBits value => BasicStream.writeBits numBits value
  | finishBits => BasicStream.finishBitAccess

def onStream : Call → RawM Unit
  | byte value => Stream.writeByte value
  | word value => Stream.writeWord value
  | threeByte value => Stream.write3Byte value
  | dword value => Stream.writeDWord value
  | qword value => Stream.writeQWord value
  | string s => Stream.writeString s
  | frame id => Stream.createFrame id
  | frameVarSize id => Stream.createFrameVarSize id
  | frameVarSizeWord id => Stream.createFrameVarSizeWord id
  | endFrameVarSize => Stream.endFrameVarSize
  | endFrameVarSizeWord => Stream.endFrameVarSizeWord
  | initBits => Stream.initBitAccess
  | bits numBits value => Stream.writeBits numBits value
  | finishBits => Stream.finishBitAccess

/-- The bytes a call stores at the offset. -/
def size : Call → ℕ
  | byte _ => 1
  | word _ => 2
  | threeByte _ => 3
  | dword _ => 4
  | qword _ => 8
  | string s => (cStr s).length + 1
  | frame _ => 1
  | frameVarSize _ => 2
  | frameVarSizeWord _ => 3
  | _ => 0

def next (place : Place) : Call → Place
  | frameVarSize _ => { place.forward 2 with opened := place.opened + 1 }
  | frameVarSizeWord _ => { place.forward 3 with opened := place.opened + 1 }
  | endFrameVarSize => { place with opened := place.opened - 1 }
  | endFrameVarSizeWord => { place with opened := place.opened - 1 }
  | initBits => { place with position := some (8 * place.offset) }
  | bits numBits _ => { place with position := place.position.map (· + numBits) }
  | finishBits =>
    { place with
      offset := place.position.elim place.offset fun position => (position + 7) / 8
      position := none }
  | call => place.forward call.size

/-- The block has room for the call, at most ten frames are open, and bits are written in a
section. -/
def Room (n : ℕ) (place : Place) : Call → Prop
  | frameVarSize _ => place.opened < 10 ∧ place.offset + 2 ≤ n
  | frameVarSizeWord _ => place.opened < 10 ∧ place.offset + 3 ≤ n
  | bits numBits _ =>
    1 ≤ numBits ∧ numBits ≤ 32 ∧ ∃ position ∈ place.position, position + numBits ≤ 8 * n
  | finishBits => place.position.isSome
  | call => place.offset + call.size ≤ n

/-- The bit positions are `int`s, also while they are rounded up. -/
def Narrow (place : Place) : Call → Prop
  | initBits => 8 * place.offset < 2 ^ 31
  | bits numBits _ => ∀ position ∈ place.position, position + numBits < 2 ^ 31
  | finishBits => ∀ position ∈ place.position, position + 7 < 2 ^ 31
  | _ => True

/-- Every call of a sequence is made at a place that suits it. -/
def Each (P : Place → Call → Prop) : Place → List Call → Prop
  | _, [] => True
  | place, call :: calls => P place call ∧ Each P (call.next place) calls

end Call

/-- Both streams hold the same block of `n` bytes and are at the same place. -/
structure Agree (n : ℕ) (place : Place) (s : BasicStream) (t : Stream) : Prop where
  bytes : t.buffer = s.data
  dataSize : s.dataSize = n
  length : s.data.length = n
  index : s.index = place.offset
  offset : t.currentOffset = place.offset
  within : place.offset ≤ n
  frames : t.frameStack = s.frameStack
  opened : s.frameStack.length = place.opened
  starts : ∀ start ∈ s.frameStack, 2 ≤ start ∧ start ≤ n
  bits : ∀ position ∈ place.position,
    s.bitPosition = position ∧ t.bitPosition = position ∧ position ≤ 8 * n

/-- A relation that says that the blocks are equal and survives when a byte is replaced in both. -/
structure Steady (n : ℕ) (R : BasicStream → Stream → Prop) : Prop where
  bytes : ∀ {s t}, R s t → t.buffer = s.data
  dataSize : ∀ {s t}, R s t → s.dataSize = n
  length : ∀ {s t}, R s t → s.data.length = n
  keeps : ∀ {s t}, R s t → ∀ position byte,
    R { s with
        data := s.data.set position byte
        size_le := by simpa using s.size_le }
      { t with buffer := t.buffer.set position byte }

theorem steady_agree (n : ℕ) (place : Place) : Steady n (Agree n place) where
  bytes h := h.bytes
  dataSize h := h.dataSize
  length h := h.length
  keeps h _ _ := { h with
    bytes := by rw [h.bytes]
    length := by rw [List.length_set]; exact h.length }

section Stores

variable {n : ℕ} {place : Place}

theorem simulates_store {R : BasicStream → Stream → Prop} (hR : Steady n R) (position : ℕ)
    (hposition : position < n) (byte : UInt8) :
    Simulates R R (BasicStream.store position byte) (Stream.store position byte) := by
  intro s t h
  have hsize : position < s.dataSize := by rw [hR.dataSize h]; exact hposition
  have hbuffer : position < t.buffer.length := by rw [hR.bytes h, hR.length h]; exact hposition
  refine ⟨{ s with
      data := s.data.set position byte
      size_le := by simpa using s.size_le },
    { t with buffer := t.buffer.set position byte }, ?_, ?_, hR.keeps h position byte⟩
  · simp only [BasicStream.store, EStateM.run_bind, EStateM.run_get, if_pos hsize]
    rfl
  · have hrange : (0 : ℤ) ≤ position ∧ (position : ℤ) < t.buffer.length := by omega
    simp only [Stream.store, EStateM.run_bind, EStateM.run_get, if_pos hrange, Int.toNat_natCast]
    rfl

theorem simulates_put (hn : n < 2 ^ 31) (hroom : place.offset < n) (byte : UInt8) :
    Simulates (Agree n place) (Agree n (place.forward 1)) (BasicStream.put byte)
      (Stream.put byte) := by
  intro s t h
  obtain ⟨s', t', hrun, hrun', h'⟩ := simulates_store (steady_agree n place) _ hroom byte s t h
  refine ⟨{ s' with index := s'.index + 1 },
    { t' with currentOffset := toInt32 (t'.currentOffset + 1) }, ?_, ?_, ?_⟩
  · rw [← h.index] at hrun
    simp only [BasicStream.put, EStateM.run_bind, EStateM.run_get, hrun]
    rfl
  · rw [← h.offset] at hrun'
    simp only [Stream.put, EStateM.run_bind, EStateM.run_get, hrun']
    rfl
  · exact { h' with
      index := by rw [h'.index]; rfl
      offset := by
        rw [h'.offset, toInt32_of_lt (by omega) (by omega)]
        rfl
      within := hroom }

/-- The bytes go to the same places. -/
theorem simulates_puts (place : Place) (hn : n < 2 ^ 31) (bytes : List UInt8)
    (hroom : place.offset + bytes.length ≤ n) :
    Simulates (Agree n place) (Agree n (place.forward bytes.length))
      (bytes.forM BasicStream.put) (bytes.forM Stream.put) := by
  induction bytes generalizing place with
  | nil => exact .pure
  | cons byte bytes ih =>
    rw [List.length_cons] at hroom
    have hrest := ih (place.forward 1) (by simp only [Place.forward]; omega)
    have hplace : (place.forward 1).forward bytes.length =
        place.forward (bytes.length + 1) := by
      simp only [Place.forward, Nat.add_assoc, Nat.add_comm 1]
    rw [hplace] at hrest
    simp only [List.forM_eq_forM, List.forM_cons] at hrest ⊢
    exact (simulates_put hn (by omega) byte).bind hrest

/-- With enough room the block stays where it is. -/
theorem ensureCapacity_room {m : ℕ} (hroom : place.offset + m ≤ n) {s : BasicStream} {t : Stream}
    (h : Agree n place s t) : (BasicStream.ensureCapacity m).run s = .ok () s := by
  have hle : s.index + m ≤ s.dataSize := by
    rw [h.index, h.dataSize]
    exact hroom
  simp only [BasicStream.ensureCapacity, EStateM.run_bind, EStateM.run_get, if_pos hle]
  rfl

/-- The fixed-width writers of the newer stream, next to the same bytes put one by one. -/
theorem simulates_writeBytes (place : Place) (hn : n < 2 ^ 31) (m : ℕ) (value : ℤ)
    (hroom : place.offset + m ≤ n) :
    Simulates (Agree n place) (Agree n (place.forward m)) (BasicStream.writeBytes m value)
      ((beBytes m value).forM Stream.put) := by
  have hputs := simulates_puts place hn (beBytes m value) (by rwa [beBytes_length])
  rw [beBytes_length] at hputs
  exact .bind_left (fun s t h => ensureCapacity_room hroom h) hputs

end Stores

section Writers

theorem toChar_congr {x y : ℤ} (h : x % 256 = y % 256) : toChar x = toChar y := by
  rw [toChar, toChar, h]

theorem writeByte_eq (i : ℤ) : Stream.writeByte i = (beBytes 1 i).forM Stream.put := by
  simp [Stream.writeByte, beBytes]

theorem writeWord_eq (i : ℤ) : Stream.writeWord i = (beBytes 2 i).forM Stream.put := by
  simp [Stream.writeWord, beBytes, Int.shiftRight_eq_div_pow]

theorem write3Byte_eq (i : ℤ) : Stream.write3Byte i = (beBytes 3 i).forM Stream.put := by
  have h : i / 256 / 256 = i / 65536 := by omega
  simp [Stream.write3Byte, beBytes, Int.shiftRight_eq_div_pow, h]

theorem writeDWord_eq (i : ℤ) : Stream.writeDWord i = (beBytes 4 i).forM Stream.put := by
  have h : i / 256 / 256 = i / 65536 := by omega
  have h' : i / 65536 / 256 = i / 16777216 := by omega
  simp [Stream.writeDWord, beBytes, Int.shiftRight_eq_div_pow, h, h']

/-- Where a byte of the number stands does not depend on its sign. -/
theorem writeQWord_eq (l : ℤ) : Stream.writeQWord l = (beBytes 8 l).forM Stream.put := by
  have hbytes : beBytes 8 l =
      [56, 48, 40, 32, 24, 16, 8, 0].map fun k : ℕ => toChar ((l % 2 ^ 64) >>> k) := by
    simp only [beBytes, List.nil_append, List.cons_append, List.map_cons, List.map_nil,
      Int.shiftRight_eq_div_pow, List.cons.injEq, and_true]
    refine ⟨?_, ?_, ?_, ?_, ?_, ?_, ?_, ?_⟩ <;> exact toChar_congr (by omega)
  rw [hbytes]
  simp [Stream.writeQWord]

end Writers

section Frames

variable {n : ℕ} {place : Place}

/-- The header of either kind of frame, as the older stream writes it. -/
def openFrame (width : ℕ) (id : ℤ) : RawM Unit := do
  (beBytes 1 id).forM Stream.put
  (beBytes width 0).forM Stream.put
  Stream.pushFrame

theorem createFrameVarSize_eq (id : ℤ) : Stream.createFrameVarSize id = openFrame 1 id := by
  rw [openFrame, ← writeByte_eq, ← writeByte_eq]
  rfl

theorem createFrameVarSizeWord_eq (id : ℤ) :
    Stream.createFrameVarSizeWord id = openFrame 2 id := by
  rw [openFrame, ← writeByte_eq, ← writeWord_eq]
  rfl

/-- Both stacks have room for ten frames. -/
theorem simulates_pushFrame (hn : n < 2 ^ 31) (hopened : place.opened < 10)
    (hoffset : 2 ≤ place.offset) :
    Simulates (Agree n place) (Agree n { place with opened := place.opened + 1 })
      BasicStream.pushFrame Stream.pushFrame := by
  refine .modify fun s t h => ?_
  have hdepth := h.opened
  have hwithin := h.within
  have hbasic : ¬ s.frameStack.length ≥ BasicStream.frameStackSize := by
    unfold BasicStream.frameStackSize
    omega
  have hstream : ¬ t.frameStack.length ≥ Stream.frameStackSize := by
    rw [h.frames]
    unfold Stream.frameStackSize
    omega
  have hindex : toInt32 s.index = place.offset := by
    rw [h.index, toInt32_of_lt (by omega) (by omega)]
  rw [if_neg hbasic, if_neg hstream, hindex]
  exact { h with
    frames := by rw [h.offset, h.frames]
    opened := by rw [List.length_cons, hdepth]
    starts := by
      intro start hstart
      rcases List.mem_cons.mp hstart with rfl | hstart
      · omega
      · exact h.starts start hstart }

/-- A header is written and its end is recorded. -/
theorem simulates_openFrame (hn : n < 2 ^ 31) {width : ℕ} (hwidth : 1 ≤ width) (id : ℤ)
    (hopened : place.opened < 10) (hroom : place.offset + (1 + width) ≤ n) :
    Simulates (Agree n place)
      (Agree n { place.forward (1 + width) with opened := place.opened + 1 })
      (BasicStream.openFrame width id) (openFrame width id) := by
  have hplace : (place.forward 1).forward width = place.forward (1 + width) := by
    simp only [Place.forward, Nat.add_assoc]
  have hsize := simulates_writeBytes (place.forward 1) hn width 0
    (by simp only [Place.forward]; omega)
  rw [hplace] at hsize
  refine .bind_left (fun s t h => ensureCapacity_room hroom h) ?_
  refine (simulates_writeBytes place hn 1 id (by omega)).bind (hsize.bind ?_)
  exact simulates_pushFrame hn hopened (by simp only [Place.forward]; omega)

/-- The older stream has taken a frame off its stack before it stores the size, the newer one takes
it off afterwards. -/
structure Popped (n : ℕ) (place : Place) (start : ℤ) (rest : List ℤ) (s : BasicStream)
    (t : Stream) : Prop where
  agree : Agree n place s { t with frameStack := start :: rest }
  frames : t.frameStack = rest

theorem steady_popped (n : ℕ) (place : Place) (start : ℤ) (rest : List ℤ) :
    Steady n (Popped n place start rest) where
  bytes h := h.agree.bytes
  dataSize h := h.agree.dataSize
  length h := h.agree.length
  keeps h position byte := ⟨(steady_agree n place).keeps h.agree position byte, h.frames⟩

/-- A frame is closed when the sizes are stored alike. -/
theorem simulates_closeFrame {width : ℕ} {writeSize : ℤ → RawM Unit} (hn : n < 2 ^ 31)
    (hwidth : width ≤ 2)
    (hsize : ∀ (start : ℕ) (rest : List ℤ), 2 ≤ start → start ≤ n →
      Simulates (Popped n place start rest) (Popped n place start rest)
        (((beBytes width ((place.offset : ℤ) - start)).zipIdx (start - width)).forM
          fun (byte, position) => BasicStream.store position byte)
        (writeSize ((place.offset : ℤ) - start))) :
    Simulates (Agree n place) (Agree n { place with opened := place.opened - 1 })
      (BasicStream.closeFrame width) (Stream.popFrame writeSize) := by
  intro s t h
  have hdepth := h.opened
  have hwithin := h.within
  cases hframes : s.frameStack with
  | nil =>
    rw [hframes, List.length_nil] at hdepth
    refine ⟨s, t, ?_, ?_, ?_⟩
    · simp only [BasicStream.closeFrame, EStateM.run_bind, EStateM.run_get, hframes]
      rfl
    · simp only [Stream.popFrame, EStateM.run_bind, EStateM.run_get, h.frames, hframes]
      rfl
    · exact { h with
        opened := by
          rw [hframes, List.length_nil, ← hdepth] }
  | cons start rest =>
    obtain ⟨hlow, hhigh⟩ := h.starts start (by rw [hframes]; exact List.mem_cons_self)
    obtain ⟨k, rfl⟩ := Int.eq_ofNat_of_zero_le (by omega : 0 ≤ start)
    have hpopped : Popped n place k rest s { t with frameStack := rest } :=
      ⟨{ h with frames := hframes.symm }, rfl⟩
    obtain ⟨s', t', hrun, hrun', h'⟩ := hsize k rest (by omega) (by omega) s _ hpopped
    refine ⟨{ s' with frameStack := rest }, t', ?_, ?_, ?_⟩
    · have hle : (width : ℤ) ≤ k := by omega
      have hposition : (k : ℤ).toNat - width = k - width := by omega
      simp only [BasicStream.closeFrame, EStateM.run_bind, EStateM.run_get, hframes, hle, ite_true,
        hposition, h.index]
      rw [hrun]
      rfl
    · have hcount : toInt32 (t.currentOffset - k) = (place.offset : ℤ) - k := by
        rw [h.offset]
        exact toInt32_of_lt (by omega) (by omega)
      have hpop : t.frameStack = (k : ℤ) :: rest := h.frames.trans hframes
      rw [Stream.popFrame, run_bind_of_ok (EStateM.run_get ..), hpop]
      dsimp only
      rw [hcount]
      exact hrun'
    · have hstack : s'.frameStack = (k : ℤ) :: rest := h'.agree.frames.symm
      have hopened := h'.agree.opened
      rw [hstack, List.length_cons] at hopened
      exact { h'.agree with
        frames := h'.frames
        opened := by rw [← hopened, Nat.add_sub_cancel]
        starts := fun start hstart => h'.agree.starts start (by
          rw [hstack]
          exact List.mem_cons_of_mem _ hstart) }

/-- In front of the frame's first byte. -/
theorem simulates_writeFrameSize (hn : n < 2 ^ 31) {start : ℕ} (hstart : 1 ≤ start)
    (hle : start ≤ n) (rest : List ℤ) :
    Simulates (Popped n place start rest) (Popped n place start rest)
      (((beBytes 1 ((place.offset : ℤ) - start)).zipIdx (start - 1)).forM
        fun (byte, position) => BasicStream.store position byte)
      (Stream.writeFrameSize ((place.offset : ℤ) - start)) := by
  intro s t h
  have hoffset : t.currentOffset = place.offset := h.agree.offset
  have hposition : toInt32 (t.currentOffset - ((place.offset : ℤ) - start) - 1) =
      ((start - 1 : ℕ) : ℤ) := by
    rw [hoffset, toInt32_of_lt (by omega) (by omega)]
    omega
  obtain ⟨s', t', hrun, hrun', h'⟩ := simulates_store (steady_popped n place start rest) (start - 1)
    (by omega) (toChar ((place.offset : ℤ) - start)) s t h
  refine ⟨s', t', ?_, ?_, h'⟩
  · simpa [beBytes] using hrun
  · rw [Stream.writeFrameSize, run_bind_of_ok (EStateM.run_get ..), hposition]
    exact hrun'

theorem simulates_writeFrameSizeWord (hn : n < 2 ^ 31) {start : ℕ} (hstart : 2 ≤ start)
    (hle : start ≤ n) (rest : List ℤ) :
    Simulates (Popped n place start rest) (Popped n place start rest)
      (((beBytes 2 ((place.offset : ℤ) - start)).zipIdx (start - 2)).forM
        fun (byte, position) => BasicStream.store position byte)
      (Stream.writeFrameSizeWord ((place.offset : ℤ) - start)) := by
  intro s t h
  have hoffset : t.currentOffset = place.offset := h.agree.offset
  have hhigh : toInt32 (t.currentOffset - ((place.offset : ℤ) - start) - 2) =
      ((start - 2 : ℕ) : ℤ) := by
    rw [hoffset, toInt32_of_lt (by omega) (by omega)]
    omega
  have hlow : toInt32 (t.currentOffset - ((place.offset : ℤ) - start) - 1) =
      ((start - 2 + 1 : ℕ) : ℤ) := by
    rw [hoffset, toInt32_of_lt (by omega) (by omega)]
    omega
  have hsteady := steady_popped n place start rest
  obtain ⟨s', t', hrun, hrun', h'⟩ :=
    (simulates_store hsteady (start - 2) (by omega)
      (toChar (((place.offset : ℤ) - start) >>> (8 : ℕ)))).bind
      (f := fun _ => BasicStream.store (start - 2 + 1) (toChar ((place.offset : ℤ) - start)))
      (g := fun _ => Stream.store ((start - 2 + 1 : ℕ) : ℤ) (toChar ((place.offset : ℤ) - start)))
      (simulates_store hsteady (start - 2 + 1) (by omega) _) s t h
  refine ⟨s', t', ?_, ?_, h'⟩
  · simpa [beBytes, Int.shiftRight_eq_div_pow] using hrun
  · rw [Stream.writeFrameSizeWord, run_bind_of_ok (EStateM.run_get ..), hhigh, hlow]
    exact hrun'

end Frames

section Bits

variable {n : ℕ} {place : Place}

/-- Every byte that a write goes through is one of those the bits lie in. -/
theorem patches_within (value : BitVec 32) (b bitOffset : ℕ) {numBits : ℕ} (hpos : 0 < bitOffset)
    (hoffset : bitOffset ≤ 8) (hone : 0 < numBits)
    (hroom : 8 * b + (8 - bitOffset) + numBits ≤ 8 * n) :
    ∀ p ∈ BasicStream.patches value b bitOffset numBits, ∃ k < n, p.bytePos = (k : ℕ) := by
  induction numBits using Nat.strong_induction_on generalizing b bitOffset with
  | _ numBits ih =>
    have hb : b < n := by omega
    rw [BasicStream.patches]
    by_cases hmore : numBits > bitOffset
    · rw [if_pos ⟨hmore, hpos⟩]
      have hrest := ih (numBits - bitOffset) (by omega) (b + 1) 8 (by omega) le_rfl (by omega)
        (by omega)
      exact List.forall_mem_cons.mpr ⟨⟨b, hb, rfl⟩, hrest⟩
    · rw [if_neg (fun h => hmore h.1)]
      split <;> exact List.forall_mem_singleton.mpr ⟨b, hb, rfl⟩

theorem simulates_storePatch {p : BasicStream.Patch} {k : ℕ} (hk : k < n) (hp : p.bytePos = k) :
    Simulates (Agree n place) (Agree n place) (BasicStream.storePatch p) (Stream.storePatch p) := by
  intro s t h
  obtain ⟨s', t', hrun, hrun', h'⟩ := simulates_store (steady_agree n place) k hk
    (p.apply (s.data.getD k 0)) s t h
  have hnat : p.bytePos.toNat = k := by rw [hp, Int.toNat_natCast]
  refine ⟨s', t', ?_, ?_, h'⟩
  · have hnonneg : 0 ≤ p.bytePos := by omega
    rw [BasicStream.storePatch, run_bind_of_ok (EStateM.run_get ..), if_pos hnonneg, hnat]
    exact hrun
  · have hrange : 0 ≤ p.bytePos ∧ p.bytePos < t.buffer.length := by
      rw [h.bytes, h.length]
      omega
    have hload : (Stream.load p.bytePos).run t = .ok ((s.data.getD k 0).toNat : ℤ) t := by
      rw [Stream.load, run_bind_of_ok (EStateM.run_get ..), if_pos hrange, hnat, h.bytes]
      rfl
    rw [Stream.storePatch, run_bind_of_ok hload, toChar_toNat, hp]
    exact hrun'

theorem simulates_initBits (hnarrow : 8 * place.offset < 2 ^ 31) :
    Simulates (Agree n place) (Agree n { place with position := some (8 * place.offset) })
      BasicStream.initBitAccess Stream.initBitAccess := by
  refine .modify fun s t h => ?_
  have hwithin := h.within
  have hposition : toInt32 ((place.offset : ℤ) * 8) = (8 * place.offset : ℕ) := by
    rw [toInt32_of_lt (by omega) (by omega)]
    omega
  rw [h.index, h.offset, hposition]
  refine { h with
    index := rfl
    offset := rfl
    bits := fun position hposition => ?_ }
  cases hposition
  exact ⟨rfl, rfl, by omega⟩

theorem simulates_writeBits (value : BitVec 32) {numBits position : ℕ}
    (hposition : place.position = some position) (hone : 1 ≤ numBits)
    (hroom : position + numBits ≤ 8 * n) (hnarrow : position + numBits < 2 ^ 31) :
    Simulates (Agree n place) (Agree n { place with position := some (position + numBits) })
      (BasicStream.writeBits numBits value) (Stream.writeBits numBits value) := by
  intro s t h
  obtain ⟨hs, ht, -⟩ := h.bits position hposition
  have hbyte : (position : ℤ) / 8 = (position / 8 : ℕ) := by omega
  have hoffset : 8 - ((position : ℤ) % 8).toNat = 8 - position % 8 := by omega
  have hnext : toInt32 (position + numBits) = (position + numBits : ℕ) := by
    rw [Nat.cast_add, toInt32_of_lt (by omega) (by omega)]
  have hbits : ∀ p ∈ BasicStream.patches value (position / 8 : ℕ) (8 - position % 8) numBits,
      ∃ k < n, p.bytePos = (k : ℕ) :=
    patches_within value _ _ (by omega) (by omega) hone (by omega)
  have hmoved : Agree n { place with position := some (position + numBits) }
      { s with bitPosition := (position + numBits : ℕ) }
      { t with bitPosition := (position + numBits : ℕ) } := { h with
    bits := by
      intro _ hmem
      cases hmem
      exact ⟨rfl, rfl, hroom⟩ }
  obtain ⟨s', t', hrun, hrun', h'⟩ := Simulates.forM (fun p hp => by
    obtain ⟨k, hk, hpos⟩ := hbits p hp
    exact simulates_storePatch hk hpos) _ _ hmoved
  refine ⟨s', t', ?_, ?_, h'⟩
  · simp only [BasicStream.writeBits, EStateM.run_bind, EStateM.run_get, hs, hbyte, hoffset, hnext]
    exact hrun
  · simp only [Stream.writeBits, EStateM.run_bind, EStateM.run_get, ht, hbyte, hoffset, hnext]
    exact hrun'

theorem simulates_finishBits {position : ℕ} (hposition : place.position = some position)
    (hnarrow : position + 7 < 2 ^ 31) :
    Simulates (Agree n place)
      (Agree n { place with offset := (position + 7) / 8, position := none })
      BasicStream.finishBitAccess Stream.finishBitAccess := by
  refine .modify fun s t h => ?_
  obtain ⟨hs, ht, hle⟩ := h.bits position hposition
  have hindex := (BitAccess.roundUp_iff (q := position) (by omega)).mpr hnarrow
  have hoffset : (toInt32 ((position : ℤ) + 7)).tdiv 8 = ((position + 7) / 8 : ℕ) := by
    rw [toInt32_of_lt (by omega) (by omega), Int.tdiv_eq_ediv_of_nonneg (by omega)]
    omega
  rw [hs, ht, hindex, hoffset]
  exact { h with
    index := rfl
    offset := rfl
    within := by dsimp only; omega
    bits := fun _ hmem => by cases hmem }

end Bits

section Calls

variable {n : ℕ} {place : Place}

/-- One call, case by case. -/
theorem simulates_call (place : Place) (hn : n < 2 ^ 31) (call : Call)
    (hroom : call.Room n place) (hnarrow : call.Narrow place) :
    Simulates (Agree n place) (Agree n (call.next place)) call.onBasic call.onStream := by
  cases call with
  | byte value =>
    rw [Call.onStream, writeByte_eq]
    exact simulates_writeBytes place hn 1 value hroom
  | word value =>
    rw [Call.onStream, writeWord_eq]
    exact simulates_writeBytes place hn 2 value hroom
  | threeByte value =>
    rw [Call.onStream, write3Byte_eq]
    exact simulates_writeBytes place hn 3 value hroom
  | dword value =>
    rw [Call.onStream, writeDWord_eq]
    exact simulates_writeBytes place hn 4 value hroom
  | qword value =>
    rw [Call.onStream, writeQWord_eq]
    exact simulates_writeBytes place hn 8 value hroom
  | string s =>
    have hlength : (cStr s ++ [0]).length = (cStr s).length + 1 := by
      rw [List.length_append, List.length_singleton]
    have hputs := simulates_puts place hn (cStr s ++ [0]) (by rw [hlength]; exact hroom)
    rw [hlength] at hputs
    exact hputs
  | frame id =>
    have hbyte : Stream.createFrame id = (beBytes 1 id).forM Stream.put := writeByte_eq id
    rw [Call.onStream, hbyte]
    exact simulates_puts place hn (beBytes 1 id) hroom
  | frameVarSize id =>
    rw [Call.onStream, createFrameVarSize_eq]
    exact simulates_openFrame hn le_rfl id hroom.1 hroom.2
  | frameVarSizeWord id =>
    rw [Call.onStream, createFrameVarSizeWord_eq]
    exact simulates_openFrame hn (Nat.le_succ 1) id hroom.1 hroom.2
  | endFrameVarSize =>
    exact simulates_closeFrame hn (Nat.le_succ 1) fun start rest hlow hhigh =>
      simulates_writeFrameSize hn (by omega) hhigh rest
  | endFrameVarSizeWord =>
    exact simulates_closeFrame hn le_rfl fun start rest hlow hhigh =>
      simulates_writeFrameSizeWord hn hlow hhigh rest
  | initBits => exact simulates_initBits hnarrow
  | bits numBits value =>
    obtain ⟨hone, -, position, hposition, hbits⟩ := hroom
    have hnext : place.position.map (· + numBits) = some (position + numBits) := by
      rw [hposition]
      rfl
    rw [Call.next, hnext]
    exact simulates_writeBits value hposition hone hbits (hnarrow position hposition)
  | finishBits =>
    obtain ⟨position, hposition⟩ := Option.isSome_iff_exists.mp hroom
    rw [Call.next, hposition]
    exact simulates_finishBits hposition (hnarrow position hposition)

/-- All calls: the place is where the calls before have led. -/
theorem simulates_calls (hn : n < 2 ^ 31) (calls : List Call)
    (hroom : Call.Each (Call.Room n) place calls) (hnarrow : Call.Each Call.Narrow place calls) :
    ∃ last, Simulates (Agree n place) (Agree n last) (calls.forM Call.onBasic)
      (calls.forM Call.onStream) := by
  induction calls generalizing place with
  | nil => exact ⟨place, .pure⟩
  | cons call calls ih =>
    obtain ⟨last, hrest⟩ := ih hroom.2 hnarrow.2
    refine ⟨last, ?_⟩
    simp only [List.forM_eq_forM, List.forM_cons] at hrest ⊢
    exact (simulates_call place hn call hroom.1 hnarrow.1).bind hrest

theorem agree_start (block : List UInt8) (unset : ℤ) :
    Agree block.length .start (.preallocated block) (.around block unset) where
  bytes := rfl
  dataSize := rfl
  length := rfl
  index := rfl
  offset := rfl
  within := Nat.zero_le _
  frames := rfl
  opened := rfl
  starts _ h := by cases h
  bits _ h := by cases h

end Calls

section Readers

/-- A reader that both streams offer. -/
inductive Reader
  | unsignedByte
  | unsignedWord
  | threeByte
  | dword
  | qword

namespace Reader

/-- The bytes it reads. -/
def count : Reader → ℕ
  | unsignedByte => 1
  | unsignedWord => 2
  | threeByte => 3
  | dword => 4
  | qword => 8

/-- The bits of its result. -/
def width : Reader → ℕ
  | unsignedByte => 8
  | unsignedWord => 32
  | threeByte => 32
  | dword => 32
  | qword => 64

def onBasic : Reader → StreamM ℤ
  | unsignedByte => Nat.cast <$> BasicStream.readUnsignedByte
  | unsignedWord => Nat.cast <$> BasicStream.readUnsignedShort
  | threeByte => Nat.cast <$> BasicStream.read3Byte
  | dword => Nat.cast <$> BasicStream.readUnsignedInt
  | qword => BasicStream.readQWord

def onStream : Reader → RawM ℤ
  | unsignedByte => Stream.readUnsignedByte
  | unsignedWord => Stream.readUnsignedWord
  | threeByte => Stream.read3Byte
  | dword => Stream.readDWord
  | qword => Stream.readQWord

end Reader

variable {t : Stream} {i : ℕ}

theorem advance_run (hoffset : t.currentOffset = i) {n : ℤ} {m : ℕ} (hm : (m : ℤ) = i + n)
    (hlt : m < 2 ^ 31) :
    ∃ u, (Stream.advance n).run t = .ok () u ∧ u = { t with currentOffset := (m : ℤ) } ∧
      u.currentOffset = m ∧ u.buffer = t.buffer := by
  have hnext : toInt32 ((i : ℤ) + n) = m := by
    rw [toInt32_of_lt (by omega) (by omega), hm]
  refine ⟨_, ?_, rfl, rfl, rfl⟩
  rw [← hnext, ← hoffset]
  rfl

theorem load_run {position : ℤ} {k : ℕ} (hposition : position = k) (hk : k < t.buffer.length) :
    (Stream.load position).run t = .ok ((t.buffer.getD k 0).toNat : ℤ) t := by
  have hrange : 0 ≤ position ∧ position < t.buffer.length := by omega
  have hnat : position.toNat = k := by rw [hposition, Int.toNat_natCast]
  rw [Stream.load, run_bind_of_ok (EStateM.run_get ..), if_pos hrange, hnat]
  rfl

/-- The bytes a reader sees, one by one. -/
theorem take_drop_eq_map (bytes : List UInt8) {n : ℕ} (h : i + n ≤ bytes.length) :
    (bytes.drop i).take n = (List.range n).map fun j => bytes.getD (i + j) 0 := by
  refine List.ext_getElem (by simp; omega) fun j hj hj' => ?_
  simp at hj'
  have hlt : i + j < bytes.length := by omega
  simp [hlt]

theorem readUnsignedByte_run (hoffset : t.currentOffset = i) (hroom : i + 1 ≤ t.buffer.length)
    (hlt : i + 1 < 2 ^ 31) :
    Stream.readUnsignedByte.run t = .ok (beNat ((t.buffer.drop i).take 1) : ℤ)
      { t with currentOffset := (i + 1 : ℕ) } := by
  obtain ⟨u, hadvance, hu, -, -⟩ := advance_run hoffset (n := 1) (m := i + 1) (by omega) (by omega)
  rw [Stream.readUnsignedByte, run_bind_of_ok (EStateM.run_get ..),
    run_bind_of_ok (load_run hoffset (by omega)), run_bind_of_ok hadvance, hu,
    take_drop_eq_map _ hroom]
  simp [beNat]

theorem readUnsignedWord_run (hoffset : t.currentOffset = i) (hroom : i + 2 ≤ t.buffer.length)
    (hlt : i + 2 < 2 ^ 31) :
    Stream.readUnsignedWord.run t = .ok (beNat ((t.buffer.drop i).take 2) : ℤ)
      { t with currentOffset := (i + 2 : ℕ) } := by
  obtain ⟨u, hadvance, hu, hmoved, hbuffer⟩ :=
    advance_run hoffset (n := 2) (m := i + 2) (by omega) (by omega)
  rw [Stream.readUnsignedWord, run_bind_of_ok hadvance, run_bind_of_ok (EStateM.run_get ..),
    run_bind_of_ok (load_run (k := i) (by omega) (by rw [hbuffer]; omega)),
    run_bind_of_ok (load_run (k := i + 1) (by omega) (by rw [hbuffer]; omega)), hbuffer, hu,
    take_drop_eq_map _ hroom]
  simp [beNat, List.range_succ]

/-- The sign of the 24 bits is extended. -/
theorem read3Byte_run (hoffset : t.currentOffset = i) (hroom : i + 3 ≤ t.buffer.length)
    (hlt : i + 3 < 2 ^ 31) :
    Stream.read3Byte.run t = .ok
      (if (beNat ((t.buffer.drop i).take 3) : ℤ) > 8388607 then
        (beNat ((t.buffer.drop i).take 3) : ℤ) - 16777216
      else (beNat ((t.buffer.drop i).take 3) : ℤ))
      { t with currentOffset := (i + 3 : ℕ) } := by
  obtain ⟨u, hadvance, hu, hmoved, hbuffer⟩ :=
    advance_run hoffset (n := 3) (m := i + 3) (by omega) (by omega)
  have hvalue : (beNat ((t.buffer.drop i).take 3) : ℤ) = (t.buffer.getD i 0).toNat * 2 ^ 16 +
      (t.buffer.getD (i + 1) 0).toNat * 2 ^ 8 + (t.buffer.getD (i + 2) 0).toNat := by
    rw [take_drop_eq_map _ hroom]
    simp [beNat, List.range_succ]
    ring
  rw [Stream.read3Byte, run_bind_of_ok hadvance, run_bind_of_ok (EStateM.run_get ..),
    run_bind_of_ok (load_run (k := i) (by omega) (by rw [hbuffer]; omega)),
    run_bind_of_ok (load_run (k := i + 1) (by omega) (by rw [hbuffer]; omega)),
    run_bind_of_ok (load_run (k := i + 2) (by omega) (by rw [hbuffer]; omega)), hbuffer, hu, hvalue]
  rfl

/-- The sum wraps as an `int` and wraps back as an `unsigned int`. -/
theorem readDWord_run (hoffset : t.currentOffset = i) (hroom : i + 4 ≤ t.buffer.length)
    (hlt : i + 4 < 2 ^ 31) :
    Stream.readDWord.run t = .ok (beNat ((t.buffer.drop i).take 4) : ℤ)
      { t with currentOffset := (i + 4 : ℕ) } := by
  obtain ⟨u, hadvance, hu, hmoved, hbuffer⟩ :=
    advance_run hoffset (n := 4) (m := i + 4) (by omega) (by omega)
  have hvalue : (beNat ((t.buffer.drop i).take 4) : ℤ) = toInt32
      ((t.buffer.getD i 0).toNat * 2 ^ 24 + (t.buffer.getD (i + 1) 0).toNat * 2 ^ 16 +
        (t.buffer.getD (i + 2) 0).toNat * 2 ^ 8 + (t.buffer.getD (i + 3) 0).toNat) % 2 ^ 32 := by
    have h0 := (t.buffer.getD i 0).toNat_lt
    have h1 := (t.buffer.getD (i + 1) 0).toNat_lt
    have h2 := (t.buffer.getD (i + 2) 0).toNat_lt
    have h3 := (t.buffer.getD (i + 3) 0).toNat_lt
    rw [toInt32, show (2 : ℤ) ^ 32 = ((2 ^ 32 : ℕ) : ℤ) by norm_num, Int.bmod_emod,
      Int.emod_eq_of_lt (by omega) (by omega), take_drop_eq_map _ hroom]
    simp [beNat, List.range_succ]
    ring
  rw [Stream.readDWord, run_bind_of_ok hadvance, run_bind_of_ok (EStateM.run_get ..),
    run_bind_of_ok (load_run (k := i) (by omega) (by rw [hbuffer]; omega)),
    run_bind_of_ok (load_run (k := i + 1) (by omega) (by rw [hbuffer]; omega)),
    run_bind_of_ok (load_run (k := i + 2) (by omega) (by rw [hbuffer]; omega)),
    run_bind_of_ok (load_run (k := i + 3) (by omega) (by rw [hbuffer]; omega)), hbuffer, hu, hvalue]
  rfl

/-- The two halves of an eight-byte number. -/
theorem beNat_halves (bytes : List UInt8) (h : i + 8 ≤ bytes.length) :
    beNat ((bytes.drop i).take 8) =
      beNat ((bytes.drop i).take 4) * 2 ^ 32 + beNat ((bytes.drop (i + 4)).take 4) := by
  rw [take_drop_eq_map _ h, take_drop_eq_map _ (by omega : i + 4 ≤ bytes.length),
    take_drop_eq_map _ (by omega : i + 4 + 4 ≤ bytes.length)]
  simp [beNat, List.range_succ, Nat.add_assoc]
  ring

theorem beNat_take_lt {n : ℕ} (bytes : List UInt8) (h : i + n ≤ bytes.length) :
    beNat ((bytes.drop i).take n) < 256 ^ n := by
  have hlt := beNat_lt ((bytes.drop i).take n)
  rwa [List.length_take, List.length_drop, Nat.min_eq_left (by omega)] at hlt

theorem readQWord_run (hoffset : t.currentOffset = i) (hroom : i + 8 ≤ t.buffer.length)
    (hlt : i + 8 < 2 ^ 31) :
    Stream.readQWord.run t = .ok ((beNat ((t.buffer.drop i).take 8) : ℤ) % 2 ^ 64)
      { t with currentOffset := (i + 8 : ℕ) } := by
  have hfirst := readDWord_run hoffset (by omega) (by omega)
  have hsecond := readDWord_run (t := { t with currentOffset := (i + 4 : ℕ) }) (i := i + 4) rfl
    (by simp only; omega) (by omega)
  have hlow := beNat_take_lt (i := i + 4) (n := 4) t.buffer (by omega)
  norm_num at hlow
  rw [Stream.readQWord, run_bind_of_ok hfirst, run_bind_of_ok hsecond, Int.toNat_natCast,
    Int.toNat_natCast, ← Nat.shiftLeft_add_eq_or_of_lt (by omega), Nat.shiftLeft_eq,
    ← beNat_halves t.buffer hroom]
  rfl

/-- The newer stream sees the same bytes. -/
theorem readBytes_all {s : BasicStream} {bytes : List UInt8} (hbytes : bytes = s.data)
    (hsize : s.dataSize = s.data.length) {n : ℕ} (hn : 0 < n) (hroom : s.index + n ≤ s.dataSize) :
    (BasicStream.readBytes n).run s =
      .ok ((bytes.drop s.index).take n) { s with index := s.index + n } := by
  subst hbytes
  have hunread : s.unread = s.data.drop s.index := by
    rw [BasicStream.unread, hsize, List.take_length]
  rw [BasicStream.readBytes_run s hn (by rw [BasicStream.unread_length]; omega), hunread]

/-- A negative `int` and the `uint32_t` with the same bits. -/
theorem signExtend_eq {value : ℕ} (h : value < 256 ^ 3) :
    ((if value > 8388607 then (value + 2 ^ 32 - 16777216) % 2 ^ 32 else value : ℕ) : ℤ) % 2 ^ 32 =
      (if (value : ℤ) > 8388607 then (value : ℤ) - 16777216 else (value : ℤ)) % 2 ^ 32 := by
  by_cases hsign : value > 8388607
  · rw [if_pos hsign, if_pos (by omega)]
    omega
  · rw [if_neg hsign, if_neg (by omega)]

/-- Both streams read the same number and move on by as many bytes. -/
theorem readers_agree (reader : Reader) {s : BasicStream} {t : Stream} (hbytes : t.buffer = s.data)
    (hsize : s.dataSize = s.data.length) (hlength : s.data.length < 2 ^ 31)
    (hoffset : t.currentOffset = s.index) (hroom : s.index + reader.count ≤ s.dataSize) :
    ∃ v w, reader.onBasic.run s = .ok v { s with index := s.index + reader.count } ∧
      reader.onStream.run t =
        .ok w { t with currentOffset := (s.index + reader.count : ℕ) } ∧
      v % 2 ^ reader.width = w % 2 ^ reader.width := by
  have hfits : s.index + reader.count ≤ t.buffer.length := by rw [hbytes, ← hsize]; exact hroom
  have hbound : s.index + reader.count < 2 ^ 31 := by omega
  have hread : 0 < reader.count := by cases reader <;> decide
  have hbasic := readBytes_all hbytes hsize hread hroom
  cases reader with
  | unsignedByte =>
    exact ⟨_, _, run_map_ok.mpr ⟨_, run_map_ok.mpr ⟨_, hbasic, rfl⟩, rfl⟩,
      readUnsignedByte_run hoffset hfits hbound, rfl⟩
  | unsignedWord =>
    exact ⟨_, _, run_map_ok.mpr ⟨_, run_map_ok.mpr ⟨_, hbasic, rfl⟩, rfl⟩,
      readUnsignedWord_run hoffset hfits hbound, rfl⟩
  | threeByte =>
    refine ⟨_, _, run_map_ok.mpr ⟨_, run_bind_of_ok hbasic, rfl⟩,
      read3Byte_run hoffset hfits hbound, ?_⟩
    exact signExtend_eq (beNat_take_lt t.buffer hfits)
  | dword =>
    exact ⟨_, _, run_map_ok.mpr ⟨_, run_map_ok.mpr ⟨_, hbasic, rfl⟩, rfl⟩,
      readDWord_run hoffset hfits hbound, rfl⟩
  | qword =>
    refine ⟨_, _, run_map_ok.mpr ⟨_, hbasic, rfl⟩, readQWord_run hoffset hfits hbound, ?_⟩
    rw [Reader.width, toInt64, Int.emod_emod]
    exact Int.bmod_emod

end Readers

/-- On a block that an `int` can measure, with bit positions that an `int` can hold, both streams
write the same bytes and end at the same offset; and from any offset they read the same numbers. -/
theorem streams_agree (block : List UInt8) (unset : ℤ) (hlength : block.length < 2 ^ 31) :
    (∀ calls : List Call, Call.Each (Call.Room block.length) .start calls →
      Call.Each Call.Narrow .start calls →
      ∃ s t, (calls.forM Call.onBasic).run (.preallocated block) = .ok () s ∧
        (calls.forM Call.onStream).run (.around block unset) = .ok () t ∧
        t.buffer = s.data ∧ t.currentOffset = s.index) ∧
    ∀ (reader : Reader) (s : BasicStream) (t : Stream), s.data = block →
      s.dataSize = block.length → t.buffer = block → t.currentOffset = s.index →
      s.index + reader.count ≤ block.length →
      ∃ v w, reader.onBasic.run s = .ok v { s with index := s.index + reader.count } ∧
        reader.onStream.run t =
          .ok w { t with currentOffset := (s.index + reader.count : ℕ) } ∧
        v % 2 ^ reader.width = w % 2 ^ reader.width := by
  constructor
  · intro calls hroom hnarrow
    obtain ⟨last, hruns⟩ := simulates_calls hlength calls hroom hnarrow
    obtain ⟨s, t, hrun, hrun', h⟩ := hruns _ _ (agree_start block unset)
    exact ⟨s, t, hrun, hrun', h.bytes, by rw [h.index, h.offset]⟩
  · intro reader s t hdata hsize hbuffer hoffset hroom
    exact readers_agree reader (hbuffer.trans hdata.symm) (by rw [hsize, hdata])
      (by rw [hdata]; exact hlength) hoffset (by rw [hsize]; exact hroom)

/-- Frames of both kinds, closed the wrong way round, and eleven bits. -/
def mixed : List Call :=
  [.frameVarSize 7, .frameVarSizeWord 8, .qword (-2), .endFrameVarSize, .endFrameVarSizeWord,
    .initBits, .bits 3 5#32, .bits 8 0xf0#32, .finishBits]

theorem streams_agree_sixteen : ∃ s t,
    (mixed.forM Call.onBasic).run (.preallocated (List.replicate 16 0)) = .ok () s ∧
    (mixed.forM Call.onStream).run (.around (List.replicate 16 0) 0) = .ok () t ∧
    t.buffer = s.data ∧ t.currentOffset = s.index :=
  (streams_agree (List.replicate 16 0) 0 (by decide)).1 mixed
    (by simp [mixed, Call.Each, Call.Room, Call.next, Place.start, Place.forward, Call.size])
    (by simp [mixed, Call.Each, Call.Narrow, Call.next, Place.start, Place.forward, Call.size])

/-- A text that fills the block, and a bit section with nothing in it. -/
def emptySection (n : ℕ) : List Call :=
  [.string (List.replicate n 1), .initBits, .finishBits]

/-- Two hundred and fifty-six million bytes in, the newer stream goes to an offset that is a huge
`size_t`, the older one to a negative `int`. -/
theorem emptySection_apart : ¬ ∀ (block : List UInt8) (unset : ℤ), block.length < 2 ^ 31 →
    ∀ calls : List Call, Call.Each (Call.Room block.length) .start calls →
    ∃ s t, (calls.forM Call.onBasic).run (.preallocated block) = .ok () s ∧
      (calls.forM Call.onStream).run (.around block unset) = .ok () t ∧
      t.buffer = s.data ∧ t.currentOffset = s.index := by
  intro h
  have hsize (n : ℕ) (hn : n + 1 = 2 ^ 28) : False := by
    have hlength : (List.replicate (n + 1) (0 : UInt8)).length = n + 1 := List.length_replicate
    have htext : (cStr (List.replicate n 1)).length = n := by
      rw [cStr_eq_self (by simp), List.length_replicate]
    have hfits : 0 + ((cStr (List.replicate n 1)).length + 1) ≤ n + 1 := by omega
    obtain ⟨s, t, hrun, hrun', -, hoffset⟩ := h (List.replicate (n + 1) 0) 0 (by omega)
      (emptySection n) (by
        rw [hlength]
        exact ⟨hfits, by simp [Call.next, Call.Room, Place.start, Place.forward, Call.size, htext],
          by simp [Call.next, Call.Room], trivial⟩)
    obtain ⟨u, v, hu, hv, hagree⟩ := simulates_call (n := n + 1) .start (by omega)
      (.string (List.replicate n 1)) hfits trivial _ _
      (by simpa only [hlength] using agree_start (List.replicate (n + 1) 0) 0)
    have hmoved : v.currentOffset = (n + 1 : ℕ) := by
      rw [hagree.offset]
      simp [Call.next, Place.forward, Call.size, htext, Place.start]
    have hrest : (([.initBits, .finishBits] : List Call).forM Call.onStream).run v = .ok ()
        { v with
          bitPosition := toInt32 (v.currentOffset * 8)
          currentOffset := (toInt32 (toInt32 (v.currentOffset * 8) + 7)).tdiv 8 } := rfl
    have hposition : toInt32 (v.currentOffset * 8) = -2 ^ 31 := by
      rw [hmoved, toInt32_of_ge (by omega) (by omega)]
      omega
    have hsum : toInt32 (-2 ^ 31 + 7) = -2 ^ 31 + 7 := toInt32_of_lt (by omega) (by omega)
    rw [emptySection, List.forM_eq_forM, List.forM_cons, run_bind_of_ok hv] at hrun'
    rw [hposition, hsum] at hrest
    have hsame := hrest.symm.trans hrun'
    injection hsame with _ hstate
    rw [← hstate] at hoffset
    have hneg : (-2 ^ 31 + 7 : ℤ).tdiv 8 < 0 := by decide
    dsimp only at hoffset
    omega
  exact hsize (2 ^ 28 - 1) rfl

end Win64Server.StreamAgreement
