import Win64Server.Deletions
import Win64Server.Library.Runs
import Win64Server.Library.Simulation

/-!
The cursor of a stream in the arithmetic of the machine. `index`, `data_size` and `mark` are
`size_t`s, the sums in the bounds checks wrap, and an unset mark is the largest `size_t`. Away from
the end of the address space this is the stream of the other modules.
-/
namespace Win64Server.CursorBounds

open Outcome Library

/-- `data` may be read at every offset; what lies outside the block is whatever the memory holds. -/
structure MachineStream where
  data : UInt64 → UInt8
  index : UInt64
  dataSize : UInt64
  mark : UInt64

abbrev MachineM := EStateM Fault MachineStream

namespace MachineStream

/-- `SIZE_MAX`, an unset mark. -/
def sizeMax : UInt64 := 0xFFFFFFFFFFFFFFFF

/-- A stream that has received `size` bytes, of which none is read. -/
def received (data : UInt64 → UInt8) (size : UInt64) : MachineStream := ⟨data, 0, size, sizeMax⟩

/-- The bounds check and the cursor move that all fixed-width readers share. -/
def readBytes (n : ℕ) : MachineM (List UInt8) := do
  let s ← get
  if s.index + UInt64.ofNat (n - 1) < s.dataSize then
    set { s with index := s.index + UInt64.ofNat n }
    return (List.range n).map fun i => s.data (s.index + UInt64.ofNat i)
  else
    throw (.thrown (.outOfRange "End of stream reached"))

def read : MachineM ℤ := (fun bytes => toInt8 (beNat bytes)) <$> readBytes 1

def readUnsignedByte : MachineM ℕ := beNat <$> readBytes 1

def readUnsignedShort : MachineM ℕ := beNat <$> readBytes 2

def read3Byte : MachineM ℕ := do
  let value := beNat (← readBytes 3)
  return if value > 8388607 then (value + 2 ^ 32 - 16777216) % 2 ^ 32 else value

def readUnsignedInt : MachineM ℕ := beNat <$> readBytes 4

def readQWord : MachineM ℤ := (fun bytes => toInt64 (beNat bytes)) <$> readBytes 8

theorem toNat_succ {i n : UInt64} (h : i < n) : (i + 1).toNat = i.toNat + 1 := by
  have hn := n.toNat_lt
  rw [UInt64.lt_iff_toNat_lt] at h
  rw [UInt64.toNat_add, UInt64.toNat_one, Nat.mod_eq_of_lt (by omega)]

/-- The loop of both string readers from position `i`: the bytes it passes and where it stops. -/
def scan (s : MachineStream) (i : UInt64) : CxxString × UInt64 :=
  if h : i < s.dataSize ∧ s.data i ≠ 0 then
    ((s.data i) :: (scan s (i + 1)).1, (scan s (i + 1)).2)
  else
    ([], i)
termination_by s.dataSize.toNat - i.toNat
decreasing_by
  all_goals
    have hi := UInt64.lt_iff_toNat_lt.mp h.1
    rw [toNat_succ h.1]
    omega

/-- Where the string readers leave the index: behind the NUL if there is one. -/
def stringEnd (s : MachineStream) : UInt64 :=
  if (s.scan s.index).2 < s.dataSize then (s.scan s.index).2 + 1 else (s.scan s.index).2

def readStdString : MachineM CxxString := do
  let s ← get
  if s.index < s.dataSize then
    set { s with index := s.stringEnd }
    return (s.scan s.index).1
  else
    throw (.thrown (.outOfRange "End of stream reached"))

def readString : MachineM ℕ := do
  let s ← get
  if s.index < s.dataSize then
    set { s with index := s.stringEnd }
    return s.index.toNat
  else
    throw (.thrown (.outOfRange "End of stream reached"))

def skipBytes (bytesToSkip : UInt64) : MachineM Unit := do
  let s ← get
  if s.index + bytesToSkip ≤ s.dataSize then
    set { s with index := s.index + bytesToSkip }
  else
    throw (.thrown (.outOfRange "Cannot skip more bytes than available"))

def markPosition : MachineM Unit := modify fun s => { s with mark := s.index }

def reset : MachineM Unit := do
  let s ← get
  if s.mark ≠ sizeMax then
    set { s with index := s.mark, mark := sizeMax }
  else
    throw (.thrown (.runtimeError "No mark has been set"))

/-- `memmove(data + target, data + source, count)`. -/
def memmove (data : UInt64 → UInt8) (target source count : UInt64) (position : UInt64) : UInt8 :=
  if position - target < count then data (source + (position - target)) else data position

def deleteMarkedBlock : MachineM Unit := do
  let s ← get
  if s.mark ≠ sizeMax then
    set { s with
      data := memmove s.data s.mark s.index (s.dataSize - s.index)
      dataSize := s.dataSize - (s.index - s.mark)
      index := s.mark
      mark := sizeMax }
  else
    throw (.thrown (.runtimeError "No mark has been set"))

def deleteBytesFromMark (bytesToDelete : UInt64) : MachineM Unit := do
  let s ← get
  if s.mark ≠ sizeMax then
    let bytesToMove := s.dataSize - s.index
    set { s with dataSize := s.dataSize - (s.index - s.mark) }
    if bytesToDelete > bytesToMove then
      throw (.thrown (.runtimeError "Cannot delete more bytes than available from mark position"))
    else
      set { s with
        data := memmove s.data s.mark (s.index + bytesToDelete) (bytesToMove - bytesToDelete)
        dataSize := s.dataSize - (s.index - s.mark) - bytesToDelete
        index := s.mark
        mark := sizeMax }
  else
    throw (.thrown (.runtimeError "No mark has been set"))

def deleteBytesFromIndex (bytesToDelete : UInt64) : MachineM Unit := do
  let s ← get
  let bytesToCopy := s.dataSize - s.index
  if bytesToDelete > bytesToCopy then
    throw (.thrown (.runtimeError "Cannot delete more bytes than available from current position"))
  else
    set { s with
      data := memmove s.data s.index (s.index + bytesToDelete) (bytesToCopy - bytesToDelete)
      dataSize := s.dataSize - bytesToDelete }

end MachineStream

open MachineStream

inductive Call
  | read
  | readUnsignedByte
  | readUnsignedShort
  | read3Byte
  | readUnsignedInt
  | readQWord
  | readStdString
  | readString
  | skipBytes (bytesToSkip : UInt64)
  | markPosition
  | reset
  | deleteMarkedBlock
  | deleteBytesFromMark (bytesToDelete : UInt64)
  | deleteBytesFromIndex (bytesToDelete : UInt64)

namespace Call

def perform : Call → MachineM Unit
  | read => discard MachineStream.read
  | readUnsignedByte => discard MachineStream.readUnsignedByte
  | readUnsignedShort => discard MachineStream.readUnsignedShort
  | read3Byte => discard MachineStream.read3Byte
  | readUnsignedInt => discard MachineStream.readUnsignedInt
  | readQWord => discard MachineStream.readQWord
  | readStdString => discard MachineStream.readStdString
  | readString => discard MachineStream.readString
  | skipBytes n => MachineStream.skipBytes n
  | markPosition => MachineStream.markPosition
  | reset => MachineStream.reset
  | deleteMarkedBlock => MachineStream.deleteMarkedBlock
  | deleteBytesFromMark n => MachineStream.deleteBytesFromMark n
  | deleteBytesFromIndex n => MachineStream.deleteBytesFromIndex n

/-- The readers and `skip_bytes`. -/
def Advances : Call → Prop
  | markPosition | reset => False
  | deleteMarkedBlock | deleteBytesFromMark _ | deleteBytesFromIndex _ => False
  | _ => True

/-- What a call adds to the index before it compares. -/
def reach : Call → ℕ
  | read | readUnsignedByte => 0
  | readUnsignedShort => 1
  | read3Byte => 2
  | readUnsignedInt => 3
  | readQWord => 7
  | skipBytes n => n.toNat
  | _ => 0

/-- The stream after the call. -/
def after (s : MachineStream) (call : Call) : MachineStream := finalState (call.perform.run s)

def Returns (s : MachineStream) (call : Call) : Prop := returned (call.perform.run s) = true

/-- The sum in the bounds check is a `size_t`. -/
def Fits (s : MachineStream) (call : Call) : Prop := s.index.toNat + call.reach < 2 ^ 64

instance (s : MachineStream) (call : Call) : Decidable (Returns s call) :=
  inferInstanceAs (Decidable (returned (call.perform.run s) = true))

instance (s : MachineStream) (call : Call) : Decidable (Fits s call) :=
  inferInstanceAs (Decidable (s.index.toNat + call.reach < 2 ^ 64))

end Call

/-- What the deletions rely on. -/
structure Sound (initial : UInt64) (s : MachineStream) : Prop where
  index_le : s.index ≤ s.dataSize
  mark_le : s.mark = sizeMax ∨ s.mark ≤ s.index
  size_le : s.dataSize ≤ initial

/-- A call keeps the cursor in order and, if it reads or skips, does not move it back. -/
structure Right (initial : UInt64) (s : MachineStream) (call : Call) : Prop where
  sound : Sound initial (call.after s)
  forward : call.Advances → s.index ≤ (call.after s).index

variable {s t : MachineStream} {initial : UInt64}

/-- A fixed-width reader that returned. -/
structure Took (n : ℕ) (s t : MachineStream) : Prop where
  checked : s.index + UInt64.ofNat (n - 1) < s.dataSize
  after : t = { s with index := s.index + UInt64.ofNat n }

theorem discard_ok {α : Type} {x : MachineM α} (h : (discard x).run s = .ok () t) :
    ∃ a, x.run s = .ok a t := by
  obtain ⟨a, hrun, -⟩ := run_map_ok.mp h
  exact ⟨a, hrun⟩

theorem readBytes_ok {n : ℕ} {bytes : List UInt8} (h : (readBytes n).run s = .ok bytes t) :
    Took n s t := by
  by_cases hbound : s.index + UInt64.ofNat (n - 1) < s.dataSize
  · simp only [readBytes, EStateM.run_bind, EStateM.run_get, hbound, ite_true, EStateM.run_set,
      EStateM.run_pure, EStateM.Result.ok.injEq] at h
    exact ⟨hbound, h.2.symm⟩
  · simp [readBytes, hbound] at h

theorem took_of_reader {α : Type} {n : ℕ} {f : List UInt8 → α}
    (h : (discard (f <$> readBytes n)).run s = .ok () t) : Took n s t := by
  obtain ⟨a, hrun⟩ := discard_ok h
  obtain ⟨bytes, hbytes, -⟩ := run_map_ok.mp hrun
  exact readBytes_ok hbytes

/-- Where the sum of the check wraps, it is small and passes, and the index comes out smaller. -/
theorem Took.kept_iff {n : ℕ} (h : Took n s t) (hs : Sound initial s) (hn : 0 < n) (hn8 : n ≤ 8) :
    (Sound initial t ∧ s.index ≤ t.index) ↔ s.index.toNat + (n - 1) < 2 ^ 64 := by
  obtain ⟨hchecked, rfl⟩ := h
  obtain ⟨hindex, hmark, hsize⟩ := hs
  have hbound := s.dataSize.toNat_lt
  simp only [UInt64.lt_iff_toNat_lt, UInt64.toNat_add, UInt64.toNat_ofNat'] at hchecked
  simp only [UInt64.le_iff_toNat_le] at hindex
  constructor
  · rintro ⟨-, hforward⟩
    simp only [UInt64.le_iff_toNat_le, UInt64.toNat_add, UInt64.toNat_ofNat'] at hforward
    omega
  · intro hfits
    refine ⟨⟨?_, ?_, hsize⟩, ?_⟩
    · simp only [UInt64.le_iff_toNat_le, UInt64.toNat_add, UInt64.toNat_ofNat']
      omega
    · refine hmark.imp_right fun hle => ?_
      simp only [UInt64.le_iff_toNat_le, UInt64.toNat_add, UInt64.toNat_ofNat'] at hle ⊢
      omega
    · simp only [UInt64.le_iff_toNat_le, UInt64.toNat_add, UInt64.toNat_ofNat']
      omega

theorem scan_bounds (s : MachineStream) {i : UInt64} (hi : i ≤ s.dataSize) :
    i ≤ (s.scan i).2 ∧ (s.scan i).2 ≤ s.dataSize := by
  induction i using MachineStream.scan.induct s with
  | case1 i h ih =>
    have hnext := toNat_succ h.1
    have hlt := h.1
    simp only [UInt64.le_iff_toNat_le, UInt64.lt_iff_toNat_lt] at ih hlt ⊢
    rw [MachineStream.scan, dif_pos h]
    obtain ⟨hforward, hwithin⟩ := ih (by omega)
    dsimp only
    exact ⟨by omega, hwithin⟩
  | case2 i h =>
    rw [MachineStream.scan, dif_neg h]
    exact ⟨UInt64.le_refl i, hi⟩

theorem stringEnd_bounds (h : s.index < s.dataSize) :
    s.index ≤ s.stringEnd ∧ s.stringEnd ≤ s.dataSize := by
  have hscan := scan_bounds s (UInt64.le_of_lt h)
  unfold stringEnd
  split
  · rename_i hnul
    have hnext := toNat_succ hnul
    simp only [UInt64.le_iff_toNat_le, UInt64.lt_iff_toNat_lt] at hscan hnul ⊢
    omega
  · exact hscan

theorem Sound.stringEnd (hs : Sound initial s) (h : s.index < s.dataSize) :
    Sound initial { s with index := s.stringEnd } ∧ s.index ≤ s.stringEnd := by
  obtain ⟨hforward, hwithin⟩ := stringEnd_bounds h
  have hmark : s.mark = sizeMax ∨ s.mark ≤ s.stringEnd :=
    hs.mark_le.imp_right fun hle => UInt64.le_trans hle hforward
  exact ⟨⟨hwithin, hmark, hs.size_le⟩, hforward⟩

theorem readString_sound (hs : Sound initial s) {pointer : ℕ}
    (h : MachineStream.readString.run s = .ok pointer t) : Sound initial t ∧ s.index ≤ t.index := by
  by_cases hindex : s.index < s.dataSize
  · simp only [MachineStream.readString, EStateM.run_bind, EStateM.run_get, hindex, ite_true,
      EStateM.run_set, EStateM.run_pure, EStateM.Result.ok.injEq] at h
    obtain ⟨-, rfl⟩ := h
    exact hs.stringEnd hindex
  · simp [MachineStream.readString, hindex] at h

theorem readStdString_sound (hs : Sound initial s) {value : CxxString}
    (h : MachineStream.readStdString.run s = .ok value t) :
    Sound initial t ∧ s.index ≤ t.index := by
  by_cases hindex : s.index < s.dataSize
  · simp only [MachineStream.readStdString, EStateM.run_bind, EStateM.run_get, hindex, ite_true,
      EStateM.run_set, EStateM.run_pure, EStateM.Result.ok.injEq] at h
    obtain ⟨-, rfl⟩ := h
    exact hs.stringEnd hindex
  · simp [MachineStream.readStdString, hindex] at h

/-- A sum that wraps is below the index, so it passes the check. -/
theorem skipBytes_right_iff (hs : Sound initial s) {n : UInt64}
    (h : (MachineStream.skipBytes n).run s = .ok () t) :
    (Sound initial t ∧ s.index ≤ t.index) ↔ s.index.toNat + n.toNat < 2 ^ 64 := by
  by_cases hroom : s.index + n ≤ s.dataSize
  · simp only [MachineStream.skipBytes, EStateM.run_bind, EStateM.run_get, hroom, ite_true,
      EStateM.run_set, EStateM.Result.ok.injEq, true_and] at h
    subst h
    have hn := n.toNat_lt
    have hindex := s.index.toNat_lt
    constructor
    · rintro ⟨-, hforward⟩
      simp only [UInt64.le_iff_toNat_le, UInt64.toNat_add] at hforward
      omega
    · intro hfits
      have hforward : s.index ≤ s.index + n := by
        simp only [UInt64.le_iff_toNat_le, UInt64.toNat_add]
        omega
      exact ⟨⟨hroom, hs.mark_le.imp_right fun hle => UInt64.le_trans hle hforward, hs.size_le⟩,
        hforward⟩
  · simp [MachineStream.skipBytes, hroom] at h

theorem reset_sound (hs : Sound initial s) (h : MachineStream.reset.run s = .ok () t) :
    Sound initial t := by
  by_cases hmark : s.mark = sizeMax
  · simp [MachineStream.reset, hmark] at h
  · simp only [MachineStream.reset, EStateM.run_bind, EStateM.run_get, ne_eq, hmark,
      not_false_eq_true, ite_true, EStateM.run_set, EStateM.Result.ok.injEq, true_and] at h
    subst h
    have hle : s.mark ≤ s.index := hs.mark_le.resolve_left hmark
    exact ⟨UInt64.le_trans hle hs.index_le, Or.inl rfl, hs.size_le⟩

/-- Under the invariant the differences of the deletions are those of the numbers. -/
theorem Sound.sizeAfter (hs : Sound initial s) (hmark : s.mark ≠ sizeMax) :
    (s.dataSize - (s.index - s.mark)).toNat =
      s.dataSize.toNat - (s.index.toNat - s.mark.toNat) := by
  have hle : s.mark ≤ s.index := hs.mark_le.resolve_left hmark
  have hindex := hs.index_le
  simp only [UInt64.le_iff_toNat_le] at hle hindex
  have hmarked : (s.index - s.mark).toNat = s.index.toNat - s.mark.toNat :=
    UInt64.toNat_sub_of_le _ _ (UInt64.le_iff_toNat_le.mpr hle)
  rw [UInt64.toNat_sub_of_le _ _ (UInt64.le_iff_toNat_le.mpr (by omega)), hmarked]

/-- A deletion that passes its check deletes bytes that are there. -/
theorem room_of_not_gt (hindex : s.index ≤ s.dataSize) {n : UInt64}
    (hfew : ¬ n > s.dataSize - s.index) : s.index.toNat + n.toNat ≤ s.dataSize.toNat := by
  have hmoved : (s.dataSize - s.index).toNat = s.dataSize.toNat - s.index.toNat :=
    UInt64.toNat_sub_of_le _ _ hindex
  have hn := UInt64.le_iff_toNat_le.mp (UInt64.not_lt.mp hfew)
  rw [UInt64.le_iff_toNat_le] at hindex
  omega

theorem sizeAfterDelete (hindex : s.index ≤ s.dataSize) {n : UInt64}
    (hfew : ¬ n > s.dataSize - s.index) : (s.dataSize - n).toNat = s.dataSize.toNat - n.toNat := by
  have hroom := room_of_not_gt hindex hfew
  exact UInt64.toNat_sub_of_le _ _ (UInt64.le_iff_toNat_le.mpr (by omega))

theorem Sound.sizeAfterBoth (hs : Sound initial s) (hmark : s.mark ≠ sizeMax) {n : UInt64}
    (hfew : ¬ n > s.dataSize - s.index) :
    (s.dataSize - (s.index - s.mark) - n).toNat =
      s.dataSize.toNat - (s.index.toNat - s.mark.toNat) - n.toNat := by
  have hafter := hs.sizeAfter hmark
  have hroom := room_of_not_gt hs.index_le hfew
  rw [UInt64.toNat_sub_of_le _ _ (UInt64.le_iff_toNat_le.mpr (by omega)), hafter]

theorem Sound.of_toNat (hindex : t.index.toNat ≤ t.dataSize.toNat)
    (hmark : t.mark = sizeMax ∨ t.mark ≤ t.index) (hsize : t.dataSize.toNat ≤ initial.toNat) :
    Sound initial t :=
  ⟨UInt64.le_iff_toNat_le.mpr hindex, hmark, UInt64.le_iff_toNat_le.mpr hsize⟩

theorem deleteMarkedBlock_sound (hs : Sound initial s)
    (h : MachineStream.deleteMarkedBlock.run s = .ok () t) : Sound initial t := by
  by_cases hmark : s.mark = sizeMax
  · simp [MachineStream.deleteMarkedBlock, hmark] at h
  · simp only [MachineStream.deleteMarkedBlock, EStateM.run_bind, EStateM.run_get, ne_eq, hmark,
      not_false_eq_true, ite_true, EStateM.run_set, EStateM.Result.ok.injEq, true_and] at h
    subst h
    have hle := UInt64.le_iff_toNat_le.mp (hs.mark_le.resolve_left hmark)
    have hindex := UInt64.le_iff_toNat_le.mp hs.index_le
    have hsize := UInt64.le_iff_toNat_le.mp hs.size_le
    have hafter := hs.sizeAfter hmark
    refine Sound.of_toNat ?_ (Or.inl rfl) ?_
    · dsimp only
      omega
    · dsimp only
      omega

theorem deleteBytesFromMark_sound (hs : Sound initial s) {n : UInt64}
    (h : (MachineStream.deleteBytesFromMark n).run s = .ok () t) : Sound initial t := by
  by_cases hmark : s.mark = sizeMax
  · simp [MachineStream.deleteBytesFromMark, hmark] at h
  · by_cases hfew : n > s.dataSize - s.index
    · simp [MachineStream.deleteBytesFromMark, hmark, hfew] at h
    · simp only [MachineStream.deleteBytesFromMark, EStateM.run_bind, EStateM.run_get, ne_eq, hmark,
        not_false_eq_true, ite_true, EStateM.run_set, hfew, ite_false, EStateM.Result.ok.injEq,
        true_and] at h
      subst h
      have hle := UInt64.le_iff_toNat_le.mp (hs.mark_le.resolve_left hmark)
      have hsize := UInt64.le_iff_toNat_le.mp hs.size_le
      have hroom := room_of_not_gt hs.index_le hfew
      have hrest := hs.sizeAfterBoth hmark hfew
      refine Sound.of_toNat ?_ (Or.inl rfl) ?_
      · dsimp only
        omega
      · dsimp only
        omega

theorem deleteBytesFromIndex_sound (hs : Sound initial s) {n : UInt64}
    (h : (MachineStream.deleteBytesFromIndex n).run s = .ok () t) : Sound initial t := by
  by_cases hfew : n > s.dataSize - s.index
  · simp [MachineStream.deleteBytesFromIndex, hfew] at h
  · simp only [MachineStream.deleteBytesFromIndex, EStateM.run_bind, EStateM.run_get, hfew,
      ite_false, EStateM.run_set, EStateM.Result.ok.injEq, true_and] at h
    subst h
    have hsize := UInt64.le_iff_toNat_le.mp hs.size_le
    have hroom := room_of_not_gt hs.index_le hfew
    have hrest := sizeAfterDelete hs.index_le hfew
    refine Sound.of_toNat ?_ hs.mark_le ?_
    · dsimp only
      omega
    · dsimp only
      omega

namespace Call

variable {call : Call}

theorem right_of_ok (hrun : call.perform.run s = .ok () t) :
    Right initial s call ↔ Sound initial t ∧ (call.Advances → s.index ≤ t.index) := by
  have hafter : call.after s = t := by rw [after, hrun, finalState_ok]
  constructor
  · intro h
    exact ⟨hafter ▸ h.sound, hafter ▸ h.forward⟩
  · rintro ⟨hsound, hforward⟩
    exact ⟨hafter ▸ hsound, hafter ▸ hforward⟩

/-- A call that reads or skips keeps the cursor in order exactly when its sum does not wrap; the
others do so always. -/
theorem right_iff_fits (hs : Sound initial s) (hreturns : Returns s call) :
    Right initial s call ↔ Fits s call := by
  have hrun := run_eq_ok hreturns
  generalize finalState (call.perform.run s) = t at hrun
  have hindex := s.index.toNat_lt
  rw [right_of_ok hrun]
  cases call with
  | read =>
    simpa [Advances, Fits, reach] using (took_of_reader hrun).kept_iff hs one_pos (by decide)
  | readUnsignedByte =>
    simpa [Advances, Fits, reach] using (took_of_reader hrun).kept_iff hs one_pos (by decide)
  | readUnsignedShort =>
    simpa [Advances, Fits, reach] using (took_of_reader hrun).kept_iff hs two_pos (by decide)
  | read3Byte =>
    have htook : Took 3 s t := by
      obtain ⟨value, hvalue⟩ := discard_ok hrun
      obtain ⟨bytes, u, hbytes, hpure⟩ := run_bind_ok.mp hvalue
      cases hpure
      exact readBytes_ok hbytes
    simpa [Advances, Fits, reach] using htook.kept_iff hs three_pos (by decide)
  | readUnsignedInt =>
    simpa [Advances, Fits, reach] using (took_of_reader hrun).kept_iff hs four_pos (by decide)
  | readQWord =>
    simpa [Advances, Fits, reach] using (took_of_reader hrun).kept_iff hs (by decide) le_rfl
  | readStdString =>
    obtain ⟨value, hvalue⟩ := discard_ok hrun
    simpa [Advances, Fits, reach, hindex] using readStdString_sound hs hvalue
  | readString =>
    obtain ⟨pointer, hpointer⟩ := discard_ok hrun
    simpa [Advances, Fits, reach, hindex] using readString_sound hs hpointer
  | skipBytes n => simpa [Advances, Fits, reach] using skipBytes_right_iff hs hrun
  | markPosition =>
    cases hrun
    have hsound : Sound initial { s with mark := s.index } :=
      ⟨hs.index_le, Or.inr (UInt64.le_refl _), hs.size_le⟩
    simpa [Advances, Fits, reach, hindex] using hsound
  | reset => simpa [Advances, Fits, reach, hindex] using reset_sound hs hrun
  | deleteMarkedBlock =>
    simpa [Advances, Fits, reach, hindex] using deleteMarkedBlock_sound hs hrun
  | deleteBytesFromMark n =>
    simpa [Advances, Fits, reach, hindex] using deleteBytesFromMark_sound hs hrun
  | deleteBytesFromIndex n =>
    simpa [Advances, Fits, reach, hindex] using deleteBytesFromIndex_sound hs hrun

end Call

theorem sound_received (data : UInt64 → UInt8) (size : UInt64) :
    Sound size (received data size) where
  index_le := by simp [UInt64.le_iff_toNat_le, received]
  mark_le := Or.inl rfl
  size_le := UInt64.le_refl _

/-- Along calls that return, the cursor stays in order exactly when no sum of a bounds check
wraps. -/
theorem bounds_kept_iff (data : UInt64 → UInt8) (size : UInt64) (calls : List Call)
    (hreturns : EachStep Call.after Call.Returns (received data size) calls) :
    EachStep Call.after (Right size) (received data size) calls ↔
      EachStep Call.after Call.Fits (received data size) calls := by
  have hkept : ∀ s call, Sound size s → Right size s call → Sound size (call.after s) :=
    fun _ _ _ h => h.sound
  exact hreturns.iff_of_inv hkept (fun _ _ hs h => Call.right_iff_fits hs h)
    (sound_received data size)

theorem bounds_kept_small :
    EachStep Call.after (Right 4) (received (fun _ => 0) 4)
      [.readUnsignedByte, .markPosition, .readUnsignedShort, .deleteMarkedBlock, .skipBytes 1] :=
  (bounds_kept_iff (fun _ => 0) 4
    [.readUnsignedByte, .markPosition, .readUnsignedShort, .deleteMarkedBlock, .skipBytes 1]
    (by decide)).mpr (by decide)

/-- With one of two bytes read, skipping by the largest `size_t` takes the byte back. -/
theorem skip_moves_back : ¬ ∀ (data : UInt64 → UInt8) (size : UInt64) (calls : List Call),
    EachStep Call.after Call.Returns (received data size) calls →
      EachStep Call.after (Right size) (received data size) calls := by
  intro h
  have hright := h (fun _ => 0) 2 [.readUnsignedByte, .skipBytes 0xFFFFFFFFFFFFFFFF] (by decide)
  exact absurd (hright.2.1.forward trivial) (by decide)

/-- The stream of the other modules, whose positions are numbers, at the same place. -/
structure Represents (s : MachineStream) (b : BasicStream) : Prop where
  index : b.index = s.index.toNat
  dataSize : b.dataSize = s.dataSize.toNat
  mark : b.mark = if s.mark = sizeMax then none else some s.mark.toNat
  data : ∀ i < s.dataSize, b.data[i.toNat]? = some (s.data i)

variable {b : BasicStream}

theorem Represents.mark_none (h : Represents s b) (hmark : s.mark = sizeMax) : b.mark = none := by
  rw [h.mark, if_pos hmark]

theorem Represents.mark_some (h : Represents s b) (hmark : s.mark ≠ sizeMax) :
    b.mark = some s.mark.toNat := by
  rw [h.mark, if_neg hmark]

theorem Represents.index_lt (h : Represents s b) : b.index < b.dataSize ↔ s.index < s.dataSize := by
  rw [h.index, h.dataSize, UInt64.lt_iff_toNat_lt]

theorem Represents.setIndex (h : Represents s b) {index : UInt64} {position : ℕ}
    (hposition : position = index.toNat) :
    Represents { s with index := index } { b with index := position } :=
  ⟨hposition, h.dataSize, h.mark, h.data⟩

/-- The position of a byte of the block as a `size_t`. -/
theorem toNat_add_of_lt {i n : UInt64} {j : ℕ} (h : i.toNat + j < n.toNat) :
    (i + UInt64.ofNat j).toNat = i.toNat + j := by
  have hn := n.toNat_lt
  rw [UInt64.toNat_add, UInt64.toNat_ofNat', Nat.mod_eq_of_lt (by omega : j < 2 ^ 64),
    Nat.mod_eq_of_lt (by omega)]

theorem Represents.bytes (h : Represents s b) {n : ℕ} (hn : s.index.toNat + n ≤ s.dataSize.toNat) :
    (b.data.drop b.index).take n =
      (List.range n).map fun i => s.data (s.index + UInt64.ofNat i) := by
  refine List.ext_getElem? fun i => ?_
  by_cases hi : i < n
  · have hposition := toNat_add_of_lt (i := s.index) (n := s.dataSize) (j := i) (by omega)
    have hbyte := h.data (s.index + UInt64.ofNat i) (by
      rw [UInt64.lt_iff_toNat_lt, hposition]
      omega)
    rw [hposition] at hbyte
    simp [hi, List.getElem?_drop, h.index, hbyte]
  · simp [hi]

theorem readBytes_alike (h : Represents s b) (hsmall : s.dataSize.toNat + 7 < 2 ^ 64)
    (hindex : s.index ≤ s.dataSize) {n : ℕ} (hn : 0 < n) (hn8 : n ≤ 8) :
    EndsAlike Represents ((readBytes n).run s) ((BasicStream.readBytes n).run b) := by
  have hsum : (s.index + UInt64.ofNat (n - 1)).toNat = s.index.toNat + (n - 1) := by
    simp only [UInt64.le_iff_toNat_le] at hindex
    rw [UInt64.toNat_add, UInt64.toNat_ofNat']
    omega
  by_cases hbound : b.index + (n - 1) < b.dataSize
  · have hmachine : s.index + UInt64.ofNat (n - 1) < s.dataSize := by
      rw [UInt64.lt_iff_toNat_lt, hsum, ← h.index, ← h.dataSize]
      exact hbound
    simp only [readBytes, BasicStream.readBytes, EStateM.run_bind, EStateM.run_get, hmachine,
      ite_true, EStateM.run_set, EStateM.run_pure, hbound]
    rw [h.index, h.dataSize] at hbound
    have hposition : b.index + n = (s.index + UInt64.ofNat n).toNat := by
      rw [h.index, UInt64.toNat_add, UInt64.toNat_ofNat']
      omega
    rw [h.bytes (by omega)]
    exact .ok _ (h.setIndex hposition)
  · have hmachine : ¬ s.index + UInt64.ofNat (n - 1) < s.dataSize := by
      rw [UInt64.lt_iff_toNat_lt, hsum, ← h.index, ← h.dataSize]
      exact hbound
    simp only [readBytes, BasicStream.readBytes, EStateM.run_bind, EStateM.run_get, hmachine,
      ite_false, hbound]
    exact .error _ h

/-- The loop passes the bytes in front of the next NUL. -/
theorem Represents.scan (h : Represents s b) {i : UInt64} (hi : i ≤ s.dataSize) :
    (s.scan i).1 = (b.contents.drop i.toNat).takeWhile (· ≠ 0) ∧
      (s.scan i).2.toNat = i.toNat + (s.scan i).1.length := by
  have hlength := b.contents_length
  rw [h.dataSize] at hlength
  induction i using MachineStream.scan.induct s with
  | case1 i hmore ih =>
    have hlt : i.toNat < s.dataSize.toNat := UInt64.lt_iff_toNat_lt.mp hmore.1
    have hnext := toNat_succ hmore.1
    obtain ⟨hbytes, hstop⟩ := ih (by rw [UInt64.le_iff_toNat_le, hnext]; omega)
    have hbyte : b.contents[i.toNat]? = some (s.data i) := by
      rw [BasicStream.contents, List.getElem?_take, h.dataSize, if_pos hlt, h.data i hmore.1]
    have hdrop : b.contents.drop i.toNat = s.data i :: b.contents.drop (i.toNat + 1) := by
      rw [List.drop_eq_getElem_cons (by omega)]
      rw [List.getElem?_eq_getElem (by omega), Option.some.injEq] at hbyte
      rw [hbyte]
    rw [MachineStream.scan, dif_pos hmore]
    dsimp only
    rw [hbytes, hstop, hdrop, hnext, List.takeWhile_cons_of_pos (by simpa using hmore.2)]
    refine ⟨rfl, ?_⟩
    rw [hbytes, hnext, List.length_cons]
    omega
  | case2 i hstop =>
    rw [MachineStream.scan, dif_neg hstop]
    refine ⟨?_, by simp⟩
    by_cases hlt : i < s.dataSize
    · have hzero : s.data i = 0 := by
        by_contra hne
        exact hstop ⟨hlt, hne⟩
      have hlt' : i.toNat < s.dataSize.toNat := UInt64.lt_iff_toNat_lt.mp hlt
      have hbyte : b.contents[i.toNat]? = some 0 := by
        rw [BasicStream.contents, List.getElem?_take, h.dataSize, if_pos hlt', h.data i hlt, hzero]
      rw [List.drop_eq_getElem_cons (by omega)]
      rw [List.getElem?_eq_getElem (by omega), Option.some.injEq] at hbyte
      rw [hbyte, List.takeWhile_cons_of_neg (by simp)]
    · rw [UInt64.lt_iff_toNat_lt] at hlt
      rw [List.drop_eq_nil_of_le (by omega), List.takeWhile_nil]

theorem Represents.stringEnd (h : Represents s b) (hindex : s.index < s.dataSize) :
    b.index + b.stringSpan = s.stringEnd.toNat := by
  obtain ⟨hbytes, hstop⟩ := h.scan (UInt64.le_of_lt hindex)
  have hwithin := (scan_bounds s (UInt64.le_of_lt hindex)).2
  have hlength := b.unread_length
  rw [← h.index] at hbytes hstop
  rw [h.dataSize] at hlength
  rw [BasicStream.stringSpan, BasicStream.unread, ← BasicStream.contents, ← hbytes]
  have hunread : (b.contents.drop b.index).length = s.dataSize.toNat - b.index := hlength
  simp only [UInt64.le_iff_toNat_le, UInt64.lt_iff_toNat_lt] at hwithin hindex
  unfold MachineStream.stringEnd
  split
  · rename_i hnul
    rw [toNat_succ hnul]
    simp only [UInt64.lt_iff_toNat_lt] at hnul
    omega
  · rename_i hnul
    simp only [UInt64.lt_iff_toNat_lt] at hnul
    omega

theorem readStdString_alike (h : Represents s b) :
    EndsAlike Represents (MachineStream.readStdString.run s) (BasicStream.readStdString.run b) := by
  by_cases hindex : s.index < s.dataSize
  · have hbasic : b.index < b.dataSize := h.index_lt.mpr hindex
    have hvalue : cStr b.unread = (s.scan s.index).1 := by
      rw [(h.scan (UInt64.le_of_lt hindex)).1, ← h.index]
      rfl
    simp only [MachineStream.readStdString, BasicStream.readStdString, EStateM.run_bind,
      EStateM.run_get, hindex, hbasic, ite_true, EStateM.run_set, EStateM.run_pure, hvalue]
    exact .ok _ (h.setIndex (h.stringEnd hindex))
  · have hbasic : ¬ b.index < b.dataSize := fun hlt => hindex (h.index_lt.mp hlt)
    simp only [MachineStream.readStdString, BasicStream.readStdString, EStateM.run_bind,
      EStateM.run_get, hindex, hbasic, ite_false]
    exact .error _ h

theorem readString_alike (h : Represents s b) :
    EndsAlike Represents (MachineStream.readString.run s) (BasicStream.readString.run b) := by
  by_cases hindex : s.index < s.dataSize
  · have hbasic : b.index < b.dataSize := h.index_lt.mpr hindex
    simp only [MachineStream.readString, BasicStream.readString, EStateM.run_bind,
      EStateM.run_get, hindex, hbasic, ite_true, EStateM.run_set, EStateM.run_pure, ← h.index]
    exact .ok _ (h.setIndex (h.stringEnd hindex))
  · have hbasic : ¬ b.index < b.dataSize := fun hlt => hindex (h.index_lt.mp hlt)
    simp only [MachineStream.readString, BasicStream.readString, EStateM.run_bind,
      EStateM.run_get, hindex, hbasic, ite_false]
    exact .error _ h

theorem skipBytes_alike (h : Represents s b) (n : UInt64) :
    EndsAlike Represents ((MachineStream.skipBytes n).run s)
      ((BasicStream.skipBytes n.toNat).run b) := by
  have htarget : (b.index + n.toNat) % 2 ^ 64 = (s.index + n).toNat := by
    rw [h.index, UInt64.toNat_add]
  by_cases hroom : s.index + n ≤ s.dataSize
  · have hbasic : (b.index + n.toNat) % 2 ^ 64 ≤ b.dataSize := by
      rw [htarget, h.dataSize]
      exact UInt64.le_iff_toNat_le.mp hroom
    simp only [MachineStream.skipBytes, BasicStream.skipBytes, EStateM.run_bind, EStateM.run_get,
      hroom, hbasic, ite_true, EStateM.run_set]
    exact .ok _ (h.setIndex htarget)
  · have hbasic : ¬ (b.index + n.toNat) % 2 ^ 64 ≤ b.dataSize := by
      rw [htarget, h.dataSize]
      exact fun hle => hroom (UInt64.le_iff_toNat_le.mpr hle)
    simp only [MachineStream.skipBytes, BasicStream.skipBytes, EStateM.run_bind, EStateM.run_get,
      hroom, hbasic, ite_false]
    exact .error _ h

theorem reset_alike (h : Represents s b) :
    EndsAlike Represents (MachineStream.reset.run s) (BasicStream.reset.run b) := by
  by_cases hmark : s.mark = sizeMax
  · simp only [MachineStream.reset, BasicStream.reset, EStateM.run_bind, EStateM.run_get, ne_eq,
      hmark, not_true_eq_false, ite_false, h.mark_none hmark]
    exact .error _ h
  · simp only [MachineStream.reset, BasicStream.reset, EStateM.run_bind, EStateM.run_get, ne_eq,
      hmark, not_false_eq_true, ite_true, h.mark_some hmark, EStateM.run_set]
    exact .ok _ ⟨rfl, h.dataSize, rfl, h.data⟩

/-- Moving a block of bytes down: at the target the bytes of the source, below it the old ones. -/
theorem Represents.memmove (h : Represents s b) {target source count : UInt64}
    (hle : target ≤ source) (hsource : source.toNat + count.toNat ≤ s.dataSize.toNat) {i : UInt64}
    (hi : i.toNat < target.toNat + count.toNat) :
    (BasicStream.memmove b.data target.toNat source.toNat count.toNat)[i.toNat]? =
      some (MachineStream.memmove s.data target source count i) := by
  have hblock := b.size_le
  have hsize := s.dataSize.toNat_lt
  rw [h.dataSize] at hblock
  rw [UInt64.le_iff_toNat_le] at hle
  have hhead : (b.data.take target.toNat).length = target.toNat := by
    rw [List.length_take]
    omega
  have hmoved : ((b.data.drop source.toNat).take count.toNat).length = count.toNat := by
    rw [List.length_take, List.length_drop]
    omega
  rw [BasicStream.memmove, List.getElem?_append_left (by rw [List.length_append]; omega)]
  by_cases hfront : i.toNat < target.toNat
  · have hkept : ¬ i - target < count := by
      rw [UInt64.lt_iff_toNat_lt, UInt64.toNat_sub]
      omega
    rw [List.getElem?_append_left (by omega), List.getElem?_take, if_pos hfront,
      MachineStream.memmove, if_neg hkept]
    exact h.data i (by rw [UInt64.lt_iff_toNat_lt]; omega)
  · have hoffset : (i - target).toNat = i.toNat - target.toNat :=
      UInt64.toNat_sub_of_le _ _ (UInt64.le_iff_toNat_le.mpr (by omega))
    have hinside : i - target < count := by
      rw [UInt64.lt_iff_toNat_lt, hoffset]
      omega
    have hfrom : (source + (i - target)).toNat = source.toNat + (i.toNat - target.toNat) := by
      rw [UInt64.toNat_add, hoffset, Nat.mod_eq_of_lt (by omega)]
    rw [List.getElem?_append_right (by omega), hhead, List.getElem?_take, if_pos (by omega),
      List.getElem?_drop, MachineStream.memmove, if_pos hinside, ← hfrom]
    exact h.data _ (by rw [UInt64.lt_iff_toNat_lt, hfrom]; omega)

theorem Represents.index_le (h : Represents s b) (hindex : s.index ≤ s.dataSize) :
    b.index ≤ b.dataSize := by
  rw [h.index, h.dataSize]
  exact UInt64.le_iff_toNat_le.mp hindex

theorem Represents.mark_le (h : Represents s b) (hs : Sound initial s) (hmark : s.mark ≠ sizeMax) :
    s.mark.toNat ≤ b.index := by
  rw [h.index]
  exact UInt64.le_iff_toNat_le.mp (hs.mark_le.resolve_left hmark)

/-- What lies behind the cursor has the same length in both streams. -/
theorem Represents.rest (h : Represents s b) (hindex : s.index ≤ s.dataSize) :
    (s.dataSize - s.index).toNat = b.dataSize - b.index := by
  rw [UInt64.toNat_sub_of_le _ _ hindex, h.dataSize, h.index]

theorem Represents.few_iff (h : Represents s b) (hindex : s.index ≤ s.dataSize) {n : UInt64} :
    n.toNat > b.dataSize - b.index ↔ n > s.dataSize - s.index := by
  rw [← h.rest hindex]
  exact UInt64.lt_iff_toNat_lt.symm

/-- The bytes behind the deleted ones move down to the target in both streams. -/
theorem Represents.moveDown (h : Represents s b) (hindex : s.index ≤ s.dataSize) {n : UInt64}
    (hfew : ¬ n > s.dataSize - s.index) {target : UInt64} (htarget : target ≤ s.index)
    {i : UInt64} (hi : i.toNat < target.toNat + (s.dataSize.toNat - s.index.toNat - n.toNat)) :
    (BasicStream.memmove b.data target.toNat (b.index + n.toNat)
      (b.dataSize - b.index - n.toNat))[i.toNat]? =
      some (MachineStream.memmove s.data target (s.index + n) (s.dataSize - s.index - n) i) := by
  have hbound := s.dataSize.toNat_lt
  have hroom := room_of_not_gt hindex hfew
  have hrest := h.rest hindex
  have hsource : (s.index + n).toNat = b.index + n.toNat := by
    rw [UInt64.toNat_add, Nat.mod_eq_of_lt (by omega), h.index]
  rw [h.index, h.dataSize] at hrest
  have hcount : (s.dataSize - s.index - n).toNat = b.dataSize - b.index - n.toNat := by
    rw [UInt64.toNat_sub_of_le _ _ (UInt64.not_lt.mp hfew), hrest, h.dataSize, h.index]
  have hbelow : target ≤ s.index + n := by
    rw [UInt64.le_iff_toNat_le] at htarget ⊢
    rw [hsource, h.index]
    omega
  rw [← hsource, ← hcount]
  refine h.memmove hbelow ?_ ?_
  · rw [hsource, hcount, h.index, h.dataSize]
    omega
  · rw [hcount, h.index, h.dataSize]
    exact hi

theorem deleteMarkedBlock_alike (h : Represents s b) (hs : Sound initial s) :
    EndsAlike Represents (MachineStream.deleteMarkedBlock.run s)
      (BasicStream.deleteMarkedBlock.run b) := by
  by_cases hmark : s.mark = sizeMax
  · simp only [MachineStream.deleteMarkedBlock, BasicStream.deleteMarkedBlock, EStateM.run_bind,
      EStateM.run_get, ne_eq, hmark, not_true_eq_false, ite_false, h.mark_none hmark]
    exact .error _ h
  · have hle : s.mark ≤ s.index := hs.mark_le.resolve_left hmark
    have hafter := hs.sizeAfter hmark
    have hmarked := h.mark_le hs hmark
    have hordered := h.index_le hs.index_le
    simp only [MachineStream.deleteMarkedBlock, BasicStream.deleteMarkedBlock, EStateM.run_bind,
      EStateM.run_get, ne_eq, hmark, not_false_eq_true, ite_true, h.mark_some hmark, hmarked,
      hordered, and_self, dite_true, EStateM.run_set]
    refine .ok _ ⟨rfl, ?_, rfl, fun i hi => ?_⟩
    · dsimp only
      rw [hafter, h.dataSize, h.index]
    · rw [UInt64.lt_iff_toNat_lt] at hi
      dsimp only at hi ⊢
      rw [h.index, h.dataSize] at hordered
      rw [h.index] at hmarked
      have hrest := h.rest hs.index_le
      rw [← hrest, h.index]
      rw [h.dataSize, h.index] at hrest
      exact h.memmove hle (by omega) (by omega)

theorem deleteBytesFromMark_alike (h : Represents s b) (hs : Sound initial s) (n : UInt64) :
    EndsAlike Represents ((MachineStream.deleteBytesFromMark n).run s)
      ((BasicStream.deleteBytesFromMark n.toNat).run b) := by
  by_cases hmark : s.mark = sizeMax
  · simp only [MachineStream.deleteBytesFromMark, BasicStream.deleteBytesFromMark,
      EStateM.run_bind, EStateM.run_get, ne_eq, hmark, not_true_eq_false, ite_false,
      h.mark_none hmark]
    exact .error _ h
  · have hle : s.mark ≤ s.index := hs.mark_le.resolve_left hmark
    have hmarked := h.mark_le hs hmark
    have hordered := h.index_le hs.index_le
    have hsize : b.dataSize - (b.index - s.mark.toNat) =
        (s.dataSize - (s.index - s.mark)).toNat := by
      rw [hs.sizeAfter hmark, h.dataSize, h.index]
    by_cases hfew : n > s.dataSize - s.index
    · have hfew' := (h.few_iff hs.index_le).mpr hfew
      simp only [MachineStream.deleteBytesFromMark, BasicStream.deleteBytesFromMark,
        EStateM.run_bind, EStateM.run_get, ne_eq, hmark, not_false_eq_true, ite_true,
        h.mark_some hmark, hmarked, hordered, and_self, dite_true, EStateM.run_set, hfew, hfew']
      refine .error _ ⟨h.index, hsize, ?_, fun i hi => h.data i ?_⟩
      · dsimp only
        rw [if_neg hmark]
      · rw [UInt64.lt_iff_toNat_lt] at hi ⊢
        dsimp only at hi
        rw [← hsize, h.dataSize] at hi
        omega
    · have hfew' : ¬ n.toNat > b.dataSize - b.index := fun hlt =>
        hfew ((h.few_iff hs.index_le).mp hlt)
      simp only [MachineStream.deleteBytesFromMark, BasicStream.deleteBytesFromMark,
        EStateM.run_bind, EStateM.run_get, ne_eq, hmark, not_false_eq_true, ite_true,
        h.mark_some hmark, hmarked, hordered, and_self, dite_true, EStateM.run_set, hfew, hfew',
        ite_false, dite_false]
      have hrest := hs.sizeAfterBoth hmark hfew
      refine .ok _ ⟨rfl, ?_, rfl, fun i hi => h.moveDown hs.index_le hfew hle ?_⟩
      · dsimp only
        rw [hrest, h.dataSize, h.index]
      · rw [UInt64.lt_iff_toNat_lt] at hi
        rw [h.index] at hmarked
        dsimp only at hi
        omega

theorem deleteBytesFromIndex_alike (h : Represents s b) (hindex : s.index ≤ s.dataSize)
    (n : UInt64) :
    EndsAlike Represents ((MachineStream.deleteBytesFromIndex n).run s)
      ((BasicStream.deleteBytesFromIndex n.toNat).run b) := by
  have hordered := h.index_le hindex
  have hcopied : b.bytesToCopy = b.dataSize - b.index := by
    rw [BasicStream.bytesToCopy, if_pos hordered]
  by_cases hfew : n > s.dataSize - s.index
  · have hfew' : n.toNat > b.bytesToCopy := by
      rw [hcopied]
      exact (h.few_iff hindex).mpr hfew
    simp only [MachineStream.deleteBytesFromIndex, BasicStream.deleteBytesFromIndex,
      EStateM.run_bind, EStateM.run_get, hfew, hfew', ite_true, dite_true]
    exact .error _ h
  · have hfew' : ¬ n.toNat > b.bytesToCopy := by
      rw [hcopied]
      exact fun hlt => hfew ((h.few_iff hindex).mp hlt)
    simp only [MachineStream.deleteBytesFromIndex, BasicStream.deleteBytesFromIndex,
      EStateM.run_bind, EStateM.run_get, hfew, hfew', ite_false, dite_false, hordered, dite_true,
      EStateM.run_set]
    have hrest := sizeAfterDelete hindex hfew
    refine .ok _ ⟨h.index, ?_, h.mark, fun i hi => ?_⟩
    · dsimp only
      rw [hrest, h.dataSize]
    · rw [UInt64.lt_iff_toNat_lt] at hi
      dsimp only at hi ⊢
      rw [hcopied, h.index]
      have hmoved := h.moveDown hindex hfew (UInt64.le_refl _) (i := i) (by omega)
      rwa [h.index] at hmoved

namespace Call

def onBasic : Call → StreamM Unit
  | read => discard BasicStream.read
  | readUnsignedByte => discard BasicStream.readUnsignedByte
  | readUnsignedShort => discard BasicStream.readUnsignedShort
  | read3Byte => discard BasicStream.read3Byte
  | readUnsignedInt => discard BasicStream.readUnsignedInt
  | readQWord => discard BasicStream.readQWord
  | readStdString => discard BasicStream.readStdString
  | readString => discard BasicStream.readString
  | skipBytes n => BasicStream.skipBytes n.toNat
  | markPosition => BasicStream.markPosition
  | reset => BasicStream.reset
  | deleteMarkedBlock => BasicStream.deleteMarkedBlock
  | deleteBytesFromMark n => BasicStream.deleteBytesFromMark n.toNat
  | deleteBytesFromIndex n => BasicStream.deleteBytesFromIndex n.toNat

end Call

/-- On a block that ends well before the address space does, every call does the same to both
streams. -/
theorem perform_alike (h : Represents s b) (hs : Sound initial s)
    (hsmall : initial.toNat + 7 < 2 ^ 64) (call : Call) :
    EndsAlike Represents (call.perform.run s) (call.onBasic.run b) := by
  have hindex := hs.index_le
  have hsize : s.dataSize.toNat + 7 < 2 ^ 64 := by
    have hle := UInt64.le_iff_toNat_le.mp hs.size_le
    omega
  have hread {n : ℕ} (hn : 0 < n) (hn8 : n ≤ 8) := readBytes_alike h hsize hindex hn hn8
  cases call with
  | read => exact ((hread one_pos (by decide)).map _).map _
  | readUnsignedByte => exact ((hread one_pos (by decide)).map _).map _
  | readUnsignedShort => exact ((hread two_pos (by decide)).map _).map _
  | read3Byte => exact ((hread three_pos (by decide)).map _).map _
  | readUnsignedInt => exact ((hread four_pos (by decide)).map _).map _
  | readQWord => exact ((hread (by decide) le_rfl).map _).map _
  | readStdString => exact (readStdString_alike h).map _
  | readString => exact (readString_alike h).map _
  | skipBytes n => exact skipBytes_alike h n
  | markPosition =>
    have hset : s.index ≠ sizeMax := by
      intro hmax
      rw [UInt64.le_iff_toNat_le, hmax] at hindex
      have hvalue : sizeMax.toNat = 2 ^ 64 - 1 := rfl
      omega
    refine .ok _ ⟨h.index, h.dataSize, ?_, h.data⟩
    dsimp only
    rw [if_neg hset, h.index]
  | reset => exact reset_alike h
  | deleteMarkedBlock => exact deleteMarkedBlock_alike h hs
  | deleteBytesFromMark n => exact deleteBytesFromMark_alike h hs n
  | deleteBytesFromIndex n => exact deleteBytesFromIndex_alike h hindex n

theorem calls_alike (h : Represents s b) (hs : Sound initial s)
    (hsmall : initial.toNat + 7 < 2 ^ 64) {calls : List Call}
    (hreturns : EachStep Call.after Call.Returns s calls)
    (hfits : EachStep Call.after Call.Fits s calls) :
    Represents (calls.foldl Call.after s)
      (calls.foldl (fun b call => finalState (call.onBasic.run b)) b) := by
  induction calls generalizing s b with
  | nil => exact h
  | cons call calls ih =>
    have hnext := (perform_alike h hs hsmall call).finalState
    have hright := (Call.right_iff_fits hs hreturns.1).mpr hfits.1
    exact ih hnext hright.sound hreturns.2 hfits.2

end Win64Server.CursorBounds
