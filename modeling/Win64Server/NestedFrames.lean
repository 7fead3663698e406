import Win64Server.StreamWriting

/-!
Frames inside frames. A frame of either kind is opened with a header whose size field is filled in
when the frame is closed, at a position saved in the stack of open frames; in between anything
may be written, further frames included, and the block may move. The positions are saved as `int`s.
-/
namespace Win64Server.NestedFrames

open Outcome BasicStream

inductive Write
  | byte (value : ℤ)
  | short (value : ℤ)
  | threeByte (value : ℤ)
  | int (value : ℤ)
  | qword (value : ℤ)

namespace Write

def perform : Write → StreamM Unit
  | byte value => writeByte value
  | short value => writeShort value
  | threeByte value => write3Byte value
  | int value => writeInt value
  | qword value => writeQWord value

def bytes : Write → List UInt8
  | byte value => beBytes 1 value
  | short value => beBytes 2 value
  | threeByte value => beBytes 3 value
  | int value => beBytes 4 value
  | qword value => beBytes 8 value

theorem perform_run (w : Write) {s : BasicStream} (h : s.index ≤ s.dataSize) :
    ∃ t, w.perform.run s = .ok () t ∧ Appended s w.bytes t := by
  cases w <;> exact writeBytes_appends _ _ h

end Write

inductive Kind
  | byte
  | word

namespace Kind

/-- The bytes of the size field. -/
def width : Kind → ℕ
  | byte => 1
  | word => 2

/-- The largest payload whose size can be stored. -/
def limit : Kind → ℕ
  | byte => 255
  | word => 65535

def create : Kind → ℤ → StreamM Unit
  | byte => createFrameVarSize
  | word => createFrameVarSizeWord

def finish : Kind → StreamM Unit
  | byte => endFrameVarSize
  | word => endFrameVarSizeWord

theorem create_eq (kind : Kind) (id : ℤ) : kind.create id = openFrame kind.width id := by
  cases kind <;> rfl

theorem finish_eq (kind : Kind) : kind.finish = closeFrame kind.width := by cases kind <;> rfl

theorem lt_pow_width {kind : Kind} {n : ℕ} (h : n ≤ kind.limit) : n < 256 ^ kind.width := by
  cases kind <;> simp only [limit, width] at h ⊢ <;> omega

end Kind

/-- A properly nested sequence of calls. -/
inductive Calls
  | done
  | write (w : Write) (rest : Calls)
  | frame (kind : Kind) (id : ℤ) (payload rest : Calls)

/-- A frame that has been closed, with the stream before it was opened, right before it was closed
and right after. -/
structure Closing where
  kind : Kind
  opened : BasicStream
  before : BasicStream
  after : BasicStream

namespace Calls

def perform : Calls → StreamM Unit
  | done => pure ()
  | write w rest => do
    w.perform
    rest.perform
  | frame kind id payload rest => do
    kind.create id
    payload.perform
    kind.finish
    rest.perform

/-- What the calls leave in the stream. -/
def bytes : Calls → List UInt8
  | done => []
  | write w rest => w.bytes ++ rest.bytes
  | frame kind id payload rest =>
    beBytes 1 id ++ beBytes kind.width payload.bytes.length ++ payload.bytes ++ rest.bytes

/-- How many frames are open at once. -/
def depth : Calls → ℕ
  | done => 0
  | write _ rest => rest.depth
  | frame _ _ payload rest => max (payload.depth + 1) rest.depth

/-- Every payload is short enough for the size field of its frame. -/
def Sized : Calls → Prop
  | done => True
  | write _ rest => rest.Sized
  | frame kind _ payload rest => payload.bytes.length ≤ kind.limit ∧ payload.Sized ∧ rest.Sized

/-- Every payload begins at a position that an `int` can hold, when the calls begin here. -/
def Narrow : ℕ → Calls → Prop
  | _, done => True
  | start, write w rest => rest.Narrow (start + w.bytes.length)
  | start, frame kind _ payload rest =>
    start + (1 + kind.width) < 2 ^ 31 ∧ payload.Narrow (start + (1 + kind.width)) ∧
      rest.Narrow (start + (1 + kind.width) + payload.bytes.length)

/-- The frames that are closed when the calls are made on this stream. -/
def closings : Calls → BasicStream → List Closing
  | done, _ => []
  | write w rest, s => rest.closings (finalState (w.perform.run s))
  | frame kind id payload rest, s =>
    let start := finalState ((kind.create id).run s)
    let before := finalState (payload.perform.run start)
    let after := finalState (kind.finish.run before)
    payload.closings start ++ ⟨kind, s, before, after⟩ :: rest.closings after

end Calls

/-- The size field of a closed frame spells the number of bytes written after it, and nothing else
has changed. -/
structure Closing.Exact (c : Closing) : Prop where
  size : beNat ((c.after.data.drop (c.opened.index + 1)).take c.kind.width) =
    c.before.index - (c.opened.index + 1 + c.kind.width)
  others : ∀ i, i < c.opened.index + 1 ∨ c.opened.index + 1 + c.kind.width ≤ i →
    c.after.data[i]? = c.before.data[i]?
  index : c.after.index = c.before.index
  dataSize : c.after.dataSize = c.before.dataSize
  frames : c.after.frameStack = c.opened.frameStack

section Closing

variable {kind : Kind} {start : ℕ} {s t : BasicStream} {frames : List ℤ}

/-- One frame is closed, whatever has been written since it was opened. -/
theorem finish_run (hframes : s.frameStack = (start : ℤ) :: frames)
    (hwidth : 1 + kind.width ≤ start) (hstart : start ≤ s.index) (h : s.index ≤ s.dataSize)
    (hsize : s.index - start ≤ kind.limit) :
    ∃ t, kind.finish.run s = .ok () t ∧ t.index = s.index ∧ t.dataSize = s.dataSize ∧
      t.frameStack = frames ∧
      t.written = s.written.take (start - kind.width) ++
        beBytes kind.width ((s.index - start : ℕ) : ℤ) ++ s.written.drop start ∧
      beNat ((t.data.drop (start - kind.width)).take kind.width) = s.index - start ∧
      ∀ i, i < start - kind.width ∨ start ≤ i → t.data[i]? = s.data[i]? := by
  have hblock := s.size_le
  obtain ⟨t, hrun, hindex, hdataSize, hstack, hdata⟩ :=
    closeFrame_run kind.width hframes (by omega) hstart h
  have hwritten := written_closed (by omega) hstart h hindex hdata
  have hcast : ((s.index - start : ℕ) : ℤ) = (s.index : ℤ) - start := Int.ofNat_sub hstart
  rw [← hcast] at hdata hwritten
  have hlen : (s.data.take (start - kind.width)).length = start - kind.width := by
    rw [List.length_take]
    omega
  have hfield : (beBytes kind.width ((s.index - start : ℕ) : ℤ)).length = kind.width :=
    beBytes_length _ _
  refine ⟨t, by rw [kind.finish_eq]; exact hrun, hindex, hdataSize, hstack, hwritten, ?_, ?_⟩
  · rw [hdata, List.append_assoc, List.drop_left' hlen, List.take_left' hfield]
    exact beNat_beBytes_of_lt (Kind.lt_pow_width hsize)
  · rintro i (hlow | hhigh)
    · rw [hdata, List.append_assoc, List.getElem?_append_left (by omega),
        List.getElem?_take_of_lt hlow]
    · have hhead : (s.data.take (start - kind.width) ++
          beBytes kind.width ((s.index - start : ℕ) : ℤ)).length = start := by
        rw [List.length_append, hlen, hfield]
        omega
      rw [hdata, List.getElem?_append_right (by omega), hhead, List.getElem?_drop]
      congr 1
      omega

/-- A frame whose payload has been written is closed. -/
theorem frame_run {id : ℤ} {payload : List UInt8} {u v : BasicStream} (h : s.index ≤ s.dataSize)
    (hwritten : u.written = s.written ++ beBytes 1 id ++ beBytes kind.width 0)
    (hindex : u.index = s.index + (1 + kind.width)) (hnarrow : u.index < 2 ^ 31)
    (hframes : u.frameStack = toInt32 u.index :: s.frameStack) (hv : Appended u payload v)
    (hsize : payload.length ≤ kind.limit) :
    ∃ w, kind.finish.run v = .ok () w ∧
      Appended s (beBytes 1 id ++ beBytes kind.width payload.length ++ payload) w ∧
      (⟨kind, s, v, w⟩ : Closing).Exact := by
  have hvindex := hv.index
  have hvframes : v.frameStack = (u.index : ℤ) :: s.frameStack := by
    rw [hv.frames, hframes, toInt32_of_lt (by omega) (by omega)]
  have hlength : v.index - u.index = payload.length := by omega
  have hheader : 1 + kind.width ≤ u.index := by omega
  obtain ⟨w, hrun, hwindex, hwsize, hwframes, hwwritten, hfield, hothers⟩ :=
    finish_run hvframes hheader (by omega) hv.bounded (by rw [hlength]; exact hsize)
  have hfront : u.index - kind.width = s.index + 1 := by omega
  have hback : s.index + 1 + kind.width = u.index := by omega
  rw [hfront, hlength] at hwwritten
  rw [hfront] at hfield hothers
  refine ⟨w, hrun, ⟨?_, ?_, hwframes, by rw [hwindex, hwsize]; exact hv.bounded⟩, ⟨?_, ?_, hwindex,
    hwsize, hwframes⟩⟩
  · have hhead : (s.written ++ beBytes 1 id).length = s.index + 1 := by
      rw [List.length_append, written_length h, beBytes_length]
    have hall : (s.written ++ beBytes 1 id ++ beBytes kind.width 0).length = u.index := by
      rw [List.length_append, hhead, beBytes_length, hback]
    have htake : (s.written ++ beBytes 1 id ++ beBytes kind.width 0 ++ payload).take
        (s.index + 1) = s.written ++ beBytes 1 id := by
      rw [List.append_assoc (s.written ++ beBytes 1 id), List.take_left' hhead]
    rw [hwwritten, hv.written, hwritten, List.drop_left' hall, htake]
    simp only [List.append_assoc]
  · rw [hwindex, hvindex, hindex]
    simp only [List.length_append, beBytes_length]
    omega
  · rw [hback]
    exact hfield
  · rw [hback]
    exact hothers

end Closing

/-- As long as the payloads begin below two gigabytes, the calls write their bytes, restore the
stack, and close every frame exactly. -/
theorem calls_exact (calls : Calls) {s : BasicStream} (h : s.index ≤ s.dataSize)
    (hdepth : s.frameStack.length + calls.depth ≤ frameStackSize) (hsized : calls.Sized)
    (hnarrow : calls.Narrow s.index) :
    ∃ t, calls.perform.run s = .ok () t ∧ Appended s calls.bytes t ∧
      ∀ c ∈ calls.closings s, c.Exact := by
  induction calls generalizing s with
  | done => exact ⟨s, rfl, .refl h, by simp [Calls.closings]⟩
  | write w rest ih =>
    obtain ⟨u, hrun, hu⟩ := w.perform_run h
    rw [Calls.Narrow, ← hu.index] at hnarrow
    obtain ⟨t, hrest, ht, hclosings⟩ :=
      ih hu.bounded (by rw [hu.frames]; exact hdepth) hsized hnarrow
    refine ⟨t, (run_bind_of_ok hrun).trans hrest, hu.trans ht, ?_⟩
    rw [Calls.closings, hrun, finalState_ok]
    exact hclosings
  | frame kind id payload rest ihpayload ihrest =>
    obtain ⟨hstart, hinner, houter⟩ := hnarrow
    obtain ⟨hsize, hpayload, hrest⟩ := hsized
    simp only [Calls.depth] at hdepth
    have hmax := Nat.le_max_left (payload.depth + 1) rest.depth
    have hmax' := Nat.le_max_right (payload.depth + 1) rest.depth
    obtain ⟨u, hopen, hwritten, hindex, hbounded, hframes, -⟩ :=
      openFrame_run kind.width id h (by omega)
    rw [← kind.create_eq] at hopen
    rw [← hindex] at hstart hinner houter
    obtain ⟨v, hbody, hv, hclosings⟩ := ihpayload hbounded
      (by rw [hframes, List.length_cons]; omega) hpayload hinner
    obtain ⟨w, hclose, hw, hexact⟩ :=
      frame_run h hwritten hindex hstart hframes hv hsize
    have hwindex : w.index = u.index + payload.bytes.length := by
      rw [hw.index, hindex]
      simp only [List.length_append, beBytes_length]
      omega
    obtain ⟨t, hlast, ht, hclosings'⟩ := ihrest hw.bounded (by rw [hw.frames]; omega) hrest
      (by rw [hwindex]; exact houter)
    refine ⟨t, ?_, hw.trans ht, ?_⟩
    · rw [Calls.perform, run_bind_of_ok hopen, run_bind_of_ok hbody, run_bind_of_ok hclose, hlast]
    · rw [Calls.closings, hopen, finalState_ok, hbody, finalState_ok, hclose, finalState_ok]
      intro c hc
      rcases List.mem_append.mp hc with hc | hc
      · exact hclosings c hc
      · rcases List.mem_cons.mp hc with rfl | hc
        · exact hexact
        · exact hclosings' c hc

/-- A word frame with a number and a byte frame in it, and another byte frame. -/
def twoInOne : Calls :=
  .frame .word 9 (.write (.int 1) (.frame .byte 7 (.write (.short 2) .done) .done))
    (.frame .byte 8 .done .done)

theorem twoInOne_exact : ∃ t, twoInOne.perform.run .empty = .ok () t ∧
    Appended .empty [9, 0, 8, 0, 0, 0, 1, 7, 2, 0, 2, 8, 0] t ∧
    ∀ c ∈ twoInOne.closings .empty, c.Exact :=
  calls_exact twoInOne (Nat.zero_le _) (by decide)
    (by simp [twoInOne, Calls.Sized, Calls.bytes, Write.bytes, Kind.limit, Kind.width])
    (by simp [twoInOne, Calls.Narrow, Calls.bytes, Write.bytes, Kind.width, BasicStream.empty,
      preallocated])

section Overflow

/-- So many long numbers come first. -/
def Calls.after : ℕ → Calls → Calls
  | 0, calls => calls
  | n + 1, calls => .write (.qword 0) (calls.after n)

theorem after_run (n : ℕ) (calls : Calls) {s : BasicStream} (h : s.index ≤ s.dataSize) :
    ∃ t, (calls.after n).perform.run s = calls.perform.run t ∧ t.index = s.index + 8 * n ∧
      t.frameStack = s.frameStack ∧ t.index ≤ t.dataSize := by
  induction n generalizing s with
  | zero => exact ⟨s, rfl, rfl, rfl, h⟩
  | succ n ih =>
    obtain ⟨u, hrun, hu⟩ := (Write.qword 0).perform_run h
    obtain ⟨t, hrest, hindex, hframes, hbounded⟩ := ih hu.bounded
    have hlength : (Write.qword 0).bytes.length = 8 := beBytes_length 8 0
    have huindex := hu.index
    refine ⟨t, (run_bind_of_ok hrun).trans hrest, by omega, hframes.trans hu.frames, hbounded⟩

theorem after_depth (n : ℕ) (calls : Calls) : (calls.after n).depth = calls.depth := by
  induction n with
  | zero => rfl
  | succ n ih => exact ih

theorem after_sized (n : ℕ) {calls : Calls} (h : calls.Sized) : (calls.after n).Sized := by
  induction n with
  | zero => exact h
  | succ n ih => exact ih

/-- From two gigabytes on the saved position is negative, and the frame cannot be closed. -/
theorem frame_overflow {s : BasicStream} (h : s.index ≤ s.dataSize) (hframes : s.frameStack = [])
    (hlow : 2 ^ 31 ≤ s.index + 2) (hhigh : s.index + 2 < 2 ^ 32) :
    ∃ t, (Calls.frame .byte 0 .done .done).perform.run s =
      .error (.undefined .writePastEnd) t := by
  obtain ⟨u, hopen, -, hindex, -, hstack, -⟩ :=
    openFrame_run 1 0 h (by rw [hframes]; exact Nat.zero_lt_succ _)
  have hcreate : (Kind.byte.create 0).run s = .ok () u := hopen
  have hneg : toInt32 u.index < 0 := by
    rw [toInt32_of_ge (by omega) (by omega)]
    omega
  have hnot : ¬ ((1 : ℕ) : ℤ) ≤ toInt32 u.index := by omega
  have hclose : (closeFrame 1).run u = .error (.undefined .writePastEnd) u := by
    simp only [closeFrame, EStateM.run_bind, EStateM.run_get, hstack, hnot, if_false]
    rfl
  refine ⟨u, ?_⟩
  have hdone : Calls.done.perform.run u = .ok () u := rfl
  rw [Calls.perform, run_bind_of_ok hcreate, run_bind_of_ok hdone]
  exact run_bind_of_error hclose

end Overflow

/-- A byte frame behind two gigabytes of numbers. -/
theorem frames_overflow : ¬ ∀ (calls : Calls) (s : BasicStream), s.index ≤ s.dataSize →
    s.frameStack.length + calls.depth ≤ frameStackSize → calls.Sized →
    ∃ t, calls.perform.run s = .ok () t ∧ Appended s calls.bytes t ∧
      ∀ c ∈ calls.closings s, c.Exact := by
  intro h
  obtain ⟨n, hn⟩ : ∃ n : ℕ, 8 * n = 2 ^ 31 := ⟨2 ^ 28, by norm_num⟩
  have hframe : (Calls.frame .byte 0 .done .done).Sized := ⟨Nat.zero_le _, trivial, trivial⟩
  obtain ⟨t, hrun, -⟩ := h ((Calls.frame .byte 0 .done .done).after n) .empty (Nat.zero_le _)
    (by rw [after_depth]; decide) (after_sized n hframe)
  obtain ⟨u, hafter, hindex, hframes, hbounded⟩ :=
    after_run n (.frame .byte 0 .done .done) (s := .empty) (Nat.zero_le _)
  have huindex : u.index = 8 * n := hindex.trans (Nat.zero_add _)
  obtain ⟨v, hfault⟩ := frame_overflow hbounded hframes (by omega) (by omega)
  rw [hafter, hfault] at hrun
  cases hrun

end Win64Server.NestedFrames
