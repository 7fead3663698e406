import Win64Server.MessageCapacity

/-!
What the messages say. A message is a frame around a sequence of fields, each a number of fixed
width or a string with its NUL; built in a stream with enough room, it is the frame number, the
size if the frame has one, and the fields one after the other.
-/
namespace Win64Server.MessageContents

open Outcome Library BasicStream MessageCapacity

inductive Piece
  | number (width : ℕ) (value : ℤ)
  | text (value : CxxString)

namespace Piece

def write : Piece → StreamM Unit
  | number width value => writeBytes width value
  | text value => writeString value

def bytes : Piece → List UInt8
  | number width value => beBytes width value
  | text value => cStr value ++ [0]

def demand : Piece → Demands → Demands
  | number width _, next => .reserved width next
  | text value, next => MessageCapacity.text value next

/-- The bytes of a message behind its header. -/
def body (pieces : List Piece) : List UInt8 := pieces.flatMap bytes

/-- One field in its place. -/
theorem body_piece (front rest : List Piece) (piece : Piece) :
    ((body (front ++ piece :: rest)).drop (body front).length).take piece.bytes.length =
      piece.bytes := by
  have hsplit : body (front ++ piece :: rest) = body front ++ (piece.bytes ++ body rest) := by
    simp [body]
  rw [hsplit, List.drop_left, List.take_left]

/-- Enough space: each string finds the room it needs when its turn comes. -/
def Fit (pieces : List Piece) (room : ℕ) : Prop := (pieces.foldr demand .done).Fits room

end Piece

open Piece

/-- A message without a size field. -/
def plain (id : ℤ) (pieces : List Piece) : StreamM Unit := do
  createFrame id
  pieces.forM Piece.write

/-- A message whose size is filled in at the end. -/
def sized (width : ℕ) (id : ℤ) (pieces : List Piece) : StreamM Unit := do
  openFrame width id
  pieces.forM Piece.write
  closeFrame width

variable {pieces : List Piece} {s : BasicStream}

theorem fit_of_length {room : ℕ} (h : (body pieces).length ≤ room) : Fit pieces room := by
  induction pieces generalizing room with
  | nil => trivial
  | cons piece pieces ih =>
    rw [body, List.flatMap_cons, List.length_append, ← body] at h
    cases piece with
    | number width value =>
      have hwidth : (number width value).bytes.length = width := beBytes_length _ _
      have hroom : Demands.afterReserved room width = room - width := if_pos (by omega)
      change (pieces.foldr demand .done).Fits (Demands.afterReserved room width)
      rw [hroom]
      exact ih (by omega)
    | text value =>
      have hlength : (Piece.text value).bytes.length = (cStr value).length + 1 := by simp [bytes]
      exact ⟨by omega, ih (by omega)⟩

theorem write_run (piece : Piece) (h : s.index ≤ s.dataSize)
    (hfit : Fit (piece :: pieces) s.room) :
    ∃ t, piece.write.run s = .ok () t ∧ Appended s piece.bytes t ∧ Fit pieces t.room := by
  cases piece with
  | number width value =>
    obtain ⟨t, hrun, ht, hsize⟩ := writeBytes_run width value h
    have hroom : t.room = Demands.afterReserved s.room width := by
      have hindex : t.index = s.index + width := by rw [ht.index, beBytes_length]
      unfold room Demands.afterReserved
      rw [hindex, hsize]
      by_cases hfits : s.index + width ≤ s.dataSize
      · rw [if_pos hfits, if_pos (by omega)]
        omega
      · rw [if_neg hfits, if_neg (by omega)]
        omega
    refine ⟨t, hrun, ht, ?_⟩
    rw [hroom]
    exact hfit
  | text value =>
    have hlength : (cStr value ++ [0]).length = (cStr value).length + 1 := by simp
    obtain ⟨hroom, hrest⟩ := hfit
    obtain ⟨t, hrun, ht, hsize⟩ := (forM_put_run (cStr value ++ [0]) h).1 (by omega)
    have hleft : t.room = s.room - ((cStr value).length + 1) := by
      have hindex : t.index = s.index + ((cStr value).length + 1) := by rw [ht.index, hlength]
      unfold room
      rw [hindex, hsize]
      omega
    exact ⟨t, hrun, ht, hleft ▸ hrest⟩

theorem forM_write_run (h : s.index ≤ s.dataSize) (hfit : Fit pieces s.room) :
    ∃ t, (pieces.forM Piece.write).run s = .ok () t ∧ Appended s (body pieces) t := by
  induction pieces generalizing s with
  | nil => exact ⟨s, rfl, .refl h⟩
  | cons piece pieces ih =>
    obtain ⟨u, hrun, hu, hrest⟩ := write_run piece h hfit
    obtain ⟨t, hrun', ht⟩ := ih hu.bounded hrest
    refine ⟨t, ?_, hu.trans ht⟩
    rw [List.forM_eq_forM, List.forM_cons, run_bind_of_ok hrun]
    exact hrun'

theorem plain_run (id : ℤ) (block : List UInt8) (hblock : 1 ≤ block.length)
    (hfit : Fit pieces (block.length - 1)) :
    ∃ t, (plain id pieces).run (preallocated block) = .ok () t ∧
      t.written = toChar id :: body pieces := by
  obtain ⟨u, hid, hu, hsize⟩ :=
    (forM_put_run (beBytes 1 id) (s := preallocated block) (Nat.zero_le _)).1 hblock
  have hroom : u.room = block.length - 1 := by
    unfold room
    rw [hsize, hu.index]
    rfl
  obtain ⟨t, hrun, ht⟩ := forM_write_run hu.bounded (hroom ▸ hfit)
  refine ⟨t, (run_bind_of_ok hid).trans hrun, ?_⟩
  rw [ht.written, hu.written]
  rfl

theorem sized_run {width : ℕ} (hwidth : width ≤ 2) (id : ℤ) (block : List UInt8)
    (hblock : 1 + width ≤ block.length) (hfit : Fit pieces (block.length - (1 + width))) :
    ∃ t, (sized width id pieces).run (preallocated block) = .ok () t ∧
      t.written = toChar id :: (beBytes width (body pieces).length ++ body pieces) := by
  obtain ⟨u, hopen, hu, hroom, huindex⟩ := opened_openFrame id hwidth block hblock
  obtain ⟨u', hopen', huwritten, -⟩ := openFrame_run width id (s := preallocated block)
    (Nat.zero_le _) (Nat.zero_lt_succ _)
  obtain rfl : u = u' := by
    rw [hopen] at hopen'
    cases hopen'
    rfl
  obtain ⟨v, hwrite, hv⟩ := forM_write_run hu.bounded (hroom ▸ hfit)
  have hvopen := opened_of_appended hu hv
  obtain ⟨t, hclose, htindex, -, -, htdata⟩ :=
    closeFrame_run width hvopen.frames (by omega) hvopen.header hvopen.bounded
  have hwritten := written_closed (by omega) hvopen.header hvopen.bounded htindex htdata
  have hcount : ((v.index : ℕ) : ℤ) - ((1 + width : ℕ) : ℤ) = (body pieces).length := by
    rw [hv.index, huindex]
    omega
  have hhead : v.written = toChar id :: (beBytes width 0 ++ body pieces) := by
    rw [hv.written, huwritten]
    rfl
  have hzeros : (beBytes width 0).length = width := beBytes_length _ _
  have hback : 1 + width - width = 1 := by omega
  refine ⟨t, (run_bind_of_ok hopen).trans ((run_bind_of_ok hwrite).trans hclose), ?_⟩
  rw [hwritten, hcount, hhead, hback, Nat.add_comm 1 width, List.drop_succ_cons,
    List.drop_left' hzeros]
  rfl

/-- A message with a size whose strings do not find their room is not built. -/
theorem build_stops {m : Outgoing} {width : ℕ} (hwidth : sizeWidth m = some width)
    (hdemands : demands m = pieces.foldr demand .done) {block : List UInt8}
    (hblock : block.length = m.preallocateSize) (hnot : ¬ Fit pieces (block.length - (1 + width))) :
    ∃ e t, m.build.run (preallocated block) = .error e t := by
  obtain ⟨htwo, hle⟩ := header_le hwidth
  obtain ⟨id, x, hbuild, hx⟩ := build_eq hwidth
  obtain ⟨u, hheader, hu, hroom, -⟩ := opened_openFrame id htwo block (by omega)
  rw [Fit, ← hdemands, ← hroom] at hnot
  obtain ⟨t, hstops⟩ := (hx u hu).1 hnot
  exact ⟨_, t, by rw [hbuild, run_bind_of_ok hheader, hstops]⟩

/-- Whenever a message with a size is built, these are its bytes. -/
theorem written_sized {m : Outgoing} {width : ℕ} {id : ℤ} (hwidth : sizeWidth m = some width)
    (hbuild : m.build = sized width id pieces) (hdemands : demands m = pieces.foldr demand .done)
    {block : List UInt8} (hblock : block.length = m.preallocateSize) {t : BasicStream}
    (hrun : m.build.run (preallocated block) = .ok () t) :
    t.written = toChar id :: (beBytes width (body pieces).length ++ body pieces) := by
  obtain ⟨htwo, hle⟩ := header_le hwidth
  have hfit : Fit pieces (block.length - (1 + width)) := by
    by_contra hnot
    obtain ⟨e, t', hstops⟩ := build_stops hwidth hdemands hblock hnot
    rw [hstops] at hrun
    cases hrun
  obtain ⟨t', hrun', hwritten⟩ := sized_run htwo id block (by omega) hfit
  rw [hbuild, hrun'] at hrun
  cases hrun
  exact hwritten

section CreateClient

/-- The last fields of `create_client`: where the user is, and what belongs to its type. -/
def details (client : User) : List Piece :=
  [.number 8 (doubleToRawBits client.location.latitude),
    .number 8 (doubleToRawBits client.location.longitude)] ++
  match client.derived with
  | .controller controller =>
    [.number 1 controller.controllerRating, .number 1 controller.controllerPosition,
      .number 3 (client.frequencies 0)]
  | .aircraft aircraft =>
    [.text aircraft.acfTitle, .text aircraft.transponder, .number 1 (modeByte aircraft),
      .number 8 (orientationWord aircraft.state)]

/-- The fields before them. -/
def introductionPieces (client : User) : List Piece :=
  [.number 2 client.index, .number 1 client.getType.toInt, .text client.identity.callsign,
    .text client.identity.username, .text client.identity.loginName,
    .number 2 client.visibilityRange]

theorem createClient_eq (client : User) :
    createClient client = sized 2 9 (introductionPieces client ++ details client) := by
  cases h : client.derived <;>
    simp [createClient, h, sized, introductionPieces, details, Piece.write, writeShort, writeByte,
      writeQWord, write3Byte, bind_assoc] <;> rfl

theorem demands_createClient (about : Ptr) (client : User) : demands (.createClient about client) =
    (introductionPieces client ++ details client).foldr Piece.demand .done := by
  cases h : client.derived <;> simp [demands, h, introductionPieces, details, Piece.demand]

end CreateClient

end Win64Server.MessageContents
