import Win64Server.PacketHandler
import Win64Server.StreamReading
import Win64Server.Library.Framing

/-!
Cutting the received bytes differently does not change what the framer dispatches. The frames of
a byte sequence are defined on the bytes alone; one pass of the loop takes one of them off, so a
run of the loop takes off all that are complete, and the residual buffer between two chunks is
the unfinished frame.
-/
namespace Win64Server.ChunkedFraming

open Outcome Library BasicStream

/-- The number of bytes in which a packet of this registered size announces its payload. -/
def sizeBytes (size : ℤ) : ℕ := if size = -1 then 1 else if size = -2 then 2 else 0

def ValidSize (size : ℤ) : Prop := 0 ≤ size ∨ size = -1 ∨ size = -2

/-- The payload length and the bytes behind it, once the size bytes have arrived. -/
def splitSize (size : ℤ) (bs : List UInt8) : Option (ℕ × List UInt8) :=
  if bs.length < sizeBytes size then none
  else if sizeBytes size = 0 then
    if size < 0 then none else some (size.toNat, bs)
  else some (beNat (bs.take (sizeBytes size)), bs.drop (sizeBytes size))

/-- The complete frame at the head of the bytes: its id, its payload and the bytes behind it. -/
def splitFrame (factory : PacketFactory) (bs : List UInt8) :
    Option ((ℕ × List UInt8) × List UInt8) :=
  match bs with
  | [] => none
  | id :: rest =>
    match factory.getPacket id.toNat with
    | none => none
    | some packet =>
      match splitSize packet.size rest with
      | none => none
      | some (n, body) =>
        if n ≤ body.length then some ((id.toNat, body.take n), body.drop n) else none

theorem splitSize_drop {size : ℤ} {bs body : List UInt8} {n : ℕ}
    (h : splitSize size bs = some (n, body)) :
    sizeBytes size ≤ bs.length ∧ body = bs.drop (sizeBytes size) := by
  unfold splitSize at h
  split at h
  · cases h
  · rename_i hlen
    split at h
    · rename_i hzero
      split at h
      · cases h
      · cases h
        rw [hzero]
        exact ⟨Nat.zero_le _, rfl⟩
    · cases h
      exact ⟨by omega, rfl⟩

theorem splitSize_append {size : ℤ} {bs body : List UInt8} {n : ℕ}
    (h : splitSize size bs = some (n, body)) (more : List UInt8) :
    splitSize size (bs ++ more) = some (n, body ++ more) := by
  have hle := (splitSize_drop h).1
  unfold splitSize at h ⊢
  have hshort : ¬ bs.length < sizeBytes size := by omega
  have hshort' : ¬ (bs ++ more).length < sizeBytes size := by
    rw [List.length_append]
    omega
  rw [if_neg hshort] at h
  rw [if_neg hshort']
  split at h
  · rename_i hzero
    rw [if_pos hzero]
    split at h
    · cases h
    · rename_i hneg
      cases h
      rw [if_neg hneg]
  · rename_i hzero
    cases h
    rw [if_neg hzero, List.take_append_of_le_length hle, List.drop_append_of_le_length hle]

/-- A complete frame is recognised by the same four facts wherever it is looked for. -/
theorem splitFrame_eq_some {factory : PacketFactory} {bs payload rest : List UInt8} {id : ℕ} :
    splitFrame factory bs = some ((id, payload), rest) ↔
      ∃ b tail packet n body, bs = b :: tail ∧ factory.getPacket b.toNat = some packet ∧
        splitSize packet.size tail = some (n, body) ∧ n ≤ body.length ∧
        id = b.toNat ∧ payload = body.take n ∧ rest = body.drop n := by
  constructor
  · intro h
    cases bs with
    | nil => cases h
    | cons b tail =>
      simp only [splitFrame] at h
      split at h
      · cases h
      · rename_i packet hpacket
        split at h
        · cases h
        · rename_i n body hsize
          split at h
          · rename_i hn
            cases h
            exact ⟨b, tail, packet, n, body, rfl, hpacket, hsize, hn, rfl, rfl, rfl⟩
          · cases h
  · rintro ⟨b, tail, packet, n, body, rfl, hpacket, hsize, hn, rfl, rfl, rfl⟩
    simp only [splitFrame, hpacket, hsize, hn, ite_true]

/-- The frames of a registry, as an incremental framer. -/
def packetFramer (factory : PacketFactory) : Framer UInt8 (ℕ × List UInt8) where
  next := splitFrame factory
  shrinks := by
    rintro bs ⟨id, payload⟩ rest h
    obtain ⟨b, tail, packet, n, body, rfl, -, hsize, -, -, -, rfl⟩ := splitFrame_eq_some.mp h
    obtain ⟨-, rfl⟩ := splitSize_drop hsize
    simp only [List.length_drop, List.length_cons]
    omega
  stable := by
    rintro bs ⟨id, payload⟩ rest more h
    obtain ⟨b, tail, packet, n, body, rfl, hpacket, hsize, hn, rfl, rfl, rfl⟩ :=
      splitFrame_eq_some.mp h
    refine splitFrame_eq_some.mpr ⟨b, tail ++ more, packet, n, body ++ more, rfl, hpacket,
      splitSize_append hsize more, ?_, rfl, ?_, ?_⟩
    · rw [List.length_append]
      omega
    · rw [List.take_append_of_le_length hn]
    · rw [List.drop_append_of_le_length hn]

/-- The payload length of a packet of this registered size, as announced in front of the
cursor. -/
def declaredSize (size : ℤ) (s : BasicStream) : ℕ :=
  if sizeBytes size = 0 then size.toNat
  else beNat ((s.data.drop (s.index - sizeBytes size)).take (sizeBytes size))

/-- With its payload in the buffer, the handler returns with the cursor behind the payload and
the stream otherwise as it was; it may do anything to the server. -/
def AdvancesBySize (packet : Packet) : Prop :=
  ∀ clientSocket user x, declaredSize packet.size x.buf ≤ x.buf.available →
    ∃ server, (packet.handle clientSocket user).run x = .ok ()
      { x with
        server := server
        buf := { x.buf with index := x.buf.index + declaredSize packet.size x.buf } }

theorem readPacketSize_some {size : ℤ} {s : BasicStream} {n : ℕ} {body : List UInt8}
    (h : splitSize size s.unread = some (n, body)) :
    (readPacketSize size).run s =
      .ok (some (n : ℤ)) { s with index := s.index + sizeBytes size } := by
  have hle := (splitSize_drop h).1
  have havail := s.available_eq
  unfold splitSize at h
  have hshort : ¬ s.unread.length < sizeBytes size := by omega
  rw [if_neg hshort] at h
  by_cases h1 : size = -1
  · have hb : sizeBytes size = 1 := by simp [sizeBytes, h1]
    rw [hb] at h hle ⊢
    simp only [one_ne_zero, ite_false, Option.some.injEq, Prod.mk.injEq] at h
    have hlt : ¬ s.available < 1 := by omega
    simp only [readPacketSize, EStateM.run_bind, EStateM.run_get, h1, ite_true, hlt, ite_false,
      readUnsignedByte, run_map, readBytes_run s one_pos hle, h.1, EStateM.run_pure]
  · by_cases h2 : size = -2
    · have hb : sizeBytes size = 2 := by simp [sizeBytes, h2]
      rw [hb] at h hle ⊢
      simp only [OfNat.ofNat_ne_zero, ite_false, Option.some.injEq, Prod.mk.injEq] at h
      have hlt : ¬ s.available < 2 := by omega
      simp only [readPacketSize, EStateM.run_bind, EStateM.run_get, h2, ite_true, hlt, ite_false,
        readUnsignedShort, run_map, readBytes_run s two_pos hle, h.1, EStateM.run_pure,
        Int.reduceNeg, Int.neg_inj, OfNat.ofNat_ne_one]
    · have hb : sizeBytes size = 0 := by simp [sizeBytes, h1, h2]
      rw [hb] at h ⊢
      simp only [ite_true] at h
      split at h
      · cases h
      · rename_i hneg
        simp only [Option.some.injEq, Prod.mk.injEq] at h
        have hn : size = (n : ℤ) := by omega
        simp only [readPacketSize, EStateM.run_bind, EStateM.run_get, h1, h2, ite_false,
          EStateM.run_pure, ← hn, Nat.add_zero]

theorem readPacketSize_none {size : ℤ} {s : BasicStream} (hvalid : ValidSize size)
    (h : splitSize size s.unread = none) : (readPacketSize size).run s = .ok none s := by
  have havail := s.available_eq
  unfold splitSize at h
  by_cases h1 : size = -1
  · have hb : sizeBytes size = 1 := by simp [sizeBytes, h1]
    rw [hb] at h
    by_cases hlt : s.available < 1
    · simp only [readPacketSize, EStateM.run_bind, EStateM.run_get, h1, ite_true, hlt,
        EStateM.run_pure]
    · rw [if_neg (by omega)] at h
      simp at h
  · by_cases h2 : size = -2
    · have hb : sizeBytes size = 2 := by simp [sizeBytes, h2]
      rw [hb] at h
      by_cases hlt : s.available < 2
      · simp only [readPacketSize, EStateM.run_bind, EStateM.run_get, h2, ite_true, hlt,
          EStateM.run_pure, Int.reduceNeg, Int.neg_inj, OfNat.ofNat_ne_one, ite_false]
      · rw [if_neg (by omega)] at h
        simp at h
    · have hb : sizeBytes size = 0 := by simp [sizeBytes, h1, h2]
      have hneg : ¬ size < 0 := by
        unfold ValidSize at hvalid
        omega
      simp [hb, hneg] at h

/-- The state in which the handler of the packet at the cursor starts. -/
def atPayload (x : Session) (packet : Packet) : BasicStream :=
  { x.buf with
    mark := some x.buf.index
    index := x.buf.index + 1 + sizeBytes packet.size }

theorem unread_atPayload {x : Session} {packet : Packet} {b : UInt8} {tail : List UInt8}
    (h : x.buf.unread = b :: tail) :
    (atPayload x packet).unread = tail.drop (sizeBytes packet.size) := by
  have hadv : (atPayload x packet).unread = x.buf.unread.drop (1 + sizeBytes packet.size) := by
    simp only [atPayload, unread, List.drop_drop, Nat.add_assoc]
  rw [hadv, h, Nat.add_comm, List.drop_succ_cons]

theorem declaredSize_atPayload {x : Session} {packet : Packet} {b : UInt8} {tail body : List UInt8}
    {n : ℕ} (h : x.buf.unread = b :: tail) (hsize : splitSize packet.size tail = some (n, body)) :
    declaredSize packet.size (atPayload x packet) = n := by
  have hle := (splitSize_drop hsize).1
  unfold splitSize at hsize
  rw [if_neg (show ¬ tail.length < sizeBytes packet.size by omega)] at hsize
  unfold declaredSize
  by_cases hzero : sizeBytes packet.size = 0
  · rw [if_pos hzero] at hsize ⊢
    split at hsize
    · cases hsize
    · cases hsize
      rfl
  · rw [if_neg hzero] at hsize ⊢
    have hn : beNat (tail.take (sizeBytes packet.size)) = n := by
      injection hsize with hpair
      exact congrArg Prod.fst hpair
    have hcursor : (atPayload x packet).index - sizeBytes packet.size = x.buf.index + 1 :=
      Nat.add_sub_cancel _ _
    have htail : tail = (x.buf.data.take x.buf.dataSize).drop (x.buf.index + 1) := by
      rw [← List.drop_drop, ← unread, h, List.drop_one, List.tail_cons]
    rw [hcursor, ← hn, htail, List.drop_take, List.take_take, Nat.min_eq_left]
    · rfl
    · rw [htail, List.drop_take, List.length_take] at hle
      omega

/-- The stream once the packet id is read. -/
def atSize (x : Session) : BasicStream :=
  { x.buf with mark := some x.buf.index, index := x.buf.index + 1 }

theorem unread_atSize {x : Session} {b : UInt8} {tail : List UInt8}
    (h : x.buf.unread = b :: tail) : (atSize x).unread = tail := by
  have hadv : (atSize x).unread = x.buf.unread.drop 1 := unread_advance _ 1
  rw [hadv, h, List.drop_one, List.tail_cons]

/-- The pass up to the size: the mark is set and the id read. -/
theorem processFrame_head (factory : PacketFactory) (clientSocket : Socket) {x : Session}
    {b : UInt8} {tail : List UInt8} (h : x.buf.unread = b :: tail) :
    (processFrame factory clientSocket).run x =
      (match factory.getPacket b.toNat with
      | none => throw (.undefined .nullPacket)
      | some packet => onBuf (readPacketSize packet.size) >>=
          processSized factory clientSocket b.toNat : HandlerM Bool).run
        { x with buf := atSize x } := by
  have hmark : (onBuf markPosition).run x =
      .ok () { x with buf := { x.buf with mark := some x.buf.index } } :=
    onBuf_ok.mpr ⟨_, mark_run x.buf, rfl⟩
  have hread : (onBuf readUnsignedByte).run
      { x with buf := { x.buf with mark := some x.buf.index } } =
        .ok b.toNat { x with buf := atSize x } := by
    have hunread : ({ x.buf with mark := some x.buf.index } : BasicStream).unread = b :: tail := h
    have hbytes := readBytes_run { x.buf with mark := some x.buf.index } one_pos
      (by rw [hunread, List.length_cons]; omega)
    refine onBuf_ok.mpr ⟨atSize x, ?_, rfl⟩
    have hvalue : beNat ((b :: tail).take 1) = b.toNat := by
      rw [List.take_succ_cons, List.take_zero]
      simp [beNat]
    rw [readUnsignedByte, run_map, hbytes, hunread, ← hvalue]
    rfl
  unfold processFrame
  rw [run_bind_of_ok hmark]
  exact run_bind_of_ok hread

/-- A pass over a complete frame calls its handler at the payload and deletes what was read. -/
theorem processFrame_handled {factory : PacketFactory} (clientSocket : Socket) {x : Session}
    {payload rest : List UInt8} {id : ℕ} {packet : Packet}
    (h : splitFrame factory x.buf.unread = some ((id, payload), rest))
    (hpacket : factory.getPacket id = some packet) :
    (processFrame factory clientSocket).run x =
      (do
        processPacket factory clientSocket id payload.length
        onBuf deleteMarkedBlock
        return true : HandlerM Bool).run { x with buf := atPayload x packet } ∧
    (atPayload x packet).unread = payload ++ rest ∧
    declaredSize packet.size (atPayload x packet) = payload.length := by
  obtain ⟨b, tail, packet', n, body, hunread, hpacket', hsize, hn, rfl, rfl, rfl⟩ :=
    splitFrame_eq_some.mp h
  obtain rfl : packet' = packet := Option.some.inj (hpacket'.symm.trans hpacket)
  have hbody : (atPayload x packet').unread = body := by
    rw [unread_atPayload hunread, (splitSize_drop hsize).2]
  have hlen : (body.take n).length = n := List.length_take_of_le hn
  have havail : (atPayload x packet').available = body.length := by rw [available_eq, hbody]
  have hcheck : ¬ ((n : ℤ) < 0 ∨ ((atPayload x packet').available : ℤ) < n) := by omega
  have hsized : (readPacketSize packet'.size).run (atSize x) =
      .ok (some (n : ℤ)) (atPayload x packet') :=
    readPacketSize_some (by rwa [unread_atSize hunread])
  refine ⟨?_, by rw [hbody, List.take_append_drop], ?_⟩
  · rw [processFrame_head factory clientSocket hunread, hpacket',
      run_bind_of_ok (onBuf_ok.mpr ⟨_, hsized, rfl⟩), hlen]
    simp only [processSized, EStateM.run_bind, EStateM.run_get, hcheck, ite_false]
  · rw [hlen]
    exact declaredSize_atPayload hunread hsize

/-- The handler is called with the packet noted as dispatched. -/
theorem processPacket_run {factory : PacketFactory} (clientSocket : Socket) {x : Session}
    {payload rest : List UInt8} {id : ℕ} {packet : Packet}
    (hpacket : factory.getPacket id = some packet) (hunread : x.buf.unread = payload ++ rest) :
    (processPacket factory clientSocket id payload.length).run x =
      (packet.handle clientSocket (x.server.clientManager.getUserBySocket clientSocket)).run
        { x with dispatched := x.dispatched ++ [(id, payload)] } := by
  simp only [processPacket, EStateM.run_bind, EStateM.run_get, EStateM.run_set, hunread,
    Int.toNat_natCast, hpacket, List.take_left]

/-- The stream at the payload, once a handler has read so many of the bytes from there on. -/
theorem deleteMarkedBlock_atPayload {x : Session} {packet : Packet} {b : UInt8}
    {tail : List UInt8} {k : ℕ} (h : x.buf.unread = b :: tail)
    (hk : k ≤ (atPayload x packet).unread.length)
    (hsize : sizeBytes packet.size ≤ tail.length) :
    ∃ t, deleteMarkedBlock.run
        { atPayload x packet with index := (atPayload x packet).index + k } = .ok () t ∧
      t.unread = (atPayload x packet).unread.drop k ∧ t.index = x.buf.index := by
  have hroom := (atPayload x packet).unread_length
  have hstart := x.buf.unread_length
  rw [h, List.length_cons] at hstart
  have hcursor : (atPayload x packet).index = x.buf.index + 1 + sizeBytes packet.size := rfl
  obtain ⟨t, hdelete, hunread, hindex, -⟩ := deleteMarkedBlock_run
    (s := { atPayload x packet with index := (atPayload x packet).index + k })
    rfl (by change x.buf.index ≤ (atPayload x packet).index + k; omega)
    (by
      change (atPayload x packet).index + k ≤ x.buf.dataSize
      change _ = x.buf.dataSize - (atPayload x packet).index at hroom
      omega)
  exact ⟨t, hdelete, by rw [hunread, unread_advance], hindex⟩

/-- A pass over a complete frame dispatches it and leaves the bytes behind it. -/
theorem processFrame_complete {factory : PacketFactory} (clientSocket : Socket) {x : Session}
    {payload rest : List UInt8} {id : ℕ}
    (hhandlers : ∀ id packet, factory.getPacket id = some packet → AdvancesBySize packet)
    (h : splitFrame factory x.buf.unread = some ((id, payload), rest)) :
    ∃ y, (processFrame factory clientSocket).run x = .ok true y ∧ y.buf.unread = rest ∧
      y.buf.index = x.buf.index ∧ y.dispatched = x.dispatched ++ [(id, payload)] := by
  obtain ⟨b, tail, packet, n, body, hunread, hpacket, hsize, -, hid, -, -⟩ :=
    splitFrame_eq_some.mp h
  rw [← hid] at hpacket
  obtain ⟨hpass, hpayload, hdeclared⟩ :=
    processFrame_handled clientSocket h hpacket
  have hlen : payload.length ≤ (atPayload x packet).unread.length := by
    rw [hpayload, List.length_append]
    omega
  obtain ⟨server, hhandle⟩ := hhandlers id packet hpacket clientSocket
    (x.server.clientManager.getUserBySocket clientSocket)
    { x with
      buf := atPayload x packet
      dispatched := x.dispatched ++ [(id, payload)] } (by rw [hdeclared, available_eq]; exact hlen)
  have hprocess := processPacket_run clientSocket
    (x := { x with buf := atPayload x packet }) hpacket hpayload
  rw [hdeclared] at hhandle
  obtain ⟨t, hdelete, ht, hindex⟩ :=
    deleteMarkedBlock_atPayload hunread hlen (splitSize_drop hsize).1
  refine ⟨⟨server, t, x.dispatched ++ [(id, payload)]⟩, ?_, ?_, hindex, rfl⟩
  · rw [hpass, run_bind_of_ok (hprocess.trans hhandle),
      run_bind_of_ok (onBuf_ok.mpr ⟨t, hdelete, rfl⟩)]
    rfl
  · rw [ht, hpayload, List.drop_left]

/-- A pass over an unfinished frame of a registered packet changes nothing but the mark. -/
theorem processFrame_incomplete {factory : PacketFactory} (clientSocket : Socket) {x : Session}
    {b : UInt8} {tail : List UInt8} {packet : Packet} (hunread : x.buf.unread = b :: tail)
    (hpacket : factory.getPacket b.toNat = some packet) (hvalid : ValidSize packet.size)
    (h : splitFrame factory x.buf.unread = none) :
    (processFrame factory clientSocket).run x =
      .ok false { x with buf := { x.buf with mark := none } } := by
  rw [processFrame_head factory clientSocket hunread, hpacket]
  have hreset : ∀ buf : BasicStream, buf.mark = some x.buf.index →
      (onBuf BasicStream.reset).run { x with buf := buf } =
        .ok () { x with buf := { buf with index := x.buf.index, mark := none } } :=
    fun buf hmark => onBuf_ok.mpr ⟨_, reset_run hmark, rfl⟩
  simp only [hunread, splitFrame, hpacket] at h
  cases hsize : splitSize packet.size tail with
  | none =>
    have hsized : (readPacketSize packet.size).run (atSize x) = .ok none (atSize x) :=
      readPacketSize_none hvalid (by rwa [unread_atSize hunread])
    rw [run_bind_of_ok (onBuf_ok.mpr ⟨_, hsized, rfl⟩)]
    simp only [processSized, EStateM.run_bind, hreset (atSize x) rfl, EStateM.run_pure]
    rfl
  | some p =>
    obtain ⟨n, body⟩ := p
    have hn : ¬ n ≤ body.length := by
      intro hle
      simp [hsize, hle] at h
    have hsized : (readPacketSize packet.size).run (atSize x) =
        .ok (some (n : ℤ)) (atPayload x packet) :=
      readPacketSize_some (by rwa [unread_atSize hunread])
    have hbody : (atPayload x packet).unread = body := by
      rw [unread_atPayload hunread, (splitSize_drop hsize).2]
    have havail : (atPayload x packet).available = body.length := by rw [available_eq, hbody]
    rw [run_bind_of_ok (onBuf_ok.mpr ⟨_, hsized, rfl⟩)]
    have hcheck : (n : ℤ) < 0 ∨ ((atPayload x packet).available : ℤ) < n := by omega
    simp only [processSized, EStateM.run_bind, EStateM.run_get, hcheck, ite_true,
      hreset (atPayload x packet) rfl, EStateM.run_pure]
    rfl

section Runs

variable {factory : PacketFactory}

/-- Every id that occurs at the start of a frame has been given a size. -/
def IdsRegistered (factory : PacketFactory) (bs : List UInt8) : Prop :=
  ∀ b tail, (packetFramer factory).Starts bs (b :: tail) →
    ∃ packet, factory.getPacket b.toNat = some packet ∧ ValidSize packet.size

/-- The loop takes off the frames of the unread bytes, in order, and stops at the unfinished
one, whatever bound of at least as many passes as bytes it is given. -/
theorem processLoop_frames (clientSocket : Socket)
    (hhandlers : ∀ id packet, factory.getPacket id = some packet → AdvancesBySize packet)
    {bs tail : List UInt8} {fs : List (ℕ × List UInt8)}
    (hframes : (packetFramer factory).Frames bs fs tail) (hids : IdsRegistered factory bs)
    {x : Session} (hx : x.buf.unread = bs) {passes : ℕ} (hpasses : bs.length ≤ passes) :
    ∃ y, (processLoop factory clientSocket passes).run x = .ok () y ∧ y.buf.unread = tail ∧
      y.buf.index = x.buf.index ∧ y.dispatched = x.dispatched ++ fs := by
  induction hframes generalizing x passes with
  | @stop bs hnone =>
    have hdone : x.buf.available = bs.length := by rw [available_eq, hx]
    cases bs with
    | nil =>
      refine ⟨x, ?_, hx, rfl, by simp⟩
      cases passes with
      | zero => rfl
      | succ passes => simp [processLoop, hdone]
    | cons b rest =>
      obtain ⟨packet, hpacket, hvalid⟩ := hids b rest (.here (by simp))
      cases passes with
      | zero => simp at hpasses
      | succ passes =>
        have hpos : x.buf.available > 0 := by rw [hdone, List.length_cons]; omega
        have hstep := processFrame_incomplete clientSocket hx hpacket hvalid
          (by rw [hx]; exact hnone)
        refine ⟨{ x with buf := { x.buf with mark := none } }, ?_, hx, rfl, by simp⟩
        simp [processLoop, hpos, hstep]
  | @cons bs rest tail f fs hnext hrest ih =>
    obtain ⟨id, payload⟩ := f
    have hshrink := (packetFramer factory).shrinks bs (id, payload) rest hnext
    cases passes with
    | zero => omega
    | succ passes =>
      obtain ⟨y, hstep, hunread, hindex, hdispatched⟩ :=
        processFrame_complete clientSocket hhandlers
          (show splitFrame factory x.buf.unread = _ by rw [hx]; exact hnext)
      obtain ⟨z, hloop, hz, hzindex, hzdispatched⟩ := ih
        (fun b more hstart => hids b more (.later hnext hstart)) hunread
        (show rest.length ≤ passes by omega)
      have hpos : x.buf.available > 0 := by rw [available_eq, hx]; omega
      refine ⟨z, ?_, hz, by rw [hzindex, hindex], ?_⟩
      · simp [processLoop, hpos, hstep, hloop]
      · rw [hzdispatched, hdispatched, List.append_assoc, List.singleton_append]

theorem processStream_frames (clientSocket : Socket)
    (hhandlers : ∀ id packet, factory.getPacket id = some packet → AdvancesBySize packet)
    {x : Session} {tail : List UInt8} {fs : List (ℕ × List UInt8)}
    (hframes : (packetFramer factory).Frames x.buf.unread fs tail)
    (hids : IdsRegistered factory x.buf.unread) :
    ∃ y, (processStream factory clientSocket).run x = .ok () y ∧ y.buf.unread = tail ∧
      y.buf.index = x.buf.index ∧ y.dispatched = x.dispatched ++ fs := by
  have hpasses : x.buf.unread.length ≤ x.buf.available := by rw [available_eq]
  obtain ⟨y, hrun, hy⟩ := processLoop_frames clientSocket hhandlers hframes hids
    rfl hpasses
  exact ⟨y, by simpa [processStream] using hrun, hy⟩

theorem addData_unread (s : BasicStream) (received spare : List UInt8) (hindex : s.index = 0) :
    ∃ t, (addData received spare).run s = .ok () t ∧ t.unread = s.unread ++ received ∧
      t.index = 0 := by
  have hsize := s.size_le
  refine ⟨_, rfl, ?_, hindex⟩
  have hlen : (s.data.take s.dataSize).length = s.dataSize := by
    rw [List.length_take]
    omega
  simp only [unread, hindex, List.drop_zero]
  rw [List.append_assoc, List.take_append, hlen, List.take_of_length_le (by omega),
    Nat.add_sub_cancel_left, List.take_left]

/-- A chunk arriving behind an unfinished frame: what was dispatched before it and with it are
the frames of all the bytes so far. -/
theorem receive_frames (clientSocket : Socket) (chunk : Received)
    (hhandlers : ∀ id packet, factory.getPacket id = some packet → AdvancesBySize packet)
    {before : List UInt8} {fs : List (ℕ × List UInt8)} {x : Session}
    (hbefore : (packetFramer factory).Frames before fs x.buf.unread) (hindex : x.buf.index = 0)
    (hids : IdsRegistered factory (before ++ chunk.bytes)) :
    ∃ y gs, (receive factory clientSocket chunk).run x = .ok () y ∧ y.buf.index = 0 ∧
      (packetFramer factory).Frames (before ++ chunk.bytes) (fs ++ gs) y.buf.unread ∧
      y.dispatched = x.dispatched ++ gs := by
  obtain ⟨buf, hadd, hunread, hbuf⟩ := addData_unread x.buf chunk.bytes chunk.spare hindex
  obtain ⟨gs, tail, hgs⟩ := (packetFramer factory).frames_exist buf.unread
  have hlocal : IdsRegistered factory buf.unread := by
    intro b more hstart
    rw [hunread] at hstart
    exact hids b more (hbefore.starts hstart)
  obtain ⟨y, hrun, hy, hyindex, hdispatched⟩ :=
    processStream_frames clientSocket (x := { x with buf := buf }) hhandlers hgs
      hlocal
  refine ⟨y, gs, ?_, by rw [hyindex, hbuf], ?_, hdispatched⟩
  · rw [receive, run_bind_of_ok (onBuf_ok.mpr ⟨_, hadd, rfl⟩)]
    exact hrun
  · rw [hunread] at hgs
    rw [hy]
    exact hbefore.append hgs

/-- The chunks of a connection, from a buffer that holds the unfinished end of what came
before. -/
theorem receiveAll_frames (clientSocket : Socket)
    (hhandlers : ∀ id packet, factory.getPacket id = some packet → AdvancesBySize packet)
    (chunks : List Received) {before : List UInt8} {fs : List (ℕ × List UInt8)} {x : Session}
    (hbefore : (packetFramer factory).Frames before fs x.buf.unread) (hindex : x.buf.index = 0)
    (hids : IdsRegistered factory (before ++ chunks.flatMap Received.bytes)) :
    ∃ y gs, (receiveAll factory clientSocket chunks).run x = .ok () y ∧ y.buf.index = 0 ∧
      (packetFramer factory).Frames (before ++ chunks.flatMap Received.bytes) (fs ++ gs)
        y.buf.unread ∧
      y.dispatched = x.dispatched ++ gs := by
  induction chunks generalizing before fs x with
  | nil => exact ⟨x, [], rfl, hindex, by simpa using hbefore, by simp⟩
  | cons chunk chunks ih =>
    rw [List.flatMap_cons, ← List.append_assoc] at hids
    have hhead : IdsRegistered factory (before ++ chunk.bytes) := by
      intro b more hstart
      exact hids b _ (hstart.append (chunks.flatMap Received.bytes))
    obtain ⟨y, gs, hrun, hy, hyframes, hydispatched⟩ :=
      receive_frames clientSocket chunk hhandlers hbefore hindex hhead
    obtain ⟨z, gs', hrest, hz, hzframes, hzdispatched⟩ := ih hyframes hy hids
    refine ⟨z, gs ++ gs', ?_, hz, ?_, ?_⟩
    · rw [receiveAll, List.forM_eq_forM, List.forM_cons, run_bind_of_ok hrun]
      exact hrest
    · rw [List.flatMap_cons, ← List.append_assoc, ← List.append_assoc]
      exact hzframes
    · rw [hzdispatched, hydispatched, List.append_assoc]

/-- From an empty stream, every way of cutting the bytes into chunks dispatches the same packets
with the same payloads and leaves the same unread bytes as receiving them all at once. -/
theorem receiveAll_chunking_independent {clientSocket : Socket}
    (hhandlers : ∀ id packet, factory.getPacket id = some packet → AdvancesBySize packet)
    (server : Server) (chunks : List Received) (spare : List UInt8)
    (hids : IdsRegistered factory (chunks.flatMap Received.bytes)) :
    ∃ cut whole,
      (receiveAll factory clientSocket chunks).run ⟨server, .empty, []⟩ = .ok () cut ∧
      (receive factory clientSocket ⟨chunks.flatMap Received.bytes, spare⟩).run
        ⟨server, .empty, []⟩ = .ok () whole ∧
      cut.dispatched = whole.dispatched ∧ cut.buf.unread = whole.buf.unread ∧
      cut.buf.index = 0 ∧ whole.buf.index = 0 := by
  have hstart : (packetFramer factory).Frames [] [] (⟨server, .empty, []⟩ : Session).buf.unread :=
    .stop rfl
  obtain ⟨cut, fs, hcut, hcutindex, hcutframes, hcutlog⟩ :=
    receiveAll_frames clientSocket hhandlers chunks hstart rfl hids
  obtain ⟨whole, gs, hwhole, hwholeindex, hwholeframes, hwholelog⟩ :=
    receive_frames clientSocket ⟨chunks.flatMap Received.bytes, spare⟩ hhandlers hstart rfl hids
  obtain ⟨hlog, hunread⟩ := hcutframes.unique hwholeframes
  refine ⟨cut, whole, hcut, hwhole, ?_, hunread, hcutindex, hwholeindex⟩
  rw [hcutlog, hwholelog]
  exact hlog

end Runs

/-- A handler that skips its payload. -/
def skipPayload (size : ℤ) : Packet where
  packetId := 7
  size := size
  handle _ _ := modify fun x =>
    { x with buf := { x.buf with index := x.buf.index + declaredSize size x.buf } }

theorem skipPayload_advancesBySize (size : ℤ) : AdvancesBySize (skipPayload size) :=
  fun _ _ x _ => ⟨x.server, rfl⟩

/-- A frame cut behind its size byte, an empty chunk, and the start of a second frame. -/
theorem chunking_independent_cut_in_frame :
    ∃ cut whole,
      (receiveAll (PacketFactory.registerPacket ∅ 7 (skipPayload (-1))) 1
        [⟨[7, 2], []⟩, ⟨[], [9]⟩, ⟨[65, 66, 7], []⟩]).run
        ⟨.initial fun _ => .zeroed, .empty, []⟩ = .ok () cut ∧
      (receive (PacketFactory.registerPacket ∅ 7 (skipPayload (-1))) 1
        ⟨[7, 2, 65, 66, 7], []⟩).run ⟨.initial fun _ => .zeroed, .empty, []⟩ = .ok () whole ∧
      cut.dispatched = whole.dispatched ∧ cut.buf.unread = whole.buf.unread ∧
      cut.buf.index = 0 ∧ whole.buf.index = 0 := by
  refine receiveAll_chunking_independent ?_ _ [⟨[7, 2], []⟩, ⟨[], [9]⟩, ⟨[65, 66, 7], []⟩] [] ?_
  · intro id packet hpacket
    by_cases hid : id = 7
    · subst hid
      cases hpacket
      exact skipPayload_advancesBySize (-1)
    · have hnone :
          PacketFactory.getPacket (PacketFactory.registerPacket ∅ 7 (skipPayload (-1))) id =
          none := AList.lookup_insert_ne hid
      rw [hnone] at hpacket
      cases hpacket
  · intro b tail hstart
    have hb : b = 7 := by
      cases hstart with
      | here _ => rfl
      | later hnext hrest =>
        cases hnext
        cases hrest with
        | here _ => rfl
        | later hnext _ => cases hnext
    subst hb
    exact ⟨skipPayload (-1), rfl, Or.inr (Or.inl rfl)⟩

end Win64Server.ChunkedFraming
