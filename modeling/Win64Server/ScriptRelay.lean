import Win64Server.MessageContents
import Win64Server.Observers
import Win64Server.PacketFields

/-!
A script on its way through the server. A client sends a format string and one field for each of
its characters, from the last to the first. The server keeps the fields in a script and sends them
on in the same order and width. A string is kept as a pointer, which is not the type the sender
asks for, so a script with a string is stored and never sent.
-/
namespace Win64Server.ScriptRelay

open Outcome Library BasicStream MessageContents PacketFields TempDataPacket ClientScript

/-- A field of the packet, with the format character that asks for it. -/
inductive Slot
  | text (value : Text)
  | long (bytes : Bytes 8)
  | int (c : UInt8) (hc : c ≠ 0 ∧ c ≠ 's'.toUInt8 ∧ c ≠ 'l'.toUInt8) (bytes : Bytes 4)

namespace Slot

def char : Slot → UInt8
  | text _ => 's'.toUInt8
  | long _ => 'l'.toUInt8
  | int c _ _ => c

def bytes : Slot → List UInt8
  | text value => value.1 ++ [0]
  | long bytes => bytes.1
  | int _ _ bytes => bytes.1

/-- The field in a message. -/
def piece : Slot → Piece
  | text value => .text value.1
  | long bytes => .number 8 (toInt64 (beNat bytes.1))
  | int _ _ bytes => .number 4 (toInt32 (beNat bytes.1))

/-- The values that the handler may keep for a field. Where a string stands in the buffer depends
on what came before. -/
inductive Holds : Slot → AnyValue → Prop
  | text (value : Text) (pointer : ℕ) : Holds (.text value) (.constCharPtr pointer)
  | long (bytes : Bytes 8) : Holds (.long bytes) (.longLong (toInt64 (beNat bytes.1)))
  | int (c : UInt8) (hc : c ≠ 0 ∧ c ≠ 's'.toUInt8 ∧ c ≠ 'l'.toUInt8) (bytes : Bytes 4) :
      Holds (.int c hc bytes) (.int (toInt32 (beNat bytes.1)))

theorem char_ne_zero (slot : Slot) : slot.char ≠ 0 := by
  cases slot with
  | text value => exact (by decide : 's'.toUInt8 ≠ 0)
  | long bytes => exact (by decide : 'l'.toUInt8 ≠ 0)
  | int c hc bytes => exact hc.1

/-- Four bytes survive being an `int`. -/
theorem beBytes_toInt32 (bytes : Bytes 4) : beBytes 4 (toInt32 (beNat bytes.1)) = bytes.1 := by
  have hmod : toInt32 (beNat bytes.1) % 256 ^ 4 = (beNat bytes.1 : ℤ) % 256 ^ 4 :=
    Int.bmod_emod
  have h := beBytes_beNat bytes.1
  rw [bytes.2] at h
  rw [← beBytes_emod, hmod, beBytes_emod, h]

theorem beBytes_toInt64 (bytes : Bytes 8) : beBytes 8 (toInt64 (beNat bytes.1)) = bytes.1 := by
  have hmod : toInt64 (beNat bytes.1) % 256 ^ 8 = (beNat bytes.1 : ℤ) % 256 ^ 8 :=
    Int.bmod_emod
  have h := beBytes_beNat bytes.1
  rw [bytes.2] at h
  rw [← beBytes_emod, hmod, beBytes_emod, h]

theorem bytes_piece (slot : Slot) : slot.piece.bytes = slot.bytes := by
  cases slot with
  | text value => rw [piece, Piece.bytes, cStr_eq_self value.2, bytes]
  | long b => exact beBytes_toInt64 b
  | int c hc b => exact beBytes_toInt32 b

section Values

variable {slot : Slot} {value : AnyValue}

/-- The cast finds its type except for a string. -/
theorem Holds.castSucceeds (h : slot.Holds value) :
    castSucceeds slot.char value = true ↔ slot.char ≠ 's'.toUInt8 := by
  cases h with
  | text text pointer => simp [char, ClientScript.castSucceeds]
  | long bytes => exact iff_of_true rfl (by decide : 'l'.toUInt8 ≠ 's'.toUInt8)
  | int c hc bytes => simp [char, ClientScript.castSucceeds, hc]

theorem Holds.writeObject (h : slot.Holds value) (hchar : slot.char ≠ 's'.toUInt8) :
    writeObject slot.char value = slot.piece.write := by
  cases h with
  | text text pointer => exact absurd rfl hchar
  | long bytes => rfl
  | int c hc bytes =>
    rw [char, Win64Server.writeObject, if_neg hc.2.1, if_neg hc.2.2]
    rfl

end Values

theorem reads_slot (slot : Slot) {s : BasicStream} {rest : List UInt8}
    (h : s.unread = slot.bytes ++ rest) :
    ∃ value t, (readObject slot.char).run s = .ok value t ∧
      cursor.Moved s slot.bytes.length t ∧ slot.Holds value := by
  cases slot with
  | text text =>
    have hunread : s.unread = text.1 ++ 0 :: rest := by
      rw [h, bytes, List.append_assoc, List.singleton_append]
    refine ⟨_, _, run_map_ok.mpr ⟨_, readString_run text hunread, rfl⟩, ?_, .text text _⟩
    rw [bytes, List.length_append]
    rfl
  | long b =>
    have hread : Decodes cursor readQWord b.1 (toInt64 (beNat b.1)) :=
      (decodes_readBytes (by decide) b).map fun bs => toInt64 (beNat bs)
    obtain ⟨t, hrun, ht⟩ := hread s rest h
    exact ⟨_, t, run_map_ok.mpr ⟨_, hrun, rfl⟩, ht, .long b⟩
  | int c hc b =>
    have hread : Decodes cursor readUnsignedInt b.1 (beNat b.1) :=
      (decodes_readBytes (by decide) b).map beNat
    obtain ⟨t, hrun, ht⟩ := hread s rest h
    refine ⟨_, t, ?_, ht, .int c hc b⟩
    rw [char, readObject, if_neg hc.2.1, if_neg hc.2.2]
    exact run_map_ok.mpr ⟨_, hrun, rfl⟩

theorem reads_slots (slots : List Slot) {s : BasicStream} {rest : List UInt8}
    (h : s.unread = slots.flatMap bytes ++ rest) :
    ∃ values t, ((slots.map char).mapM readObject).run s = .ok values t ∧
      cursor.Moved s (slots.flatMap bytes).length t ∧ List.Forall₂ Holds slots values := by
  induction slots generalizing s with
  | nil => exact ⟨[], s, rfl, cursor.refl s, .nil⟩
  | cons slot slots ih =>
    rw [List.flatMap_cons, List.append_assoc] at h
    obtain ⟨value, u, hslot, hu, hvalue⟩ := slot.reads_slot h
    have hview : u.unread = slots.flatMap bytes ++ rest := by
      have hmoved := cursor.view_of_moved hu
      rwa [show cursor.view s = s.unread from rfl, h, List.drop_left] at hmoved
    obtain ⟨values, t, hslots, ht, hvalues⟩ := ih hview
    refine ⟨value :: values, t, ?_, ?_, .cons hvalue hvalues⟩
    · rw [List.map_cons, List.mapM_cons, run_bind_of_ok hslot, run_bind_of_ok hslots]
      rfl
    · rw [List.flatMap_cons, List.length_append]
      exact cursor.trans hu ht

end Slot

open Slot

/-- The packet: the fields in the order in which they come, and the number at the end. -/
structure Payload where
  slots : List Slot
  first : Bytes 4

namespace Payload

/-- The characters stand in the string the other way round. -/
def assembly (p : Payload) : Text where
  val := (p.slots.map char).reverse
  property h := by
    rw [List.mem_reverse, List.mem_map] at h
    obtain ⟨slot, -, hzero⟩ := h
    exact slot.char_ne_zero hzero

/-- What stands behind the string. -/
def fields (p : Payload) : List UInt8 := p.slots.flatMap Slot.bytes ++ p.first.1

def bytes (p : Payload) : List UInt8 := (p.assembly.1 ++ [0]) ++ p.fields

/-- The script that is made of the packet with these values. -/
def script (p : Payload) (values : List AnyValue) : ClientScript where
  idx := -1
  assembly := p.assembly.1
  objects := .int (toInt32 (beNat p.first.1)) :: values.reverse

/-- The message: the indices and then the packet. -/
def message (p : Payload) (index idx : ℤ) : List Piece :=
  [.number 2 index, .number 2 idx, .text p.assembly.1] ++
    (p.slots.map piece ++ [.number 4 (toInt32 (beNat p.first.1))])

variable {p : Payload}

theorem body_message (p : Payload) (index idx : ℤ) :
    Piece.body (p.message index idx) = beBytes 2 index ++ beBytes 2 idx ++ p.bytes := by
  have hslots : (p.slots.map piece).flatMap Piece.bytes = p.slots.flatMap Slot.bytes := by
    rw [List.flatMap_map]
    exact List.flatMap_congr fun slot _ => slot.bytes_piece
  have hfirst : beBytes 4 (toInt32 (beNat p.first.1)) = p.first.1 := beBytes_toInt32 p.first
  simp [Piece.body, message, hslots, hfirst, bytes, fields, Piece.bytes, cStr_eq_self p.assembly.2]

/-- There is a string in the packet exactly when its format has the character. -/
theorem notMem_assembly_iff :
    's'.toUInt8 ∉ p.assembly.1 ↔ ∀ slot ∈ p.slots, slot.char ≠ 's'.toUInt8 := by
  simp only [assembly, List.mem_reverse, List.mem_map, not_exists, not_and]

section Values

variable {values : List AnyValue}

theorem slots_script (h : List.Forall₂ Holds p.slots values) (idx : ℤ) :
    ClientScript.slots { p.script values with idx := idx } =
      (p.slots.map char).zip values ++ [(0, .int (toInt32 (beNat p.first.1)))] := by
  have hlength : (p.slots.map char).length = values.length := by
    rw [List.length_map, h.length_eq]
  have hreverse : ((p.slots.map char).reverse.zip values.reverse).reverse =
      (p.slots.map char).zip values := by
    rw [List.zip, ← List.reverse_zipWith hlength, List.reverse_reverse]
  simp [ClientScript.slots, script, assembly, hreverse]

theorem castable_slots {slots : List Slot} (h : List.Forall₂ Holds slots values) :
    ((slots.map char).zip values).all (fun (c, object) => castSucceeds c object) = true ↔
      ∀ slot ∈ slots, slot.char ≠ 's'.toUInt8 := by
  induction h with
  | nil => simp
  | cons hvalue hvalues ih =>
    rw [List.map_cons, List.zip_cons_cons, List.all_cons, Bool.and_eq_true, ih,
      hvalue.castSucceeds, List.forall_mem_cons]

/-- Only a string is kept as something that the sender does not cast to. -/
theorem castable_script_iff (h : List.Forall₂ Holds p.slots values) (idx : ℤ) :
    ClientScript.castable { p.script values with idx := idx } = true ↔
      's'.toUInt8 ∉ p.assembly.1 := by
  rw [castable, slots_script h, List.all_append, Bool.and_eq_true, castable_slots h,
    notMem_assembly_iff]
  exact and_iff_left rfl

theorem writes_slots {slots : List Slot} (h : List.Forall₂ Holds slots values)
    (hchars : ∀ slot ∈ slots, slot.char ≠ 's'.toUInt8) :
    (((slots.map char).zip values).forM fun (c, object) => writeObject c object) =
      (slots.map piece).forM Piece.write := by
  induction h with
  | nil => rfl
  | cons hvalue hvalues ih =>
    obtain ⟨hchar, hrest⟩ := List.forall_mem_cons.mp hchars
    have htail := ih hrest
    simp only [List.forM_eq_forM] at htail ⊢
    rw [List.map_cons, List.zip_cons_cons, List.map_cons, List.forM_cons, List.forM_cons, htail,
      hvalue.writeObject hchar]

theorem sendScript_eq (h : List.Forall₂ Holds p.slots values)
    (hchars : 's'.toUInt8 ∉ p.assembly.1) (other : User) (idx : ℤ) :
    sendScript other { p.script values with idx := idx } =
      sized 2 22 (p.message other.index idx) := by
  have hslots := writes_slots h (notMem_assembly_iff.mp hchars)
  rw [sendScript, slots_script h, sized, message]
  simp only [List.forM_eq_forM] at hslots ⊢
  rw [List.forM_append, hslots, List.forM_append, List.forM_append]
  simp [Piece.write, writeShort, bind_assoc]
  rfl

end Values

end Payload

/-- A message built in enough space: the size, the two indices and the bytes of the packet. -/
def Carries (p : Payload) (index idx : ℤ) (m : Outgoing) : Prop :=
  ∀ block : List UInt8, 3 ≤ block.length → Piece.Fit (p.message index idx) (block.length - 3) →
    ∃ t, m.build.run (preallocated block) = .ok () t ∧
      t.written = 22 :: (beBytes 2 (4 + p.bytes.length) ++
        (beBytes 2 index ++ beBytes 2 idx ++ p.bytes))

/-- A registration that tells the user and each of its local users. -/
def Relayed (p : Payload) (u : Ptr) (idx : ℕ) (s : Server)
    (r : EStateM.Result Fault Server Unit) : Prop :=
  ∃ t new, r = .ok () t ∧ t.sent = s.sent ++ new ∧
    (new.map fun e => e.recipient).Perm (u :: (s.heap u).localUsers.keys) ∧
    ∀ e ∈ new, Carries p (s.heap u).index idx e.message

/-- A script that is told to whoever it is sent to. -/
def Sendable (p : Payload) (u : Ptr) (idx : ℕ) (s : Server) (script : ClientScript) : Prop :=
  ∀ recipient, ∃ m, (Server.sendScript recipient u script).run s = .ok () (s.push recipient m) ∧
    Carries p (s.heap u).index idx m

section Registration

variable {p : Payload} {values : List AnyValue}

theorem carries_script (h : List.Forall₂ Holds p.slots values)
    (hchars : 's'.toUInt8 ∉ p.assembly.1) (u : Ptr) (other : User) (idx : ℤ) :
    Carries p other.index idx (.script u other { p.script values with idx := idx }) := by
  intro block hblock hfit
  obtain ⟨t, hrun, hwritten⟩ := sized_run le_rfl 22 block hblock hfit
  have hlength : ((Piece.body (p.message other.index idx)).length : ℤ) = 4 + p.bytes.length := by
    rw [Payload.body_message]
    simp only [List.length_append, beBytes_length]
    push_cast
    ring
  refine ⟨t, ?_, ?_⟩
  · change (Win64Server.sendScript other _).run _ = _
    rw [Payload.sendScript_eq h hchars]
    exact hrun
  · rw [hwritten, hlength, Payload.body_message]
    rfl

theorem sendable_iff (h : List.Forall₂ Holds p.slots values) (u : Ptr) (idx : ℕ) (s : Server) :
    Sendable p u idx s { p.script values with idx := idx } ↔ 's'.toUInt8 ∉ p.assembly.1 := by
  constructor
  · intro hsend
    by_contra hchars
    obtain ⟨m, hrun, -⟩ := hsend u
    have hcast := (Payload.castable_script_iff h idx).not.mpr (not_not.mpr hchars)
    rw [Server.sendScript_stops s u hcast] at hrun
    cases hrun
  · intro hchars recipient
    have hcast := (Payload.castable_script_iff h idx).mpr hchars
    exact ⟨_, Server.sendScript_run s recipient hcast u, carries_script h hchars u _ idx⟩

variable {s : Server} {u : Ptr} {idx : ℕ} {more : List ℕ} {script : ClientScript}

theorem addScript_run {index : ScriptIndex} (hfree : index.availableIndices = idx :: more)
    (script : ClientScript) : ∃ scripts, index.addScript script =
      .ok (scripts, { script with idx := idx }) ∧
      scripts.scripts idx = some { script with idx := idx } := by
  refine ⟨_, by rw [ScriptIndex.addScript, hfree], ?_⟩
  exact Function.update_self ..

/-- The script is stored before anyone is told. -/
theorem registerScript_run (hfree : (s.heap u).scripts.availableIndices = idx :: more)
    (env : Environment) (script : ClientScript) :
    ∃ scripts : ScriptIndex, scripts.scripts idx = some { script with idx := idx } ∧
      (Server.registerScript env u script).run s = (do
        Server.sendScript u u { script with idx := idx }
        Server.iterateLocalUsers env u fun other =>
          Server.sendScript other u { script with idx := idx } : ServerM Unit).run
        (s.modifyUser u fun r => { r with scripts := scripts }) := by
  obtain ⟨scripts, hadd, hstored⟩ := addScript_run hfree script
  refine ⟨scripts, hstored, ?_⟩
  rw [Server.registerScript, run_bind_of_ok (Server.getUser_run s u), hadd]
  exact run_bind_of_ok (Server.updateUser_run s u _)

/-- Telling the user and then each of its local users. -/
theorem tell_run (hcast : script.castable = true) (env : Environment) (s : Server) (u : Ptr) :
    ∃ t order, (do
        Server.sendScript u u script
        Server.iterateLocalUsers env u fun other =>
          Server.sendScript other u script : ServerM Unit).run s = .ok () t ∧
      t.heap = s.heap ∧ order.Perm (s.heap u).localUsers.keys ∧
      t.sent = s.sent ++ (u :: order).map fun other =>
        (⟨other, .script u (s.heap u) script⟩ : Sent) := by
  have htells : Observers.Tells s.heap (fun _ => true) (fun _ => .script u (s.heap u) script)
      fun other => Server.sendScript other u script := by
    intro m other hm
    rw [Server.sendScript_run _ _ hcast, hm]
    rfl
  let s₁ := s.push u (.script u (s.heap u) script)
  let order := env.arrange s₁.ticks (s₁.heap u).localUsers.keys
  have hloop := htells.forM order { s₁ with ticks := s₁.ticks + 1 } rfl
  refine ⟨_, order, (run_bind_of_ok (Server.sendScript_run s u hcast u)).trans hloop, rfl,
    env.arrange_perm _ _, ?_⟩
  simp [s₁, Observers.messages, Server.push]

/-- A script with a string is stored, and then the cast fails. -/
theorem registerScript_fails (h : List.Forall₂ Holds p.slots values)
    (hfree : (s.heap u).scripts.availableIndices = idx :: more)
    (hchars : 's'.toUInt8 ∈ p.assembly.1) (env : Environment) :
    ∃ t, (Server.registerScript env u (p.script values)).run s = .error (.thrown .badAnyCast) t ∧
      (t.heap u).scripts.scripts idx = some { p.script values with idx := idx } := by
  obtain ⟨scripts, hstored, hregister⟩ := registerScript_run hfree env (p.script values)
  have hcast := (Payload.castable_script_iff h idx).not.mpr (not_not.mpr hchars)
  refine ⟨_, hregister.trans (run_bind_of_error (Server.sendScript_stops _ u hcast u)), ?_⟩
  rw [Server.modifyUser_heap_self]
  exact hstored

/-- Without one, everyone is told. -/
theorem registerScript_relays (h : List.Forall₂ Holds p.slots values)
    (hfree : (s.heap u).scripts.availableIndices = idx :: more)
    (hchars : 's'.toUInt8 ∉ p.assembly.1) (env : Environment) :
    ∃ t, (Server.registerScript env u (p.script values)).run s = .ok () t ∧
      (t.heap u).scripts.scripts idx = some { p.script values with idx := idx } ∧
      Relayed p u idx s (.ok () t) := by
  obtain ⟨scripts, hstored, hregister⟩ := registerScript_run hfree env (p.script values)
  have hcast := (Payload.castable_script_iff h idx).mpr hchars
  obtain ⟨t, order, htell, hheap, horder, hsent⟩ :=
    tell_run hcast env (s.modifyUser u fun r => { r with scripts := scripts }) u
  rw [Server.modifyUser_heap_self] at horder hsent
  refine ⟨t, hregister.trans htell, ?_, t, _, rfl, hsent, ?_, ?_⟩
  · rw [hheap, Server.modifyUser_heap_self]
    exact hstored
  · have hrecipients (m : Outgoing) :
        ((u :: order).map fun other => (⟨other, m⟩ : Sent)).map (fun e => e.recipient) =
          u :: order := by
      rw [List.map_map]
      exact List.map_id _
    rw [hrecipients]
    exact horder.cons u
  · intro e he
    obtain ⟨other, -, rfl⟩ := List.mem_map.mp he
    exact carries_script h hchars u { s.heap u with scripts := scripts } idx

end Registration

section Handler

variable {p : Payload} {x : Session} {rest : List UInt8} {u : Ptr} {idx : ℕ} {more : List ℕ}

theorem handle_run (hx : x.buf.unread = p.bytes ++ rest) (env : Environment)
    (clientSocket : Socket) (u : Ptr) :
    ∃ values t, List.Forall₂ Holds p.slots values ∧
      (handle env clientSocket (some u)).run x =
        (onServer (Server.registerScript env u (p.script values))).run { x with buf := t } := by
  rw [Payload.bytes, Payload.fields, List.append_assoc (p.assembly.1 ++ [0]),
    List.append_assoc (p.slots.flatMap Slot.bytes)] at hx
  obtain ⟨t₁, htext, ht₁⟩ := decodes_readStringCopy p.assembly x.buf _ hx
  have hview₁ := cursor.view_of_moved ht₁
  rw [show cursor.view x.buf = x.buf.unread from rfl, hx, List.drop_left] at hview₁
  obtain ⟨values, t₂, hslots, ht₂, hvalues⟩ := reads_slots p.slots hview₁
  have hview₂ := cursor.view_of_moved ht₂
  rw [hview₁, List.drop_left] at hview₂
  have hint : Decodes cursor readUnsignedInt p.first.1 (beNat p.first.1) :=
    (decodes_readBytes (by decide) p.first).map beNat
  obtain ⟨t, hfirst, -⟩ := hint t₂ rest hview₂
  have hreverse : p.assembly.1.reverse = p.slots.map char := List.reverse_reverse _
  rw [← hreverse] at hslots
  refine ⟨values, t, hvalues, ?_⟩
  rw [handle, readText, run_onBuf_bind htext, run_onBuf_bind hslots, run_onBuf_bind hfirst]
  rfl

/-- The packet is relayed unchanged exactly when there is no string among its fields: then every
cast finds its type, the user and its local users are told, and the stored script can be sent to
anyone later. -/
theorem script_relayed_iff (hx : x.buf.unread = p.bytes ++ rest)
    (hfree : (x.server.heap u).scripts.availableIndices = idx :: more) (env : Environment)
    (clientSocket : Socket) :
    ∃ r script, Observers.serverOf ((handle env clientSocket (some u)).run x) = r ∧
      ((finalState r).heap u).scripts.scripts idx = some script ∧
      (script.castable = true ↔ 's'.toUInt8 ∉ p.assembly.1) ∧
      (Relayed p u idx x.server r ↔ 's'.toUInt8 ∉ p.assembly.1) ∧
      (Sendable p u idx (finalState r) script ↔ 's'.toUInt8 ∉ p.assembly.1) := by
  obtain ⟨values, t, hvalues, hrun⟩ := handle_run hx env clientSocket u
  rw [hrun, Observers.serverOf_onServer]
  have hcast := Payload.castable_script_iff hvalues idx
  refine ⟨_, { p.script values with idx := idx }, rfl, ?_, hcast, ?_, sendable_iff hvalues ..⟩
  · by_cases hchars : 's'.toUInt8 ∈ p.assembly.1
    · obtain ⟨s', hfails, hstored⟩ := registerScript_fails hvalues hfree hchars env
      rwa [hfails]
    · obtain ⟨s', hok, hstored, -⟩ := registerScript_relays hvalues hfree hchars env
      rwa [hok]
  · constructor
    · rintro ⟨s', new, hok, -⟩ hchars
      obtain ⟨s'', hfails, -⟩ := registerScript_fails hvalues hfree hchars env
      rw [hfails] at hok
      cases hok
    · intro hchars
      obtain ⟨s', hok, -, hrelayed⟩ := registerScript_relays hvalues hfree hchars env
      rwa [hok]

end Handler

/-- A first connection with a new user, on which the packet has arrived. -/
def arrived (p : Payload) : Session where
  server :=
    { Server.initial fun _ => .zeroed with
      heap := fun _ => .construct .zeroed 1 1 (.aircraft (.construct .zeroed)) }
  buf := .preallocated p.bytes
  dispatched := []

theorem arrived_free (p : Payload) : ((arrived p).server.heap 0).scripts.availableIndices =
    0 :: List.range' 1 1023 := by
  have hall : ((arrived p).server.heap 0).scripts.availableIndices = List.range 1024 := by
    simp only [arrived, User.construct, ScriptIndex.init, ScriptIndex.size]
  rw [hall, List.range_eq_range', List.range'_succ]

/-- A format of a long and an int. -/
def numbers : Payload where
  slots := [.int 'i'.toUInt8 (by decide) ⟨[0, 0, 0, 7], rfl⟩, .long ⟨[0, 0, 0, 0, 0, 0, 0, 9], rfl⟩]
  first := ⟨[0, 0, 0, 1], rfl⟩

/-- Loops in the order of the entries. -/
def inOrder : Environment := .orderly fun _ _ => none

theorem numbers_relayed :
    ∃ r script, Observers.serverOf ((handle inOrder 1 (some 0)).run (arrived numbers)) = r ∧
      ((finalState r).heap 0).scripts.scripts 0 = some script ∧
      (script.castable = true ↔ 's'.toUInt8 ∉ numbers.assembly.1) ∧
      (Relayed numbers 0 0 (arrived numbers).server r ↔ 's'.toUInt8 ∉ numbers.assembly.1) ∧
      (Sendable numbers 0 0 (finalState r) script ↔ 's'.toUInt8 ∉ numbers.assembly.1) :=
  have hx : (arrived numbers).buf.unread = numbers.bytes ++ [] := rfl
  script_relayed_iff hx (arrived_free numbers) inOrder 1

/-- A format of one string. -/
def oneString : Payload where
  slots := [.text (letter 83 (by decide))]
  first := ⟨[0, 0, 0, 1], rfl⟩

theorem string_dropped : ¬ ∀ (p : Payload) (x : Session) (rest : List UInt8) (u : Ptr) (idx : ℕ)
    (more : List ℕ), x.buf.unread = p.bytes ++ rest →
    (x.server.heap u).scripts.availableIndices = idx :: more →
    ∀ (env : Environment) (clientSocket : Socket),
      Relayed p u idx x.server (Observers.serverOf ((handle env clientSocket (some u)).run x)) := by
  intro hall
  have hx : (arrived oneString).buf.unread = oneString.bytes ++ [] := rfl
  obtain ⟨values, t, hvalues, hrun⟩ := handle_run hx inOrder 1 0
  obtain ⟨s, hfails, -⟩ :=
    registerScript_fails hvalues (arrived_free oneString) (by decide) inOrder
  obtain ⟨t, new, hok, -⟩ := hall oneString (arrived oneString) [] 0 0 _ hx
    (arrived_free oneString) inOrder 1
  rw [hrun, Observers.serverOf_onServer] at hok
  exact absurd (hfails.symm.trans hok) nofun

end Win64Server.ScriptRelay
