import Win64Server.PacketIsolation
import Win64Server.PacketFields

/-!
Whether a handler reads its payload and nothing else. What lies behind the payload in the buffer,
the next frames and then stale memory, is replaced by something else, and the handler is to do
the same. That is so when the payload is one encoding of the fields it reads. A last string that
lacks its NUL makes it copy the memory behind the payload, and with no memory there it fails.
-/
namespace Win64Server.PayloadReads

open Outcome Library Layout BasicStream ChunkedFraming PacketIsolation PacketFields

/-- Two sessions that differ at most in the bytes of the buffer. -/
structure Beside (x y : Session) : Prop where
  server : y.server = x.server
  dispatched : y.dispatched = x.dispatched
  index : y.buf.index = x.buf.index

/-- With a record of the layout in front of the cursor, a program that returns does the same
whatever lies behind the record, and leaves the cursor there. -/
def Shares {α : Type} (program : HandlerM α) (L : Layout UInt8) : Prop :=
  ∀ p, Encodes 0 L p → ∀ x y rest rest', Beside x y → x.buf.unread = p ++ rest →
    y.buf.unread = p ++ rest' → ∀ a z, program.run x = .ok a z →
      ∃ w, program.run y = .ok a w ∧ Beside z w ∧ w.buf = advance y.buf p.length

/-- Where the memory ends with the received bytes, and these with a string that lacks its NUL, the
program does not return. -/
def Stops {α : Type} (program : HandlerM α) (L : Layout UInt8) : Prop :=
  ∀ x : Session, x.buf.dataSize = x.buf.data.length → CutShort 0 L x.buf.unread →
    ∀ a z, program.run x ≠ .ok a z

structure KeepsTo {α : Type} (program : HandlerM α) (L : Layout UInt8) : Prop where
  shares : Shares program L
  stops : Stops program L

section Rules

variable {α β : Type} {L K : Layout UInt8}

theorem Beside.advance {x y : Session} (h : Beside x y) (n : ℕ) :
    Beside { x with buf := advance x.buf n } { y with buf := PacketFields.advance y.buf n } :=
  ⟨h.server, h.dispatched, congrArg (· + n) h.index⟩

theorem unread_advance_append {buf : BasicStream} {p rest : List UInt8}
    (h : buf.unread = p ++ rest) : (advance buf p.length).unread = rest := by
  rw [PacketFields.advance, unread_advance, h, List.drop_left]

/-- After a field that both have read. -/
theorem shares_bind {op : HandlerM α} {f : α → HandlerM β} {p q : List UInt8} {a : α}
    (hop : Reads op p a) (hf : Shares (f a) L) (hq : Encodes 0 L q) {x y : Session}
    {rest rest' : List UInt8} (hxy : Beside x y) (hx : x.buf.unread = (p ++ q) ++ rest)
    (hy : y.buf.unread = (p ++ q) ++ rest') {b : β} {z : Session}
    (hrun : (op >>= f).run x = .ok b z) :
    ∃ w, (op >>= f).run y = .ok b w ∧ Beside z w ∧ w.buf = advance y.buf (p ++ q).length := by
  rw [List.append_assoc] at hx hy
  obtain ⟨_, hopx, rfl⟩ := hop x _ hx
  obtain ⟨_, hopy, rfl⟩ := hop y _ hy
  rw [run_bind_of_ok hopx] at hrun
  obtain ⟨w, hw, hzw, hbuf⟩ := hf q hq _ _ rest rest' (hxy.advance p.length)
    (unread_advance_append hx) (unread_advance_append hy) b z hrun
  refine ⟨w, (run_bind_of_ok hopy).trans hw, hzw, hbuf.trans ?_⟩
  simp only [advance, List.length_append, Nat.add_assoc]

theorem stops_bind {op : HandlerM α} {f : α → HandlerM β} {p q : List UInt8} {a : α}
    (hop : Reads op p a) (hf : Stops (f a) L) (hq : CutShort 0 L q) {x : Session}
    (htight : x.buf.dataSize = x.buf.data.length) (hx : x.buf.unread = p ++ q) (b : β)
    (z : Session) : (op >>= f).run x ≠ .ok b z := by
  obtain ⟨_, hopx, rfl⟩ := hop x _ hx
  rw [run_bind_of_ok hopx]
  apply hf { x with buf := advance x.buf p.length } htight
  rwa [unread_advance_append hx]

theorem shares_fixed {op : HandlerM α} {f : α → HandlerM β} {n : ℕ}
    {value : Bytes n → α} {next : List UInt8 → Layout UInt8}
    (hop : ∀ bs : Bytes n, Reads op bs.1 (value bs))
    (hf : ∀ bs : Bytes n, Shares (f (value bs)) (next bs.1)) :
    Shares (op >>= f) (.fixed n next) := by
  intro p hp x y rest rest' hxy hx hy b z hrun
  cases hp with
  | fixed hlen hrest => exact shares_bind (hop ⟨_, hlen⟩) (hf ⟨_, hlen⟩) hrest hxy hx hy hrun

theorem stops_fixed {op : HandlerM α} {f : α → HandlerM β} {n : ℕ}
    {value : Bytes n → α} {next : List UInt8 → Layout UInt8}
    (hop : ∀ bs : Bytes n, Reads op bs.1 (value bs))
    (hf : ∀ bs : Bytes n, Stops (f (value bs)) (next bs.1)) :
    Stops (op >>= f) (.fixed n next) := by
  intro x htight hcut
  generalize hx : x.buf.unread = p at hcut
  cases hcut with
  | fixed hlen hrest => exact stops_bind (hop ⟨_, hlen⟩) (hf ⟨_, hlen⟩) hrest htight hx

theorem shares_text {f : CxxString → HandlerM β} {next : List UInt8 → Layout UInt8}
    (hf : ∀ bs, Shares (f bs) (next bs)) : Shares (readText >>= f) (.stopped next) := by
  intro p hp x y rest rest' hxy hx hy b z hrun
  cases hp with
  | @stopped _ bs q hstop hrest =>
    rw [← List.singleton_append, ← List.append_assoc] at hx hy ⊢
    exact shares_bind (reads_text ⟨bs, hstop⟩) (hf bs) hrest hxy hx hy hrun

/-- With no memory behind a string that lacks its NUL, copying it fails. -/
theorem readText_fails {x : Session} (htight : x.buf.dataSize = x.buf.data.length)
    (hstop : 0 ∉ x.buf.unread) (bs : CxxString) (z : Session) : readText.run x ≠ .ok bs z := by
  intro hrun
  obtain ⟨buf, hcopy, rfl⟩ := onBuf_ok.mp hrun
  obtain ⟨pointer, t, hread, hstring⟩ := run_bind_ok.mp hcopy
  obtain ⟨-, rfl, rfl⟩ := readString_ok hread
  have hblock : x.buf.data.drop x.buf.index = x.buf.unread := by
    rw [unread, htight, List.take_length]
  simp [stdString, hblock, hstop] at hstring

theorem stops_text {f : CxxString → HandlerM β} {next : List UInt8 → Layout UInt8}
    (hf : ∀ bs, Stops (f bs) (next bs)) : Stops (readText >>= f) (.stopped next) := by
  intro x htight hcut b z hrun
  generalize hx : x.buf.unread = p at hcut
  cases hcut with
  | @stopped _ bs q hstop hrest =>
    rw [← List.singleton_append, ← List.append_assoc] at hx
    exact stops_bind (reads_text ⟨bs, hstop⟩) (hf bs) hrest htight hx b z hrun
  | cut hne hstop hrest =>
    obtain ⟨bs, y, hread, -⟩ := run_bind_ok.mp hrun
    exact readText_fails htight (hx ▸ hstop) bs y hread

theorem keepsTo_fixed {op : HandlerM α} {f : α → HandlerM β} {n : ℕ}
    {value : Bytes n → α} {next : List UInt8 → Layout UInt8}
    (hop : ∀ bs : Bytes n, Reads op bs.1 (value bs))
    (hf : ∀ bs : Bytes n, KeepsTo (f (value bs)) (next bs.1)) :
    KeepsTo (op >>= f) (.fixed n next) :=
  ⟨shares_fixed hop fun bs => (hf bs).shares, stops_fixed hop fun bs => (hf bs).stops⟩

theorem keepsTo_text {f : CxxString → HandlerM β} (hf : ∀ bs, KeepsTo (f bs) L) :
    KeepsTo (readText >>= f) (text L) :=
  ⟨shares_text fun bs => (hf bs).shares, stops_text fun bs => (hf bs).stops⟩

theorem reads_oneByte (bs : Bytes 1) : Reads (onBuf readUnsignedByte) bs.1 (beNat bs.1) :=
  decodes_onBuf ((decodes_readBytes (by decide) bs).map beNat)

theorem keepsTo_byte {f : ℕ → HandlerM β} (hf : ∀ a, KeepsTo (f a) L) :
    KeepsTo (onBuf readUnsignedByte >>= f) (bytes 1 L) :=
  keepsTo_fixed reads_oneByte fun _ => hf _

theorem keepsTo_short {f : ℕ → HandlerM β} (hf : ∀ a, KeepsTo (f a) L) :
    KeepsTo (onBuf readUnsignedShort >>= f) (bytes 2 L) :=
  keepsTo_fixed reads_short fun _ => hf _

theorem keepsTo_frequency {f : ℤ → HandlerM β} (hf : ∀ a, KeepsTo (f a) L) :
    KeepsTo (readFrequency >>= f) (bytes 3 L) :=
  keepsTo_fixed reads_frequency fun _ => hf _

theorem keepsTo_int {f : ℕ → HandlerM β} (hf : ∀ a, KeepsTo (f a) L) :
    KeepsTo (onBuf readUnsignedInt >>= f) (bytes 4 L) :=
  keepsTo_fixed reads_int fun _ => hf _

theorem keepsTo_qWord {f : ℤ → HandlerM β} (hf : ∀ a, KeepsTo (f a) L) :
    KeepsTo (onBuf readQWord >>= f) (bytes 8 L) :=
  keepsTo_fixed reads_qWord fun _ => hf _

theorem keepsTo_double {f : Double → HandlerM β} (hf : ∀ a, KeepsTo (f a) L) :
    KeepsTo (readDouble >>= f) (bytes 8 L) :=
  keepsTo_fixed reads_double fun _ => hf _

/-- What reads nothing, and looks at nothing but the server. -/
theorem shares_server {f : Session → HandlerM α} (hf : ∀ x, Shares (f x) L)
    (hserver : ∀ x y : Session, y.server = x.server → f y = f x) : Shares (get >>= f) L := by
  intro p hp x y rest rest' hxy hx hy a z hrun
  rw [run_bind_of_ok (EStateM.run_get ..)] at hrun ⊢
  rw [hserver x y hxy.server]
  exact hf x p hp x y rest rest' hxy hx hy a z hrun

theorem keepsTo_get {f : Session → HandlerM α} (hf : ∀ x, KeepsTo (f x) L)
    (hserver : ∀ x y : Session, y.server = x.server → f y = f x) : KeepsTo (get >>= f) L where
  shares := shares_server (fun x => (hf x).shares) hserver
  stops x htight hcut := (hf x).stops x htight hcut

theorem keepsTo_pure (a : α) : KeepsTo (pure a) .done where
  shares := by
    intro p hp x y rest rest' hxy hx hy b z hrun
    cases hp
    cases hrun
    exact ⟨y, rfl, hxy, rfl⟩
  stops x _ hcut := nomatch hcut

theorem keepsTo_throw (e : Fault) : KeepsTo (throw e : HandlerM α) L where
  shares _ _ _ _ _ _ _ _ _ _ _ hrun := nomatch hrun
  stops _ _ _ _ _ hrun := nomatch hrun

theorem keepsTo_ite {c : Prop} [Decidable c] {program other : HandlerM α}
    (hprogram : KeepsTo program L) (hother : KeepsTo other L) :
    KeepsTo (if c then program else other) L := by
  split
  · exact hprogram
  · exact hother

theorem keepsTo_onServer (op : ServerM α) : KeepsTo (onServer op) .done where
  shares := by
    intro p hp x y rest rest' hxy hx hy a z hrun
    cases hp
    obtain ⟨server, hop, rfl⟩ := onServer_ok.mp hrun
    rw [← hxy.server] at hop
    exact ⟨_, onServer_ok.mpr ⟨server, hop, rfl⟩, ⟨rfl, hxy.dispatched, hxy.index⟩, rfl⟩
  stops x _ hcut := nomatch hcut

/-- What a program does behind its last field. -/
theorem shares_bind_done {program : HandlerM α} {f : α → HandlerM β} (h : Shares program L)
    (hf : ∀ a, Shares (f a) .done) : Shares (program >>= f) L := by
  intro p hp x y rest rest' hxy hx hy b z hrun
  obtain ⟨a, x', hprogram, hmore⟩ := run_bind_ok.mp hrun
  obtain ⟨y', hy', hxy', hbuf⟩ := h p hp x y rest rest' hxy hx hy a x' hprogram
  obtain ⟨w, hw, hzw, hw'⟩ := hf a [] .done x' y' _ _ hxy' rfl rfl b z hmore
  exact ⟨w, (run_bind_of_ok hy').trans hw, hzw, hw'.trans hbuf⟩

theorem keepsTo_bind_done {program : HandlerM α} {f : α → HandlerM β} (h : KeepsTo program L)
    (hf : ∀ a, KeepsTo (f a) .done) : KeepsTo (program >>= f) L where
  shares := shares_bind_done h.shares fun a => (hf a).shares
  stops x htight hcut b z hrun := by
    obtain ⟨a, y, hprogram, -⟩ := run_bind_ok.mp hrun
    exact h.stops x htight hcut a y hprogram

/-- And in front of a field. -/
theorem keepsTo_onServer_bind {op : ServerM α} {f : α → HandlerM β} (hf : ∀ a, KeepsTo (f a) L) :
    KeepsTo (onServer op >>= f) L where
  shares := by
    intro p hp x y rest rest' hxy hx hy b z hrun
    obtain ⟨a, _, hop, hmore⟩ := run_bind_ok.mp hrun
    obtain ⟨server, hserver, rfl⟩ := onServer_ok.mp hop
    rw [← hxy.server] at hserver
    rw [run_bind_of_ok (onServer_ok.mpr ⟨server, hserver, rfl⟩)]
    exact (hf a).shares p hp { x with server := server } { y with server := server } rest rest'
      ⟨rfl, hxy.dispatched, hxy.index⟩ hx hy b z hmore
  stops x htight hcut b z hrun := by
    obtain ⟨a, _, hop, hmore⟩ := run_bind_ok.mp hrun
    obtain ⟨server, -, rfl⟩ := onServer_ok.mp hop
    exact (hf a).stops { x with server := server } htight hcut b z hmore

theorem keepsTo_deref {f : Ptr → HandlerM β} (user : Option Ptr) (hf : ∀ u, KeepsTo (f u) L) :
    KeepsTo (deref user >>= f) L := by
  cases user with
  | none => exact ⟨fun _ _ _ _ _ _ _ _ _ _ _ h => (nomatch h), fun _ _ _ _ _ h => nomatch h⟩
  | some u => exact hf u

/-- One record and then another. -/
theorem shares_andThen {program : HandlerM α} {f : α → HandlerM β} (h : Shares program L)
    (hf : ∀ a, Shares (f a) K) : Shares (program >>= f) (L.andThen K) := by
  intro p hp x y rest rest' hxy hx hy b z hrun
  obtain ⟨q, r, rfl, hq, hr⟩ := encodes_andThen hp
  rw [List.append_assoc] at hx hy
  obtain ⟨a, x', hprogram, hmore⟩ := run_bind_ok.mp hrun
  obtain ⟨y', hy', hxy', hbuf⟩ := h q hq x y _ _ hxy hx hy a x' hprogram
  obtain ⟨x'', hx'', hxx, hxbuf⟩ := h q hq x x _ _ ⟨rfl, rfl, rfl⟩ hx hx a x' hprogram
  obtain rfl : x'' = x' := by
    rw [hprogram] at hx''
    cases hx''
    rfl
  obtain ⟨w, hw, hzw, hw'⟩ := hf a r hr x'' y' rest rest' hxy'
    (by rw [hxbuf]; exact unread_advance_append hx)
    (by rw [hbuf]; exact unread_advance_append hy) b z hmore
  refine ⟨w, (run_bind_of_ok hy').trans hw, hzw, ?_⟩
  rw [hw', hbuf]
  simp only [advance, List.length_append, Nat.add_assoc]

theorem shares_pure (a : α) : Shares (pure a) .done := (keepsTo_pure a).shares

theorem shares_field {op : HandlerM α} {n : ℕ} {value : Bytes n → α}
    (hop : ∀ bs : Bytes n, Reads op bs.1 (value bs)) : Shares op (bytes n .done) := by
  rw [← bind_pure op]
  exact shares_fixed hop fun bs => shares_pure _

end Rules

section Scripts

/-- A string slot keeps where its string begins. -/
theorem shares_string : Shares (onBuf (AnyValue.constCharPtr <$> readString)) (text .done) := by
  intro p hp x y rest rest' hxy hx hy a z hrun
  cases hp with
  | @stopped _ bs q hstop hrest =>
    cases hrest
    rw [List.append_assoc] at hx hy
    have hreads (s : Session) {more : List UInt8} (hs : s.buf.unread = bs ++ 0 :: more) :
        (onBuf (AnyValue.constCharPtr <$> readString)).run s =
          .ok (.constCharPtr s.buf.index) { s with buf := advance s.buf (bs.length + 1) } :=
      onBuf_ok.mpr ⟨_, run_map_ok.mpr ⟨_, readString_run ⟨bs, hstop⟩ hs, rfl⟩, rfl⟩
    rw [hreads x hx] at hrun
    cases hrun
    refine ⟨_, by rw [hreads y hy, hxy.index], hxy.advance _, ?_⟩
    rw [List.length_append]
    rfl

theorem shares_readObject (c : UInt8) :
    Shares (onBuf (TempDataPacket.readObject c)) (objectLayout c) := by
  unfold TempDataPacket.readObject objectLayout
  split
  · exact shares_string
  · split
    · exact shares_field fun bs => decodes_onBuf
        (((decodes_readBytes (by decide) bs).map fun bs => toInt64 (beNat bs)).map _)
    · exact shares_field fun bs => decodes_onBuf
        (((decodes_readBytes (by decide) bs).map beNat).map _)

theorem shares_slots (cs : List UInt8) :
    Shares (onBuf (cs.mapM TempDataPacket.readObject))
      (cs.foldr (fun c L => (objectLayout c).andThen L) .done) := by
  induction cs with
  | nil => exact shares_pure []
  | cons c cs ih =>
    rw [List.mapM_cons, onBuf_bind]
    refine shares_andThen (shares_readObject c) fun a => ?_
    rw [onBuf_bind]
    exact shares_bind_done ih fun as => shares_pure (a :: as)

end Scripts

section Handlers

variable (env : Environment) (clientSocket : Socket) (user : Option Ptr)

theorem pilotUpdate_keepsTo :
    KeepsTo (PilotUpdate.handle env clientSocket user) (payloadLayout 1) := by
  refine keepsTo_double fun latitude => keepsTo_double fun longitude => ?_
  refine keepsTo_deref user fun u => keepsTo_onServer_bind fun _ => ?_
  refine keepsTo_qWord fun hash => keepsTo_short fun groundSpeed => ?_
  exact keepsTo_double fun altitude => keepsTo_onServer _

theorem transponderPacket_keepsTo :
    KeepsTo (TransponderPacket.handle env clientSocket user) (payloadLayout 2) :=
  keepsTo_text fun _ => keepsTo_deref user fun _ => keepsTo_onServer _

theorem controllerUpdate_keepsTo :
    KeepsTo (ControllerUpdate.handle env clientSocket user) (payloadLayout 3) := by
  refine keepsTo_double fun latitude => keepsTo_double fun longitude => ?_
  exact keepsTo_deref user fun u => keepsTo_onServer _

theorem changeCyclePacket_keepsTo :
    KeepsTo (ChangeCyclePacket.handle clientSocket user) (payloadLayout 5) := by
  refine keepsTo_short fun index => keepsTo_get (fun x => ?_) fun x y hserver => by
    simp only [hserver]
  refine keepsTo_byte fun type => keepsTo_qWord fun requestTime => keepsTo_ite ?_ (keepsTo_pure _)
  exact keepsTo_deref user fun u => keepsTo_onServer _

theorem messageRxPacket_keepsTo :
    KeepsTo (MessageRxPacket.handle env clientSocket user) (payloadLayout 6) := by
  refine keepsTo_text fun callsign => keepsTo_frequency fun frequency => ?_
  refine keepsTo_text fun message => keepsTo_get (fun x => ?_) fun x y hserver => by
    simp only [hserver]
  exact keepsTo_deref user fun u => keepsTo_onServer _

theorem pilotTitle_keepsTo :
    KeepsTo (PilotTitle.handle clientSocket user) (payloadLayout 7) := by
  refine keepsTo_short fun index => keepsTo_get (fun x => ?_) fun x y hserver => by
    simp only [hserver]
  refine keepsTo_text fun title => keepsTo_ite ?_ (keepsTo_pure _)
  exact keepsTo_deref _ fun u => keepsTo_onServer _

theorem clientMode_keepsTo :
    KeepsTo (ClientMode.handle env clientSocket user) (payloadLayout 8) :=
  keepsTo_byte fun _ => keepsTo_deref user fun _ => keepsTo_onServer _

theorem clientDisconnect_keepsTo :
    KeepsTo (ClientDisconnect.handle clientSocket user) (payloadLayout 9) :=
  keepsTo_byte fun _ => keepsTo_deref user fun _ => keepsTo_onServer _

theorem flightPlanUpdate_keepsTo :
    KeepsTo (FlightPlanUpdate.handle clientSocket user) (payloadLayout 10) := by
  refine keepsTo_short fun curCycle => keepsTo_short fun index => ?_
  refine keepsTo_get (fun x => ?_) fun x y hserver => by simp only [hserver]
  refine keepsTo_byte fun flightRules => keepsTo_text fun squawk => keepsTo_text fun departure => ?_
  refine keepsTo_text fun arrival => keepsTo_text fun alternate => keepsTo_text fun cruise => ?_
  refine keepsTo_text fun acType => keepsTo_text fun scratch => keepsTo_text fun route => ?_
  refine keepsTo_text fun remarks => ?_
  split
  · exact keepsTo_pure _
  · exact keepsTo_onServer _

theorem requestFlightPlan_keepsTo :
    KeepsTo (RequestFlightPlan.handle clientSocket user) (payloadLayout 11) := by
  refine keepsTo_short fun index => keepsTo_short fun curCycle => ?_
  refine keepsTo_get (fun x => ?_) fun x y hserver => by simp only [hserver]
  split
  · exact keepsTo_pure _
  · refine keepsTo_ite (keepsTo_onServer_bind fun plan => ?_) (keepsTo_pure _)
    split
    · exact keepsTo_throw _
    · exact keepsTo_ite (keepsTo_deref user fun u => keepsTo_onServer _) (keepsTo_pure _)

theorem privateMsgPacket_keepsTo :
    KeepsTo (PrivateMsgPacket.handle clientSocket user) (payloadLayout 12) := by
  refine keepsTo_text fun callsign => keepsTo_get (fun x => ?_) fun x y hserver => by
    simp only [hserver]
  refine keepsTo_text fun message => ?_
  split
  · exact keepsTo_pure _
  · exact keepsTo_ite (keepsTo_deref user fun u => keepsTo_onServer _) (keepsTo_pure _)

theorem primeFreqPacket_keepsTo :
    KeepsTo (PrimeFreqPacket.handle env clientSocket user) (payloadLayout 13) := by
  refine keepsTo_byte fun flags => keepsTo_frequency fun first => keepsTo_deref user fun u => ?_
  exact keepsTo_onServer_bind fun _ => keepsTo_frequency fun second => keepsTo_onServer _

/-- A script packet ends in a number, so no string of it is the last field. -/
theorem tempDataPacket_keepsTo :
    KeepsTo (TempDataPacket.handle env clientSocket user) (payloadLayout 14) where
  shares := by
    refine shares_text fun assembly => ?_
    refine shares_andThen (shares_slots assembly.reverse) fun slots => ?_
    exact (keepsTo_int fun first => keepsTo_deref user fun u => keepsTo_onServer _).shares
  stops x _ hcut := by
    have hencodes : ¬ Encodes 0 (bytes 4 .done) [] := by
      intro h
      generalize hp : ([] : List UInt8) = p at h
      cases h with
      | fixed hlen _ =>
        rw [(List.append_eq_nil_iff.mp hp.symm).1] at hlen
        cases hlen
    have hcuts (p : List UInt8) : ¬ CutShort 0 (bytes 4 .done) p := by
      intro h
      cases h with
      | fixed _ hrest => cases hrest
    generalize x.buf.unread = p at hcut
    cases hcut with
    | stopped _ hrest => exact absurd hrest (not_cutShort_andThen hencodes hcuts _)
    | cut _ _ hrest =>
      obtain ⟨q, r, hqr, -, hr⟩ := encodes_andThen hrest
      rw [(List.append_eq_nil_iff.mp hqr.symm).2] at hr
      exact absurd hr hencodes

theorem readTypeFields_keepsTo (type : ℕ) :
    KeepsTo (HandshakePacket.readTypeFields type) (typeLayout type) := by
  unfold HandshakePacket.readTypeFields typeLayout
  split
  · exact keepsTo_byte fun rating => keepsTo_byte fun position => keepsTo_pure _
  · split
    · refine keepsTo_byte fun rating => keepsTo_text fun acfTitle => ?_
      refine keepsTo_text fun transponder => keepsTo_byte fun modeHeavy => ?_
      exact keepsTo_qWord fun hash => keepsTo_pure _
    · exact keepsTo_pure _

theorem readFields_keepsTo : KeepsTo HandshakePacket.readFields (payloadLayout 45) := by
  refine keepsTo_int fun protoVersion => keepsTo_text fun callSign => ?_
  refine keepsTo_text fun loginName => keepsTo_text fun username => keepsTo_text fun password => ?_
  refine keepsTo_qWord fun requestTime => keepsTo_double fun latitude => ?_
  refine keepsTo_double fun longitude => keepsTo_short fun visibility => ?_
  refine keepsTo_fixed reads_oneByte fun type => keepsTo_frequency fun first => ?_
  refine keepsTo_frequency fun second => ?_
  exact keepsTo_bind_done (readTypeFields_keepsTo _) fun typeFields => keepsTo_pure _

/-- Every registered handler keeps to the fields its id stands for. -/
theorem handle_keepsTo {packet : Packet} {id : ℕ}
    (h : (registerPackets env).getPacket id = some packet) :
    KeepsTo (packet.handle clientSocket user) (payloadLayout id) := by
  apply getPacket_byte_cases h
  case handshake => exact keepsTo_bind_done readFields_keepsTo fun _ => keepsTo_onServer _
  case pong => exact keepsTo_pure ()
  case pilotUpdate => exact pilotUpdate_keepsTo env clientSocket user
  case controllerUpdate => exact controllerUpdate_keepsTo env clientSocket user
  case transponder => exact transponderPacket_keepsTo env clientSocket user
  case changeCycle => exact changeCyclePacket_keepsTo clientSocket user
  case message => exact messageRxPacket_keepsTo env clientSocket user
  case pilotTitle => exact pilotTitle_keepsTo clientSocket user
  case clientMode => exact clientMode_keepsTo env clientSocket user
  case clientDisconnect => exact clientDisconnect_keepsTo clientSocket user
  case flightPlanUpdate => exact flightPlanUpdate_keepsTo clientSocket user
  case requestFlightPlan => exact requestFlightPlan_keepsTo clientSocket user
  case privateMsg => exact privateMsgPacket_keepsTo clientSocket user
  case primeFreq => exact primeFreqPacket_keepsTo env clientSocket user
  case tempData => exact tempDataPacket_keepsTo env clientSocket user

end Handlers

/-- The buffer with its first `n` unread bytes and, in the place of all that lies behind them in the
block, these: bytes that have been received, and memory behind those. -/
def withBehind (buf : BasicStream) (n : ℕ) (received spare : List UInt8) : BasicStream :=
  { buf with
    data := buf.data.take (buf.index + n) ++ received ++ spare
    dataSize := (buf.data.take (buf.index + n)).length + received.length
    size_le := by
      rw [List.length_append, List.length_append]
      exact Nat.le_add_right _ _ }

theorem unread_withBehind {buf : BasicStream} {payload rest : List UInt8}
    (h : buf.unread = payload ++ rest) (hindex : buf.index ≤ buf.dataSize)
    (received spare : List UInt8) :
    (withBehind buf payload.length received spare).unread = payload ++ received := by
  have hlen := buf.unread_length
  rw [h, List.length_append] at hlen
  have hsize := buf.size_le
  let head := buf.data.take (buf.index + payload.length)
  have hhead : buf.index ≤ head.length := by
    rw [List.length_take]
    omega
  have hdrop : head.drop buf.index = payload := by
    have htake : head.drop buf.index = buf.unread.take payload.length := by
      rw [unread_eq, List.take_take, List.drop_take, Nat.add_sub_cancel_left]
      congr 1
      omega
    rw [htake, h, List.take_left]
  change ((head ++ received ++ spare).take (head.length + received.length)).drop buf.index = _
  rw [← List.length_append, List.take_left, List.drop_append_of_le_length hhead, hdrop]

/-- The cursor is inside the buffer when a handler starts. -/
theorem atPayload_index_le {factory : PacketFactory} {x : Session} {payload rest : List UInt8}
    {id : ℕ} {packet : Packet}
    (hframe : splitFrame factory x.buf.unread = some ((id, payload), rest))
    (hpacket : factory.getPacket id = some packet) :
    (atPayload x packet).index ≤ (atPayload x packet).dataSize := by
  obtain ⟨b, tail, packet', n, body, hunread, hpacket', hsize, -, rfl, -, -⟩ :=
    splitFrame_eq_some.mp hframe
  obtain rfl : packet' = packet := Option.some.inj (hpacket'.symm.trans hpacket)
  have hlen := x.buf.unread_length
  rw [hunread, List.length_cons] at hlen
  have htail := (splitSize_drop hsize).1
  change x.buf.index + 1 + sizeBytes packet'.size ≤ x.buf.dataSize
  omega

/-- The program reads exactly the next `n` bytes: whatever is put behind them, it ends the same, in
`z` and behind these bytes. -/
def ReadsExactly (program : HandlerM Unit) (x z : Session) (n : ℕ) : Prop :=
  ∀ received spare, program.run { x with buf := withBehind x.buf n received spare } =
    .ok () { z with buf := advance (withBehind x.buf n received spare) n }

/-- When the handler of a complete frame returns, so does the pass. It removes exactly the frame,
and the handler has read exactly the payload, if and only if the payload is one encoding of the
fields that the handler reads. -/
theorem frame_isolated_iff {env : Environment} {clientSocket : Socket} {x z : Session}
    {payload rest : List UInt8} {id : ℕ} {packet : Packet}
    (hframe : splitFrame (registerPackets env) x.buf.unread = some ((id, payload), rest))
    (hpacket : (registerPackets env).getPacket id = some packet)
    (hreturns : (packet.handle clientSocket
        (x.server.clientManager.getUserBySocket clientSocket)).run
      { x with
        buf := atPayload x packet
        dispatched := x.dispatched ++ [(id, payload)] } = .ok () z) :
    ∃ y, (processFrame (registerPackets env) clientSocket).run x = .ok true y ∧
      (y.buf.unread = rest ∧
        ReadsExactly (packet.handle clientSocket
            (x.server.clientManager.getUserBySocket clientSocket))
          { x with
            buf := atPayload x packet
            dispatched := x.dispatched ++ [(id, payload)] } z payload.length ↔
        Encodes 0 (payloadLayout id) payload) := by
  obtain ⟨y, k, hrun, htakes, hz, hunread, -⟩ := handled_frame_takes hframe hpacket hreturns
  obtain ⟨-, hpayload, -⟩ := processFrame_handled clientSocket hframe hpacket
  have hkeeps := handle_keepsTo env clientSocket
    (x.server.clientManager.getUserBySocket clientSocket) hpacket
  refine ⟨y, hrun, ?_⟩
  rw [hunread, drop_eq_rest_iff htakes]
  constructor
  · rintro ⟨hencodes | ⟨rfl, hcut⟩, hreads⟩
    · exact hencodes
    · -- With nothing at all behind the payload the handler would not have returned.
      have htight := unread_withBehind hpayload (atPayload_index_le hframe hpacket) [] []
      rw [List.append_nil] at htight
      refine absurd (hreads [] []) (hkeeps.stops _ ?_ (by rw [htight]; exact hcut) _ _)
      simp [withBehind]
  · intro hencodes
    refine ⟨Or.inl hencodes, fun received spare => ?_⟩
    obtain ⟨w, hw, hzw, hbuf⟩ := hkeeps.shares payload hencodes
      { x with buf := atPayload x packet, dispatched := x.dispatched ++ [(id, payload)] }
      { x with
        buf := withBehind (atPayload x packet) payload.length received spare
        dispatched := x.dispatched ++ [(id, payload)] }
      rest received ⟨rfl, rfl, rfl⟩ hpayload
      (unread_withBehind hpayload (atPayload_index_le hframe hpacket) received spare) () z hreturns
    rw [hw, ← hbuf, ← hzw.server, ← hzw.dispatched]

/-- A server with one controller, connected on socket 1. -/
def oneController : Server :=
  let start := Server.initial fun _ => .zeroed
  { start with clientManager := start.clientManager.providePlacement 1 0 start.heap }

/-- A session of that controller with these bytes received. -/
def receivedBytes (block : List UInt8) : Session := ⟨oneController, .preallocated block, []⟩

/-- A private message of two empty strings, followed by a pong. -/
def twoTexts : Session := receivedBytes [12, 0, 2, 0, 0, 4]

def atTexts : Session :=
  { twoTexts with buf := atPayload twoTexts privateMsgPacket, dispatched := [(12, [0, 0])] }

theorem frame_isolated_privateMessage :
    ∃ y, (processFrame (registerPackets (.orderly fun _ _ => none)) 1).run twoTexts = .ok true y ∧
      y.buf.unread = [4] ∧
        ReadsExactly (privateMsgPacket.handle 1 (some 0)) atTexts
          (finalState ((privateMsgPacket.handle 1 (some 0)).run atTexts)) 2 := by
  have hencodes : Encodes 0 (payloadLayout 12) ([] ++ 0 :: ([] ++ 0 :: [])) :=
    .stopped (by decide) (.stopped (by decide) .done)
  let texts := finalState ((privateMsgPacket.handle 1 (some 0)).run atTexts)
  have hreturns : (privateMsgPacket.handle 1 (some 0)).run atTexts = .ok () texts := rfl
  have hframe : splitFrame (registerPackets (.orderly fun _ _ => none)) twoTexts.buf.unread =
      some ((12, [0, 0]), [4]) := rfl
  obtain ⟨y, hrun, hiff⟩ :=
    frame_isolated_iff hframe (show _ = some privateMsgPacket from rfl) hreturns
  exact ⟨y, hrun, hiff.mpr hencodes⟩

/-- A client mode packet is registered with three bytes and its handler reads one. -/
theorem clientMode_leaves_payload :
    ¬ ∀ (env : Environment) (clientSocket : Socket) (x z : Session) (payload rest : List UInt8)
      (id : ℕ) (packet : Packet),
      splitFrame (registerPackets env) x.buf.unread = some ((id, payload), rest) →
      (registerPackets env).getPacket id = some packet →
      (packet.handle clientSocket (x.server.clientManager.getUserBySocket clientSocket)).run
        { x with
          buf := atPayload x packet
          dispatched := x.dispatched ++ [(id, payload)] } = .ok () z →
      ∃ y, (processFrame (registerPackets env) clientSocket).run x = .ok true y ∧
        y.buf.unread = rest ∧
        ReadsExactly (packet.handle clientSocket
            (x.server.clientManager.getUserBySocket clientSocket))
          { x with
            buf := atPayload x packet
            dispatched := x.dispatched ++ [(id, payload)] } z payload.length := by
  intro h
  let env := Environment.orderly fun _ _ => none
  obtain ⟨y, hrun, hrest, -⟩ := h env 1 (receivedBytes [8, 16, 0, 0]) _ [16, 0, 0] [] 8
    (clientMode env) rfl rfl rfl
  cases hrun
  exact absurd hrest (by decide)

end Win64Server.PayloadReads
