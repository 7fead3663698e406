import Win64Server.FlightPlans
import Win64Server.ChunkedFraming

/-!
What a connection can do before it has logged in. The framer hands every packet to its handler
together with the user of the connection, which is null before the handshake. Most handlers follow
that pointer as soon as they have read some fields, and one changes a user it finds by index.
-/
namespace Win64Server.BeforeLogin

open Outcome Library BasicStream PacketFields ChunkedFraming

/-- Every fault but the use of a null user. -/
def Followed (e : Fault) : Prop := e ≠ .undefined .nullUser

instance (e : Exception) : Fact (Followed (.thrown e)) := ⟨by simp [Followed]⟩
instance : Fact (Followed (.undefined .readPastBlock)) := ⟨by simp [Followed]⟩

instance (c : UInt8) : Raises Followed (TempDataPacket.readObject c) := by
  unfold TempDataPacket.readObject; infer_instance

/-- The program does not follow the null user, and leaves the registry and its users as they
are. -/
structure Harmless (program : HandlerM Unit) (x : Session) : Prop where
  notNull : ∀ y, program.run x ≠ .error (.undefined .nullUser) y
  manager : (finalState (program.run x)).server.clientManager = x.server.clientManager
  users : ∀ u ∈ x.server.clientManager.users,
    (finalState (program.run x)).server.heap u = x.server.heap u

/-- The stream operation returns a value with the property. -/
def Delivers {α : Type} (op : StreamM α) (buf : BasicStream) (p : α → Prop) : Prop :=
  ∃ a t, op.run buf = .ok a t ∧ p a

section Delivering

variable {α β : Type} {buf : BasicStream} {p : β → Prop}

theorem not_delivers {op : StreamM β} :
    ¬ Delivers op buf p ↔ ∀ b t, op.run buf = .ok b t → ¬ p b := by
  simp only [Delivers, not_exists, not_and]

theorem not_delivers_bind {op : StreamM α} {f : α → StreamM β} :
    ¬ Delivers (op >>= f) buf p ↔ ∀ a t, op.run buf = .ok a t → ¬ Delivers (f a) t p := by
  constructor
  · rintro h a t hop ⟨b, u, hf, hb⟩
    exact h ⟨b, u, run_bind_ok.mpr ⟨a, t, hop, hf⟩, hb⟩
  · rintro h ⟨b, u, hrun, hb⟩
    obtain ⟨a, t, hop, hf⟩ := run_bind_ok.mp hrun
    exact h a t hop ⟨b, u, hf, hb⟩

theorem not_delivers_pure {b : β} : ¬ Delivers (pure b) buf p ↔ ¬ p b := by
  rw [not_delivers]
  constructor
  · exact fun h => h b buf rfl
  · rintro h b' t hrun
    cases hrun
    exact h

end Delivering

section Rules

variable {α : Type} {x : Session} {f : α → HandlerM Unit}

/-- A read that fails ends the handler without harm. -/
theorem harmless_onBuf_bind {op : StreamM α} [hop : Raises Followed op] :
    Harmless (onBuf op >>= f) x ↔
      ∀ a t, op.run x.buf = .ok a t → Harmless (f a) { x with buf := t } := by
  cases hrun : op.run x.buf with
  | ok a t =>
    have hbind : (onBuf op >>= f).run x = (f a).run { x with buf := t } := run_onBuf_bind hrun
    constructor
    · rintro h a' t' heq
      cases heq
      exact ⟨fun y => hbind ▸ h.notNull y, hbind ▸ h.manager, hbind ▸ h.users⟩
    · intro h
      have hrest := h a t rfl
      exact ⟨fun y => hbind ▸ hrest.notNull y, hbind ▸ hrest.manager, hbind ▸ hrest.users⟩
  | error e t =>
    have hbind : (onBuf op >>= f).run x = .error e { x with buf := t } :=
      run_bind_of_error (by rw [run_onBuf, hrun])
    refine iff_of_true ⟨?_, ?_, ?_⟩ fun a t heq => by cases heq
    · intro y heq
      rw [hbind] at heq
      cases heq
      exact hop.raised x.buf _ t hrun rfl
    · rw [hbind]
      rfl
    · rw [hbind]
      exact fun _ _ => rfl

theorem harmless_get_bind {f : Session → HandlerM Unit} :
    Harmless (get >>= f) x ↔ Harmless (f x) x :=
  ⟨fun h => ⟨h.notNull, h.manager, h.users⟩, fun h => ⟨h.notNull, h.manager, h.users⟩⟩

theorem harmless_pure : Harmless (pure ()) x :=
  ⟨fun y h => (by cases h), rfl, fun _ _ => rfl⟩

/-- The last step of a handler, when it works on the server and returns. -/
theorem harmless_onServer {op : ServerM Unit} {t : Server} (h : op.run x.server = .ok () t) :
    Harmless (onServer op) x ↔ t.clientManager = x.server.clientManager ∧
      ∀ u ∈ x.server.clientManager.users, t.heap u = x.server.heap u := by
  have hrun : (onServer op).run x = .ok () { x with server := t } := onServer_ok.mpr ⟨t, h, rfl⟩
  constructor
  · intro hharmless
    exact ⟨by simpa [hrun] using hharmless.manager, by simpa [hrun] using hharmless.users⟩
  · rintro ⟨hmanager, husers⟩
    refine ⟨fun y heq => ?_, by simpa [hrun] using hmanager, by simpa [hrun] using husers⟩
    rw [hrun] at heq
    cases heq

theorem harmless_onServer_error {op : ServerM Unit} {e : Fault}
    (h : op.run x.server = .error e x.server) (he : e ≠ .undefined .nullUser) :
    Harmless (onServer op) x := by
  have hrun : (onServer op).run x = .error e x := by rw [run_onServer, h]
  refine ⟨fun y heq => ?_, by rw [hrun]; rfl, by rw [hrun]; exact fun _ _ => rfl⟩
  rw [hrun] at heq
  cases heq
  exact he rfl

theorem not_harmless_deref {f : Ptr → HandlerM Unit} : ¬ Harmless (deref none >>= f) x :=
  fun h => h.notNull x rfl

theorem harmless_onServer_bind {op : ServerM α} {a : α} (h : op.run x.server = .ok a x.server) :
    Harmless (onServer op >>= f) x ↔ Harmless (f a) x := by
  have hrun : (onServer op >>= f).run x = (f a).run x :=
    run_bind_of_ok (onServer_ok.mpr ⟨_, h, rfl⟩)
  constructor
  · exact fun h => ⟨hrun ▸ h.notNull, hrun ▸ h.manager, hrun ▸ h.users⟩
  · exact fun h => ⟨hrun ▸ h.notNull, hrun ▸ h.manager, hrun ▸ h.users⟩

theorem harmless_throw {e : Fault} (h : e ≠ .undefined .nullUser) : Harmless (throw e) x := by
  refine ⟨fun y hrun => ?_, rfl, fun _ _ => rfl⟩
  cases hrun
  exact h rfl

end Rules

open TempDataPacket in
/-- Whether the bytes at the cursor keep the handler of a packet from doing harm: it cannot read
the fields ahead of its first use of the user, or with these fields it never comes to that. -/
@[simp] def Guarded (s : Server) (buf : BasicStream) : ℕ → Prop
  | 1 | 3 => ¬ Delivers (do let _ ← readQWord; readQWord) buf fun _ => True
  | 2 => ¬ Delivers readStringCopy buf fun _ => True
  | 5 => ¬ Delivers (do let i ← readUnsignedShort; let _ ← readUnsignedByte; let _ ← readQWord
                        return i) buf
      fun i => s.clientManager.getUserByIndex i = none
  | 6 => ¬ Delivers (do let _ ← readStringCopy; let _ ← read3Byte; readStringCopy) buf
      fun _ => True
  | 7 => ¬ Delivers (do let i ← readUnsignedShort; let _ ← readStringCopy; return i) buf
      fun i => s.clientManager.getUserByIndex i = none
  | 8 | 9 => ¬ Delivers readUnsignedByte buf fun _ => True
  | 10 => ¬ Delivers FlightPlanUpdate.readFields buf fun f => ∃ user ∈ s.clientManager.users,
      s.clientManager.getUserByIndex f.index = some user ∧ ∃ a plan,
        (s.heap user).asAircraft = some a ∧ a.flightPlan = some plan ∧
          (f.store plan ≠ plan ∨ (s.heap user).updateOnlyQueues 0 = false)
  | 11 => ¬ Delivers (do let i ← readUnsignedShort; return (i, ← readUnsignedShort)) buf
      fun f => ∃ user, s.clientManager.getUserByIndex f.1 = some user ∧ ∃ a plan,
        (s.heap user).asAircraft = some a ∧ a.flightPlan = some plan ∧ plan.cycle > f.2
  | 12 => ¬ Delivers (do let callsign ← readStringCopy; let _ ← readStringCopy; return callsign) buf
      fun callsign => s.clientManager.getUserByCallsign callsign ≠ none
  | 13 => ¬ Delivers (do let _ ← readUnsignedByte; read3Byte) buf fun _ => True
  | 14 => ¬ Delivers (do let assembly ← readStringCopy
                         let _ ← assembly.reverse.mapM readObject
                         readUnsignedInt) buf fun _ => True
  | _ => True

section Handlers

variable (env : Environment) (clientSocket : Socket) {x : Session}

theorem pilotUpdate_harmless_iff :
    Harmless (PilotUpdate.handle env clientSocket none) x ↔ Guarded x.server x.buf 1 := by
  simp only [PilotUpdate.handle, readDouble, bind_map_left, harmless_onBuf_bind, not_harmless_deref,
    Guarded, not_delivers_bind]
  simp only [not_delivers, not_true_eq_false]

theorem controllerUpdate_harmless_iff :
    Harmless (ControllerUpdate.handle env clientSocket none) x ↔ Guarded x.server x.buf 3 := by
  simp only [ControllerUpdate.handle, readDouble, bind_map_left, harmless_onBuf_bind,
    not_harmless_deref, Guarded, not_delivers_bind]
  simp only [not_delivers, not_true_eq_false]

theorem transponderPacket_harmless_iff :
    Harmless (TransponderPacket.handle env clientSocket none) x ↔ Guarded x.server x.buf 2 := by
  simp only [TransponderPacket.handle, readText, harmless_onBuf_bind, not_harmless_deref, Guarded]
  simp only [not_delivers, not_true_eq_false]

/-- Two null pointers compare equal, so an index that names nobody is followed. -/
theorem changeCyclePacket_harmless_iff :
    Harmless (ChangeCyclePacket.handle clientSocket none) x ↔ Guarded x.server x.buf 5 := by
  simp only [ChangeCyclePacket.handle, harmless_onBuf_bind, harmless_get_bind, Guarded,
    not_delivers_bind, not_delivers_pure]
  refine forall₃_congr fun index t ht => forall₃_congr fun type u hu => ?_
  refine forall₃_congr fun requestTime v hv => ?_
  by_cases hindex : x.server.clientManager.getUserByIndex index = none
  · rw [if_pos hindex]
    exact iff_of_false not_harmless_deref (not_not.mpr hindex)
  · rw [if_neg hindex]
    exact iff_of_true harmless_pure hindex

theorem pilotTitle_harmless_iff :
    Harmless (PilotTitle.handle clientSocket none) x ↔ Guarded x.server x.buf 7 := by
  simp only [PilotTitle.handle, readText, harmless_onBuf_bind, harmless_get_bind, Guarded,
    not_delivers_bind, not_delivers_pure]
  refine forall₃_congr fun index t ht => forall₃_congr fun title u hu => ?_
  cases x.server.clientManager.getUserByIndex index with
  | none => exact iff_of_false not_harmless_deref (by simp)
  | some user => simp [harmless_pure]

theorem messageRxPacket_harmless_iff :
    Harmless (MessageRxPacket.handle env clientSocket none) x ↔ Guarded x.server x.buf 6 := by
  simp only [MessageRxPacket.handle, readText, readFrequency, bind_map_left, harmless_onBuf_bind,
    harmless_get_bind, not_harmless_deref, Guarded, not_delivers_bind]
  simp only [not_delivers, not_true_eq_false]

theorem clientMode_harmless_iff :
    Harmless (ClientMode.handle env clientSocket none) x ↔ Guarded x.server x.buf 8 := by
  simp only [ClientMode.handle, harmless_onBuf_bind, not_harmless_deref, Guarded]
  simp only [not_delivers, not_true_eq_false]

theorem clientDisconnect_harmless_iff :
    Harmless (ClientDisconnect.handle clientSocket none) x ↔ Guarded x.server x.buf 9 := by
  simp only [ClientDisconnect.handle, harmless_onBuf_bind, not_harmless_deref, Guarded]
  simp only [not_delivers, not_true_eq_false]

theorem primeFreqPacket_harmless_iff :
    Harmless (PrimeFreqPacket.handle env clientSocket none) x ↔ Guarded x.server x.buf 13 := by
  simp only [PrimeFreqPacket.handle, readFrequency, bind_map_left, harmless_onBuf_bind,
    not_harmless_deref, Guarded, not_delivers_bind]
  simp only [not_delivers, not_true_eq_false]

theorem tempDataPacket_harmless_iff :
    Harmless (TempDataPacket.handle env clientSocket none) x ↔ Guarded x.server x.buf 14 := by
  simp only [TempDataPacket.handle, readText, harmless_onBuf_bind, not_harmless_deref, Guarded,
    not_delivers_bind]
  simp only [not_delivers, not_true_eq_false]

theorem privateMsgPacket_harmless_iff :
    Harmless (PrivateMsgPacket.handle clientSocket none) x ↔ Guarded x.server x.buf 12 := by
  simp only [PrivateMsgPacket.handle, readText, harmless_onBuf_bind, harmless_get_bind, Guarded,
    not_delivers_bind, not_delivers_pure]
  refine forall₃_congr fun callsign t ht => forall₃_congr fun message u hu => ?_
  cases x.server.clientManager.getUserByCallsign callsign with
  | none => simp [harmless_pure]
  | some user => exact iff_of_false not_harmless_deref (by simp)

theorem requestFlightPlan_harmless_iff :
    Harmless (RequestFlightPlan.handle clientSocket none) x ↔ Guarded x.server x.buf 11 := by
  simp only [RequestFlightPlan.handle, harmless_onBuf_bind, harmless_get_bind, Guarded,
    not_delivers_bind, not_delivers_pure]
  refine forall₃_congr fun index t ht => forall₃_congr fun cycle u hu => ?_
  cases x.server.clientManager.getUserByIndex index with
  | none => simp [harmless_pure]
  | some user =>
    cases ha : (x.server.heap user).asAircraft with
    | none => simp [getType_of_none ha, harmless_pure, ha]
    | some a =>
      dsimp only
      rw [if_pos (getType_of_asAircraft ha),
        harmless_onServer_bind (x := { x with buf := u }) (Server.getFlightPlan_run ha)]
      cases hplan : a.flightPlan with
      | none => simp [harmless_throw, ha, hplan]
      | some plan =>
        dsimp only
        by_cases hcycle : plan.cycle > cycle
        · rw [if_pos hcycle]
          refine iff_of_false not_harmless_deref (not_not.mpr ⟨user, rfl, a, plan, ha, hplan, ?_⟩)
          exact hcycle
        · rw [if_neg hcycle]
          simp_all [harmless_pure]

/-- The pilot a flight plan packet names is changed, unless the packet says nothing new. -/
theorem applyTo_harmless_iff {f : FlightPlanUpdate.Fields} :
    Harmless (onServer (FlightPlanUpdate.applyTo
        (x.server.clientManager.getUserByIndex f.index) f)) x ↔
      ¬ ∃ user ∈ x.server.clientManager.users,
        x.server.clientManager.getUserByIndex f.index = some user ∧ ∃ a plan,
          (x.server.heap user).asAircraft = some a ∧ a.flightPlan = some plan ∧
            (f.store plan ≠ plan ∨ (x.server.heap user).updateOnlyQueues 0 = false) := by
  cases x.server.clientManager.getUserByIndex f.index with
  | none => exact iff_of_true ((harmless_onServer rfl).mpr ⟨rfl, fun _ _ => rfl⟩) (by simp)
  | some user =>
    cases ha : (x.server.heap user).asAircraft with
    | none =>
      refine iff_of_true ?_ (by simp [ha])
      exact (harmless_onServer (FlightPlanUpdate.apply_controller ha)).mpr ⟨rfl, fun _ _ => rfl⟩
    | some a =>
      cases hplan : a.flightPlan with
      | none =>
        refine iff_of_true ?_ (by simp [ha, hplan])
        exact harmless_onServer_error (FlightPlanUpdate.apply_noPlan ha hplan) (by simp)
      | some plan =>
        have hself := FlightPlanUpdate.updated_eq_self_iff (f := f) ha hplan
        have hheap : (∀ u ∈ x.server.clientManager.users,
            (x.server.modifyUser user (FlightPlanUpdate.updated f plan)).heap u =
              x.server.heap u) ↔ (user ∈ x.server.clientManager.users →
                FlightPlanUpdate.updated f plan (x.server.heap user) = x.server.heap user) := by
          constructor
          · intro h huser
            simpa using h user huser
          · intro h u hu
            by_cases heq : u = user
            · subst heq
              simpa using h hu
            · exact Server.modifyUser_heap_ne _ _ _ _ heq
        refine (harmless_onServer (FlightPlanUpdate.apply_plan ha hplan)).trans ?_
        rw [hheap, hself]
        simp only [Server.modifyUser_clientManager, true_and]
        constructor
        · rintro h ⟨user', huser, heq, a', plan', ha', hplan', hnew⟩
          obtain rfl := Option.some.inj heq
          obtain rfl := Option.some.inj (ha.symm.trans ha')
          obtain rfl := Option.some.inj (hplan.symm.trans hplan')
          obtain ⟨hstored, hflag⟩ := h huser
          rcases hnew with hnew | hnew
          · exact hnew hstored
          · rw [hflag] at hnew
            cases hnew
        · intro h huser
          by_contra hnew
          refine h ⟨user, huser, rfl, a, plan, ha, hplan, ?_⟩
          rwa [not_and_or, Bool.not_eq_true] at hnew

theorem flightPlanUpdate_harmless_iff :
    Harmless (FlightPlanUpdate.handle clientSocket none) x ↔ Guarded x.server x.buf 10 := by
  simp only [FlightPlanUpdate.handle, readText, harmless_onBuf_bind, harmless_get_bind, Guarded,
    FlightPlanUpdate.readFields, not_delivers_bind, not_delivers_pure]
  refine forall₃_congr fun cycle _ _ => forall₃_congr fun index _ _ => ?_
  refine forall₃_congr fun rules _ _ => forall₃_congr fun squawkCode _ _ => ?_
  refine forall₃_congr fun departure _ _ => forall₃_congr fun arrival _ _ => ?_
  refine forall₃_congr fun alternate _ _ => forall₃_congr fun cruise _ _ => ?_
  refine forall₃_congr fun acType _ _ => forall₃_congr fun scratchPad _ _ => ?_
  refine forall₃_congr fun route _ _ => forall₃_congr fun remarks t _ => ?_
  refine Iff.trans ?_ (applyTo_harmless_iff (x := { x with buf := t })
    (f := ⟨cycle, index, squawkCode, departure, arrival, alternate, cruise, acType, scratchPad,
      route, remarks⟩))
  dsimp only
  cases x.server.clientManager.getUserByIndex index with
  | none => exact iff_of_true harmless_pure ((harmless_onServer rfl).mpr ⟨rfl, fun _ _ => rfl⟩)
  | some user => exact Iff.rfl

theorem pongPacket_harmless_iff :
    Harmless (pongPacket.handle clientSocket none) x ↔ Guarded x.server x.buf 4 :=
  iff_of_true harmless_pure trivial

theorem handle_harmless_iff {packet : Packet} {id : ℕ}
    (hpacket : (registerPackets env).getPacket id = some packet) (hother : id ≠ 45) :
    Harmless (packet.handle clientSocket none) x ↔ Guarded x.server x.buf id := by
  revert hother
  apply getPacket_byte_cases hpacket
  case handshake => exact fun hother => absurd rfl hother
  case pong => exact fun _ => pongPacket_harmless_iff clientSocket
  case pilotUpdate => exact fun _ => pilotUpdate_harmless_iff env clientSocket
  case controllerUpdate => exact fun _ => controllerUpdate_harmless_iff env clientSocket
  case transponder => exact fun _ => transponderPacket_harmless_iff env clientSocket
  case changeCycle => exact fun _ => changeCyclePacket_harmless_iff clientSocket
  case message => exact fun _ => messageRxPacket_harmless_iff env clientSocket
  case pilotTitle => exact fun _ => pilotTitle_harmless_iff clientSocket
  case clientMode => exact fun _ => clientMode_harmless_iff env clientSocket
  case clientDisconnect => exact fun _ => clientDisconnect_harmless_iff clientSocket
  case flightPlanUpdate => exact fun _ => flightPlanUpdate_harmless_iff clientSocket
  case requestFlightPlan => exact fun _ => requestFlightPlan_harmless_iff clientSocket
  case privateMsg => exact fun _ => privateMsgPacket_harmless_iff clientSocket
  case primeFreq => exact fun _ => primeFreqPacket_harmless_iff env clientSocket
  case tempData => exact fun _ => tempDataPacket_harmless_iff env clientSocket

variable {env clientSocket}

theorem harmless_before_login_iff {packet : Packet} {id : ℕ}
    (hpacket : (registerPackets env).getPacket id = some packet) (hother : id ≠ 45)
    (hnull : x.server.clientManager.getUserBySocket clientSocket = none) (size : ℤ) :
    Harmless (processPacket (registerPackets env) clientSocket id size) x ↔
      Guarded x.server x.buf id := by
  have hrun : (processPacket (registerPackets env) clientSocket id size).run x =
      (packet.handle clientSocket none).run
        { x with dispatched := x.dispatched ++ [(id, x.buf.unread.take size.toNat)] } := by
    simp only [processPacket, EStateM.run_bind, EStateM.run_get, EStateM.run_set, hpacket, hnull]
  have hhandle := handle_harmless_iff env clientSocket hpacket hother
    (x := { x with dispatched := x.dispatched ++ [(id, x.buf.unread.take size.toNat)] })
  rw [← hhandle]
  constructor
  · exact fun h => ⟨hrun ▸ h.notNull, hrun ▸ h.manager, hrun ▸ h.users⟩
  · exact fun h => ⟨hrun ▸ h.notNull, hrun ▸ h.manager, hrun ▸ h.users⟩

end Handlers

/-- A fresh server, and a connection with these bytes of one packet. -/
def stranger (block : List UInt8) : Session :=
  ⟨Server.initial fun _ => .zeroed, .preallocated block, []⟩

/-- A flight plan request for an index that nobody has. -/
theorem harmless_request_before_login :
    Harmless (processPacket (registerPackets (.orderly fun _ _ => none)) 1 11 4)
      (stranger [0, 7, 0, 0]) := by
  refine (harmless_before_login_iff (show _ = some requestFlightPlan from rfl) (by decide) rfl
    4).mpr ?_
  rintro ⟨f, t, -, user, huser, -⟩
  cases huser

/-- A client mode packet is enough. -/
theorem clientMode_before_login : ¬ ∀ (env : Environment) (clientSocket : Socket) (x : Session)
    (id : ℕ) (size : ℤ), id ≠ 45 → ((registerPackets env).getPacket id).isSome = true →
      x.server.clientManager.getUserBySocket clientSocket = none →
        Harmless (processPacket (registerPackets env) clientSocket id size) x := by
  intro h
  have hmode := h (.orderly fun _ _ => none) 1 (stranger [16, 0, 0]) 8 3 (by decide) rfl rfl
  exact hmode.notNull _ rfl

end Win64Server.BeforeLogin
