import Win64Server.HandshakeOutcomes
import Win64Server.KnownReads

/-!
The handlers in two servers. A handler reads the same bytes in both; the two position packets and
the flight plan packet write members that may not have been written before, and only the request
for a flight plan reads one. A login creates twins.
-/
namespace Win64Server.Unwritten

open Outcome BasicStream Server FlightPlanUpdate FlightPlanVersions

/-- Two handlers at work on two such servers, with the same bytes to read. -/
structure Sessions (c : Comparison) (x y : Session) : Prop where
  server : Parallel c x.server y.server
  buf : y.buf = x.buf
  dispatched : y.dispatched = x.dispatched

section Lifting

variable {c : Comparison} {α : Type} {x y : Session}

theorem coupled_onBuf (op : StreamM α) : Coupled (Sessions c) (onBuf op) (onBuf op) := by
  intro x y h
  rw [run_onBuf, run_onBuf, h.buf]
  cases op.run x.buf with
  | ok a buf => exact .ok a ⟨h.server, rfl, h.dispatched⟩
  | error e buf => exact .error e ⟨h.server, rfl, h.dispatched⟩

theorem matched_onServer {E Q : Comparison} {op op' : ServerM α}
    (hbuf : y.buf = x.buf) (hdispatched : y.dispatched = x.dispatched)
    (hop : Matched (Parallel E) (Parallel Q) (op.run x.server) (op'.run y.server)) :
    Matched (Sessions E) (Sessions Q) ((onServer op).run x) ((onServer op').run y) := by
  rw [run_onServer, run_onServer]
  cases hrun : op.run x.server with
  | ok a s =>
    rw [hrun] at hop
    generalize op'.run y.server = r at hop
    cases hop with
    | ok _ h => exact .ok a ⟨h, hbuf, hdispatched⟩
  | error e s =>
    rw [hrun] at hop
    generalize op'.run y.server = r at hop
    cases hop with
    | error _ h => exact .error e ⟨h, hbuf, hdispatched⟩

theorem coupled_onServer {op op' : ServerM α} (hop : Coupled (Parallel c) op op') :
    Coupled (Sessions c) (onServer op) (onServer op') :=
  fun _ _ h => matched_onServer h.buf h.dispatched (hop _ _ h.server)

theorem coupled_readText : Coupled (Sessions c) readText readText := coupled_onBuf _

theorem coupled_readDouble : Coupled (Sessions c) readDouble readDouble := (coupled_onBuf _).map

theorem coupled_readFrequency : Coupled (Sessions c) readFrequency readFrequency :=
  (coupled_onBuf _).map

/-- The user of the connection, if there is one, has been allocated. -/
def Allocated (n : Ptr) (user : Option Ptr) : Prop := ∀ u, user = some u → u < n

theorem matched_deref_bind {Q : Comparison} {user : Option Ptr} (h : Sessions c x y)
    (huser : Allocated c.next user) {f g : Ptr → HandlerM α}
    (hf : ∀ u, user = some u → u < c.next →
      Matched (Sessions c) (Sessions Q) ((f u).run x) ((g u).run y)) :
    Matched (Sessions c) (Sessions Q) ((deref user >>= f).run x) ((deref user >>= g).run y) := by
  cases user with
  | none => exact .error _ h
  | some u => exact hf u rfl (huser u rfl)

theorem coupled_deref_bind {user : Option Ptr} (huser : Allocated c.next user)
    {f g : Ptr → HandlerM α} (hf : ∀ u, u < c.next → Coupled (Sessions c) (f u) (g u)) :
    Coupled (Sessions c) (deref user >>= f) (deref user >>= g) :=
  fun x y h => matched_deref_bind h huser fun u _ hu => hf u hu x y h

/-- What follows sees the same registry. -/
theorem coupled_get_bind {f g : Session → HandlerM α}
    (hf : ∀ x y : Session, Sessions c x y → Matched (Sessions c) (Sessions c) ((f x).run x)
      ((g y).run y)) :
    Coupled (Sessions c) (get >>= f) (get >>= g) :=
  .get_bind hf

end Lifting

section Handlers

variable {c : Comparison} (env : Environment) (clientSocket : Socket) {user : Option Ptr}

theorem hide_modifyAircraft (w : User) {f g : Aircraft → Aircraft}
    (hhide : ∀ a, hideAircraft (f a) = g (hideAircraft a)) :
    hide (w.modifyAircraft f) = (hide w).modifyAircraft g := by
  have hderived : (hide w).derived = hideDerived w.derived := rfl
  cases hw : w.derived with
  | controller x =>
    rw [hw] at hderived
    rw [modifyAircraft_controller hw, modifyAircraft_controller hderived]
  | aircraft a =>
    rw [hw] at hderived
    rw [modifyAircraft_aircraft hw, modifyAircraft_aircraft hderived, ← hhide]
    rfl

/-- A change to an aircraft that touches neither its state nor its plan. -/
theorem coupled_modifyAircraft (u : Ptr) {f : Aircraft → Aircraft}
    (hhide : ∀ a, hideAircraft (f a) = f (hideAircraft a)) (hstate : ∀ a, (f a).state = a.state)
    (hplan : ∀ a, (f a).flightPlan = a.flightPlan) :
    Coupled (Parallel c) (updateUser u fun r => r.modifyAircraft f)
      (updateUser u fun r => r.modifyAircraft f) := by
  refine coupled_updateUser (fun w => hide_modifyAircraft w hhide) (fun w => ?_) fun w =>
    modifyAircraft_localUsers w f
  cases hw : w.derived with
  | controller x => rw [modifyAircraft_controller hw]
  | aircraft a =>
    rw [modifyAircraft_aircraft hw]
    simp only [contents, User.asAircraft, hw, Option.map_some, Option.bind_some, hstate, hplan]

theorem coupled_transponder (huser : Allocated c.next user) :
    Coupled (Sessions c) (TransponderPacket.handle env clientSocket user)
      (TransponderPacket.handle env clientSocket user) := by
  refine .bind coupled_readText fun code => coupled_deref_bind huser fun u hu => ?_
  refine coupled_onServer (coupled_getUser_bind hu fun r r' htwins _ => ?_)
  rw [htwins.getType]
  refine .ite (.bind ?_ fun _ => ?_) (.pure ())
  · exact coupled_modifyAircraft u (fun _ => rfl) (fun _ => rfl) fun _ => rfl
  · refine coupled_getAircraft_bind hu fun a b hab => ?_
    refine coupled_iterateLocalUsers env hu fun other hother => ?_
    refine coupled_getUser_bind hother fun o o' hotwins _ => ?_
    rw [hotwins.getType]
    exact .ite (coupled_sendClientTransponder other hu hab.hidden) (.pure ())

theorem coupled_message (huser : Allocated c.next user) :
    Coupled (Sessions c) (MessageRxPacket.handle env clientSocket user)
      (MessageRxPacket.handle env clientSocket user) := by
  refine .bind coupled_readText fun callsign => .bind coupled_readFrequency fun frequency => ?_
  refine .bind coupled_readText fun message => coupled_get_bind fun x y h => ?_
  rw [h.server.clientManager]
  refine coupled_deref_bind huser (fun u hu => coupled_onServer ?_) x y h
  refine coupled_iterateLocalUsers env hu fun other hother => ?_
  refine coupled_getUser_bind hother fun o o' hotwins _ => ?_
  rw [hotwins.congr User.frequencies fun _ => rfl]
  refine .ite ?_ (.pure ())
  cases hasel : x.server.clientManager.getUserByCallsign callsign with
  | none => exact coupled_sendMessage other hu frequency message false
  | some a =>
    have ha : a < c.next := h.server.registered.usersByCallsign callsign a hasel
    refine coupled_getUser_bind ha fun r r' htwins _ => ?_
    rw [hotwins.congr (fun w => w.identity.callsign) fun _ => rfl,
      htwins.congr (fun w => w.identity.callsign) fun _ => rfl]
    exact coupled_sendMessage other hu frequency message _

theorem coupled_pilotTitle (huser : Allocated c.next user) :
    Coupled (Sessions c) (PilotTitle.handle clientSocket user)
      (PilotTitle.handle clientSocket user) := by
  refine .bind (coupled_onBuf _) fun index => coupled_get_bind fun x y h => ?_
  rw [h.server.clientManager]
  refine Coupled.bind coupled_readText (fun title => ?_) x y h
  split
  next heq =>
    rw [heq]
    refine coupled_deref_bind huser fun u hu => coupled_onServer ?_
    exact coupled_modifyAircraft u (fun _ => rfl) (fun _ => rfl) fun _ => rfl
  next => exact .pure ()

theorem coupled_clientMode (huser : Allocated c.next user) :
    Coupled (Sessions c) (ClientMode.handle env clientSocket user)
      (ClientMode.handle env clientSocket user) := by
  refine .bind (coupled_onBuf _) fun i => coupled_deref_bind huser fun u hu => ?_
  refine coupled_onServer (coupled_getUser_bind hu fun r r' htwins _ => ?_)
  rw [htwins.getType]
  refine .ite (.bind ?_ fun _ => ?_) (.pure ())
  · exact coupled_modifyAircraft u (fun _ => rfl) (fun _ => rfl) fun _ => rfl
  · refine coupled_getAircraft_bind hu fun a b hab => ?_
    refine coupled_iterateLocalUsers env hu fun other _ => ?_
    exact coupled_sendClientModeChange other hu hab.hidden

theorem coupled_privateMessage (huser : Allocated c.next user) :
    Coupled (Sessions c) (PrivateMsgPacket.handle clientSocket user)
      (PrivateMsgPacket.handle clientSocket user) := by
  refine .bind coupled_readText fun callsign => coupled_get_bind fun x y h => ?_
  rw [h.server.clientManager]
  refine Coupled.bind coupled_readText (fun message => ?_) x y h
  cases x.server.clientManager.getUserByCallsign callsign with
  | none => exact .pure ()
  | some u1 =>
    refine .ite (coupled_deref_bind huser fun u hu => coupled_onServer ?_) (.pure ())
    refine coupled_getUser_bind hu fun r r' htwins _ => ?_
    rw [htwins.congr (fun w => w.identity.callsign) fun _ => rfl]
    exact coupled_send (.refl _)

theorem coupled_primeFreq (huser : Allocated c.next user) :
    Coupled (Sessions c) (PrimeFreqPacket.handle env clientSocket user)
      (PrimeFreqPacket.handle env clientSocket user) := by
  refine .bind (coupled_onBuf _) fun flags => .bind coupled_readFrequency fun first => ?_
  refine coupled_deref_bind huser fun u hu => .bind (coupled_onServer ?_) fun _ => ?_
  · exact coupled_updateUser (fun _ => rfl) (fun _ => rfl) fun _ => rfl
  · refine .bind coupled_readFrequency fun second => coupled_onServer (.bind ?_ fun _ => ?_)
    · exact coupled_updateUser (fun _ => rfl) (fun _ => rfl) fun _ => rfl
    · refine coupled_iterateLocalUsers env hu fun other hother => ?_
      refine coupled_getUser_bind hother fun o o' htwins _ => ?_
      rw [htwins.getType]
      exact .ite (coupled_sendPrimFreq other hu) (.pure ())

theorem coupled_tempData (huser : Allocated c.next user) :
    Coupled (Sessions c) (TempDataPacket.handle env clientSocket user)
      (TempDataPacket.handle env clientSocket user) := by
  refine .bind coupled_readText fun assembly => .bind (coupled_onBuf _) fun slots => ?_
  refine .bind (coupled_onBuf _) fun first => coupled_deref_bind huser fun u hu => ?_
  exact coupled_onServer (coupled_registerScript env hu _)

theorem coupled_closesocket :
    Coupled (Parallel c) (closesocket clientSocket) (closesocket clientSocket) := by
  refine .modify fun s t h => ?_
  exact { h with rest := congrArg (fun r : Server =>
    { r with closedSockets := r.closedSockets ++ [clientSocket] }) h.rest }

theorem coupled_clientDisconnect (huser : Allocated c.next user) :
    Coupled (Sessions c) (ClientDisconnect.handle clientSocket user)
      (ClientDisconnect.handle clientSocket user) := by
  refine .bind (coupled_onBuf _) fun flag => coupled_deref_bind huser fun u _ => ?_
  exact coupled_onServer (coupled_closesocket clientSocket)

theorem coupled_changeCycle (huser : Allocated c.next user) :
    Coupled (Sessions c) (ChangeCyclePacket.handle clientSocket user)
      (ChangeCyclePacket.handle clientSocket user) := by
  refine .bind (coupled_onBuf _) fun index => coupled_get_bind fun x y h => ?_
  rw [h.server.clientManager]
  refine Coupled.bind (coupled_onBuf _) (fun type => ?_) x y h
  refine .bind (coupled_onBuf _) fun requestTime => .ite ?_ (.pure ())
  refine coupled_deref_bind huser fun u hu => coupled_onServer ?_
  refine coupled_getUser_bind hu fun r r' htwins hlocals => ?_
  by_cases htype : type < typeIntervals
  · have hset (w : User) : w.setRequestedInterval type requestTime = some { w with
        requestTime := Function.update w.requestTime ⟨type, htype⟩ requestTime } := dif_pos htype
    rw [hset r, hset r']
    refine .modify fun s t h => h.modifyUser (fun _ => ?_) fun v hv => Or.inr (hlocals v hv)
    exact htwins.map (f := fun w => { w with
      requestTime := Function.update w.requestTime ⟨type, htype⟩ requestTime })
      (fun _ => rfl) fun _ => rfl
  · have hset (w : User) : w.setRequestedInterval type requestTime = none := dif_neg htype
    rw [hset r, hset r']
    exact .throw _

/-- What is known once some members of a user have been written. -/
def written (known : Known) (user : Option Ptr) (members : List Member) : Known := fun p m =>
  known p m || (decide (user = some p) && decide (m ∈ members))

theorem Twins.setState {known : Member → Bool} {u v : User} (h : Twins known u v) (state : State) :
    Twins (fun m => known m || decide (m ∈ [Member.groundSpeed, .altitude]))
      (u.modifyAircraft fun a => { a with state := state })
      (v.modifyAircraft fun a => { a with state := state }) where
  hidden := by
    have hhide (w : User) := hide_modifyAircraft w
      (f := fun a => { a with state := state })
      (g := fun a => { a with state := { state with groundSpeed := 0, altitude := ⟨0⟩ } })
      fun _ => rfl
    rw [hhide, hhide, h.hidden]
  same m hm := by
    rcases h.derived with ⟨x, y, hu, hv⟩ | ⟨a, b, hu, hv, hab⟩
    · rw [modifyAircraft_controller hu, modifyAircraft_controller hv]
      cases m with
      | groundSpeed => simp [Contents.Same, contents, User.asAircraft, hu, hv]
      | altitude => simp [Contents.Same, contents, User.asAircraft, hu, hv]
      | updateRequired => exact h.same _ (by simpa using hm)
      | lastPositionUpdate => exact h.same _ (by simpa using hm)
      | flightRules => exact h.same _ (by simpa using hm)
      | cycle => exact h.same _ (by simpa using hm)
    · rw [modifyAircraft_aircraft hu, modifyAircraft_aircraft hv]
      cases m with
      | groundSpeed => rfl
      | altitude => rfl
      | updateRequired => exact h.same .updateRequired (by simpa using hm)
      | lastPositionUpdate => exact h.same .lastPositionUpdate (by simpa using hm)
      | flightRules => exact hab.flightRules (by simpa using hm)
      | cycle => exact hab.cycle (by simpa using hm)

theorem Twins.setStamp {known : Member → Bool} {u v : User} (h : Twins known u v) (now : ℤ) :
    Twins (fun m => known m || decide (m ∈ [Member.lastPositionUpdate]))
      { u with lastPositionUpdate := now } { v with lastPositionUpdate := now } where
  hidden := by
    have hhide (w : User) : hide { w with lastPositionUpdate := now } = hide w := rfl
    rw [hhide, hhide, h.hidden]
  same m hm := by
    cases m with
    | lastPositionUpdate => rfl
    | updateRequired => exact h.same _ (by simpa using hm)
    | groundSpeed => exact h.same _ (by simpa using hm)
    | altitude => exact h.same _ (by simpa using hm)
    | flightRules => exact h.same _ (by simpa using hm)
    | cycle => exact h.same _ (by simpa using hm)

theorem updated_aircraft {w : User} {a : Aircraft} (hw : w.derived = .aircraft a) (f : Fields)
    (plan : FlightPlan) : updated f plan w = { w with
      derived := .aircraft { a with flightPlan := some (f.store plan) }
      updateOnlyQueues := Function.update w.updateOnlyQueues 0 true } := by
  rw [updated, modifyAircraft_aircraft hw]

/-- The plans keep their flight rules, which may differ. -/
theorem Twins.updated {known : Member → Bool} {u v : User} (h : Twins known u v) {a b : Aircraft}
    (hu : u.derived = .aircraft a) (hv : v.derived = .aircraft b) (hab : TwinAircraft known a b)
    {plan plan' : FlightPlan} (hplan : a.flightPlan = some plan)
    (hplan' : b.flightPlan = some plan') (f : Fields) :
    Twins (fun m => known m || decide (m ∈ [Member.cycle])) (updated f plan u)
      (updated f plan' v) where
  hidden := by
    let stored (w : User) (c : Aircraft) : User := { w with
      derived := .aircraft { c with flightPlan := some (hidePlan (f.store plan)) }
      updateOnlyQueues := Function.update w.updateOnlyQueues 0 true }
    have hstored : stored (hide u) (hideAircraft a) = stored (hide v) (hideAircraft b) := by
      rw [h.hidden, hab.hidden]
    rw [updated_aircraft hu, updated_aircraft hv]
    exact hstored
  same m hm := by
    rw [updated_aircraft hu, updated_aircraft hv]
    cases m with
    | cycle => rfl
    | flightRules =>
      have hrules := hab.flightRules (by simpa using hm)
      rw [hplan, hplan'] at hrules
      exact hrules
    | groundSpeed => exact hab.groundSpeed (by simpa using hm)
    | altitude => exact hab.altitude (by simpa using hm)
    | updateRequired => exact h.same .updateRequired (by simpa using hm)
    | lastPositionUpdate => exact h.same .lastPositionUpdate (by simpa using hm)

theorem written_some (known : Known) (u : Ptr) (members : List Member) :
    written known (some u) members =
      Function.update known u fun m => known u m || decide (m ∈ members) := by
  funext p m
  by_cases hp : p = u
  · subst hp
    simp [written]
  · rw [Function.update_of_ne hp]
    simp [written, Ne.symm hp]

/-- The end of both position packets. -/
theorem matched_setStamp {s t : Server} {u : Ptr} (h : Parallel c s t) :
    Matched (Parallel c) (Parallel { c with
        known := Unwritten.written c.known (some u) [.lastPositionUpdate] })
      ((do
        let now ← readClock env
        updateUser u fun r => { r with lastPositionUpdate := now } : ServerM Unit).run s)
      ((do
        let now ← readClock env
        updateUser u fun r => { r with lastPositionUpdate := now } : ServerM Unit).run t) := by
  rw [run_bind_of_ok (readClock_run s env), run_bind_of_ok (readClock_run t env), h.ticks]
  refine .ok () ?_
  rw [written_some]
  exact (h.setTicks (s.ticks + 1)).modifyUser_known
    (f := fun r => { r with lastPositionUpdate := env.clock s.ticks })
    (g := fun r => { r with lastPositionUpdate := env.clock s.ticks })
    (fun htwins => htwins.setStamp (env.clock s.ticks)) fun v hv => Or.inl hv

theorem matched_controllerUpdate {x y : Session} (h : Sessions c x y)
    (huser : Allocated c.next user) :
    Matched (Sessions c) (Sessions { c with
        known := written c.known user [.lastPositionUpdate] })
      ((ControllerUpdate.handle env clientSocket user).run x)
      ((ControllerUpdate.handle env clientSocket user).run y) := by
  refine (coupled_readDouble x y h).bind fun latitude x₁ y₁ _ h₁ => ?_
  refine (coupled_readDouble x₁ y₁ h₁).bind fun longitude x₂ y₂ _ h₂ => ?_
  refine matched_deref_bind h₂ huser fun u hu _ => ?_
  refine matched_onServer h₂.buf h₂.dispatched ?_
  rw [hu]
  exact (coupled_updateUser (f := fun r => { r with location := ⟨latitude, longitude⟩ })
    (fun _ => rfl) (fun _ => rfl) (fun _ => rfl) _ _ h₂.server).bind
    fun _ s t _ hst => matched_setStamp env hst

/-- The end of the packet of a pilot. -/
theorem matched_setState {s t : Server} {u : Ptr} (h : Parallel c s t) (state : State) :
    Matched (Parallel c) (Parallel { c with
        known := written c.known (some u) [.lastPositionUpdate, .groundSpeed, .altitude] })
      ((do
        updateUser u fun r => r.modifyAircraft fun a => { a with state := state }
        let now ← readClock env
        updateUser u fun r => { r with lastPositionUpdate := now } : ServerM Unit).run s)
      ((do
        updateUser u fun r => r.modifyAircraft fun a => { a with state := state }
        let now ← readClock env
        updateUser u fun r => { r with lastPositionUpdate := now } : ServerM Unit).run t) := by
  have hset := h.modifyUser_known (p := u)
    (f := fun r => r.modifyAircraft fun a => { a with state := state })
    (g := fun r => r.modifyAircraft fun a => { a with state := state })
    (fun htwins => htwins.setState state) fun v hv => by
      rw [modifyAircraft_localUsers] at hv
      exact Or.inl hv
  rw [← written_some] at hset
  rw [run_bind_of_ok (updateUser_run ..), run_bind_of_ok (updateUser_run ..)]
  refine (matched_setStamp (u := u) env hset).mono (fun s t hst => ?_) fun s t hst => ?_
  · exact hst.mono fun q _ m hm => by simp [written, hm]
  · refine hst.mono fun q _ m hm => ?_
    simp only [written, Bool.or_eq_true, Bool.and_eq_true, decide_eq_true_eq, List.mem_cons,
      List.not_mem_nil, or_false] at hm ⊢
    tauto

theorem matched_pilotUpdate {x y : Session} (h : Sessions c x y) (huser : Allocated c.next user) :
    Matched (Sessions c) (Sessions { c with
        known := written c.known user [.lastPositionUpdate, .groundSpeed, .altitude] })
      ((PilotUpdate.handle env clientSocket user).run x)
      ((PilotUpdate.handle env clientSocket user).run y) := by
  refine (coupled_readDouble x y h).bind fun latitude x₁ y₁ _ h₁ => ?_
  refine (coupled_readDouble x₁ y₁ h₁).bind fun longitude x₂ y₂ _ h₂ => ?_
  refine matched_deref_bind h₂ huser fun u hu _ => ?_
  have hlocation : Coupled (Parallel c)
      (updateUser u fun r => { r with location := ⟨latitude, longitude⟩ })
      (updateUser u fun r => { r with location := ⟨latitude, longitude⟩ }) :=
    coupled_updateUser (fun _ => rfl) (fun _ => rfl) fun _ => rfl
  refine (coupled_onServer hlocation x₂ y₂ h₂).bind fun _ x₃ y₃ _ h₃ => ?_
  refine (coupled_onBuf _ x₃ y₃ h₃).bind fun hash x₄ y₄ _ h₄ => ?_
  refine (coupled_onBuf _ x₄ y₄ h₄).bind fun groundSpeed x₅ y₅ _ h₅ => ?_
  refine (coupled_readDouble x₅ y₅ h₅).bind fun altitude x₆ y₆ _ h₆ => ?_
  refine matched_onServer h₆.buf h₆.dispatched ?_
  rw [hu]
  exact matched_setState env h₆.server _

end Handlers

section Plans

variable {c : Comparison} (clientSocket : Socket) {user : Option Ptr} {s t : Server} {x y : Session}

/-- Members that are the same have become known. -/
theorem Parallel.learn (h : Parallel c s t) {p : Ptr} {members : List Member}
    (hsame : ∀ m ∈ members, (contents (s.heap p)).Same (contents (t.heap p)) m) :
    Parallel { c with known := written c.known (some p) members } s t :=
  { h with users := fun q hq => ⟨(h.users q hq).hidden, fun m hm => by
      simp only [written, Bool.or_eq_true, Bool.and_eq_true, decide_eq_true_eq,
        Option.some.injEq] at hm
      rcases hm with hm | ⟨rfl, hm⟩
      · exact (h.users q hq).same m hm
      · exact hsame m hm⟩ }

/-- The fields are stored in both servers; the cycle is one of them. -/
theorem matched_apply (h : Parallel c s t) {u : Ptr} (hu : u < c.next) (f : Fields) :
    Matched (Parallel c) (Parallel { c with known := written c.known (some u) [.cycle] })
      ((apply u f).run s) ((apply u f).run t) := by
  have htwins := h.users u hu
  rcases htwins.derived with ⟨x, y, hx, hy⟩ | ⟨a, b, ha, hb, hab⟩
  · have hx := asAircraft_of_controller hx
    have hy := asAircraft_of_controller hy
    rw [apply_controller hx, apply_controller hy]
    refine .ok () (h.learn fun m hm => ?_)
    rw [List.mem_singleton.mp hm]
    simp only [Contents.Same, contents, hx, hy]
  · have hsome := asAircraft_of_derived ha
    have hsome' := asAircraft_of_derived hb
    cases hplan : a.flightPlan with
    | none =>
      rw [apply_noPlan hsome hplan, apply_noPlan hsome' (hab.flightPlan_none hplan)]
      exact .error _ h
    | some plan =>
      obtain ⟨plan', hplan', -⟩ := hab.flightPlan_some hplan
      rw [apply_plan hsome hplan, apply_plan hsome' hplan', written_some]
      refine .ok () (h.modifyUser_known
        (fun htwins => htwins.updated ha hb hab hplan hplan' f) fun v hv => ?_)
      rw [updated_aircraft ha] at hv
      exact Or.inl hv

/-- The pilot whose plan a packet updates. -/
def updatedPilot (s : Server) (buf : BasicStream) : Option Ptr :=
  match readFields.run buf with
  | .ok f _ => s.clientManager.getUserByIndex f.index
  | .error _ _ => none

theorem coupled_flightPlan :
    Coupled (Sessions c) (FlightPlanUpdate.handle clientSocket user)
      (FlightPlanUpdate.handle clientSocket user) := by
  refine .bind (coupled_onBuf _) fun curCycle => .bind (coupled_onBuf _) fun index => ?_
  refine coupled_get_bind fun x y h => ?_
  rw [h.server.clientManager]
  refine Coupled.bind (coupled_onBuf _) (fun flightRules => ?_) x y h
  refine .bind coupled_readText fun squawk => .bind coupled_readText fun departure => ?_
  refine .bind coupled_readText fun arrival => .bind coupled_readText fun alternate => ?_
  refine .bind coupled_readText fun cruise => .bind coupled_readText fun acType => ?_
  refine .bind coupled_readText fun scratch => .bind coupled_readText fun route => ?_
  refine .bind coupled_readText fun remarks => ?_
  cases huser : x.server.clientManager.getUserByIndex index with
  | none => exact .pure ()
  | some u =>
    have hu : u < c.next := h.server.registered.usersByIndex index u huser
    refine coupled_onServer fun s t hst => ?_
    refine (matched_apply hst hu ⟨curCycle, index, squawk, departure, arrival, alternate, cruise,
      acType, scratch, route, remarks⟩).mono (fun _ _ => id) fun s t hst => ?_
    exact hst.mono fun q _ m hm => by simp [written, hm]

variable (user) in
theorem matched_flightPlan (h : Sessions c x y) :
    Matched (Sessions c) (Sessions { c with
        known := written c.known (updatedPilot x.server x.buf) [.cycle] })
      ((FlightPlanUpdate.handle clientSocket user).run x)
      ((FlightPlanUpdate.handle clientSocket user).run y) := by
  have hwritten : written c.known none [.cycle] = c.known := by
    funext q m
    simp [written]
  cases hread : readFields.run x.buf with
  | error e buf =>
    rw [updatedPilot, hread, hwritten]
    exact coupled_flightPlan clientSocket x y h
  | ok f buf =>
    rw [updatedPilot, hread, handle_run clientSocket user hread,
      handle_run clientSocket user (by rw [h.buf]; exact hread), h.server.clientManager]
    refine matched_onServer rfl h.dispatched ?_
    dsimp only
    cases huser : x.server.clientManager.getUserByIndex f.index with
    | none =>
      rw [hwritten]
      exact .ok () h.server
    | some u => exact matched_apply h.server (h.server.registered.usersByIndex _ u huser) f

/-- The index and the cycle in a request. -/
def requested (buf : BasicStream) : Option (ℕ × ℕ) :=
  match readRequest.run buf with
  | .ok request _ => some request
  | .error _ _ => none

/-- What a request reads of the plan it asks for. -/
def RequestKnown (known : Known) (s : Server) (buf : BasicStream) : Prop :=
  ∀ request ∈ requested buf, ∀ p ∈ s.clientManager.getUserByIndex request.1,
    PlanKnown known (fun cycle => cycle > request.2) s p

instance (known : Known) (s : Server) (buf : BasicStream) : Decidable (RequestKnown known s buf) :=
  inferInstanceAs (Decidable (∀ request ∈ requested buf, ∀ _ ∈ _, _))

theorem matched_requestFlightPlan (h : Sessions c x y) (huser : Allocated c.next user)
    (hknown : RequestKnown c.known x.server x.buf) :
    Matched (Sessions c) (Sessions c) ((RequestFlightPlan.handle clientSocket user).run x)
      ((RequestFlightPlan.handle clientSocket user).run y) := by
  refine (coupled_onBuf _ x y h).bind fun index x₁ y₁ hrun₁ h₁ => ?_
  refine (coupled_onBuf _ x₁ y₁ h₁).bind fun curCycle x₂ y₂ hrun₂ h₂ => ?_
  obtain ⟨buf₁, hread₁, rfl⟩ := onBuf_ok.mp hrun₁
  obtain ⟨buf₂, hread₂, rfl⟩ := onBuf_ok.mp hrun₂
  have hrequest : requested x.buf = some (index, curCycle) := by
    have hread : readRequest.run x.buf = .ok (index, curCycle) buf₂ :=
      run_bind_ok.mpr ⟨index, buf₁, hread₁, run_bind_ok.mpr ⟨curCycle, buf₂, hread₂, rfl⟩⟩
    rw [requested, hread]
  rw [run_bind_of_ok (EStateM.run_get ..), run_bind_of_ok (EStateM.run_get ..),
    h₂.server.clientManager]
  cases hindex : x.server.clientManager.getUserByIndex index with
  | none => exact .ok () h₂
  | some p =>
    have hp : p < c.next := h.server.registered.usersByIndex index p hindex
    have htwins := h₂.server.users p hp
    dsimp only
    rw [← htwins.getType]
    split
    next hpilot =>
      have hplan : PlanKnown c.known (fun cycle => cycle > curCycle) x.server p :=
        hknown _ hrequest p hindex
      obtain ⟨a, ha⟩ := Option.ne_none_iff_exists'.mp fun hnone => getType_of_none hnone hpilot
      obtain ⟨b, hb, hplans⟩ := h₂.server.plans hp hplan ha
      have hget (z : Session) {plane : Aircraft} (hz : (z.server.heap p).asAircraft = some plane) :
          (onServer (getFlightPlan p)).run z = .ok plane.flightPlan z :=
        onServer_ok.mpr ⟨z.server, getFlightPlan_run hz, rfl⟩
      rw [run_bind_of_ok (hget { x with buf := buf₂ } ha), run_bind_of_ok (hget y₂ hb)]
      rcases hplans with ⟨hnone, hnone'⟩ | ⟨plan, plan', hsome, hsome', hcycle, hsame⟩
      · rw [hnone, hnone']
        exact .error _ h₂
      · rw [hsome, hsome']
        dsimp only
        rw [← hcycle]
        split
        next hnewer =>
          obtain rfl := hsame (decide_eq_true hnewer)
          refine matched_deref_bind h₂ huser fun u _ _ => ?_
          refine matched_onServer h₂.buf h₂.dispatched ?_
          rw [sendFlightPlanCycle_run ha hsome, sendFlightPlanCycle_run hb hsome']
          exact .ok () (h₂.server.push (htwins.flightPlanCycle p plan))
        next => exact .ok () h₂
    next => exact .ok () h₂

end Plans

section Login

open HandshakePacket

variable {c : Comparison} (clientSocket : Socket) {s t : Server} {x y : Session}

/-- The members on whose values two memories agree. -/
def agreed (storage storage' : Ptr → Storage) : Known := fun p m =>
  decide ((contentsOfStorage (storage p)).Same (contentsOfStorage (storage' p)) m)

/-- After a login that may have created a user: what is known of it is what the memories say. -/
def Comparison.enrolled (c : Comparison) (n : Ptr) : Comparison :=
  { c with known := Function.update c.known c.next (agreed c.storage c.storage' c.next), next := n }

theorem coupled_readTypeFields (type : ℕ) :
    Coupled (Sessions c) (readTypeFields type) (readTypeFields type) := by
  refine .ite (.bind (coupled_onBuf _) fun rating => .bind (coupled_onBuf _) fun position =>
    .pure _) (.ite ?_ (.pure _))
  refine .bind (coupled_onBuf _) fun rating => .bind coupled_readText fun acfTitle => ?_
  refine .bind coupled_readText fun transponder => .bind (coupled_onBuf _) fun modeHeavy => ?_
  exact .bind (coupled_onBuf _) fun hash => .pure _

theorem coupled_readFields :
    Coupled (Sessions c) HandshakePacket.readFields HandshakePacket.readFields := by
  refine .bind (coupled_onBuf _) fun protoVersion => .bind coupled_readText fun callSign => ?_
  refine .bind coupled_readText fun loginName => .bind coupled_readText fun username => ?_
  refine .bind coupled_readText fun password => .bind (coupled_onBuf _) fun requestTime => ?_
  refine .bind coupled_readDouble fun latitude => .bind coupled_readDouble fun longitude => ?_
  refine .bind (coupled_onBuf _) fun visibility => .bind (coupled_onBuf _) fun type => ?_
  refine .bind coupled_readFrequency fun first => .bind coupled_readFrequency fun second => ?_
  exact .bind (coupled_readTypeFields type) fun typeFields => .pure _

/-- The packet of a pilot has the fields of a pilot. -/
def PilotFields (f : HandshakePacket.Fields) : Prop :=
  f.type = 1 → ∃ rating acfTitle transponder modeHeavy hash,
    f.typeFields = .pilot rating acfTitle transponder modeHeavy hash

theorem pilotFields_of_read {f : HandshakePacket.Fields}
    (h : HandshakePacket.readFields.run x = .ok f y) : PilotFields f := by
  simp only [HandshakePacket.readFields, run_bind_ok] at h
  obtain ⟨_, _, -, _, _, -, _, _, -, _, _, -, _, _, -, _, _, -, _, _, -, _, _, -, _, _, -, type, _,
    -, _, _, -, _, _, -, typeFields, z, hread, hf⟩ := h
  rw [EStateM.run_pure, EStateM.Result.ok.injEq] at hf
  rw [PilotFields, ← hf.1]
  dsimp only
  intro htype
  obtain rfl : type = 1 := by omega
  rw [readTypeFields, if_neg (by decide), if_pos rfl] at hread
  simp only [run_bind_ok] at hread
  obtain ⟨rating, _, -, acfTitle, _, -, transponder, _, -, modeHeavy, _, -, hash, _, -, hpilot⟩ :=
    hread
  rw [EStateM.run_pure, EStateM.Result.ok.injEq] at hpilot
  exact ⟨rating, acfTitle, transponder, modeHeavy, hash, hpilot.1.symm⟩

theorem type_of_pilot {type : ℤ} (h : AvClient.ofInt type = some .pilot) : type = 1 := by
  unfold AvClient.ofInt at h
  split at h
  · cases h
  · rfl
  · cases h

/-- Users made in two memories from the same packet, with the same index. -/
theorem twins_fill {f : HandshakePacket.Fields} (hf : PilotFields f) (st st' : Storage) {id : ℤ}
    {u v : User} (hu : initialUser st clientSocket f.type id = some u)
    (hv : initialUser st' clientSocket f.type id = some v) (index : ℤ) :
    Twins (fun m => decide ((contentsOfStorage st).Same (contentsOfStorage st') m))
      { f.fill st u with index := index } { f.fill st' v with index := index } := by
  unfold initialUser at hu hv
  cases htype : AvClient.ofInt f.type with
  | none =>
    rw [htype] at hu
    cases hu
  | some type =>
    rw [htype] at hu hv
    cases type with
    | controller =>
      obtain rfl := Option.some.inj hu
      obtain rfl := Option.some.inj hv
      simp only [Fields.fill, User.construct, Fields.setDerived]
      refine ⟨by cases f.typeFields <;> rfl, fun m hm => ?_⟩
      have hsame := of_decide_eq_true hm
      cases m with
      | updateRequired => exact hsame
      | lastPositionUpdate => exact hsame
      | groundSpeed => cases f.typeFields <;> rfl
      | altitude => cases f.typeFields <;> rfl
      | flightRules => cases f.typeFields <;> rfl
      | cycle => cases f.typeFields <;> rfl
    | pilot =>
      obtain rfl := Option.some.inj hu
      obtain rfl := Option.some.inj hv
      obtain ⟨rating, acfTitle, transponder, modeHeavy, hash, hpilot⟩ := hf (type_of_pilot htype)
      simp only [Fields.fill, User.construct, Fields.setDerived, hpilot]
      refine ⟨rfl, fun m hm => ?_⟩
      have hsame := of_decide_eq_true hm
      cases m <;> exact hsame

/-- A new user sees nobody. -/
theorem initialUser_alone (f : HandshakePacket.Fields) {st : Storage} {id : ℤ} {u : User}
    (hu : initialUser st clientSocket f.type id = some u) (q : Ptr) :
    q ∉ (f.fill st u).localUsers := by
  have hempty : u.localUsers = ∅ := by
    unfold initialUser at hu
    split at hu
    · obtain rfl := Option.some.inj hu
      rfl
    · obtain rfl := Option.some.inj hu
      rfl
    · cases hu
  change q ∉ u.localUsers
  rw [hempty]
  exact AList.notMem_empty q

namespace Parallel

theorem setManager (h : Parallel c s t) {cm : ClientManager} (hcm : Registered c.next cm) :
    Parallel c { s with clientManager := cm } { t with clientManager := cm } :=
  { h with
    rest := congrArg (fun r : Server => { r with clientManager := cm }) h.rest
    registered := hcm }

theorem providePlacement (h : Parallel c s t) {user : Ptr} (huser : user < c.next) :
    Parallel c
      { s with clientManager := s.clientManager.providePlacement clientSocket user s.heap }
      { t with clientManager := t.clientManager.providePlacement clientSocket user t.heap } := by
  have htwins := h.users user huser
  have hsame : t.clientManager.providePlacement clientSocket user t.heap =
      s.clientManager.providePlacement clientSocket user s.heap := by
    rw [h.clientManager, ClientManager.providePlacement, ClientManager.providePlacement,
      htwins.congr User.id fun _ => rfl, htwins.congr User.index fun _ => rfl,
      htwins.congr (fun w => w.identity.callsign) fun _ => rfl]
  rw [hsame]
  exact h.setManager ⟨h.registered.clients.insert huser _, h.registered.usersByIndex.insert huser _,
    h.registered.usersByCallsign.insert huser _⟩

/-- A new user in both servers. -/
theorem enroll (h : Parallel c s t) {u v : User}
    (htwins : ∀ index, Twins (agreed c.storage c.storage' c.next) { u with index := index }
      { v with index := index }) (hlocals : ∀ q, q ∉ u.localUsers) :
    Parallel (c.enrolled (c.next + 1)) (HandshakeOutcomes.enroll s u)
      (HandshakeOutcomes.enroll t v) where
  storage := h.storage
  storage' := h.storage'
  next := congrArg (· + 1) h.next
  rest := congrArg (fun r : Server => { r with
    heap := (HandshakeOutcomes.enroll s u).heap
    next := r.next + 1
    clientManager := r.clientManager.provideIndex.2 }) h.rest
  registered := by
    have hle : c.next ≤ c.next + 1 := Nat.le_succ _
    have hmaps (cm : ClientManager) (hcm : Registered c.next cm) :
        Registered (c.next + 1) cm.provideIndex.2 := by
      unfold ClientManager.provideIndex ClientManager.getAvailableIndex
      split <;>
        exact ⟨hcm.clients.mono hle, hcm.usersByIndex.mono hle, hcm.usersByCallsign.mono hle⟩
    exact hmaps _ h.registered
  users p hp := by
    have hnext : t.next = s.next := h.congr Server.next fun _ _ _ _ => rfl
    unfold HandshakeOutcomes.enroll Comparison.enrolled
    dsimp only
    rw [hnext, h.clientManager, h.next]
    by_cases hpn : p = c.next
    · subst hpn
      rw [Function.update_self, Function.update_self, Function.update_self]
      exact htwins _
    · rw [Function.update_of_ne hpn, Function.update_of_ne hpn, Function.update_of_ne hpn]
      exact h.users p (lt_of_le_of_ne (Nat.le_of_lt_succ hp) hpn)
  localUsers p hp v hv := by
    unfold HandshakeOutcomes.enroll at hv
    dsimp only at hv
    rw [h.next] at hv
    by_cases hpn : p = c.next
    · subst hpn
      rw [Function.update_self] at hv
      exact absurd hv (hlocals v)
    · rw [Function.update_of_ne hpn] at hv
      have hlt : p < c.next := lt_of_le_of_ne (Nat.le_of_lt_succ hp) hpn
      exact Nat.lt_succ_of_lt (h.localUsers p hlt v hv)
  sent := h.sent

end Parallel

theorem coupled_removeClientSocket (close : Bool) :
    Coupled (Parallel c) (removeClientSocket clientSocket close)
      (removeClientSocket clientSocket close) := by
  refine .bind (.modify fun s t h => ?_) fun _ => .get_bind fun s t h => ?_
  · exact { h with rest := congrArg (fun r : Server =>
      { r with byteData := r.byteData.erase clientSocket }) h.rest }
  · have hsockets : t.clientSockets = s.clientSockets :=
      h.congr Server.clientSockets fun _ _ _ _ => rfl
    rw [hsockets]
    split
    · refine Matched.bind (R := Parallel c) (.ok () ?_) fun _ s' t' _ h' => ?_
      · exact { h with rest := congrArg (fun r : Server =>
          { r with clientSockets := s.clientSockets.erase clientSocket }) h.rest }
      · exact Coupled.ite (coupled_closesocket clientSocket) (.pure ()) s' t' h'
    · exact .ok () h

theorem coupled_respond {user : Ptr} (huser : user < c.next) (response : ℤ) :
    Coupled (Parallel c) (respond clientSocket user response)
      (respond clientSocket user response) := by
  refine .ite (coupled_getUser_bind huser fun u v htwins _ => ?_) ?_
  · rw [htwins.congr User.index fun _ => rfl, htwins.congr User.updateInterval fun _ => rfl]
    refine .bind (coupled_send (.refl _)) fun _ => .bind (coupled_send (.refl _)) fun _ => ?_
    refine .bind (coupled_send (.refl _)) fun _ => .modify fun s t h => ?_
    exact h.providePlacement clientSocket huser
  · exact .bind (coupled_send (.refl _)) fun _ => coupled_removeClientSocket clientSocket true

/-- The two servers after a packet of a login, whether it made a user or not. -/
def Grown (c : Comparison) (s t : Server) : Prop := ∃ n, Parallel (c.enrolled n) s t

theorem Parallel.grown (h : Parallel c s t) : Grown c s t := by
  refine ⟨c.next, h.mono fun q hq m hm => ?_⟩
  rw [Function.update_of_ne (ne_of_lt hq)] at hm
  exact hm

theorem matched_accept (h : Parallel c s t) {f : HandshakePacket.Fields} (hf : PilotFields f) :
    Matched (Grown c) (Grown c) ((accept clientSocket f).run s)
      ((accept clientSocket f).run t) := by
  have hnext : t.next = s.next := h.congr Server.next fun _ _ _ _ => rfl
  unfold accept
  split
  next =>
    cases hid : stoi f.username with
    | error e => exact .error _ h.grown
    | ok id =>
      rw [run_bind_of_ok (EStateM.run_get ..), run_bind_of_ok (EStateM.run_get ..), hnext,
        h.storage, h.storage', h.next]
      have hclass (st : Storage) :=
        HandshakeOutcomes.initialUser_isSome_iff clientSocket st f.type id
      cases hu : initialUser (c.storage c.next) clientSocket f.type id with
      | none =>
        have hv : initialUser (c.storage' c.next) clientSocket f.type id = none := by
          rw [← Option.not_isSome_iff_eq_none, hclass, ← hclass (c.storage c.next), hu]
          decide
        rw [hv]
        exact .error _ h.grown
      | some u =>
        obtain ⟨v, hv⟩ := Option.isSome_iff_exists.mp
          ((hclass (c.storage' c.next)).mpr ((hclass (c.storage c.next)).mp (by rw [hu]; rfl)))
        rw [hv]
        have henrolled := h.enroll (twins_fill clientSocket hf _ _ hu hv)
          (initialUser_alone clientSocket f hu)
        have hrespond := coupled_respond clientSocket (c := c.enrolled (c.next + 1))
          (Nat.lt_succ_self c.next) (if f.protoVersion ≠ protoVersion then 2 else 1) _ _ henrolled
        have hrun (r : Server) (hr : r.next = c.next) (w : User) : (do
            let user ← allocate w
            assignIndex user
            respond clientSocket user (if f.protoVersion ≠ protoVersion then 2 else 1) :
              ServerM Unit).run r =
            (respond clientSocket c.next (if f.protoVersion ≠ protoVersion then 2 else 1)).run
              (HandshakeOutcomes.enroll r w) := by
          rw [← hr]
          simp [allocate, assignIndex, Server.updateUser, Server.modifyUser,
            HandshakeOutcomes.enroll]
        dsimp only
        rw [hrun s h.next, hrun t (hnext.trans h.next)]
        exact hrespond.mono (fun _ _ h => ⟨_, h⟩) fun _ _ h => ⟨_, h⟩
  next => exact .ok () h.grown

/-- The handler of a login, whichever way it ends. -/
theorem grown_handshake (h : Sessions c x y) (user : Option Ptr) :
    Grown c (finalState ((HandshakePacket.handle clientSocket user).run x)).server
      (finalState ((HandshakePacket.handle clientSocket user).run y)).server := by
  have hreads := coupled_readFields x y h
  cases hx : HandshakePacket.readFields.run x with
  | error e x' =>
    rw [hx] at hreads
    cases hy : HandshakePacket.readFields.run y with
    | ok f y' =>
      rw [hy] at hreads
      cases hreads
    | error e' y' =>
      rw [hy] at hreads
      rw [HandshakePacket.handle, run_bind_of_error hx, run_bind_of_error hy]
      exact (hreads.finalState : Sessions c x' y').server.grown
  | ok f x' =>
    rw [hx] at hreads
    cases hy : HandshakePacket.readFields.run y with
    | error e' y' =>
      rw [hy] at hreads
      cases hreads
    | ok f' y' =>
      rw [hy] at hreads
      cases hreads with
      | ok _ h' =>
        rw [HandshakePacket.handle, run_bind_of_ok hx, run_bind_of_ok hy, finalState_onServer,
          finalState_onServer]
        exact (matched_accept clientSocket h'.server (pilotFields_of_read hx)).finalState

end Login

end Win64Server.Unwritten
