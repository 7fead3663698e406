import Win64Server.KnownHandlers
import Win64Server.PositionClock

/-!
Whether a client can tell what memory the server was given. Two runs with the same packets, clock
readings and iteration orders, whose objects find different values in the memory they are placed
in, send every client the same messages as long as every member that is read has been written
before, or has the same value in both memories.
-/
namespace Win64Server.TwoMemories

open Outcome Server FlightPlanVersions FramingSafety PositionClock Unwritten

section Disconnect

variable {c : Comparison} {s t : Server} (clientSocket : Socket)

theorem parallel_removeUser (h : Parallel c s t) :
    Parallel c { s with clientManager := s.clientManager.removeUser clientSocket s.heap }
      { t with clientManager := t.clientManager.removeUser clientSocket t.heap } := by
  rw [h.clientManager]
  unfold ClientManager.removeUser
  cases hlookup : s.clientManager.clients.lookup clientSocket with
  | none => exact h.setManager h.registered
  | some user =>
    have htwins := h.users user (h.registered.clients _ user hlookup)
    dsimp only
    rw [htwins.congr User.id fun _ => rfl, htwins.congr User.index fun _ => rfl,
      htwins.congr (fun w => w.identity.callsign) fun _ => rfl]
    exact h.setManager ⟨h.registered.clients.erase _, h.registered.usersByIndex.erase _,
      h.registered.usersByCallsign.erase _⟩

theorem coupled_disconnectUser (env : Environment) :
    Coupled (Parallel c) (disconnectUser env clientSocket) (disconnectUser env clientSocket) := by
  refine .get_bind fun s t h => ?_
  rw [h.clientManager]
  cases hlookup : s.clientManager.getUserBySocket clientSocket with
  | none => exact .ok () h
  | some user =>
    have huser : user < c.next := h.registered.clients _ user hlookup
    dsimp only
    rw [(h.users user huser).congr User.valid fun _ => rfl]
    refine Coupled.ite (.bind ?_ fun _ => ?_) (.pure ()) s t h
    · refine coupled_iterateLocalUsers env huser fun other hother => ?_
      refine .bind (coupled_deleteClient other huser) fun _ => .bind ?_ fun _ => ?_
      · refine .modify fun s t h => h.modifyUser (fun htwins => ?_) fun v hv => ?_
        · exact htwins.map (f := fun o => { o with localUsers := o.localUsers.erase user })
            (fun _ => rfl) fun _ => rfl
        · exact Or.inl (AList.mem_erase.mp hv).2
      · exact coupled_adjustTime env hother
    · exact .modify fun s t h => parallel_removeUser clientSocket h

end Disconnect

/-- What an event does to the server. -/
def serve (env : Environment) (s : Server) : Event → Server
  | .packet clientSocket id buf =>
    (finalState ((processPacket (registerPackets env) clientSocket id 0).run ⟨s, buf, []⟩)).server
  | .disconnect clientSocket => finalState ((disconnectUser env clientSocket).run s)
  | .pass => finalState ((globalUpdate env).run s)

/-- Events one after the other, each with the iteration orders and clock readings it meets. -/
def run (storage : Ptr → Storage) (events : List (Environment × Event)) : Server :=
  events.foldl (fun s e => serve e.1 s e.2) (.initial storage)

/-- The bytes of a message, built in this block. -/
def bytes (block : ℕ → List UInt8) (m : Outgoing) : Option (List UInt8) :=
  match m.build.run (.preallocated (block m.preallocateSize)) with
  | .ok _ stream => some stream.written
  | .error _ _ => none

/-- What a client has been sent. -/
def received (block : ℕ → List UInt8) (client : Ptr) (s : Server) : List (Option (List UInt8)) :=
  (s.sent.filter fun e => e.recipient = client).map fun e => bytes block e.message

section Known

variable (storage storage' : Ptr → Storage)

/-- What is known after an event: a position packet or a flight plan packet that is handled to its
end writes members, and a new user has what its memory has. -/
def learned (env : Environment) (known : Known) (s : Server) : Event → Known
  | .packet clientSocket id buf =>
    if id = 45 then Function.update known s.next (agreed storage storage' s.next)
    else if returned ((processPacket (registerPackets env) clientSocket id 0).run ⟨s, buf, []⟩) then
      if id = 1 then written known (s.clientManager.getUserBySocket clientSocket)
        [.lastPositionUpdate, .groundSpeed, .altitude]
      else if id = 3 then written known (s.clientManager.getUserBySocket clientSocket)
        [.lastPositionUpdate]
      else if id = 10 then written known (updatedPilot s buf) [.cycle]
      else known
    else known
  | .disconnect _ | .pass => known

/-- Every member the event reads is known at that time. -/
def EventKnown (env : Environment) (known : Known) (s : Server) : Event → Prop
  | .packet _ id buf => id = 11 → RequestKnown known s buf
  | .disconnect _ => True
  | .pass => PassKnown env known s

/-- Every member that is read has been written before or is the same in both memories. -/
def WrittenFirst : Known → Server → List (Environment × Event) → Prop
  | _, _, [] => True
  | known, s, (env, e) :: events => EventKnown env known s e ∧
      WrittenFirst (learned storage storage' env known s e) (serve env s e) events

instance (env : Environment) (known : Known) (s : Server) :
    ∀ e : Event, Decidable (EventKnown env known s e)
  | .packet _ id buf => inferInstanceAs (Decidable (id = 11 → RequestKnown known s buf))
  | .disconnect _ => .isTrue trivial
  | .pass => inferInstanceAs (Decidable (PassKnown env known s))

instance decidableWrittenFirst : ∀ (known : Known) (s : Server)
    (events : List (Environment × Event)),
    Decidable (WrittenFirst storage storage' known s events)
  | _, _, [] => .isTrue trivial
  | known, s, (env, e) :: events =>
    have : Decidable (WrittenFirst storage storage' (learned storage storage' env known s e)
      (serve env s e) events) := decidableWrittenFirst _ _ events
    inferInstanceAs (Decidable (_ ∧ _))

end Known

section Packets

variable {c : Comparison} (env : Environment) (clientSocket : Socket) {user : Option Ptr}
  {x y : Session}

/-- The packets whose handlers write members, read them, or create a user, and all others. -/
theorem packet_cases {packet : Packet} {id : ℤ}
    (h : (registerPackets env).getPacket id = some packet) :
    (id = 45 ∧ packet = examplePacket) ∨ (id = 1 ∧ packet = pilotUpdate env) ∨
      (id = 3 ∧ packet = controllerUpdate env) ∨ (id = 10 ∧ packet = flightPlanUpdate) ∨
      (id = 11 ∧ packet = requestFlightPlan) ∨
      (id ∉ [(45 : ℤ), 1, 3, 10] ∧ ∀ (c : Comparison) (user : Option Ptr), Allocated c.next user →
        Coupled (Sessions c) (packet.handle clientSocket user)
          (packet.handle clientSocket user)) := by
  have hother {id : ℤ} {packet : Packet} (hid : id ∉ [(45 : ℤ), 1, 3, 10])
      (hcoupled : ∀ (c : Comparison) (user : Option Ptr), Allocated c.next user →
        Coupled (Sessions c) (packet.handle clientSocket user)
          (packet.handle clientSocket user)) :=
    Or.inr (a := id = 45 ∧ packet = examplePacket) <|
      Or.inr (a := id = 1 ∧ packet = pilotUpdate env) <|
      Or.inr (a := id = 3 ∧ packet = controllerUpdate env) <|
      Or.inr (a := id = 10 ∧ packet = flightPlanUpdate) <|
      Or.inr (a := id = 11 ∧ packet = requestFlightPlan) (And.intro hid hcoupled)
  apply getPacket_cases h
  case handshake => exact Or.inl ⟨rfl, rfl⟩
  case pong => exact hother (by decide) fun _ _ _ => .pure ()
  case pilotUpdate => exact Or.inr (Or.inl ⟨rfl, rfl⟩)
  case controllerUpdate => exact Or.inr (Or.inr (Or.inl ⟨rfl, rfl⟩))
  case transponder =>
    exact hother (by decide) fun _ _ hu => coupled_transponder env clientSocket hu
  case changeCycle =>
    exact hother (by decide) fun _ _ hu => coupled_changeCycle clientSocket hu
  case message => exact hother (by decide) fun _ _ hu => coupled_message env clientSocket hu
  case pilotTitle => exact hother (by decide) fun _ _ hu => coupled_pilotTitle clientSocket hu
  case clientMode =>
    exact hother (by decide) fun _ _ hu => coupled_clientMode env clientSocket hu
  case clientDisconnect =>
    exact hother (by decide) fun _ _ hu => coupled_clientDisconnect clientSocket hu
  case flightPlanUpdate => exact Or.inr (Or.inr (Or.inr (Or.inl ⟨rfl, rfl⟩)))
  case requestFlightPlan => exact Or.inr (Or.inr (Or.inr (Or.inr (Or.inl ⟨rfl, rfl⟩))))
  case privateMsg =>
    exact hother (by decide) fun _ _ hu => coupled_privateMessage clientSocket hu
  case primeFreq =>
    exact hother (by decide) fun _ _ hu => coupled_primeFreq env clientSocket hu
  case tempData =>
    exact hother (by decide) fun _ _ hu => coupled_tempData env clientSocket hu

/-- A handler that writes members when it returns. -/
theorem parallel_written {known : Known} {program : HandlerM Unit}
    (h : Matched (Sessions c) (Sessions { c with known := known }) (program.run x)
      (program.run y)) :
    Parallel { c with known := if returned (program.run x) then known else c.known }
      (finalState (program.run x)).server (finalState (program.run y)).server := by
  cases hx : program.run x with
  | ok a x' =>
    rw [hx] at h
    generalize program.run y = r at h
    cases h with
    | ok _ h => exact h.server
  | error e x' =>
    rw [hx] at h
    generalize program.run y = r at h
    cases h with
    | error _ h => exact h.server

variable {s t : Server}

theorem learned_other {id : ℕ} (hid : (id : ℤ) ∉ [(45 : ℤ), 1, 3, 10])
    (storage storage' : Ptr → Storage) (known : Known) (s : Server) (buf : BasicStream) :
    learned storage storage' env known s (.packet clientSocket id buf) = known := by
  have h45 : id ≠ 45 := by rintro rfl; exact hid (by decide)
  have h1 : id ≠ 1 := by rintro rfl; exact hid (by decide)
  have h3 : id ≠ 3 := by rintro rfl; exact hid (by decide)
  have h10 : id ≠ 10 := by rintro rfl; exact hid (by decide)
  rw [learned, if_neg h45, if_neg h1, if_neg h3, if_neg h10, ite_self]

/-- A packet, with the handler it is handed to. -/
theorem processPacket_run (s : Server) (buf : BasicStream) {id : ℕ} {packet : Packet}
    (hpacket : (registerPackets env).getPacket id = some packet) :
    (processPacket (registerPackets env) clientSocket id 0).run ⟨s, buf, []⟩ =
      (packet.handle clientSocket (s.clientManager.getUserBySocket clientSocket)).run
        ⟨s, buf, [(id, [])]⟩ := by
  simp only [processPacket, EStateM.run_bind, EStateM.run_get, EStateM.run_set, hpacket]
  rfl

theorem parallel_packet (h : Parallel c s t) (id : ℕ) (buf : BasicStream)
    (hknown : EventKnown env c.known s (.packet clientSocket id buf)) :
    ∃ n, Parallel { c with
        known := learned c.storage c.storage' env c.known s (.packet clientSocket id buf)
        next := n }
      (serve env s (.packet clientSocket id buf)) (serve env t (.packet clientSocket id buf)) := by
  cases hpacket : (registerPackets env).getPacket id with
  | none =>
    have hrun (r : Server) : serve env r (.packet clientSocket id buf) = r := by
      simp only [serve, processPacket, EStateM.run_bind, EStateM.run_get, EStateM.run_set, hpacket]
      rfl
    have hid : (id : ℤ) ∉ [(45 : ℤ), 1, 3, 10] := by
      intro hmem
      have hregistered : id ∈ registeredIds := by
        simp only [List.mem_cons, List.not_mem_nil, or_false] at hmem
        simp only [registeredIds, List.mem_cons]
        omega
      rw [← getPacket_isSome_iff env, hpacket] at hregistered
      cases hregistered
    rw [hrun s, hrun t, learned_other env clientSocket hid]
    exact ⟨c.next, h⟩
  | some packet =>
    let user := s.clientManager.getUserBySocket clientSocket
    have huser : Allocated c.next user := fun u hu => h.registered.clients clientSocket u hu
    have hxy : Sessions c ⟨s, buf, [(id, [])]⟩ ⟨t, buf, [(id, [])]⟩ := ⟨h, rfl, rfl⟩
    have hserve (r : Server) (hr : r.clientManager = s.clientManager) :
        serve env r (.packet clientSocket id buf) =
          (finalState ((packet.handle clientSocket user).run ⟨r, buf, [(id, [])]⟩)).server := by
      rw [serve, processPacket_run env clientSocket r buf hpacket, hr]
    have hreturned :
        returned ((processPacket (registerPackets env) clientSocket id 0).run ⟨s, buf, []⟩) =
          returned ((packet.handle clientSocket user).run ⟨s, buf, [(id, [])]⟩) := by
      rw [processPacket_run env clientSocket s buf hpacket]
    rw [hserve s rfl, hserve t h.clientManager]
    rcases packet_cases env clientSocket hpacket with ⟨hid, rfl⟩ | ⟨hid, rfl⟩ | ⟨hid, rfl⟩ |
      ⟨hid, rfl⟩ | ⟨hid, rfl⟩ | ⟨hid, hcoupled⟩
    · obtain rfl : id = 45 := by exact_mod_cast hid
      rw [learned, if_pos rfl, h.next]
      exact grown_handshake clientSocket hxy user
    · obtain rfl : id = 1 := by exact_mod_cast hid
      rw [learned, if_neg (by decide), hreturned, if_pos (rfl : (1 : ℕ) = 1)]
      exact ⟨c.next, parallel_written (matched_pilotUpdate env clientSocket hxy huser)⟩
    · obtain rfl : id = 3 := by exact_mod_cast hid
      rw [learned, if_neg (by decide), hreturned, if_neg (by decide : (3 : ℕ) ≠ 1),
        if_pos (rfl : (3 : ℕ) = 3)]
      exact ⟨c.next, parallel_written (matched_controllerUpdate env clientSocket hxy huser)⟩
    · obtain rfl : id = 10 := by exact_mod_cast hid
      rw [learned, if_neg (by decide), hreturned, if_neg (by decide : (10 : ℕ) ≠ 1),
        if_neg (by decide : (10 : ℕ) ≠ 3), if_pos (rfl : (10 : ℕ) = 10)]
      exact ⟨c.next, parallel_written (matched_flightPlan clientSocket user hxy)⟩
    · obtain rfl : id = 11 := by exact_mod_cast hid
      rw [learned_other env clientSocket (by decide)]
      have hmatched := matched_requestFlightPlan clientSocket hxy huser (hknown rfl)
      exact ⟨c.next, hmatched.finalState.server⟩
    · rw [learned_other env clientSocket hid]
      exact ⟨c.next, (hcoupled c user huser _ _ hxy).finalState.server⟩

end Packets

section Runs

variable {c : Comparison} {s t : Server}

/-- One event, in two servers. -/
theorem parallel_serve (env : Environment) (h : Parallel c s t) (e : Event)
    (hknown : EventKnown env c.known s e) :
    ∃ n, Parallel { c with known := learned c.storage c.storage' env c.known s e, next := n }
      (serve env s e) (serve env t e) := by
  cases e with
  | packet clientSocket id buf => exact parallel_packet env clientSocket h id buf hknown
  | disconnect clientSocket =>
    exact ⟨c.next, (coupled_disconnectUser clientSocket env s t h).finalState⟩
  | pass => exact ⟨c.next, (matched_globalUpdate env h hknown).finalState⟩

theorem parallel_run (h : Parallel c s t) {events : List (Environment × Event)}
    (hfirst : WrittenFirst c.storage c.storage' c.known s events) :
    ∃ d, Parallel d (events.foldl (fun s e => serve e.1 s e.2) s)
      (events.foldl (fun s e => serve e.1 s e.2) t) := by
  induction events generalizing c s t with
  | nil => exact ⟨c, h⟩
  | cons e events ih =>
    obtain ⟨hknown, hrest⟩ := hfirst
    obtain ⟨n, hserve⟩ := parallel_serve e.1 h e.2 hknown
    exact ih hserve hrest

/-- Before the first connection there is nobody to know anything about. -/
def unknown : Known := fun _ _ => false

theorem parallel_initial (storage storage' : Ptr → Storage) :
    Parallel ⟨storage, storage', unknown, 0⟩ (.initial storage) (.initial storage') where
  storage := rfl
  storage' := rfl
  next := rfl
  rest := rfl
  registered := ⟨nofun, nofun, nofun⟩
  users p hp := absurd hp (Nat.not_lt_zero p)
  localUsers p hp := absurd hp (Nat.not_lt_zero p)
  sent := .nil

theorem bytes_alike (block : ℕ → List UInt8) {m m' : Outgoing} (h : Alike m m') :
    bytes block m' = bytes block m := by
  rw [bytes, bytes, h.1, h.2]

theorem received_parallel (h : Parallel c s t) (block : ℕ → List UInt8) (client : Ptr) :
    received block client t = received block client s := by
  have hsent := h.sent
  unfold received
  generalize s.sent = sent at hsent ⊢
  generalize t.sent = sent' at hsent ⊢
  induction hsent with
  | nil => rfl
  | @cons e e' sent sent' he _ ih =>
    rw [List.filter_cons, List.filter_cons, ← he.1]
    split
    · rw [List.map_cons, List.map_cons, bytes_alike block he.2, ih]
    · exact ih

/-- When no member is read before it is written, unless it is the same in both memories, no client
can tell the memories apart. -/
theorem received_eq (storage storage' : Ptr → Storage) (events : List (Environment × Event))
    (h : WrittenFirst storage storage' unknown (.initial storage) events)
    (block : ℕ → List UInt8) (client : Ptr) :
    received block client (run storage' events) = received block client (run storage events) := by
  obtain ⟨c, hparallel⟩ := parallel_run (parallel_initial storage storage') h
  exact received_parallel hparallel block client

end Runs

section OneEvening

/-- The login of a pilot. -/
def pilotLogin : BasicStream :=
  .preallocated (beBytes 4 protoVersion ++ [50, 0] ++ [0] ++ [50, 0] ++ [0] ++ beBytes 8 1000 ++
    List.replicate 16 0 ++ beBytes 2 100 ++ [1] ++ List.replicate 6 0 ++ [1, 0, 0, 0] ++
    List.replicate 8 0)

/-- A flight plan with nothing in it but the cycle 1, for the user with this index. -/
def firstPlan (index : UInt8) : BasicStream :=
  .preallocated ([0, 1, 0, index] ++ List.replicate 10 0)

/-- A request for the plan of the user with this index, of any cycle. -/
def anyPlan (index : UInt8) : BasicStream := .preallocated [0, index, 0, 0]

/-- Memory that has been used before, apart from the two members nothing ever stores a value in. -/
def usedMemory : Storage where
  requestTime := fun _ => 7
  updateInterval := 7
  lastPositionUpdate := 7
  updateRequired := false
  triggerUpdate := true
  state := ⟨7, 7, 7, 7, ⟨7⟩⟩
  mode := 7
  flightPlan := some ⟨[], [], [], [], [], [], [], [], [], 7, 7⟩
  flightRules := 0
  cycle := 7

/-- A controller and a pilot log in and send what they have before they see each other. -/
def evening : List (Environment × Event) :=
  [(oneRoom, .packet 1 45 (login 49)), (oneRoom, .packet 2 45 pilotLogin),
    (oneRoom, .packet 1 3 (.preallocated (List.replicate 16 0))),
    (oneRoom, .packet 2 1 (.preallocated (List.replicate 40 0))),
    (oneRoom, .packet 2 10 (firstPlan 1)), (oneRoom, .pass), (oneRoom, .packet 1 11 (anyPlan 1)),
    (oneRoom, .pass), (oneRoom, .disconnect 2)]

theorem received_evening :
    WrittenFirst (fun _ => .zeroed) (fun _ => usedMemory) unknown (.initial fun _ => .zeroed)
      evening ∧
      ∀ client, received (List.replicate · 0) client (run (fun _ => usedMemory) evening) =
        received (List.replicate · 0) client (run (fun _ => .zeroed) evening) := by
  have hfirst : WrittenFirst (fun _ => .zeroed) (fun _ => usedMemory) unknown
      (.initial fun _ => .zeroed) evening := by decide +kernel
  exact ⟨hfirst, received_eq _ _ evening hfirst _⟩

/-- A pilot sends a plan and asks for it. -/
def echo : List (Environment × Event) :=
  [(oneRoom, .packet 2 45 pilotLogin), (oneRoom, .packet 2 10 (firstPlan 0)),
    (oneRoom, .packet 2 11 (anyPlan 0))]

/-- The flight rules that come back are what was in the memory of the plan. -/
theorem memory_received : ¬ ∀ (storage storage' : Ptr → Storage)
    (events : List (Environment × Event)) (block : ℕ → List UInt8) (client : Ptr),
    received block client (run storage' events) = received block client (run storage events) := by
  intro h
  have hreceived := h (fun _ => .zeroed) (fun _ => { Storage.zeroed with flightRules := 1 }) echo
    (List.replicate · 0) 0
  exact absurd hreceived (by decide +kernel)

end OneEvening

end Win64Server.TwoMemories
