import Win64Server.Introductions
import Win64Server.Observers

/-!
Texts between clients. A text goes out on a frequency, to the local users that are tuned to it, or
to one client under a callsign. What a client has been sent of texts after a run is exactly what the
text packets of the run say to it, in their order.
-/
namespace Win64Server.TextMessages

open Outcome Library BasicStream Server Frames PacketFields MessageCapacity MessageContents
  Permissions PositionClock TwoMemories ServerSteps PassMessages

/-- A text on a frequency, which names a client that it is meant for. -/
structure Broadcast where
  callsign : CxxString
  frequency : ℤ
  text : CxxString

def readBroadcast : StreamM Broadcast := do
  let callsign ← readStringCopy
  let frequency ← (fun value => toInt32 (Int.ofNat value)) <$> read3Byte
  let text ← readStringCopy
  return ⟨callsign, frequency, text⟩

/-- A text for the client with a callsign. -/
structure PrivateText where
  callsign : CxxString
  text : CxxString

def readPrivateText : StreamM PrivateText := do
  let callsign ← readStringCopy
  let text ← readStringCopy
  return ⟨callsign, text⟩

/-- What a reader gets from the bytes at the cursor. -/
def decoded {α : Type} (op : StreamM α) (buf : BasicStream) : Option α :=
  match op.run buf with
  | .ok a _ => some a
  | .error _ _ => none

theorem decoded_ok {α : Type} {op : StreamM α} {buf buf' : BasicStream} {a : α}
    (h : op.run buf = .ok a buf') : decoded op buf = some a := by
  rw [decoded, h]

theorem decoded_error {α : Type} {op : StreamM α} {buf buf' : BasicStream} {e : Fault}
    (h : op.run buf = .error e buf') : decoded op buf = none := by
  rw [decoded, h]

/-- One of the two frequencies of the user is this one, and in use. -/
def Tuned (u : User) (frequency : ℤ) : Prop :=
  ∃ i, u.frequencies i ≠ 99998 ∧ u.frequencies i = frequency

instance (u : User) (frequency : ℤ) : Decidable (Tuned u frequency) := by
  unfold Tuned; infer_instance

/-- The text is meant for this user, or for one with its callsign. -/
def meant (s : Server) (callsign : CxxString) (v : Ptr) : Bool :=
  match s.clientManager.getUserByCallsign callsign with
  | some a => decide ((s.heap v).identity.callsign = (s.heap a).identity.callsign)
  | none => false

/-- What `v` hears of a text that `u` sends on a frequency. -/
def Broadcast.heardBy (b : Broadcast) (v : Ptr) (s : Server) (u : Ptr) : List Outgoing :=
  if v ∈ (s.heap u).localUsers ∧ Tuned (s.heap v) b.frequency then
    [.message u (s.heap u) b.frequency b.text (meant s b.callsign v)]
  else []

/-- What `v` hears of a text that `u` sends to a client. -/
def PrivateText.heardBy (p : PrivateText) (v : Ptr) (s : Server) (u : Ptr) : List Outgoing :=
  if s.clientManager.getUserByCallsign p.callsign = some v ∧ v ≠ u then
    [.privateMessage (s.heap u).identity.callsign p.text]
  else []

/-- What `v` hears of an event: something only of a text packet of a client that is logged in. -/
def heard (v : Ptr) (s : Server) : Environment × Event → List Outgoing
  | (_, .packet clientSocket id buf) =>
    (s.clientManager.getUserBySocket clientSocket).elim [] fun u =>
      if id = 6 then (decoded readBroadcast buf).elim [] fun b => b.heardBy v s u
      else if id = 12 then (decoded readPrivateText buf).elim [] fun p => p.heardBy v s u
      else []
  | (_, .disconnect _) | (_, .pass) => []

def isText : Outgoing → Bool
  | .message _ _ _ _ _ | .privateMessage _ _ => true
  | _ => false

/-- The texts among the messages to `v`, in the order in which they were sent. -/
def textsTo (v : Ptr) (sent : List Sent) : List Outgoing :=
  (sent.filter fun e => e.recipient = v ∧ isText e.message = true).map Sent.message

variable {v u : Ptr} {s t : Server}

theorem textsTo_append (sent new : List Sent) :
    textsTo v (sent ++ new) = textsTo v sent ++ textsTo v new := by
  rw [textsTo, List.filter_append, List.map_append]
  rfl

theorem textsTo_eq_nil {sent : List Sent} (h : ∀ e ∈ sent, isText e.message = false) :
    textsTo v sent = [] := by
  have hnone : sent.filter (fun e => e.recipient = v ∧ isText e.message = true) = [] := by
    refine List.filter_eq_nil_iff.mpr fun e he => ?_
    simp [h e he]
  rw [textsTo, hnone, List.map_nil]

/-- Of a loop that tells each user at most once, each hears at most one text. -/
theorem textsTo_messages {heap : Ptr → User} {test : User → Bool} {message : Ptr → Outgoing}
    (htext : ∀ other, isText (message other) = true) {order : List Ptr} (hnodup : order.Nodup) :
    textsTo v (Observers.messages heap test message order) =
      if v ∈ order ∧ test (heap v) = true then [message v] else [] := by
  have hfilter : (Observers.messages heap test message order).filter
      (fun e => e.recipient = v ∧ isText e.message = true) =
        ((order.filter fun other => test (heap other)).filter (· = v)).map
          fun other => ⟨other, message other⟩ := by
    rw [Observers.messages, List.filter_map]
    congr 2
    funext other
    simp [htext]
  have hcount := List.nodup_iff_count_le_one.mp
    (hnodup.filter fun other => test (heap other)) v
  rw [textsTo, hfilter, List.map_map, List.filter_eq]
  by_cases hv : v ∈ order ∧ test (heap v) = true
  · have hmem : v ∈ order.filter fun other => test (heap other) := List.mem_filter.mpr hv
    have hpos := List.count_pos_iff.mpr hmem
    rw [if_pos hv, show List.count v (order.filter fun other => test (heap other)) = 1 by omega]
    rfl
  · have hnot : v ∉ order.filter fun other => test (heap other) :=
      fun hmem => hv (List.mem_filter.mp hmem)
    rw [if_neg hv, List.count_eq_zero_of_not_mem hnot]
    rfl

section Silent

/-- The messages in between are no texts. -/
def Silent (s t : Server) : Prop :=
  ∃ new, t.sent = s.sent ++ new ∧ ∀ e ∈ new, isText e.message = false

theorem Silent.textsTo (h : Silent s t) : textsTo v t.sent = textsTo v s.sent := by
  obtain ⟨new, hsent, hnew⟩ := h
  rw [hsent, textsTo_append, textsTo_eq_nil hnew, List.append_nil]

theorem Silent.refl (s : Server) : Silent s s :=
  ⟨[], (List.append_nil _).symm, fun _ he => absurd he List.not_mem_nil⟩

theorem isText_of_speaks {about : Ptr} {r : User} {message : Outgoing}
    (h : Speaks about r message) : isText message = false := by
  cases h <;> rfl

theorem isText_of_told {α : Type} {g : User → α} {M : Ptr → Prop} {e : Sent} (h : Told g M s e) :
    isText e.message = false := by
  rcases h.content with ⟨time, htime⟩ | ⟨about, -, r, -, hspeaks⟩
  · rw [htime]
    rfl
  · exact isText_of_speaks hspeaks

theorem Silent.of_fine {α : Type} {g : User → α} {M : Ptr → Prop} (h : Fine g M s t) :
    Silent s t := by
  obtain ⟨new, hsent, hnew⟩ := h.sent
  exact ⟨new, hsent, fun e he => isText_of_told (hnew e he)⟩

theorem isText_of_news {id : ℕ} {about : Ptr} {message : Outgoing} (hid : id ≠ 6)
    (h : news s id about message) : isText message = false := by
  obtain ⟨r, -, hkind⟩ := h
  split at hkind
  · obtain ⟨_, rfl⟩ := hkind; rfl
  · exact absurd rfl hid
  · obtain ⟨_, rfl⟩ := hkind; rfl
  · obtain ⟨_, rfl⟩ := hkind; rfl
  · rw [hkind]; rfl
  · obtain ⟨_, rfl⟩ := hkind; rfl
  · exact hkind.elim

theorem isText_of_mayTell {buf : BasicStream} {e : Sent} {id : ℕ} (hid : id ≠ 6 ∧ id ≠ 12)
    (h : mayTell s buf u e id) : isText e.message = false := by
  unfold mayTell at h
  split at h
  · exact isText_of_news (by decide) h.2
  · exact absurd rfl hid.1
  · exact isText_of_news (by decide) h.2
  · exact isText_of_news (by decide) h.2
  · exact isText_of_news (by decide) h.2
  · obtain ⟨-, index, about, -, -, hnews⟩ := h
    exact isText_of_news (by decide) hnews
  · exact absurd rfl hid.2
  · exact h.elim

variable (env : Environment) (clientSocket : Socket)

theorem silent_login (buf : BasicStream) :
    Silent s (serve env s (.packet clientSocket 45 buf)) := by
  rcases login_served env s clientSocket buf with hsame | hjoined
  · rw [hsame]
    exact .refl s
  · obtain ⟨new, hsent, hgreeting⟩ := hjoined.sent
    refine ⟨new, hsent, fun e he => ?_⟩
    obtain ⟨-, habout, hprivate⟩ := hgreeting e he
    cases hmessage : e.message with
    | message about sender frequency text asel =>
      rw [hmessage] at habout
      cases habout
    | privateMessage sender text => exact absurd hmessage (hprivate sender text)
    | _ => rfl

theorem silent_packet {id : ℕ} (hlogin : id ≠ 45) (hid : id ≠ 6 ∧ id ≠ 12) (buf : BasicStream) :
    Silent s (serve env s (.packet clientSocket id buf)) := by
  obtain ⟨new, hsent, htells⟩ := (packet_served env s clientSocket hlogin buf).sent
  refine ⟨new, hsent, fun e he => ?_⟩
  obtain ⟨u, -, htell⟩ := htells e he
  exact isText_of_mayTell hid htell

theorem untouched_unit : Untouched fun _ => () := ⟨fun _ _ => rfl, fun _ _ => rfl, fun _ _ => rfl⟩

theorem silent_pass : Silent s (serve env s .pass) := by
  have hstays : Kept (Stays (fun _ => ()) (fun _ => True) s) (globalUpdate env) :=
    stays_globalUpdate untouched_unit env fun _ _ => trivial
  exact .of_fine (hstays.keeps s (fine_self fun _ _ _ _ => trivial))

theorem silent_disconnect : Silent s (serve env s (.disconnect clientSocket)) := by
  rcases disconnect_served env s clientSocket with hsame | ⟨user, m, -, hloop, hserve⟩
  · rw [hsame]
    exact .refl s
  · have hstays : Kept (Stays (fun _ => ()) (fun _ => True) s)
        (iterateLocalUsers env user (Departure.farewell env user)) :=
      stays_iterateLocalUsers env trivial fun other _ =>
        stays_farewell untouched_unit env trivial trivial
    have hsilent : Silent s m :=
      .of_fine (hstays.keeps.ok hloop (fine_self fun _ _ _ _ => trivial))
    rw [hserve]
    exact hsilent

end Silent

section Packets

variable {env : Environment} {clientSocket : Socket} {x : Session}

theorem onBuf_pure {α : Type} (a : α) : onBuf (pure a) = (pure a : HandlerM α) := rfl

theorem onBuf_map {α β : Type} (op : StreamM α) (g : α → β) :
    onBuf (g <$> op) = g <$> onBuf op := by
  rw [map_eq_pure_bind, onBuf_bind, map_eq_pure_bind]
  rfl

/-- One round of the loop over the local users of the sender. -/
def tellTuned (u : Ptr) (m : ClientManager) (b : Broadcast) (other : Ptr) : ServerM Unit := do
  let o ← getUser other
  if Tuned o b.frequency then
    match m.getUserByCallsign b.callsign with
    | some a =>
      let r ← getUser a
      Server.sendMessage other u b.frequency b.text (o.identity.callsign = r.identity.callsign)
    | none => Server.sendMessage other u b.frequency b.text false

/-- The packet is read first, as a whole. -/
theorem handle_message (env : Environment) (clientSocket : Socket) (user : Option Ptr) :
    MessageRxPacket.handle env clientSocket user = (do
      let b ← onBuf readBroadcast
      let x ← get
      let u ← deref user
      onServer (iterateLocalUsers env u (tellTuned u x.server.clientManager b))) := by
  simp only [MessageRxPacket.handle, readBroadcast, readText, readFrequency, onBuf_bind, onBuf_map,
    onBuf_pure, bind_assoc, pure_bind]
  rfl

theorem tells_tuned (s : Server) (u : Ptr) (b : Broadcast) :
    Observers.Tells s.heap (fun r => decide (Tuned r b.frequency))
      (fun other => .message u (s.heap u) b.frequency b.text (meant s b.callsign other))
      (tellTuned u s.clientManager b) := by
  intro m other hm
  rw [tellTuned, run_bind_of_ok (getUser_run m other), hm]
  by_cases htuned : Tuned (s.heap other) b.frequency
  · rw [if_pos htuned, if_pos (decide_eq_true htuned)]
    cases hasel : s.clientManager.getUserByCallsign b.callsign with
    | none => simp [Server.sendMessage, meant, hasel, hm]
    | some a => simp [Server.sendMessage, meant, hasel, hm]
  · rw [if_neg htuned, if_neg (by simpa using htuned)]
    rfl

/-- Each local user that is tuned hears the text once. -/
theorem relay_run (env : Environment) (s : Server) (u : Ptr) (b : Broadcast) :
    ∃ t, (iterateLocalUsers env u (tellTuned u s.clientManager b)).run s = .ok () t ∧
      textsTo v t.sent = textsTo v s.sent ++ b.heardBy v s u := by
  let order := env.arrange s.ticks (s.heap u).localUsers.keys
  have hloop := (tells_tuned s u b).forM order { s with ticks := s.ticks + 1 } rfl
  have hnodup : order.Nodup := (env.arrange_perm _ _).nodup_iff.mpr (s.heap u).localUsers.nodupKeys
  have hmem : v ∈ order ↔ v ∈ (s.heap u).localUsers := (env.arrange_perm _ _).mem_iff
  refine ⟨_, hloop, ?_⟩
  rw [textsTo_append, textsTo_messages (fun _ => rfl) hnodup]
  simp only [Broadcast.heardBy, hmem, decide_eq_true_eq]

/-- A broadcast is heard by those it is for. -/
theorem message_served (env : Environment) (s : Server) (clientSocket : Socket)
    (buf : BasicStream) :
    textsTo v (serve env s (.packet clientSocket 6 buf)).sent =
      textsTo v s.sent ++ heard v s (env, .packet clientSocket 6 buf) := by
  have hpacket : (registerPackets env).getPacket (6 : ℕ) = some (messageRxPacket env) := by
    rw [getPacket_registerPackets]
    rfl
  rw [serve, TwoMemories.processPacket_run env clientSocket s buf hpacket,
    show (messageRxPacket env).handle = MessageRxPacket.handle env from rfl, handle_message]
  cases hread : readBroadcast.run buf with
  | error e buf' =>
    rw [run_bind_of_error (by rw [run_onBuf, hread])]
    cases hsocket : s.clientManager.getUserBySocket clientSocket <;>
      simp [heard, hsocket, decoded_error hread]
  | ok b buf' =>
    rw [run_onBuf_bind hread, run_bind_of_ok (EStateM.run_get ..)]
    cases hsocket : s.clientManager.getUserBySocket clientSocket with
    | none =>
      have hstops : (deref none).run (⟨s, buf', [(6, [])]⟩ : Session) =
          .error (.undefined .nullUser) ⟨s, buf', [(6, [])]⟩ := rfl
      rw [run_bind_of_error hstops]
      simp [heard, hsocket]
    | some u =>
      obtain ⟨t, hrun, htexts⟩ := relay_run (v := v) env s u b
      rw [Observers.deref_some_bind, run_onServer, hrun]
      simpa [heard, hsocket, decoded_ok hread] using htexts

/-- What the handler does with the text that it has read. -/
def deliver (p : PrivateText) (user : Option Ptr) : HandlerM Unit := do
  let x ← get
  match x.server.clientManager.getUserByCallsign p.callsign with
  | none => return
  | some u1 =>
    if some u1 ≠ user then
      let u ← deref user
      onServer do
        let r ← getUser u
        send u1 (.privateMessage r.identity.callsign p.text)

/-- The recipient is looked up between the two reads, which leave the registry alone. -/
theorem handle_privateMsg (clientSocket : Socket) (user : Option Ptr) (x : Session) :
    (PrivateMsgPacket.handle clientSocket user).run x =
      (onBuf readPrivateText >>= fun p => deliver p user).run x := by
  rw [PrivateMsgPacket.handle, readPrivateText, readText]
  cases hfirst : readStringCopy.run x.buf with
  | error e buf =>
    have hstops : (onBuf readStringCopy).run x = .error e { x with buf := buf } := by
      rw [run_onBuf, hfirst]
    rw [run_bind_of_error hstops, onBuf_bind, bind_assoc, run_bind_of_error hstops]
  | ok callsign buf =>
    rw [onBuf_bind, bind_assoc, run_onBuf_bind hfirst, run_onBuf_bind hfirst,
      run_bind_of_ok (EStateM.run_get ..)]
    cases hsecond : readStringCopy.run buf with
    | error e buf' =>
      have hstops : (onBuf readStringCopy).run { x with buf := buf } =
          .error e { x with buf := buf' } := by
        rw [run_onBuf, hsecond]
      rw [run_bind_of_error hstops, onBuf_bind, bind_assoc, run_bind_of_error hstops]
    | ok text buf' =>
      rw [onBuf_bind, bind_assoc, run_onBuf_bind hsecond, run_onBuf_bind hsecond, onBuf_pure,
        pure_bind, deliver, run_bind_of_ok (EStateM.run_get ..)]
      dsimp only
      cases x.server.clientManager.getUserByCallsign callsign <;> rfl

/-- One client is told, unless it is the sender itself. -/
theorem deliver_run (p : PrivateText) (u : Ptr) (x : Session) :
    textsTo v (finalState ((deliver p (some u)).run x)).server.sent =
      textsTo v x.server.sent ++ p.heardBy v x.server u := by
  rw [deliver, run_bind_of_ok (EStateM.run_get ..), PrivateText.heardBy]
  cases hcallsign : x.server.clientManager.getUserByCallsign p.callsign with
  | none =>
    rw [if_neg (by simp), List.append_nil]
    rfl
  | some u1 =>
    dsimp only
    by_cases hself : u1 = u
    · have hnobody : ¬ (some u1 = some v ∧ v ≠ u) := by
        rintro ⟨heq, hne⟩
        exact hne (Option.some.inj heq ▸ hself)
      rw [if_neg (by simpa using hself), if_neg hnobody, List.append_nil]
      rfl
    · rw [if_pos (by simpa using hself), Observers.deref_some_bind, run_onServer]
      have hrun : (do
          let r ← getUser u
          send u1 (.privateMessage r.identity.callsign p.text) : ServerM Unit).run x.server =
            .ok () (x.server.push u1
              (.privateMessage (x.server.heap u).identity.callsign p.text)) := rfl
      rw [hrun, finalState_ok, push_sent, textsTo_append]
      by_cases hv : u1 = v
      · rw [if_pos ⟨congrArg some hv, hv ▸ hself⟩]
        simp [textsTo, hv, isText]
      · rw [if_neg fun h => hv (Option.some.inj h.1)]
        simp [textsTo, hv]

/-- A private text is heard by the one it is for. -/
theorem privateMsg_served (env : Environment) (s : Server) (clientSocket : Socket)
    (buf : BasicStream) :
    textsTo v (serve env s (.packet clientSocket 12 buf)).sent =
      textsTo v s.sent ++ heard v s (env, .packet clientSocket 12 buf) := by
  have hpacket : (registerPackets env).getPacket (12 : ℕ) = some privateMsgPacket := by
    rw [getPacket_registerPackets]
    rfl
  rw [serve, TwoMemories.processPacket_run env clientSocket s buf hpacket,
    show privateMsgPacket.handle = PrivateMsgPacket.handle from rfl, handle_privateMsg]
  cases hread : readPrivateText.run buf with
  | error e buf' =>
    rw [run_bind_of_error (by rw [run_onBuf, hread])]
    cases hsocket : s.clientManager.getUserBySocket clientSocket <;>
      simp [heard, hsocket, decoded_error hread]
  | ok p buf' =>
    rw [run_onBuf_bind hread]
    cases hsocket : s.clientManager.getUserBySocket clientSocket with
    | none =>
      rw [deliver, run_bind_of_ok (EStateM.run_get ..)]
      cases s.clientManager.getUserByCallsign p.callsign <;> simp [heard, hsocket, deref]
    | some u =>
      rw [deliver_run]
      simp [heard, hsocket, decoded_ok hread]

theorem heard_eq_nil {env : Environment} {clientSocket : Socket} {id : ℕ} {buf : BasicStream}
    (hid : id ≠ 6 ∧ id ≠ 12) : heard v s (env, .packet clientSocket id buf) = [] := by
  cases hsocket : s.clientManager.getUserBySocket clientSocket <;>
    simp [heard, hsocket, hid.1, hid.2]

end Packets

/-- An event adds to the texts of a client what the client hears of it. -/
theorem textsTo_serve (v : Ptr) (s : Server) (e : Environment × Event) :
    textsTo v (serve e.1 s e.2).sent = textsTo v s.sent ++ heard v s e := by
  obtain ⟨env, event⟩ := e
  cases event with
  | packet clientSocket id buf =>
    by_cases hmessage : id = 6
    · subst hmessage
      exact message_served env s clientSocket buf
    by_cases hprivate : id = 12
    · subst hprivate
      exact privateMsg_served env s clientSocket buf
    rw [heard_eq_nil ⟨hmessage, hprivate⟩, List.append_nil]
    by_cases hlogin : id = 45
    · subst hlogin
      exact (silent_login env clientSocket buf).textsTo
    · exact (silent_packet env clientSocket hlogin ⟨hmessage, hprivate⟩ buf).textsTo
  | disconnect clientSocket =>
    rw [(silent_disconnect env clientSocket).textsTo]
    exact (List.append_nil _).symm
  | pass =>
    rw [(silent_pass env).textsTo]
    exact (List.append_nil _).symm

/-- In every run, the texts that a client has been sent are, in this order and each once, what the
text packets of the run say to it when they are handled. That the text fits the stream in which its
message is built is assumed here and decided in `text_on_the_wire`. -/
theorem texts_delivered (storage : Ptr → Storage) (events : List (Environment × Event)) (v : Ptr) :
    textsTo v (run storage events).sent =
      emitted (fun s e => serve e.1 s e.2) (heard v) (.initial storage) events :=
  foldl_emitted (fun s : Server => textsTo v s.sent) (textsTo_serve v) (.initial storage) events

section Wire

/-- A text packet, field by field. -/
inductive TextPacket
  | broadcast (callsign : Text) (frequency : Bytes 3) (text : Text)
  | personal (callsign text : Text)

namespace TextPacket

def id : TextPacket → ℕ
  | broadcast _ _ _ => 6
  | personal _ _ => 12

def bytes : TextPacket → List UInt8
  | broadcast callsign frequency text => (callsign.1 ++ [0]) ++ (frequency.1 ++ (text.1 ++ [0]))
  | personal callsign text => (callsign.1 ++ [0]) ++ (text.1 ++ [0])

/-- A message with this id and body, if the room of its stream was enough for it. -/
def frame (id : UInt8) (room : ℕ) (body : List UInt8) : Option (List UInt8) :=
  if body.length ≤ room then some (id :: (beBytes 2 body.length ++ body)) else none

/-- What goes out to `v` when `u` sends the packet. -/
def sentTo (v : Ptr) (s : Server) (u : Ptr) : TextPacket → List (Option (List UInt8))
  | broadcast callsign frequency text =>
    if v ∈ (s.heap u).localUsers ∧ Tuned (s.heap v) (frequencyOf frequency) then
      [frame 15 509 (beBytes 2 (s.heap u).index ++ (frequency.1 ++
        ([if meant s callsign.1 v then 1 else 0] ++ (text.1 ++ [0]))))]
    else []
  | personal callsign text =>
    if s.clientManager.getUserByCallsign callsign.1 = some v ∧ v ≠ u then
      [frame 11 253 ((cStr (s.heap u).identity.callsign ++ [0]) ++ (text.1 ++ [0]))]
    else []

end TextPacket

variable {block : ℕ → List UInt8}

/-- A message with a size is built when its strings find their room. -/
theorem bytes_sized {m : Outgoing} {id : ℤ} {pieces : List Piece} (hwidth : sizeWidth m = some 2)
    (hbuild : m.build = sized 2 id pieces)
    (hdemands : demands m = pieces.foldr Piece.demand .done)
    (hblock : ∀ n, (block n).length = n) (hsize : 3 ≤ m.preallocateSize)
    (hfit : Piece.Fit pieces (m.preallocateSize - 3) ↔
      (Piece.body pieces).length ≤ m.preallocateSize - 3) :
    bytes block m =
      if (Piece.body pieces).length ≤ m.preallocateSize - 3 then
        some (toChar id :: (beBytes 2 (Piece.body pieces).length ++ Piece.body pieces))
      else none := by
  unfold bytes
  by_cases hroom : (Piece.body pieces).length ≤ m.preallocateSize - 3
  · obtain ⟨t, hrun, hwritten⟩ := sized_run (le_refl 2) id (block m.preallocateSize)
      (by rw [hblock]; exact hsize) (by rw [hblock]; exact hfit.mpr hroom)
    rw [if_pos hroom, hbuild, hrun]
    exact congrArg some hwritten
  · obtain ⟨e, t, hstops⟩ := build_stops hwidth hdemands (hblock _)
      (by rw [hblock]; exact fun h => hroom (hfit.mp h))
    rw [if_neg hroom, hstops]

/-- The three bytes of a frequency come back. -/
theorem beBytes_frequencyOf (bytes : Bytes 3) : beBytes 3 (frequencyOf bytes) = bytes.1 := by
  have hdvd : (256 : ℤ) ^ 3 ∣ 2 ^ 32 := ⟨256, by norm_num⟩
  have hword (n : ℕ) : toInt32 (Int.ofNat n) % 256 ^ 3 = (n : ℤ) % 256 ^ 3 := by
    have hlow : toInt32 (Int.ofNat n) % 2 ^ 32 = Int.ofNat n % 2 ^ 32 := Int.bmod_emod
    calc toInt32 (Int.ofNat n) % 256 ^ 3
      _ = toInt32 (Int.ofNat n) % 2 ^ 32 % 256 ^ 3 := (Int.emod_emod_of_dvd _ hdvd).symm
      _ = Int.ofNat n % 2 ^ 32 % 256 ^ 3 := by rw [hlow]
      _ = (n : ℤ) % 256 ^ 3 := Int.emod_emod_of_dvd _ hdvd
  have hmod : frequencyOf bytes % 256 ^ 3 = (beNat bytes.1 : ℤ) % 256 ^ 3 := by
    rw [frequencyOf, hword]
    split <;> omega
  have h := beBytes_beNat bytes.1
  rw [bytes.2] at h
  rw [← beBytes_emod, hmod, beBytes_emod, h]

theorem bytes_message (about : Ptr) (sender : User) (frequency : Bytes 3) (text : Text)
    (asel : Bool) (hblock : ∀ n, (block n).length = n) :
    bytes block (.message about sender (frequencyOf frequency) text.1 asel) =
      TextPacket.frame 15 509 (beBytes 2 sender.index ++ (frequency.1 ++
        ([if asel then 1 else 0] ++ (text.1 ++ [0])))) := by
  let pieces : List Piece := [.number 2 sender.index, .number 3 (frequencyOf frequency),
    .number 1 (if asel then 1 else 0), .text text.1]
  have hasel : beBytes 1 (if asel then 1 else 0) = [if asel then 1 else 0] := by
    cases asel <;> rfl
  have hbody : Piece.body pieces =
      beBytes 2 sender.index ++ (frequency.1 ++ ([if asel then 1 else 0] ++ (text.1 ++ [0]))) := by
    simp only [pieces, Piece.body, List.flatMap_cons, List.flatMap_nil, Piece.bytes, hasel,
      beBytes_frequencyOf, cStr_eq_self text.2, List.append_nil]
  have hfit : Piece.Fit pieces 509 ↔ (Piece.body pieces).length ≤ 509 := by
    have hlength := frequency.2
    simp [hbody, pieces, Piece.Fit, Piece.demand, MessageCapacity.text, Demands.Fits,
      Demands.afterReserved, cStr_eq_self text.2, hlength]
    omega
  have hbuild : (Outgoing.message about sender (frequencyOf frequency) text.1 asel).build =
      sized 2 15 pieces := by
    simp [Outgoing.build, sendMessage, sized, pieces, Piece.write, writeShort, writeByte,
      write3Byte]
    rfl
  rw [bytes_sized rfl hbuild rfl hblock (by decide : 3 ≤ 512) hfit, hbody]
  rfl

theorem bytes_privateMessage (sender : CxxString) (text : Text)
    (hblock : ∀ n, (block n).length = n) :
    bytes block (.privateMessage sender text.1) =
      TextPacket.frame 11 253 ((cStr sender ++ [0]) ++ (text.1 ++ [0])) := by
  let pieces : List Piece := [.text sender, .text text.1]
  have hbody : Piece.body pieces = (cStr sender ++ [0]) ++ (text.1 ++ [0]) := by
    simp only [pieces, Piece.body, List.flatMap_cons, List.flatMap_nil, Piece.bytes,
      cStr_eq_self text.2, List.append_nil]
  have hfit : Piece.Fit pieces 253 ↔ (Piece.body pieces).length ≤ 253 := by
    simp [hbody, pieces, Piece.Fit, Piece.demand, MessageCapacity.text, Demands.Fits,
      cStr_eq_self text.2]
    omega
  have hbuild : (Outgoing.privateMessage sender text.1).build = sized 2 11 pieces := by
    simp [Outgoing.build, sendPrivateMessage, sized, pieces, Piece.write]
    rfl
  rw [bytes_sized rfl hbuild rfl hblock (by decide : 3 ≤ 256) hfit, hbody]
  rfl

variable {buf : BasicStream} {rest : List UInt8}

theorem decodes_broadcast (callsign : Text) (frequency : Bytes 3) (text : Text) :
    Decodes cursor readBroadcast (TextPacket.broadcast callsign frequency text).bytes
      ⟨callsign.1, frequencyOf frequency, text.1⟩ := by
  have hnumber : Decodes cursor read3Byte frequency.1 (if beNat frequency.1 > 8388607 then
      (beNat frequency.1 + 2 ^ 32 - 16777216) % 2 ^ 32 else beNat frequency.1) :=
    Decodes.last (decodes_readBytes (by decide) frequency) rfl
  refine (decodes_readStringCopy callsign).bind ?_
  refine (hnumber.map fun value => toInt32 (Int.ofNat value)).bind ?_
  exact (decodes_readStringCopy text).last rfl

theorem decodes_personal (callsign text : Text) :
    Decodes cursor readPrivateText (TextPacket.personal callsign text).bytes
      ⟨callsign.1, text.1⟩ :=
  (decodes_readStringCopy callsign).bind ((decodes_readStringCopy text).last rfl)

/-- What `v` hears of a text packet is what goes out to it. -/
theorem bytes_heard (p : TextPacket) (hbuf : buf.unread = p.bytes ++ rest) (env : Environment)
    {clientSocket : Socket} (hsocket : s.clientManager.getUserBySocket clientSocket = some u)
    (hblock : ∀ n, (block n).length = n) :
    (heard v s (env, .packet clientSocket p.id buf)).map (bytes block) = p.sentTo v s u := by
  cases p with
  | broadcast callsign frequency text =>
    obtain ⟨t, hrun, -⟩ := decodes_broadcast callsign frequency text buf rest hbuf
    have hheard : heard v s (env, .packet clientSocket 6 buf) =
        Broadcast.heardBy ⟨callsign.1, frequencyOf frequency, text.1⟩ v s u := by
      simp [heard, hsocket, decoded_ok hrun]
    rw [TextPacket.id, hheard, Broadcast.heardBy, TextPacket.sentTo]
    split
    · rw [List.map_singleton, bytes_message _ _ _ _ _ hblock]
    · rfl
  | personal callsign text =>
    obtain ⟨t, hrun, -⟩ := decodes_personal callsign text buf rest hbuf
    have hheard : heard v s (env, .packet clientSocket 12 buf) =
        PrivateText.heardBy ⟨callsign.1, text.1⟩ v s u := by
      simp [heard, hsocket, decoded_ok hrun]
    rw [TextPacket.id, hheard, PrivateText.heardBy, TextPacket.sentTo]
    split
    · rw [List.map_singleton, bytes_privateMessage _ _ hblock]
    · rfl

/-- In every run, a text packet of a client adds to what any client has been sent of texts exactly
one message with the bytes of the packet's text and frequency, when the text is for it, and nothing
else. -/
theorem text_on_the_wire (storage : Ptr → Storage) (before : List (Environment × Event))
    (env : Environment) {clientSocket : Socket} (p : TextPacket)
    (hbuf : buf.unread = p.bytes ++ rest)
    (hsocket : (run storage before).clientManager.getUserBySocket clientSocket = some u)
    (hblock : ∀ n, (block n).length = n) (v : Ptr) :
    (textsTo v (run storage (before ++ [(env, .packet clientSocket p.id buf)])).sent).map
        (bytes block) =
      (textsTo v (run storage before).sent).map (bytes block) ++
        p.sentTo v (run storage before) u := by
  have hlast : run storage (before ++ [(env, .packet clientSocket p.id buf)]) =
      serve env (run storage before) (.packet clientSocket p.id buf) := by
    rw [run, List.foldl_append]
    rfl
  rw [hlast, textsTo_serve v _ (env, .packet clientSocket p.id buf), List.map_append,
    bytes_heard p hbuf env hsocket hblock]

/-- Two users have logged in and see each other. -/
def company : List (Environment × Event) :=
  [(oneRoom, .packet 1 45 (login 49)), (oneRoom, .packet 2 45 (login 50)), (oneRoom, .pass)]

theorem zero_ne_letterA : (0 : UInt8) ≠ 65 := by decide

/-- The letter A for the first user, on the frequency that the second has logged in with. -/
def letter : TextPacket :=
  .broadcast (PacketFields.letter 49 (by decide)) Introductions.secondLogin.first
    (PacketFields.letter 65 zero_ne_letterA)

theorem text_on_the_wire_letter :
    (textsTo 0 (run (fun _ => .zeroed) (company ++
        [(oneRoom, .packet 2 letter.id (.preallocated letter.bytes))])).sent).map
      (bytes fun n => List.replicate n 0) = [some [15, 0, 8, 0, 1, 0, 0, 0, 1, 65, 0]] := by
  have hsocket : (run (fun _ => .zeroed) company).clientManager.getUserBySocket 2 = some 1 := by
    decide +kernel
  have hbefore : textsTo 0 (run (fun _ => .zeroed) company).sent = [] := by decide +kernel
  have hsent : letter.sentTo 0 (run (fun _ => .zeroed) company) 1 =
      [some [15, 0, 8, 0, 1, 0, 0, 0, 1, 65, 0]] := by decide +kernel
  have hbuf : (BasicStream.preallocated letter.bytes).unread = letter.bytes ++ [] := rfl
  rw [text_on_the_wire (fun _ => .zeroed) company oneRoom letter hbuf hsocket
    (fun n => List.length_replicate) 0, hbefore, hsent]
  rfl

end Wire

end Win64Server.TextMessages
