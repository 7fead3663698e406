import Win64Server.MessageContents
import Win64Server.Standing

/-!
How a user is introduced. The handshake stores the names, the type and the range that a client
sends, and the server gives it an index. Whoever is told of the user later on, at whatever time, is
told of it under these.
-/
namespace Win64Server.Introductions

open Outcome Library BasicStream Server PacketFields MessageCapacity MessageContents HandshakePacket
  HandshakeOutcomes PositionClock TwoMemories ServerSteps Standing

/-- What a login says of a user that other clients are told, with the index of the user. -/
def introduction (l : Login) (index : ℤ) : List UInt8 :=
  beBytes 2 index ++ ([l.type] ++ ((l.callSign.1 ++ [0]) ++ ((l.username.1 ++ [0]) ++
    ((l.loginName.1 ++ [0]) ++ l.visibility.1))))

/-- The user goes by what the login says. -/
structure GoesBy (l : Login) (index : ℤ) (u : User) : Prop where
  index : u.index = index
  identity : u.identity = ⟨l.callSign.1, l.loginName.1, l.password.1, l.username.1⟩
  type : u.getType.toInt = l.type.toNat
  range : u.visibilityRange = beNat l.visibility.1

section Logins

variable {l : Login} {index : ℤ} {s : Server} {clientSocket : Socket}

theorem getType_standing (u : User) : (standing u).getType = u.getType := by
  cases h : u.derived <;> simp [standing, unwritten, User.getType, h, Permissions.mapAircraft]

theorem GoesBy.of_standing {u v : User} (h : GoesBy l index v) (huv : standing u = standing v) :
    GoesBy l index u where
  index := (congrArg User.index huv :).trans h.index
  identity := (congrArg User.identity huv :).trans h.identity
  type := by
    rw [← getType_standing, huv, getType_standing]
    exact h.type
  range := (congrArg User.visibilityRange huv :).trans h.range

theorem goesBy_fill {typeFields : TypeFields} {storage : Storage} {id : ℤ} {u : User}
    (hu : initialUser storage clientSocket (l.fields typeFields).type id = some u) :
    GoesBy l index { (l.fields typeFields).fill storage u with index := index } := by
  refine ⟨rfl, rfl, ?_, rfl⟩
  have hclass : AvClient.ofInt l.type.toNat = some (User.getType
      { (l.fields typeFields).fill storage u with index := index }) := by
    have htype : (l.fields typeFields).type = l.type.toNat := rfl
    rw [← htype]
    unfold initialUser at hu
    split at hu
    · next hpilot =>
      cases hu
      rw [hpilot]
      cases typeFields <;> rfl
    · next hcontroller =>
      cases hu
      rw [hcontroller]
      cases typeFields <;> rfl
    · cases hu
  unfold AvClient.ofInt at hclass
  split at hclass
  · next hzero => rw [← Option.some.inj hclass, AvClient.toInt, hzero]
  · next hone => rw [← Option.some.inj hclass, AvClient.toInt, hone]
  · cases hclass

theorem respond_within (clientSocket : Socket) (s : Server) (user : Ptr) (response : ℤ) :
    (finalState ((respond clientSocket user response).run s)).heap = s.heap ∧
      (finalState ((respond clientSocket user response).run s)).next = s.next := by
  by_cases hresponse : response = 1
  · subst hresponse
    exact ⟨rfl, rfl⟩
  · obtain ⟨t, hremove, hheap, hnext, -⟩ :=
      removeClientSocket_run (s.push user (.handshakeRejected response)) clientSocket true
    have hrun : (respond clientSocket user response).run s = .ok () t := by
      rw [respond, if_neg hresponse]
      exact hremove
    rw [hrun, finalState_ok]
    exact ⟨hheap, hnext⟩

/-- The user that a login makes goes by what it says, under the index it takes. -/
theorem login_made (env : Environment) {buf : BasicStream} {rest : List UInt8}
    (hbuf : buf.unread = l.payload ++ rest) (hmakes : MakesUser l.type.toNat l.username.1) :
    (serve env s (.packet clientSocket 45 buf)).next = s.next + 1 ∧
      GoesBy l s.registry.nextIndex ((serve env s (.packet clientSocket 45 buf)).heap s.next) := by
  obtain ⟨typeFields, y, hserver, hrun⟩ := handle_login_run (x := ⟨s, buf, [(45, [])]⟩)
    clientSocket (s.clientManager.getUserBySocket clientSocket) l hbuf
  obtain ⟨id, u, -, hu, haccept⟩ := accept_makes (s := s) (f := l.fields typeFields)
    clientSocket l.password.2 hmakes
  have hserve : serve env s (.packet clientSocket 45 buf) =
      finalState ((accept clientSocket (l.fields typeFields)).run s) := by
    rw [serve, TwoMemories.processPacket_run env clientSocket s buf (getPacket_login env)]
    have hhandle : (finalState ((examplePacket.handle clientSocket
        (s.clientManager.getUserBySocket clientSocket)).run ⟨s, buf, [(45, [])]⟩)).server =
          finalState ((accept clientSocket (l.fields typeFields)).run y.server) := by
      rw [show examplePacket.handle = HandshakePacket.handle from rfl, hrun, finalState_onServer]
    rw [hhandle, hserver]
  have hplaced : (enroll s ((l.fields typeFields).fill (s.storage s.next) u)).heap s.next =
      { (l.fields typeFields).fill (s.storage s.next) u with index := s.registry.nextIndex } :=
    Function.update_self ..
  obtain ⟨hheap, hnext⟩ := respond_within clientSocket
    (enroll s ((l.fields typeFields).fill (s.storage s.next) u)) s.next
    (if (l.fields typeFields).protoVersion ≠ protoVersion then 2 else 1)
  rw [hserve, haccept, hheap, hnext, hplaced]
  exact ⟨rfl, goesBy_fill hu⟩

end Logins

section Messages

variable {l : Login} {index : ℤ} {client : User} {about : Ptr}

theorem body_introduction (h : GoesBy l index client) :
    Piece.body (introductionPieces client) = introduction l index := by
  have hrange : beBytes 2 (beNat l.visibility.1 : ℕ) = l.visibility.1 := by
    have hbytes := beBytes_beNat l.visibility.1
    rwa [l.visibility.2] at hbytes
  have htype : beBytes 1 (l.type.toNat : ℤ) = [l.type] := by
    have hbytes := beBytes_beNat [l.type]
    rwa [beNat_singleton] at hbytes
  simp [introductionPieces, Piece.body, Piece.bytes, h.index, h.identity, h.type, h.range, hrange,
    htype, introduction, cStr_eq_self l.callSign.2, cStr_eq_self l.username.2,
    cStr_eq_self l.loginName.2]

/-- Whenever an introduction is built, its body begins with what the login says. -/
theorem bytes_createClient (h : GoesBy l index client) {block : ℕ → List UInt8}
    (hblock : ∀ n, (block n).length = n) {written : List UInt8}
    (hwritten : bytes block (.createClient about client) = some written) :
    ∃ body, written = 9 :: (beBytes 2 body.length ++ body) ∧ introduction l index <+: body := by
  unfold bytes at hwritten
  split at hwritten
  · next stream hrun =>
    cases hwritten
    have hbuild : (Outgoing.createClient about client).build =
        sized 2 9 (introductionPieces client ++ details client) := createClient_eq client
    refine ⟨_, written_sized rfl hbuild (demands_createClient about client) (hblock _) hrun, ?_⟩
    rw [Piece.body, List.flatMap_append, ← Piece.body, body_introduction h]
    exact List.prefix_append _ _
  · cases hwritten

end Messages

section Runs

/-- In every run, whoever is introduced by a message, at whatever time after its login, is
introduced under the index that the login took, with the type, the three names and the range that
the login packet says. -/
theorem introductions_true (storage : Ptr → Storage) (before after : List (Environment × Event))
    (env : Environment) {clientSocket : Socket} {l : Login} {buf : BasicStream} {rest : List UInt8}
    (hbuf : buf.unread = l.payload ++ rest) (hmakes : MakesUser l.type.toNat l.username.1)
    {p : Ptr} (hp : p = (run storage before).next) {e : Sent}
    (he : e ∈ (run storage (before ++ (env, .packet clientSocket 45 buf) :: after)).sent)
    {client : User} (hmessage : e.message = .createClient p client) {block : ℕ → List UInt8}
    (hblock : ∀ n, (block n).length = n) {written : List UInt8}
    (hwritten : bytes block e.message = some written) :
    ∃ body, written = 9 :: (beBytes 2 body.length ++ body) ∧
      introduction l (run storage before).registry.nextIndex <+: body := by
  subst hp
  have hsound := sound_run storage before
  obtain ⟨hnext, hmade⟩ := login_made (s := run storage before) env
    hbuf hmakes
  have hend : run storage (before ++ (env, .packet clientSocket 45 buf) :: after) =
      after.foldl (fun s e => serve e.1 s e.2)
        (serve env (run storage before) (.packet clientSocket 45 buf)) := by
    rw [run, List.foldl_append]
    rfl
  have hlt : (run storage before).next <
      (serve env (run storage before) (.packet clientSocket 45 buf)).next := by
    rw [hnext]
    exact Nat.lt_succ_self _
  have hlife := (continues_foldl (hsound.serve env (.packet clientSocket 45 buf)).1 after).users
    _ hlt
  obtain ⟨-, hshown⟩ := (sound_run storage _).sent e he |>.shows (run storage before).next client
    (by rw [hmessage]; rfl)
  rw [hmessage] at hwritten
  refine bytes_createClient (hmade.of_standing ?_) hblock hwritten
  rw [hshown, hend, hlife]

/-- The login of a controller with the callsign and user name 2. -/
def secondLogin : Login where
  protoVersion := ⟨beBytes 4 Win64Server.protoVersion, beBytes_length _ _⟩
  callSign := PacketFields.letter 50 (by decide)
  loginName := noText
  username := PacketFields.letter 50 (by decide)
  password := noText
  requestTime := ⟨beBytes 8 1000, beBytes_length _ _⟩
  latitude := ⟨List.replicate 8 0, rfl⟩
  longitude := ⟨List.replicate 8 0, rfl⟩
  visibility := ⟨beBytes 2 100, beBytes_length _ _⟩
  type := 0
  first := ⟨List.replicate 3 0, rfl⟩
  second := ⟨List.replicate 3 0, rfl⟩
  typePart := ⟨[1] ++ ([1] ++ []), .fixed rfl (.fixed rfl .done)⟩

/-- Two users log in, and a pass introduces them to each other. -/
def acquainted : Server :=
  run (fun _ => .zeroed) ([(oneRoom, .packet 1 45 (login 49))] ++
    (oneRoom, .packet 2 45 (login 50)) :: [(oneRoom, .pass)])

def introduced : Outgoing → Option Ptr
  | .createClient about _ => some about
  | _ => none

theorem exists_client {message : Outgoing} {about : Ptr} (h : introduced message = some about) :
    ∃ client, message = .createClient about client := by
  cases message <;> cases h
  exact ⟨_, rfl⟩

def lastIntroduction : Sent := acquainted.sent.get ⟨9, by decide +kernel⟩

theorem introductions_true_acquainted :
    ∃ body, [9, 0, 31, 0, 1, 0, 50, 0, 50, 0, 0, 0, 100] ++ List.replicate 16 0 ++
        [1, 1, 0, 0, 0] = 9 :: (beBytes 2 body.length ++ body) ∧
      introduction secondLogin 1 <+: body := by
  have hintroduced : introduced lastIntroduction.message = some 1 := by decide +kernel
  obtain ⟨client, hclient⟩ := exists_client hintroduced
  have hbuf : (login 50).unread = secondLogin.payload ++ [] := by decide +kernel
  have hmakes : MakesUser secondLogin.type.toNat secondLogin.username.1 :=
    ⟨Or.inl rfl, 2, by decide +kernel⟩
  have hnext : 1 = (run (fun _ => .zeroed) [(oneRoom, .packet 1 45 (login 49))]).next := by
    decide +kernel
  have hindex : (run (fun _ => .zeroed)
      [(oneRoom, .packet 1 45 (login 49))]).registry.nextIndex = 1 := by decide +kernel
  have hbytes : bytes (fun n => List.replicate n 0) lastIntroduction.message =
      some ([9, 0, 31, 0, 1, 0, 50, 0, 50, 0, 0, 0, 100] ++ List.replicate 16 0 ++
        [1, 1, 0, 0, 0]) := by decide +kernel
  have hmem : lastIntroduction ∈ acquainted.sent := List.get_mem ..
  have htrue := introductions_true (fun _ => .zeroed) [(oneRoom, .packet 1 45 (login 49))]
    [(oneRoom, .pass)] oneRoom hbuf hmakes hnext hmem hclient
    (fun n => List.length_replicate) hbytes
  exact hindex ▸ htrue

end Runs

end Win64Server.Introductions
