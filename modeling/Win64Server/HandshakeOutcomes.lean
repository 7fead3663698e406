import Win64Server.PacketFields
import Win64Server.Frames
import Win64Server.PacketIsolation
import Win64Server.ServerEffects
import Win64Server.Library.Runs

/-!
How a handshake ends. The handler either stops at an exception, at the conversion of the user name,
or at the null pointer of a client type without a class, or it makes a user object and answers.
A user that is made takes an index whether it is accepted or not.
-/
namespace Win64Server.HandshakeOutcomes

open Outcome Library BasicStream PacketFields PacketIsolation HandshakePacket Server

/-- The bytes of a login packet: its fields, with every string closed by a NUL. -/
structure Login where
  protoVersion : Bytes 4
  callSign : Text
  loginName : Text
  username : Text
  password : Text
  requestTime : Bytes 8
  latitude : Bytes 8
  longitude : Bytes 8
  visibility : Bytes 2
  type : UInt8
  first : Bytes 3
  second : Bytes 3
  typePart : {part : List UInt8 // Layout.Encodes 0 (typeLayout type.toNat) part}

def Login.payload (l : Login) : List UInt8 :=
  l.protoVersion.1 ++ ((l.callSign.1 ++ [0]) ++ ((l.loginName.1 ++ [0]) ++
    ((l.username.1 ++ [0]) ++ ((l.password.1 ++ [0]) ++ (l.requestTime.1 ++ (l.latitude.1 ++
      (l.longitude.1 ++ (l.visibility.1 ++ ([l.type] ++ (l.first.1 ++ (l.second.1 ++
        l.typePart.1)))))))))))

theorem beNat_singleton (b : UInt8) : beNat [b] = b.toNat := by simp [beNat]

theorem encodes_bytes_iff {n : ℕ} {L : Layout UInt8} {p : List UInt8} :
    Layout.Encodes 0 (bytes n L) p ↔
      ∃ (field : Bytes n) (q : List UInt8), Layout.Encodes 0 L q ∧ field.1 ++ q = p := by
  constructor
  · intro h
    cases h with
    | @fixed _ _ bs rest hlen hrest => exact ⟨⟨bs, hlen⟩, rest, hrest, rfl⟩
  · rintro ⟨field, q, hq, rfl⟩
    exact .fixed field.2 hq

theorem encodes_text_iff {L : Layout UInt8} {p : List UInt8} :
    Layout.Encodes 0 (text L) p ↔
      ∃ (field : Text) (q : List UInt8), Layout.Encodes 0 L q ∧ (field.1 ++ [0]) ++ q = p := by
  constructor
  · intro h
    cases h with
    | @stopped _ bs rest hstop hrest => exact ⟨⟨bs, hstop⟩, rest, hrest, by simp⟩
  · rintro ⟨field, q, hq, rfl⟩
    rw [List.append_assoc]
    exact .stopped field.2 hq

theorem cutShort_bytes {n : ℕ} {L : Layout UInt8} {p : List UInt8}
    (h : Layout.CutShort 0 (bytes n L) p) : ∃ q, Layout.CutShort 0 L q := by
  cases h with
  | fixed hlen hrest => exact ⟨_, hrest⟩

theorem cutShort_text {L : Layout UInt8} {p : List UInt8} (hL : ¬ Layout.Encodes 0 L [])
    (h : Layout.CutShort 0 (text L) p) : ∃ q, Layout.CutShort 0 L q := by
  cases h with
  | stopped hstop hrest => exact ⟨_, hrest⟩
  | cut hne hstop hrest => exact absurd hrest hL

theorem not_encodes_text_nil {L : Layout UInt8} : ¬ Layout.Encodes 0 (text L) [] := by
  rw [encodes_text_iff]
  rintro ⟨field, q, -, hnil⟩
  simp at hnil

theorem not_encodes_bytes_nil {n : ℕ} {L : Layout UInt8} (hn : 0 < n) :
    ¬ Layout.Encodes 0 (bytes n L) [] := by
  rw [encodes_bytes_iff]
  rintro ⟨field, q, -, hnil⟩
  have hlen : field.1.length = n := field.2
  rw [(List.append_eq_nil_iff.mp hnil).1, List.length_nil] at hlen
  omega

theorem not_cutShort_type (type : ℕ) (p : List UInt8) :
    ¬ Layout.CutShort 0 (typeLayout type) p := by
  intro h
  unfold typeLayout at h
  split at h
  · obtain ⟨_, h1⟩ := cutShort_bytes h
    obtain ⟨_, h2⟩ := cutShort_bytes h1
    cases h2
  · split at h
    · obtain ⟨_, h1⟩ := cutShort_bytes h
      obtain ⟨_, h2⟩ := cutShort_text not_encodes_text_nil h1
      obtain ⟨_, h3⟩ := cutShort_text (not_encodes_bytes_nil Nat.one_pos) h2
      obtain ⟨_, h4⟩ := cutShort_bytes h3
      obtain ⟨_, h5⟩ := cutShort_bytes h4
      cases h5
    · cases h

/-- No string is the last field, so none is read up to the end of the buffer with success. -/
theorem not_cutShort_login (p : List UInt8) : ¬ Layout.CutShort 0 (payloadLayout 45) p := by
  intro h
  obtain ⟨_, h1⟩ := cutShort_bytes h
  obtain ⟨_, h2⟩ := cutShort_text not_encodes_text_nil h1
  obtain ⟨_, h3⟩ := cutShort_text not_encodes_text_nil h2
  obtain ⟨_, h4⟩ := cutShort_text not_encodes_text_nil h3
  obtain ⟨_, h5⟩ := cutShort_text (not_encodes_bytes_nil (by decide)) h4
  obtain ⟨_, h6⟩ := cutShort_bytes h5
  obtain ⟨_, h7⟩ := cutShort_bytes h6
  obtain ⟨_, h8⟩ := cutShort_bytes h7
  obtain ⟨_, h9⟩ := cutShort_bytes h8
  cases h9 with
  | fixed hlen h10 =>
    obtain ⟨_, h11⟩ := cutShort_bytes h10
    obtain ⟨_, h12⟩ := cutShort_bytes h11
    exact not_cutShort_type _ _ h12

/-- These are all the payloads that are laid out as the handler reads them. -/
theorem encodes_login_iff {p : List UInt8} :
    Layout.Encodes 0 (payloadLayout 45) p ↔ ∃ l : Login, l.payload = p := by
  constructor
  · intro h
    obtain ⟨protoVersion, _, h1, rfl⟩ := encodes_bytes_iff.mp h
    obtain ⟨callSign, _, h2, rfl⟩ := encodes_text_iff.mp h1
    obtain ⟨loginName, _, h3, rfl⟩ := encodes_text_iff.mp h2
    obtain ⟨username, _, h4, rfl⟩ := encodes_text_iff.mp h3
    obtain ⟨password, _, h5, rfl⟩ := encodes_text_iff.mp h4
    obtain ⟨requestTime, _, h6, rfl⟩ := encodes_bytes_iff.mp h5
    obtain ⟨latitude, _, h7, rfl⟩ := encodes_bytes_iff.mp h6
    obtain ⟨longitude, _, h8, rfl⟩ := encodes_bytes_iff.mp h7
    obtain ⟨visibility, _, h9, rfl⟩ := encodes_bytes_iff.mp h8
    cases h9 with
    | @fixed _ _ bs rest hlen h10 =>
      obtain ⟨type, rfl⟩ := List.length_eq_one_iff.mp hlen
      dsimp only at h10
      rw [beNat_singleton] at h10
      obtain ⟨first, _, h11, rfl⟩ := encodes_bytes_iff.mp h10
      obtain ⟨second, typePart, h12, rfl⟩ := encodes_bytes_iff.mp h11
      exact ⟨⟨protoVersion, callSign, loginName, username, password, requestTime, latitude,
        longitude, visibility, type, first, second, ⟨typePart, h12⟩⟩, rfl⟩
  · rintro ⟨l, rfl⟩
    have hpart : Layout.Encodes 0 (typeLayout (beNat [l.type])) l.typePart.1 := by
      rw [beNat_singleton]
      exact l.typePart.2
    have htype : [l.type].length = 1 := rfl
    refine encodes_bytes_iff.mpr ⟨l.protoVersion, _, ?_, rfl⟩
    refine encodes_text_iff.mpr ⟨l.callSign, _, ?_, rfl⟩
    refine encodes_text_iff.mpr ⟨l.loginName, _, ?_, rfl⟩
    refine encodes_text_iff.mpr ⟨l.username, _, ?_, rfl⟩
    refine encodes_text_iff.mpr ⟨l.password, _, ?_, rfl⟩
    refine encodes_bytes_iff.mpr ⟨l.requestTime, _, ?_, rfl⟩
    refine encodes_bytes_iff.mpr ⟨l.latitude, _, ?_, rfl⟩
    refine encodes_bytes_iff.mpr ⟨l.longitude, _, ?_, rfl⟩
    refine encodes_bytes_iff.mpr ⟨l.visibility, _, ?_, rfl⟩
    refine .fixed htype ?_
    refine encodes_bytes_iff.mpr ⟨l.first, _, ?_, rfl⟩
    exact encodes_bytes_iff.mpr ⟨l.second, _, hpart, rfl⟩

theorem reads_typeFields {type : ℕ} {part : List UInt8}
    (h : Layout.Encodes 0 (typeLayout type) part) :
    ∃ fields, Reads (readTypeFields type) part fields := by
  unfold typeLayout at h
  unfold readTypeFields
  by_cases h0 : type = 0
  · rw [if_pos h0] at h ⊢
    obtain ⟨⟨rating, hrating⟩, _, h1, rfl⟩ := encodes_bytes_iff.mp h
    obtain ⟨⟨position, hposition⟩, _, h2, rfl⟩ := encodes_bytes_iff.mp h1
    obtain ⟨rating, rfl⟩ := List.length_eq_one_iff.mp hrating
    obtain ⟨position, rfl⟩ := List.length_eq_one_iff.mp hposition
    cases h2
    exact ⟨_, (reads_byte rating).bind ((reads_byte position).bind (.pure _))⟩
  · rw [if_neg h0] at h ⊢
    by_cases h1 : type = 1
    · rw [if_pos h1] at h ⊢
      obtain ⟨⟨rating, hrating⟩, _, h1, rfl⟩ := encodes_bytes_iff.mp h
      obtain ⟨acfTitle, _, h2, rfl⟩ := encodes_text_iff.mp h1
      obtain ⟨transponder, _, h3, rfl⟩ := encodes_text_iff.mp h2
      obtain ⟨⟨modeHeavy, hmodeHeavy⟩, _, h4, rfl⟩ := encodes_bytes_iff.mp h3
      obtain ⟨hash, _, h5, rfl⟩ := encodes_bytes_iff.mp h4
      obtain ⟨rating, rfl⟩ := List.length_eq_one_iff.mp hrating
      obtain ⟨modeHeavy, rfl⟩ := List.length_eq_one_iff.mp hmodeHeavy
      cases h5
      exact ⟨_, (reads_byte rating).bind <| (reads_text acfTitle).bind <|
        (reads_text transponder).bind <| (reads_byte modeHeavy).bind <|
          (reads_qWord hash).bind (.pure _)⟩
    · rw [if_neg h1] at h ⊢
      cases h
      exact ⟨_, .pure _⟩

/-- What the handler makes of the packet, given the part that depends on the type. -/
def Login.fields (l : Login) (typeFields : TypeFields) : Fields where
  protoVersion := toInt32 (Int.ofNat (beNat l.protoVersion.1))
  callSign := l.callSign.1
  loginName := l.loginName.1
  username := l.username.1
  password := l.password.1
  requestTime := toInt64 (beNat l.requestTime.1)
  location := ⟨longToRawBits (toInt64 (beNat l.latitude.1)),
    longToRawBits (toInt64 (beNat l.longitude.1))⟩
  visibility := beNat l.visibility.1
  type := l.type.toNat
  frequencies := fun i => if i = 0 then frequencyOf l.first else frequencyOf l.second
  typeFields := typeFields

theorem Login.reads (l : Login) :
    ∃ typeFields, Reads readFields l.payload (l.fields typeFields) := by
  obtain ⟨typeFields, htype⟩ := reads_typeFields l.typePart.2
  refine ⟨typeFields, ?_⟩
  refine (reads_int l.protoVersion).bind ((reads_text l.callSign).bind ?_)
  refine (reads_text l.loginName).bind ((reads_text l.username).bind ?_)
  refine (reads_text l.password).bind ((reads_qWord l.requestTime).bind ?_)
  refine (reads_double l.latitude).bind ((reads_double l.longitude).bind ?_)
  refine (reads_short l.visibility).bind ((reads_byte l.type).bind ?_)
  refine (reads_frequency l.first).bind ((reads_frequency l.second).bind ?_)
  exact htype.last rfl

/-- The code a message carries when it answers a handshake. -/
def responseCode : Outgoing → Option ℤ
  | .handshakeAccepted response _ _ => some response
  | .handshakeRejected response => some response
  | _ => none

def responses (sent : List Sent) : List ℤ := sent.filterMap fun e => responseCode e.message

/-- The packet makes a user object: its type has a class and its user name converts. -/
def MakesUser (type : ℤ) (username : CxxString) : Prop :=
  (type = 0 ∨ type = 1) ∧ ∃ id, stoi username = .ok id

section Accept

variable {f : Fields} {s : Server} (clientSocket : Socket)

theorem initialUser_isSome_iff (storage : Storage) (type id : ℤ) :
    (initialUser storage clientSocket type id).isSome ↔ type = 0 ∨ type = 1 := by
  unfold initialUser
  by_cases h0 : type = 0
  · subst h0
    simp [AvClient.ofInt]
  · by_cases h1 : type = 1
    · subst h1
      simp [AvClient.ofInt]
    · have hnone : AvClient.ofInt type = none := by
        unfold AvClient.ofInt
        split <;> simp_all
      simp [hnone, h0, h1]

/-- The password is compared with the part of it in front of its first NUL. -/
theorem iequals_cStr {password : CxxString} (h : 0 ∉ password) :
    iequals (cStr password) password = true := by
  simp [iequals, cStr_eq_self h]

/-- Without a user the handler stops before it has changed anything. -/
theorem accept_stops (hpassword : 0 ∉ f.password) (h : ¬ MakesUser f.type f.username) :
    ∃ e, (accept clientSocket f).run s = .error e s := by
  cases hid : stoi f.username with
  | error e => exact ⟨.thrown e, by simp [accept, iequals_cStr hpassword, hid]⟩
  | ok id =>
    have hnone : initialUser (s.storage s.next) clientSocket f.type id = none := by
      rw [← Option.not_isSome_iff_eq_none, initialUser_isSome_iff]
      exact fun htype => h ⟨htype, id, hid⟩
    exact ⟨.undefined .nullUser, by simp [accept, iequals_cStr hpassword, hid, hnone]⟩

/-- The server with a new user object, which has taken an index. -/
def enroll (s : Server) (u : User) : Server :=
  { s with
    heap := Function.update s.heap s.next { u with index := s.clientManager.provideIndex.1 }
    next := s.next + 1
    clientManager := s.clientManager.provideIndex.2 }

theorem accept_run (hpassword : 0 ∉ f.password) {id : ℤ} (hid : stoi f.username = .ok id) {u : User}
    (hu : initialUser (s.storage s.next) clientSocket f.type id = some u) :
    (accept clientSocket f).run s =
      (respond clientSocket s.next (if f.protoVersion ≠ protoVersion then 2 else 1)).run
        (enroll s (f.fill (s.storage s.next) u)) := by
  simp [accept, iequals_cStr hpassword, hid, hu, allocate, assignIndex, Server.updateUser,
    Server.modifyUser, enroll]

theorem accept_makes (hpassword : 0 ∉ f.password) (h : MakesUser f.type f.username) :
    ∃ id u, stoi f.username = .ok id ∧
      initialUser (s.storage s.next) clientSocket f.type id = some u ∧
      (accept clientSocket f).run s =
        (respond clientSocket s.next (if f.protoVersion ≠ protoVersion then 2 else 1)).run
          (enroll s (f.fill (s.storage s.next) u)) := by
  obtain ⟨htype, id, hid⟩ := h
  obtain ⟨u, hu⟩ := Option.isSome_iff_exists.mp
    ((initialUser_isSome_iff clientSocket (s.storage s.next) f.type id).mpr htype)
  exact ⟨id, u, hid, hu, accept_run clientSocket hpassword hid hu⟩

/-- The handler leaves the server alone, or it replies to a user that it has made. -/
theorem accept_cases (f : Fields) (s : Server) :
    finalState ((accept clientSocket f).run s) = s ∨
      ∃ u, (accept clientSocket f).run s =
        (respond clientSocket s.next (if f.protoVersion ≠ protoVersion then 2 else 1)).run
          (enroll s (f.fill (s.storage s.next) u)) := by
  unfold accept
  split
  · cases stoi f.username with
    | error e => exact Or.inl rfl
    | ok id =>
      rw [EStateM.run_bind, EStateM.run_get]
      dsimp only
      cases initialUser (s.storage s.next) clientSocket f.type id with
      | none => exact Or.inl rfl
      | some u =>
        refine Or.inr ⟨u, ?_⟩
        simp [allocate, assignIndex, Server.updateUser, Server.modifyUser, enroll]
  · exact Or.inl rfl

theorem respond_accepted_run (s : Server) (user : Ptr) :
    ∃ t, (respond clientSocket user 1).run s = .ok () t ∧
      t.clientManager = s.clientManager.providePlacement clientSocket user s.heap ∧
      t.sent = s.sent ++
        [⟨user, .handshakeAccepted 1 (s.heap user).index (s.heap user).updateInterval⟩,
          ⟨user, .serverMessage welcomeMessage⟩, ⟨user, .serverMessage rulesMessage⟩] :=
  ⟨_, rfl, rfl, by simp⟩

theorem respond_rejected_run (s : Server) (user : Ptr) {response : ℤ} (h : response ≠ 1) :
    ∃ t, (respond clientSocket user response).run s = .ok () t ∧
      t.clientManager = s.clientManager ∧
      t.sent = s.sent ++ [⟨user, .handshakeRejected response⟩] := by
  obtain ⟨t, hrun, -, -, hmanager, hsent⟩ :=
    removeClientSocket_run (s.push user (.handshakeRejected response)) clientSocket true
  refine ⟨t, ?_, hmanager, hsent⟩
  rw [respond, if_neg h]
  exact hrun

/-- A user that is made is answered with one code. A code other than 1 leaves the index taken. -/
theorem accept_answers (hpassword : 0 ∉ f.password) (h : MakesUser f.type f.username) :
    ∃ t new, (accept clientSocket f).run s = .ok () t ∧ t.sent = s.sent ++ new ∧
      ((f.protoVersion = protoVersion ∧ responses new = [1]) ∨
        (f.protoVersion ≠ protoVersion ∧ responses new = [2] ∧
          t.clientManager = s.clientManager.provideIndex.2)) := by
  obtain ⟨id, u, -, -, hrun⟩ := accept_makes (s := s) clientSocket hpassword h
  by_cases hversion : f.protoVersion = protoVersion
  · rw [if_neg (not_not.mpr hversion)] at hrun
    obtain ⟨t, hrespond, -, hsent⟩ := respond_accepted_run clientSocket
      (enroll s (f.fill (s.storage s.next) u)) s.next
    exact ⟨t, _, hrun.trans hrespond, hsent, Or.inl ⟨hversion, rfl⟩⟩
  · rw [if_pos hversion] at hrun
    obtain ⟨t, hrespond, hmanager, hsent⟩ := respond_rejected_run clientSocket
      (enroll s (f.fill (s.storage s.next) u)) s.next (show (2 : ℤ) ≠ 1 by decide)
    exact ⟨t, _, hrun.trans hrespond, hsent, Or.inr ⟨hversion, rfl, hmanager⟩⟩

end Accept

section Replies

variable {x : Session} {rest : List UInt8} (clientSocket : Socket) (user : Option Ptr)

/-- The handler returns, and among the messages it sends is exactly one response code. -/
def AnswersOnce (program : HandlerM Unit) (x : Session) : Prop :=
  ∃ y new code, program.run x = .ok () y ∧ y.server.sent = x.server.sent ++ new ∧
    responses new = [code]

/-- The fields of a whole packet are read, and the rest of the handler works on the server. -/
theorem handle_login_run (l : Login) (hbuf : x.buf.unread = l.payload ++ rest) :
    ∃ typeFields y, y.server = x.server ∧ (handle clientSocket user).run x =
      (onServer (accept clientSocket (l.fields typeFields))).run y := by
  obtain ⟨typeFields, hreads⟩ := l.reads
  obtain ⟨y, hrun, hmoved⟩ := hreads x rest hbuf
  refine ⟨typeFields, y, ?_, run_bind_of_ok hrun⟩
  have hy : y = { x with buf := advance x.buf l.payload.length } := hmoved
  rw [hy]

theorem not_answersOnce (l : Login) (hbuf : x.buf.unread = l.payload ++ rest)
    (h : ¬ MakesUser l.type.toNat l.username.1) : ¬ AnswersOnce (handle clientSocket user) x := by
  obtain ⟨typeFields, y, hserver, hrun⟩ :=
    handle_login_run clientSocket user l hbuf
  obtain ⟨e, hstop⟩ := accept_stops (f := l.fields typeFields) (s := y.server)
    clientSocket l.password.2 h
  rintro ⟨z, new, code, hok, -⟩
  rw [hrun, run_onServer, hstop] at hok
  cases hok

theorem answersOnce (l : Login) (hbuf : x.buf.unread = l.payload ++ rest)
    (h : MakesUser l.type.toNat l.username.1) : AnswersOnce (handle clientSocket user) x := by
  obtain ⟨typeFields, y, hserver, hrun⟩ :=
    handle_login_run clientSocket user l hbuf
  obtain ⟨t, new, haccept, hsent, hcode⟩ := accept_answers (f := l.fields typeFields)
    (s := y.server) clientSocket l.password.2 h
  rw [hserver] at hsent
  have hone : ∃ code, responses new = [code] := by
    rcases hcode with ⟨-, hcode⟩ | ⟨-, hcode, -⟩
    · exact ⟨1, hcode⟩
    · exact ⟨2, hcode⟩
  obtain ⟨code, hcode⟩ := hone
  exact ⟨{ y with server := t }, new, code, hrun.trans (onServer_ok.mpr ⟨t, haccept, rfl⟩), hsent,
    hcode⟩

theorem makesUser_iff (type : UInt8) (username : CxxString) :
    MakesUser type.toNat username ↔ (type = 0 ∨ type = 1) ∧ ∃ id, stoi username = .ok id := by
  have h0 : ((type.toNat : ℤ) = 0) ↔ type = 0 := by
    rw [← UInt8.toNat_inj]
    show (type.toNat : ℤ) = 0 ↔ type.toNat = 0
    omega
  have h1 : ((type.toNat : ℤ) = 1) ↔ type = 1 := by
    rw [← UInt8.toNat_inj]
    show (type.toNat : ℤ) = 1 ↔ type.toNat = 1
    omega
  rw [MakesUser, h0, h1]

/-- The bytes are a whole login packet, whatever follows it, of a type that has a class and with
a user name that begins with a number that fits. -/
def Admissible (unread : List UInt8) : Prop :=
  ∃ (l : Login) (rest : List UInt8), unread = l.payload ++ rest ∧
    (l.type = 0 ∨ l.type = 1) ∧ ∃ id, stoi l.username.1 = .ok id

/-- When the fields are read, the buffer holds a whole packet. -/
theorem exists_login {f : Fields} {y : Session} (h : readFields.run x = .ok f y) :
    ∃ (l : Login) (rest : List UInt8), x.buf.unread = l.payload ++ rest := by
  obtain ⟨k, htakes, -⟩ := readFields_follows x f y h
  rcases Layout.takes_iff.mp htakes with ⟨-, hencodes⟩ | ⟨-, hcut⟩
  · obtain ⟨l, hl⟩ := encodes_login_iff.mp hencodes
    exact ⟨l, x.buf.unread.drop k, by rw [hl]; exact (List.take_append_drop k _).symm⟩
  · exact absurd hcut (not_cutShort_login _)

/-- Any bytes in the buffer of a connection are answered cleanly as a handshake exactly when they
begin with a packet that makes a user. -/
theorem handshake_answers_once_iff (x : Session) (clientSocket : Socket) (user : Option Ptr) :
    AnswersOnce (handle clientSocket user) x ↔ Admissible x.buf.unread := by
  constructor
  · intro h
    obtain ⟨y, -, -, hrun, -⟩ := id h
    obtain ⟨f, z, hfields, -⟩ := run_bind_ok.mp hrun
    obtain ⟨l, rest, hbuf⟩ := exists_login hfields
    refine ⟨l, rest, hbuf, ?_⟩
    rw [← makesUser_iff]
    by_contra hno
    exact not_answersOnce clientSocket user l hbuf hno h
  · rintro ⟨l, rest, hbuf, hmakes⟩
    exact answersOnce clientSocket user l hbuf ((makesUser_iff _ _).mpr hmakes)

/-- A packet with this user name and nothing but zeros in its other fields. -/
def blankLogin (username : Text) (type : UInt8)
    (part : {part : List UInt8 // Layout.Encodes 0 (typeLayout type.toNat) part}) : Login where
  protoVersion := ⟨List.replicate 4 0, List.length_replicate⟩
  callSign := ⟨[], List.not_mem_nil⟩
  loginName := ⟨[], List.not_mem_nil⟩
  username := username
  password := ⟨[], List.not_mem_nil⟩
  requestTime := ⟨List.replicate 8 0, List.length_replicate⟩
  latitude := ⟨List.replicate 8 0, List.length_replicate⟩
  longitude := ⟨List.replicate 8 0, List.length_replicate⟩
  visibility := ⟨List.replicate 2 0, List.length_replicate⟩
  type := type
  first := ⟨List.replicate 3 0, List.length_replicate⟩
  second := ⟨List.replicate 3 0, List.length_replicate⟩
  typePart := part

/-- A client with nothing in its buffer but this packet. -/
def arriving (l : Login) : Session :=
  ⟨Server.initial fun _ => .zeroed, .preallocated l.payload, []⟩

theorem unread_arriving (l : Login) : (arriving l).buf.unread = l.payload ++ [] := by
  simp [arriving, unread, preallocated]

/-- A client of type 2 makes the handler follow a null pointer. -/
theorem handshake_of_unknown_type : ¬ ∀ (l : Login) (rest : List UInt8) (x : Session)
    (clientSocket : Socket) (user : Option Ptr), x.buf.unread = l.payload ++ rest →
      AnswersOnce (handle clientSocket user) x := by
  intro h
  let l := blankLogin ⟨[55], by decide⟩ 2 ⟨[], .done⟩
  refine not_answersOnce 1 none l (unread_arriving l) ?_
    (h l [] (arriving l) 1 none (unread_arriving l))
  rw [makesUser_iff]
  simp [l, blankLogin]

end Replies

section Rejections

theorem sameServer_readFields : Keeps SameServer readFields :=
  fun x => ((Frames.kept_readFields (R := Eq)).keeps x).1.symm

/-- The server after the handshake in the buffer of a connection, however its handler ends. -/
def attempt (s : Server) (clientSocket : Socket) (buf : BasicStream) : Server :=
  (finalState ((handle clientSocket (s.clientManager.getUserBySocket clientSocket)).run
    ⟨s, buf, []⟩)).server

/-- A handshake that no server answers with code 1. -/
structure Rejection where
  clientSocket : Socket
  buf : BasicStream
  rejected : ∀ s new, (attempt s clientSocket buf).sent = s.sent ++ new → 1 ∉ responses new

def Rejection.step (s : Server) (r : Rejection) : Server := attempt s r.clientSocket r.buf

variable {s : Server} {clientSocket : Socket} {buf : BasicStream}

/-- Without a user the server is left as it was. -/
theorem attempt_of_not_admissible (h : ¬ Admissible buf.unread) :
    attempt s clientSocket buf = s := by
  unfold attempt
  cases hread : readFields.run ⟨s, buf, []⟩ with
  | error e y =>
    have hsame : (finalState (readFields.run ⟨s, buf, []⟩)).server = s := sameServer_readFields _
    rw [hread] at hsame
    rw [handle, run_bind_of_error hread]
    exact hsame
  | ok f y =>
    obtain ⟨l, rest, hbuf⟩ := exists_login hread
    obtain ⟨typeFields, z, hserver, hrun⟩ := handle_login_run clientSocket
      (s.clientManager.getUserBySocket clientSocket) l hbuf
    have hno : ¬ MakesUser l.type.toNat l.username.1 := by
      rw [makesUser_iff]
      exact fun hmakes => h ⟨l, rest, hbuf, hmakes⟩
    obtain ⟨e, hstop⟩ := accept_stops (f := l.fields typeFields) (s := z.server)
      clientSocket l.password.2 hno
    rw [hrun, run_onServer, hstop]
    exact hserver

/-- With a user an index is taken, whatever becomes of the user. -/
theorem Rejection.step_of_admissible {r : Rejection} (h : Admissible r.buf.unread) :
    (r.step s).clientManager = s.clientManager.provideIndex.2 := by
  obtain ⟨l, rest, hbuf, hmakes⟩ := h
  obtain ⟨typeFields, y, hserver, hrun⟩ := handle_login_run (x := ⟨s, r.buf, []⟩)
    r.clientSocket (s.clientManager.getUserBySocket r.clientSocket) l hbuf
  obtain ⟨t, new, haccept, hsent, hcode⟩ := accept_answers (f := l.fields typeFields)
    (s := y.server) r.clientSocket l.password.2 ((makesUser_iff _ _).mpr hmakes)
  have hstep : attempt s r.clientSocket r.buf = t := by
    rw [attempt, hrun, run_onServer, haccept]
    rfl
  rw [hserver] at hsent hcode
  rcases hcode with ⟨-, hone⟩ | ⟨-, -, hmanager⟩
  · refine absurd ?_ (r.rejected s new (by rw [hstep]; exact hsent))
    rw [hone]
    exact List.mem_singleton.mpr rfl
  · rw [Rejection.step, hstep]
    exact hmanager

theorem provideIndex_eq_self_iff (cm : ClientManager) :
    cm.provideIndex.2 = cm ↔ cm.availableIndices = [] := by
  unfold ClientManager.provideIndex ClientManager.getAvailableIndex
  cases hindices : cm.availableIndices with
  | nil => simp
  | cons i rest =>
    refine iff_of_false (fun h => ?_) (by simp)
    have hlen := congrArg (fun c : ClientManager => c.availableIndices.length) h
    simp [hindices] at hlen

/-- Along any sequence of rejected handshakes the registry stays as it was exactly when its queue
of indices was empty, or no handshake made a user. -/
theorem rejections_change_nothing_iff (s : Server) (rejections : List Rejection) :
    (∀ before, before <+: rejections →
      (before.foldl Rejection.step s).clientManager = s.clientManager) ↔
    s.clientManager.availableIndices = [] ∨ ∀ r ∈ rejections, ¬ Admissible r.buf.unread := by
  have hstep : ∀ t r, True → t.clientManager = s.clientManager →
      ((Rejection.step t r).clientManager = s.clientManager ↔
        s.clientManager.availableIndices = [] ∨ ¬ Admissible r.buf.unread) := by
    intro t r _ ht
    by_cases h : Admissible r.buf.unread
    · rw [Rejection.step_of_admissible h, ht, provideIndex_eq_self_iff]
      simp [h]
    · rw [Rejection.step, attempt_of_not_admissible h]
      simp [h, ht]
  have hinv : ∀ (t : Server) (_ : Rejection), True → t.clientManager = s.clientManager → True :=
    fun _ _ _ _ => trivial
  rw [along_run_iff hinv hstep trivial rfl rejections]
  constructor
  · intro hall
    by_cases hempty : s.clientManager.availableIndices = []
    · exact Or.inl hempty
    · refine Or.inr fun r hr => ?_
      obtain ⟨before, after, rfl⟩ := List.append_of_mem hr
      exact (hall before r ⟨after, by simp⟩).resolve_left hempty
  · rintro (hempty | hall) before r hpre
    · exact Or.inl hempty
    · exact Or.inr (hall r (hpre.subset (by simp)))

/-- A packet of another protocol version is rejected. -/
theorem not_one_of_version (l : Login) {rest : List UInt8} (hbuf : buf.unread = l.payload ++ rest)
    (hversion : toInt32 (Int.ofNat (beNat l.protoVersion.1)) ≠ protoVersion) (new : List Sent)
    (hsent : (attempt s clientSocket buf).sent = s.sent ++ new) : 1 ∉ responses new := by
  by_cases h : MakesUser l.type.toNat l.username.1
  · obtain ⟨typeFields, y, hserver, hrun⟩ := handle_login_run (x := ⟨s, buf, []⟩)
      clientSocket (s.clientManager.getUserBySocket clientSocket) l hbuf
    obtain ⟨t, new', haccept, hsent', hcode⟩ := accept_answers (f := l.fields typeFields)
      (s := y.server) clientSocket l.password.2 h
    have hstep : attempt s clientSocket buf = t := by
      rw [attempt, hrun, run_onServer, haccept]
      rfl
    rw [hstep, hsent', hserver] at hsent
    obtain rfl := List.append_cancel_left hsent
    rcases hcode with ⟨hone, -⟩ | ⟨-, hcode, -⟩
    · simp only [Login.fields] at hone
      exact absurd hone hversion
    · rw [hcode]
      decide
  · obtain ⟨typeFields, y, hserver, hrun⟩ := handle_login_run (x := ⟨s, buf, []⟩)
      clientSocket (s.clientManager.getUserBySocket clientSocket) l hbuf
    obtain ⟨e, hstop⟩ := accept_stops (f := l.fields typeFields) (s := y.server)
      clientSocket l.password.2 h
    have hstep : attempt s clientSocket buf = s := by
      rw [attempt, hrun, run_onServer, hstop]
      exact hserver
    rw [hstep] at hsent
    obtain rfl : new = [] := List.append_cancel_left (hsent.symm.trans (List.append_nil _).symm)
    exact List.not_mem_nil

/-- A controller with protocol version 0. -/
def oldController : Login :=
  blankLogin ⟨[55], by decide⟩ 0 ⟨[1, 1], encodes_bytes_iff.mpr ⟨⟨[1], rfl⟩, [1],
    encodes_bytes_iff.mpr ⟨⟨[1], rfl⟩, [], .done, rfl⟩, rfl⟩⟩

def oldVersion : Rejection where
  clientSocket := 1
  buf := .preallocated oldController.payload
  rejected _ new hsent := not_one_of_version oldController (unread_arriving oldController)
    (by decide +kernel) new hsent

/-- A client of another protocol version costs an index. -/
theorem rejection_takes_index : ¬ ∀ (s : Server) (r : Rejection),
    (r.step s).clientManager = s.clientManager := by
  intro h
  have hstep := h (Server.initial fun _ => .zeroed) oldVersion
  have hadmissible : Admissible oldVersion.buf.unread :=
    ⟨oldController, [], unread_arriving oldController, Or.inl rfl, 7, rfl⟩
  rw [Rejection.step_of_admissible hadmissible, provideIndex_eq_self_iff] at hstep
  exact absurd hstep (by decide +kernel)

end Rejections

end Win64Server.HandshakeOutcomes
