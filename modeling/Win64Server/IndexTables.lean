import Win64Server.IndexPool
import Win64Server.Replica

/-!
Which user an index means. A message names the user it is about by the two bytes of an index, and
the index of a user that is gone is handed out again. A client can only keep the users it is told of
in a table by these bytes, and the table tells them apart as long as each login finds a connection
without a user and an index, and whoever leaves sees everyone that has been told of it.
-/
namespace Win64Server.IndexTables

open Outcome Library Server Frames VisibleSets Permissions PositionClock TwoMemories ServerSteps
  PassMessages Standing Faults Replica
open Registry (login_availableIndices pooled_start freeInRange_start)

/-- The bytes that a message names a user by. -/
def indexBytes (u : User) : List UInt8 := beBytes 2 u.index

/-- What a message makes of the table of `user`. -/
def tabulate (user : Ptr) (table : List UInt8 → Option Ptr) (e : Sent) :
    List UInt8 → Option Ptr :=
  if e.recipient = user then
    match e.message with
    | .createClient about r => Function.update table (indexBytes r) (some about)
    | .deleteClient _ r => Function.update table (indexBytes r) none
    | _ => table
  else table

/-- The table of a client after the messages it has been sent. -/
def indexTable (user : Ptr) (sent : List Sent) : List UInt8 → Option Ptr :=
  sent.foldl (tabulate user) fun _ => none

section Messages

variable {key : Ptr → List UInt8} {S : Set Ptr} {e : Sent} (user : Ptr)

/-- If it is one of the messages that a table is made from, it is about somebody in `S`, under its
key. -/
def Names (key : Ptr → List UInt8) (S : Set Ptr) (e : Sent) : Prop :=
  match e.message with
  | .createClient about r | .deleteClient about r => about ∈ S ∧ indexBytes r = key about
  | _ => True

theorem names_of_neither (h : ∀ user other, Neither user other e) : Names key S e := by
  obtain ⟨recipient, message⟩ := e
  obtain ⟨hcreate, -⟩ := h recipient (message.about.getD 0)
  obtain ⟨-, hdelete⟩ := h recipient (message.about.getD 0)
  cases message with
  | createClient about r => exact absurd hcreate (by simp [isCreate, Outgoing.about])
  | deleteClient about r => exact absurd hdelete (by simp [isDelete, Outgoing.about])
  | _ => trivial

/-- The table and the set of known users after one more message. -/
theorem tabulate_step (hinj : Set.InjOn key S) (hnames : Names key S e) {known : Ptr → Bool}
    {table : List UInt8 → Option Ptr} (hknown : ∀ a, known a = true → a ∈ S)
    (h : Tabulates key {a | known a = true} table) :
    (∀ a, learn user a (known a) e = true → a ∈ S) ∧
      Tabulates key {a | learn user a (known a) e = true} (tabulate user table e) := by
  obtain ⟨recipient, message⟩ := e
  have hsame (hlearn : ∀ a, learn user a (known a) ⟨recipient, message⟩ = known a)
      (htable : tabulate user table ⟨recipient, message⟩ = table) :
      (∀ a, learn user a (known a) ⟨recipient, message⟩ = true → a ∈ S) ∧
        Tabulates key {a | learn user a (known a) ⟨recipient, message⟩ = true}
          (tabulate user table ⟨recipient, message⟩) := by
    simp only [hlearn, htable]
    exact ⟨hknown, h⟩
  by_cases hrecipient : recipient = user
  · subst hrecipient
    cases message with
    | createClient about r =>
      obtain ⟨habout, hkey⟩ := hnames
      have hlearn (a : Ptr) :
          learn recipient a (known a) ⟨recipient, .createClient about r⟩ = true ↔
            a ∈ insert about {a | known a = true} := by
        by_cases ha : a = about
        · simp [learn, isCreate, ha]
        · simp [learn, isCreate, isDelete, ha, Ne.symm ha]
      have htable : tabulate recipient table ⟨recipient, .createClient about r⟩ =
          Function.update table (key about) (some about) := by
        rw [tabulate, if_pos rfl, ← hkey]
      refine ⟨fun a ha => ?_, ?_⟩
      · rcases (hlearn a).mp ha with rfl | ha
        · exact habout
        · exact hknown a ha
      · simp only [hlearn, htable]
        exact h.insert hinj hknown habout
    | deleteClient about r =>
      obtain ⟨habout, hkey⟩ := hnames
      have hlearn (a : Ptr) :
          learn recipient a (known a) ⟨recipient, .deleteClient about r⟩ = true ↔
            a ∈ {a | known a = true} \ {about} := by
        by_cases ha : a = about
        · simp [learn, isCreate, isDelete, ha]
        · simp [learn, isCreate, isDelete, ha, Ne.symm ha]
      have htable : tabulate recipient table ⟨recipient, .deleteClient about r⟩ =
          Function.update table (key about) none := by
        rw [tabulate, if_pos rfl, ← hkey]
      refine ⟨fun a ha => hknown a ((hlearn a).mp ha).1, ?_⟩
      simp only [hlearn, htable]
      exact h.erase hinj hknown habout
    | _ => exact hsame (fun _ => rfl) (if_pos rfl)
  · refine hsame (fun a => ?_) (if_neg hrecipient)
    cases message <;> simp [learn, isCreate, isDelete, hrecipient]

theorem tabulate_foldl (hinj : Set.InjOn key S) {new : List Sent}
    (hnames : ∀ e ∈ new, Names key S e) {known : Ptr → Bool}
    {table : List UInt8 → Option Ptr} (hknown : ∀ a, known a = true → a ∈ S)
    (h : Tabulates key {a | known a = true} table) :
    (∀ a, new.foldl (learn user a) (known a) = true → a ∈ S) ∧
      Tabulates key {a | new.foldl (learn user a) (known a) = true}
        (new.foldl (tabulate user) table) := by
  induction new generalizing known table with
  | nil => exact ⟨hknown, h⟩
  | cons e new ih =>
    obtain ⟨hfirst, hrest⟩ := List.forall_mem_cons.mp hnames
    obtain ⟨hknown', h'⟩ := tabulate_step user hinj hfirst hknown h
    exact ih hrest hknown' h'

/-- Not a message that tells `user` of anybody. -/
def Silent (user : Ptr) (e : Sent) : Prop := e.recipient = user → e.message.about = none

variable {user} {other : Ptr} {sent : List Sent}

theorem silent_learn (h : ∀ e ∈ sent, Silent user e) {known : Bool} :
    sent.foldl (learn user other) known = known := by
  induction sent generalizing known with
  | nil => rfl
  | cons e sent ih =>
    obtain ⟨hfirst, hrest⟩ := List.forall_mem_cons.mp h
    have hlearn : learn user other known e = known := by
      obtain ⟨recipient, message⟩ := e
      by_cases hrecipient : recipient = user
      · have habout := hfirst hrecipient
        cases message <;> first | rfl | cases habout
      · cases message <;> simp [learn, isCreate, isDelete, hrecipient]
    rw [List.foldl_cons, hlearn]
    exact ih hrest

theorem silent_tabulate (h : ∀ e ∈ sent, Silent user e) {table : List UInt8 → Option Ptr} :
    sent.foldl (tabulate user) table = table := by
  induction sent generalizing table with
  | nil => rfl
  | cons e sent ih =>
    obtain ⟨hfirst, hrest⟩ := List.forall_mem_cons.mp h
    have htabulate : tabulate user table e = table := by
      obtain ⟨recipient, message⟩ := e
      by_cases hrecipient : recipient = user
      · have habout := hfirst hrecipient
        rw [tabulate, if_pos hrecipient]
        cases message <;> first | rfl | cases habout
      · exact if_neg hrecipient
    rw [List.foldl_cons, htabulate]
    exact ih hrest

end Messages

/-- What the client of `user` knows, and what its table has. -/
structure Readable (s : Server) (user : Ptr) : Prop where
  known : ∀ a, knows user a s.sent = true → a ∈ s.clientManager.users
  table : Tabulates (fun a => indexBytes (s.heap a)) {a | knows user a s.sent = true}
    (indexTable user s.sent)

/-- Connected users have different indices, see only connected users, and can read the indices in
the messages they get. -/
structure Regular (s : Server) : Prop where
  registry : s.registry.Sound
  pooled : s.registry.Pooled
  free : s.registry.FreeInRange
  locals : ∀ p ∈ s.clientManager.users, ∀ v ∈ (s.heap p).localUsers, v ∈ s.clientManager.users
  readable : ∀ p ∈ s.clientManager.users, Readable s p

section Indices

variable {s t : Server}

theorem indexBytes_injOn (h : s.registry.Pooled) :
    Set.InjOn (fun a => indexBytes (s.heap a)) {a | a ∈ s.clientManager.users} := by
  intro a ha b hb hbytes
  obtain ⟨c, hc⟩ := ClientManager.mem_users.mp ha
  obtain ⟨c', hc'⟩ := ClientManager.mem_users.mp hb
  by_contra hne
  have hindex : (s.heap a).index ≠ (s.heap b).index := h.distinct c c' a b hc hc' hne
  have harange : 0 ≤ (s.heap a).index ∧ (s.heap a).index < maxClients := h.inRange c a hc
  have hbrange : 0 ≤ (s.heap b).index ∧ (s.heap b).index < maxClients := h.inRange c' b hc'
  have hshort : (s.heap a).index % 256 ^ 2 = (s.heap b).index % 256 ^ 2 := by
    rw [← beNat_beBytes, ← beNat_beBytes]
    exact congrArg (fun bytes => (beNat bytes : ℤ)) hbytes
  simp only [maxClients] at harange hbrange
  omega

theorem id_of_standing {u v : User} (h : standing u = standing v) : u.id = v.id := by
  have hid : (standing u).id = (standing v).id := by rw [h]
  exact hid

theorem index_of_standing {u v : User} (h : standing u = standing v) : u.index = v.index := by
  have hindex : (standing u).index = (standing v).index := by rw [h]
  exact hindex

/-- The same users under the same indices, and messages that name them by these. -/
structure Follows (s t : Server) : Prop where
  next : t.next = s.next
  clientManager : t.clientManager = s.clientManager
  standing : Same standing s t
  locals : ∀ p ∈ s.clientManager.users, ∀ v ∈ (t.heap p).localUsers, v ∈ s.clientManager.users
  sent : ∃ new, t.sent = s.sent ++ new ∧ ∀ e ∈ new,
    Names (fun a => indexBytes (s.heap a)) {a | a ∈ s.clientManager.users} e

theorem Readable.append {user : Ptr} (h : Readable s user) (hpooled : s.registry.Pooled)
    {new : List Sent} (hnames : ∀ e ∈ new,
      Names (fun a => indexBytes (s.heap a)) {a | a ∈ s.clientManager.users} e) :
    (∀ a, knows user a (s.sent ++ new) = true → a ∈ s.clientManager.users) ∧
      Tabulates (fun a => indexBytes (s.heap a)) {a | knows user a (s.sent ++ new) = true}
        (indexTable user (s.sent ++ new)) := by
  have hfold := tabulate_foldl user (indexBytes_injOn hpooled) hnames h.known h.table
  simp only [knows, indexTable, List.foldl_append]
  exact hfold

theorem Follows.sound (h : Follows s t) (hs : s.registry.Sound) : t.registry.Sound := by
  have hkey {κ : Type} [DecidableEq κ] {index : AList fun _ : κ => Ptr} {key : User → κ}
      (hkey : ∀ u v, Standing.standing u = Standing.standing v → key u = key v)
      (hfiled : s.registry.Filed index key) : t.registry.Filed index key := by
    intro k u hu
    obtain ⟨hk, hlt⟩ := hfiled k u hu
    exact ⟨(hkey _ _ (h.standing u)).trans hk, Nat.lt_of_lt_of_eq hlt h.next.symm⟩
  have hmanager : t.registry.manager = s.registry.manager := h.clientManager
  refine ⟨?_, ?_, ?_, ?_, ?_⟩
  · rw [hmanager]
    exact hs.once
  · rw [hmanager, show t.registry.next = s.registry.next from h.next]
    exact hs.old
  · rw [hmanager]
    exact hkey (fun u v huv => id_of_standing huv) hs.byId
  · rw [hmanager]
    exact hkey (fun u v huv => index_of_standing huv) hs.byIndex
  · rw [hmanager]
    exact hkey (fun u v huv => callsign_of_standing huv) hs.byCallsign

theorem Follows.pooled (h : Follows s t) (hs : s.registry.Pooled) : t.registry.Pooled := by
  have hindex (u : Ptr) : (t.registry.heap u).index = (s.registry.heap u).index :=
    index_of_standing (h.standing u)
  have hmanager : t.registry.manager = s.registry.manager := h.clientManager
  refine ⟨?_, ?_, ?_, ?_⟩
  · simp only [hmanager, hindex]
    exact hs.distinct
  · simp only [hmanager, hindex]
    exact hs.inRange
  · rw [hmanager]
    exact hs.nodup
  · simp only [hmanager, hindex]
    exact hs.apart

theorem Regular.follows (h : Regular s) (hst : Follows s t) : Regular t := by
  obtain ⟨new, hsent, hnames⟩ := hst.sent
  have hkey : (fun a => indexBytes (t.heap a)) = fun a => indexBytes (s.heap a) := by
    funext a
    rw [indexBytes, indexBytes, index_of_standing (hst.standing a)]
  refine ⟨hst.sound h.registry, hst.pooled h.pooled, ?_, ?_, fun p hp => ?_⟩
  · rw [Registry.FreeInRange, show t.registry.manager = s.registry.manager from hst.clientManager]
    exact h.free
  · rw [hst.clientManager]
    exact hst.locals
  · rw [hst.clientManager] at hp
    obtain ⟨hknown, htable⟩ := (h.readable p hp).append h.pooled hnames
    constructor
    · rw [hsent, hst.clientManager]
      exact hknown
    · rw [hkey, hsent]
      exact htable

end Indices

section Events

variable {s t : Server} {clientSocket : Socket} {user : Ptr}

theorem follows_packet (h : Regular s) (env : Environment) (clientSocket : Socket) {id : ℕ}
    (hlogin : id ≠ 45) (buf : BasicStream) :
    Follows s (serve env s (.packet clientSocket id buf)) := by
  have hacted := packet_served env s clientSocket hlogin buf
  have hsame := unwritten_of_permission hacted
  obtain ⟨new, hsent, htells⟩ := hacted.sent
  refine ⟨hacted.next, hacted.clientManager, fun p => standing_of_unwritten (hsame p),
    fun p hp v hv => ?_, new, hsent, fun e he => ?_⟩
  · rw [← unwritten_localUsers, hsame, unwritten_localUsers] at hv
    exact h.locals p hp v hv
  · obtain ⟨u, -, htell⟩ := htells e he
    exact names_of_neither (neither_of_mayTell htell)

theorem names_of_told {e : Sent} (h : Told standing (· ∈ s.clientManager.users) s e) :
    Names (fun a => indexBytes (s.heap a)) {a | a ∈ s.clientManager.users} e := by
  obtain ⟨recipient, message⟩ := e
  obtain ⟨time, hmessage⟩ | ⟨about, habout, u, hu, hspeaks⟩ := h.content
  · obtain rfl : message = _ := hmessage
    trivial
  · have hbytes : indexBytes u = indexBytes (s.heap about) := by
      rw [indexBytes, indexBytes, index_of_standing hu]
    cases hspeaks with
    | createClient => exact ⟨habout, hbytes⟩
    | deleteClient => exact ⟨habout, hbytes⟩
    | _ => trivial

theorem follows_of_fine (h : Fine standing (· ∈ s.clientManager.users) s t) : Follows s t := by
  obtain ⟨new, hsent, htold⟩ := h.sent
  exact ⟨h.next, h.clientManager, h.users, h.locals, new, hsent,
    fun e he => names_of_told (htold e he)⟩

theorem follows_pass (h : Regular s) (env : Environment) : Follows s (serve env s .pass) :=
  follows_of_fine ((stays_globalUpdate untouched_standing env fun _ hv => hv).keeps s
    (fine_self h.locals))

/-- Nobody has been told of anyone new. -/
def NoCreate (s t : Server) : Prop :=
  ∃ new, t.sent = s.sent ++ new ∧ ∀ e ∈ new, ∀ user other, isCreate user other e = false

instance : Std.Refl NoCreate :=
  ⟨fun s => ⟨[], (List.append_nil s.sent).symm, fun _ he => absurd he List.not_mem_nil⟩⟩

instance : IsTrans Server NoCreate where
  trans s t r h h' := by
    obtain ⟨new, hsent, hnew⟩ := h
    obtain ⟨new', hsent', hnew'⟩ := h'
    exact ⟨new ++ new', by rw [hsent', hsent, List.append_assoc],
      List.forall_mem_append.mpr ⟨hnew, hnew'⟩⟩

theorem noCreate_of_aside (h : Aside s t) : NoCreate s t := by
  obtain ⟨new, hsent, hplain⟩ := h.sent
  exact ⟨new, hsent, fun e he user other => ((hplain e he).1 user other).1⟩

instance kept_noCreate_farewell (env : Environment) (user other : Ptr) :
    Kept NoCreate (Departure.farewell env user other) := by
  have hdelete : Kept NoCreate (Server.deleteClient other user) :=
    ⟨fun s => ⟨[_], rfl, List.forall_mem_singleton.mpr fun _ _ => rfl⟩⟩
  have herase : Kept NoCreate
      (updateUser other fun o => { o with localUsers := o.localUsers.erase user }) :=
    ⟨fun s => ⟨[], (List.append_nil s.sent).symm, fun _ he => absurd he List.not_mem_nil⟩⟩
  have hadjust : Kept NoCreate (adjustTime env other) :=
    ⟨fun s => noCreate_of_aside ((kept_aside_adjustTime env other).keeps s)⟩
  unfold Departure.farewell
  infer_instance

theorem notices_eq_countP (about user : Ptr) (sent : List Sent) :
    Departure.notices about sent user = sent.countP (isDelete user about) := by
  rw [Departure.notices]
  congr 1
  funext e
  obtain ⟨recipient, message⟩ := e
  cases message <;> simp [Departure.isDelete, isDelete]

/-- The loop of a departure: whoever is in the set of the leaving user is told and loses it, and
nobody else is told anything new. -/
theorem farewell_forgets {env : Environment} {m : Server} (hfaithful : Faithful s)
    (hsees : ∀ p ∈ s.clientManager.users, knows p user s.sent = true →
      p ∈ (s.heap user).localUsers)
    (hloop : (iterateLocalUsers env user (Departure.farewell env user)).run s = .ok () m)
    {p : Ptr} (hp : p ∈ s.clientManager.users) :
    user ∉ (m.heap p).localUsers ∧ knows p user m.sent = false := by
  let order := env.arrange s.ticks (s.heap user).localUsers.keys
  obtain ⟨m', hrun, hcleans⟩ :=
    Departure.forM_farewell_cleans env user order { s with ticks := s.ticks + 1 }
  have hiterate : (iterateLocalUsers env user (Departure.farewell env user)).run s = .ok () m' :=
    hrun
  obtain rfl : m' = m := by
    rw [hiterate] at hloop
    cases hloop
    rfl
  have hkept : Kept NoCreate (iterateLocalUsers env user (Departure.farewell env user)) := by
    have harranged (users : List Ptr) : Kept NoCreate (arranged env users) :=
      ⟨fun s => noCreate_of_aside (aside_ticks s _)⟩
    have hget : Kept NoCreate (getUser user) := ⟨fun s => Std.Refl.refl s⟩
    unfold iterateLocalUsers
    infer_instance
  obtain ⟨new, hsent, hnew⟩ := hkept.keeps.ok hloop
  have hcreate : new.countP (isCreate p user) = 0 :=
    List.countP_eq_zero.mpr fun e he => by simp [hnew e he p user]
  have hcounted : (order.count p ≠ 0) ↔ p ∈ (s.heap user).localUsers := by
    rw [(env.arrange_perm _ _).count_eq, ← Nat.pos_iff_ne_zero, List.count_pos_iff, AList.mem_keys]
  by_cases hmember : p ∈ (s.heap user).localUsers
  · have hcount := hcounted.mpr hmember
    have hdelete : new.countP (isDelete p user) ≠ 0 := by
      have hnotices := hcleans.notices p
      rw [notices_eq_countP, notices_eq_countP, hsent, List.countP_append] at hnotices
      dsimp only at hnotices
      omega
    refine ⟨fun hmem => hcount ((hcleans.sees p).mp hmem).2, ?_⟩
    rw [knows, hsent, List.foldl_append]
    exact foldl_learn_delete hcreate hdelete
  · have hunknown : knows p user s.sent = false :=
      Bool.not_eq_true _ ▸ fun hknows => hmember (hsees p hp hknows)
    constructor
    · intro hmem
      have hseen : user ∈ (s.heap p).localUsers := ((hcleans.sees p).mp hmem).1
      exact hmember (hsees p hp ((hfaithful p user).seen hseen))
    · by_cases hdelete : new.countP (isDelete p user) = 0
      · rw [knows, hsent, List.foldl_append, foldl_learn_neither hcreate hdelete]
        exact hunknown
      · rw [knows, hsent, List.foldl_append]
        exact foldl_learn_delete hcreate hdelete

theorem mem_users_remove (h : s.registry.Sound)
    (hsocket : s.clientManager.getUserBySocket clientSocket = some user) {v : Ptr} :
    v ∈ (s.clientManager.removeUser clientSocket s.heap).users ↔
      v ∈ s.clientManager.users ∧ v ≠ user := by
  have hclients : (s.clientManager.removeUser clientSocket s.heap).clients =
      s.clientManager.clients.erase clientSocket := by
    rw [ClientManager.removeUser, show s.clientManager.clients.lookup clientSocket = some user from
      hsocket]
  rw [ClientManager.mem_users, ClientManager.mem_users, hclients]
  constructor
  · rintro ⟨c, hc⟩
    obtain ⟨hne, hold⟩ := lookup_erase_iff.mp hc
    exact ⟨⟨c, hold⟩, fun hv => hne (h.once c clientSocket user (hv ▸ hold) hsocket)⟩
  · rintro ⟨⟨c, hc⟩, hne⟩
    refine ⟨c, lookup_erase_iff.mpr ⟨fun heq => hne ?_, hc⟩⟩
    rw [heq, show s.clientManager.clients.lookup clientSocket = some user from hsocket] at hc
    exact (Option.some.inj hc).symm

/-- A user that nobody knows and sees any more is taken out of the registry. -/
theorem Regular.remove (h : Regular s)
    (hsocket : s.clientManager.getUserBySocket clientSocket = some user)
    (hforgotten : ∀ p ∈ s.clientManager.users,
      user ∉ (s.heap p).localUsers ∧ knows p user s.sent = false) :
    Regular { s with clientManager := s.clientManager.removeUser clientSocket s.heap } := by
  have hmem {v : Ptr} := @mem_users_remove s clientSocket user h.registry hsocket v
  refine ⟨h.registry.remove, h.pooled.remove h.registry,
    h.free.step h.pooled (.remove clientSocket), fun p hp v hv => ?_, fun p hp => ?_⟩
  · obtain ⟨hp, -⟩ := hmem.mp hp
    exact hmem.mpr ⟨h.locals p hp v hv, fun heq => (hforgotten p hp).1 (heq ▸ hv)⟩
  · obtain ⟨hp, -⟩ := hmem.mp hp
    obtain ⟨hknown, htable⟩ := h.readable p hp
    refine ⟨fun a ha => hmem.mpr ⟨hknown a ha, ?_⟩, htable⟩
    rintro rfl
    rw [(hforgotten p hp).2] at ha
    cases ha

theorem Regular.disconnect (h : Regular s) (hfaithful : Faithful s) (env : Environment)
    (hsees : ∀ user, s.clientManager.getUserBySocket clientSocket = some user →
      ∀ p ∈ s.clientManager.users, knows p user s.sent = true → p ∈ (s.heap user).localUsers) :
    Regular (serve env s (.disconnect clientSocket)) := by
  rcases disconnect_served env s clientSocket with hsame | ⟨user, m, hsocket, hloop, hserve⟩
  · rw [hsame]
    exact h
  · have huser : user ∈ s.clientManager.users := ClientManager.mem_users.mpr ⟨clientSocket, hsocket⟩
    have hkept : Kept (Stays standing (· ∈ s.clientManager.users) s)
        (iterateLocalUsers env user (Departure.farewell env user)) :=
      stays_iterateLocalUsers (M := (· ∈ s.clientManager.users)) env huser fun other hother =>
        stays_farewell untouched_standing env huser hother
    have hfollows := follows_of_fine (hkept.keeps.ok hloop (fine_self h.locals))
    have hm : Regular m := h.follows hfollows
    have hsocket' : m.clientManager.getUserBySocket clientSocket = some user := by
      rw [hfollows.clientManager]
      exact hsocket
    rw [hserve]
    refine hm.remove hsocket' fun p hp => ?_
    rw [hfollows.clientManager] at hp
    exact farewell_forgets hfaithful (hsees user hsocket) hloop hp

theorem refuse_sound {r : Registry} (h : r.Sound) (user : User) : (refuse r user).Sound := by
  obtain ⟨hclients, hid, hindex, hcallsign⟩ := r.provideIndex_maps
  have hfiled {κ : Type} [DecidableEq κ] {index : AList fun _ : κ => Ptr} {key : User → κ}
      (hfiled : r.Filed index key) : (refuse r user).Filed index key := by
    intro k u hu
    obtain ⟨hkey, hlt⟩ := hfiled k u hu
    refine ⟨?_, Nat.lt_succ_of_lt hlt⟩
    rw [show (refuse r user).heap u = r.heap u from Function.update_of_ne (Nat.ne_of_lt hlt) ..]
    exact hkey
  refine ⟨?_, ?_, ?_, ?_, ?_⟩
  · rw [show (refuse r user).manager.clients = r.manager.clients from hclients]
    exact h.once
  · rw [show (refuse r user).manager.clients = r.manager.clients from hclients]
    exact fun c u hu => Nat.lt_succ_of_lt (h.old c u hu)
  · rw [show (refuse r user).manager.usersById = r.manager.usersById from hid]
    exact hfiled h.byId
  · rw [show (refuse r user).manager.usersByIndex = r.manager.usersByIndex from hindex]
    exact hfiled h.byIndex
  · rw [show (refuse r user).manager.usersByCallsign = r.manager.usersByCallsign from hcallsign]
    exact hfiled h.byCallsign

theorem refuse_availableIndices (r : Registry) (user : User) :
    (refuse r user).manager.availableIndices = r.manager.availableIndices.tail :=
  login_availableIndices r 0 user

theorem refuse_pooled {r : Registry} (hsound : r.Sound) (h : r.Pooled) (user : User) :
    (refuse r user).Pooled := by
  have hclients : (refuse r user).manager.clients = r.manager.clients := r.provideIndex_maps.1
  have hheap {c : Socket} {u : Ptr} (hu : r.manager.clients.lookup c = some u) :
      (refuse r user).heap u = r.heap u :=
    Function.update_of_ne (Nat.ne_of_lt (hsound.old c u hu)) ..
  refine ⟨fun c c' u u' hu hu' hne => ?_, fun c u hu => ?_, ?_, fun c u hu => ?_⟩
  · rw [hclients] at hu hu'
    rw [hheap hu, hheap hu']
    exact h.distinct c c' u u' hu hu' hne
  · rw [hclients] at hu
    rw [hheap hu]
    exact h.inRange c u hu
  · rw [refuse_availableIndices]
    exact h.nodup.sublist (List.tail_sublist _)
  · rw [hclients] at hu
    rw [hheap hu, refuse_availableIndices]
    exact fun hmem => h.apart c u hu (List.mem_of_mem_tail hmem)

/-- A login on a connection without a user, which finds an index. -/
theorem Regular.joined (h : Regular s) (hsound : Standing.Sound s)
    (hjoined : Joined clientSocket s t)
    (hfree : s.clientManager.getUserBySocket clientSocket = none)
    (hindices : s.clientManager.availableIndices ≠ []) : Regular t := by
  obtain ⟨new, hsent, hgreeting⟩ := hjoined.sent
  have hregistry : t.registry.Sound ∧ t.registry.Pooled ∧ t.registry.FreeInRange := by
    obtain ⟨user, hlogin | hrefuse⟩ := hjoined.registry
    · rw [hlogin]
      exact ⟨h.registry.login, (h.pooled.login_iff h.registry h.free).mpr hindices,
        h.free.step h.pooled (.login clientSocket user)⟩
    · rw [hrefuse]
      refine ⟨refuse_sound h.registry user, refuse_pooled h.registry h.pooled user, fun i hi => ?_⟩
      rw [refuse_availableIndices] at hi
      exact h.free i (List.mem_of_mem_tail hi)
  have hmem {v : Ptr} (hv : v ∈ s.clientManager.users) : v ∈ t.clientManager.users := by
    obtain ⟨c, hc⟩ := ClientManager.mem_users.mp hv
    refine ClientManager.mem_users.mpr ⟨c, ?_⟩
    rcases hjoined.clients c with hsame | ⟨heq, -⟩
    · exact hsame.trans hc
    · rw [heq, show s.clientManager.clients.lookup clientSocket = none from hfree] at hc
      cases hc
  have hcases {p : Ptr} (hp : p ∈ t.clientManager.users) :
      p = s.next ∨ p ∈ s.clientManager.users := by
    obtain ⟨c, hc⟩ := ClientManager.mem_users.mp hp
    rcases hjoined.clients c with hsame | ⟨-, hnew⟩
    · exact Or.inr (ClientManager.mem_users.mpr ⟨c, hsame.symm.trans hc⟩)
    · exact Or.inl (Option.some.inj (hc.symm.trans hnew))
  refine ⟨hregistry.1, hregistry.2.1, hregistry.2.2, fun p hp v hv => ?_, fun p hp => ?_⟩
  · rcases hcases hp with rfl | hold
    · rw [hjoined.new.localUsers] at hv
      exact absurd hv (AList.notMem_empty v)
    · rw [hjoined.old p (Nat.ne_of_lt (hsound.users p hold))] at hv
      exact hmem (h.locals p hold v hv)
  · obtain ⟨hknows, htable⟩ : (∀ a, knows p a t.sent = knows p a s.sent) ∧
        indexTable p t.sent = indexTable p s.sent := by
      have hsilent : ∀ e ∈ new, Silent p e := fun e he _ => (hgreeting e he).2.1
      simp only [knows, indexTable, hsent, List.foldl_append, silent_learn hsilent,
        silent_tabulate hsilent, implies_true, and_self]
    rcases hcases hp with rfl | hold
    · have hsilent : ∀ e ∈ s.sent, Silent s.next e := fun e he hrecipient =>
        absurd hrecipient (Nat.ne_of_lt (hsound.sent e he).recipient)
      have hunknown (a : Ptr) : knows s.next a t.sent = false :=
        (hknows a).trans (silent_learn hsilent)
      refine ⟨fun a ha => ?_, fun k a => ?_⟩
      · rw [hunknown] at ha
        cases ha
      · rw [htable, indexTable, silent_tabulate hsilent]
        simp [hunknown]
    · obtain ⟨hknown, hold'⟩ := h.readable p hold
      refine ⟨fun a ha => hmem (hknown a (hknows a ▸ ha)), ?_⟩
      simp only [hknows, htable]
      refine hold'.congr fun a ha => ?_
      rw [hjoined.old a (Nat.ne_of_lt (hsound.users a (hknown a ha)))]

end Events

section Runs

/-- A login comes on a connection without a user and finds an index, and a user that leaves sees
everyone that has been told of it. -/
def Clean (s : Server) (e : Environment × Event) : Prop :=
  match e.2 with
  | .packet clientSocket id _ =>
    id = 45 → s.clientManager.getUserBySocket clientSocket = none ∧
      s.clientManager.availableIndices ≠ []
  | .disconnect clientSocket =>
    ∀ user ∈ s.clientManager.getUserBySocket clientSocket, ∀ p ∈ s.clientManager.users,
      knows p user s.sent = true → p ∈ (s.heap user).localUsers
  | .pass => True

instance (s : Server) (e : Environment × Event) : Decidable (Clean s e) := by
  unfold Clean
  split <;> infer_instance

theorem Regular.serve {s : Server} (h : Regular s) (hsound : Standing.Sound s)
    (hfaithful : Faithful s) {env : Environment} {e : Event} (hclean : Clean s (env, e)) :
    Regular (TwoMemories.serve env s e) := by
  cases e with
  | packet clientSocket id buf =>
    by_cases hlogin : id = 45
    · obtain ⟨hfree, hindices⟩ := hclean hlogin
      subst hlogin
      rcases login_served env s clientSocket buf with hsame | hjoined
      · rw [hsame]
        exact h
      · exact h.joined hsound hjoined hfree hindices
    · exact h.follows (follows_packet h env clientSocket hlogin buf)
  | disconnect clientSocket => exact h.disconnect hfaithful env hclean
  | pass => exact h.follows (follows_pass h env)

theorem regular_initial (storage : Ptr → Storage) : Regular (.initial storage) where
  registry := ⟨nofun, nofun, nofun, nofun, nofun⟩
  pooled := ⟨nofun, nofun, pooled_start.nodup, nofun⟩
  free := freeInRange_start
  locals _ hp := absurd hp List.not_mem_nil
  readable _ hp := absurd hp List.not_mem_nil

/-- All that holds along such a run. -/
structure Steady (s : Server) : Prop where
  sound : Standing.Sound s
  equipped : AllEquipped s
  faithful : Faithful s
  regular : Regular s

theorem Steady.serve {s : Server} (h : Steady s) {e : Environment × Event} (hclean : Clean s e) :
    Steady (TwoMemories.serve e.1 s e.2) where
  sound := (h.sound.serve e.1 e.2).1
  equipped := h.equipped.serve e.1 e.2
  faithful := h.faithful.serve h.sound h.equipped e.1 e.2
  regular := h.regular.serve h.sound h.faithful hclean

theorem steady_initial (storage : Ptr → Storage) : Steady (.initial storage) where
  sound := sound_initial storage
  equipped := equipped_initial storage
  faithful := faithful_initial storage
  regular := regular_initial storage

theorem steady_run {s : Server} {events : List (Environment × Event)}
    (hclean : EachStep (fun s e => serve e.1 s e.2) Clean s events) (h : Steady s) :
    Steady (events.foldl (fun s e => serve e.1 s e.2) s) :=
  (EachStep.run (fun _ _ h he => h.serve he) (fun _ _ _ he => he) h hclean).2

/-- In every run in which logins come on connections without a user and find an index, and whoever
leaves sees everyone that has been told of it, a client that keeps the users it is told of by the
index bytes of the messages finds each of its local users at that user's bytes, and finds nobody
else there but a connected user with a script that cannot be sent. -/
theorem tables_tell_apart (storage : Ptr → Storage) {events : List (Environment × Event)}
    (hclean : EachStep (fun s e => serve e.1 s e.2) Clean (.initial storage) events) {s : Server}
    (hs : run storage events = s) {user : Ptr} (huser : user ∈ s.clientManager.users) :
    (∀ a ∈ (s.heap user).localUsers, indexTable user s.sent (indexBytes (s.heap a)) = some a) ∧
      ∀ k a, indexTable user s.sent k = some a → a ∈ s.clientManager.users ∧
        indexBytes (s.heap a) = k ∧ (a ∈ (s.heap user).localUsers ∨ ¬ Tellable (s.heap a)) := by
  subst hs
  obtain ⟨-, -, hfaithful, hregular⟩ := steady_run hclean (steady_initial storage)
  obtain ⟨hknown, htable⟩ := hregular.readable user huser
  constructor
  · intro a ha
    exact (htable _ a).mpr ⟨(hfaithful user a).seen ha, rfl⟩
  · intro k a hk
    obtain ⟨hknows, hkey⟩ := (htable k a).mp hk
    exact ⟨hknown a hknows, hkey, (hfaithful user a).known hknows⟩

/-- Two users meet, and the second leaves. Somebody else takes its connection and is met under the
next index. -/
def succession : List (Environment × Event) :=
  [(oneRoom, .packet 1 45 (login 49)), (oneRoom, .packet 2 45 (login 50)), (oneRoom, .pass),
    (oneRoom, .disconnect 2), (oneRoom, .packet 2 45 (login 51)), (oneRoom, .pass)]

theorem tables_tell_apart_succession :
    indexTable 0 (run (fun _ => .zeroed) succession).sent [0, 2] = some 2 := by
  have hclean : EachStep (fun s e => serve e.1 s e.2) Clean (.initial fun _ => .zeroed)
      succession := by decide +kernel
  have huser : 0 ∈ (run (fun _ => .zeroed) succession).clientManager.users := by decide +kernel
  have hbytes : indexBytes ((run (fun _ => .zeroed) succession).heap 2) = [0, 2] := by
    decide +kernel
  rw [← hbytes]
  exact (tables_tell_apart (fun _ => .zeroed) hclean rfl huser).1 2 (by decide +kernel)

end Runs

end Win64Server.IndexTables
