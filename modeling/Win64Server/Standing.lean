import Win64Server.PassMessages
import Win64Server.ServerSteps

/-!
Who a user is. The members that a login sets and nothing changes afterwards are the standing of a
user: its socket, names, numbers, range, type and ratings. What a client can do between logins is
confined to its own user and to the flight plans it names, and in every run each message about a
user shows the standing that the user has.
-/
namespace Win64Server.Standing

open Outcome Library Server Frames Permissions PositionClock TwoMemories ServerSteps
  PassMessages

/-- What is left of an aircraft: its rating, whether it has a plan, and the rules of that. -/
def unwrittenAircraft (a : Aircraft) : Aircraft where
  pilotRating := a.pilotRating
  transponder := []
  acfTitle := []
  state := ⟨0, 0, 0, 0, ⟨0⟩⟩
  mode := 0
  heavy := false
  flightPlan := a.flightPlan.map fun plan =>
    ⟨[], [], [], [], [], [], [], [], [], plan.flightRules, 0⟩

/-- What is left of a user when the members that any packet may write are blanked. -/
def unwritten (u : User) : User :=
  { u with
    updateOnlyQueues := Function.update u.updateOnlyQueues 0 false
    frequencies := fun _ => 0
    location := ⟨⟨0⟩, ⟨0⟩⟩
    scripts := .init
    requestTime := fun _ => 0
    lastPositionUpdate := 0
    derived := mapAircraft unwrittenAircraft u.derived }

/-- What is left when the members that a pass changes are blanked too. -/
def standing (u : User) : User :=
  { unwritten u with localUsers := ∅, updateInterval := 0, updateOnlyQueues := fun _ => false }

theorem unwritten_blank (id : ℕ) (u : User) : unwritten (blank id u) = unwritten u := by
  cases hderived : u.derived with
  | controller x =>
    unfold blank
    split <;> simp only [unwritten, Function.update_idem, hderived, mapAircraft]
  | aircraft a =>
    unfold blank
    split <;> simp only [unwritten, unwrittenAircraft, Function.update_idem, hderived, mapAircraft,
      Option.map_map, Function.comp_def]

theorem unwritten_of_blank {id : ℕ} {u v : User} (h : blank id u = blank id v) :
    unwritten u = unwritten v := by
  rw [← unwritten_blank id u, h, unwritten_blank]

theorem standing_of_unwritten {u v : User} (h : unwritten u = unwritten v) :
    standing u = standing v := by
  rw [standing, standing, h]

theorem unwritten_localUsers (u : User) : (unwritten u).localUsers = u.localUsers := rfl

theorem callsign_of_standing {u v : User} (h : standing u = standing v) :
    u.identity.callsign = v.identity.callsign := by
  have hidentity : (standing u).identity = (standing v).identity := by rw [h]
  exact congrArg Identity.callsign hidentity

theorem untouched_standing : Untouched standing := ⟨fun _ _ => rfl, fun _ _ => rfl, fun _ _ => rfl⟩

/-- The user object in a message about a user. -/
def shown : Outgoing → Option (Ptr × User)
  | .createClient about r | .deleteClient about r | .pilotUpdate about r _
  | .message about r _ _ _ | .clientModeChange about r _ | .flightPlanCycle about r _
  | .controllerUpdate about r | .clientTransponder about r _ | .primFreq about r
  | .script about r _ | .removeScript about r _ => some (about, r)
  | .serverMessage _ | .wx _ | .timeChange _ | .privateMessage _ _ | .ping
  | .handshakeAccepted _ _ _ | .handshakeRejected _ => none

theorem about_of_shown {message : Outgoing} {about : Ptr} {r : User}
    (h : shown message = some (about, r)) : message.about = some about := by
  cases message <;> cases h <;> rfl

/-- The user object in the messages that a client causes about itself. -/
def ownNews : Outgoing → Option (Ptr × User)
  | .clientTransponder about r _ | .message about r _ _ _ | .clientModeChange about r _
  | .primFreq about r | .script about r _ => some (about, r)
  | _ => none

theorem shown_of_ownNews {message : Outgoing} {about : Ptr} {r : User}
    (h : ownNews message = some (about, r)) : shown message = some (about, r) := by
  cases message <;> cases h <;> rfl

theorem ownNews_of_news {s : Server} {id : ℕ} {about : Ptr} {message : Outgoing} (hid : id ≠ 11)
    (h : news s id about message) :
    ∃ r, ownNews message = some (about, r) ∧ unwritten r = unwritten (s.heap about) := by
  obtain ⟨r, hr, hkind⟩ := h
  refine ⟨r, ?_, unwritten_of_blank hr⟩
  split at hkind
  · obtain ⟨_, rfl⟩ := hkind; rfl
  · obtain ⟨_, _, _, rfl⟩ := hkind; rfl
  · obtain ⟨_, rfl⟩ := hkind; rfl
  · exact absurd rfl hid
  · rw [hkind]; rfl
  · obtain ⟨_, rfl⟩ := hkind; rfl
  · exact hkind.elim

section Confined

variable {asked : Set ℕ} {s t r : Server} {clientSocket : Socket}

/-- What a client that is logged in as `u` and has asked for the plans at these indices may cause
to be said: news about itself to itself and its local users, a plan it has asked for to itself,
and a private message in its own name. -/
inductive MaySay (asked : Set ℕ) (s : Server) (u : Ptr) (e : Sent) : Prop
  | own (r : User) (hrecipient : e.recipient = u ∨ e.recipient ∈ (s.heap u).localUsers)
      (hnews : ownNews e.message = some (u, r)) (hr : unwritten r = unwritten (s.heap u))
  | plan (index : ℕ) (hasked : index ∈ asked) (about : Ptr) (r : User) (plan : FlightPlan)
      (hrecipient : e.recipient = u)
      (hindex : s.clientManager.getUserByIndex index = some about)
      (hmessage : e.message = .flightPlanCycle about r plan)
      (hr : unwritten r = unwritten (s.heap about))
  | text (callsign text : CxxString) (hrecipient : e.recipient ≠ u)
      (hcallsign : s.clientManager.getUserByCallsign callsign = some e.recipient)
      (hmessage : e.message = .privateMessage (s.heap u).identity.callsign text)

/-- The indices of the plans that a packet asks for. -/
def asks (id : ℕ) (buf : BasicStream) : Set ℕ :=
  {index | id = 11 ∧ requestedIndex buf = some index}

theorem maySay_of_mayTell {buf : BasicStream} {u : Ptr} {e : Sent} {id : ℕ}
    (h : mayTell s buf u e id) : MaySay (asks id buf) s u e := by
  have hown (id' : ℕ) (hid : id' ≠ 11)
      (hrecipient : e.recipient = u ∨ e.recipient ∈ (s.heap u).localUsers)
      (hnews : news s id' u e.message) : MaySay (asks id buf) s u e := by
    obtain ⟨r, hnews, hr⟩ := ownNews_of_news hid hnews
    exact .own r hrecipient hnews hr
  unfold mayTell at h
  split at h
  · exact hown _ (by decide) (Or.inr h.1) h.2
  · exact hown _ (by decide) (Or.inr h.1) h.2
  · exact hown _ (by decide) (Or.inr h.1) h.2
  · exact hown _ (by decide) (Or.inr h.1) h.2
  · exact hown _ (by decide) h.1 h.2
  · obtain ⟨hrecipient, index, about, hasked, hindex, r, hr, plan, hmessage⟩ := h
    exact .plan index ⟨rfl, hasked⟩ about r plan hrecipient hindex hmessage (unwritten_of_blank hr)
  · obtain ⟨hrecipient, callsign, text, hcallsign, hmessage⟩ := h
    exact .text callsign text hrecipient hcallsign hmessage
  · exact h.elim

/-- All that the packets of a client may do. Of other users it can only change flight plans. -/
def power (asked : Set ℕ) (s : Server) (clientSocket : Socket) : Permission where
  keeps p u :=
    if s.clientManager.getUserBySocket clientSocket = some p then unwritten u else blank 10 u
  tells e := ∃ u, s.clientManager.getUserBySocket clientSocket = some u ∧ MaySay asked s u e
  closes x := x = clientSocket

theorem unwritten_of_power (h : Acted (power asked s clientSocket) s t) (p : Ptr) :
    unwritten (t.heap p) = unwritten (s.heap p) := by
  have hkeeps := h.heap p
  unfold power at hkeeps
  dsimp only at hkeeps
  split at hkeeps
  · exact hkeeps
  · exact unwritten_of_blank hkeeps

/-- What may be said after such packets might have been said before them. -/
theorem MaySay.of_power (h : Acted (power asked s clientSocket) s t) {u : Ptr} {e : Sent}
    (hsay : MaySay asked t u e) : MaySay asked s u e := by
  have hsame := unwritten_of_power h
  have hlocal : (t.heap u).localUsers = (s.heap u).localUsers := by
    rw [← unwritten_localUsers, hsame, unwritten_localUsers]
  cases hsay with
  | own r hrecipient hnews hr =>
    rw [hlocal] at hrecipient
    exact .own r hrecipient hnews (hr.trans (hsame u))
  | plan index hasked about r plan hrecipient hindex hmessage hr =>
    rw [h.clientManager] at hindex
    exact .plan index hasked about r plan hrecipient hindex hmessage (hr.trans (hsame about))
  | text callsign text hrecipient hcallsign hmessage =>
    rw [h.clientManager] at hcallsign
    rw [callsign_of_standing (standing_of_unwritten (hsame u))] at hmessage
    exact .text callsign text hrecipient hcallsign hmessage

theorem MaySay.mono {asked' : Set ℕ} (hasked : asked ⊆ asked') {u : Ptr} {e : Sent}
    (h : MaySay asked s u e) : MaySay asked' s u e := by
  cases h with
  | own r hrecipient hnews hr => exact .own r hrecipient hnews hr
  | plan index hindex about r plan hrecipient habout hmessage hr =>
    exact .plan index (hasked hindex) about r plan hrecipient habout hmessage hr
  | text callsign text hrecipient hcallsign hmessage =>
    exact .text callsign text hrecipient hcallsign hmessage

/-- One more packet of the client. -/
theorem confined_step (h : Acted (power asked s clientSocket) s t) {id : ℕ} {buf : BasicStream}
    (hasked : asks id buf ⊆ asked) (hstep : Acted (permission t clientSocket id buf) t r) :
    Acted (power asked s clientSocket) s r := by
  obtain ⟨closed, hclosed, hcloses⟩ := h.closedSockets
  obtain ⟨closed', hclosed', hcloses'⟩ := hstep.closedSockets
  obtain ⟨new, hsent, htells⟩ := h.sent
  obtain ⟨new', hsent', htells'⟩ := hstep.sent
  refine ⟨fun p => ?_, hstep.next.trans h.next, hstep.storage.trans h.storage,
    hstep.clientManager.trans h.clientManager, hstep.clientSockets.trans h.clientSockets,
    hstep.byteData.trans h.byteData, hstep.lastPacketReceived.trans h.lastPacketReceived,
    ⟨closed ++ closed', by rw [hclosed', hclosed, List.append_assoc], fun x hx => ?_⟩,
    new ++ new', by rw [hsent', hsent, List.append_assoc], fun e he => ?_⟩
  · rw [← h.heap p]
    have hkeeps := hstep.heap p
    by_cases htarget : target t clientSocket id buf = some p
    · simp only [permission, if_pos htarget] at hkeeps
      unfold power
      dsimp only
      split
      · exact unwritten_of_blank hkeeps
      · next hother =>
        by_cases hid : id = 10
        · rwa [hid] at hkeeps
        · rw [target, if_neg hid, h.clientManager] at htarget
          exact absurd htarget hother
    · simp only [permission, if_neg htarget] at hkeeps
      rw [hkeeps]
  · rcases List.mem_append.mp hx with hx | hx
    · exact hcloses x hx
    · exact (hcloses' x hx).2
  · rcases List.mem_append.mp he with he | he
    · exact htells e he
    · obtain ⟨u, hu, htell⟩ := htells' e he
      rw [h.clientManager] at hu
      exact ⟨u, hu, ((maySay_of_mayTell htell).mono hasked).of_power h⟩

open BasicStream in
/-- The type of user that a packet asks for an interval for. -/
def requestedType (buf : BasicStream) : Option ℕ :=
  match (do let _ ← readUnsignedShort; readUnsignedByte).run buf with
  | .ok type _ => some type
  | .error _ _ => none

/-- A packet other than a login, and not one to store an interval behind the array: what such a
store does the language does not say. -/
def Ordinary (id : ℕ) (buf : BasicStream) : Prop :=
  id ≠ 45 ∧ (id = 5 → (requestedType buf).all (· < typeIntervals))

instance (id : ℕ) (buf : BasicStream) : Decidable (Ordinary id buf) :=
  inferInstanceAs (Decidable (_ ∧ _))

/-- The pilot sends its position and asks for an interval and for the plan at its own index. -/
def pilotPackets : List (Environment × ℕ × BasicStream) :=
  [(.orderly Observers.sixtyMiles, 1, .preallocated (List.replicate 36 0)),
    (.orderly Observers.sixtyMiles, 5, .preallocated [0, 1, 0, 0, 0, 0, 0, 0, 0, 7, 208]),
    (.orderly Observers.sixtyMiles, 11, .preallocated [0, 1, 0, 0])]

end Confined

/-- A message to a user that there is, which shows the standing of the user it is about, or has the
callsign of another user that there is. -/
structure Honest (s : Server) (e : Sent) : Prop where
  recipient : e.recipient < s.next
  shows : ∀ about r, shown e.message = some (about, r) →
    about < s.next ∧ standing r = standing (s.heap about)
  speaks : ∀ sender text, e.message = .privateMessage sender text →
    ∃ p < s.next, p ≠ e.recipient ∧ (s.heap p).identity.callsign = sender

theorem shown_of_speaks {about : Ptr} {u : User} {message : Outgoing}
    (h : Speaks about u message) : shown message = some (about, u) := by
  cases h <;> rfl

/-- What passes and departures say is honest. -/
theorem honest_of_told {s : Server} {e : Sent} (h : Told standing (· < s.next) s e) :
    Honest s e := by
  refine ⟨h.recipient, fun about r hr => ?_, fun sender text hmessage => ?_⟩
  · rcases h.content with ⟨time, htime⟩ | ⟨about', habout, u, hu, hspeaks⟩
    · rw [htime] at hr
      cases hr
    · rw [shown_of_speaks hspeaks] at hr
      cases hr
      exact ⟨habout, hu⟩
  · rcases h.content with ⟨time, htime⟩ | ⟨about', habout, u, hu, hspeaks⟩
    · rw [hmessage] at htime
      cases htime
    · rw [hmessage] at hspeaks
      cases hspeaks

section Runs

variable {s t : Server} (env : Environment)

/-- The users that there are keep their standing. -/
structure Continues (s t : Server) : Prop where
  next : s.next ≤ t.next
  users : ∀ p < s.next, standing (t.heap p) = standing (s.heap p)

theorem Honest.continues {e : Sent} (h : Honest s e) (hst : Continues s t) : Honest t e where
  recipient := Nat.lt_of_lt_of_le h.recipient hst.next
  shows about r hr := by
    obtain ⟨habout, hstanding⟩ := h.shows about r hr
    exact ⟨Nat.lt_of_lt_of_le habout hst.next, hstanding.trans (hst.users about habout).symm⟩
  speaks sender text hmessage := by
    obtain ⟨p, hp, hne, hcallsign⟩ := h.speaks sender text hmessage
    exact ⟨p, Nat.lt_of_lt_of_le hp hst.next, hne,
      (callsign_of_standing (hst.users p hp)).trans hcallsign⟩

def AllHonest (s : Server) : Prop := ∀ e ∈ s.sent, Honest s e

/-- Only users that there are are registered, seen and spoken of. -/
structure Sound (s : Server) : Prop where
  clients : ∀ c u, s.clientManager.getUserBySocket c = some u → u < s.next
  callsigns : ∀ c u, s.clientManager.getUserByCallsign c = some u → u < s.next
  indices : ∀ i u, s.clientManager.getUserByIndex i = some u → u < s.next
  locals : ∀ p, ∀ v ∈ (s.heap p).localUsers, v < s.next
  sent : AllHonest s

theorem Sound.users (h : Sound s) : ∀ v ∈ s.clientManager.users, v < s.next := by
  intro v hv
  obtain ⟨c, hc⟩ := ClientManager.mem_users.mp hv
  exact h.clients c v hc

theorem Sound.fine (h : Sound s) {α : Type} (g : User → α) : Fine g (· < s.next) s s :=
  fine_self fun p _ => h.locals p

/-- The messages that a packet causes are honest. -/
theorem honest_of_maySay {asked : Set ℕ} (h : Sound s) {clientSocket : Socket} {u : Ptr} {e : Sent}
    (hu : s.clientManager.getUserBySocket clientSocket = some u) (hsay : MaySay asked s u e) :
    Honest s e := by
  have hshows {about : Ptr} {r : User} (hrecipient : e.recipient < s.next) (habout : about < s.next)
      (hshown : shown e.message = some (about, r)) (hr : unwritten r = unwritten (s.heap about)) :
      Honest s e := by
    refine ⟨hrecipient, fun about' r' hr' => ?_, fun sender text hmessage => ?_⟩
    · rw [hshown] at hr'
      cases hr'
      exact ⟨habout, standing_of_unwritten hr⟩
    · rw [hmessage] at hshown
      cases hshown
  have hnext : u < s.next := h.clients clientSocket u hu
  cases hsay with
  | own r hrecipient hnews hr =>
    refine hshows ?_ hnext (shown_of_ownNews hnews) hr
    rcases hrecipient with hrecipient | hrecipient
    · rw [hrecipient]
      exact hnext
    · exact h.locals u _ hrecipient
  | plan index hasked about r plan hrecipient hindex hmessage hr =>
    refine hshows ?_ (h.indices index about hindex) (by rw [hmessage]; rfl) hr
    rw [hrecipient]
    exact hnext
  | text callsign text hrecipient hcallsign hmessage =>
    refine ⟨h.callsigns callsign _ hcallsign, fun about r hr => ?_, fun sender text' htext => ?_⟩
    · rw [hmessage] at hr
      cases hr
    · rw [hmessage] at htext
      cases htext
      exact ⟨u, hnext, hrecipient.symm, rfl⟩

theorem unwritten_of_permission {clientSocket : Socket} {id : ℕ} {buf : BasicStream}
    (hacted : Acted (permission s clientSocket id buf) s t) (p : Ptr) :
    unwritten (t.heap p) = unwritten (s.heap p) := by
  have hkeeps := hacted.heap p
  simp only [permission] at hkeeps
  split at hkeeps
  · exact unwritten_of_blank hkeeps
  · rw [hkeeps]

theorem Sound.packet (h : Sound s) {clientSocket : Socket} {id : ℕ} {buf : BasicStream}
    (hacted : Acted (permission s clientSocket id buf) s t) : Sound t ∧ Continues s t := by
  have hsame := unwritten_of_permission hacted
  have hcontinues : Continues s t :=
    ⟨hacted.next.ge, fun p _ => standing_of_unwritten (hsame p)⟩
  refine ⟨⟨?_, ?_, ?_, fun p v hv => ?_, fun e he => ?_⟩, hcontinues⟩
  · rw [hacted.clientManager, hacted.next]
    exact h.clients
  · rw [hacted.clientManager, hacted.next]
    exact h.callsigns
  · rw [hacted.clientManager, hacted.next]
    exact h.indices
  · rw [← unwritten_localUsers, hsame, unwritten_localUsers] at hv
    rw [hacted.next]
    exact h.locals p v hv
  · obtain ⟨new, hsent, htells⟩ := hacted.sent
    rw [hsent] at he
    rcases List.mem_append.mp he with he | he
    · exact (h.sent e he).continues hcontinues
    · obtain ⟨u, hu, htell⟩ := htells e he
      exact (honest_of_maySay h hu (maySay_of_mayTell htell)).continues hcontinues

theorem Sound.joined (h : Sound s) {clientSocket : Socket} (hjoined : Joined clientSocket s t) :
    Sound t ∧ Continues s t := by
  have hlt {u : Ptr} (hu : u < s.next) : u < t.next := by
    rw [hjoined.next]
    exact Nat.lt_succ_of_lt hu
  have hself : s.next < t.next := by
    rw [hjoined.next]
    exact Nat.lt_succ_self _
  have hcontinues : Continues s t :=
    ⟨hself.le, fun p hp => by rw [hjoined.old p (Nat.ne_of_lt hp)]⟩
  refine ⟨⟨fun c u hu => ?_, fun c u hu => ?_, fun i u hu => ?_, fun p v hv => ?_, fun e he => ?_⟩,
    hcontinues⟩
  · rcases hjoined.clients c with hc | ⟨-, hc⟩
    · rw [hc] at hu
      exact hlt (h.clients c u hu)
    · rw [hc] at hu
      cases hu
      exact hself
  · rcases hjoined.callsigns c with hc | hc
    · rw [hc] at hu
      exact hlt (h.callsigns c u hu)
    · rw [hc] at hu
      cases hu
      exact hself
  · rcases hjoined.indices i with hi | hi
    · rw [hi] at hu
      exact hlt (h.indices i u hu)
    · rw [hi] at hu
      cases hu
      exact hself
  · by_cases hp : p = s.next
    · rw [hp, hjoined.new.localUsers] at hv
      exact absurd hv (AList.notMem_empty v)
    · rw [hjoined.old p hp] at hv
      exact hlt (h.locals p v hv)
  · obtain ⟨new, hsent, hgreeting⟩ := hjoined.sent
    rw [hsent] at he
    rcases List.mem_append.mp he with he | he
    · exact (h.sent e he).continues hcontinues
    · obtain ⟨hrecipient, habout, hprivate⟩ := hgreeting e he
      refine ⟨hrecipient ▸ hself, fun about r hr => ?_, fun sender text hmessage => ?_⟩
      · rw [about_of_shown hr] at habout
        cases habout
      · exact absurd hmessage (hprivate sender text)

theorem Sound.locals_of_fine (h : Sound s) {α : Type} {g : User → α}
    (hfine : Fine g (· < s.next) s t) (p : Ptr) : ∀ v ∈ (t.heap p).localUsers, v < s.next := by
  by_cases hp : p < s.next
  · exact hfine.locals p hp
  · rw [hfine.others p hp]
    exact h.locals p

theorem Sound.fine_pass (h : Sound s) {α : Type} {g : User → α} (hg : Untouched g) :
    Fine g (· < s.next) s (serve env s .pass) :=
  (stays_globalUpdate hg env h.users).keeps s (h.fine g)

/-- What has been sent before and after is honest. -/
theorem Sound.allHonest (h : Sound s) (hfine : Fine standing (· < s.next) s t) :
    ∀ e ∈ t.sent, Honest s e := by
  obtain ⟨new, hsent, hnew⟩ := hfine.sent
  rw [hsent]
  exact List.forall_mem_append.mpr ⟨h.sent, fun e he => honest_of_told (hnew e he)⟩

theorem Sound.pass (h : Sound s) : Sound (serve env s .pass) ∧ Continues s (serve env s .pass) := by
  have hfine := h.fine_pass env untouched_standing
  have hcontinues : Continues s (serve env s .pass) :=
    ⟨hfine.next.ge, fun p _ => hfine.users p⟩
  refine ⟨⟨?_, ?_, ?_, ?_, fun e he => (h.allHonest hfine e he).continues hcontinues⟩,
    hcontinues⟩
  · rw [hfine.clientManager, hfine.next]
    exact h.clients
  · rw [hfine.clientManager, hfine.next]
    exact h.callsigns
  · rw [hfine.clientManager, hfine.next]
    exact h.indices
  · rw [hfine.next]
    exact h.locals_of_fine hfine

/-- A departure but for the registry. -/
theorem Sound.fine_disconnect (h : Sound s) {α : Type} {g : User → α} (hg : Untouched g)
    (clientSocket : Socket) :
    ∃ m, Fine g (· < s.next) s m ∧
      (TwoMemories.serve env s (.disconnect clientSocket)).heap = m.heap ∧
      (TwoMemories.serve env s (.disconnect clientSocket)).sent = m.sent := by
  rcases disconnect_served env s clientSocket with hsame | ⟨user, m, hsocket, hloop, hserve⟩
  · rw [hsame]
    exact ⟨s, h.fine g, rfl, rfl⟩
  · have huser : user < s.next := h.clients clientSocket user hsocket
    have hkept : Kept (Stays g (· < s.next) s)
        (iterateLocalUsers env user (Departure.farewell env user)) :=
      stays_iterateLocalUsers (M := (· < s.next)) env huser fun other hother =>
        stays_farewell hg env huser hother
    rw [hserve]
    exact ⟨m, hkept.keeps.ok hloop (h.fine g), rfl, rfl⟩

theorem Sound.disconnect (h : Sound s) (clientSocket : Socket) :
    Sound (serve env s (.disconnect clientSocket)) ∧
      Continues s (serve env s (.disconnect clientSocket)) := by
  have hdeparted := disconnect_departed env s untouched_standing clientSocket
  obtain ⟨m, hfine, hheap, hsent⟩ := h.fine_disconnect env untouched_standing clientSocket
  have hcontinues : Continues s (serve env s (.disconnect clientSocket)) :=
    ⟨hdeparted.next.ge, fun p _ => hdeparted.users p⟩
  refine ⟨⟨fun c u hu => ?_, fun c u hu => ?_, fun i u hu => ?_, fun p v hv => ?_, fun e he => ?_⟩,
    hcontinues⟩
  · rw [hdeparted.next]
    exact h.clients c u (hdeparted.clients c u hu)
  · rw [hdeparted.next]
    exact h.callsigns c u (hdeparted.callsigns c u hu)
  · rw [hdeparted.next]
    exact h.indices i u (hdeparted.indices i u hu)
  · rw [hheap] at hv
    rw [hdeparted.next]
    exact h.locals_of_fine hfine p v hv
  · rw [hsent] at he
    exact (h.allHonest hfine e he).continues hcontinues

theorem Sound.serve (h : Sound s) (e : Event) :
    Sound (serve env s e) ∧ Continues s (TwoMemories.serve env s e) := by
  cases e with
  | packet clientSocket id buf =>
    by_cases hlogin : id = 45
    · subst hlogin
      rcases login_served env s clientSocket buf with hsame | hjoined
      · rw [hsame]
        exact ⟨h, le_refl _, fun _ _ => rfl⟩
      · exact h.joined hjoined
    · exact h.packet (packet_served env s clientSocket hlogin buf)
  | disconnect clientSocket => exact h.disconnect env clientSocket
  | pass => exact h.pass env

theorem sound_initial (storage : Ptr → Storage) : Sound (.initial storage) where
  clients c u hu := by cases hu
  callsigns c u hu := by cases hu
  indices i u hu := by cases hu
  locals p v hv := absurd hv (AList.notMem_empty v)
  sent e he := absurd he List.not_mem_nil

theorem sound_run (storage : Ptr → Storage) (events : List (Environment × Event)) :
    Sound (run storage events) :=
  foldl_inv (Q := Sound) (fun _ e h => (h.serve e.1 e.2).1) (sound_initial storage) events

theorem continues_foldl (h : Sound s) (events : List (Environment × Event)) :
    Continues s (events.foldl (fun s e => TwoMemories.serve e.1 s e.2) s) := by
  induction events generalizing s with
  | nil => exact ⟨le_refl _, fun _ _ => rfl⟩
  | cons e events ih =>
    obtain ⟨hsound, hfirst⟩ := h.serve e.1 e.2
    have hrest := ih hsound
    exact ⟨hfirst.next.trans hrest.next, fun p hp =>
      (hrest.users p (Nat.lt_of_lt_of_le hp hfirst.next)).trans (hfirst.users p hp)⟩

/-- In every run, a user keeps the standing it has once it has been made: its socket, its names,
its id and index, its range and type, its ratings and flight rules, and the flags that no code
path sets. Left out, here and below, are stores behind the array of the intervals. -/
theorem standing_for_life (storage : Ptr → Storage) (before after : List (Environment × Event))
    {p : Ptr} (hp : p < (run storage before).next) :
    standing ((run storage (before ++ after)).heap p) = standing ((run storage before).heap p) := by
  rw [run, List.foldl_append]
  exact (continues_foldl (sound_run storage before) after).users p hp

/-- Two controllers. -/
def arrivals : List (Environment × Event) :=
  [(oneRoom, .packet 1 45 (login 49)), (oneRoom, .packet 2 45 (login 50))]

/-- The first one moves and asks for another interval and another frequency, and a pass follows. -/
def changes : List (Environment × Event) :=
  [(oneRoom, .packet 1 3 (.preallocated (0x3F :: List.replicate 15 0))),
    (oneRoom, .packet 1 5 (.preallocated [0, 0, 0, 0, 0, 0, 0, 0, 0, 7, 208])),
    (oneRoom, .packet 1 13 (.preallocated [1, 0, 1, 2, 0, 1, 3])), (oneRoom, .pass)]

theorem standing_for_life_pass :
    let before := (run (fun _ => .zeroed) arrivals).heap 0
    let after := (run (fun _ => .zeroed) (arrivals ++ changes)).heap 0
    after.location ≠ before.location ∧ after.requestTime 0 ≠ before.requestTime 0 ∧
      after.frequencies 0 ≠ before.frequencies 0 ∧
      after.localUsers.keys ≠ before.localUsers.keys ∧ standing after = standing before :=
  ⟨by decide +kernel, by decide +kernel, by decide +kernel, by decide +kernel,
    standing_for_life (fun _ => .zeroed) arrivals changes (by decide +kernel)⟩

/-- In every run, whatever has been sent has gone to a user that there is, a message about a user
shows the standing of that user, and a private message has the callsign of another user. -/
theorem messages_honest (storage : Ptr → Storage) (events : List (Environment × Event)) :
    AllHonest (run storage events) := (sound_run storage events).sent

end Runs

end Win64Server.Standing
