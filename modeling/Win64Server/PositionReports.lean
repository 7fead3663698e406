import Win64Server.Orientation
import Win64Server.ScriptRelay
import Win64Server.Standing

/-!
A position on its way through the server. A pilot sends it in a packet; until it sends the next
one, each pass of the update that speaks of the pilot's position to anyone does so in the bytes of
that packet, up to full turns of the pitch.
-/
namespace Win64Server.PositionReports

open Outcome Library BasicStream Server Frames Permissions PacketFields MessageContents Orientation
  PositionClock TwoMemories ServerSteps PassMessages Standing
  ScriptRelay

/-- A position packet, field by field. -/
structure Report where
  latitude : Bytes 8
  longitude : Bytes 8
  hash : Bytes 8
  groundSpeed : Bytes 2
  altitude : Bytes 8

def Report.bytes (r : Report) : List UInt8 :=
  r.latitude.1 ++ (r.longitude.1 ++ (r.hash.1 ++ (r.groundSpeed.1 ++ r.altitude.1)))

def Report.location (r : Report) : Location :=
  ⟨longToRawBits (wordOf r.latitude.1), longToRawBits (wordOf r.longitude.1)⟩

def Report.state (r : Report) : State where
  pitch := pitchOf (wordOf r.hash.1)
  roll := rollOf (wordOf r.hash.1)
  heading := headingOf (wordOf r.hash.1)
  groundSpeed := (beNat r.groundSpeed.1 : ℕ)
  altitude := longToRawBits (wordOf r.altitude.1)

/-- What the position messages say of a user: its index, where it is, and of an aircraft how it
flies. -/
def bearing (u : User) : ℤ × Location × Option State :=
  (u.index, u.location, u.asAircraft.map Aircraft.state)

theorem untouched_bearing : Untouched bearing := ⟨fun _ _ => rfl, fun _ _ => rfl, fun _ _ => rfl⟩

section Packets

variable {env : Environment} {clientSocket : Socket} {p : Ptr} {s t : Server} {r : Report}
  {rest : List UInt8}

/-- A field that is there is read, and the next one comes up. -/
theorem reads_next {α : Type} {op : HandlerM α} {bytes : List UInt8} {a : α}
    (h : Reads op bytes a) {x : Session} (hbuf : x.buf.unread = bytes ++ rest) :
    ∃ y, op.run x = .ok a y ∧ y.server = x.server ∧ y.buf.unread = rest := by
  obtain ⟨y, hrun, rfl⟩ := h x rest hbuf
  refine ⟨_, hrun, rfl, ?_⟩
  rw [advance, unread_advance, hbuf, List.drop_left]

/-- The user after the packet, at this time. -/
def Report.applied (r : Report) (now : ℤ) (u : User) : User :=
  { ({ u with location := r.location } : User).modifyAircraft fun a =>
      { a with state := r.state } with
    lastPositionUpdate := now }

theorem Report.bearing_applied {u : User} {a : Aircraft} (hu : u.derived = .aircraft a) (now : ℤ) :
    bearing (r.applied now u) = (u.index, r.location, some r.state) := by
  have hlocated : ({ u with location := r.location } : User).derived = .aircraft a := hu
  rw [Report.applied, modifyAircraft_aircraft hlocated]
  rfl

/-- The packet sets all that the position messages say, but for the index. -/
theorem handle_reports {x : Session} (hbuf : x.buf.unread = r.bytes ++ rest) :
    ∃ y now, (PilotUpdate.handle env clientSocket (some p)).run x = .ok () y ∧
      y.server.heap p = r.applied now (x.server.heap p) := by
  simp only [Report.bytes, List.append_assoc] at hbuf
  obtain ⟨x₁, hrun₁, hserver₁, hbuf₁⟩ := reads_next (reads_double r.latitude) hbuf
  obtain ⟨x₂, hrun₂, hserver₂, hbuf₂⟩ := reads_next (reads_double r.longitude) hbuf₁
  obtain ⟨x₃, hrun₃, hmoved, hbuf₃⟩ : ∃ x₃ : Session,
      (onServer (updateUser p fun u => { u with location := r.location })).run x₂ = .ok () x₃ ∧
      x₃.server.heap p = { x₂.server.heap p with location := r.location } ∧
      x₃.buf.unread = r.hash.1 ++ (r.groundSpeed.1 ++ (r.altitude.1 ++ rest)) :=
    ⟨_, rfl, modifyUser_heap_self x₂.server p fun u => { u with location := r.location }, hbuf₂⟩
  obtain ⟨x₄, hrun₄, hserver₄, hbuf₄⟩ := reads_next (reads_qWord r.hash) hbuf₃
  obtain ⟨x₅, hrun₅, hserver₅, hbuf₅⟩ := reads_next (reads_short r.groundSpeed) hbuf₄
  obtain ⟨x₆, hrun₆, hserver₆, -⟩ := reads_next (reads_double r.altitude) hbuf₅
  have hderef : (deref (some p)).run x₂ = .ok p x₂ := rfl
  have hlatitude : readDouble.run x = .ok r.location.latitude x₁ := hrun₁
  have hlongitude : readDouble.run x₁ = .ok r.location.longitude x₂ := hrun₂
  have hlocation : (onServer (updateUser p fun u =>
      { u with location := ⟨r.location.latitude, r.location.longitude⟩ })).run x₂ = .ok () x₃ :=
    hrun₃
  rw [hserver₂, hserver₁, ← hserver₄, ← hserver₅, ← hserver₆] at hmoved
  rw [PilotUpdate.handle, run_bind_of_ok hlatitude, run_bind_of_ok hlongitude,
    run_bind_of_ok hderef, run_bind_of_ok hlocation, run_bind_of_ok hrun₄, run_bind_of_ok hrun₅,
    run_bind_of_ok hrun₆]
  refine ⟨_, env.clock x₆.server.ticks, rfl, ?_⟩
  have hflown := modifyUser_heap_self x₆.server p fun u => u.modifyAircraft fun a =>
    { a with state := r.state }
  rw [hmoved] at hflown
  rw [Report.applied, ← hflown]
  exact modifyUser_heap_self _ p fun u =>
    { u with lastPositionUpdate := env.clock x₆.server.ticks }

/-- What a packet with another id may write of a user is none of it. -/
theorem bearing_of_blank {id : ℕ} {u v : User} (hid : id ≠ 1 ∧ id ≠ 3)
    (h : blank id u = blank id v) : bearing u = bearing v := by
  have hblank (w : User) : bearing (blank id w) = bearing w := by
    unfold blank
    split
    · exact absurd rfl hid.1
    all_goals first
      | exact absurd rfl hid.2
      | rfl
      | cases hderived : w.derived <;> simp [bearing, User.asAircraft, hderived, mapAircraft]
  rw [← hblank u, h, hblank]

/-- The event is not a position packet of this user. -/
def Quiet (p : Ptr) (s : Server) (e : Environment × Event) : Prop :=
  match e.2 with
  | .packet clientSocket id _ =>
    s.clientManager.getUserBySocket clientSocket = some p → id ≠ 1 ∧ id ≠ 3
  | _ => True

/-- A packet that the user's position does not come from leaves the user where it is. -/
theorem bearing_packet {id : ℕ} {buf : BasicStream} (hp : p < s.next)
    (hquiet : s.clientManager.getUserBySocket clientSocket = some p → id ≠ 1 ∧ id ≠ 3) :
    bearing ((serve env s (.packet clientSocket id buf)).heap p) = bearing (s.heap p) := by
  by_cases hlogin : id = 45
  · subst hlogin
    rcases login_served env s clientSocket buf with hsame | hjoined
    · rw [hsame]
    · rw [hjoined.old p (Nat.ne_of_lt hp)]
  · have hkeeps := (packet_served env s clientSocket hlogin buf).heap p
    by_cases htarget : target s clientSocket id buf = some p
    · simp only [permission, if_pos htarget] at hkeeps
      refine bearing_of_blank ?_ hkeeps
      by_cases hid : id = 10
      · exact ⟨by omega, by omega⟩
      · rw [target, if_neg hid] at htarget
        exact hquiet htarget
    · simp only [permission, if_neg htarget] at hkeeps
      rw [hkeeps]

/-- Another event leaves the user where it is. -/
theorem bearing_serve (hp : p < s.next) {e : Environment × Event} (hquiet : Quiet p s e) :
    bearing ((serve e.1 s e.2).heap p) = bearing (s.heap p) := by
  obtain ⟨env, e⟩ := e
  cases e with
  | pass => exact (pass_within env s untouched_bearing).users p
  | disconnect clientSocket =>
    exact (disconnect_departed env s untouched_bearing clientSocket).users p
  | packet clientSocket id buf => exact bearing_packet hp hquiet

/-- The packet, as the server handles it. -/
theorem bearing_reported {buf : BasicStream} (hbuf : buf.unread = r.bytes ++ rest)
    (hp : s.clientManager.getUserBySocket clientSocket = some p)
    (hpilot : (s.heap p).getType = .pilot) :
    bearing ((serve env s (.packet clientSocket 1 buf)).heap p) =
      ((s.heap p).index, r.location, some r.state) := by
  have hpacket : (registerPackets env).getPacket (1 : ℕ) = some (pilotUpdate env) := by
    rw [getPacket_registerPackets]
    rfl
  obtain ⟨y, now, hrun, hheap⟩ :
      ∃ y now, (PilotUpdate.handle env clientSocket (some p)).run ⟨s, buf, [(1, [])]⟩ = .ok () y ∧
        y.server.heap p = r.applied now (s.heap p) := handle_reports hbuf
  have hserve : serve env s (.packet clientSocket 1 buf) = y.server := by
    rw [serve, TwoMemories.processPacket_run env clientSocket s buf hpacket, hp]
    exact congrArg (fun result => (finalState result).server) hrun
  obtain ⟨a, ha⟩ := derived_of_pilot hpilot
  rw [hserve, hheap]
  exact r.bearing_applied ha now

/-- After events that are none of the user's position packets. -/
theorem bearing_run (h : Sound s) (hp : p < s.next) {events : List (Environment × Event)}
    (hquiet : EachStep (fun s e => serve e.1 s e.2) (Quiet p) s events) :
    bearing ((events.foldl (fun s e => serve e.1 s e.2) s).heap p) = bearing (s.heap p) := by
  let Inv (t : Server) : Prop := Sound t ∧ p < t.next ∧ bearing (t.heap p) = bearing (s.heap p)
  have hstep (t : Server) (e : Environment × Event) (ht : Inv t) (he : Quiet p t e) :
      Inv (serve e.1 t e.2) := by
    obtain ⟨hsound, hlt, hsame⟩ := ht
    obtain ⟨hnext, hcontinues⟩ := hsound.serve e.1 e.2
    exact ⟨hnext, Nat.lt_of_lt_of_le hlt hcontinues.next, (bearing_serve hlt he).trans hsame⟩
  have hstart : Inv s := ⟨h, hp, rfl⟩
  exact (EachStep.run hstep (fun _ _ _ he => he) hstart hquiet).2.2.2

end Packets

section Messages

variable {p : Ptr} {r : Report} {s : Server}

/-- A message about where the user is. -/
def IsPosition (p : Ptr) : Outgoing → Prop
  | .pilotUpdate about _ _ | .controllerUpdate about _ => about = p
  | _ => False

/-- The message about the pilot with this index, with the orientation in this word. -/
def Report.message (r : Report) (index : ℤ) (word : List UInt8) : List UInt8 :=
  14 :: (beBytes 2 index ++ (r.latitude.1 ++ (r.longitude.1 ++
    (word ++ (r.groundSpeed.1 ++ r.altitude.1)))))

theorem bytes_pilotUpdate {other : User} {a : Aircraft} (hother : other.derived = .aircraft a)
    {index : ℤ} (hbearing : bearing other = (index, r.location, some r.state))
    {block : ℕ → List UInt8} (hblock : ∀ n, (block n).length = n) :
    bytes block (.pilotUpdate p other a) =
      some (r.message index (beBytes 8 (orientationWord r.state))) := by
  rw [bearing, asAircraft_of_derived hother, Option.map_some, Prod.mk.injEq, Prod.mk.injEq,
    Option.some_inj] at hbearing
  obtain ⟨hindex, hlocation, hstate⟩ := hbearing
  have hlength : 1 ≤ (block 37).length := by rw [hblock]; decide
  have hfit : Piece.Fit (pilotUpdatePieces other a) ((block 37).length - 1) := trivial
  obtain ⟨t, hrun, hwritten⟩ := plain_run 14 (block 37) hlength hfit
  rw [← sendPilotUpdate_eq] at hrun
  have hbytes : bytes block (.pilotUpdate p other a) = some t.written := by
    simp only [bytes, Outgoing.build, Outgoing.preallocateSize, hrun]
  have hspeed : beBytes 2 (beNat r.groundSpeed.1) = r.groundSpeed.1 := by
    have h := beBytes_beNat r.groundSpeed.1
    rwa [r.groundSpeed.2] at h
  rw [hbytes, hwritten, Report.message]
  simp only [pilotUpdatePieces, Piece.body, Piece.bytes, hindex, hlocation, hstate,
    List.flatMap_cons, List.flatMap_nil, List.append_nil, Report.location, Report.state,
    doubleToRawBits, longToRawBits, wordOf, Slot.beBytes_toInt64, hspeed]
  rfl

/-- What a pass says of the position of a pilot that has reported it. -/
theorem message_of_told {e : Sent} (h : Told bearing (· < s.next) s e)
    (hposition : IsPosition p e.message)
    (hbearing : bearing (s.heap p) = ((s.heap p).index, r.location, some r.state))
    {block : ℕ → List UInt8} (hblock : ∀ n, (block n).length = n) :
    bytes block e.message =
      some (r.message (s.heap p).index (beBytes 8 (orientationWord r.state))) := by
  rcases h.content with ⟨time, htime⟩ | ⟨about, -, u, hu, hspeaks⟩
  · rw [htime] at hposition
    exact hposition.elim
  · cases hmessage : e.message with
    | pilotUpdate about' other a =>
      rw [hmessage] at hspeaks hposition
      obtain rfl : about' = p := hposition
      cases hspeaks with
      | pilotUpdate a ha => exact bytes_pilotUpdate ha (hu.trans hbearing) hblock
    | controllerUpdate about' other =>
      rw [hmessage] at hspeaks hposition
      obtain rfl : about' = p := hposition
      cases hspeaks with
      | controllerUpdate x hx =>
        -- The pilot is no controller.
        have hstate := congrArg (fun b => b.2.2) (hu.trans hbearing)
        simp [bearing, asAircraft_of_controller hx] at hstate
    | _ => rw [hmessage] at hposition; exact hposition.elim

end Messages

section Runs

/-- From a position packet of a pilot up to its next one, whatever else happens, each pass that
tells somebody the pilot's position does so in the bytes of the packet, and with its angles. -/
theorem positions_fresh (storage : Ptr → Storage) (before between : List (Environment × Event))
    (env env' : Environment) {clientSocket : Socket} {p : Ptr} {r : Report} {buf : BasicStream}
    {rest : List UInt8}
    (hp : (run storage before).clientManager.getUserBySocket clientSocket = some p)
    (hpilot : ((run storage before).heap p).getType = .pilot)
    (hbuf : buf.unread = r.bytes ++ rest)
    (hquiet : EachStep (fun s e => serve e.1 s e.2) (Quiet p)
      (serve env (run storage before) (.packet clientSocket 1 buf)) between)
    {s : Server} (hs : run storage (before ++ (env, .packet clientSocket 1 buf) :: between) = s)
    {block : ℕ → List UInt8} (hblock : ∀ n, (block n).length = n) :
    ∃ word new, SameAngles (wordOf r.hash.1) (wordOf word) ∧
      (serve env' s .pass).sent = s.sent ++ new ∧
      ∀ e ∈ new, IsPosition p e.message →
        bytes block e.message = some (r.message (s.heap p).index word) := by
  have hstart := sound_run storage before
  obtain ⟨hsound, hcontinues⟩ := hstart.serve env (.packet clientSocket 1 buf)
  have hlt : p < (serve env (run storage before) (.packet clientSocket 1 buf)).next :=
    Nat.lt_of_lt_of_le (hstart.clients clientSocket p hp) hcontinues.next
  have hend : s = between.foldl (fun s e => serve e.1 s e.2)
      (serve env (run storage before) (.packet clientSocket 1 buf)) := by
    rw [← hs, run, List.foldl_append]
    rfl
  have hkept := bearing_run hsound hlt hquiet
  rw [← hend, bearing_reported hbuf hp hpilot] at hkept
  have hindex : ((run storage before).heap p).index = (s.heap p).index :=
    (congrArg Prod.fst hkept).symm
  rw [hindex] at hkept
  obtain ⟨new, hsent, htold⟩ :=
    ((hs ▸ sound_run storage _ : Sound s).fine_pass env' untouched_bearing).sent
  refine ⟨beBytes 8 (orientationWord r.state), new, ?_, hsent, fun e he hposition => ?_⟩
  · exact sameAngles_of_stored ⟨rfl, rfl, rfl⟩
  · exact message_of_told (htold e he) hposition hkept hblock

/-- Level, and due east. -/
def eastbound : Report where
  latitude := ⟨List.replicate 8 1, rfl⟩
  longitude := ⟨List.replicate 8 2, rfl⟩
  hash := ⟨[0, 0, 0, 0, 0, 0, 4, 0], rfl⟩
  groundSpeed := ⟨[0, 120], rfl⟩
  altitude := ⟨List.replicate 8 3, rfl⟩

def twoLogins : List (Environment × Event) :=
  [(oneRoom, .packet 1 45 (login 49)), (oneRoom, .packet 2 45 pilotLogin)]

/-- A pilot reports its position, and then a controller does. -/
def eastboundRun : List (Environment × Event) :=
  twoLogins ++ (oneRoom, .packet 2 1 (.preallocated eastbound.bytes)) ::
    [(oneRoom, .packet 1 3 (.preallocated (List.replicate 16 0)))]

theorem positions_fresh_eastbound :
    let s := run (fun _ => .zeroed) eastboundRun
    ∃ word new, SameAngles (wordOf eastbound.hash.1) (wordOf word) ∧
      (serve oneRoom s .pass).sent = s.sent ++ new ∧
      ∀ e ∈ new, IsPosition 1 e.message →
        bytes (List.replicate · 0) e.message = some (eastbound.message (s.heap 1).index word) := by
  have hbuf : (BasicStream.preallocated eastbound.bytes).unread = eastbound.bytes ++ [] := rfl
  have hother : (serve oneRoom (run (fun _ => .zeroed) twoLogins) (.packet 2 1
      (.preallocated eastbound.bytes))).clientManager.getUserBySocket 1 ≠ some 1 := by
    decide +kernel
  exact positions_fresh (fun _ => .zeroed) twoLogins
    [(oneRoom, .packet 1 3 (.preallocated (List.replicate 16 0)))] oneRoom oneRoom
    (by decide +kernel) (by decide +kernel) hbuf ⟨fun h => absurd h hother, trivial⟩ rfl
    fun n => List.length_replicate

end Runs

end Win64Server.PositionReports
