import Win64Server.HandshakeOutcomes
import Win64Server.PassExchanges
import Win64Server.Library.Runs

/-!
Positions and the time of day. A position packet stores the time of day as the user's stamp, and
`update` subtracts such a stamp from the time of day it reads itself. Over runs of packets, passes
and disconnects, each at a true time, this module says when a position that was set at one true
time is sent and recorded by a pass at another.
-/
namespace Win64Server.PositionClock

open Outcome Server Frames FramingSafety HandshakeOutcomes Visits VisibleSets PassExchanges
  Observers

/-- The milliseconds of a day. -/
def day : ℤ := 86400000

/-- The clock at a true time. -/
def atTime (env : Environment) (time : ℤ) : Environment := { env with clock := fun _ => time % day }

inductive Event
  | packet (clientSocket : Socket) (id : ℕ) (buf : BasicStream)
  | disconnect (clientSocket : Socket)
  | pass

structure Timed where
  time : ℤ
  event : Event

/-- `stamped` has the true times at which the user at an address has set its stamp. -/
structure History where
  server : Server
  stamped : Ptr → List ℤ

namespace History

def start (storage : Ptr → Storage) : History := ⟨.initial storage, fun _ => []⟩

/-- A packet is handed out; the bytes from its payload on are in the buffer. -/
def dispatch (env : Environment) (w : History) (clientSocket : Socket) (id : ℕ)
    (buf : BasicStream) : EStateM.Result Fault Session Unit :=
  (processPacket (registerPackets env) clientSocket id 0).run ⟨w.server, buf, []⟩

/-- A position packet that is handled to its end sets the stamp of the user logged in on the
connection; a login starts a new user. -/
def noted (w : History) (time : ℤ) (clientSocket : Socket) (id : ℕ) (handled : Bool) :
    Ptr → List ℤ :=
  if id = 45 then Function.update w.stamped w.server.next []
  else if (id = 1 ∨ id = 3) ∧ handled = true then
    match w.server.clientManager.getUserBySocket clientSocket with
    | some user => Function.update w.stamped user (w.stamped user ++ [time])
    | none => w.stamped
  else w.stamped

def step (env : Environment) (w : History) (e : Timed) : History :=
  match e.event with
  | .packet clientSocket id buf =>
    { server := (finalState (w.dispatch (atTime env e.time) clientSocket id buf)).server
      stamped := w.noted e.time clientSocket id
        (returned (w.dispatch (atTime env e.time) clientSocket id buf)) }
  | .disconnect clientSocket =>
    { w with
      server := finalState ((disconnectUser (atTime env e.time) clientSocket).run w.server) }
  | .pass => { w with server := finalState ((globalUpdate (atTime env e.time)).run w.server) }

/-- Events one after the other, from before the first connection. -/
def run (env : Environment) (storage : Ptr → Storage) (events : List Timed) : History :=
  events.foldl (step env) (start storage)

/-- The latest stamp of a user is the one it set at this true time. -/
def StampedAt (w : History) (user : Ptr) (time : ℤ) : Prop :=
  (w.stamped user).getLast? = some time

/-- `other` is among the local users of `user`, with the stamp it set at this true time. -/
structure RecordedAt (w : History) (user other : Ptr) (time : ℤ) : Prop where
  seen : other ∈ (w.server.heap user).localUsers
  stamped : time ∈ w.stamped other
  recorded : recorded w.server user other = time % day

end History

open History

section Handlers

variable {env : Environment} (clientSocket : Socket) {s : Server} {x : Session}

abbrev SameStamps : Server → Server → Prop := Same User.lastPositionUpdate

/-- A program that sets the stamp of the user when it comes to its end, and before that no stamp
at all. -/
def Stamps (now : ℤ) (user : Option Ptr) (program : HandlerM Unit) : Prop :=
  ∀ x, (∃ e y, program.run x = .error e y ∧ SameStamps x.server y.server) ∨
    ∃ u y, user = some u ∧ program.run x = .ok () y ∧
      ∀ v, (y.server.heap v).lastPositionUpdate =
        if v = u then now else (x.server.heap v).lastPositionUpdate

theorem Stamps.bind {α : Type} {now : ℤ} {user : Option Ptr} (program : HandlerM α)
    {f : α → HandlerM Unit} [hkept : Kept (Lifted SameStamps) program]
    (hf : ∀ a, Stamps now user (f a)) : Stamps now user (program >>= f) := by
  intro x
  have hsame := (hkept.keeps x).1
  cases hrun : program.run x with
  | error e y =>
    rw [hrun] at hsame
    exact Or.inl ⟨e, y, run_bind_of_error hrun, hsame⟩
  | ok a y =>
    rw [hrun, finalState_ok] at hsame
    rw [run_bind_of_ok hrun]
    rcases hf a y with ⟨e, z, herror, hrest⟩ | ⟨u, z, huser, hok, hrest⟩
    · exact Or.inl ⟨e, z, herror, Trans.trans hsame hrest⟩
    · refine Or.inr ⟨u, z, huser, hok, fun v => ?_⟩
      rw [hrest v, hsame v]

theorem Stamps.deref_bind {now : ℤ} (user : Option Ptr) {f : Ptr → HandlerM Unit}
    (hf : ∀ u, user = some u → Stamps now user (f u)) : Stamps now user (deref user >>= f) := by
  cases user with
  | none => exact fun x => Or.inl ⟨_, _, run_bind_of_error rfl, Std.Refl.refl x.server⟩
  | some u => exact fun x => hf u rfl x

/-- The end of both position packets: the clock is read and the stamp set. -/
theorem stamps_setStamp {now : ℤ} {user : Option Ptr} {u : Ptr} (hclock : ∀ n, env.clock n = now)
    (huser : user = some u) (first : ServerM Unit) [hfirst : Kept SameStamps first]
    (hreturns : ∀ s, ∃ t, first.run s = .ok () t) :
    Stamps now user (onServer do
      first
      let time ← readClock env
      updateUser u fun r => { r with lastPositionUpdate := time }) := by
  intro x
  obtain ⟨t, hrun⟩ := hreturns x.server
  have hsame : SameStamps x.server t := hfirst.keeps.ok hrun
  let m : Server := ({ t with ticks := t.ticks + 1 } : Server).modifyUser u fun r =>
    { r with lastPositionUpdate := env.clock t.ticks }
  have hdone : (onServer do
      first
      let time ← readClock env
      updateUser u fun r => { r with lastPositionUpdate := time }).run x =
      .ok () { x with server := m } := by
    rw [run_onServer, run_bind_of_ok hrun]
    rfl
  refine Or.inr ⟨u, _, huser, hdone, fun v => ?_⟩
  by_cases hv : v = u
  · rw [if_pos hv, hv, modifyUser_heap_self]
    exact hclock _
  · rw [if_neg hv, modifyUser_heap_ne _ _ _ _ hv]
    exact hsame v

theorem stamps_pilotUpdate {now : ℤ} (hclock : ∀ n, env.clock n = now) (user : Option Ptr) :
    Stamps now user (PilotUpdate.handle env clientSocket user) := by
  unfold PilotUpdate.handle
  refine .bind _ fun latitude => .bind _ fun longitude => .deref_bind user fun u hu => ?_
  have hlocation : Kept SameStamps
      (updateUser u fun r => { r with location := ⟨latitude, longitude⟩ }) :=
    kept_updateUser u fun _ => rfl
  refine .bind _ fun _ => .bind _ fun hash => .bind _ fun groundSpeed => .bind _ fun altitude => ?_
  have hstate := kept_modifyAircraft (R := SameStamps) u fun a =>
    { a with state :=
        { pitch := pitchOf hash, roll := rollOf hash, heading := headingOf hash
          groundSpeed := groundSpeed, altitude := altitude } }
  exact stamps_setStamp hclock hu _ fun s => ⟨_, rfl⟩

theorem stamps_controllerUpdate {now : ℤ} (hclock : ∀ n, env.clock n = now) (user : Option Ptr) :
    Stamps now user (ControllerUpdate.handle env clientSocket user) := by
  unfold ControllerUpdate.handle
  refine .bind _ fun latitude => .bind _ fun longitude => .deref_bind user fun u hu => ?_
  have hlocation : Kept SameStamps
      (updateUser u fun r => { r with location := ⟨latitude, longitude⟩ }) :=
    kept_updateUser u fun _ => rfl
  exact stamps_setStamp hclock hu _ fun s => ⟨_, rfl⟩

/-- Forgetting a socket leaves the stamps. -/
instance (c : Socket) (close : Bool) : Kept SameStamps (removeClientSocket c close) := by
  refine ⟨fun s user => ?_⟩
  obtain ⟨t, hrun, hheap, -⟩ := removeClientSocket_run s c close
  rw [hrun, finalState_ok, hheap]

/-- A login touches the stamp at the new address only. -/
theorem accept_stamps (f : HandshakePacket.Fields) (s : Server) {user : Ptr}
    (huser : user ≠ s.next) :
    ((finalState ((HandshakePacket.accept clientSocket f).run s)).heap user).lastPositionUpdate =
      (s.heap user).lastPositionUpdate := by
  have hrespond (p : Ptr) (response : ℤ) :
      Kept SameStamps (HandshakePacket.respond clientSocket p response) := by
    unfold HandshakePacket.respond
    refine .of_ite (.of_bind inferInstance fun u => .of_bind inferInstance fun _ => ?_) ?_
    · exact .of_bind inferInstance fun _ => .of_bind inferInstance fun _ => ⟨fun s _ => rfl⟩
    · exact .of_bind inferInstance fun _ => inferInstance
  obtain hstop | ⟨u, hrun⟩ := accept_cases clientSocket f s
  · rw [hstop]
  · have hplaced : (enroll s (f.fill (s.storage s.next) u)).heap user = s.heap user :=
      Function.update_of_ne huser _ _
    have hstamps := (hrespond s.next (if f.protoVersion ≠ protoVersion then 2 else 1)).keeps
      (enroll s (f.fill (s.storage s.next) u)) user
    rw [hplaced] at hstamps
    rw [hrun]
    exact hstamps

theorem handshake_stamps (user : Option Ptr) (x : Session) {v : Ptr} (hv : v ≠ x.server.next) :
    ((finalState ((HandshakePacket.handle clientSocket user).run x)).server.heap
      v).lastPositionUpdate = (x.server.heap v).lastPositionUpdate := by
  have hreads := ((kept_readFields (R := Eq)).keeps x).1
  cases hrun : HandshakePacket.readFields.run x with
  | error e y =>
    rw [hrun, finalState_error] at hreads
    rw [HandshakePacket.handle, run_bind_of_error hrun, finalState_error, ← hreads]
  | ok f y =>
    rw [hrun, finalState_ok] at hreads
    have haccept := accept_stamps clientSocket f x.server hv
    rw [HandshakePacket.handle, run_bind_of_ok hrun, finalState_onServer, ← hreads]
    exact haccept

theorem kept_disconnect (user : Option Ptr) :
    Kept (Lifted SameStamps) (ClientDisconnect.handle clientSocket user) := by
  have hclose : Kept SameStamps (closesocket clientSocket) := ⟨fun _ _ => rfl⟩
  unfold ClientDisconnect.handle
  exact .of_bind inferInstance fun _ => .of_bind inferInstance fun _ => inferInstance

end Handlers

section Steps

variable {env : Environment} {w : History}

/-- A pass and a disconnect leave the stamps. -/
theorem sameStamps_globalUpdate : Keeps SameStamps (globalUpdate env) :=
  (kept_globalUpdate env ⟨fun _ _ => rfl, fun _ _ => rfl, fun _ _ => rfl⟩).keeps

theorem sameStamps_disconnectUser (clientSocket : Socket) :
    Keeps SameStamps (disconnectUser env clientSocket) := by
  unfold disconnectUser
  refine .bind (fun s => Std.Refl.refl s) fun s => ?_
  cases s.clientManager.getUserBySocket clientSocket with
  | none => exact .pure ()
  | some user =>
    dsimp only
    split
    · refine .bind (keeps_iterateLocalUsers (fun _ _ _ => rfl) fun other => ?_) fun _ _ _ => rfl
      have hforget : Kept SameStamps
          (updateUser other fun o => { o with localUsers := o.localUsers.erase user }) :=
        kept_updateUser other fun _ => rfl
      have hadjust : Kept SameStamps (adjustTime env other) :=
        kept_adjustTime (fun _ _ => rfl) env other
      refine Kept.keeps
    · exact .pure ()

/-- The stamp of every user is the time of day at which it was last set. -/
def Stamped (w : History) : Prop :=
  ∀ user time, w.StampedAt user time → (w.server.heap user).lastPositionUpdate = time % day

theorem Stamped.of_same {t : Server} (h : Stamped w) (hsame : SameStamps w.server t) :
    Stamped { w with server := t } :=
  fun user time hlast => (hsame user).trans (h user time hlast)

/-- A packet that sets no stamp. -/
theorem stamped_unset (h : Stamped w) {time : ℤ} {clientSocket : Socket} {id : ℕ}
    (result : EStateM.Result Fault Session Unit) (hlogin : id ≠ 45)
    (hunset : (id ≠ 1 ∧ id ≠ 3) ∨ returned result = false)
    (hsame : SameStamps w.server (finalState result).server) :
    Stamped ⟨(finalState result).server, w.noted time clientSocket id (returned result)⟩ := by
  have hnoted : w.noted time clientSocket id (returned result) = w.stamped := by
    rw [noted, if_neg hlogin, if_neg]
    rintro ⟨hid, hhandled⟩
    rcases hunset with ⟨hne1, hne3⟩ | hnot
    · exact hid.elim hne1 hne3
    · rw [hnot] at hhandled
      cases hhandled
  rw [hnoted]
  exact h.of_same hsame

/-- A position packet. -/
theorem stamped_set (h : Stamped w) {time : ℤ} {clientSocket : Socket} {id : ℕ}
    {program : HandlerM Unit} (hid : id = 1 ∨ id = 3) {x : Session} (hx : x.server = w.server)
    (hstamps : Stamps (time % day) (w.server.clientManager.getUserBySocket clientSocket) program) :
    Stamped ⟨(finalState (program.run x)).server,
      w.noted time clientSocket id (returned (program.run x))⟩ := by
  rcases hstamps x with ⟨e, y, herror, hsame⟩ | ⟨u, y, huser, hok, hset⟩
  · rw [herror]
    rw [hx] at hsame
    exact stamped_unset h (.error e y) (by omega) (Or.inr rfl) hsame
  · rw [hok]
    have hnoted : w.noted time clientSocket id true =
        Function.update w.stamped u (w.stamped u ++ [time]) := by
      rw [noted, if_neg (by omega), if_pos ⟨hid, rfl⟩, huser]
    intro v t hlast
    rw [StampedAt, returned, hnoted] at hlast
    dsimp only at hlast
    change (y.server.heap v).lastPositionUpdate = t % day
    rw [hset v, hx]
    by_cases hv : v = u
    · rw [hv, Function.update_self, List.getLast?_concat] at hlast
      rw [if_pos hv, Option.some.inj hlast]
    · rw [Function.update_of_ne hv] at hlast
      rw [if_neg hv]
      exact h v t hlast

/-- What a packet does to the stamps goes with what is noted. -/
theorem stamped_packet (h : Stamped w) (time : ℤ) (clientSocket : Socket) (id : ℕ)
    (buf : BasicStream) :
    Stamped (w.step env ⟨time, .packet clientSocket id buf⟩) := by
  let user := w.server.clientManager.getUserBySocket clientSocket
  let x : Session := ⟨w.server, buf, [(id, buf.unread.take 0)]⟩
  have hclock (n : ℕ) : (atTime env time).clock n = time % day := rfl
  have hstep : w.step env ⟨time, .packet clientSocket id buf⟩ =
      ⟨(finalState (w.dispatch (atTime env time) clientSocket id buf)).server,
        w.noted time clientSocket id
          (returned (w.dispatch (atTime env time) clientSocket id buf))⟩ := rfl
  rw [hstep]
  cases hpacket : (registerPackets (atTime env time)).getPacket id with
  | none =>
    have hrun : w.dispatch (atTime env time) clientSocket id buf = .ok () x := by
      simp only [dispatch, processPacket, EStateM.run_bind, EStateM.run_get, EStateM.run_set,
        hpacket]
      rfl
    have hid : id ∉ registeredIds := by
      rw [← getPacket_isSome_iff (atTime env time), hpacket]
      simp
    simp only [registeredIds, List.mem_cons, List.not_mem_nil, or_false, not_or] at hid
    rw [hrun]
    exact stamped_unset h _ (by omega) (Or.inl (by omega)) (Std.Refl.refl w.server)
  | some packet =>
    have hrun : w.dispatch (atTime env time) clientSocket id buf =
        (packet.handle clientSocket user).run x := by
      simp only [dispatch, processPacket, EStateM.run_bind, EStateM.run_get, EStateM.run_set,
        hpacket]
      rfl
    rw [hrun]
    rcases kept_handle (R := SameStamps) (atTime env time) clientSocket user hpacket with
      ⟨hid, rfl⟩ | ⟨hid, rfl⟩ | ⟨hid, rfl⟩ | ⟨hid, rfl⟩ | ⟨hid, hkept⟩
    · intro v t hlast
      obtain rfl : id = 45 := by omega
      rw [StampedAt, noted, if_pos rfl] at hlast
      dsimp only at hlast
      by_cases hv : v = w.server.next
      · rw [hv, Function.update_self] at hlast
        cases hlast
      · rw [Function.update_of_ne hv] at hlast
        exact (handshake_stamps clientSocket user x hv).trans (h v t hlast)
    · exact stamped_unset h _ (by omega) (Or.inl (by omega))
        ((kept_disconnect clientSocket user).keeps x).1
    · exact stamped_set h (Or.inl (by omega)) rfl (stamps_pilotUpdate clientSocket hclock user)
    · exact stamped_set h (Or.inr (by omega)) rfl (stamps_controllerUpdate clientSocket hclock user)
    · simp only [exempt, List.mem_cons, List.not_mem_nil, or_false, not_or] at hid
      exact stamped_unset h _ (by omega) (Or.inl (by omega)) (hkept.keeps x).1

theorem stamped_step (h : Stamped w) (e : Timed) : Stamped (w.step env e) := by
  obtain ⟨time, event⟩ := e
  cases event with
  | packet clientSocket id buf => exact stamped_packet h time clientSocket id buf
  | disconnect clientSocket => exact h.of_same (sameStamps_disconnectUser clientSocket _)
  | pass => exact h.of_same (sameStamps_globalUpdate _)

theorem stamped_run (env : Environment) (storage : Ptr → Storage) (events : List Timed) :
    Stamped (run env storage events) := by
  refine Library.foldl_inv (Q := Stamped) (fun w e h => stamped_step h e) ?_ events
  intro user time hlast
  cases hlast

end Steps

/-- From `s` to `r` a position message has been sent for the pair, and the entry that `user` has for
`other` holds the stamp that was set at this true time. -/
structure Conveyed (user other : Ptr) (time : ℤ) (s r : Server) : Prop where
  exchanged : Exchanged user other s r
  recorded : ∃ att, entry r user other = some att ∧ att lastPosUpdate = time % day

/-- In every run, whatever the times: a pass at time `t` sends a position for a user and a local
user and leaves the local user's latest stamp recorded exactly when the local user does not go out
of the user's sight, and the user is marked as needing an update, or the stamp it has recorded
reads zero, or the two stamps read differently and the time of day now is late enough after the
time of day then, or the two stamps read the same and a position is due in the turn of the other
one. The intervals that have really passed do not come into it. -/
theorem position_sent_iff (env : Environment) (storage : Ptr → Storage) (events : List Timed)
    {t t0 t1 : ℤ} {user other : Ptr} {r : Server}
    (huser : user ∈ (run env storage events).server.clientManager.users)
    (hold : (run env storage events).RecordedAt user other t0)
    (hnew : (run env storage events).StampedAt other t1)
    (hpass : (globalUpdate (atTime env t)).run (run env storage events).server = .ok () r) :
    Conveyed user other t1 (run env storage events).server r ↔
      ¬ Leaves (atTime env t) (run env storage events).server user other ∧
        (((run env storage events).server.heap user).updateRequired = true ∨ t0 % day = 0 ∨
          (t0 % day ≠ t1 % day ∧
            request (run env storage events).server user other ≤ t % day - t0 % day) ∨
          (t0 % day = t1 % day ∧
            Takes (atTime env t) (t % day) (run env storage events).server other user)) := by
  have hstamp : ((run env storage events).server.heap other).lastPositionUpdate = t1 % day :=
    stamped_run env storage events other t1 hnew
  have hclock (k : ℕ) : (atTime env t).clock k = t % day := rfl
  have hiff := pass_records_iff hclock hpass huser hold.seen
  rw [Due, hold.recorded, hstamp, or_assoc, or_assoc] at hiff
  rw [← hiff]
  exact ⟨fun h => ⟨h.exchanged, h.recorded⟩, fun h => ⟨h.1, h.2⟩⟩

section Midnight

/-- The login of a controller that asks for an update every second. -/
def login (id : UInt8) : BasicStream :=
  .preallocated (beBytes 4 protoVersion ++ [id, 0] ++ [0] ++ [id, 0] ++ [0] ++ beBytes 8 1000 ++
    List.replicate 16 0 ++ beBytes 2 100 ++ [0] ++ List.replicate 6 0 ++ [1, 1])

/-- Two controllers log in and send their positions shortly before midnight, which a pass records;
shortly after, the second sends its position again. -/
def overMidnight : List Timed :=
  [⟨day - 3000, .packet 1 45 (login 49)⟩, ⟨day - 3000, .packet 2 45 (login 50)⟩,
    ⟨day - 2000, .packet 1 3 (.preallocated (List.replicate 16 0))⟩,
    ⟨day - 2000, .packet 2 3 (.preallocated (List.replicate 16 0))⟩, ⟨day - 1000, .pass⟩,
    ⟨day + 500, .packet 2 3 (.preallocated (List.replicate 16 0))⟩]

def oneRoom : Environment := .orderly fun _ _ => some 0

theorem recordedAt_overMidnight :
    (run oneRoom (fun _ => .zeroed) overMidnight).RecordedAt 0 1 (day - 2000) where
  seen := by decide +kernel
  stamped := by decide +kernel
  recorded := by decide +kernel

theorem stampedAt_overMidnight :
    (run oneRoom (fun _ => .zeroed) overMidnight).StampedAt 1 (day + 500) := by
  unfold StampedAt
  decide +kernel

/-- The pass at a time after the last of these events. -/
def passAt (t : ℤ) : EStateM.Result Fault Server Unit :=
  (globalUpdate (atTime oneRoom t)).run (run oneRoom (fun _ => .zeroed) overMidnight).server

/-- The position waits for the next evening. -/
theorem position_sent_next_evening :
    Conveyed 0 1 (day + 500) (run oneRoom (fun _ => .zeroed) overMidnight).server
      (finalState (passAt (2 * day - 1000))) := by
  have hpass := run_eq_ok (x := globalUpdate (atTime oneRoom (2 * day - 1000)))
    (s := (run oneRoom (fun _ => .zeroed) overMidnight).server) (by decide +kernel)
  have hstays : ¬ Leaves (atTime oneRoom (2 * day - 1000))
      (run oneRoom (fun _ => .zeroed) overMidnight).server 0 1 := fun h =>
    absurd h.far (by decide +kernel)
  have hlate : request (run oneRoom (fun _ => .zeroed) overMidnight).server 0 1 ≤
      (2 * day - 1000) % day - (day - 2000) % day := by
    decide +kernel
  exact (position_sent_iff oneRoom (fun _ => .zeroed) overMidnight (t := 2 * day - 1000)
    (by decide +kernel) recordedAt_overMidnight stampedAt_overMidnight hpass).mpr
    ⟨hstays, Or.inr (Or.inr (Or.inl ⟨by decide +kernel, hlate⟩))⟩

/-- A pass that comes four seconds after the recorded stamp was set, on the other side of
midnight, sends no position to either of the two. -/
theorem position_dropped_at_midnight : ¬ ∀ (env : Environment) (storage : Ptr → Storage)
    (events : List Timed) (t t0 t1 : ℤ) (user other : Ptr) (r : Server),
    user ∈ (run env storage events).server.clientManager.users →
    (run env storage events).RecordedAt user other t0 →
    (run env storage events).StampedAt other t1 → t0 < t1 → t1 ≤ t →
    0 ≤ request (run env storage events).server user other →
    request (run env storage events).server user other ≤ t - t0 →
    0 ≤ ((run env storage events).server.heap other).updateInterval →
    (globalUpdate (atTime env t)).run (run env storage events).server = .ok () r →
    other ∈ (r.heap user).localUsers →
    Conveyed user other t1 (run env storage events).server r := by
  intro h
  have hpass := run_eq_ok (x := globalUpdate (atTime oneRoom (day + 2000)))
    (s := (run oneRoom (fun _ => .zeroed) overMidnight).server) (by decide +kernel)
  have hconveyed := h oneRoom (fun _ => .zeroed) overMidnight (day + 2000)
    (day - 2000) (day + 500) 0 1 _ (by decide +kernel) recordedAt_overMidnight
    stampedAt_overMidnight (by decide) (by decide) (by decide +kernel) (by decide +kernel)
    (by decide +kernel) hpass (by decide +kernel)
  have hsent := hconveyed.exchanged
  unfold Exchanged at hsent
  revert hsent
  decide +kernel

end Midnight

end Win64Server.PositionClock
