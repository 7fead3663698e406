import Win64Server.BasicStream
import Win64Server.Library.Mutex
import Win64Server.Library.Runs
import Mathlib.Data.List.Infix
import Mathlib.Logic.Function.Basic
import Mathlib.Logic.Relation

/-!
How messages reach a socket. Any number of threads call `write` on one user; the calls take the
user's `send_data_mutex` one after the other, and each hands its bytes to `send` in as many
pieces as the socket accepts. Ghost lists record the calls in the order in which they took the
mutex and what each has sent.
-/
namespace Win64Server.SendData

open Library Relation Function

def WSAEWOULDBLOCK : ℤ := 10035

/-- The variables of `send_data`. The last field, which the program does not have, collects
the bytes the socket has accepted from this call. -/
structure Transfer where
  stream : BasicStream
  totalSent : ℕ
  remaining : ℕ
  sent : List UInt8

/-- The vector that `write` copies the stream's bytes into. -/
def Transfer.buffer (t : Transfer) : List UInt8 := t.stream.written

/-- `buffer.data() + total_sent`, as much of it as the socket accepts. -/
def Transfer.piece (t : Transfer) (count : ℕ) : List UInt8 := (t.buffer.drop t.totalSent).take count

def Transfer.advance (t : Transfer) (count : ℕ) : Transfer :=
  { t with
    totalSent := t.totalSent + count
    remaining := t.remaining - count
    sent := t.sent ++ t.piece count }

def Transfer.begin (stream : BasicStream) : Transfer := ⟨stream, 0, stream.written.length, []⟩

/-- Where a thread is in `write`. From `testing` to `sleeping` it holds the mutex. -/
inductive Phase
  | idle
  | locking (stream : BasicStream)
  | testing (stream : BasicStream)
  | sending (transfer : Transfer)
  | sleeping (transfer : Transfer)
  | returned (stream : BasicStream)

/-- A call of `write` that has returned; the error is the one that ended its loop. -/
structure Call (κ : Type) where
  writer : κ
  message : List UInt8
  sent : List UInt8
  error : Option ℤ

/-- The socket of one user, and the threads that write to it. -/
structure Socket (κ : Type) where
  sendDataMutex : Option κ
  writers : κ → Phase
  accepted : List UInt8
  locked : List (κ × List UInt8)
  ended : List (Call κ)

def initial (κ : Type) : Socket κ where
  sendDataMutex := none
  writers := fun _ => .idle
  accepted := []
  locked := []
  ended := []

/-- A thread that is not inside `write` and may call it. -/
def Phase.outside : Phase → Bool
  | .idle | .returned _ => true
  | _ => false

variable {κ : Type}

section Steps

variable [DecidableEq κ]

def Socket.setWriter (s : Socket κ) (i : κ) (phase : Phase) : Socket κ :=
  { s with writers := update s.writers i phase }

/-- `send_data` and `write` return, and the `lock_guard` releases the mutex. -/
def Socket.leave (s : Socket κ) (i : κ) (stream : BasicStream) (call : Call κ) : Socket κ :=
  { s.setWriter i (.returned stream) with sendDataMutex := none, ended := s.ended ++ [call] }

/-- One step of one thread. A thread that waits for the mutex has no step. -/
inductive Step : Socket κ → Socket κ → Prop
  | write {s : Socket κ} {i : κ} (stream : BasicStream) (hphase : (s.writers i).outside = true) :
      Step s (s.setWriter i (.locking stream))
  | lock {s : Socket κ} {i : κ} {stream : BasicStream} (hphase : s.writers i = .locking stream)
      (hfree : s.sendDataMutex = none) :
      Step s { s.setWriter i (.testing stream) with
        sendDataMutex := some i, locked := s.locked ++ [(i, stream.written)] }
  | flushEmpty {s : Socket κ} {i : κ} {stream : BasicStream}
      (hphase : s.writers i = .testing stream) (hempty : stream.index = 0) :
      Step s (s.leave i stream ⟨i, stream.written, [], none⟩)
  | sendData {s : Socket κ} {i : κ} {stream : BasicStream} (hphase : s.writers i = .testing stream)
      (hindex : stream.index ≠ 0) : Step s (s.setWriter i (.sending (.begin stream)))
  | send {s : Socket κ} {i : κ} {t : Transfer} (count : ℕ) (hphase : s.writers i = .sending t)
      (hmore : t.totalSent < t.buffer.length) (hpos : 0 < count)
      (hcount : (count : ℤ) ≤ toInt32 t.remaining) :
      Step s { s.setWriter i (.sending (t.advance count)) with
        accepted := s.accepted ++ t.piece count }
  | wouldBlock {s : Socket κ} {i : κ} {t : Transfer} (hphase : s.writers i = .sending t)
      (hmore : t.totalSent < t.buffer.length) : Step s (s.setWriter i (.sleeping t))
  | resume {s : Socket κ} {i : κ} {t : Transfer} (hphase : s.writers i = .sleeping t) :
      Step s (s.setWriter i (.sending t))
  | fail {s : Socket κ} {i : κ} {t : Transfer} (code : ℤ) (hphase : s.writers i = .sending t)
      (hmore : t.totalSent < t.buffer.length) (hcode : code ≠ WSAEWOULDBLOCK) :
      Step s (s.leave i t.stream.clear ⟨i, t.buffer, t.sent, some code⟩)
  | finish {s : Socket κ} {i : κ} {t : Transfer} (hphase : s.writers i = .sending t)
      (hdone : ¬ t.totalSent < t.buffer.length) :
      Step s (s.leave i t.stream.clear ⟨i, t.buffer, t.sent, none⟩)

/-- The states of a socket that only this user's threads write to. -/
def Reachable : Socket κ → Prop := ReflTransGen Step (initial κ)

end Steps

section Invariant

/-- `total_sent` and `remaining` split the message at the bytes sent so far. -/
structure Transfer.Sound (t : Transfer) : Prop where
  length : t.totalSent + t.remaining = t.buffer.length
  sent : t.sent = t.buffer.take t.totalSent

/-- The calls that end without an error send everything, the others a part from the front. -/
structure Call.Sound (call : Call κ) : Prop where
  sent_begins : call.sent <+: call.message
  whole : call.error = none → call.sent = call.message

/-- The message a thread is sending, and what has been sent of it. -/
def Phase.active : Phase → Option (List UInt8 × List UInt8)
  | .testing stream => some (stream.written, [])
  | .sending t | .sleeping t => some (t.buffer, t.sent)
  | _ => none

/-- The call that holds the mutex: its thread, its message and what has been sent of it. -/
def Socket.current (s : Socket κ) : Option (κ × List UInt8 × List UInt8) :=
  s.sendDataMutex.bind fun i => (s.writers i).active.map fun message => (i, message)

/-- The bytes sent by the calls that have returned, and then by the one that has not. -/
structure Socket.Sound (s : Socket κ) : Prop where
  exclusive : Guards s.sendDataMutex fun i => (s.writers i).active ≠ none
  transfer : ∀ i t, s.writers i = .sending t ∨ s.writers i = .sleeping t → t.Sound
  ended : ∀ call ∈ s.ended, call.Sound
  locked : s.locked = s.ended.map (fun call => (call.writer, call.message)) ++
    s.current.toList.map fun c => (c.1, c.2.1)
  accepted : s.accepted = (s.ended.map Call.sent).flatten ++ s.current.elim [] fun c => c.2.2

end Invariant

theorem toInt32_natCast_le (n : ℕ) : toInt32 n ≤ n := by
  have h : ((n : ℤ)).bmod (2 ^ 32) ≤ (n : ℤ) := by
    rw [Int.bmod_def]
    split <;> omega
  exact h

namespace Transfer

theorem sound_begin (stream : BasicStream) : (begin stream).Sound where
  length := Nat.zero_add _
  sent := rfl

/-- The socket accepts no more than is left, so nothing wraps. -/
theorem Sound.advance {t : Transfer} (h : t.Sound) {count : ℕ}
    (hcount : (count : ℤ) ≤ toInt32 t.remaining) : (t.advance count).Sound where
  length := by
    have hle : count ≤ t.remaining := by
      have := toInt32_natCast_le t.remaining
      omega
    have hlength : t.totalSent + t.remaining = t.buffer.length := h.length
    show t.totalSent + count + (t.remaining - count) = t.buffer.length
    omega
  sent := by
    show t.sent ++ (t.buffer.drop t.totalSent).take count = t.buffer.take (t.totalSent + count)
    rw [h.sent, List.take_add]

theorem Sound.sent_begins {t : Transfer} (h : t.Sound) : t.sent <+: t.buffer := by
  rw [h.sent]
  exact List.take_prefix _ _

theorem Sound.whole {t : Transfer} (h : t.Sound) (hdone : ¬ t.totalSent < t.buffer.length) :
    t.sent = t.buffer := by
  rw [h.sent]
  exact List.take_of_length_le (by omega)

end Transfer

namespace Socket.Sound

variable {s : Socket κ} {i : κ} {phase : Phase} {message sent : List UInt8}

theorem initial : (initial κ).Sound where
  exclusive := fun _ hactive => absurd rfl hactive
  transfer := by rintro i t (h | h) <;> cases h
  ended := by
    intro call hcall
    cases hcall
  locked := rfl
  accepted := rfl

theorem mutex (h : s.Sound) (hactive : (s.writers i).active = some (message, sent)) :
    s.sendDataMutex = some i := h.exclusive i (by simp [hactive])

theorem current (h : s.Sound) (hactive : (s.writers i).active = some (message, sent)) :
    s.current = some (i, message, sent) := by
  simp [Socket.current, h.mutex hactive, hactive]

/-- What has been sent of the message that a thread is sending. -/
theorem sent_begins (h : s.Sound) (hactive : (s.writers i).active = some (message, sent)) :
    sent <+: message := by
  cases hphase : s.writers i with
  | testing stream =>
    rw [hphase] at hactive
    cases hactive
    exact List.nil_prefix
  | sending t =>
    rw [hphase] at hactive
    cases hactive
    exact (h.transfer i t (Or.inl hphase)).sent_begins
  | sleeping t =>
    rw [hphase] at hactive
    cases hactive
    exact (h.transfer i t (Or.inr hphase)).sent_begins
  | idle =>
    rw [hphase] at hactive
    cases hactive
  | locking stream =>
    rw [hphase] at hactive
    cases hactive
  | returned stream =>
    rw [hphase] at hactive
    cases hactive

/-- What the current call has sent is a part from the front of its message. -/
theorem current_begins (h : s.Sound) :
    ∃ k, (s.current.elim [] fun c => c.2.2) = s.current.elim [] fun c => c.2.1.take k := by
  cases hcurrent : s.current with
  | none => exact ⟨0, rfl⟩
  | some c =>
    obtain ⟨i, message, sent⟩ := c
    obtain ⟨j, _, hmap⟩ := Option.bind_eq_some_iff.mp hcurrent
    obtain ⟨active, hactive, heq⟩ := Option.map_eq_some_iff.mp hmap
    obtain ⟨rfl, rfl⟩ := Prod.mk.inj heq
    exact ⟨sent.length, List.prefix_iff_eq_take.mp (h.sent_begins hactive)⟩

variable [DecidableEq κ]

/-- A thread moves on while its message and what has been sent of it stay the same. -/
theorem setWriter (h : s.Sound) (hsame : phase.active = (s.writers i).active)
    (htransfer : ∀ t, phase = .sending t ∨ phase = .sleeping t → t.Sound) :
    (s.setWriter i phase).Sound := by
  have hactive : ∀ j, ((s.setWriter i phase).writers j).active = (s.writers j).active := by
    intro j
    by_cases hj : j = i
    · subst hj
      simpa [Socket.setWriter] using hsame
    · simp [Socket.setWriter, hj]
  have hcurrent : (s.setWriter i phase).current = s.current := by
    simp only [Socket.current, hactive]
    rfl
  refine ⟨?_, ?_, h.ended, ?_, ?_⟩
  · exact Guards.keep h.exclusive fun j hj => by rwa [← hactive j]
  · intro j t hj
    by_cases heq : j = i
    · subst heq
      exact htransfer t (by simpa [Socket.setWriter] using hj)
    · exact h.transfer j t (by simpa [Socket.setWriter, heq] using hj)
  · rw [hcurrent]
    exact h.locked
  · rw [hcurrent]
    exact h.accepted

theorem lock (h : s.Sound) (hfree : s.sendDataMutex = none) (stream : BasicStream) :
    Socket.Sound { s.setWriter i (.testing stream) with
      sendDataMutex := some i, locked := s.locked ++ [(i, stream.written)] } := by
  have hnone : s.current = none := by
    rw [Socket.current, hfree]
    rfl
  have hnow : (s.setWriter i (.testing stream)).writers i = .testing stream := by
    simp [Socket.setWriter]
  have hexclusive := h.exclusive
  have hlocked := h.locked
  have haccepted := h.accepted
  rw [hfree] at hexclusive
  rw [hnone] at hlocked haccepted
  refine ⟨?_, ?_, h.ended, ?_, ?_⟩
  · exact Guards.enter hexclusive fun j hne => by simp [Socket.setWriter, hne]
  · intro j t hj
    by_cases heq : j = i
    · subst heq
      rw [hnow] at hj
      rcases hj with hj | hj <;> cases hj
    · exact h.transfer j t (by simpa [Socket.setWriter, heq] using hj)
  · show s.locked ++ [(i, stream.written)] = _
    simp [Socket.current, Socket.setWriter, Phase.active, hlocked]
  · show s.accepted = _
    simp [Socket.current, Socket.setWriter, Phase.active, haccepted]

/-- The socket accepts the next bytes of the message. -/
theorem send (h : s.Sound) {t : Transfer} (hphase : s.writers i = .sending t) {count : ℕ}
    (hcount : (count : ℤ) ≤ toInt32 t.remaining) :
    Socket.Sound { s.setWriter i (.sending (t.advance count)) with
      accepted := s.accepted ++ t.piece count } := by
  have hactive : (s.writers i).active = some (t.buffer, t.sent) := by rw [hphase]; rfl
  have hmutex : s.sendDataMutex = some i := h.mutex hactive
  have hnow : (s.setWriter i (.sending (t.advance count))).writers i =
      .sending (t.advance count) := by simp [Socket.setWriter]
  have hlocked := h.locked
  have haccepted := h.accepted
  rw [h.current hactive] at hlocked haccepted
  refine ⟨?_, ?_, h.ended, ?_, ?_⟩
  · refine Guards.keep h.exclusive fun j hj => ?_
    by_cases heq : j = i
    · rw [heq, hactive]
      simp
    · simpa [Socket.setWriter, heq] using hj
  · intro j u hj
    by_cases heq : j = i
    · subst heq
      rw [hnow] at hj
      rcases hj with hj | hj
      · cases hj
        exact (h.transfer j t (Or.inl hphase)).advance hcount
      · cases hj
    · exact h.transfer j u (by simpa [Socket.setWriter, heq] using hj)
  · show s.locked = _
    rw [hlocked]
    simp only [Socket.current, hmutex, Socket.setWriter, Option.bind_some, update_self,
      Phase.active, Option.map_some]
    rfl
  · show s.accepted ++ t.piece count = _
    rw [haccepted]
    simp [Socket.current, hmutex, Socket.setWriter, Phase.active, Transfer.advance]

/-- A call returns and gives the mutex back. -/
theorem leave (h : s.Sound) (hactive : (s.writers i).active = some (message, sent))
    (stream : BasicStream) {error : Option ℤ} (hwhole : error = none → sent = message) :
    (s.leave i stream ⟨i, message, sent, error⟩).Sound := by
  have hcurrent : s.current = some (i, message, sent) := h.current hactive
  have hlocked := h.locked
  have haccepted := h.accepted
  rw [hcurrent] at hlocked haccepted
  refine ⟨?_, ?_, ?_, ?_, ?_⟩
  · refine Guards.exit (i := i) h.exclusive (by simp [hactive]) ?_ fun j hne => ?_
    · simp [Socket.leave, Socket.setWriter, Phase.active]
    · simp [Socket.leave, Socket.setWriter, hne]
  · intro j t hj
    by_cases heq : j = i
    · subst heq
      rcases hj with hj | hj <;> simp [Socket.leave, Socket.setWriter] at hj
    · exact h.transfer j t (by simpa [Socket.leave, Socket.setWriter, heq] using hj)
  · intro call hcall
    rcases List.mem_append.mp hcall with hcall | hcall
    · exact h.ended call hcall
    · obtain rfl := List.mem_singleton.mp hcall
      exact ⟨h.sent_begins hactive, hwhole⟩
  · show s.locked = (s.ended ++ [_]).map _ ++ []
    rw [hlocked, List.map_append, List.append_nil]
    rfl
  · show s.accepted = ((s.ended ++ [_]).map Call.sent).flatten ++ []
    rw [haccepted, List.map_append, List.flatten_append, List.append_nil]
    simp

end Socket.Sound

section Runs

variable [DecidableEq κ] {s s' : Socket κ}

theorem Socket.Sound.step (h : s.Sound) (hstep : Step s s') : s'.Sound := by
  cases hstep with
  | @write i stream hphase =>
    refine h.setWriter ?_ (by simp)
    cases hwriter : s.writers i <;> simp_all [Phase.outside, Phase.active]
  | @lock i stream hphase hfree => exact h.lock hfree stream
  | @flushEmpty i stream hphase hempty =>
    have hnil : stream.written = [] := by simp [BasicStream.written, hempty]
    exact h.leave (by rw [hphase]; rfl) stream fun _ => hnil.symm
  | @sendData i stream hphase hindex =>
    refine h.setWriter (by rw [hphase]; rfl) ?_
    rintro t (ht | ht)
    · cases ht
      exact Transfer.sound_begin stream
    · cases ht
  | @send i t count hphase hmore hpos hcount => exact h.send hphase hcount
  | @wouldBlock i t hphase hmore =>
    refine h.setWriter (by rw [hphase]; rfl) ?_
    rintro u (hu | hu)
    · cases hu
    · cases hu
      exact h.transfer i t (Or.inl hphase)
  | @resume i t hphase =>
    refine h.setWriter (by rw [hphase]; rfl) ?_
    rintro u (hu | hu)
    · cases hu
      exact h.transfer i t (Or.inr hphase)
    · cases hu
  | @fail i t code hphase hmore hcode =>
    exact h.leave (by rw [hphase]; rfl) t.stream.clear fun hnone => by cases hnone
  | @finish i t hphase hdone =>
    have hwhole : t.sent = t.buffer := (h.transfer i t (Or.inl hphase)).whole hdone
    exact h.leave (by rw [hphase]; rfl) t.stream.clear fun _ => hwhole

theorem sound_of_reachable (h : Reachable s) : s.Sound := by
  induction h with
  | refl => exact Socket.Sound.initial
  | tail _ hstep ih => exact ih.step hstep

theorem messages_whole (h : Reachable s) :
    (∀ call ∈ s.ended, call.sent <+: call.message ∧
      (call.error = none → call.sent = call.message)) ∧
    s.locked = s.ended.map (fun call => (call.writer, call.message)) ++
      s.current.toList.map (fun c => (c.1, c.2.1)) ∧
    ((∀ call ∈ s.ended, call.error = none) → ∃ k, s.accepted =
      (s.ended.map Call.message).flatten ++ s.current.elim [] fun c => c.2.1.take k) := by
  have hsound : s.Sound := sound_of_reachable h
  refine ⟨fun call hcall => ?_, hsound.locked, fun hnone => ?_⟩
  · exact ⟨(hsound.ended call hcall).sent_begins, (hsound.ended call hcall).whole⟩
  · obtain ⟨k, hk⟩ := hsound.current_begins
    have hsent : s.ended.map Call.sent = s.ended.map Call.message :=
      List.map_congr_left fun call hcall => (hsound.ended call hcall).whole (hnone call hcall)
    exact ⟨k, by rw [hsound.accepted, hsent, hk]⟩

/-- Two threads write; the one that has the mutex sends in two pieces while the other waits. -/
theorem leads_whole : Leads Step (fun s : Socket Bool => s.accepted = [1, 2, 3, 4] ∧
    (∀ call ∈ s.ended, call.error = none) ∧ s.ended.map Call.message = [[1, 2, 3], [4]])
    (initial Bool) := by
  let first : BasicStream := { BasicStream.preallocated [1, 2, 3] with index := 3 }
  let second : BasicStream := { BasicStream.preallocated [4] with index := 1 }
  refine .after (.write (i := true) first rfl) ?_
  refine .after (.lock (i := true) rfl rfl) ?_
  refine .after (.write (i := false) second rfl) ?_
  refine .after (.sendData (i := true) rfl (by decide)) ?_
  refine .after (.send (i := true) 2 rfl (by decide) (by decide) (by decide)) ?_
  refine .after (.wouldBlock (i := true) rfl (by decide)) ?_
  refine .after (.resume (i := true) rfl) ?_
  refine .after (.send (i := true) 1 rfl (by decide) (by decide) (by decide)) ?_
  refine .after (.finish (i := true) rfl (by decide)) ?_
  refine .after (.lock (i := false) rfl rfl) ?_
  refine .after (.sendData (i := false) rfl (by decide)) ?_
  refine .after (.send (i := false) 1 rfl (by decide) (by decide) (by decide)) ?_
  refine .after (.finish (i := false) rfl (by decide)) ?_
  exact .here ⟨by decide, by simp [Socket.leave, Socket.setWriter, initial], rfl⟩

theorem messages_whole_two : ∃ s : Socket Bool, s.accepted = [1, 2, 3, 4] ∧
    ∃ k, s.accepted = [1, 2, 3] ++ [4] ++ s.current.elim [] fun c => c.2.1.take k := by
  obtain ⟨s, hrun, haccepted, hnone, hmessages⟩ := leads_whole
  obtain ⟨k, hk⟩ := (messages_whole hrun).2.2 hnone
  rw [hmessages] at hk
  exact ⟨s, haccepted, k, hk⟩

end Runs

end Win64Server.SendData
