import Win64Server.Observers
import Win64Server.PacketFields

/-!
The intervals a client asks for. A user keeps one for each of ten types in an array that has no
bounds check; the packet that changes one names its place by a byte. The readers of the array use
the type of another user, which is 0 or 1.
-/
namespace Win64Server.RequestTimes

open Outcome Library BasicStream Server PacketFields

/-- `requestTime[type]`, when the array has such an element. -/
def requestTimeAt (u : User) (type : ℤ) : Option ℤ :=
  if h : 0 ≤ type ∧ type < typeIntervals then some (u.requestTime ⟨type.toNat, by omega⟩) else none

/-- A read by the type of a user is inside the array. -/
theorem requestTimeAt_type (u : User) (type : AvClient) :
    requestTimeAt u type.toInt = some (u.getRequestedInterval type) := by
  cases type <;> rfl

/-- The fields of a packet that asks for an interval. -/
structure ChangeCycle where
  index : Bytes 2
  type : UInt8
  time : Bytes 8

namespace ChangeCycle

def bytes (p : ChangeCycle) : List UInt8 := p.index.1 ++ ([p.type] ++ p.time.1)

/-- The index is that of the user who sent the packet. -/
abbrev Names (p : ChangeCycle) (s : Server) (sender : Ptr) : Prop :=
  s.clientManager.getUserByIndex (beNat p.index.1) = some sender

end ChangeCycle

/-- The user with one element of the array replaced. -/
def withRequest (i : Fin typeIntervals) (request : ℤ) (u : User) : User :=
  { u with requestTime := Function.update u.requestTime i request }

/-- The packet stores in at most one element of its sender's array, inside the array, and nowhere
else; and whenever an interval is read later, by the type of some user, that is inside as well. -/
structure Confined (sender : Ptr) (x : Session) (result : EStateM.Result Fault Session Unit) :
    Prop where
  inside : ∀ y, result ≠ .error (.undefined .indexPastArray) y
  stored : ∃ i request,
    (finalState result).server = x.server.modifyUser sender (withRequest i request)
  reads : ∀ (later : Server) (user other : Ptr),
    requestTimeAt (later.heap user) (later.heap other).getType.toInt =
      some ((later.heap user).getRequestedInterval (later.heap other).getType)

section Handling

variable {p : ChangeCycle} {x : Session} {rest : List UInt8} (clientSocket : Socket) (sender : Ptr)

theorem modifyUser_withRequest_self (s : Server) (user : Ptr) (i : Fin typeIntervals) :
    s.modifyUser user (withRequest i ((s.heap user).requestTime i)) = s := by
  simp [modifyUser, withRequest]

/-- A field is taken off the unread bytes. -/
theorem unread_advanced {bytes more : List UInt8} (h : x.buf.unread = bytes ++ more) :
    (advance x.buf bytes.length).unread = more := by
  rw [advance, unread_advance, h, List.drop_left]

/-- The end of the handler. -/
def storeRequest (p : ChangeCycle) (sender : Ptr) : ServerM Unit := do
  let r ← getUser sender
  match r.setRequestedInterval p.type.toNat (toInt64 (beNat p.time.1)) with
  | some changed => updateUser sender fun _ => changed
  | none => throw (.undefined .indexPastArray)

/-- The three fields are read whatever they say. -/
theorem handle_run (hunread : x.buf.unread = p.bytes ++ rest) :
    ∃ buf, (ChangeCyclePacket.handle clientSocket (some sender)).run x =
      (if p.Names x.server sender then onServer (storeRequest p sender) else pure ()).run
        { x with buf := buf } := by
  have hfirst : x.buf.unread = p.index.1 ++ ([p.type] ++ p.time.1 ++ rest) := by
    rw [hunread, ChangeCycle.bytes, List.append_assoc]
  obtain ⟨_, hindex, rfl⟩ := reads_short p.index x _ hfirst
  let y : Session := { x with buf := advance x.buf p.index.1.length }
  have hsecond : y.buf.unread = [p.type] ++ (p.time.1 ++ rest) := by
    rw [unread_advanced hfirst, List.append_assoc]
  obtain ⟨_, htype, rfl⟩ := reads_byte p.type y _ hsecond
  let z : Session := { y with buf := advance y.buf [p.type].length }
  obtain ⟨_, htime, rfl⟩ := reads_qWord p.time z rest (unread_advanced hsecond)
  refine ⟨advance z.buf p.time.1.length, ?_⟩
  rw [ChangeCyclePacket.handle, run_bind_of_ok hindex, run_bind_of_ok (EStateM.run_get ..),
    run_bind_of_ok htype, run_bind_of_ok htime]
  rfl

theorem storeRequest_run (s : Server) :
    (storeRequest p sender).run s =
      if h : p.type.toNat < typeIntervals then .ok () (s.modifyUser sender
        (withRequest ⟨p.type.toNat, h⟩ (toInt64 (beNat p.time.1))))
      else .error (.undefined .indexPastArray) s := by
  rw [storeRequest, run_bind_of_ok (getUser_run ..), User.setRequestedInterval]
  by_cases h : p.type.toNat < typeIntervals
  · rw [dif_pos h, dif_pos h]
    rfl
  · rw [dif_neg h, dif_neg h]
    rfl

/-- The store is inside the array exactly for a type below ten. -/
theorem handle_confined_iff (hunread : x.buf.unread = p.bytes ++ rest) :
    Confined sender x ((ChangeCyclePacket.handle clientSocket (some sender)).run x) ↔
      ¬ (p.Names x.server sender ∧ typeIntervals ≤ p.type.toNat) := by
  obtain ⟨buf, hrun⟩ := handle_run clientSocket sender hunread
  have hreads (later : Server) (user other : Ptr) :=
    requestTimeAt_type (later.heap user) (later.heap other).getType
  rw [hrun]
  by_cases hnames : p.Names x.server sender
  · have hstore := storeRequest_run sender (p := p) x.server
    rw [if_pos hnames, run_onServer, hstore]
    by_cases htype : p.type.toNat < typeIntervals
    · rw [dif_pos htype]
      exact iff_of_true ⟨fun y hy => (by cases hy), ⟨_, _, rfl⟩, hreads⟩ (by omega)
    · rw [dif_neg htype]
      exact iff_of_false (fun h => h.inside _ rfl) (not_not.mpr ⟨hnames, by omega⟩)
  · rw [if_neg hnames]
    refine iff_of_true ⟨fun y hy => (by cases hy), ?_, hreads⟩ fun h => hnames h.1
    exact ⟨0, _, (modifyUser_withRequest_self x.server sender 0).symm⟩

end Handling

/-- The controller asks for its first interval, and for one behind its last. -/
def ownRequest (type : UInt8) : ChangeCycle where
  index := ⟨[0, 0], rfl⟩
  type := type
  time := ⟨[0, 0, 0, 0, 0, 0, 3, 232], rfl⟩

def asking (type : UInt8) : Session :=
  ⟨Observers.twoUsers, .preallocated (ownRequest type).bytes, []⟩

theorem handle_confined_first :
    Confined 0 (asking 0) ((ChangeCyclePacket.handle 1 (some 0)).run (asking 0)) :=
  (handle_confined_iff 1 0 (p := ownRequest 0) (x := asking 0) (List.append_nil _).symm).mpr
    (by decide +kernel)

theorem store_behind_array : ¬ ∀ (p : ChangeCycle) (sender : Ptr) (x : Session)
    (clientSocket : Socket) (rest : List UInt8), x.buf.unread = p.bytes ++ rest →
    Confined sender x ((ChangeCyclePacket.handle clientSocket (some sender)).run x) := by
  intro h
  have hconfined := h (ownRequest 10) 0 (asking 10) 1 [] rfl
  obtain ⟨buf, hrun⟩ := handle_run 1 0 (p := ownRequest 10) (x := asking 10)
    (List.append_nil _).symm
  have hnames : (ownRequest 10).Names (asking 10).server 0 := by decide +kernel
  have hbehind : ¬ (ownRequest 10).type.toNat < typeIntervals := by decide
  rw [if_pos hnames, run_onServer, storeRequest_run, dif_neg hbehind] at hrun
  exact hconfined.inside _ hrun

end Win64Server.RequestTimes
