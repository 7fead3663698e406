import Win64Server.Tables
import Mathlib.Data.List.Range
import Mathlib.Data.List.Nodup

/-!
Polling the list of sockets by index. The timer splits the list into ranges, and a pass reads the
list at every index of its range. A handler that is called in the middle of a pass may take the
socket it was called for off the list, and then the sockets behind it move up.
-/
namespace Win64Server.Polling

open Outcome

section Ranges

def processThreads : ℕ := 2

/-- The ranges still to be handed out; the first ones get one of the remaining clients each. -/
def rangesFrom (clientsPerThread : ℕ) : ℕ → ℕ → ℕ → List (ℕ × ℕ)
  | 0, _, _ => []
  | rounds + 1, start, remainingClients =>
    let stop := start + clientsPerThread + if 0 < remainingClients then 1 else 0
    (start, stop) :: rangesFrom clientsPerThread rounds stop (remainingClients - 1)

/-- What `timer_function` computes for a list of so many clients. -/
def ranges (numClients : ℕ) : List (ℕ × ℕ) :=
  rangesFrom (numClients / processThreads) processThreads 0 (numClients % processThreads)

theorem rangesFrom_bounds {clientsPerThread rounds first remaining : ℕ} (h : remaining ≤ rounds)
    {range : ℕ × ℕ} (hrange : range ∈ rangesFrom clientsPerThread rounds first remaining) :
    first ≤ range.1 ∧ range.1 ≤ range.2 ∧
      range.2 ≤ first + rounds * clientsPerThread + remaining := by
  induction rounds generalizing first remaining with
  | zero => cases hrange
  | succ rounds ih =>
    rw [Nat.succ_mul]
    rcases List.mem_cons.mp hrange with rfl | hrest
    · dsimp only
      split <;> omega
    · obtain ⟨hlow, hmiddle, hhigh⟩ := ih (by omega) hrest
      split at hlow <;> split at hhigh <;> omega

/-- No range goes beyond the list it was computed for. -/
theorem ranges_bounds {n : ℕ} {range : ℕ × ℕ} (h : range ∈ ranges n) :
    range.1 ≤ range.2 ∧ range.2 ≤ n := by
  have hmod : n % processThreads ≤ processThreads := (Nat.mod_lt _ (by decide)).le
  obtain ⟨-, hmiddle, hhigh⟩ := rangesFrom_bounds hmod h
  have hsplit : processThreads * (n / processThreads) + n % processThreads = n :=
    Nat.div_add_mod _ _
  omega

end Ranges

section Passes

variable {α β : Type} (socketOf : α → Socket)

/-- One round of the loop: the index that is read and the list as it stands. -/
structure Turn (α : Type) where
  index : ℕ
  sockets : List α

def Turn.polled (turn : Turn α) : Option α := turn.sockets[turn.index]?

/-- `removeClientSocket` takes the first entry of the socket off the list. -/
def removeClientSocket (clientSocket : Socket) (sockets : List α) : List α :=
  sockets.eraseP fun a => socketOf a = clientSocket

/-- A pass over so many indices; a read behind the end of the list is the last thing it does. -/
def processClients (removes : ℕ → Bool) : ℕ → ℕ → List α → List (Turn α)
  | 0, _, _ => []
  | rounds + 1, i, sockets =>
    ⟨i, sockets⟩ :: match sockets[i]? with
      | some a => processClients removes rounds (i + 1)
          (if removes i then removeClientSocket socketOf (socketOf a) sockets else sockets)
      | none => []

/-- The pass does not look at more than the sockets. -/
theorem processClients_map (f : α → β) (socketOf' : β → Socket)
    (hf : ∀ a, socketOf' (f a) = socketOf a) (removes : ℕ → Bool) (rounds i : ℕ)
    (sockets : List α) :
    processClients socketOf' removes rounds i (sockets.map f) =
      (processClients socketOf removes rounds i sockets).map
        fun turn => ⟨turn.index, turn.sockets.map f⟩ := by
  induction rounds generalizing i sockets with
  | zero => rfl
  | succ rounds ih =>
    have hremove (clientSocket : Socket) :
        removeClientSocket socketOf' clientSocket (sockets.map f) =
          (removeClientSocket socketOf clientSocket sockets).map f := by
      simp only [removeClientSocket, List.eraseP_map, Function.comp_def, hf]
    rw [processClients, processClients, List.getElem?_map]
    cases sockets[i]? with
    | none => rfl
    | some a =>
      simp only [Option.map_some, hf, hremove, List.map_cons]
      rw [← ih]
      split <;> rfl

theorem processClients_one (removes : ℕ → Bool) (i : ℕ) (sockets : List α) :
    processClients socketOf removes 1 i sockets = [⟨i, sockets⟩] := by
  rw [processClients]
  cases sockets[i]? <;> rfl

/-- Rounds in which nothing is removed. -/
theorem processClients_append {removes : ℕ → Bool} {i k : ℕ} (m : ℕ) {sockets : List α}
    (hquiet : ∀ j, i ≤ j → j < i + k → removes j = false) (hk : i + k ≤ sockets.length) :
    processClients socketOf removes (k + m) i sockets =
      (List.range' i k).map (fun j => ⟨j, sockets⟩) ++
        processClients socketOf removes m (i + k) sockets := by
  induction k generalizing i with
  | zero => simp
  | succ k ih =>
    have hrest := ih (i := i + 1) (fun j hlow hhigh => hquiet j (by omega) (by omega)) (by omega)
    have hround : processClients socketOf removes (k + 1 + m) i sockets =
        ⟨i, sockets⟩ :: processClients socketOf removes (k + m) (i + 1) sockets := by
      rw [Nat.add_right_comm, processClients, List.getElem?_eq_getElem (by omega),
        hquiet i le_rfl (by omega)]
      rfl
    rw [hround, hrest, List.range'_succ, List.map_cons, List.cons_append, Nat.add_right_comm,
      Nat.add_assoc]

/-- The rest of a pass only sees what stands behind the index. -/
theorem polled_behind {removes : ℕ → Bool} {rounds i : ℕ} {sockets tail : List α}
    (h : (sockets.drop i).Sublist tail) :
    ∀ a ∈ (processClients socketOf removes rounds i sockets).filterMap Turn.polled, a ∈ tail := by
  induction rounds generalizing i sockets with
  | zero => simp [processClients]
  | succ rounds ih =>
    intro a ha
    rw [processClients] at ha
    cases hi : sockets[i]? with
    | none => simp [hi, Turn.polled] at ha
    | some b =>
      have hb : b ∈ tail := h.subset (List.mem_of_getElem? (i := 0) (by simpa using hi))
      simp only [hi, List.filterMap_cons, Turn.polled, List.mem_cons] at ha
      rcases ha with rfl | ha
      · exact hb
      · refine ih ?_ a ha
        have hnext : (sockets.drop (i + 1)).Sublist tail :=
          (List.drop_sublist_drop_left sockets (Nat.le_succ i)).trans h
        split
        · exact (List.eraseP_sublist.drop (i + 1)).trans hnext
        · exact hnext

/-- Behind an entry that matches, everything has moved up. -/
theorem drop_eraseP {p : α → Bool} {sockets : List α} {i : ℕ} {a : α}
    (hi : sockets[i]? = some a) (ha : p a) :
    (sockets.eraseP p).drop i = sockets.drop (i + 1) := by
  induction sockets generalizing i with
  | nil => cases hi
  | cons b sockets ih =>
    cases i with
    | zero =>
      cases hi
      simp [ha]
    | succ i =>
      by_cases hb : p b
      · simp [hb]
      · simp only [List.eraseP_cons, hb, cond_false, List.drop_succ_cons]
        exact ih hi

end Passes

section Entries

/-- A socket and the index it had when the ranges were computed. -/
abbrev Entry := Socket × ℕ

/-- The pass over a range of this list. -/
def pass (removes : ℕ → Bool) (clientSockets : List Socket) (range : ℕ × ℕ) : List (Turn Entry) :=
  processClients Prod.fst removes (range.2 - range.1) range.1 clientSockets.zipIdx

/-- No read is outside the list, and an entry of the range that is still there when its turn comes
is polled once. -/
structure Fair (clientSockets : List Socket) (turns : List (Turn Entry)) : Prop where
  inside : ∀ turn ∈ turns, turn.index < turn.sockets.length
  once : ∀ turn ∈ turns, ∀ clientSocket, clientSockets[turn.index]? = some clientSocket →
    (clientSocket, turn.index) ∈ turn.sockets →
    (turns.filterMap Turn.polled).count (clientSocket, turn.index) = 1

variable {clientSockets : List Socket} {removes : ℕ → Bool} {start stop : ℕ}

theorem snd_of_getElem? {j : ℕ} {entry : Entry} (h : clientSockets.zipIdx[j]? = some entry) :
    entry.2 = j := by
  rw [List.getElem?_zipIdx] at h
  obtain ⟨a, -, rfl⟩ := Option.map_eq_some_iff.mp h
  exact Nat.zero_add j

theorem getElem?_zipIdx_self {j : ℕ} (hj : j < clientSockets.length) :
    clientSockets.zipIdx[j]? = some (clientSockets[j], j) := by
  rw [List.getElem?_zipIdx, List.getElem?_eq_getElem hj, Option.map_some, Nat.zero_add]

/-- A pass that at most removes the last socket of its range. -/
theorem fair_of_quiet (hstart : start ≤ stop) (hstop : stop ≤ clientSockets.length)
    (hquiet : ∀ i, start ≤ i → i + 1 < stop → removes i = false) :
    Fair clientSockets (pass removes clientSockets (start, stop)) := by
  have hturns : pass removes clientSockets (start, stop) =
      (List.range' start (stop - start)).map fun j => ⟨j, clientSockets.zipIdx⟩ := by
    rcases Nat.eq_or_lt_of_le hstart with rfl | hlt
    · simp [pass, processClients]
    · obtain ⟨k, rfl⟩ : ∃ k, stop = start + k + 1 := ⟨stop - start - 1, by omega⟩
      have hcount : start + k + 1 - start = k + 1 := by omega
      rw [pass, hcount, processClients_append _ 1 (fun j hlow hhigh => hquiet j hlow (by omega))
        (by rw [List.length_zipIdx]; omega), List.range'_concat, List.map_append,
        processClients_one, Nat.one_mul]
      rfl
  rw [hturns]
  constructor
  · intro turn hturn
    obtain ⟨j, hj, rfl⟩ := List.mem_map.mp hturn
    rw [List.mem_range'_1] at hj
    dsimp only
    rw [List.length_zipIdx]
    omega
  · intro turn hturn clientSocket hsocket _
    obtain ⟨j, hj, rfl⟩ := List.mem_map.mp hturn
    have hnodup : ((List.range' start (stop - start)).filterMap
        fun j => clientSockets.zipIdx[j]?).Nodup := by
      refine List.Nodup.filterMap (fun i j entry hi hj => ?_) List.nodup_range'
      exact (snd_of_getElem? hi).symm.trans (snd_of_getElem? hj)
    have hpolled : clientSockets.zipIdx[j]? = some (clientSocket, j) := by
      dsimp only at hsocket
      rw [List.getElem?_zipIdx, hsocket, Option.map_some, Nat.zero_add]
    rw [List.filterMap_map]
    exact List.count_eq_one_of_mem hnodup (List.mem_filterMap.mpr ⟨j, hj, hpolled⟩)

/-- A pass up to the first removal. -/
theorem pass_of_removal {k m : ℕ} (hrounds : stop - start = k - start + (m + 1)) (hlow : start ≤ k)
    (hk : k < clientSockets.length) (hquiet : ∀ i, start ≤ i → i < k → removes i = false)
    (hremoves : removes k = true) :
    pass removes clientSockets (start, stop) =
      (List.range' start (k - start)).map (fun j => ⟨j, clientSockets.zipIdx⟩) ++
        ⟨k, clientSockets.zipIdx⟩ :: processClients Prod.fst removes m (k + 1)
          (removeClientSocket Prod.fst clientSockets[k] clientSockets.zipIdx) := by
  have hreached : start + (k - start) = k := by omega
  have hlength : start + (k - start) ≤ clientSockets.zipIdx.length := by
    rw [List.length_zipIdx]
    omega
  rw [pass, hrounds, processClients_append _ (m + 1) (fun j hj hj' => hquiet j hj (by omega))
    hlength, hreached, processClients, getElem?_zipIdx_self hk, hremoves]
  rfl

/-- The places polled before the removal are below the one after it, and those polled later are
above it. -/
theorem notMem_polled {k : ℕ} {first rest : List (Turn Entry)} {entry : Entry}
    (hplace : entry.2 = k + 1) (hk : k < clientSockets.length)
    (hfirst : ∀ turn ∈ first, turn.index < k ∧ turn.sockets = clientSockets.zipIdx)
    (hrest : ∀ other ∈ rest.filterMap Turn.polled, other ∈ clientSockets.zipIdx.drop (k + 2)) :
    entry ∉ (first ++ ⟨k, clientSockets.zipIdx⟩ :: rest).filterMap Turn.polled := by
  intro hmem
  rw [List.filterMap_append, List.mem_append] at hmem
  rcases hmem with hmem | hmem
  · obtain ⟨turn, hturn, hpolled⟩ := List.mem_filterMap.mp hmem
    obtain ⟨hindex, hsockets⟩ := hfirst turn hturn
    rw [Turn.polled, hsockets] at hpolled
    have hother := snd_of_getElem? hpolled
    omega
  · have hkpolled : (⟨k, clientSockets.zipIdx⟩ : Turn Entry).polled = some (clientSockets[k], k) :=
      getElem?_zipIdx_self hk
    rw [List.filterMap_cons, hkpolled] at hmem
    rcases List.mem_cons.mp hmem with rfl | hmem
    · dsimp only at hplace
      omega
    · obtain ⟨j, hj⟩ := List.mem_iff_getElem?.mp (hrest entry hmem)
      rw [List.getElem?_drop] at hj
      have hother := snd_of_getElem? hj
      omega

/-- After a removal the next socket is passed over. -/
theorem not_fair_of_removal {k : ℕ} (hlow : start ≤ k) (hhigh : k + 1 < stop)
    (hstop : stop ≤ clientSockets.length) (hquiet : ∀ i, start ≤ i → i < k → removes i = false)
    (hremoves : removes k = true) :
    ¬ Fair clientSockets (pass removes clientSockets (start, stop)) := by
  intro hfair
  obtain ⟨m, hm⟩ : ∃ m, stop - start = k - start + (m + 1 + 1) := ⟨stop - k - 2, by omega⟩
  have hk : k < clientSockets.length := by omega
  have hturns := pass_of_removal hm hlow hk hquiet hremoves
  have hmoved := drop_eraseP (p := fun entry : Entry => entry.1 = clientSockets[k])
    (getElem?_zipIdx_self hk) (by simp)
  rw [removeClientSocket] at hturns
  generalize clientSockets.zipIdx.eraseP _ = rest at hturns hmoved
  have hthere : (clientSockets[k + 1], k + 1) ∈ rest := by
    refine List.mem_of_mem_drop (i := k) ?_
    rw [hmoved]
    refine List.mem_of_getElem? (i := 0) ?_
    rw [List.getElem?_drop]
    exact getElem?_zipIdx_self (by omega)
  have hturn : ⟨k + 1, rest⟩ ∈ pass removes clientSockets (start, stop) := by
    rw [hturns, processClients]
    simp
  have hcount := hfair.once _ hturn clientSockets[k + 1] (List.getElem?_eq_getElem _) hthere
  have hbehind : (rest.drop (k + 1)).Sublist (clientSockets.zipIdx.drop (k + 2)) := by
    rw [← List.drop_drop, hmoved, List.drop_drop]
  have hpolled : (clientSockets[k + 1], k + 1) ∉
      (pass removes clientSockets (start, stop)).filterMap Turn.polled := by
    rw [hturns]
    refine notMem_polled rfl hk (fun turn hturn => ?_) (polled_behind Prod.fst hbehind)
    obtain ⟨j, hj, rfl⟩ := List.mem_map.mp hturn
    rw [List.mem_range'_1] at hj
    exact ⟨by dsimp only; omega, rfl⟩
  rw [List.count_eq_zero_of_not_mem hpolled] at hcount
  cases hcount

end Entries

section Handling

open Tables

variable (env : Environment) (clientSocket : Socket)

/-- The socket has been taken off the list, once or several times or not at all. -/
def Shrinks (x y : Session) : Prop :=
  ∃ k, y.server.clientSockets = (fun sockets => sockets.erase clientSocket)^[k]
    x.server.clientSockets

instance : IsTrans Session (Shrinks clientSocket) where
  trans x y z := by
    rintro ⟨k, hk⟩ ⟨m, hm⟩
    exact ⟨m + k, by rw [hm, hk, Function.iterate_add_apply]⟩

instance shrinks_of_records {β : Type} (x : HandlerM β) [h : Kept SameRecords x] :
    Kept (Shrinks clientSocket) x :=
  ⟨h.keeps.mono fun _ _ hsame => ⟨0, hsame.1.clientSockets⟩⟩

/-- One packet removes the socket at most once. -/
theorem shrinks_handle {packet : Packet} {id : ℤ} (user : Option Ptr)
    (h : (registerPackets env).getPacket id = some packet) :
    Kept (Shrinks clientSocket) (packet.handle clientSocket user) := by
  rcases kept_handle env clientSocket user h with ⟨-, rfl⟩ | ⟨-, rfl⟩ | ⟨-, -, hkept⟩
  · refine ⟨fun x => ?_⟩
    by_cases hrefused : Refused x.buf.unread
    · exact ⟨1, (handle_drops clientSocket user hrefused).clientSockets⟩
    · exact ⟨0, (handle_places clientSocket user hrefused).clientSockets⟩
  · change Kept _ (ClientDisconnect.handle clientSocket user)
    cases user with
    | none =>
      have hkept := kept_disconnect_none clientSocket
      infer_instance
    | some u =>
      unfold ClientDisconnect.handle
      refine .of_bind inferInstance fun flag => ⟨fun x => ⟨0, rfl⟩⟩
  · infer_instance

theorem shrinks_processPacket (packetId : ℕ) (size : ℤ) : Kept (Shrinks clientSocket)
    (processPacket (registerPackets env) clientSocket packetId size) := by
  refine ⟨fun x => ?_⟩
  rw [processPacket, run_bind_of_ok (EStateM.run_get ..)]
  cases hpacket : (registerPackets env).getPacket packetId with
  | none => exact ⟨0, rfl⟩
  | some packet => exact (shrinks_handle env clientSocket _ hpacket).keeps _

theorem shrinks_processFrame : Kept (Shrinks clientSocket)
    (processFrame (registerPackets env) clientSocket) := by
  unfold processFrame
  refine .of_bind inferInstance fun _ => .of_bind inferInstance fun packetId => ?_
  cases (registerPackets env).getPacket packetId with
  | none => infer_instance
  | some packet =>
    refine .of_bind inferInstance fun size => ?_
    cases size with
    | none => unfold processSized; infer_instance
    | some n =>
      have hhandled := shrinks_processPacket env clientSocket packetId n
      unfold processSized
      infer_instance

theorem shrinks_processLoop (passes : ℕ) : Kept (Shrinks clientSocket)
    (processLoop (registerPackets env) clientSocket passes) := by
  induction passes with
  | zero => unfold processLoop; infer_instance
  | succ passes ih =>
    have hframe := shrinks_processFrame env clientSocket
    unfold processLoop
    refine .of_bind inferInstance fun x => .of_ite (.of_bind hframe fun again => ?_) inferInstance
    exact .of_ite ih inferInstance

theorem erase_iterate {sockets : List Socket} (h : sockets.Nodup) (k : ℕ) :
    (fun sockets => sockets.erase clientSocket)^[k + 1] sockets = sockets.erase clientSocket := by
  induction k with
  | zero => rfl
  | succ k ih =>
    rw [Function.iterate_succ_apply', ih]
    exact List.erase_of_not_mem h.not_mem_erase

/-- Whatever a socket sends, its poll at most takes the socket itself off the list. -/
theorem receive_shrinks (chunk : Received) (x : Session) (hnodup : x.server.clientSockets.Nodup) :
    ∃ removes : Bool,
      (finalState ((receive (registerPackets env) clientSocket chunk).run x)).server.clientSockets =
        if removes then removeClientSocket id clientSocket x.server.clientSockets
        else x.server.clientSockets := by
  have hkept : Kept (Shrinks clientSocket) (receive (registerPackets env) clientSocket chunk) := by
    unfold receive
    refine .of_bind inferInstance fun _ => ?_
    unfold processStream
    exact .of_bind inferInstance fun y => shrinks_processLoop env clientSocket _
  have hremove (sockets : List Socket) :
      removeClientSocket id clientSocket sockets = sockets.erase clientSocket := by
    rw [removeClientSocket, List.erase_eq_eraseP']
    rfl
  obtain ⟨k, hk⟩ := hkept.keeps x
  cases k with
  | zero => exact ⟨false, hk⟩
  | succ k =>
    refine ⟨true, ?_⟩
    rw [hk, erase_iterate clientSocket hnodup, if_pos rfl, hremove]

end Handling

/-- A pass over one of the timer's ranges is fair exactly when no socket but the last of the range
is removed. -/
theorem fair_iff (clientSockets : List Socket) (removes : ℕ → Bool) (range : ℕ × ℕ)
    (h : range ∈ ranges clientSockets.length) :
    Fair clientSockets (pass removes clientSockets range) ↔
      ∀ i, range.1 ≤ i → i + 1 < range.2 → removes i = false := by
  obtain ⟨hstart, hstop⟩ := ranges_bounds h
  constructor
  · intro hfair
    by_contra hremoved
    push Not at hremoved
    obtain ⟨hlow, hhigh, hremoves⟩ := Nat.find_spec hremoved
    refine not_fair_of_removal hlow hhigh hstop (fun i hi hlt => ?_) (by simpa using hremoves) hfair
    by_contra hearlier
    exact Nat.find_min hremoved hlt ⟨hi, by omega, hearlier⟩
  · exact fair_of_quiet hstart hstop

/-- The last socket of the second of two ranges goes. -/
theorem fair_lastRemoved : Fair [4, 5, 6, 7, 8] (pass (fun i => i = 4) [4, 5, 6, 7, 8] (3, 5)) :=
  (fair_iff [4, 5, 6, 7, 8] (fun i => i = 4) (3, 5) (by decide)).mpr (by
    intro i _ hi
    simp only [decide_eq_false_iff_not]
    omega)

/-- With two sockets for each thread, the first one goes. -/
theorem fair_firstRemoved : ¬ ∀ (clientSockets : List Socket) (removes : ℕ → Bool)
    (range : ℕ × ℕ), range ∈ ranges clientSockets.length →
    Fair clientSockets (pass removes clientSockets range) := by
  intro h
  have hunfair : ¬ Fair [4, 5, 6] (pass (fun i => i = 0) [4, 5, 6] (0, 2)) :=
    not_fair_of_removal (Nat.le_refl 0) (by decide) (by decide)
      (fun i _ hi => absurd hi (Nat.not_lt_zero i)) rfl
  exact hunfair (h [4, 5, 6] (fun i => i = 0) (0, 2) (by decide))

end Win64Server.Polling
