import Win64Server.FlightPlans
import Win64Server.Observers
import Win64Server.Library.Runs

/-!
The cycle of a flight plan as the version of its contents. Every editor picks the cycle of its
update and the server stores what comes, so the plan of a pilot is the last update stored. A reader
that asks with the cycle it holds is sent the plan exactly when that update carries a larger one,
which orders the edits as long as every change of the plan does.
-/
namespace Win64Server.FlightPlanVersions

open Outcome Library BasicStream PacketFields FlightPlanUpdate Server

def planOf (s : Server) (pilot : Ptr) : Option FlightPlan :=
  (s.heap pilot).asAircraft.bind Aircraft.flightPlan

/-- The plan after a packet that stores these fields, or none. -/
def overwrite (plan : FlightPlan) (f : Option Fields) : FlightPlan :=
  f.elim plan fun f => f.store plan

/-- An update sets all that the one before it has set. -/
theorem overwrite_overwrite (plan : FlightPlan) (f g : Option Fields) :
    overwrite (overwrite plan g) f = overwrite plan (f.or g) := by
  cases f with
  | none => rfl
  | some f =>
    cases g with
    | none => rfl
    | some g => rfl

/-- From one state to the other these fields are stored in the plan of the pilot, if any. -/
structure Stores (pilot : Ptr) (f : Option Fields) (s t : Server) : Prop where
  manager : t.clientManager = s.clientManager
  plan : ∀ plan, planOf s pilot = some plan → planOf t pilot = some (overwrite plan f)

theorem Stores.refl (pilot : Ptr) (s : Server) : Stores pilot none s s := ⟨rfl, fun _ h => h⟩

theorem Stores.trans {pilot : Ptr} {f g : Option Fields} {s t u : Server}
    (hst : Stores pilot f s t) (htu : Stores pilot g t u) : Stores pilot (g.or f) s u where
  manager := htu.manager.trans hst.manager
  plan plan h := by
    rw [← overwrite_overwrite]
    exact htu.plan _ (hst.plan plan h)

section Updates

variable {s : Server} {pilot : Ptr} {plan : FlightPlan}

theorem planOf_eq_some :
    planOf s pilot = some plan ↔
      ∃ a, (s.heap pilot).asAircraft = some a ∧ a.flightPlan = some plan :=
  Option.bind_eq_some_iff

theorem stores_modifyUser {user : Ptr} {a : Aircraft} (ha : (s.heap user).asAircraft = some a)
    (hplan : a.flightPlan = some plan) (f : Fields) :
    Stores pilot (if user = pilot then some f else none) s
      (s.modifyUser user (updated f plan)) where
  manager := rfl
  plan other h := by
    by_cases huser : user = pilot
    · subst huser
      have hother : other = plan := by
        obtain ⟨b, hb, hbplan⟩ := planOf_eq_some.mp h
        rw [ha] at hb
        rw [← Option.some.inj hb, hplan] at hbplan
        exact (Option.some.inj hbplan).symm
      rw [if_pos rfl, hother, planOf, modifyUser_heap_self]
      simp [updated, User.modifyAircraft, User.asAircraft, derived_of_asAircraft ha, overwrite]
    · rw [if_neg huser, planOf, modifyUser_heap_ne _ _ _ _ (Ne.symm huser)]
      exact h

/-- A user without a plan is not the pilot, so nothing is stored. -/
theorem stores_of_no_plan {user : Ptr} (h : planOf s user = none) (f : Fields) :
    Stores pilot (if user = pilot then some f else none) s s where
  manager := rfl
  plan plan hplan := by
    rw [if_neg fun heq => by rw [heq, hplan] at h; cases h]
    exact hplan

theorem stores_applyTo (user : Option Ptr) (f : Fields) :
    Stores pilot (if user = some pilot then some f else none) s
      (finalState ((applyTo user f).run s)) := by
  cases user with
  | none => exact .refl pilot s
  | some user =>
    simp only [applyTo, Option.some.injEq]
    cases ha : (s.heap user).asAircraft with
    | none =>
      rw [apply_controller ha]
      exact stores_of_no_plan (by rw [planOf, ha]; rfl) f
    | some a =>
      cases hplan : a.flightPlan with
      | none =>
        rw [apply_noPlan ha hplan]
        exact stores_of_no_plan (by rw [planOf, ha]; exact hplan) f
      | some plan =>
        rw [apply_plan ha hplan]
        exact stores_modifyUser ha hplan f

end Updates

/-- A flight plan packet as it reaches its handler, from any client. -/
structure Edit where
  clientSocket : Socket
  sender : Option Ptr
  buf : BasicStream

namespace Edit

/-- The server after the packet, however its handler ends. -/
def step (s : Server) (e : Edit) : Server :=
  (finalState ((FlightPlanUpdate.handle e.clientSocket e.sender).run ⟨s, e.buf, []⟩)).server

/-- What the packet stores in the plan of this pilot. -/
def stored (cm : ClientManager) (pilot : Ptr) (e : Edit) : Option Fields :=
  match readFields.run e.buf with
  | .ok f _ => if cm.getUserByIndex f.index = some pilot then some f else none
  | .error _ _ => none

theorem stores (s : Server) (pilot : Ptr) (e : Edit) :
    Stores pilot (e.stored s.clientManager pilot) s (e.step s) := by
  unfold stored step
  cases hread : readFields.run e.buf with
  | ok f t =>
    rw [handle_run (x := ⟨s, e.buf, []⟩) e.clientSocket e.sender hread, run_onServer]
    have happly : Stores pilot _ s _ := stores_applyTo (s.clientManager.getUserByIndex f.index) f
    cases hrun : (applyTo (s.clientManager.getUserByIndex f.index) f).run s with
    | ok _ _ =>
      rw [hrun] at happly
      exact happly
    | error _ _ =>
      rw [hrun] at happly
      exact happly
  | error e' t =>
    obtain ⟨_, y, hrun, hserver⟩ :=
      handle_stops (x := ⟨s, e.buf, []⟩) e.clientSocket e.sender hread
    rw [hrun]
    have hsame : y.server = s := hserver
    rw [finalState_error, hsame]
    exact .refl pilot s

end Edit

/-- The last of the packets that store something in the plan of this pilot. -/
def lastStored (cm : ClientManager) (pilot : Ptr) (edits : List Edit) : Option Fields :=
  (edits.filterMap (Edit.stored cm pilot)).getLast?

theorem lastStored_concat (cm : ClientManager) (pilot : Ptr) (edits : List Edit) (e : Edit) :
    lastStored cm pilot (edits ++ [e]) = (e.stored cm pilot).or (lastStored cm pilot edits) := by
  rw [lastStored, List.filterMap_append, List.getLast?_append]
  cases h : e.stored cm pilot <;> simp [h, lastStored]

/-- After any packets the plan is the last update stored in it. -/
theorem stores_run (s : Server) (pilot : Ptr) (edits : List Edit) :
    Stores pilot (lastStored s.clientManager pilot edits) s (edits.foldl Edit.step s) := by
  induction edits using List.reverseRecOn with
  | nil => exact .refl pilot s
  | append_singleton edits e ih =>
    have hlast := ih.trans (e.stores (edits.foldl Edit.step s) pilot)
    rw [ih.manager, ← lastStored_concat] at hlast
    rw [List.foldl_append]
    exact hlast

/-- Each packet that changes the plan of the pilot carries a larger cycle than the one it finds. -/
def Ascending (s : Server) (pilot : Ptr) (edits : List Edit) : Prop :=
  ∀ before e, before ++ [e] <+: edits → ∀ plan f,
    planOf (before.foldl Edit.step s) pilot = some plan →
      e.stored s.clientManager pilot = some f → f.store plan ≠ plan → plan.cycle < f.cycle

/-- With ascending cycles the cycle tells a plan from those before it. -/
theorem cycle_lt_of_ascending {s : Server} {pilot : Ptr} {held plan : FlightPlan}
    (hheld : planOf s pilot = some held) (edits : List Edit) (h : Ascending s pilot edits)
    (hplan : planOf (edits.foldl Edit.step s) pilot = some plan) :
    plan = held ∨ held.cycle < plan.cycle := by
  induction edits using List.reverseRecOn generalizing plan with
  | nil =>
    rw [List.foldl_nil, hheld] at hplan
    exact Or.inl (Option.some.inj hplan).symm
  | append_singleton edits e ih =>
    have hrun : Stores pilot _ s (edits.foldl Edit.step s) := stores_run s pilot edits
    have hbefore := hrun.plan held hheld
    have hcycle := ih (fun before e' hpre => h before e' (hpre.trans (List.prefix_append _ _)))
      hbefore
    have hlast := (e.stores (edits.foldl Edit.step s) pilot).plan _ hbefore
    rw [List.foldl_append] at hplan
    rw [show e.step (edits.foldl Edit.step s) = [e].foldl Edit.step (edits.foldl Edit.step s)
      from rfl, hplan, hrun.manager] at hlast
    have hstored := Option.some.inj hlast
    cases hf : e.stored s.clientManager pilot with
    | none =>
      rw [hf] at hstored
      rw [hstored]
      exact hcycle
    | some f =>
      rw [hf] at hstored
      by_cases hsame : f.store (overwrite held (lastStored s.clientManager pilot edits)) =
          overwrite held (lastStored s.clientManager pilot edits)
      · rw [hstored, show overwrite _ (some f) = f.store _ from rfl, hsame]
        exact hcycle
      · have hgrown := h edits e (List.prefix_refl _) _ f hbefore hf hsame
        right
        rw [hstored]
        show held.cycle < f.cycle
        rcases hcycle with heq | hlt
        · rw [← heq]
          exact hgrown
        · exact hlt.trans hgrown

section Requests

def readRequest : StreamM (ℕ × ℕ) := do
  let index ← readUnsignedShort
  return (index, ← readUnsignedShort)

/-- A request for a flight plan, from a client that has logged in. -/
structure Request where
  clientSocket : Socket
  requester : Ptr
  buf : BasicStream

/-- The handler of the request returns and has sent this plan and nothing else. -/
def Request.SentPlan (r : Request) (s : Server) (pilot : Ptr) (plan : FlightPlan) : Prop :=
  ∃ y, (RequestFlightPlan.handle r.clientSocket (some r.requester)).run ⟨s, r.buf, []⟩ = .ok () y ∧
    y.server.sent = s.sent ++ [⟨r.requester, .flightPlanCycle pilot (s.heap pilot) plan⟩]

variable {s : Server} {pilot : Ptr} {plan : FlightPlan} {r : Request} {index c : ℕ}
  {t : BasicStream}

theorem request_run (hread : readRequest.run r.buf = .ok (index, c) t)
    (hindex : s.clientManager.getUserByIndex index = some pilot)
    (hplan : planOf s pilot = some plan) :
    (RequestFlightPlan.handle r.clientSocket (some r.requester)).run ⟨s, r.buf, []⟩ =
      .ok () ⟨if plan.cycle > c then
        s.push r.requester (.flightPlanCycle pilot (s.heap pilot) plan) else s, t, []⟩ := by
  obtain ⟨a, ha, haplan⟩ := planOf_eq_some.mp hplan
  obtain ⟨i, _, h1, hrest⟩ := run_bind_ok.mp hread
  obtain ⟨d, _, h2, hpair⟩ := run_bind_ok.mp hrest
  cases hpair
  rw [RequestFlightPlan.handle, run_onBuf_bind h1, run_onBuf_bind h2]
  have hget : (onServer (getFlightPlan pilot)).run ⟨s, t, []⟩ = .ok a.flightPlan ⟨s, t, []⟩ :=
    onServer_ok.mpr ⟨s, getFlightPlan_run ha, rfl⟩
  simp only [EStateM.run_bind, EStateM.run_get, hindex, getType_of_asAircraft ha, if_true]
  rw [hget, haplan]
  by_cases hnewer : plan.cycle > c
  · simp only [hnewer, if_true, deref, pure_bind]
    rw [run_onServer, sendFlightPlanCycle_run ha haplan]
  · simp [hnewer]

theorem sentPlan_iff (hread : readRequest.run r.buf = .ok (index, c) t)
    (hindex : s.clientManager.getUserByIndex index = some pilot)
    (hplan : planOf s pilot = some plan) : r.SentPlan s pilot plan ↔ plan.cycle > c := by
  have hrun := request_run hread hindex hplan
  by_cases hnewer : plan.cycle > c
  · rw [if_pos hnewer] at hrun
    exact iff_of_true ⟨_, hrun, rfl⟩ hnewer
  · rw [if_neg hnewer] at hrun
    refine iff_of_false ?_ hnewer
    rintro ⟨y, hy, hsent⟩
    rw [hrun] at hy
    cases hy
    simp at hsent

/-- A client that holds a plan of the pilot, and after any flight plan packets asks with its
cycle, is sent what is stored then exactly when the last update carries a larger cycle. When the
cycles ascend, that is so whenever the plan has changed. -/
theorem request_sent_iff {held : FlightPlan} (hheld : planOf s pilot = some held)
    (edits : List Edit) (hread : readRequest.run r.buf = .ok (index, c) t)
    (hcycle : (c : ℤ) = held.cycle)
    (hindex : s.clientManager.getUserByIndex index = some pilot) :
    ∃ stored, planOf (edits.foldl Edit.step s) pilot = some stored ∧
      (r.SentPlan (edits.foldl Edit.step s) pilot stored ↔
        ∃ f, lastStored s.clientManager pilot edits = some f ∧ held.cycle < f.cycle) ∧
      (Ascending s pilot edits → stored ≠ held →
        r.SentPlan (edits.foldl Edit.step s) pilot stored) := by
  have hrun : Stores pilot _ s (edits.foldl Edit.step s) := stores_run s pilot edits
  have hstored := hrun.plan held hheld
  have hsent := sentPlan_iff hread (hrun.manager ▸ hindex) hstored
  refine ⟨_, hstored, ?_, fun hascending hne => ?_⟩
  · rw [hsent, hcycle]
    cases lastStored s.clientManager pilot edits with
    | none => simp [overwrite]
    | some f => simp [overwrite, Fields.store]
  · rw [hsent, hcycle]
    exact (cycle_lt_of_ascending hheld edits hascending hstored).resolve_left hne

/-- An update of the pilot with index 1 by the controller, with this departure. -/
def departing (cycle departure : UInt8) : Edit where
  clientSocket := 1
  sender := some 0
  buf := .preallocated ([0, cycle, 0, 1, 0, 0, departure, 0] ++ List.replicate 7 0)

/-- The server after the first version of the plan. -/
def filed : Server := (departing 1 65).step Observers.twoUsers

def firstVersion : FlightPlan where
  departure := [65]
  arrival := []
  alternate := []
  squawkCode := []
  acType := []
  scratchPad := []
  cruise := []
  route := []
  remarks := []
  flightRules := 0
  cycle := 1

theorem planOf_filed : planOf filed 1 = some firstVersion := by decide +kernel

/-- The controller asks with the first cycle. -/
def request : Request where
  clientSocket := 1
  requester := 0
  buf := .preallocated [0, 1, 0, 1]

theorem second_version_sent : ∃ stored,
    planOf ([departing 2 66].foldl Edit.step filed) 1 = some stored ∧
      request.SentPlan ([departing 2 66].foldl Edit.step filed) 1 stored := by
  obtain ⟨stored, hstored, hsent, -⟩ := request_sent_iff planOf_filed [departing 2 66]
    (show readRequest.run request.buf = .ok (1, 1) _ from rfl) rfl (by decide +kernel)
  have hlast : (lastStored filed.clientManager 1 [departing 2 66]).map Fields.cycle = some 2 := by
    decide +kernel
  obtain ⟨f, hf, hcycle⟩ := Option.map_eq_some_iff.mp hlast
  exact ⟨stored, hstored, hsent.mpr ⟨f, hf, by rw [hcycle]; decide⟩⟩

/-- Two editors start from the same version, and the later one's plan is never asked for. -/
theorem same_cycle_not_sent : ¬ ∀ (s : Server) (pilot : Ptr) (held stored : FlightPlan)
    (edits : List Edit) (r : Request) (index c : ℕ) (t : BasicStream),
      planOf s pilot = some held → readRequest.run r.buf = .ok (index, c) t →
        (c : ℤ) = held.cycle → s.clientManager.getUserByIndex index = some pilot →
          planOf (edits.foldl Edit.step s) pilot = some stored → stored ≠ held →
            r.SentPlan (edits.foldl Edit.step s) pilot stored := by
  intro h
  have hstored : planOf ([departing 1 66].foldl Edit.step filed) 1 =
      some { firstVersion with departure := [66] } := by decide +kernel
  have hread : readRequest.run request.buf = .ok (1, 1) _ := rfl
  have hindex : filed.clientManager.getUserByIndex (1 : ℕ) = some 1 := by decide +kernel
  have hsent := h filed 1 firstVersion _ [departing 1 66] request 1 1 _ planOf_filed hread rfl
    hindex hstored (by decide)
  have hmanager : ([departing 1 66].foldl Edit.step filed).clientManager.getUserByIndex (1 : ℕ) =
      some 1 := by decide +kernel
  exact absurd ((sentPlan_iff hread hmanager hstored).mp hsent) (by decide)

end Requests

end Win64Server.FlightPlanVersions
