import Win64Server.Visits

/-!
The flags of a pass. A trigger is to become a required update when its user has been through the
first loop, so that the user is sent the position of every local user in its turn, and both flags
are to be down when the pass ends. The setters assign their parameter to itself: a pass leaves all
flags as they were.
-/
namespace Win64Server.TriggerFlags

open Outcome Server Frames Observers Visits

/-- The flags of a user: an update is required, and an update is triggered. -/
def flags (u : User) : Bool × Bool := (u.updateRequired, u.triggerUpdate)

/-- `update` runs for the user in the state `m` of a pass that begins in `s`. -/
def RunsFrom (env : Environment) (user : Ptr) (s m : Server) : Prop :=
  ∃ a before after, (iterateUsers env fun user => do
      updateLocalUsers env user
      passFlags user).run s = .ok () a ∧
    env.arrange a.ticks a.clientManager.users = before ++ user :: after ∧
    (before.forM (update env)).run { a with ticks := a.ticks + 1 } = .ok () m

/-- The user is sent the position of every local user. -/
def SentAll (env : Environment) (user : Ptr) (s : Server) : Prop :=
  ∃ t, (update env user).run s = .ok () t ∧ ∀ other ∈ (s.heap user).localUsers,
    ∃ e ∈ t.sent.drop s.sent.length,
      e.recipient = user ∧ isPosition e.message = true ∧ e.message.about = some other

/-- What the flags are for in a pass. -/
structure FlagsWork (env : Environment) (s : Server) : Prop where
  required : ∀ user ∈ s.clientManager.users, (s.heap user).triggerUpdate = true →
    ∀ m, RunsFrom env user s m → (m.heap user).updateRequired = true ∧ SentAll env user m
  reset : ∀ user ∈ s.clientManager.users,
    flags ((finalState ((globalUpdate env).run s)).heap user) = (false, false)

theorem flags_untouched : Untouched flags := ⟨fun _ _ => rfl, fun _ _ => rfl, fun _ _ => rfl⟩

/-- The flags are where they were when the pass ends, whichever way it ends. -/
theorem flags_globalUpdate (env : Environment) (s : Server) (user : Ptr) :
    flags ((finalState ((globalUpdate env).run s)).heap user) = flags (s.heap user) := by
  have hkept : Kept (Same flags) (globalUpdate env) := kept_globalUpdate env flags_untouched
  exact hkept.keeps s user

/-- The flags work in a pass exactly when no connected user has one set at its start. -/
theorem flagsWork_iff (env : Environment) (s : Server) :
    FlagsWork env s ↔ ∀ user ∈ s.clientManager.users, flags (s.heap user) = (false, false) := by
  constructor
  · intro h user huser
    rw [← flags_globalUpdate env s user]
    exact h.reset user huser
  · intro h
    refine ⟨fun user huser htrigger => ?_, fun user huser => ?_⟩
    · have hdown : (s.heap user).triggerUpdate = false := congrArg Prod.snd (h user huser)
      rw [hdown] at htrigger
      cases htrigger
    · rw [flags_globalUpdate]
      exact h user huser

def triggered : User :=
  { User.construct .zeroed 1 1 (.aircraft (.construct .zeroed)) with triggerUpdate := true }

/-- One connected user, whose update has been triggered. -/
def oneTriggered : Server where
  __ := Server.initial fun _ => .zeroed
  heap _ := triggered
  clientManager := (ClientManager.construct maxClients).providePlacement 1 0 fun _ => triggered

/-- The trigger is still set when the pass ends. -/
theorem trigger_stays : ¬ ∀ (env : Environment) (s : Server), FlagsWork env s := by
  intro hall
  have hreset := (hall (.orderly fun _ _ => none) oneTriggered).reset 0 (by decide)
  rw [flags_globalUpdate] at hreset
  cases hreset

end Win64Server.TriggerFlags
