/-!
# Command states

The two transition relations for a command's state, written independently of
each other: the dictionary `ALLOWED_TRANSITIONS` of `state_machine.py`, which
`transition_command` consults, and the trigger
`validate_command_state_transition` of migration 007, which the database runs
on every update of the column `state`.
-/

namespace Veyaan

inductive CommandState where
  | received
  | validated
  | awaitingApproval
  | approved
  | rejected
  | queued
  | delivered
  | acknowledged
  | running
  | succeeded
  | failed
  | timedOut
  | cancelled
  | expired
  | blockedByEmergencyStop
  deriving DecidableEq, Repr

inductive TaskState where
  | pending
  | queued
  | delivered
  | acknowledged
  | running
  | succeeded
  | failed
  | timedOut
  | cancelled
  deriving DecidableEq, Repr

inductive RiskLevel where
  | low
  | medium
  | high
  | prohibited
  deriving DecidableEq, Repr

inductive DeviceStatus where
  | trusted
  | revoked
  | pending
  deriving DecidableEq, Repr

inductive PairingStatus where
  | pending
  | confirmed
  | expired
  | rejected
  deriving DecidableEq, Repr

inductive ApprovalStatus where
  | pending
  | approved
  | rejected
  | expired
  deriving DecidableEq, Repr

inductive OutboxEventStatus where
  | pending
  | publishing
  | published
  | failed
  deriving DecidableEq, Repr

def CommandState.value : CommandState → String
  | .received => "received"
  | .validated => "validated"
  | .awaitingApproval => "awaiting_approval"
  | .approved => "approved"
  | .rejected => "rejected"
  | .queued => "queued"
  | .delivered => "delivered"
  | .acknowledged => "acknowledged"
  | .running => "running"
  | .succeeded => "succeeded"
  | .failed => "failed"
  | .timedOut => "timed_out"
  | .cancelled => "cancelled"
  | .expired => "expired"
  | .blockedByEmergencyStop => "blocked_by_emergency_stop"

def ApprovalStatus.value : ApprovalStatus → String
  | .pending => "pending"
  | .approved => "approved"
  | .rejected => "rejected"
  | .expired => "expired"

/-! ## The state machine in Python -/

/-- `ALLOWED_TRANSITIONS.get(state, set())`: the dictionary has no entry for a
terminal state. -/
def allowedTransitions : CommandState → List CommandState
  | .received => [.validated]
  | .validated => [.awaitingApproval, .queued, .rejected, .blockedByEmergencyStop]
  | .awaitingApproval => [.approved, .rejected, .expired, .cancelled]
  | .approved => [.queued, .blockedByEmergencyStop, .expired, .cancelled]
  | .queued => [.delivered, .blockedByEmergencyStop, .expired, .cancelled, .failed]
  | .delivered => [.acknowledged, .timedOut, .cancelled, .failed]
  | .acknowledged => [.running, .failed, .cancelled]
  | .running => [.succeeded, .failed, .timedOut, .cancelled]
  | _ => []

def terminalStates : List CommandState :=
  [.succeeded, .failed, .timedOut, .cancelled, .expired, .rejected, .blockedByEmergencyStop]

/-- The two guards of `transition_command`: when neither raises
`StateTransitionError`. -/
def accepts (current new : CommandState) : Bool :=
  !(current ∈ terminalStates && current != new) &&
    !(new ∉ allowedTransitions current && current != new)

/-! ## The state machine in PL/pgSQL -/

/-- `validate_command_state_transition`: whether an update of `state` from
`old` to `new` passes the trigger. -/
def validateCommandStateTransition (old new : CommandState) : Bool :=
  if old = new then true
  else match old with
    | .received => new ∈ [.validated, .awaitingApproval, .queued, .cancelled]
    | .validated => new ∈ [.awaitingApproval, .queued, .cancelled]
    | .awaitingApproval => new ∈ [.approved, .rejected, .expired, .cancelled]
    | .approved => new ∈ [.queued, .cancelled]
    | .rejected => new = .rejected
    | .queued => new ∈ [.delivered, .expired, .cancelled, .blockedByEmergencyStop]
    | .delivered => new ∈ [.acknowledged, .expired, .cancelled]
    | .acknowledged => new ∈ [.running, .expired, .cancelled]
    | .running => new ∈ [.succeeded, .failed, .cancelled, .timedOut]
    | .succeeded => new = .succeeded
    | .failed => new = .failed
    | .timedOut => new = .timedOut
    | .cancelled => new = .cancelled
    | .expired => new = .expired
    | .blockedByEmergencyStop => new ∈ [.queued, .cancelled]

theorem accepts_self (s : CommandState) : accepts s s = true := by
  simp [accepts]

theorem accepts_iff {s t : CommandState} (h : s ≠ t) : accepts s t = true ↔ t ∈ allowedTransitions s := by
  cases s <;> cases t <;> simp_all [accepts, terminalStates, allowedTransitions]

theorem accepts_terminal {s t : CommandState} (ht : s ∈ terminalStates) (h : accepts s t = true) : t = s := by
  refine Classical.byContradiction fun hne => ?_
  have := (accepts_iff (Ne.symm hne)).mp h
  revert this
  simp only [terminalStates, List.mem_cons, List.not_mem_nil, or_false] at ht
  rcases ht with rfl | rfl | rfl | rfl | rfl | rfl | rfl <;> simp [allowedTransitions]

/-- Where the two relations part: the edges that Python takes and the trigger
refuses. -/
theorem accepts_not_validated (s t : CommandState) :
    (accepts s t = true ∧ validateCommandStateTransition s t = false) ↔
      (s, t) ∈ [(.validated, .rejected), (.validated, .blockedByEmergencyStop),
        (.approved, .blockedByEmergencyStop), (.approved, .expired), (.queued, .failed),
        (.delivered, .timedOut), (.delivered, .failed), (.acknowledged, .failed)] := by
  cases s <;> cases t <;> decide

/-- The moves that both relations take, in the states that commands are in
between transactions, except those to `FAILED`. -/
theorem validated_of_accepts {s t : CommandState} (h : accepts s t = true) (hs : s ≠ .validated ∧ s ≠ .approved)
    (ht : t ≠ .failed ∧ t ≠ .timedOut) : validateCommandStateTransition s t = true := by
  cases hv : validateCommandStateTransition s t with
  | true => rfl
  | false =>
    have := (accepts_not_validated s t).mp ⟨h, hv⟩
    simp only [List.mem_cons, Prod.mk.injEq, List.not_mem_nil, or_false] at this
    grind

end Veyaan
