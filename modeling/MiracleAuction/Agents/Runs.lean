import MiracleAuction.Messaging.Envelope

/-!
# `agent.repository.ts`

The row of a run in `agent_runs`, and the statements that write it.
-/
namespace MiracleAuction.Agents

/-- `AgentRunStatus`. -/
inductive RunStatus
  | queued | contextIndexing | planning | implementing | testing | reviewing | waitingApproval
  | succeeded | failed | cancelled | timedOut
  deriving DecidableEq, Repr

/-- `AgentStepName`. -/
inductive StepName
  | contextIndexing | planning | implementing | testing | reviewing | waitingApproval
  deriving DecidableEq, Repr

/-- `AgentErrorCode`. -/
inductive ErrorCode
  | validationError | runNotFound | invalidState | providerUnavailable | commandFailed
  | sandboxViolation | timeout | internalError
  deriving DecidableEq, Repr

structure ProjectConfig where
  maxIterations : Nat
  deriving DecidableEq, Repr

/-- The columns of a run that its workflow reads or writes. -/
structure AgentRun where
  status : RunStatus
  currentStep : Option StepName := none
  workflowState : Option String := none
  iteration : Nat := 0
  workspacePath : Option String := none
  projectConfig : Option ProjectConfig := none
  activePid : Option Nat := none
  errorCode : Option ErrorCode := none
  errorMessage : Option String := none
  deriving DecidableEq, Repr

/-- The input of `updateRunWorkflow`. A column that is left out is `none`; one that can be null has
a second option inside. -/
structure WorkflowInput where
  status : Option RunStatus := none
  currentStep : Option (Option StepName) := none
  workflowState : Option (Option String) := none
  iteration : Option Nat := none
  workspacePath : Option (Option String) := none
  projectConfig : Option (Option ProjectConfig) := none
  activePid : Option (Option Nat) := none
  errorCode : Option (Option ErrorCode) := none
  errorMessage : Option (Option String) := none
  deriving DecidableEq

/-- The row that `createRun` inserts. -/
def createRun : AgentRun := { status := .queued, workflowState := some "queued" }

def claimNextRun (run : AgentRun) : Option AgentRun :=
  if run.status = .queued then
    some { run with status := .contextIndexing, currentStep := some .contextIndexing }
  else none

def updateRunStatus (status : RunStatus) (currentStep : Option StepName)
    (errorCode : Option ErrorCode) (errorMessage : Option String) (run : AgentRun) : AgentRun :=
  { run with status, currentStep, errorCode, errorMessage }

/-- The UPDATE of `updateRunWorkflow`. It writes every column, from the input or from the row
`current` that was read before. -/
def updateRunWorkflow (input : WorkflowInput) (current : AgentRun) : AgentRun where
  status := input.status.getD current.status
  currentStep := input.currentStep.getD current.currentStep
  workflowState := input.workflowState.getD current.workflowState
  iteration := input.iteration.getD current.iteration
  workspacePath := input.workspacePath.getD current.workspacePath
  projectConfig := input.projectConfig.getD current.projectConfig
  activePid := input.activePid.getD current.activePid
  errorCode := input.errorCode.getD current.errorCode
  errorMessage := input.errorMessage.getD current.errorMessage

/-- The statuses that a run can be cancelled in. -/
def RunStatus.cancellable : RunStatus → Bool
  | .queued | .contextIndexing | .planning | .implementing | .testing | .reviewing => true
  | _ => false

def cancelRun (run : AgentRun) : Option AgentRun :=
  if run.status.cancellable then some { run with status := .cancelled } else none

def clearActiveProcess (pid : Nat) (run : AgentRun) : AgentRun :=
  if run.activePid = some pid then { run with activePid := none } else run

@[simp] theorem clearActiveProcess_status (pid : Nat) (run : AgentRun) :
    (clearActiveProcess pid run).status = run.status := by
  unfold clearActiveProcess
  split <;> rfl

end MiracleAuction.Agents
