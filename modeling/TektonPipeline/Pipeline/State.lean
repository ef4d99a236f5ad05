import TektonPipeline.Pipeline.Facts

/-! Which tasks are scheduled next, and the condition of the PipelineRun. A list of pointers
to resolved tasks is the list of their names. -/

namespace TektonPipeline.Pipeline
open Api Stateful TaskRunReconciler

def PipelineRunState.getNextTasks (s : PipelineRunState) (candidateTasks : List String) :
    List String :=
  (s.filter fun t => decide (t.name ∈ candidateTasks) &&
    (t.taskRuns.isEmpty && t.customRuns.isEmpty)).map (·.name)

def dagExecutionQueue : Facts (Except String (List String)) := do
  let f ← get
  if f.isCancelled || f.isGracefullyCancelled then return .ok []
  else
    let doneTasks ← completedOrSkippedDAGTasks
    let f ← get
    match getCandidateTasks f.tasksGraph.toGraph doneTasks with
    | .error e => return .error e
    | .ok candidateTasks =>
      if !f.isStopping && !f.isGracefullyStopped then
        return .ok (f.state.getNextTasks candidateTasks)
      else return .ok []

def getFinalTasks : Facts (List String) := do
  if ← checkDAGTasksDone then
    let f ← get
    return f.state.getNextTasks (f.names.filter fun n => f.isFinalTask n)
  else return []

inductive TaskCount where
  | succeeded
  | failed
  | ignoredFailed
  | cancelled
  | validationFailed
  | skippedDueToTimeout
  | skipped
  | incomplete
  deriving DecidableEq

def skippedForTimeout (name : String) : Facts Bool := do
  let reason ← skip true name
  if reason = .pipelineTimedOut then return true
  else
    let reason ← skip true name
    if reason = .tasksTimedOut then return true
    else
      let reason ← isFinallySkipped name
      return reason == .finallyTimedOut

def countSkipped (name : String) : Facts TaskCount := do
  if ← skippedForTimeout name then return .skippedDueToTimeout
  else
    let reason ← skip true name
    if reason.isSkipped then return .skipped
    else
      let reason ← isFinallySkipped name
      if reason.isSkipped then return .skipped
      else return .incomplete

def countTask (name : String) : Facts TaskCount := do
  let t ← taskOf name
  let f ← get
  if t.isSuccessful then return .succeeded
  else if t.isCancelledForTimeOut then return .failed
  else if t.isCancelled then return .cancelled
  else if t.isFailure then
    return if t.pipelineTask.onError = .continues then .ignoredFailed else .failed
  else if f.isValidationFailed t then return .validationFailed
  else countSkipped name

def getPipelineTasksCount : Facts (List TaskCount) := do
  let f ← get
  mapOf countTask f.names

def tally (counts : List TaskCount) (cs : List TaskCount) : Nat :=
  (counts.filter fun c => decide (c ∈ cs)).length

def skippedCount (counts : List TaskCount) : Nat := tally counts [.skipped, .skippedDueToTimeout]

def completedMessage (counts : List TaskCount) (failed : Nat) (ignored : String) : String :=
  "Tasks Completed: " ++
    toString (tally counts [.succeeded, .failed, .cancelled, .ignoredFailed]) ++
    " (Failed: " ++ toString failed ++ ignored ++ ", Cancelled " ++
    toString (tally counts [.cancelled]) ++ ")"

def finishedMessage (counts : List TaskCount) : String :=
  let ignoredFailed := tally counts [.ignoredFailed]
  let validationFailed := tally counts [.validationFailed]
  completedMessage counts (tally counts [.failed, .ignoredFailed])
      (if ignoredFailed > 0 then " (Ignored: " ++ toString ignoredFailed ++ ")" else "") ++
    ", Skipped: " ++ toString (skippedCount counts) ++
    if validationFailed > 0 then ", Failed Validation: " ++ toString validationFailed else ""

/-- The condition once no task is incomplete. -/
def finishedCondition (prName : String) (f : PipelineRunFacts) (counts : List TaskCount) :
    Condition :=
  let message := finishedMessage counts
  if tally counts [.validationFailed] > 0 then ⟨.isFalse, "PipelineValidationFailed", message⟩
  else if tally counts [.failed, .skippedDueToTimeout] > 0 then ⟨.isFalse, "Failed", message⟩
  else if f.isGracefullyCancelled || f.isGracefullyStopped then
    ⟨.isFalse, "Cancelled", "PipelineRun " ++ quote prName ++ " was cancelled"⟩
  else if tally counts [.cancelled] > 0 then ⟨.isFalse, "Cancelled", message⟩
  else if skippedCount counts > 0 then ⟨.isTrue, "Completed", message⟩
  else ⟨.isTrue, "Succeeded", message⟩

def runningReason (f : PipelineRunFacts) (counts : List TaskCount) : Facts String := do
  if f.isGracefullyCancelled then return "CancelledRunningFinally"
  else if f.isGracefullyStopped then return "StoppedRunningFinally"
  else if tally counts [.cancelled] > 0 then return "PipelineRunStopping"
  else if tally counts [.failed] > 0 then
    if ← checkFinalTasksDone then return "PipelineRunStopping"
    else return "Running"
  else return "Running"

def PipelineRunFacts.hasTimedOut (f : PipelineRunFacts) : Bool :=
  f.timeoutsState.reached f.timeoutsState.startTime f.timeoutsState.pipelineTimeout

def timeoutText (f : PipelineRunFacts) : String :=
  quote (toString (f.timeoutsState.pipelineTimeout.getD 0))

def getPipelineConditionStatus (prName : String) : Facts Condition := do
  let f ← get
  if f.hasTimedOut then
    return ⟨.isFalse, "PipelineRunTimeout",
      "PipelineRun " ++ quote prName ++ " failed to finish within " ++ timeoutText f⟩
  else
    let counts ← getPipelineTasksCount
    if tally counts [.incomplete] = 0 then return finishedCondition prName f counts
    else
      let reason ← runningReason f counts
      return ⟨.unknown, reason, completedMessage counts (tally counts [.failed]) "" ++
        ", Incomplete: " ++ toString (tally counts [.incomplete]) ++ ", Skipped: " ++
        toString (skippedCount counts)⟩

end TektonPipeline.Pipeline
