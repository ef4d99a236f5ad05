import TektonPipeline.Pipeline.Resolution

/-! What the controller knows of a PipelineRun, and which tasks it skips. Skipping a task is
remembered in a cache and may write results into the task, so it is a computation over the
facts. A computation that dereferences a nil pointer or recurses without end does not
return. -/

namespace TektonPipeline.Pipeline
open Api Stateful

inductive SpecStatus where
  | none
  | pending
  | cancelled
  | cancelledRunFinally
  | stoppedRunFinally
  deriving DecidableEq

inductive SkippingReason where
  | none
  | stopping
  | gracefullyCancelled
  | gracefullyStopped
  | whenExpressions
  | parentTasks
  | missingResults
  | pipelineTimedOut
  | tasksTimedOut
  | finallyTimedOut
  | emptyArrayInMatrixParams
  deriving DecidableEq

def SkippingReason.isSkipped (r : SkippingReason) : Bool := r != .none

structure TimeoutsState where
  startTime : Option Nat := none
  finallyStartTime : Option Nat := none
  pipelineTimeout : Option Nat := none
  tasksTimeout : Option Nat := none
  finallyTimeout : Option Nat := none
  now : Nat := 0
  deriving DecidableEq

/-- A timeout of zero is no timeout. -/
def TimeoutsState.reached (ts : TimeoutsState) (start timeout : Option Nat) : Bool :=
  match start, timeout with
  | some start, some timeout => timeout ≠ 0 && timeout < ts.now - start
  | _, _ => false

/-- `validationFailedTask` holds the names of tasks of the state. -/
structure PipelineRunFacts where
  state : PipelineRunState
  tasksGraph : Dag
  finalTasksGraph : Graph := {}
  specStatus : SpecStatus := .none
  timeoutsState : TimeoutsState := {}
  skipCache : List (String × SkippingReason) := []
  validationFailedTask : List String := []

namespace PipelineRunFacts

def names (f : PipelineRunFacts) : List String := f.state.map (·.name)

def isDAGTask (f : PipelineRunFacts) (name : String) : Bool := decide (name ∈ f.tasksGraph.nodes)

def isFinalTask (f : PipelineRunFacts) (name : String) : Bool :=
  decide (name ∈ f.finalTasksGraph.nodes)

def isValidationFailed (f : PipelineRunFacts) (t : ResolvedPipelineTask) : Bool :=
  f.validationFailedTask.any fun n =>
    match f.state.task? n with
    | some ftask => ftask.resolvedTask == t.resolvedTask
    | none => false

def isStopping (f : PipelineRunFacts) : Bool :=
  f.state.any fun t => f.isDAGTask t.name &&
    ((t.isFailure || f.isValidationFailed t) && t.pipelineTask.onError != .continues)

def isCancelled (f : PipelineRunFacts) : Bool := f.specStatus == .cancelled

def isGracefullyCancelled (f : PipelineRunFacts) : Bool := f.specStatus == .cancelledRunFinally

def isGracefullyStopped (f : PipelineRunFacts) : Bool := f.specStatus == .stoppedRunFinally

end PipelineRunFacts

abbrev Facts (α : Type) := Eval PipelineRunFacts α

/-- `Skip` of the task of a name, called through the pointer to it or on a copy of it. -/
abbrev SkipFn := Bool → String → Facts SkippingReason

def taskOf (name : String) : Facts ResolvedPipelineTask := do
  match (← get).state.task? name with
  | some t => return t
  | none => stuck

/-- The receiver is a copy, so what `Skip` writes into the task is lost. -/
def isDone (skip : SkipFn) (name : String) : Facts Bool := do
  let reason ← skip false name
  if reason.isSkipped then return true
  else
    let t ← taskOf name
    let f ← get
    return t.isSuccessful || t.isFailure || f.isValidationFailed t

def checkParentsDone (skip : SkipFn) (t : ResolvedPipelineTask) : Facts Bool := do
  let f ← get
  if f.isFinalTask t.name then return true
  else if f.isDAGTask t.name then allOf (isDone skip) (f.tasksGraph.prev t.name)
  else stuck

def skipBecauseWhenExpressionsEvaluatedToFalse (skip : SkipFn) (t : ResolvedPipelineTask) :
    Facts Bool := do
  if ← checkParentsDone skip t then return !t.pipelineTask.when.allowsExecution t.evaluatedCEL
  else return false

def parentWasSkipped (skip : SkipFn) (parent : String) : Facts Bool := do
  let reason ← skip true parent
  return reason.isSkipped && reason != .whenExpressions

def skipBecauseParentTaskWasSkipped (skip : SkipFn) (t : ResolvedPipelineTask) : Facts Bool := do
  let f ← get
  if f.isDAGTask t.name then anyOf (parentWasSkipped skip) (f.tasksGraph.prev t.name)
  else stuck

def resolveResultRefs (t : ResolvedPipelineTask) :
    Facts (Except RefError (List ResolvedResultRef)) :=
  fun f =>
    let r := convertToResultRefs f.state t.pipelineTask
    some (r.2, { f with state := r.1 })

/-- `ApplyTaskResults` to the receiver of `Skip`, followed by `ResetSkippedCache`. -/
def applyResults (pointer : Bool) (t : ResolvedPipelineTask) (refs : List ResolvedResultRef) :
    Facts ResolvedPipelineTask := do
  let pt := applyTaskResults t.pipelineTask refs
  modify fun f =>
    { f with
      state := if pointer then f.state.update t.name fun t => { t with pipelineTask := pt }
        else f.state
      skipCache := [] }
  return { t with pipelineTask := pt }

/-- Whether a reference that does not resolve is a reason to skip the task. -/
def missesResult (skip : SkipFn) (t : ResolvedPipelineTask) (e : RefError) : Facts Bool := do
  let f ← get
  if (f.state.task? e.pipelineTask).isNone then return false
  else if t.pipelineTask.onError = .continues ∨ f.isFinalTask t.name then return true
  else
    let reason ← skip true e.pipelineTask
    return reason == .whenExpressions

def skipBecauseResultReferencesAreMissing (skip : SkipFn) (pointer : Bool)
    (t : ResolvedPipelineTask) : Facts (Bool × ResolvedPipelineTask) := do
  let parentsDone ← checkParentsDone skip t
  if parentsDone && t.hasResultReferences then
    match ← resolveResultRefs t with
    | .ok refs =>
      let t ← applyResults pointer t refs
      return (false, t)
    | .error e =>
      if ← missesResult skip t e then return (true, t)
      else
        let t ← applyResults pointer t []
        return (false, t)
  else return (false, t)

def skipBecauseTimeoutReached (skip : SkipFn) (t : ResolvedPipelineTask)
    (reached : PipelineRunFacts → Bool) : Facts Bool := do
  if ← checkParentsDone skip t then
    let f ← get
    return reached f
  else return false

def skipBecausePipelineRunPipelineTimeoutReached (skip : SkipFn) (t : ResolvedPipelineTask) :
    Facts Bool :=
  skipBecauseTimeoutReached skip t fun f =>
    f.timeoutsState.reached f.timeoutsState.startTime f.timeoutsState.pipelineTimeout

def skipBecausePipelineRunTasksTimeoutReached (skip : SkipFn) (t : ResolvedPipelineTask) :
    Facts Bool :=
  skipBecauseTimeoutReached skip t fun f => !f.isFinalTask t.name &&
    f.timeoutsState.reached f.timeoutsState.startTime f.timeoutsState.tasksTimeout

def skipBecausePipelineRunFinallyTimeoutReached (skip : SkipFn) (t : ResolvedPipelineTask) :
    Facts Bool :=
  skipBecauseTimeoutReached skip t fun f => f.isFinalTask t.name &&
    f.timeoutsState.reached f.timeoutsState.finallyStartTime f.timeoutsState.finallyTimeout

/-- The reasons to skip a task that depend on what comes before it in the graph. -/
def skipBecauseOfParents (skip : SkipFn) (pointer : Bool) (t : ResolvedPipelineTask) :
    Facts SkippingReason := do
  if ← skipBecauseWhenExpressionsEvaluatedToFalse skip t then return .whenExpressions
  else if ← skipBecauseParentTaskWasSkipped skip t then return .parentTasks
  else
    let (missing, t) ← skipBecauseResultReferencesAreMissing skip pointer t
    if missing then return .missingResults
    else if ← skipBecausePipelineRunPipelineTimeoutReached skip t then return .pipelineTimedOut
    else if ← skipBecausePipelineRunTasksTimeoutReached skip t then return .tasksTimedOut
    else if t.skipBecauseEmptyArrayInMatrixParams then return .emptyArrayInMatrixParams
    else return .none

/-- `skip` -/
def skipReason (skip : SkipFn) (pointer : Bool) (t : ResolvedPipelineTask) :
    Facts SkippingReason := do
  let f ← get
  if f.isFinalTask t.name || t.isScheduled || f.isValidationFailed t then return .none
  else if f.isStopping then return .stopping
  else if f.isGracefullyCancelled then return .gracefullyCancelled
  else if f.isGracefullyStopped then return .gracefullyStopped
  else skipBecauseOfParents skip pointer t

def cacheSkip (name : String) (reason : SkippingReason) : Facts SkippingReason := do
  modify fun f => { f with skipCache := (name, reason) :: f.skipCache }
  return reason

def skipFuel : Nat → SkipFn
  | 0, _, _ => stuck
  | fuel + 1, pointer, name => do
    match (← get).skipCache.lookup name with
    | some reason => return reason
    | none =>
      let t ← taskOf name
      let reason ← skipReason (skipFuel fuel) pointer t
      cacheSkip name reason

/-- `Skip`. Its recursion goes down the graph, which has no longer path than this. -/
def skip : SkipFn := fun pointer name => do
  let f ← get
  skipFuel (f.tasksGraph.nodes.length + 1) pointer name

def completedOrSkippedDAGTasks : Facts (List String) := do
  let f ← get
  filterOf (isDone skip) (f.names.filter fun n => f.isDAGTask n)

def checkTasksDone (g : Graph) : Facts Bool := do
  let f ← get
  allOf (isDone skip) (f.names.filter fun n => decide (n ∈ g.nodes))

def checkDAGTasksDone : Facts Bool := do
  let f ← get
  checkTasksDone f.tasksGraph.toGraph

def checkFinalTasksDone : Facts Bool := do
  let f ← get
  checkTasksDone f.finalTasksGraph

def finallySkipReason (name : String) : Facts SkippingReason := do
  let t ← taskOf name
  let (missing, t) ← skipBecauseResultReferencesAreMissing skip true t
  if missing then return .missingResults
  else if ← skipBecauseWhenExpressionsEvaluatedToFalse skip t then return .whenExpressions
  else if ← skipBecausePipelineRunPipelineTimeoutReached skip t then return .pipelineTimedOut
  else if ← skipBecausePipelineRunFinallyTimeoutReached skip t then return .finallyTimedOut
  else if t.skipBecauseEmptyArrayInMatrixParams then return .emptyArrayInMatrixParams
  else return .none

def isFinallySkipped (name : String) : Facts SkippingReason := do
  let t ← taskOf name
  if t.isScheduled then return .none
  else
    let done ← checkDAGTasksDone
    let f ← get
    if done && f.isFinalTask name then finallySkipReason name
    else return .none

end TektonPipeline.Pipeline
