import TektonPipeline.Library.Stateful
import TektonPipeline.Pipeline.Dag
import TektonPipeline.TaskRun.Conditions

/-! The resolved tasks of a PipelineRun, with their runs and the results these have
produced. -/

namespace TektonPipeline.Pipeline
open Api TaskRunReconciler

/-- A TaskRun or a CustomRun. A result of a CustomRun is held as the value its text stands
for. -/
structure ChildRun where
  name : String
  succeeded : Option Condition := none
  statusMessage : String := ""
  params : Params := []
  results : List (String × ResultValue) := []
  deriving DecidableEq

def ChildRun.isDone (r : ChildRun) : Bool := !isUnknown r.succeeded

def ChildRun.isSuccessful (r : ChildRun) : Bool := hasStatus .isTrue r.succeeded

def ChildRun.isFailure (r : ChildRun) : Bool := hasStatus .isFalse r.succeeded

def ChildRun.failedFor (r : ChildRun) (reason : String) : Bool :=
  r.isFailure && (r.succeeded.map (·.reason)) == some reason

/-- `resolvedTask` is the identity of the object a pointer leads to, `none` the nil
pointer. -/
structure ResolvedPipelineTask where
  pipelineTask : PipelineTask
  customTask : Bool := false
  taskRunNames : List String := []
  taskRuns : List ChildRun := []
  customRunNames : List String := []
  customRuns : List ChildRun := []
  resolvedTask : Option Nat := none
  resultsCache : List (String × List String) := []
  evaluatedCEL : List (String × Bool) := []
  deriving DecidableEq

namespace ResolvedPipelineTask

def name (t : ResolvedPipelineTask) : String := t.pipelineTask.name

def runs (t : ResolvedPipelineTask) : List ChildRun :=
  if t.customTask then t.customRuns else t.taskRuns

def isScheduled (t : ResolvedPipelineTask) : Bool := !t.runs.isEmpty

def isSuccessful (t : ResolvedPipelineTask) : Bool :=
  !t.runs.isEmpty && t.runs.all (·.isSuccessful)

def isFailure (t : ResolvedPipelineTask) : Bool :=
  !t.runs.isEmpty && (t.runs.any (·.isFailure) && t.runs.all (·.isDone))

def isRunning (t : ResolvedPipelineTask) : Bool :=
  !t.runs.isEmpty && (!t.isSuccessful && !t.isFailure)

def cancelledReason (t : ResolvedPipelineTask) : String :=
  if t.customTask then "CustomRunCancelled" else "TaskRunCancelled"

def timeoutMessage (t : ResolvedPipelineTask) : String :=
  if t.customTask then "CustomRun cancelled as the PipelineRun it belongs to has timed out."
  else "TaskRun cancelled as the PipelineRun it belongs to has timed out."

def isCancelled (t : ResolvedPipelineTask) : Bool :=
  !t.runs.isEmpty && (t.runs.any (·.failedFor t.cancelledReason) && t.runs.all (·.isDone))

def isCancelledForTimeOut (t : ResolvedPipelineTask) : Bool :=
  !t.runs.isEmpty && (t.runs.all (·.isDone) &&
    t.runs.any fun r => r.failedFor t.cancelledReason && r.statusMessage == t.timeoutMessage)

/-- A matrixed task references no result but those of its parameters; the source reads the
parameters of the task twice and those of the matrix not at all. -/
def hasResultReferences (t : ResolvedPipelineTask) : Bool :=
  let matrixParams := if t.pipelineTask.isMatrixed then t.pipelineTask.params else []
  ((t.pipelineTask.params ++ matrixParams).any fun p =>
      looksLikeContainsResultRefs p.getVarSubstitutionExpressions) ||
    t.pipelineTask.when.any fun we => looksLikeContainsResultRefs we.getVarSubstitutionExpressions

def skipBecauseEmptyArrayInMatrixParams (t : ResolvedPipelineTask) : Bool :=
  t.pipelineTask.isMatrixed && t.pipelineTask.matrix.params.any fun p =>
    p.value.type == .array && p.value.arrayVal.isEmpty

/-- `createResultsCacheMatrixedTaskRuns`, where the cache is still empty. -/
def cacheResults (t : ResolvedPipelineTask) : ResolvedPipelineTask :=
  if t.resultsCache.isEmpty then
    let taskRuns := t.taskRuns.insertionSort fun a b => a.name ≤ b.name
    { t with
      taskRuns := taskRuns
      resultsCache := (taskRuns.flatMap (·.results)).foldl
        (fun cache r =>
          if cache.any fun e => e.1 == r.1 then
            cache.map fun e => if e.1 = r.1 then (e.1, e.2 ++ [r.2.stringVal]) else e
          else cache ++ [(r.1, [r.2.stringVal])]) [] }
  else t

end ResolvedPipelineTask

abbrev PipelineRunState := List ResolvedPipelineTask

/-- The entry of `ToMap` for a name: the last task of that name. -/
def PipelineRunState.task? (s : PipelineRunState) (name : String) : Option ResolvedPipelineTask :=
  s.reverse.find? fun t => t.name == name

def PipelineRunState.update (s : PipelineRunState) (name : String)
    (f : ResolvedPipelineTask → ResolvedPipelineTask) : PipelineRunState :=
  s.map fun t => if t.name = name then f t else t

structure ResolvedResultRef where
  value : ResultValue
  resultReference : ResultRef
  deriving DecidableEq

/-- The task a reference could not be resolved for, and why. -/
structure RefError where
  pipelineTask : String
  message : String
  deriving DecidableEq

def invalidReference (ref : ResultRef) : RefError :=
  ⟨ref.pipelineTask, "Invalid task result reference: Could not find result with name " ++
    ref.result ++ " for task " ++ ref.pipelineTask⟩

def findResult (runs : List ChildRun) (ref : ResultRef) : Except RefError ResultValue :=
  match runs with
  | [] => .error (invalidReference ref)
  | run :: _ =>
    match run.results.lookup ref.result with
    | some value => .ok value
    | none => .error (invalidReference ref)

def findResultValuesForMatrix (t : ResolvedPipelineTask) (ref : ResultRef) :
    Except RefError (List ResolvedResultRef) :=
  match t.resultsCache.lookup ref.result with
  | some values => .ok (t.taskRuns.map fun _ => ⟨{ type := .array, arrayVal := values }, ref⟩)
  | none => .error (invalidReference ref)

/-- One reference. The results of a matrixed task are collected, and kept in it, on the first
reference to one of them. -/
def resolveRef (s : PipelineRunState) (ref : ResultRef) :
    PipelineRunState × Except RefError (List ResolvedResultRef) :=
  match s.task? ref.pipelineTask with
  | none =>
    (s, .error ⟨ref.pipelineTask,
      "could not find task " ++ quote ref.pipelineTask ++ " referenced by result"⟩)
  | some t =>
    if !t.isSuccessful && !t.isFailure then
      (s, .error ⟨ref.pipelineTask,
        "task " ++ quote t.name ++ " referenced by result was not finished"⟩)
    else if !t.customTask && t.pipelineTask.isMatrixed then
      (s.update ref.pipelineTask ResolvedPipelineTask.cacheResults,
        findResultValuesForMatrix t.cacheResults ref)
    else (s, (findResult t.runs ref).map fun value => [⟨value, ref⟩])

def resolveRefs : PipelineRunState → List ResultRef →
    PipelineRunState × Except RefError (List ResolvedResultRef)
  | s, [] => (s, .ok [])
  | s, ref :: refs =>
    match resolveRef s ref with
    | (s, .error e) => (s, .error e)
    | (s, .ok resolved) =>
      match resolveRefs s refs with
      | (s, .error e) => (s, .error e)
      | (s, .ok rest) => (s, .ok (resolved ++ rest))

def convertToResultRefs (s : PipelineRunState) (target : PipelineTask) :
    PipelineRunState × Except RefError (List ResolvedResultRef) :=
  resolveRefs s (pipelineTaskResultRefs target)

namespace ResolvedResultRef

def targets (r : ResolvedResultRef) (dotted bracketed : String) : List String :=
  let task := "tasks." ++ r.resultReference.pipelineTask ++ ".results"
  let result := r.resultReference.result
  [task ++ "." ++ result ++ dotted, task ++ "[" ++ quote result ++ "]" ++ bracketed,
    task ++ "['" ++ result ++ "']" ++ bracketed]

def stringReplacements (r : ResolvedResultRef) : List (String × String) :=
  match r.value.type with
  | .array =>
    r.value.arrayVal.zipIdx.flatMap fun e =>
      let index := "[" ++ toString e.2 ++ "]"
      (r.targets index index).map fun target => (target, e.1)
  | .object =>
    r.value.objectVal.flatMap fun e =>
      (r.targets ("." ++ e.1) ("[" ++ e.1 ++ "]")).map fun target => (target, e.2)
  | .string => (r.targets "" "").map fun target => (target, r.value.stringVal)

def arrayReplacements (r : ResolvedResultRef) : List (String × List String) :=
  match r.value.type with
  | .array => (r.targets "" "").map fun target => (target, r.value.arrayVal)
  | _ => []

def objectReplacements (r : ResolvedResultRef) : List (String × List (String × String)) :=
  match r.value.type with
  | .object => (r.targets "" "").map fun target => (target, r.value.objectVal)
  | _ => []

end ResolvedResultRef

/-- Parameters of a matrix take strings and arrays, those of an include strings only. -/
def applyTaskResults (pt : PipelineTask) (refs : List ResolvedResultRef) : PipelineTask :=
  let r : Replacements :=
    { strings := refs.flatMap (·.stringReplacements)
      arrays := refs.flatMap (·.arrayReplacements)
      objects := refs.flatMap (·.objectReplacements) }
  { pt with
    params := pt.params.replaceVariables r
    matrix :=
      if pt.isMatrixed then
        { params := pt.matrix.params.replaceVariables { r with objects := [] }
          includes := pt.matrix.includes.map fun i =>
            { i with params := i.params.replaceVariables { strings := r.strings } } }
      else pt.matrix
    when := pt.when.replaceVariables r }

theorem applyTaskResults_nil (pt : PipelineTask) : applyTaskResults pt [] = pt := by
  simp [applyTaskResults, Params.replaceVariables_nil, WhenExpressions.replaceVariables_nil]

end TektonPipeline.Pipeline
