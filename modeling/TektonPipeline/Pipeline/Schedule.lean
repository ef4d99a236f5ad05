import TektonPipeline.Pipeline.Resolve

/-! What a round of scheduling asks of the state: whether a result that a task refers to is
missing, and the status of the tasks for the finally tasks. -/

namespace TektonPipeline.Pipeline
open Api Stateful TaskRunReconciler

def checkMissingResultReference (s : PipelineRunState) (ref : ResultRef) : Option String :=
  match s.task? ref.pipelineTask with
  | none =>
    some ("Result reference error: Could not find ref " ++ quote ref.pipelineTask ++
      " in internal pipelineRunState")
  | some t =>
    if t.runs.isEmpty then
      some ("Result reference error: Internal result ref " ++ quote ref.pipelineTask ++
        " has zero-length " ++ if t.customTask then "CustomRuns" else "TaskRuns")
    else
      match findResult t.runs ref with
      | .ok _ => none
      | .error e => some e.message

namespace ResolvedPipelineTask

def haveAnyRunsFailed (t : ResolvedPipelineTask) : Bool := t.runs.any (·.isFailure)

def getReason (t : ResolvedPipelineTask) : String :=
  match t.runs.find? fun r => !r.isSuccessful && r.succeeded.isSome with
  | some r => (r.succeeded.map (·.reason)).getD ""
  | none => (t.runs.head?.bind fun r => r.succeeded.map (·.reason)).getD ""

def executionStatus (t : ResolvedPipelineTask) : String :=
  if t.isSuccessful then "Succeeded" else if t.haveAnyRunsFailed then "Failed" else "None"

end ResolvedPipelineTask

def aggregateStatus (status : String) : List String → Facts String
  | [] => pure status
  | n :: ns => do
    let t ← taskOf n
    if t.haveAnyRunsFailed then return "Failed"
    else
      let reason ← skip true n
      aggregateStatus (if reason.isSkipped then "Completed" else status) ns

def PipelineRunFacts.executionStatuses (f : PipelineRunFacts) : List (String × String) :=
  (f.state.filter fun t => f.isDAGTask t.name).flatMap fun t =>
    [("tasks." ++ t.name ++ ".status", t.executionStatus),
      ("tasks." ++ t.name ++ ".reason", t.getReason)]

def getPipelineTaskStatus : Facts (List (String × String)) := do
  let f ← get
  if ← checkDAGTasksDone then
    let status ← aggregateStatus "Succeeded" (f.names.filter fun n => f.isDAGTask n)
    return ("tasks.status", status) :: f.executionStatuses
  else return ("tasks.status", "None") :: f.executionStatuses

end TektonPipeline.Pipeline
