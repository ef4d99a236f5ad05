import TektonPipeline.Conversion.Annotations

/-! Conversion of specs. A task spec leaves its deprecated fields in the annotations on the way
to v1 and looks for them there on the way back; `toV1` is what a spec becomes apart from that.
The task specs inside a pipeline spec are converted one after another, those of the finally
tasks last. -/

namespace TektonPipeline.Conversion

variable {α τ A B : Type}

def convertEach (g : A → Convert τ B) : List A → Convert τ (List B)
  | [] => pure []
  | a :: l => do
    let b ← g a
    let bs ← convertEach g l
    return b :: bs

def convertOption (g : A → Convert τ B) : Option A → Convert τ (Option B)
  | none => pure none
  | some a => do
    let b ← g a
    return some b

namespace V1Beta1

def TaskSpec.toV1 (ts : TaskSpec α) : V1.TaskSpec α :=
  { steps := ts.steps.map Step.convertTo
    volumes := ts.volumes
    stepTemplate := ts.stepTemplate.map StepTemplate.convertTo
    sidecars := ts.sidecars.map Sidecar.convertTo
    workspaces := ts.workspaces.map WorkspaceDeclaration.convertTo
    results := ts.results.map TaskResult.convertTo
    params := ts.params.map ParamSpec.convertTo
    displayName := ts.displayName
    description := ts.description }

def TaskSpec.convertTo (c : Codec α τ) (ts : TaskSpec α) (taskName : String) :
    Convert τ (V1.TaskSpec α) := do
  serializeTaskDeprecations c ts taskName
  return ts.toV1

def TaskSpec.stepsFrom (source : V1.TaskSpec α) : TaskSpec α :=
  { steps := source.steps.map Step.convertFrom
    volumes := source.volumes
    stepTemplate := source.stepTemplate.map StepTemplate.convertFrom }

def TaskSpec.fieldsFrom (source : V1.TaskSpec α) (ts : TaskSpec α) : TaskSpec α :=
  { ts with
    sidecars := source.sidecars.map Sidecar.convertFrom
    workspaces := source.workspaces.map WorkspaceDeclaration.convertFrom
    results := source.results.map TaskResult.convertFrom
    params := source.params.map ParamSpec.convertFrom
    displayName := source.displayName
    description := source.description }

def TaskSpec.convertFrom (c : Codec α τ) (source : V1.TaskSpec α) (taskName : String) :
    Convert τ (TaskSpec α) := do
  let ts ← deserializeTaskDeprecations c (stepsFrom source) taskName
  return fieldsFrom source ts

def EmbeddedTask.toV1 (et : EmbeddedTask α) : V1.EmbeddedTask α :=
  { typeMeta := et.typeMeta
    spec := et.spec
    metadata := et.metadata
    taskSpec := et.taskSpec.toV1 }

def EmbeddedTask.convertTo (c : Codec α τ) (taskName : String) (et : EmbeddedTask α) :
    Convert τ (V1.EmbeddedTask α) := do
  let taskSpec ← et.taskSpec.convertTo c taskName
  return { typeMeta := et.typeMeta, spec := et.spec, metadata := et.metadata, taskSpec }

def EmbeddedTask.convertFrom (c : Codec α τ) (taskName : String)
    (source : V1.EmbeddedTask α) : Convert τ (EmbeddedTask α) := do
  let taskSpec ← TaskSpec.convertFrom c source.taskSpec taskName
  return { typeMeta := source.typeMeta, spec := source.spec, metadata := source.metadata,
           taskSpec }

def PipelineTask.fieldsTo (pt : PipelineTask α) (taskSpec : Option (V1.EmbeddedTask α)) :
    V1.PipelineTask α :=
  { name := pt.name
    displayName := pt.displayName
    description := pt.description
    taskRef := pt.taskRef.map TaskRef.convertTo
    taskSpec
    when := pt.whenExpressions.map WhenExpression.convertTo
    onError := pt.onError
    retries := pt.retries
    runAfter := pt.runAfter
    params := pt.params.map Param.convertTo
    matrix := if isMatrixed pt.matrix then pt.matrix.map Matrix.convertTo else none
    workspaces := pt.workspaces.map WorkspacePipelineTaskBinding.convertTo
    timeout := pt.timeout }

def PipelineTask.fieldsFrom (source : V1.PipelineTask α) (taskSpec : Option (EmbeddedTask α)) :
    PipelineTask α :=
  { name := source.name
    displayName := source.displayName
    description := source.description
    taskRef := source.taskRef.map TaskRef.convertFrom
    taskSpec
    whenExpressions := source.when.map WhenExpression.convertFrom
    onError := source.onError
    retries := source.retries
    runAfter := source.runAfter
    params := source.params.map Param.convertFrom
    matrix := if isMatrixed source.matrix then source.matrix.map Matrix.convertFrom else none
    workspaces := source.workspaces.map WorkspacePipelineTaskBinding.convertFrom
    timeout := source.timeout }

def PipelineTask.toV1 (pt : PipelineTask α) : V1.PipelineTask α :=
  pt.fieldsTo (pt.taskSpec.map EmbeddedTask.toV1)

def PipelineTask.convertTo (c : Codec α τ) (pt : PipelineTask α) :
    Convert τ (V1.PipelineTask α) := do
  let taskSpec ← convertOption (EmbeddedTask.convertTo c pt.name) pt.taskSpec
  return pt.fieldsTo taskSpec

def PipelineTask.convertFrom (c : Codec α τ) (source : V1.PipelineTask α) :
    Convert τ (PipelineTask α) := do
  let taskSpec ← convertOption (EmbeddedTask.convertFrom c source.name) source.taskSpec
  return fieldsFrom source taskSpec

def PipelineSpec.fieldsTo (ps : PipelineSpec α) (tasks finallyTasks : List (V1.PipelineTask α)) :
    V1.PipelineSpec α :=
  { displayName := ps.displayName
    description := ps.description
    tasks
    params := ps.params.map ParamSpec.convertTo
    workspaces := ps.workspaces.map PipelineWorkspaceDeclaration.convertTo
    results := ps.results.map PipelineResult.convertTo
    finallyTasks }

def PipelineSpec.fieldsFrom (source : V1.PipelineSpec α)
    (tasks finallyTasks : List (PipelineTask α)) : PipelineSpec α :=
  { displayName := source.displayName
    description := source.description
    tasks
    params := source.params.map ParamSpec.convertFrom
    workspaces := source.workspaces.map PipelineWorkspaceDeclaration.convertFrom
    results := source.results.map PipelineResult.convertFrom
    finallyTasks }

def PipelineSpec.toV1 (ps : PipelineSpec α) : V1.PipelineSpec α :=
  ps.fieldsTo (ps.tasks.map PipelineTask.toV1) (ps.finallyTasks.map PipelineTask.toV1)

def PipelineSpec.convertTo (c : Codec α τ) (ps : PipelineSpec α) :
    Convert τ (V1.PipelineSpec α) := do
  let tasks ← convertEach (PipelineTask.convertTo c) ps.tasks
  let finallyTasks ← convertEach (PipelineTask.convertTo c) ps.finallyTasks
  return ps.fieldsTo tasks finallyTasks

def PipelineSpec.convertFrom (c : Codec α τ) (source : V1.PipelineSpec α) :
    Convert τ (PipelineSpec α) := do
  let tasks ← convertEach (PipelineTask.convertFrom c) source.tasks
  let finallyTasks ← convertEach (PipelineTask.convertFrom c) source.finallyTasks
  return fieldsFrom source tasks finallyTasks

def PipelineRunSpec.fieldsTo (prs : PipelineRunSpec α)
    (pipelineSpec : Option (V1.PipelineSpec α)) : V1.PipelineRunSpec α :=
  { pipelineRef := prs.pipelineRef.map PipelineRef.convertTo
    pipelineSpec
    params := prs.params.map Param.convertTo
    status := prs.status
    timeouts :=
      match prs.timeout with
      | none => prs.timeouts.map TimeoutFields.convertTo
      | some timeout => some { pipeline := some timeout }
    taskRunTemplate :=
      { podTemplate := prs.podTemplate, serviceAccountName := prs.serviceAccountName }
    workspaces := prs.workspaces.map WorkspaceBinding.convertTo
    taskRunSpecs := prs.taskRunSpecs.map PipelineTaskRunSpec.convertTo }

def PipelineRunSpec.fieldsFrom (source : V1.PipelineRunSpec α)
    (pipelineSpec : Option (PipelineSpec α)) : PipelineRunSpec α :=
  { pipelineRef := source.pipelineRef.map PipelineRef.convertFrom
    pipelineSpec
    params := source.params.map Param.convertFrom
    serviceAccountName := source.taskRunTemplate.serviceAccountName
    status := source.status
    timeouts := source.timeouts.map TimeoutFields.convertFrom
    podTemplate := source.taskRunTemplate.podTemplate
    workspaces := source.workspaces.map WorkspaceBinding.convertFrom
    taskRunSpecs := source.taskRunSpecs.map PipelineTaskRunSpec.convertFrom }

def PipelineRunSpec.convertTo (c : Codec α τ) (prs : PipelineRunSpec α) :
    Convert τ (V1.PipelineRunSpec α) := do
  let pipelineSpec ← convertOption (PipelineSpec.convertTo c) prs.pipelineSpec
  return prs.fieldsTo pipelineSpec

def PipelineRunSpec.convertFrom (c : Codec α τ) (source : V1.PipelineRunSpec α) :
    Convert τ (PipelineRunSpec α) := do
  let pipelineSpec ← convertOption (PipelineSpec.convertFrom c) source.pipelineSpec
  return fieldsFrom source pipelineSpec

def TaskRunSpec.fieldsTo (trs : TaskRunSpec α) (taskSpec : Option (V1.TaskSpec α)) :
    V1.TaskRunSpec α :=
  { debug := trs.debug.map TaskRunDebug.convertTo
    params := trs.params.map Param.convertTo
    serviceAccountName := trs.serviceAccountName
    taskRef := trs.taskRef.map TaskRef.convertTo
    taskSpec
    status := trs.status
    statusMessage := trs.statusMessage
    retries := trs.retries
    timeout := trs.timeout
    podTemplate := trs.podTemplate
    workspaces := trs.workspaces.map WorkspaceBinding.convertTo
    stepSpecs := trs.stepOverrides.map TaskRunStepOverride.convertTo
    sidecarSpecs := trs.sidecarOverrides.map TaskRunSidecarOverride.convertTo
    computeResources := trs.computeResources }

def TaskRunSpec.fieldsFrom (source : V1.TaskRunSpec α) (taskSpec : Option (TaskSpec α)) :
    TaskRunSpec α :=
  { debug := source.debug.map TaskRunDebug.convertFrom
    params := source.params.map Param.convertFrom
    serviceAccountName := source.serviceAccountName
    taskRef := source.taskRef.map TaskRef.convertFrom
    taskSpec
    status := source.status
    statusMessage := source.statusMessage
    retries := source.retries
    timeout := source.timeout
    podTemplate := source.podTemplate
    workspaces := source.workspaces.map WorkspaceBinding.convertFrom
    stepOverrides := source.stepSpecs.map TaskRunStepOverride.convertFrom
    sidecarOverrides := source.sidecarSpecs.map TaskRunSidecarOverride.convertFrom
    computeResources := source.computeResources }

def TaskRunSpec.toV1 (trs : TaskRunSpec α) : V1.TaskRunSpec α :=
  trs.fieldsTo (trs.taskSpec.map TaskSpec.toV1)

def TaskRunSpec.convertTo (c : Codec α τ) (name : String) (trs : TaskRunSpec α) :
    Convert τ (V1.TaskRunSpec α) := do
  let taskSpec ← convertOption (fun ts => TaskSpec.convertTo c ts name) trs.taskSpec
  return trs.fieldsTo taskSpec

def TaskRunSpec.convertFrom (c : Codec α τ) (name : String) (source : V1.TaskRunSpec α) :
    Convert τ (TaskRunSpec α) := do
  let taskSpec ← convertOption (fun ts => TaskSpec.convertFrom c ts name) source.taskSpec
  return fieldsFrom source taskSpec

end V1Beta1
end TektonPipeline.Conversion
