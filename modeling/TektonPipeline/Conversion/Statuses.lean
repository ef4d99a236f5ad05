import TektonPipeline.Conversion.Specs

/-! Conversion of statuses, and of whole objects: the status first, then the spec, over the one
set of annotations. -/

namespace TektonPipeline.Conversion

variable {α τ : Type}

def RefSource.convertTo (cs : RefSource) : RefSource :=
  { uri := cs.uri, digest := cs.digest, entryPoint := cs.entryPoint }

def RefSource.convertFrom (source : RefSource) : RefSource :=
  { uri := source.uri, digest := source.digest, entryPoint := source.entryPoint }

def ArtifactValue.convertTo (t : ArtifactValue) : ArtifactValue :=
  { uri := t.uri, digest := t.digest.map fun e => (e.1, e.2) }

def ArtifactValue.convertFrom (source : ArtifactValue) : ArtifactValue :=
  { uri := source.uri, digest := source.digest.map fun e => (e.1, e.2) }

/-- Whether it is a build output is not copied. -/
def Artifact.convertTo (t : Artifact) : Artifact :=
  { name := t.name, values := t.values.map ArtifactValue.convertTo }

def Artifact.convertFrom (source : Artifact) : Artifact :=
  { name := source.name, values := source.values.map ArtifactValue.convertFrom }

def TaskRunResult.convertTo (trr : TaskRunResult) : TaskRunResult :=
  { name := trr.name, type := trr.type, value := trr.value.convertTo }

def TaskRunResult.convertFrom (source : TaskRunResult) : TaskRunResult :=
  { name := source.name, type := source.type, value := source.value.convertFrom }

def PipelineRunResult.convertTo (prr : PipelineRunResult) : PipelineRunResult :=
  { name := prr.name, value := prr.value.convertTo }

def PipelineRunResult.convertFrom (source : PipelineRunResult) : PipelineRunResult :=
  { name := source.name, value := source.value.convertFrom }

def SkippedTask.convertTo (st : SkippedTask) : SkippedTask :=
  { name := st.name, reason := st.reason,
    whenExpressions := st.whenExpressions.map WhenExpression.convertTo }

def SkippedTask.convertFrom (source : SkippedTask) : SkippedTask :=
  { name := source.name, reason := source.reason,
    whenExpressions := source.whenExpressions.map WhenExpression.convertFrom }

def ChildStatusReference.convertTo (csr : ChildStatusReference) : ChildStatusReference :=
  { typeMeta := csr.typeMeta
    name := csr.name
    displayName := csr.displayName
    pipelineTaskName := csr.pipelineTaskName
    whenExpressions := csr.whenExpressions.map WhenExpression.convertTo }

def ChildStatusReference.convertFrom (source : ChildStatusReference) : ChildStatusReference :=
  { typeMeta := source.typeMeta
    name := source.name
    displayName := source.displayName
    pipelineTaskName := source.pipelineTaskName
    whenExpressions := source.whenExpressions.map WhenExpression.convertFrom }

def SidecarState.convertTo (ss : SidecarState α) : SidecarState α :=
  { containerState := ss.containerState, name := ss.name, container := ss.container,
    imageID := ss.imageID }

def SidecarState.convertFrom (source : SidecarState α) : SidecarState α :=
  { containerState := source.containerState, name := source.name, container := source.container,
    imageID := source.imageID }

namespace V1Beta1

def Provenance.convertTo (p : Provenance α) : V1.Provenance α :=
  { refSource := p.refSource.map RefSource.convertTo, featureFlags := p.featureFlags }

def Provenance.convertFrom (source : V1.Provenance α) : Provenance α :=
  { refSource := source.refSource.map RefSource.convertFrom
    featureFlags := source.featureFlags }

/-- v1beta1 has no termination reason; that of the container takes its place. -/
def StepState.convertTo (ss : StepState α) : V1.StepState α :=
  { containerState := ss.containerState
    name := ss.name
    container := ss.containerName
    imageID := ss.imageID
    provenance := ss.provenance.map Provenance.convertTo
    terminationReason := (ss.containerState.terminated.map (·.reason)).getD ""
    outputs := ss.outputs.map Artifact.convertTo
    inputs := ss.inputs.map Artifact.convertTo
    results := ss.results.map TaskRunResult.convertTo }

def StepState.convertFrom (source : V1.StepState α) : StepState α :=
  { containerState := source.containerState
    name := source.name
    containerName := source.container
    imageID := source.imageID
    results := source.results.map TaskRunResult.convertFrom
    provenance := source.provenance.map Provenance.convertFrom
    outputs := source.outputs.map Artifact.convertFrom
    inputs := source.inputs.map Artifact.convertFrom }

def TaskRunStatus.fieldsTo (trs : TaskRunStatus α) (retriesStatus : List (V1.TaskRunStatus α))
    (taskSpec : Option (V1.TaskSpec α)) : V1.TaskRunStatus α :=
  { status := trs.status
    podName := trs.podName
    startTime := trs.startTime
    completionTime := trs.completionTime
    steps := trs.steps.map StepState.convertTo
    retriesStatus
    results := trs.taskRunResults.map TaskRunResult.convertTo
    sidecars := trs.sidecars.map SidecarState.convertTo
    taskSpec
    provenance := trs.provenance.map Provenance.convertTo }

def TaskRunStatus.fieldsFrom (source : V1.TaskRunStatus α)
    (retriesStatus : List (TaskRunStatus α)) (taskSpec : Option (TaskSpec α)) :
    TaskRunStatus α :=
  { status := source.status
    podName := source.podName
    startTime := source.startTime
    completionTime := source.completionTime
    steps := source.steps.map StepState.convertFrom
    retriesStatus
    taskRunResults := source.results.map TaskRunResult.convertFrom
    sidecars := source.sidecars.map SidecarState.convertFrom
    taskSpec
    provenance := source.provenance.map Provenance.convertFrom }

mutual
def TaskRunStatus.toV1 : TaskRunStatus α → V1.TaskRunStatus α
  | trs@{ retriesStatus, taskSpec, .. } =>
    trs.fieldsTo (retriesToV1 retriesStatus) (taskSpec.map TaskSpec.toV1)

def retriesToV1 : List (TaskRunStatus α) → List (V1.TaskRunStatus α)
  | [] => []
  | rr :: retries => rr.toV1 :: retriesToV1 retries
end

mutual
/-- The statuses of the retries come before the spec of the status itself, all under the name
of the TaskRun. -/
def TaskRunStatus.convertTo (c : Codec α τ) (name : String) :
    TaskRunStatus α → Convert τ (V1.TaskRunStatus α)
  | trs@{ retriesStatus, taskSpec, .. } => do
    let retriesStatus ← retriesConvertTo c name retriesStatus
    let taskSpec ← convertOption (fun ts => TaskSpec.convertTo c ts name) taskSpec
    return trs.fieldsTo retriesStatus taskSpec

def retriesConvertTo (c : Codec α τ) (name : String) :
    List (TaskRunStatus α) → Convert τ (List (V1.TaskRunStatus α))
  | [] => pure []
  | rr :: retries => do
    let rr ← rr.convertTo c name
    let retries ← retriesConvertTo c name retries
    return rr :: retries
end

mutual
def TaskRunStatus.convertFrom (c : Codec α τ) (name : String) :
    V1.TaskRunStatus α → Convert τ (TaskRunStatus α)
  | source@{ retriesStatus, taskSpec, .. } => do
    let retriesStatus ← retriesConvertFrom c name retriesStatus
    let taskSpec ← convertOption (fun ts => TaskSpec.convertFrom c ts name) taskSpec
    return TaskRunStatus.fieldsFrom source retriesStatus taskSpec

def retriesConvertFrom (c : Codec α τ) (name : String) :
    List (V1.TaskRunStatus α) → Convert τ (List (TaskRunStatus α))
  | [] => pure []
  | rr :: retries => do
    let rr ← TaskRunStatus.convertFrom c name rr
    let retries ← retriesConvertFrom c name retries
    return rr :: retries
end

def PipelineRunStatus.fieldsTo (prs : PipelineRunStatus α)
    (pipelineSpec : Option (V1.PipelineSpec α)) : V1.PipelineRunStatus α :=
  { status := prs.status
    startTime := prs.startTime
    completionTime := prs.completionTime
    results := prs.pipelineResults.map PipelineRunResult.convertTo
    pipelineSpec
    skippedTasks := prs.skippedTasks.map SkippedTask.convertTo
    childReferences := prs.childReferences.map ChildStatusReference.convertTo
    finallyStartTime := prs.finallyStartTime
    provenance := prs.provenance.map Provenance.convertTo }

def PipelineRunStatus.fieldsFrom (source : V1.PipelineRunStatus α)
    (pipelineSpec : Option (PipelineSpec α)) : PipelineRunStatus α :=
  { status := source.status
    startTime := source.startTime
    completionTime := source.completionTime
    pipelineResults := source.results.map PipelineRunResult.convertFrom
    pipelineSpec
    skippedTasks := source.skippedTasks.map SkippedTask.convertFrom
    childReferences := source.childReferences.map ChildStatusReference.convertFrom
    finallyStartTime := source.finallyStartTime
    provenance := source.provenance.map Provenance.convertFrom }

def PipelineRunStatus.convertTo (c : Codec α τ) (prs : PipelineRunStatus α) :
    Convert τ (V1.PipelineRunStatus α) := do
  let pipelineSpec ← convertOption (PipelineSpec.convertTo c) prs.pipelineSpec
  return prs.fieldsTo pipelineSpec

def PipelineRunStatus.convertFrom (c : Codec α τ) (source : V1.PipelineRunStatus α) :
    Convert τ (PipelineRunStatus α) := do
  let pipelineSpec ← convertOption (PipelineSpec.convertFrom c) source.pipelineSpec
  return fieldsFrom source pipelineSpec

/-! The objects. -/

def Task.convertTo (c : Codec α τ) (t : Task α τ) : Except String (V1.Task α τ) := do
  let (spec, annotations) ← (do
    serialize c .taskResources t.spec.resources
    t.spec.convertTo c t.objectMeta.name : Convert τ _).run t.objectMeta.annotations
  return { objectMeta := { t.objectMeta with annotations }, spec }

def Task.convertFrom (c : Codec α τ) (source : V1.Task α τ) : Except String (Task α τ) := do
  let (spec, annotations) ← (do
    let resources ← deserialize c .taskResources
    let spec ← TaskSpec.convertFrom c source.spec source.objectMeta.name
    return { spec with resources } : Convert τ _).run source.objectMeta.annotations
  return { objectMeta := { source.objectMeta with annotations }, spec }

def Pipeline.convertTo (c : Codec α τ) (p : Pipeline α τ) :
    Except String (V1.Pipeline α τ) := do
  let (spec, annotations) ← (do
    serialize c .pipelineResources p.spec.resources
    p.spec.convertTo c : Convert τ _).run p.objectMeta.annotations
  return { objectMeta := { p.objectMeta with annotations }, spec }

def Pipeline.convertFrom (c : Codec α τ) (source : V1.Pipeline α τ) :
    Except String (Pipeline α τ) := do
  let (spec, annotations) ← (do
    let resources ← deserialize c .pipelineResources
    let spec ← PipelineSpec.convertFrom c source.spec
    return { spec with resources } : Convert τ _).run source.objectMeta.annotations
  return { objectMeta := { source.objectMeta with annotations }, spec }

def PipelineRun.convertTo (c : Codec α τ) (pr : PipelineRun α τ) :
    Except String (V1.PipelineRun α τ) := do
  let ((status, spec), annotations) ← (do
    serialize c .pipelineRunResources pr.spec.resources
    let status ← pr.status.convertTo c
    let spec ← pr.spec.convertTo c
    return (status, spec) : Convert τ _).run pr.objectMeta.annotations
  return { objectMeta := { pr.objectMeta with annotations }, spec, status }

def PipelineRun.convertFrom (c : Codec α τ) (source : V1.PipelineRun α τ) :
    Except String (PipelineRun α τ) := do
  let ((status, spec), annotations) ← (do
    let resources ← deserialize c .pipelineRunResources
    let status ← PipelineRunStatus.convertFrom c source.status
    let spec ← PipelineRunSpec.convertFrom c source.spec
    return (status, { spec with resources }) : Convert τ _).run source.objectMeta.annotations
  return { objectMeta := { source.objectMeta with annotations }, spec, status }

/-- Resources found for the status make it a spec if it has none. -/
def TaskRunStatus.withResources (trs : TaskRunStatus α) (resources : Option α) : TaskRunStatus α :=
  match resources with
  | none => trs
  | some r => { trs with taskSpec := some { trs.taskSpec.getD {} with resources := some r } }

def TaskRun.convertTo (c : Codec α τ) (tr : TaskRun α τ) : Except String (V1.TaskRun α τ) := do
  let ((status, spec), annotations) ← (do
    serialize c .taskRunResources tr.spec.resources
    serialize c .cloudEvents tr.status.cloudEvents
    serialize c .resourcesResult tr.status.resourcesResult
    serialize c .resourcesStatus (tr.status.taskSpec.bind (·.resources))
    let status ← tr.status.convertTo c tr.objectMeta.name
    let spec ← tr.spec.convertTo c tr.objectMeta.name
    return (status, spec) : Convert τ _).run tr.objectMeta.annotations
  return { objectMeta := { tr.objectMeta with annotations }, spec, status }

def TaskRun.convertFrom (c : Codec α τ) (source : V1.TaskRun α τ) :
    Except String (TaskRun α τ) := do
  let ((status, spec), annotations) ← (do
    let resources ← deserialize c .taskRunResources
    let cloudEvents ← deserialize c .cloudEvents
    let resourcesResult ← deserialize c .resourcesResult
    let status ← TaskRunStatus.convertFrom c source.objectMeta.name source.status
    let status := { status with cloudEvents, resourcesResult }
    let resourcesStatus ← deserialize c .resourcesStatus
    let spec ← TaskRunSpec.convertFrom c source.objectMeta.name source.spec
    return (status.withResources resourcesStatus, { spec with resources }) :
      Convert τ _).run source.objectMeta.annotations
  return { objectMeta := { source.objectMeta with annotations }, spec, status }

end V1Beta1
end TektonPipeline.Conversion
