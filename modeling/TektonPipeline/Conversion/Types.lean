import Mathlib.Data.List.Basic

/-! The API types of both versions as far as conversion reads them. What it only copies and
never looks into (environments, probes, volumes, quantities, times) are values of one type
`α`; a struct of those that has no field set is `none`. Lists and maps are lists, so a nil
one and an empty one are the same, and a map is listed in the order of its keys. A type that
both versions declare alike is declared once. -/

namespace TektonPipeline.Conversion

structure ParamValue where
  type : String := ""
  stringVal : String := ""
  arrayVal : List String := []
  objectVal : List (String × String) := []

structure Param where
  name : String
  value : ParamValue

structure PropertySpec where
  type : String := ""

structure ParamSpec where
  name : String
  type : String := ""
  description : String := ""
  properties : List (String × PropertySpec) := []
  default : Option ParamValue := none
  enum : List String := []

structure ResolverRef where
  resolver : String := ""
  params : List Param := []

structure Ref where
  name : String := ""
  resolverRef : ResolverRef := {}

structure WhenExpression where
  input : String := ""
  operator : String := ""
  values : List String := []
  cel : String := ""

structure IncludeParams where
  name : String := ""
  params : List Param := []

structure Matrix where
  params : List Param := []
  includes : List IncludeParams := []

structure WorkspaceDeclaration where
  name : String
  description : String := ""
  mountPath : String := ""
  readOnly : Bool := false
  optional : Bool := false

structure WorkspaceUsage where
  name : String
  mountPath : String := ""

structure PipelineWorkspaceDeclaration where
  name : String
  description : String := ""
  optional : Bool := false

structure WorkspacePipelineTaskBinding where
  name : String
  workspace : String := ""
  subPath : String := ""

structure WorkspaceBinding (α : Type) where
  name : String
  subPath : String := ""
  volumeClaimTemplate : Option α := none
  persistentVolumeClaim : Option α := none
  emptyDir : Option α := none
  configMap : Option α := none
  secret : Option α := none
  projected : Option α := none
  csi : Option α := none

structure TaskResult where
  name : String
  type : String := ""
  properties : List (String × PropertySpec) := []
  description : String := ""
  value : Option ParamValue := none

structure PipelineResult where
  name : String
  type : String := ""
  description : String := ""
  value : ParamValue

structure PipelineTaskMetadata where
  labels : List (String × String) := []
  annotations : List (String × String) := []

structure TypeMeta where
  apiVersion : String := ""
  kind : String := ""

structure TimeoutFields (α : Type) where
  pipeline : Option α := none
  tasks : Option α := none
  finallyTasks : Option α := none

structure TaskBreakpoints where
  onFailure : String := ""
  beforeSteps : List String := []

structure TaskRunDebug where
  breakpoints : Option TaskBreakpoints := none

/-- `ComputeResources` of v1 is `Resources` in v1beta1. -/
structure Sidecar (α : Type) where
  name : String
  image : String := ""
  command : List String := []
  args : List String := []
  workingDir : String := ""
  ports : List α := []
  envFrom : List α := []
  env : List α := []
  computeResources : Option α := none
  volumeMounts : List α := []
  volumeDevices : List α := []
  livenessProbe : Option α := none
  readinessProbe : Option α := none
  startupProbe : Option α := none
  lifecycle : Option α := none
  terminationMessagePath : String := ""
  terminationMessagePolicy : String := ""
  imagePullPolicy : String := ""
  securityContext : Option α := none
  stdin : Bool := false
  stdinOnce : Bool := false
  tty : Bool := false
  script : String := ""
  workspaces : List WorkspaceUsage := []
  restartPolicy : Option String := none

structure RefSource where
  uri : String := ""
  digest : List (String × String) := []
  entryPoint : String := ""

structure ArtifactValue where
  digest : List (String × String) := []
  uri : String := ""

/-- `TaskRunStepArtifact` is another name for it. -/
structure Artifact where
  name : String := ""
  values : List ArtifactValue := []
  buildOutput : Bool := false

/-- `TaskRunStepResult` is another name for it. -/
structure TaskRunResult where
  name : String
  type : String := ""
  value : ParamValue

structure PipelineRunResult where
  name : String
  value : ParamValue

structure SkippedTask where
  name : String
  reason : String := ""
  whenExpressions : List WhenExpression := []

structure ChildStatusReference where
  typeMeta : TypeMeta := {}
  name : String := ""
  displayName : String := ""
  pipelineTaskName : String := ""
  whenExpressions : List WhenExpression := []

/-- `rest` is the exit code, the signal, the message, the times and the container's id. -/
structure ContainerStateTerminated (α : Type) where
  reason : String := ""
  rest : Option α := none

structure ContainerState (α : Type) where
  waiting : Option α := none
  running : Option α := none
  terminated : Option (ContainerStateTerminated α) := none

/-- `Container` of v1 is `ContainerName` in v1beta1. -/
structure SidecarState (α : Type) where
  containerState : ContainerState α := {}
  name : String := ""
  container : String := ""
  imageID : String := ""

structure ObjectMeta (τ : Type) where
  name : String := ""
  annotations : List (String × τ) := []

namespace V1

structure TaskRef where
  name : String := ""
  kind : String := ""
  apiVersion : String := ""
  resolverRef : ResolverRef := {}

structure PipelineRef where
  name : String := ""
  apiVersion : String := ""
  resolverRef : ResolverRef := {}

structure Step (α : Type) where
  name : String := ""
  image : String := ""
  command : List String := []
  args : List String := []
  workingDir : String := ""
  envFrom : List α := []
  env : List α := []
  computeResources : Option α := none
  volumeMounts : List α := []
  volumeDevices : List α := []
  imagePullPolicy : String := ""
  securityContext : Option α := none
  script : String := ""
  timeout : Option α := none
  workspaces : List WorkspaceUsage := []
  onError : String := ""
  stdoutConfig : Option α := none
  stderrConfig : Option α := none
  ref : Option Ref := none
  params : List Param := []
  results : List α := []
  when : List WhenExpression := []

structure StepTemplate (α : Type) where
  image : String := ""
  command : List String := []
  args : List String := []
  workingDir : String := ""
  envFrom : List α := []
  env : List α := []
  computeResources : Option α := none
  volumeMounts : List α := []
  volumeDevices : List α := []
  imagePullPolicy : String := ""
  securityContext : Option α := none

structure TaskSpec (α : Type) where
  params : List ParamSpec := []
  displayName : String := ""
  description : String := ""
  steps : List (Step α) := []
  volumes : List α := []
  stepTemplate : Option (StepTemplate α) := none
  sidecars : List (Sidecar α) := []
  workspaces : List WorkspaceDeclaration := []
  results : List TaskResult := []

structure EmbeddedTask (α : Type) where
  typeMeta : TypeMeta := {}
  spec : Option α := none
  metadata : PipelineTaskMetadata := {}
  taskSpec : TaskSpec α := {}

mutual
structure PipelineTask (α : Type) where
  name : String := ""
  displayName : String := ""
  description : String := ""
  taskRef : Option TaskRef := none
  taskSpec : Option (EmbeddedTask α) := none
  when : List WhenExpression := []
  retries : Int := 0
  runAfter : List String := []
  params : List Param := []
  matrix : Option Matrix := none
  workspaces : List WorkspacePipelineTaskBinding := []
  timeout : Option α := none
  pipelineRef : Option PipelineRef := none
  pipelineSpec : Option (PipelineSpec α) := none
  onError : String := ""

structure PipelineSpec (α : Type) where
  displayName : String := ""
  description : String := ""
  tasks : List (PipelineTask α) := []
  params : List ParamSpec := []
  workspaces : List PipelineWorkspaceDeclaration := []
  results : List PipelineResult := []
  finallyTasks : List (PipelineTask α) := []
end

structure TaskRunStepSpec (α : Type) where
  name : String
  computeResources : Option α := none

structure TaskRunSidecarSpec (α : Type) where
  name : String
  computeResources : Option α := none

structure PipelineTaskRunTemplate (α : Type) where
  podTemplate : Option α := none
  serviceAccountName : String := ""

structure PipelineTaskRunSpec (α : Type) where
  pipelineTaskName : String := ""
  serviceAccountName : String := ""
  podTemplate : Option α := none
  stepSpecs : List (TaskRunStepSpec α) := []
  sidecarSpecs : List (TaskRunSidecarSpec α) := []
  metadata : Option PipelineTaskMetadata := none
  computeResources : Option α := none

structure PipelineRunSpec (α : Type) where
  pipelineRef : Option PipelineRef := none
  pipelineSpec : Option (PipelineSpec α) := none
  params : List Param := []
  status : String := ""
  timeouts : Option (TimeoutFields α) := none
  taskRunTemplate : PipelineTaskRunTemplate α := {}
  workspaces : List (WorkspaceBinding α) := []
  taskRunSpecs : List (PipelineTaskRunSpec α) := []

structure TaskRunSpec (α : Type) where
  debug : Option TaskRunDebug := none
  params : List Param := []
  serviceAccountName : String := ""
  taskRef : Option TaskRef := none
  taskSpec : Option (TaskSpec α) := none
  status : String := ""
  statusMessage : String := ""
  retries : Int := 0
  timeout : Option α := none
  podTemplate : Option α := none
  workspaces : List (WorkspaceBinding α) := []
  stepSpecs : List (TaskRunStepSpec α) := []
  sidecarSpecs : List (TaskRunSidecarSpec α) := []
  computeResources : Option α := none

structure Provenance (α : Type) where
  refSource : Option RefSource := none
  featureFlags : Option α := none

structure StepState (α : Type) where
  containerState : ContainerState α := {}
  name : String := ""
  container : String := ""
  imageID : String := ""
  results : List TaskRunResult := []
  provenance : Option (Provenance α) := none
  terminationReason : String := ""
  inputs : List Artifact := []
  outputs : List Artifact := []

structure TaskRunStatus (α : Type) where
  status : Option α := none
  podName : String := ""
  startTime : Option α := none
  completionTime : Option α := none
  steps : List (StepState α) := []
  retriesStatus : List (TaskRunStatus α) := []
  results : List TaskRunResult := []
  artifacts : Option α := none
  sidecars : List (SidecarState α) := []
  taskSpec : Option (TaskSpec α) := none
  provenance : Option (Provenance α) := none
  spanContext : List (String × String) := []

structure PipelineRunStatus (α : Type) where
  status : Option α := none
  startTime : Option α := none
  completionTime : Option α := none
  results : List PipelineRunResult := []
  pipelineSpec : Option (PipelineSpec α) := none
  skippedTasks : List SkippedTask := []
  childReferences : List ChildStatusReference := []
  finallyStartTime : Option α := none
  provenance : Option (Provenance α) := none
  spanContext : List (String × String) := []

structure Task (α τ : Type) where
  objectMeta : ObjectMeta τ := {}
  spec : TaskSpec α := {}

structure TaskRun (α τ : Type) where
  objectMeta : ObjectMeta τ := {}
  spec : TaskRunSpec α := {}
  status : TaskRunStatus α := {}

structure Pipeline (α τ : Type) where
  objectMeta : ObjectMeta τ := {}
  spec : PipelineSpec α := {}

structure PipelineRun (α τ : Type) where
  objectMeta : ObjectMeta τ := {}
  spec : PipelineRunSpec α := {}
  status : PipelineRunStatus α := {}

end V1

namespace V1Beta1

structure TaskRef where
  name : String := ""
  kind : String := ""
  apiVersion : String := ""
  bundle : String := ""
  resolverRef : ResolverRef := {}

structure PipelineRef where
  name : String := ""
  apiVersion : String := ""
  bundle : String := ""
  resolverRef : ResolverRef := {}

structure Deprecated (α : Type) where
  deprecatedPorts : List α := []
  deprecatedLivenessProbe : Option α := none
  deprecatedReadinessProbe : Option α := none
  deprecatedStartupProbe : Option α := none
  deprecatedLifecycle : Option α := none
  deprecatedTerminationMessagePath : String := ""
  deprecatedTerminationMessagePolicy : String := ""
  deprecatedStdin : Bool := false
  deprecatedStdinOnce : Bool := false
  deprecatedTTY : Bool := false

structure Step (α : Type) extends Deprecated α where
  name : String := ""
  image : String := ""
  command : List String := []
  args : List String := []
  workingDir : String := ""
  envFrom : List α := []
  env : List α := []
  resources : Option α := none
  volumeMounts : List α := []
  volumeDevices : List α := []
  imagePullPolicy : String := ""
  securityContext : Option α := none
  script : String := ""
  timeout : Option α := none
  workspaces : List WorkspaceUsage := []
  onError : String := ""
  stdoutConfig : Option α := none
  stderrConfig : Option α := none
  ref : Option Ref := none
  params : List Param := []
  results : List α := []
  when : List WhenExpression := []

structure DeprecatedTemplate (α : Type) extends Deprecated α where
  deprecatedName : String := ""

structure StepTemplate (α : Type) extends DeprecatedTemplate α where
  image : String := ""
  command : List String := []
  args : List String := []
  workingDir : String := ""
  envFrom : List α := []
  env : List α := []
  resources : Option α := none
  volumeMounts : List α := []
  volumeDevices : List α := []
  imagePullPolicy : String := ""
  securityContext : Option α := none

structure TaskSpec (α : Type) where
  resources : Option α := none
  params : List ParamSpec := []
  displayName : String := ""
  description : String := ""
  steps : List (Step α) := []
  volumes : List α := []
  stepTemplate : Option (StepTemplate α) := none
  sidecars : List (Sidecar α) := []
  workspaces : List WorkspaceDeclaration := []
  results : List TaskResult := []

structure EmbeddedTask (α : Type) where
  typeMeta : TypeMeta := {}
  spec : Option α := none
  metadata : PipelineTaskMetadata := {}
  taskSpec : TaskSpec α := {}

mutual
structure PipelineTask (α : Type) where
  name : String := ""
  displayName : String := ""
  description : String := ""
  taskRef : Option TaskRef := none
  taskSpec : Option (EmbeddedTask α) := none
  whenExpressions : List WhenExpression := []
  retries : Int := 0
  runAfter : List String := []
  resources : Option α := none
  params : List Param := []
  matrix : Option Matrix := none
  workspaces : List WorkspacePipelineTaskBinding := []
  timeout : Option α := none
  pipelineRef : Option PipelineRef := none
  pipelineSpec : Option (PipelineSpec α) := none
  onError : String := ""

structure PipelineSpec (α : Type) where
  displayName : String := ""
  description : String := ""
  resources : Option α := none
  tasks : List (PipelineTask α) := []
  params : List ParamSpec := []
  workspaces : List PipelineWorkspaceDeclaration := []
  results : List PipelineResult := []
  finallyTasks : List (PipelineTask α) := []
end

structure TaskRunStepOverride (α : Type) where
  name : String
  resources : Option α := none

structure TaskRunSidecarOverride (α : Type) where
  name : String
  resources : Option α := none

structure PipelineTaskRunSpec (α : Type) where
  pipelineTaskName : String := ""
  taskServiceAccountName : String := ""
  taskPodTemplate : Option α := none
  stepOverrides : List (TaskRunStepOverride α) := []
  sidecarOverrides : List (TaskRunSidecarOverride α) := []
  metadata : Option PipelineTaskMetadata := none
  computeResources : Option α := none

structure PipelineRunSpec (α : Type) where
  pipelineRef : Option PipelineRef := none
  pipelineSpec : Option (PipelineSpec α) := none
  resources : Option α := none
  params : List Param := []
  serviceAccountName : String := ""
  status : String := ""
  timeouts : Option (TimeoutFields α) := none
  timeout : Option α := none
  podTemplate : Option α := none
  workspaces : List (WorkspaceBinding α) := []
  taskRunSpecs : List (PipelineTaskRunSpec α) := []

structure TaskRunSpec (α : Type) where
  debug : Option TaskRunDebug := none
  params : List Param := []
  resources : Option α := none
  serviceAccountName : String := ""
  taskRef : Option TaskRef := none
  taskSpec : Option (TaskSpec α) := none
  status : String := ""
  statusMessage : String := ""
  retries : Int := 0
  timeout : Option α := none
  podTemplate : Option α := none
  workspaces : List (WorkspaceBinding α) := []
  stepOverrides : List (TaskRunStepOverride α) := []
  sidecarOverrides : List (TaskRunSidecarOverride α) := []
  computeResources : Option α := none

structure Provenance (α : Type) where
  configSource : Option α := none
  refSource : Option RefSource := none
  featureFlags : Option α := none

structure StepState (α : Type) where
  containerState : ContainerState α := {}
  name : String := ""
  containerName : String := ""
  imageID : String := ""
  results : List TaskRunResult := []
  provenance : Option (Provenance α) := none
  inputs : List Artifact := []
  outputs : List Artifact := []

structure TaskRunStatus (α : Type) where
  status : Option α := none
  podName : String := ""
  startTime : Option α := none
  completionTime : Option α := none
  steps : List (StepState α) := []
  cloudEvents : Option α := none
  retriesStatus : List (TaskRunStatus α) := []
  resourcesResult : Option α := none
  taskRunResults : List TaskRunResult := []
  sidecars : List (SidecarState α) := []
  taskSpec : Option (TaskSpec α) := none
  provenance : Option (Provenance α) := none
  spanContext : List (String × String) := []

structure PipelineRunStatus (α : Type) where
  status : Option α := none
  startTime : Option α := none
  completionTime : Option α := none
  pipelineResults : List PipelineRunResult := []
  pipelineSpec : Option (PipelineSpec α) := none
  skippedTasks : List SkippedTask := []
  childReferences : List ChildStatusReference := []
  finallyStartTime : Option α := none
  provenance : Option (Provenance α) := none
  spanContext : List (String × String) := []

structure Task (α τ : Type) where
  objectMeta : ObjectMeta τ := {}
  spec : TaskSpec α := {}

structure TaskRun (α τ : Type) where
  objectMeta : ObjectMeta τ := {}
  spec : TaskRunSpec α := {}
  status : TaskRunStatus α := {}

structure Pipeline (α τ : Type) where
  objectMeta : ObjectMeta τ := {}
  spec : PipelineSpec α := {}

structure PipelineRun (α τ : Type) where
  objectMeta : ObjectMeta τ := {}
  spec : PipelineRunSpec α := {}
  status : PipelineRunStatus α := {}

end V1Beta1
end TektonPipeline.Conversion
