import TektonPipeline.Conversion.Types

/-! Conversion of the parts of a spec or status that leave the metadata alone. `convertTo` is
the way from v1beta1 to v1 and `convertFrom` the way back. -/

namespace TektonPipeline.Conversion

variable {α : Type}

def paramTypeString : String := "string"

def ParamValue.convertTo (v : ParamValue) : ParamValue :=
  { type := if v.type ≠ "" then v.type else paramTypeString
    stringVal := v.stringVal
    arrayVal := v.arrayVal
    objectVal := v.objectVal }

def ParamValue.convertFrom (source : ParamValue) : ParamValue :=
  { type := if source.type ≠ "" then source.type else paramTypeString
    stringVal := source.stringVal
    arrayVal := source.arrayVal
    objectVal := source.objectVal }

def Param.convertTo (p : Param) : Param :=
  { name := p.name, value := p.value.convertTo }

def Param.convertFrom (source : Param) : Param :=
  { name := source.name, value := source.value.convertFrom }

def PropertySpec.convert (v : PropertySpec) : PropertySpec := { type := v.type }

/-- A default value is copied, without a type for one that has none. -/
def ParamSpec.convertTo (p : ParamSpec) : ParamSpec :=
  { name := p.name
    type := if p.type ≠ "" then p.type else paramTypeString
    description := p.description
    enum := p.enum
    properties := p.properties.map fun e => (e.1, e.2.convert)
    default := p.default.map fun v =>
      { type := v.type, stringVal := v.stringVal, arrayVal := v.arrayVal,
        objectVal := v.objectVal } }

def ParamSpec.convertFrom (source : ParamSpec) : ParamSpec :=
  { name := source.name
    type := if source.type ≠ "" then source.type else paramTypeString
    description := source.description
    enum := source.enum
    properties := source.properties.map fun e => (e.1, e.2.convert)
    default := source.default.map fun v =>
      { type := v.type, stringVal := v.stringVal, arrayVal := v.arrayVal,
        objectVal := v.objectVal } }

def ResolverRef.convertTo (rr : ResolverRef) : ResolverRef :=
  { resolver := rr.resolver, params := rr.params.map Param.convertTo }

def ResolverRef.convertFrom (source : ResolverRef) : ResolverRef :=
  { resolver := source.resolver, params := source.params.map Param.convertFrom }

def Ref.convertTo (r : Ref) : Ref :=
  { name := r.name, resolverRef := r.resolverRef.convertTo }

def Ref.convertFrom (source : Ref) : Ref :=
  { name := source.name, resolverRef := source.resolverRef.convertFrom }

def V1Beta1.TaskRef.convertTo (tr : V1Beta1.TaskRef) : V1.TaskRef :=
  { name := tr.name
    kind := tr.kind
    apiVersion := tr.apiVersion
    resolverRef := tr.resolverRef.convertTo }

def V1Beta1.TaskRef.convertFrom (source : V1.TaskRef) : V1Beta1.TaskRef :=
  { name := source.name
    kind := source.kind
    apiVersion := source.apiVersion
    resolverRef := source.resolverRef.convertFrom }

def V1Beta1.PipelineRef.convertTo (pr : V1Beta1.PipelineRef) : V1.PipelineRef :=
  { name := pr.name
    apiVersion := pr.apiVersion
    resolverRef := pr.resolverRef.convertTo }

def V1Beta1.PipelineRef.convertFrom (source : V1.PipelineRef) : V1Beta1.PipelineRef :=
  { name := source.name
    apiVersion := source.apiVersion
    resolverRef := source.resolverRef.convertFrom }

def WhenExpression.convertTo (we : WhenExpression) : WhenExpression :=
  { input := we.input, operator := we.operator, values := we.values, cel := we.cel }

def WhenExpression.convertFrom (source : WhenExpression) : WhenExpression :=
  { input := source.input, operator := source.operator, values := source.values,
    cel := source.cel }

def Matrix.hasParams (m : Matrix) : Bool := !m.params.isEmpty

def Matrix.hasInclude (m : Matrix) : Bool := !m.includes.isEmpty

/-- What `IsMatrixed` says of a task with this matrix. -/
def isMatrixed (m : Option Matrix) : Bool := m.any fun m => m.hasParams || m.hasInclude

def Matrix.convertTo (m : Matrix) : Matrix :=
  { params := m.params.map Param.convertTo
    includes := m.includes.map fun i =>
      { name := i.name, params := i.params.map Param.convertTo } }

def Matrix.convertFrom (source : Matrix) : Matrix :=
  { params := source.params.map Param.convertFrom
    includes := source.includes.map fun i =>
      { name := i.name, params := i.params.map Param.convertFrom } }

def WorkspaceDeclaration.convertTo (w : WorkspaceDeclaration) : WorkspaceDeclaration :=
  { name := w.name, description := w.description, mountPath := w.mountPath,
    readOnly := w.readOnly, optional := w.optional }

def WorkspaceDeclaration.convertFrom (source : WorkspaceDeclaration) : WorkspaceDeclaration :=
  { name := source.name, description := source.description, mountPath := source.mountPath,
    readOnly := source.readOnly, optional := source.optional }

def WorkspaceUsage.convertTo (w : WorkspaceUsage) : WorkspaceUsage :=
  { name := w.name, mountPath := w.mountPath }

def WorkspaceUsage.convertFrom (source : WorkspaceUsage) : WorkspaceUsage :=
  { name := source.name, mountPath := source.mountPath }

def PipelineWorkspaceDeclaration.convertTo (w : PipelineWorkspaceDeclaration) :
    PipelineWorkspaceDeclaration :=
  { name := w.name, description := w.description, optional := w.optional }

def PipelineWorkspaceDeclaration.convertFrom (source : PipelineWorkspaceDeclaration) :
    PipelineWorkspaceDeclaration :=
  { name := source.name, description := source.description, optional := source.optional }

def WorkspacePipelineTaskBinding.convertTo (w : WorkspacePipelineTaskBinding) :
    WorkspacePipelineTaskBinding :=
  { name := w.name, workspace := w.workspace, subPath := w.subPath }

def WorkspacePipelineTaskBinding.convertFrom (source : WorkspacePipelineTaskBinding) :
    WorkspacePipelineTaskBinding :=
  { name := source.name, workspace := source.workspace, subPath := source.subPath }

def WorkspaceBinding.convertTo (w : WorkspaceBinding α) : WorkspaceBinding α :=
  { name := w.name
    subPath := w.subPath
    volumeClaimTemplate := w.volumeClaimTemplate
    persistentVolumeClaim := w.persistentVolumeClaim
    emptyDir := w.emptyDir
    configMap := w.configMap
    secret := w.secret
    projected := w.projected
    csi := w.csi }

def WorkspaceBinding.convertFrom (source : WorkspaceBinding α) : WorkspaceBinding α :=
  { name := source.name
    subPath := source.subPath
    volumeClaimTemplate := source.volumeClaimTemplate
    persistentVolumeClaim := source.persistentVolumeClaim
    emptyDir := source.emptyDir
    configMap := source.configMap
    secret := source.secret
    projected := source.projected
    csi := source.csi }

def TaskResult.convertTo (r : TaskResult) : TaskResult :=
  { name := r.name
    type := r.type
    description := r.description
    properties := r.properties.map fun e => (e.1, e.2.convert)
    value := r.value.map ParamValue.convertTo }

def TaskResult.convertFrom (source : TaskResult) : TaskResult :=
  { name := source.name
    type := source.type
    description := source.description
    properties := source.properties.map fun e => (e.1, e.2.convert)
    value := source.value.map ParamValue.convertFrom }

def PipelineResult.convertTo (pr : PipelineResult) : PipelineResult :=
  { name := pr.name, type := pr.type, description := pr.description,
    value := pr.value.convertTo }

def PipelineResult.convertFrom (source : PipelineResult) : PipelineResult :=
  { name := source.name, type := source.type, description := source.description,
    value := source.value.convertFrom }

def PipelineTaskMetadata.convertTo (ptm : PipelineTaskMetadata) : PipelineTaskMetadata :=
  { labels := ptm.labels, annotations := ptm.annotations }

def PipelineTaskMetadata.convertFrom (source : PipelineTaskMetadata) : PipelineTaskMetadata :=
  { labels := source.labels, annotations := source.labels }

def TimeoutFields.convertTo (tf : TimeoutFields α) : TimeoutFields α :=
  { pipeline := tf.pipeline, tasks := tf.tasks, finallyTasks := tf.finallyTasks }

def TimeoutFields.convertFrom (source : TimeoutFields α) : TimeoutFields α :=
  { pipeline := source.pipeline, tasks := source.tasks, finallyTasks := source.finallyTasks }

def TaskBreakpoints.convertTo (tbp : TaskBreakpoints) : TaskBreakpoints :=
  { onFailure := tbp.onFailure
    beforeSteps := if tbp.beforeSteps.length > 0 then tbp.beforeSteps else [] }

def TaskBreakpoints.convertFrom (source : TaskBreakpoints) : TaskBreakpoints :=
  { onFailure := source.onFailure
    beforeSteps := if source.beforeSteps.length > 0 then source.beforeSteps else [] }

def TaskRunDebug.convertTo (trd : TaskRunDebug) : TaskRunDebug :=
  { breakpoints := trd.breakpoints.map TaskBreakpoints.convertTo }

def TaskRunDebug.convertFrom (source : TaskRunDebug) : TaskRunDebug :=
  { breakpoints := source.breakpoints.map TaskBreakpoints.convertFrom }

/-- A step without its deprecated fields. -/
def V1Beta1.Step.convertTo (s : V1Beta1.Step α) : V1.Step α :=
  { name := s.name
    image := s.image
    command := s.command
    args := s.args
    workingDir := s.workingDir
    envFrom := s.envFrom
    env := s.env
    computeResources := s.resources
    volumeMounts := s.volumeMounts
    volumeDevices := s.volumeDevices
    imagePullPolicy := s.imagePullPolicy
    securityContext := s.securityContext
    script := s.script
    timeout := s.timeout
    workspaces := s.workspaces.map WorkspaceUsage.convertTo
    onError := s.onError
    stdoutConfig := s.stdoutConfig
    stderrConfig := s.stderrConfig
    ref := s.ref.map Ref.convertTo
    params := s.params.map Param.convertTo
    results := s.results
    when := s.when.map WhenExpression.convertTo }

def V1Beta1.Step.convertFrom (source : V1.Step α) : V1Beta1.Step α :=
  { name := source.name
    image := source.image
    command := source.command
    args := source.args
    workingDir := source.workingDir
    envFrom := source.envFrom
    env := source.env
    resources := source.computeResources
    volumeMounts := source.volumeMounts
    volumeDevices := source.volumeDevices
    imagePullPolicy := source.imagePullPolicy
    securityContext := source.securityContext
    script := source.script
    timeout := source.timeout
    workspaces := source.workspaces.map WorkspaceUsage.convertFrom
    onError := source.onError
    stdoutConfig := source.stdoutConfig
    stderrConfig := source.stderrConfig
    ref := source.ref.map Ref.convertFrom
    params := source.params.map Param.convertFrom
    results := source.results
    when := source.when.map WhenExpression.convertFrom }

def V1Beta1.StepTemplate.convertTo (s : V1Beta1.StepTemplate α) : V1.StepTemplate α :=
  { image := s.image
    command := s.command
    args := s.args
    workingDir := s.workingDir
    envFrom := s.envFrom
    env := s.env
    computeResources := s.resources
    volumeMounts := s.volumeMounts
    volumeDevices := s.volumeDevices
    imagePullPolicy := s.imagePullPolicy
    securityContext := s.securityContext }

def V1Beta1.StepTemplate.convertFrom (source : V1.StepTemplate α) : V1Beta1.StepTemplate α :=
  { image := source.image
    command := source.command
    args := source.args
    workingDir := source.workingDir
    envFrom := source.envFrom
    env := source.env
    resources := source.computeResources
    volumeMounts := source.volumeMounts
    volumeDevices := source.volumeDevices
    imagePullPolicy := source.imagePullPolicy
    securityContext := source.securityContext }

/-- The restart policy is not among the fields copied. -/
def Sidecar.convertTo (s : Sidecar α) : Sidecar α :=
  { name := s.name
    image := s.image
    command := s.command
    args := s.args
    workingDir := s.workingDir
    ports := s.ports
    envFrom := s.envFrom
    env := s.env
    computeResources := s.computeResources
    volumeMounts := s.volumeMounts
    volumeDevices := s.volumeDevices
    livenessProbe := s.livenessProbe
    readinessProbe := s.readinessProbe
    startupProbe := s.startupProbe
    lifecycle := s.lifecycle
    terminationMessagePath := s.terminationMessagePath
    terminationMessagePolicy := s.terminationMessagePolicy
    imagePullPolicy := s.imagePullPolicy
    securityContext := s.securityContext
    stdin := s.stdin
    stdinOnce := s.stdinOnce
    tty := s.tty
    script := s.script
    workspaces := s.workspaces.map WorkspaceUsage.convertTo }

def Sidecar.convertFrom (source : Sidecar α) : Sidecar α :=
  { name := source.name
    image := source.image
    command := source.command
    args := source.args
    workingDir := source.workingDir
    ports := source.ports
    envFrom := source.envFrom
    env := source.env
    computeResources := source.computeResources
    volumeMounts := source.volumeMounts
    volumeDevices := source.volumeDevices
    livenessProbe := source.livenessProbe
    readinessProbe := source.readinessProbe
    startupProbe := source.startupProbe
    lifecycle := source.lifecycle
    terminationMessagePath := source.terminationMessagePath
    terminationMessagePolicy := source.terminationMessagePolicy
    imagePullPolicy := source.imagePullPolicy
    securityContext := source.securityContext
    stdin := source.stdin
    stdinOnce := source.stdinOnce
    tty := source.tty
    script := source.script
    workspaces := source.workspaces.map WorkspaceUsage.convertFrom }

def V1Beta1.TaskRunStepOverride.convertTo (trso : V1Beta1.TaskRunStepOverride α) :
    V1.TaskRunStepSpec α :=
  { name := trso.name, computeResources := trso.resources }

def V1Beta1.TaskRunStepOverride.convertFrom (source : V1.TaskRunStepSpec α) :
    V1Beta1.TaskRunStepOverride α :=
  { name := source.name, resources := source.computeResources }

def V1Beta1.TaskRunSidecarOverride.convertTo (trso : V1Beta1.TaskRunSidecarOverride α) :
    V1.TaskRunSidecarSpec α :=
  { name := trso.name, computeResources := trso.resources }

def V1Beta1.TaskRunSidecarOverride.convertFrom (source : V1.TaskRunSidecarSpec α) :
    V1Beta1.TaskRunSidecarOverride α :=
  { name := source.name, resources := source.computeResources }

def V1Beta1.PipelineTaskRunSpec.convertTo (ptrs : V1Beta1.PipelineTaskRunSpec α) :
    V1.PipelineTaskRunSpec α :=
  { pipelineTaskName := ptrs.pipelineTaskName
    serviceAccountName := ptrs.taskServiceAccountName
    podTemplate := ptrs.taskPodTemplate
    stepSpecs := ptrs.stepOverrides.map V1Beta1.TaskRunStepOverride.convertTo
    sidecarSpecs := ptrs.sidecarOverrides.map V1Beta1.TaskRunSidecarOverride.convertTo
    metadata := ptrs.metadata.map PipelineTaskMetadata.convertTo
    computeResources := ptrs.computeResources }

def V1Beta1.PipelineTaskRunSpec.convertFrom (source : V1.PipelineTaskRunSpec α) :
    V1Beta1.PipelineTaskRunSpec α :=
  { pipelineTaskName := source.pipelineTaskName
    taskServiceAccountName := source.serviceAccountName
    taskPodTemplate := source.podTemplate
    stepOverrides := source.stepSpecs.map V1Beta1.TaskRunStepOverride.convertFrom
    sidecarOverrides := source.sidecarSpecs.map V1Beta1.TaskRunSidecarOverride.convertFrom
    metadata := source.metadata.map PipelineTaskMetadata.convertFrom
    computeResources := source.computeResources }

/-! What a trip from v1 to v1beta1 and back leaves as it was. -/

theorem map_eq_self_iff {β : Type} (f : β → β) (l : List β) : l.map f = l ↔ ∀ x ∈ l, f x = x := by
  induction l with
  | nil => simp
  | cons x l ih => simp [ih]

theorem option_map_eq_self_iff {β : Type} (f : β → β) (o : Option β) :
    o.map f = o ↔ ∀ x ∈ o, f x = x := by
  cases o <;> simp

section
variable {β γ : Type} {f : β → γ} {g : γ → β}

theorem map_map_eq_self_iff {P : β → Prop} (h : ∀ x, g (f x) = x ↔ P x) (l : List β) :
    (l.map f).map g = l ↔ ∀ x ∈ l, P x := by
  rw [List.map_map, map_eq_self_iff]
  simp [h]

theorem option_map_map_eq_self_iff {P : β → Prop} (h : ∀ x, g (f x) = x ↔ P x) (o : Option β) :
    (o.map f).map g = o ↔ ∀ x ∈ o, P x := by
  rw [Option.map_map, option_map_eq_self_iff]
  simp [h]

theorem map_map_eq_self (h : ∀ x, g (f x) = x) (l : List β) : (l.map f).map g = l := by
  rw [List.map_map]
  exact (map_eq_self_iff _ l).mpr fun x _ => h x

theorem option_map_map_eq_self (h : ∀ x, g (f x) = x) (o : Option β) : (o.map f).map g = o := by
  cases o <;> simp [h]

end

def ParamValue.Typed (v : ParamValue) : Prop := v.type ≠ ""

theorem ParamValue.convertTo_convertFrom_iff (v : ParamValue) :
    v.convertFrom.convertTo = v ↔ v.Typed := by
  obtain ⟨type, stringVal, arrayVal, objectVal⟩ := v
  by_cases h : type = "" <;> simp [convertFrom, convertTo, Typed, paramTypeString, h]

def Param.Typed (p : Param) : Prop := p.value.Typed

theorem Param.convertTo_convertFrom_iff (p : Param) : p.convertFrom.convertTo = p ↔ p.Typed := by
  obtain ⟨name, value⟩ := p
  simp [convertFrom, convertTo, Typed, ParamValue.convertTo_convertFrom_iff]

theorem map_param_iff (l : List Param) :
    (l.map Param.convertFrom).map Param.convertTo = l ↔ ∀ p ∈ l, p.Typed :=
  map_map_eq_self_iff Param.convertTo_convertFrom_iff l

def ParamSpec.Typed (p : ParamSpec) : Prop := p.type ≠ ""

theorem map_convert_properties (l : List (String × PropertySpec)) :
    l.map (fun e => (e.1, e.2.convert)) = l :=
  (map_eq_self_iff _ l).mpr fun _ _ => rfl

theorem ParamSpec.convertTo_convertFrom_iff (p : ParamSpec) :
    p.convertFrom.convertTo = p ↔ p.Typed := by
  obtain ⟨name, type, description, properties, default, enum⟩ := p
  by_cases h : type = "" <;>
    simp [convertFrom, convertTo, Typed, paramTypeString, h, PropertySpec.convert]

def ResolverRef.Typed (rr : ResolverRef) : Prop := ∀ p ∈ rr.params, p.Typed

theorem ResolverRef.convertTo_convertFrom_iff (rr : ResolverRef) :
    rr.convertFrom.convertTo = rr ↔ rr.Typed := by
  obtain ⟨resolver, params⟩ := rr
  simp only [convertFrom, convertTo, Typed, mk.injEq, true_and, map_param_iff]

theorem Ref.convertTo_convertFrom_iff (r : Ref) :
    r.convertFrom.convertTo = r ↔ r.resolverRef.Typed := by
  obtain ⟨name, resolverRef⟩ := r
  simp [convertFrom, convertTo, ResolverRef.convertTo_convertFrom_iff]

theorem V1Beta1.TaskRef.convertTo_convertFrom_iff (tr : V1.TaskRef) :
    (convertFrom tr).convertTo = tr ↔ tr.resolverRef.Typed := by
  obtain ⟨name, kind, apiVersion, resolverRef⟩ := tr
  simp [convertFrom, convertTo, ResolverRef.convertTo_convertFrom_iff]

theorem V1Beta1.PipelineRef.convertTo_convertFrom_iff (pr : V1.PipelineRef) :
    (convertFrom pr).convertTo = pr ↔ pr.resolverRef.Typed := by
  obtain ⟨name, apiVersion, resolverRef⟩ := pr
  simp [convertFrom, convertTo, ResolverRef.convertTo_convertFrom_iff]

def Matrix.Whole (m : Matrix) : Prop :=
  (m.hasParams || m.hasInclude) = true ∧ (∀ p ∈ m.params, p.Typed) ∧
    ∀ i ∈ m.includes, ∀ p ∈ i.params, p.Typed

theorem Matrix.convertTo_convertFrom_iff (m : Matrix) : m.convertFrom.convertTo = m ↔
      (∀ p ∈ m.params, p.Typed) ∧ ∀ i ∈ m.includes, ∀ p ∈ i.params, p.Typed := by
  obtain ⟨params, includes⟩ := m
  have hinclude : ∀ i : IncludeParams,
      (⟨i.name, (i.params.map Param.convertFrom).map Param.convertTo⟩ : IncludeParams) = i ↔
        ∀ p ∈ i.params, p.Typed := by
    rintro ⟨name, params⟩
    simp only [IncludeParams.mk.injEq, true_and, map_param_iff]
  simp only [convertFrom, convertTo, mk.injEq, map_param_iff]
  rw [map_map_eq_self_iff hinclude]

@[simp] theorem Matrix.hasParams_convertFrom (m : Matrix) :
    m.convertFrom.hasParams = m.hasParams := by
  simp [hasParams, convertFrom]

@[simp] theorem Matrix.hasInclude_convertFrom (m : Matrix) :
    m.convertFrom.hasInclude = m.hasInclude := by
  simp [hasInclude, convertFrom]

theorem TaskResult.convertTo_convertFrom_iff (r : TaskResult) :
    r.convertFrom.convertTo = r ↔ ∀ v ∈ r.value, v.Typed := by
  obtain ⟨name, type, properties, description, value⟩ := r
  simp only [convertFrom, convertTo, mk.injEq, true_and, map_convert_properties]
  exact option_map_map_eq_self_iff ParamValue.convertTo_convertFrom_iff value

theorem PipelineResult.convertTo_convertFrom_iff (r : PipelineResult) :
    r.convertFrom.convertTo = r ↔ r.value.Typed := by
  obtain ⟨name, type, description, value⟩ := r
  simp [convertFrom, convertTo, ParamValue.convertTo_convertFrom_iff]

theorem PipelineTaskMetadata.convertTo_convertFrom_iff (m : PipelineTaskMetadata) :
    m.convertFrom.convertTo = m ↔ m.annotations = m.labels := by
  obtain ⟨labels, annotations⟩ := m
  simp [convertFrom, convertTo, eq_comm]

theorem map_workspaceUsage (l : List WorkspaceUsage) :
    (l.map WorkspaceUsage.convertFrom).map WorkspaceUsage.convertTo = l :=
  map_map_eq_self (fun _ => rfl) l

theorem map_whenExpression (l : List WhenExpression) :
    (l.map WhenExpression.convertFrom).map WhenExpression.convertTo = l :=
  map_map_eq_self (fun _ => rfl) l

theorem map_taskRunStepOverride (l : List (V1.TaskRunStepSpec α)) :
    (l.map V1Beta1.TaskRunStepOverride.convertFrom).map V1Beta1.TaskRunStepOverride.convertTo = l :=
  map_map_eq_self (fun _ => rfl) l

theorem map_taskRunSidecarOverride (l : List (V1.TaskRunSidecarSpec α)) :
    (l.map V1Beta1.TaskRunSidecarOverride.convertFrom).map
      V1Beta1.TaskRunSidecarOverride.convertTo = l :=
  map_map_eq_self (fun _ => rfl) l

def V1.Step.Typed (s : V1.Step α) : Prop :=
  (∀ r ∈ s.ref, r.resolverRef.Typed) ∧ ∀ p ∈ s.params, p.Typed

theorem V1Beta1.Step.convertTo_convertFrom_iff (s : V1.Step α) :
    (convertFrom s).convertTo = s ↔ s.Typed := by
  cases s
  simp only [convertFrom, convertTo, V1.Step.Typed, V1.Step.mk.injEq, true_and, and_true,
    map_workspaceUsage, map_whenExpression, map_param_iff,
    option_map_map_eq_self_iff Ref.convertTo_convertFrom_iff]

theorem V1Beta1.StepTemplate.convertTo_convertFrom (s : V1.StepTemplate α) :
    (convertFrom s).convertTo = s := rfl

theorem Sidecar.convertTo_convertFrom_iff (s : Sidecar α) :
    s.convertFrom.convertTo = s ↔ s.restartPolicy = none := by
  cases s
  simp only [convertFrom, convertTo, mk.injEq, true_and, map_workspaceUsage, eq_comm]

theorem V1Beta1.PipelineTaskRunSpec.convertTo_convertFrom_iff (s : V1.PipelineTaskRunSpec α) :
    (convertFrom s).convertTo = s ↔ ∀ m ∈ s.metadata, m.annotations = m.labels := by
  obtain ⟨pipelineTaskName, serviceAccountName, podTemplate, stepSpecs, sidecarSpecs, metadata,
    computeResources⟩ := s
  simp only [convertFrom, convertTo, V1.PipelineTaskRunSpec.mk.injEq,
    map_taskRunStepOverride, map_taskRunSidecarOverride, true_and, and_true]
  exact option_map_map_eq_self_iff PipelineTaskMetadata.convertTo_convertFrom_iff metadata

end TektonPipeline.Conversion
