import TektonPipeline.Api.ParamSpecs
import TektonPipeline.Api.Sites

/-! A task, and `ApplyReplacements` of it: every field that is substituted, and the sites of
each. -/

namespace TektonPipeline.Tasks
open Api List

/-- `LocalObjectReference` and a key -/
structure KeySelector where
  name : String
  key : String
  deriving DecidableEq

structure EnvVar where
  name : String
  value : String := ""
  secretKeyRef : Option KeySelector := none
  configMapKeyRef : Option KeySelector := none
  deriving DecidableEq

structure EnvFromSource where
  envPrefix : String := ""
  configMapRef : Option String := none
  secretRef : Option String := none
  deriving DecidableEq

structure VolumeMount where
  name : String
  mountPath : String := ""
  subPath : String := ""
  readOnly : Bool := false
  deriving DecidableEq

structure Container where
  name : String := ""
  image : String := ""
  imagePullPolicy : String := ""
  args : List String := []
  env : List EnvVar := []
  envFrom : List EnvFromSource := []
  workingDir : String := ""
  command : List String := []
  volumeMounts : List VolumeMount := []
  deriving DecidableEq

/-- `unset` is the empty text. -/
inductive ResultsType where
  | unset
  | string
  | array
  | object
  deriving DecidableEq

def ResultsType.ofParamType : ParamType → ResultsType
  | .string => .string
  | .array => .array
  | .object => .object

structure TaskResult where
  name : String
  type : ResultsType := .unset
  value : Option ParamValue := none
  deriving DecidableEq

structure StepResult where
  name : String
  type : ResultsType := .unset
  deriving DecidableEq

structure WorkspaceUsage where
  name : String
  mountPath : String := ""
  deriving DecidableEq

/-- `onError` is read before it is known to be one of the three settings. `ref` is the name of a
StepAction that the step refers to. -/
structure Step extends Container where
  params : Params := []
  script : String := ""
  onError : String := ""
  stdoutPath : Option String := none
  stderrPath : Option String := none
  when : WhenExpressions := []
  ref : Option String := none
  results : List StepResult := []
  workspaces : List WorkspaceUsage := []
  deriving DecidableEq

structure Sidecar extends Container where
  script : String := ""
  workspaces : List WorkspaceUsage := []
  deriving DecidableEq

structure KeyToPath where
  key : String
  path : String
  deriving DecidableEq

structure KeyedVolumeSource where
  name : String
  items : List KeyToPath := []
  deriving DecidableEq

structure VolumeProjection where
  configMap : Option String := none
  secret : Option String := none
  audience : Option String := none
  deriving DecidableEq

structure CSIVolumeSource where
  nodePublishSecretRef : Option String := none
  volumeAttributes : List (String × String) := []
  deriving DecidableEq

structure Volume where
  name : String
  configMap : Option KeyedVolumeSource := none
  secret : Option KeyedVolumeSource := none
  claimName : Option String := none
  projected : List VolumeProjection := []
  csi : Option CSIVolumeSource := none
  deriving DecidableEq

structure WorkspaceDeclaration where
  name : String
  mountPath : String := ""
  optional : Bool := false
  deriving DecidableEq

/-- A step template has no name. Results that are not declared are a nil slice. -/
structure TaskSpec where
  steps : List Step := []
  stepTemplate : Option Container := none
  volumes : List Volume := []
  workspaces : List WorkspaceDeclaration := []
  sidecars : List Sidecar := []
  params : List ParamSpec := []
  results : Option (List TaskResult) := none
  deriving DecidableEq

section
variable (r : Replacements)

def KeySelector.applyReplacements (k : KeySelector) : KeySelector where
  name := Api.applyReplacements k.name r.strings
  key := Api.applyReplacements k.key r.strings

def EnvVar.applyReplacements (e : EnvVar) : EnvVar where
  name := e.name
  value := Api.applyReplacements e.value r.strings
  secretKeyRef := e.secretKeyRef.map (KeySelector.applyReplacements r)
  configMapKeyRef := e.configMapKeyRef.map (KeySelector.applyReplacements r)

def EnvFromSource.applyReplacements (e : EnvFromSource) : EnvFromSource where
  envPrefix := Api.applyReplacements e.envPrefix r.strings
  configMapRef := e.configMapRef.map fun s => Api.applyReplacements s r.strings
  secretRef := e.secretRef.map fun s => Api.applyReplacements s r.strings

def VolumeMount.applyReplacements (v : VolumeMount) : VolumeMount where
  name := Api.applyReplacements v.name r.strings
  mountPath := Api.applyReplacements v.mountPath r.strings
  subPath := Api.applyReplacements v.subPath r.strings
  readOnly := v.readOnly

def applyContainerReplacements (c : Container) : Container where
  name := Api.applyReplacements c.name r.strings
  image := Api.applyReplacements c.image r.strings
  imagePullPolicy := Api.applyReplacements c.imagePullPolicy r.strings
  args := c.args.flatMap fun a => applyArrayReplacements a r.strings r.arrays
  env := c.env.map (EnvVar.applyReplacements r)
  envFrom := c.envFrom.map (EnvFromSource.applyReplacements r)
  workingDir := Api.applyReplacements c.workingDir r.strings
  command := c.command.flatMap fun a => applyArrayReplacements a r.strings r.arrays
  volumeMounts := c.volumeMounts.map (VolumeMount.applyReplacements r)

/-- The parameters of the step are left as they are. -/
def applyStepReplacements (s : Step) : Step :=
  { s with
    toContainer := applyContainerReplacements r s.toContainer
    script := Api.applyReplacements s.script r.strings
    onError := Api.applyReplacements s.onError r.strings
    stdoutPath := s.stdoutPath.map fun p => Api.applyReplacements p r.strings
    stderrPath := s.stderrPath.map fun p => Api.applyReplacements p r.strings
    when := s.when.replaceVariables r }

def Step.applyReplacements (s : Step) : Step :=
  { applyStepReplacements r s with params := s.params.replaceVariables r }

def applySidecarReplacements (s : Sidecar) : Sidecar :=
  { s with
    toContainer := applyContainerReplacements r s.toContainer
    script := Api.applyReplacements s.script r.strings }

def KeyToPath.applyReplacements (k : KeyToPath) : KeyToPath where
  key := Api.applyReplacements k.key r.strings
  path := Api.applyReplacements k.path r.strings

def KeyedVolumeSource.applyReplacements (v : KeyedVolumeSource) : KeyedVolumeSource where
  name := Api.applyReplacements v.name r.strings
  items := v.items.map (KeyToPath.applyReplacements r)

def VolumeProjection.applyReplacements (v : VolumeProjection) : VolumeProjection where
  configMap := v.configMap.map fun s => Api.applyReplacements s r.strings
  secret := v.secret.map fun s => Api.applyReplacements s r.strings
  audience := v.audience.map fun s => Api.applyReplacements s r.strings

def CSIVolumeSource.applyReplacements (v : CSIVolumeSource) : CSIVolumeSource where
  nodePublishSecretRef := v.nodePublishSecretRef.map fun s => Api.applyReplacements s r.strings
  volumeAttributes := v.volumeAttributes.map fun e => (e.1, Api.applyReplacements e.2 r.strings)

def Volume.applyReplacements (v : Volume) : Volume where
  name := Api.applyReplacements v.name r.strings
  configMap := v.configMap.map (KeyedVolumeSource.applyReplacements r)
  secret := v.secret.map (KeyedVolumeSource.applyReplacements r)
  claimName := v.claimName.map fun s => Api.applyReplacements s r.strings
  projected := v.projected.map (VolumeProjection.applyReplacements r)
  csi := v.csi.map (CSIVolumeSource.applyReplacements r)

def WorkspaceDeclaration.applyReplacements (w : WorkspaceDeclaration) : WorkspaceDeclaration :=
  { w with mountPath := Api.applyReplacements w.mountPath r.strings }

def TaskSpec.applyReplacements (ts : TaskSpec) : TaskSpec :=
  { ts with
    steps := ts.steps.map (Step.applyReplacements r)
    stepTemplate := ts.stepTemplate.map (applyContainerReplacements r)
    volumes := ts.volumes.map (Volume.applyReplacements r)
    workspaces := ts.workspaces.map (WorkspaceDeclaration.applyReplacements r)
    sidecars := ts.sidecars.map (applySidecarReplacements r) }

end

section
variable (A : List (String × List String)) (O : List (String × List (String × String)))

def KeySelector.sites (k : KeySelector) : List Site := [.text k.name, .text k.key]

def EnvVar.sites (e : EnvVar) : List Site :=
  .text e.value :: (e.secretKeyRef.toList.flatMap KeySelector.sites ++
    e.configMapKeyRef.toList.flatMap KeySelector.sites)

def EnvFromSource.sites (e : EnvFromSource) : List Site :=
  .text e.envPrefix :: (e.configMapRef.toList ++ e.secretRef.toList).map .text

def VolumeMount.sites (v : VolumeMount) : List Site :=
  [.text v.name, .text v.mountPath, .text v.subPath]

def Container.sites (c : Container) : List Site :=
  [.text c.name, .text c.image, .text c.imagePullPolicy] ++ c.args.flatMap (itemSites A) ++
    c.env.flatMap EnvVar.sites ++ c.envFrom.flatMap EnvFromSource.sites ++
    .text c.workingDir :: c.command.flatMap (itemSites A) ++
    c.volumeMounts.flatMap VolumeMount.sites

def Step.sites (s : Step) : List Site :=
  s.toContainer.sites A ++ s.params.sites A O ++ [.text s.script, .text s.onError] ++
    (s.stdoutPath.toList ++ s.stderrPath.toList).map .text ++ s.when.sites A

def Sidecar.sites (s : Sidecar) : List Site := s.toContainer.sites A ++ [.text s.script]

def KeyToPath.sites (k : KeyToPath) : List Site := [.text k.key, .text k.path]

def KeyedVolumeSource.sites (v : KeyedVolumeSource) : List Site :=
  .text v.name :: v.items.flatMap KeyToPath.sites

def VolumeProjection.sites (v : VolumeProjection) : List Site :=
  (v.configMap.toList ++ v.secret.toList ++ v.audience.toList).map .text

def CSIVolumeSource.sites (v : CSIVolumeSource) : List Site :=
  v.nodePublishSecretRef.toList.map .text ++ v.volumeAttributes.map fun e => .text e.2

def Volume.sites (v : Volume) : List Site :=
  .text v.name :: ((v.configMap.toList ++ v.secret.toList).flatMap KeyedVolumeSource.sites ++
    v.claimName.toList.map .text ++ v.projected.flatMap VolumeProjection.sites ++
    v.csi.toList.flatMap CSIVolumeSource.sites)

def WorkspaceDeclaration.sites (w : WorkspaceDeclaration) : List Site := [.text w.mountPath]

def TaskSpec.sites (ts : TaskSpec) : List Site :=
  ts.steps.flatMap (Step.sites A O) ++ ts.stepTemplate.toList.flatMap (Container.sites A) ++
    ts.volumes.flatMap Volume.sites ++ ts.workspaces.flatMap WorkspaceDeclaration.sites ++
    ts.sidecars.flatMap (Sidecar.sites A)

end

section
variable {S S' : List (String × String)} {A : List (String × List String)}
  {O : List (String × List (String × String))}

@[simp] theorem map_eq_map_iff {α β : Type} {o : Option α} {f g : α → β} :
    o.map f = o.map g ↔ ∀ a ∈ o.toList, f a = g a := by
  cases o <;> simp

@[simp] theorem KeySelector.applyReplacements_eq_iff (k : KeySelector) :
    k.applyReplacements ⟨S, A, O⟩ = k.applyReplacements ⟨S', A, O⟩ ↔ Agree S S' k.sites := by
  simp [applyReplacements, sites, Site.apply]

@[simp] theorem EnvVar.applyReplacements_eq_iff (e : EnvVar) :
    e.applyReplacements ⟨S, A, O⟩ = e.applyReplacements ⟨S', A, O⟩ ↔ Agree S S' e.sites := by
  simp [applyReplacements, sites, Site.apply]

@[simp] theorem EnvFromSource.applyReplacements_eq_iff (e : EnvFromSource) :
    e.applyReplacements ⟨S, A, O⟩ = e.applyReplacements ⟨S', A, O⟩ ↔ Agree S S' e.sites := by
  simp [applyReplacements, sites, Site.apply]

@[simp] theorem VolumeMount.applyReplacements_eq_iff (v : VolumeMount) :
    v.applyReplacements ⟨S, A, O⟩ = v.applyReplacements ⟨S', A, O⟩ ↔ Agree S S' v.sites := by
  simp [applyReplacements, sites, Site.apply]

@[simp] theorem applyContainerReplacements_eq_iff (c : Container) :
    applyContainerReplacements ⟨S, A, O⟩ c = applyContainerReplacements ⟨S', A, O⟩ c ↔
      Agree S S' (c.sites A) := by
  simp [applyContainerReplacements, Container.sites, Site.apply]

@[simp] theorem Step.applyReplacements_eq_iff (s : Step) :
    s.applyReplacements ⟨S, A, O⟩ = s.applyReplacements ⟨S', A, O⟩ ↔ Agree S S' (s.sites A O) := by
  simp [applyReplacements, applyStepReplacements, sites, Site.apply]

@[simp] theorem applySidecarReplacements_eq_iff (s : Sidecar) :
    applySidecarReplacements ⟨S, A, O⟩ s = applySidecarReplacements ⟨S', A, O⟩ s ↔
      Agree S S' (s.sites A) := by
  simp [applySidecarReplacements, Sidecar.sites, Site.apply]

@[simp] theorem KeyToPath.applyReplacements_eq_iff (k : KeyToPath) :
    k.applyReplacements ⟨S, A, O⟩ = k.applyReplacements ⟨S', A, O⟩ ↔ Agree S S' k.sites := by
  simp [applyReplacements, sites, Site.apply]

@[simp] theorem KeyedVolumeSource.applyReplacements_eq_iff (v : KeyedVolumeSource) :
    v.applyReplacements ⟨S, A, O⟩ = v.applyReplacements ⟨S', A, O⟩ ↔ Agree S S' v.sites := by
  simp [applyReplacements, sites, Site.apply]

@[simp] theorem VolumeProjection.applyReplacements_eq_iff (v : VolumeProjection) :
    v.applyReplacements ⟨S, A, O⟩ = v.applyReplacements ⟨S', A, O⟩ ↔ Agree S S' v.sites := by
  simp [applyReplacements, sites, Site.apply]

@[simp] theorem CSIVolumeSource.applyReplacements_eq_iff (v : CSIVolumeSource) :
    v.applyReplacements ⟨S, A, O⟩ = v.applyReplacements ⟨S', A, O⟩ ↔ Agree S S' v.sites := by
  simp [applyReplacements, sites, Site.apply]

@[simp] theorem Volume.applyReplacements_eq_iff (v : Volume) :
    v.applyReplacements ⟨S, A, O⟩ = v.applyReplacements ⟨S', A, O⟩ ↔ Agree S S' v.sites := by
  simp [applyReplacements, sites, Site.apply]

@[simp] theorem WorkspaceDeclaration.applyReplacements_eq_iff (w : WorkspaceDeclaration) :
    w.applyReplacements ⟨S, A, O⟩ = w.applyReplacements ⟨S', A, O⟩ ↔ Agree S S' w.sites := by
  simp [applyReplacements, sites, Site.apply]

theorem TaskSpec.applyReplacements_eq_iff (ts : TaskSpec) :
    ts.applyReplacements ⟨S, A, O⟩ = ts.applyReplacements ⟨S', A, O⟩ ↔
      Agree S S' (ts.sites A O) := by
  simp [applyReplacements, sites]

end

end TektonPipeline.Tasks
