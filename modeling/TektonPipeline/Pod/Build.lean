import TektonPipeline.Pod.Status

/-! The pod that `Builder.Build` makes of a task: the names of its containers, their volume
mounts and the volumes, and the checks of `TaskSpec.Validate` on these. The steps are those after
the merge with the step template, which `Validate` and `Build` both begin with and which puts them
in the place of the steps of the task. The transformers of a pod change compute resources and
affinity, which are not part of it. -/

namespace TektonPipeline.PodBuild
open Tasks (VolumeMount Container Step Sidecar TaskSpec)
open PodStatus (getContainerName stepName artifactPathReferencedInStep)
open TaskRunReconciler (quoted)

structure FieldError where
  message : String
  path : String
  details : String := ""
  deriving DecidableEq

def FieldError.viaField (e : FieldError) (field : String) : FieldError :=
  { e with path := field ++ (if e.path.toList.head? = some '[' then "" else ".") ++ e.path }

def FieldError.viaIndex (e : FieldError) (i : Nat) : FieldError :=
  { e with path := "[" ++ toString i ++ "]." ++ e.path }

def isLowerAlphaNumeric (c : Char) : Bool := ('a' ≤ c && c ≤ 'z') || ('0' ≤ c && c ≤ '9')

/-- At most 63 characters, `[a-z0-9]([-a-z0-9]*[a-z0-9])?`. -/
def isDNS1123Label (s : String) : Bool :=
  s.length ≤ 63 && s.toList.all (fun c => isLowerAlphaNumeric c || c == '-') &&
    s.toList.head?.any isLowerAlphaNumeric && s.toList.getLast?.any isLowerAlphaNumeric

def tektonInternal : String := "tekton-internal-"

def hasPrefix (s p : String) : Bool := p.toList.isPrefixOf s.toList

def validateVolumeMount (vm : VolumeMount) : List FieldError :=
  (if hasPrefix vm.mountPath "/tekton/" && !hasPrefix vm.mountPath "/tekton/home" then
    [⟨"volumeMount cannot be mounted under /tekton/ (volumeMount " ++ quoted vm.name ++
      " mounted at " ++ quoted vm.mountPath ++ ")", "mountPath", ""⟩]
  else []) ++
  if hasPrefix vm.name tektonInternal then
    [⟨"volumeMount name " ++ quoted vm.name ++ " cannot start with \"tekton-internal-\"", "name",
      ""⟩]
  else []

/-- `names` are the names of the steps before. -/
def validateStepName (names : List String) (name : String) : List FieldError :=
  if name = "" then []
  else
    (if name ∈ names then [⟨"invalid value: " ++ name, "name", ""⟩] else []) ++
    if isDNS1123Label name then []
    else
      [⟨"invalid value " ++ quoted name, "name", "Task step name must be a valid DNS Label, For " ++
        "more info refer to https://kubernetes.io/docs/concepts/overview/working-with-objects/" ++
        "names/#names"⟩]

/-- What a step that refers to a StepAction may not have. -/
def validateStepRef (s : Step) : List FieldError :=
  let refuse (used : Bool) (what path : String) : List FieldError :=
    if used then [⟨what ++ " cannot be used with Ref", path, ""⟩] else []
  refuse (s.image ≠ "") "image" "image" ++
  refuse (s.command ≠ []) "command" "command" ++
  refuse (s.args ≠ []) "args" "args" ++
  refuse (s.script ≠ "") "script" "script" ++
  refuse (s.workingDir ≠ "") "working dir" "workingDir" ++
  refuse (s.env ≠ []) "env" "env" ++
  refuse (s.volumeMounts ≠ []) "volumeMounts" "volumeMounts" ++
  refuse (s.results ≠ []) "results" "results"

def validateStepImage (s : Step) : List FieldError :=
  (if s.image = "" then [⟨"missing field(s)", "Image", ""⟩] else []) ++
  if s.script ≠ "" ∧ s.command ≠ [] then
    [⟨"script cannot be used with command", "script", ""⟩] else []

def validateStep (names : List String) (s : Step) : List FieldError :=
  (if s.ref.isSome then validateStepRef s else validateStepImage s) ++
  validateStepName names s.name ++
  (s.volumeMounts.mapIdx fun j vm =>
    (validateVolumeMount vm).map fun e => e.viaIndex j |>.viaField "volumeMounts").flatten

def validateStepsFrom : Nat → List String → List Step → List FieldError
  | _, _, [] => []
  | i, names, s :: steps =>
    (validateStep names s).map (·.viaIndex i) ++
      validateStepsFrom (i + 1) (if s.name = "" then names else names ++ [s.name]) steps

def reservedResultsSidecarName : String := "tekton-log-results"

def validateSidecar (sc : Sidecar) : List FieldError :=
  (if sc.name = reservedResultsSidecarName then
    [⟨"Invalid: cannot use reserved sidecar name " ++ sc.name ++ " ", "name", ""⟩] else []) ++
  (if sc.image = "" then [⟨"missing field(s)", "image", ""⟩] else []) ++
  if sc.script ≠ "" ∧ sc.command ≠ [] then
    [⟨"script cannot be used with command", "script", ""⟩] else []

def validateVolumesFrom : Nat → List String → List String → List FieldError
  | _, _, [] => []
  | i, vols, v :: volumes =>
    if v ∈ vols then
      (FieldError.viaIndex ⟨"multiple volumes with same name " ++ quoted v, "name", ""⟩ i) ::
        validateVolumesFrom (i + 1) vols volumes
    else validateVolumesFrom (i + 1) (v :: vols) volumes

def validateVolumes (volumes : List String) : List FieldError := validateVolumesFrom 0 [] volumes

/-- The part of `TaskSpec.Validate` that looks at steps, sidecars and volumes. -/
def validate (ts : TaskSpec) : List FieldError :=
  (if ts.steps = [] then [⟨"missing field(s)", "steps", ""⟩] else []) ++
  (validateVolumes (ts.volumes.map (·.name))).map (·.viaField "volumes") ++
  (validateStepsFrom 0 [] ts.steps).map (·.viaField "steps") ++
  (ts.sidecars.flatMap validateSidecar).map (·.viaField "sidecars")

def isAlphaNumeric (c : Char) : Bool := isLowerAlphaNumeric c || ('A' ≤ c && c ≤ 'Z')

def maxNameLength : Nat := 63

/-- Characters behind the limit are cut, and then those at the end that are no letter or
digit. -/
def restrictLength (base : String) : String :=
  String.ofList (((base.toList.take maxNameLength).reverse.dropWhile (!isAlphaNumeric ·)).reverse)

structure Pod where
  initContainers : List Container
  containers : List Container
  volumes : List String
  deriving DecidableEq

structure Credential where
  secret : String
  suffix : String
  deriving DecidableEq

/-- The flags that a pod depends on, what is read from the cluster and what the TaskRun asks
for. `clean` is `filepath.Clean`. -/
structure BuildContext where
  alphaAPIEnabled : Bool := false
  sidecarLogsResultsEnabled : Bool := false
  enableKeepPodOnCancel : Bool := false
  awaitSidecarReadiness : Bool := true
  runningInEnvWithInjectedSidecars : Bool := true
  disableCredsInit : Bool := false
  spireEnabled : Bool := false
  nativeSidecars : Bool := false
  needsDebug : Bool := false
  credentials : Except String (List Credential) := .ok []
  podTemplateVolumes : List String := []
  clean : String → String

def binMount : VolumeMount := { name := "tekton-internal-bin", mountPath := "/tekton/bin" }

def binROMount : VolumeMount := { binMount with readOnly := true }

def internalStepsMount : VolumeMount :=
  { name := "tekton-internal-steps", mountPath := "/tekton/steps" }

def downwardMount : VolumeMount :=
  { name := "tekton-internal-downward", mountPath := "/tekton/downward", readOnly := true }

def writeScriptsVolumeMount : VolumeMount :=
  { name := "tekton-internal-scripts", mountPath := "/tekton/scripts" }

def scriptsVolumeMount : VolumeMount := { writeScriptsVolumeMount with readOnly := true }

def debugScriptsVolumeMount : VolumeMount :=
  { name := "tekton-internal-debug-scripts", mountPath := "/tekton/debug/scripts" }

def debugInfoVolumeMount (i : Nat) : VolumeMount :=
  { name := "tekton-internal-debug-info", mountPath := "/tekton/debug/info/" ++ toString i }

def spireMount : VolumeMount :=
  { name := "spiffe-workload-api", mountPath := "/spiffe-workload-api", readOnly := true }

def credsInitVolumeMount (i : Nat) : VolumeMount :=
  { name := "tekton-creds-init-home-" ++ toString i, mountPath := "/tekton/creds" }

/-- `[^a-zA-Z0-9-]+` becomes `-`. -/
def sanitizedName (secret : String) : List Char :=
  Text.rewriteAll (Text.many 1 fun c => !(isAlphaNumeric c || c == '-')) (fun _ => ['-'])
    secret.toList

/-- `RestrictLengthWithRandomSuffix` of the secret's name behind a fixed start. -/
def Credential.volumeMount (c : Credential) : VolumeMount where
  name :=
    String.ofList (("tekton-internal-secret-volume-".toList ++ sanitizedName c.secret).take 57)
    ++ "-" ++ c.suffix
  mountPath := "/tekton/creds-secrets/" ++ c.secret

def runVolumeName (i : Nat) : String := "tekton-internal-run-" ++ toString i

def runMount (i : Nat) (ro : Bool) : VolumeMount :=
  { name := runVolumeName i, mountPath := "/tekton/run/" ++ toString i, readOnly := ro }

def implicitVolumeMounts : List VolumeMount :=
  [{ name := "tekton-internal-workspace", mountPath := "/workspace" },
    { name := "tekton-internal-home", mountPath := "/tekton/home" },
    { name := "tekton-internal-results", mountPath := "/tekton/results" },
    { name := "tekton-internal-steps", mountPath := "/tekton/steps", readOnly := true },
    { name := "tekton-internal-artifacts", mountPath := "/tekton/artifacts" }]

/-- The mounts that every step gets, unless it has one of its own at that path. -/
def implicitMounts (creds : List Credential) : List VolumeMount :=
  binROMount :: implicitVolumeMounts ++ creds.map Credential.volumeMount

def BuildContext.addImplicit (b : BuildContext) (creds : List Credential)
    (mounts : List VolumeMount) : List VolumeMount :=
  mounts ++ (implicitMounts creds).filter fun imp =>
    !(mounts.any fun vm => b.clean vm.mountPath == b.clean imp.mountPath)

def readsSidecarLogs (b : BuildContext) (ts : TaskSpec) : Bool :=
  b.sidecarLogsResultsEnabled &&
    (ts.results.isSome || ts.steps.any artifactPathReferencedInStep)

/-- The names that the results sidecar is told to look for: the results of the task, the steps
that leave artifacts, and the results of each step. -/
structure SidecarArguments where
  resultNames : List String
  artifactProducerSteps : List String
  stepResults : List (String × List String)
  deriving DecidableEq

def sidecarArguments (ts : TaskSpec) : SidecarArguments where
  resultNames := (ts.results.getD []).map (·.name)
  artifactProducerSteps :=
    (ts.steps.filter artifactPathReferencedInStep).map fun s =>
      getContainerName s.name
  stepResults :=
    Assoc.ofWrites ((ts.steps.zipIdx.filter fun e => e.1.results ≠ []).map fun e =>
      (stepName e.1.name e.2, e.1.results.map (·.name)))

/-- The command line without the results of the steps, which are encoded in JSON. -/
def createResultsSidecar (ts : TaskSpec) : Sidecar where
  name := reservedResultsSidecarName
  command :=
    let a := sidecarArguments ts
    ["/ko-app/sidecarlogresults", "-results-dir", "/tekton/results", "-result-names",
      ",".intercalate a.resultNames, "-step-names", ",".intercalate a.artifactProducerSteps]

def allSidecars (b : BuildContext) (ts : TaskSpec) : List Sidecar :=
  if readsSidecarLogs b ts then ts.sidecars ++ [createResultsSidecar ts] else ts.sidecars

def entrypointInitContainer (ts : TaskSpec) : Container where
  name := "prepare"
  command := ["/ko-app/entrypoint", "init", "/ko-app/entrypoint", "/tekton/bin/entrypoint"] ++
    ts.steps.mapIdx fun i s => stepName s.name i
  volumeMounts := [binMount, internalStepsMount]

def BuildContext.debugs (b : BuildContext) : Bool := b.alphaAPIEnabled && b.needsDebug

/-- The init container that places scripts, where there are any. -/
def placeScriptsInit (b : BuildContext) (ts : TaskSpec) : Option Container :=
  if (ts.steps.any fun s => s.script ≠ "") ||
      ((allSidecars b ts).any fun s => s.script ≠ "") || b.debugs then
    some
      { name := "place-scripts"
        volumeMounts := [writeScriptsVolumeMount, binMount] ++
          if b.debugs then [debugScriptsVolumeMount] else [] }
  else none

/-- Working directories that are relative or under the workspace are made first. -/
def workingDirInit (b : BuildContext) (ts : TaskSpec) : Option Container :=
  let dirs := (ts.steps.map (·.workingDir)).filter (· ≠ "") |>.map b.clean
  if dirs.any fun p => !hasPrefix p "/" || hasPrefix p "/workspace/" then
    some
      { name := "working-dir-initializer"
        command := ["/ko-app/workingdirinit"]
        volumeMounts := implicitVolumeMounts }
  else none

def isPodReadyImmediately (b : BuildContext) (sidecars : List Sidecar) : Bool :=
  !((sidecars ≠ [] || b.runningInEnvWithInjectedSidecars) && b.awaitSidecarReadiness)

/-- What step `i` mounts of its own accord, for its script, for debugging and for what the
entrypoint waits for. -/
def stepMounts (b : BuildContext) (ts : TaskSpec) (i : Nat) (s : Step) : List VolumeMount :=
  s.volumeMounts ++
    (if s.script ≠ "" then [scriptsVolumeMount] else []) ++
    (if b.debugs then [debugScriptsVolumeMount, debugInfoVolumeMount i] else []) ++
    (if (i = 0 && !isPodReadyImmediately b (allSidecars b ts)) || b.enableKeepPodOnCancel then
      [downwardMount] else []) ++
    if b.disableCredsInit then [] else [credsInitVolumeMount i]

/-- Each step mounts its own run directory, and those of the others read-only. -/
def runMounts (n i : Nat) : List VolumeMount := (List.range n).map fun j => runMount j (i ≠ j)

def stepContainer (b : BuildContext) (creds : List Credential) (ts : TaskSpec) (i : Nat)
    (s : Step) : Container where
  name := restrictLength (stepName s.name i)
  command := ["/tekton/bin/entrypoint"]
  volumeMounts := b.addImplicit creds (stepMounts b ts i s ++ runMounts ts.steps.length i) ++
    if b.spireEnabled then [spireMount] else []

def sidecarMounts (b : BuildContext) (creds : List Credential) (ts : TaskSpec) (s : Sidecar) :
    List VolumeMount :=
  let mounts := s.volumeMounts ++ if s.script ≠ "" then [scriptsVolumeMount] else []
  if readsSidecarLogs b ts && s.name == reservedResultsSidecarName then
    b.addImplicit creds (mounts ++ (List.range ts.steps.length).map fun j => runMount j true)
  else mounts

def sidecarContainer (b : BuildContext) (creds : List Credential) (ts : TaskSpec) (s : Sidecar) :
    Container where
  name := restrictLength ("sidecar-" ++ s.name)
  command := s.command
  volumeMounts := sidecarMounts b creds ts s

def podVolumes (b : BuildContext) (creds : List Credential) (ts : TaskSpec) : List String :=
  implicitVolumeMounts.map (·.name) ++
    (creds.map fun c => c.volumeMount.name) ++
    (if (placeScriptsInit b ts).isSome then [scriptsVolumeMount.name] else []) ++
    (if b.debugs then [debugScriptsVolumeMount.name, (debugInfoVolumeMount 0).name] else []) ++
    [binMount.name] ++
    (if !isPodReadyImmediately b (allSidecars b ts) || b.enableKeepPodOnCancel then
      [downwardMount.name] else []) ++
    ((List.range ts.steps.length).flatMap fun i =>
      (if b.disableCredsInit then [] else [(credsInitVolumeMount i).name]) ++ [runVolumeName i]) ++
    ts.volumes.map (·.name) ++ b.podTemplateVolumes

def ownInitContainers (b : BuildContext) (ts : TaskSpec) : List Container :=
  (entrypointInitContainer ts :: (placeScriptsInit b ts).toList ++ (workingDirInit b ts).toList).map
    fun c =>
      { c with volumeMounts := c.volumeMounts ++ if b.spireEnabled then [spireMount] else [] }

inductive BuildError where
  | credentials (message : String)
  | noSteps
  | volumes (errs : List FieldError)
  deriving DecidableEq

def build (b : BuildContext) (ts : TaskSpec) : Except BuildError Pod :=
  match if b.disableCredsInit then .ok [] else b.credentials with
  | .error message => .error (.credentials message)
  | .ok creds =>
    if ts.steps = [] then .error .noSteps
    else
      let volumes := podVolumes b creds ts
      if validateVolumes volumes ≠ [] then .error (.volumes (validateVolumes volumes))
      else
        let steps := ts.steps.mapIdx (stepContainer b creds ts)
        let sidecars := (allSidecars b ts).map (sidecarContainer b creds ts)
        .ok
          { initContainers := ownInitContainers b ts ++ if b.nativeSidecars then sidecars else []
            containers := steps ++ if b.nativeSidecars then [] else sidecars
            volumes := volumes ++ if b.spireEnabled then [spireMount.name] else [] }

end TektonPipeline.PodBuild
