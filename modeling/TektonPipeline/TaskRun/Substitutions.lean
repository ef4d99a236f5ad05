import TektonPipeline.TaskRun.Status
import TektonPipeline.TaskRun.StepActions

/-! `applyParamsContextsResultsAndWorkspaces`: the substitutions that every reconcile of a
TaskRun makes in the task it is given. -/

namespace TektonPipeline.TaskRunReconciler
open Api List
open Tasks (TaskSpec Step Sidecar WorkspaceUsage WorkspaceDeclaration applyStepReplacements
  applySidecarReplacements)
open PodStatus (stepName)

def applyToSteps (ts : TaskSpec) (r : Step → Nat → List (String × String)) : TaskSpec :=
  { ts with
    steps := ts.steps.zipIdx.map fun e => applyStepReplacements { strings := r e.1 e.2 } e.1 }

def applyParameters (ts : TaskSpec) (params : Params) : TaskSpec :=
  ts.applyReplacements (StepActions.getTaskParameters ts.params params)

/-- What a substitution depends on besides the TaskRun's spec: the attempt, the name of the
task, and whether there is no pod yet. -/
structure Attempt where
  retryCount : Nat
  taskName : String
  podMissing : Bool
  deriving DecidableEq

def getContextReplacements (tr : TaskRun) (a : Attempt) : List (String × String) :=
  [("context.taskRun.name", tr.name), ("context.task.name", a.taskName),
    ("context.taskRun.namespace", tr.ns), ("context.taskRun.uid", tr.uid),
    ("context.task.retry-count", toString a.retryCount)]

def applyContexts (ts : TaskSpec) (tr : TaskRun) (a : Attempt) : TaskSpec :=
  ts.applyReplacements { strings := getContextReplacements tr a }

def pathPatterns (kind name : String) : List String :=
  [kind ++ "." ++ name ++ ".path", kind ++ "[\"" ++ name ++ "\"].path",
    kind ++ "['" ++ name ++ "'].path"]

def getStepResultReplacements (s : Step) (i : Nat) : List (String × String) :=
  s.results.flatMap fun result => (pathPatterns "step.results" result.name).map fun pattern =>
    (pattern, "/tekton/steps/" ++ stepName s.name i ++ "/results/" ++ result.name)

def getTaskResultReplacements (ts : TaskSpec) : List (String × String) :=
  (ts.results.getD []).flatMap fun result => (pathPatterns "results" result.name).map
    fun pattern => (pattern, "/tekton/results/" ++ result.name)

def applyResults (ts : TaskSpec) : TaskSpec :=
  let stepwise := applyToSteps ts getStepResultReplacements
  stepwise.applyReplacements { strings := getTaskResultReplacements stepwise }

def getArtifactReplacements (s : Step) (i : Nat) : List (String × String) :=
  [("step.artifacts.path",
      "/tekton/steps/" ++ stepName s.name i ++ "/artifacts/provenance.json"),
    ("artifacts.path", "/tekton/artifacts/provenance.json")]

def applyArtifacts (ts : TaskSpec) : TaskSpec := applyToSteps ts getArtifactReplacements

def exitCodePaths (ts : TaskSpec) : List (String × String) :=
  ts.steps.zipIdx.map fun e =>
    ("steps." ++ stepName e.1.name e.2 ++ ".exitCode.path",
      "/tekton/steps/" ++ stepName e.1.name e.2 ++ "/exitCode")

def applyStepExitCodePath (ts : TaskSpec) : TaskSpec :=
  ts.applyReplacements { strings := exitCodePaths ts }

def getMountPath (d : WorkspaceDeclaration) : String :=
  if d.mountPath = "" then "/workspace/" ++ d.name else d.mountPath

/-- The usages of a workspace that mount it elsewhere. -/
def overrides (d : WorkspaceDeclaration) (usages : List WorkspaceUsage) : List WorkspaceUsage :=
  usages.filter fun usage => usage.name == d.name && usage.mountPath != ""

def pathVariable (d : WorkspaceDeclaration) : String := "workspaces." ++ d.name ++ ".path"

def mountInStep (d : WorkspaceDeclaration) (s : Step) : Step :=
  (overrides d s.workspaces).foldl
    (fun s usage => applyStepReplacements { strings := [(pathVariable d, usage.mountPath)] } s) s

def mountInSidecar (d : WorkspaceDeclaration) (s : Sidecar) : Sidecar :=
  (overrides d s.workspaces).foldl
    (fun s usage => applySidecarReplacements { strings := [(pathVariable d, usage.mountPath)] } s) s

def applyWorkspaceMountPath (ts : TaskSpec) (d : WorkspaceDeclaration) : TaskSpec :=
  { ts with
    steps := ts.steps.map (mountInStep d)
    sidecars := ts.sidecars.map (mountInSidecar d) }.applyReplacements
      { strings := [(pathVariable d, getMountPath d)] }

def unbound (bindings : List WorkspaceBinding) (d : WorkspaceDeclaration) : Bool :=
  d.optional && !bindings.any fun b => b.name == d.name

/-- The paths of the workspaces that are mounted. -/
def applyMountPaths (ts : TaskSpec) (bindings : List WorkspaceBinding) : TaskSpec :=
  ts.workspaces.foldl
    (fun spec d => if unbound bindings d then spec else applyWorkspaceMountPath spec d) ts

/-- A later declaration or binding of a name overwrites the entries of an earlier one. -/
def workspaceReplacements (declarations : List WorkspaceDeclaration)
    (bindings : List WorkspaceBinding) (volumes : List (String × String)) :
    List (String × String) :=
  (bindings.reverse.map fun b => ("workspaces." ++ b.name ++ ".claim", b.claimName.getD "")) ++
    (volumes.map fun v => ("workspaces." ++ v.1 ++ ".volume", v.2)) ++
    declarations.reverse.flatMap fun d =>
      if unbound bindings d then
        [("workspaces." ++ d.name ++ ".bound", "false"), (pathVariable d, "")]
      else [("workspaces." ++ d.name ++ ".bound", "true")]

def applyWorkspaces (ts : TaskSpec) (bindings : List WorkspaceBinding)
    (volumes : List (String × String)) : TaskSpec :=
  (applyMountPaths ts bindings).applyReplacements
    { strings := workspaceReplacements ts.workspaces bindings volumes }

/-- The workspaces that only the TaskRun names are declared in the task. -/
def propagateWorkspaces (ts : TaskSpec) (bindings : List WorkspaceBinding) : TaskSpec :=
  { ts with
    workspaces := ts.workspaces ++
      (bindings.filter fun b => !ts.workspaces.any fun d => d.name == b.name).map fun b =>
        { name := b.name } }

/-- While there is no pod, a claim is made from a template and bound in its place. The
parameters are put into the names of the claims. -/
def boundWorkspaces (tr : TaskRun) (ts : TaskSpec) (podMissing : Bool) : List WorkspaceBinding :=
  tr.workspaces.map fun b =>
    let claim := if podMissing then b.templateClaim.or b.claimName else b.claimName
    { b with
      claimName := claim.map fun c =>
        Api.applyReplacements c (StepActions.getTaskParameters ts.params tr.params).strings }

/-- The substitutions before those of the workspaces. -/
def applyParamsContextsAndResults (tr : TaskRun) (a : Attempt) (ts : TaskSpec) : TaskSpec :=
  applyStepExitCodePath <| applyArtifacts <| applyResults <|
    applyContexts (applyParameters ts tr.params) tr a

def applyParamsContextsResultsAndWorkspaces
    (createVolumes : List WorkspaceBinding → List (String × String)) (tr : TaskRun) (a : Attempt)
    (ts : TaskSpec) : TaskSpec :=
  let bindings := boundWorkspaces tr ts a.podMissing
  applyWorkspaces (propagateWorkspaces (applyParamsContextsAndResults tr a ts) bindings) bindings
    (createVolumes bindings)

end TektonPipeline.TaskRunReconciler
