import TektonPipeline.Api.Replacements
import TektonPipeline.Library.Paths

/-! The workspaces of a TaskRun or CustomRun: which of the PipelineRun's bindings each one
gets, and the directory in it. -/

namespace TektonPipeline.Workspaces
open Api

/-- A binding by its claim or the name of its claim template; one to another volume has
neither. -/
structure WorkspaceBinding where
  name : String
  subPath : String := ""
  persistentVolumeClaim : Option String := none
  volumeClaimTemplate : Option String := none
  deriving DecidableEq

structure WorkspacePipelineTaskBinding where
  name : String
  workspace : String := ""
  subPath : String := ""
  deriving DecidableEq

structure WorkspaceDeclaration where
  name : String
  optional : Bool := false
  deriving DecidableEq

/-- A pipeline task. `used` is what is found when the embedded task is searched for the
workspaces it uses, in the order in which that set is read. -/
structure ResolvedPipelineTask where
  name : String
  workspaces : List WorkspacePipelineTaskBinding := []
  used : Option (Except String (List String)) := none
  resolvedTask : Option (List WorkspaceDeclaration) := none

structure PipelineRun where
  name : String
  namespaceName : String := ""
  uid : String := ""
  pipelineRef : Option String := none
  workspaces : List WorkspaceBinding := []
  deriving DecidableEq

inductive AffinityAssistantBehavior where
  | disabled
  | perWorkspace
  | perPipelineRun
  | perPipelineRunWithIsolation
  deriving DecidableEq

structure FeatureFlags where
  disableAffinityAssistant : Bool := false
  coschedule : String := "workspaces"
  deriving DecidableEq

def getAffinityAssistantBehavior (cfg : FeatureFlags) : Except String AffinityAssistantBehavior :=
  if !cfg.disableAffinityAssistant then .ok .perWorkspace
  else if cfg.coschedule = "pipelineruns" then .ok .perPipelineRun
  else if cfg.coschedule = "isolate-pipelinerun" then .ok .perPipelineRunWithIsolation
  else if cfg.coschedule = "disabled" ∨ cfg.coschedule = "workspaces" then .ok .disabled
  else .error ("unknown combination of disable-affinity-assistant: " ++
    s!"{cfg.disableAffinityAssistant} and coschedule: {cfg.coschedule}")

section
variable (sha256 : String → String)

def firstTen (s : String) : String := String.ofList (s.toList.take 10)

def getAffinityAssistantName (pipelineWorkspaceName pipelineRunName : String) : String :=
  "affinity-assistant-" ++ firstTen (sha256 (pipelineWorkspaceName ++ pipelineRunName))

def generatePVCNameFromWorkspaceBinding (claimName : String) (wb : WorkspaceBinding)
    (ownerUid : String) : String :=
  (if claimName = "" then "pvc" else claimName) ++ "-" ++ firstTen (sha256 (wb.name ++ ownerUid))

def getPersistentVolumeClaimNameWithAffinityAssistant (pipelineWorkspaceName prName : String)
    (claimName : String) (wb : WorkspaceBinding) (ownerUid : String) : String :=
  generatePVCNameFromWorkspaceBinding sha256 claimName wb ownerUid ++ "-" ++
    getAffinityAssistantName sha256 pipelineWorkspaceName prName ++ "-0"

end

/-! ## Directories -/

def combinedSubPath (workspaceSubPath pipelineTaskSubPath : String) : String :=
  if workspaceSubPath = "" then pipelineTaskSubPath
  else if pipelineTaskSubPath = "" then workspaceSubPath
  else String.ofList (Paths.join workspaceSubPath.toList pipelineTaskSubPath.toList)

def getContextReplacements (pipelineName : String) (pr : PipelineRun) : List (String × String) :=
  [("context.pipelineRun.name", pr.name), ("context.pipeline.name", pipelineName),
    ("context.pipelineRun.namespace", pr.namespaceName), ("context.pipelineRun.uid", pr.uid)]

def PipelineRun.contexts (pr : PipelineRun) : List (String × String) :=
  getContextReplacements (pr.pipelineRef.getD "") pr

/-! ## Bindings -/

section
variable (sha256 : String → String)

def taskWorkspaceByWorkspaceVolumeSource (prName : String) (wb : WorkspaceBinding)
    (taskWorkspaceName pipelineTaskSubPath ownerUid : String)
    (aaBehavior : AffinityAssistantBehavior) : WorkspaceBinding :=
  match wb.volumeClaimTemplate with
  | none =>
    { wb with name := taskWorkspaceName, subPath := combinedSubPath wb.subPath pipelineTaskSubPath }
  | some template =>
    { name := taskWorkspaceName
      subPath := combinedSubPath wb.subPath pipelineTaskSubPath
      persistentVolumeClaim := some
        (match aaBehavior with
        | .perWorkspace | .disabled =>
          generatePVCNameFromWorkspaceBinding sha256 template wb ownerUid
        | .perPipelineRun | .perPipelineRunWithIsolation =>
          getPersistentVolumeClaimNameWithAffinityAssistant sha256 "" prName template wb ownerUid) }

/-- The workspaces that an embedded task uses and that are not listed come after those that
are. -/
def propagateWorkspaces (rpt : ResolvedPipelineTask) :
    Except String (List WorkspacePipelineTaskBinding) :=
  match rpt.used with
  | none => .ok rpt.workspaces
  | some (.error err) => .error err
  | some (.ok used) =>
    .ok (rpt.workspaces ++
      (used.filter fun wSpace => wSpace ∉ rpt.workspaces.map (·.name)).map fun wSpace =>
        { name := wSpace })

def WorkspacePipelineTaskBinding.pipelineWorkspace (ws : WorkspacePipelineTaskBinding) : String :=
  if ws.workspace = "" then ws.name else ws.workspace

/-- The binding under a name: the last one, where a name is bound twice. -/
def PipelineRun.binding (pr : PipelineRun) (name : String) : Option WorkspaceBinding :=
  pr.workspaces.reverse.find? fun b => b.name == name

def WorkspaceBinding.claims (b : WorkspaceBinding) : Bool :=
  b.persistentVolumeClaim.isSome || b.volumeClaimTemplate.isSome

def ResolvedPipelineTask.workspaceIsOptional (rpt : ResolvedPipelineTask)
    (taskWorkspaceName : String) : Bool :=
  (rpt.resolvedTask.getD []).any fun d => d.name == taskWorkspaceName && d.optional

/-- The loop over the workspaces of a task, with the bindings and the workspace for the
affinity assistant that are there so far. -/
def bindWorkspaces (cfg : FeatureFlags) (pr : PipelineRun) (rpt : ResolvedPipelineTask) :
    List WorkspacePipelineTaskBinding → List WorkspaceBinding → String →
      Except String (List WorkspaceBinding × String)
  | [], workspaces, pipelinePVCWorkspaceName => .ok (workspaces, pipelinePVCWorkspaceName)
  | ws :: rest, workspaces, pipelinePVCWorkspaceName =>
    match pr.binding ws.pipelineWorkspace with
    | some b => do
      let aaBehavior ← getAffinityAssistantBehavior cfg
      bindWorkspaces cfg pr rpt rest
        (workspaces ++ [taskWorkspaceByWorkspaceVolumeSource sha256 pr.name b ws.name ws.subPath
          pr.uid aaBehavior])
        (if b.claims then ws.pipelineWorkspace else pipelinePVCWorkspaceName)
    | none =>
      if rpt.workspaceIsOptional ws.name then
        bindWorkspaces cfg pr rpt rest workspaces pipelinePVCWorkspaceName
      else
        .error (s!"expected workspace {ws.pipelineWorkspace.quote} to be provided by " ++
          s!"pipelinerun for pipeline task {rpt.name.quote}")

def getTaskrunWorkspaces (cfg : FeatureFlags) (pr : PipelineRun) (rpt : ResolvedPipelineTask) :
    Except String (List WorkspaceBinding × String) := do
  let taskWorkspaces ← propagateWorkspaces rpt
  let (workspaces, pipelinePVCWorkspaceName) ← bindWorkspaces sha256 cfg pr rpt taskWorkspaces [] ""
  pure (workspaces.map fun w => { w with subPath := applyReplacements w.subPath pr.contexts },
    pipelinePVCWorkspaceName)

end

/-! ## Which binding a workspace gets -/

def ResolvedPipelineTask.taskWorkspaces (rpt : ResolvedPipelineTask) :
    List WorkspacePipelineTaskBinding :=
  match propagateWorkspaces rpt with
  | .ok taskWorkspaces => taskWorkspaces
  | .error _ => []

def bound (pr : PipelineRun) (wss : List WorkspacePipelineTaskBinding) :
    List (WorkspaceBinding × WorkspacePipelineTaskBinding) :=
  wss.filterMap fun ws => (pr.binding ws.pipelineWorkspace).map fun b => (b, ws)

section
variable {sha256 : String → String} {cfg : FeatureFlags} {pr : PipelineRun}
  {rpt : ResolvedPipelineTask}

theorem bindWorkspaces_ok {wss : List WorkspacePipelineTaskBinding}
    {workspaces workspaces' : List WorkspaceBinding} {pvc pvc' : String}
    (h : bindWorkspaces sha256 cfg pr rpt wss workspaces pvc = .ok (workspaces', pvc')) :
    (∃ created, workspaces' = workspaces ++ created ∧
      List.Forall₂ (fun p w => w.subPath = combinedSubPath p.1.subPath p.2.subPath)
        (bound pr wss) created) ∧ pvc' = ((bound pr wss).filter fun p => p.1.claims).foldl
      (fun _ p => p.2.pipelineWorkspace) pvc := by
  induction wss generalizing workspaces pvc with
  | nil =>
    obtain ⟨rfl, rfl⟩ := Prod.mk.inj (Except.ok.inj h)
    exact ⟨⟨[], (List.append_nil _).symm, .nil⟩, rfl⟩
  | cons ws wss ih =>
    rw [bindWorkspaces] at h
    cases hb : pr.binding ws.pipelineWorkspace with
    | none =>
      have hbound : bound pr (ws :: wss) = bound pr wss := by simp [bound, hb]
      rw [hb] at h
      rw [hbound]
      dsimp only at h
      split at h
      · exact ih h
      · cases h
    | some b =>
      have hbound : bound pr (ws :: wss) = (b, ws) :: bound pr wss := by simp [bound, hb]
      rw [hb] at h
      dsimp only at h
      cases haa : getAffinityAssistantBehavior cfg with
      | error err =>
        rw [haa] at h
        cases h
      | ok aaBehavior =>
        rw [haa] at h
        obtain ⟨⟨created, hcreated, hall⟩, hpvc⟩ := ih h
        refine ⟨⟨_ :: created, by rw [hcreated, List.append_assoc]; rfl, ?_⟩, ?_⟩
        · rw [hbound]
          refine .cons ?_ hall
          unfold taskWorkspaceByWorkspaceVolumeSource
          split <;> rfl
        · rw [hbound, hpvc]
          cases hclaims : b.claims <;> simp [hclaims]

theorem getTaskrunWorkspaces_ok {created : List WorkspaceBinding} {pvc : String}
    (h : getTaskrunWorkspaces sha256 cfg pr rpt = .ok (created, pvc)) :
    List.Forall₂ (fun p w => w.subPath =
        applyReplacements (combinedSubPath p.1.subPath p.2.subPath) pr.contexts)
      (bound pr rpt.taskWorkspaces) created ∧
    pvc = ((bound pr rpt.taskWorkspaces).filter fun p => p.1.claims).foldl
      (fun _ p => p.2.pipelineWorkspace) "" := by
  unfold getTaskrunWorkspaces at h
  unfold ResolvedPipelineTask.taskWorkspaces
  cases hp : propagateWorkspaces rpt with
  | error err =>
    rw [hp] at h
    cases h
  | ok tws =>
    rw [hp] at h
    cases hb : bindWorkspaces sha256 cfg pr rpt tws [] "" with
    | error err =>
      simp only [bind, Except.bind, hb] at h
      cases h
    | ok r =>
      obtain ⟨workspaces, name⟩ := r
      simp only [bind, Except.bind, hb] at h
      obtain ⟨rfl, rfl⟩ := Prod.mk.inj (Except.ok.inj h)
      obtain ⟨⟨created, hcreated, hall⟩, hpvc⟩ := bindWorkspaces_ok hb
      refine ⟨?_, hpvc⟩
      rw [hcreated, List.nil_append, List.forall₂_map_right_iff]
      exact hall.imp fun p w hw => by rw [hw]

end

end TektonPipeline.Workspaces
