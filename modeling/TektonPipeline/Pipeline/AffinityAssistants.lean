import TektonPipeline.Pipeline.Workspaces

/-! The affinity assistants of a PipelineRun and the runs that ask for one. An assistant is
made for each claim, under the name of a workspace that has it; a run asks for the one under
the name of the workspace that it uses. -/

namespace TektonPipeline.Workspaces
open List

structure StatefulSet where
  name : String
  claimTemplates : List String := []
  claimNames : List String := []
  deriving DecidableEq

section
variable (sha256 : String → String) (pr : PipelineRun)

/-- The claims, each with the workspace that comes last in the PipelineRun. -/
def claimNameToWorkspaceName : List (String × String) :=
  Assoc.ofWrites (pr.workspaces.filterMap fun w =>
    w.persistentVolumeClaim.map fun claim => (claim, w.name))

def claimTemplateToWorkspace : List (String × WorkspaceBinding) :=
  pr.workspaces.filterMap fun w =>
    match w.persistentVolumeClaim, w.volumeClaimTemplate with
    | none, some template =>
      some (generatePVCNameFromWorkspaceBinding sha256 template w pr.uid, w)
    | _, _ => none

/-- The StatefulSets and the claims that there are when no request to create one fails. -/
def createOrUpdateAffinityAssistantsAndPVCs (aaBehavior : AffinityAssistantBehavior) :
    List StatefulSet × List String :=
  let templates := claimTemplateToWorkspace sha256 pr
  match aaBehavior with
  | .perWorkspace =>
    ((claimNameToWorkspaceName pr).map (fun e =>
        { name := getAffinityAssistantName sha256 e.2 pr.name, claimNames := [e.1] }) ++
      templates.map fun e =>
        { name := getAffinityAssistantName sha256 e.2.name pr.name, claimNames := [e.1] },
      templates.map (·.1))
  | .perPipelineRun | .perPipelineRunWithIsolation =>
    ([{ name := getAffinityAssistantName sha256 "" pr.name
        claimTemplates := templates.map (·.1)
        claimNames := pr.workspaces.filterMap (·.persistentVolumeClaim) }], [])
  | .disabled => ([], templates.map (·.1))

def getAffinityAssistantAnnotationVal (aaBehavior : AffinityAssistantBehavior)
    (pipelinePVCWorkspaceName prName : String) : String :=
  match aaBehavior with
  | .perWorkspace =>
    if pipelinePVCWorkspaceName ≠ "" then
      getAffinityAssistantName sha256 pipelinePVCWorkspaceName prName
    else ""
  | .perPipelineRun | .perPipelineRunWithIsolation => getAffinityAssistantName sha256 "" prName
  | .disabled => ""

/-- The annotation that `createTaskRun` and `createCustomRun` put on the run of a task. -/
def askedAffinityAssistant (cfg : FeatureFlags) (rpt : ResolvedPipelineTask) :
    Except String (Option String) := do
  let (_, pipelinePVCWorkspaceName) ← getTaskrunWorkspaces sha256 cfg pr rpt
  let aaBehavior ← getAffinityAssistantBehavior cfg
  let aaAnnotationVal :=
    getAffinityAssistantAnnotationVal sha256 aaBehavior pipelinePVCWorkspaceName pr.name
  pure (if aaAnnotationVal ≠ "" then some aaAnnotationVal else none)

end

/-! ## Assistants that are there -/

def WorkspaceBinding.Assisted (w : WorkspaceBinding) (post : List WorkspaceBinding) : Prop :=
  match w.persistentVolumeClaim with
  | some claim => ∀ w' ∈ post, w'.persistentVolumeClaim ≠ some claim
  | none => w.volumeClaimTemplate.isSome = true

section
variable {sha256 : String → String} {pr : PipelineRun}

theorem mem_claimNameToWorkspaceName {claim name : String} :
    (claim, name) ∈ claimNameToWorkspaceName pr ↔ ∃ pre w post, pr.workspaces = pre ++ w :: post ∧
      w.persistentVolumeClaim = some claim ∧ w.name = name ∧
      ∀ w' ∈ post, w'.persistentVolumeClaim ≠ some claim := by
  rw [claimNameToWorkspaceName, Assoc.mem_ofWrites_iff]
  constructor
  · rintro ⟨pre, post, hsplit, hpost⟩
    obtain ⟨pre', rest, hws, -, hrest⟩ := filterMap_eq_append_iff.mp hsplit
    obtain ⟨between, w, post', rfl, -, hw, hpost'⟩ := filterMap_eq_cons_iff.mp hrest
    obtain ⟨claim', hclaim, heq⟩ := Option.map_eq_some_iff.mp hw
    obtain ⟨rfl, rfl⟩ := Prod.mk.inj heq
    refine ⟨pre' ++ between, w, post', by rw [hws, append_assoc], hclaim, rfl, ?_⟩
    intro w' hw' hsame
    refine hpost (claim', w'.name) ?_ rfl
    rw [← hpost']
    exact mem_filterMap.mpr ⟨w', hw', by rw [hsame]; rfl⟩
  · rintro ⟨pre, w, post, hws, hclaim, rfl, hpost⟩
    refine ⟨_, _, by rw [hws, filterMap_append, filterMap_cons_some]; rw [hclaim]; rfl, ?_⟩
    intro e he heq
    obtain ⟨w', hw', hsome⟩ := mem_filterMap.mp he
    obtain ⟨claim', hclaim', rfl⟩ := Option.map_eq_some_iff.mp hsome
    exact hpost w' hw' (by rw [hclaim', ← heq])

theorem mem_statefulSets {name : String} :
    name ∈ (createOrUpdateAffinityAssistantsAndPVCs sha256 pr .perWorkspace).1.map (·.name) ↔
      ∃ pre w post, pr.workspaces = pre ++ w :: post ∧ w.Assisted post ∧
        getAffinityAssistantName sha256 w.name pr.name = name := by
  simp only [createOrUpdateAffinityAssistantsAndPVCs, map_append, map_map,
    mem_append, mem_map, Function.comp_apply]
  constructor
  · rintro (⟨⟨claim, ws⟩, hmem, rfl⟩ | ⟨⟨claim, w⟩, hmem, rfl⟩)
    · obtain ⟨pre, w, post, hws, hclaim, rfl, hpost⟩ := mem_claimNameToWorkspaceName.mp hmem
      exact ⟨pre, w, post, hws, by rw [WorkspaceBinding.Assisted, hclaim]; exact hpost, rfl⟩
    · obtain ⟨w', hw', hsome⟩ := mem_filterMap.mp hmem
      obtain ⟨pre, post, hws⟩ := append_of_mem hw'
      split at hsome
      · rename_i template hclaim htemplate
        obtain ⟨-, rfl⟩ := Prod.mk.inj (Option.some.inj hsome)
        refine ⟨pre, w', post, hws, ?_, rfl⟩
        rw [WorkspaceBinding.Assisted, hclaim]
        exact Option.isSome_of_eq_some htemplate
      · cases hsome
  · rintro ⟨pre, w, post, hws, hassisted, rfl⟩
    rw [WorkspaceBinding.Assisted] at hassisted
    cases hclaim : w.persistentVolumeClaim with
    | some claim =>
      rw [hclaim] at hassisted
      exact .inl ⟨(claim, w.name),
        mem_claimNameToWorkspaceName.mpr ⟨pre, w, post, hws, hclaim, rfl, hassisted⟩, rfl⟩
    | none =>
      rw [hclaim] at hassisted
      obtain ⟨template, htemplate⟩ := Option.isSome_iff_exists.mp hassisted
      refine .inr ⟨(generatePVCNameFromWorkspaceBinding sha256 template w pr.uid, w), ?_, rfl⟩
      refine mem_filterMap.mpr ⟨w, ?_, ?_⟩
      · rw [hws]
        exact mem_append_right _ mem_cons_self
      · rw [hclaim, htemplate]

/-- The workspace that a run's assistant is named after: the last one of the task that is
bound to a claim. -/
def lastClaimed (pr : PipelineRun) (rpt : ResolvedPipelineTask) :
    Option (WorkspaceBinding × WorkspacePipelineTaskBinding) :=
  ((bound pr rpt.taskWorkspaces).filter fun p => p.1.claims).getLast?

theorem foldl_last {α β : Type} (g : α → β) (b : β) (l : List α) :
    l.foldl (fun _ a => g a) b = (l.getLast?.map g).getD b := by
  induction l using List.reverseRecOn with
  | nil => rfl
  | append_singleton l a _ => simp

theorem getAffinityAssistantName_ne_empty (ws prName : String) :
    getAffinityAssistantName sha256 ws prName ≠ "" := by
  unfold getAffinityAssistantName
  rw [Ne, String.append_eq_empty_iff]
  intro h
  exact absurd h.1 (by decide)

theorem asked_eq {cfg : FeatureFlags} {rpt : ResolvedPipelineTask} {asked : Option String}
    (hmode : cfg.disableAffinityAssistant = false)
    (h : askedAffinityAssistant sha256 pr cfg rpt = .ok asked) :
    asked = ((lastClaimed pr rpt).map (·.2.pipelineWorkspace)).bind fun ws =>
      if ws = "" then none else some (getAffinityAssistantName sha256 ws pr.name) := by
  unfold askedAffinityAssistant at h
  cases hw : getTaskrunWorkspaces sha256 cfg pr rpt with
  | error err =>
    rw [hw] at h
    cases h
  | ok r =>
    obtain ⟨created, pvc⟩ := r
    have haa : getAffinityAssistantBehavior cfg = .ok .perWorkspace := by
      rw [getAffinityAssistantBehavior, hmode]
      rfl
    have hpvc := (getTaskrunWorkspaces_ok hw).2
    rw [foldl_last] at hpvc
    rw [hw] at h
    simp only [bind, Except.bind, haa, getAffinityAssistantAnnotationVal] at h
    rw [← Except.ok.inj h, lastClaimed]
    cases hlast : ((bound pr rpt.taskWorkspaces).filter fun p => p.1.claims).getLast? with
    | none =>
      rw [hlast] at hpvc
      obtain rfl : pvc = "" := hpvc
      rfl
    | some p =>
      rw [hlast] at hpvc
      obtain rfl : pvc = p.2.pipelineWorkspace := hpvc
      by_cases hempty : p.2.pipelineWorkspace = "" <;>
        simp [hempty, getAffinityAssistantName_ne_empty]

/-- The assistant that a run asks for is there exactly if one is made under the name of the
workspace, as it is for a template and for the last binding of a claim. -/
theorem affinityAssistant_exists_iff (sha256 : String → String) (pr : PipelineRun)
    {cfg : FeatureFlags} (rpt : ResolvedPipelineTask) {asked : Option String}
    (hmode : cfg.disableAffinityAssistant = false)
    (h : askedAffinityAssistant sha256 pr cfg rpt = .ok asked) :
    (∀ aaName, asked = some aaName → aaName ∈
      (createOrUpdateAffinityAssistantsAndPVCs sha256 pr .perWorkspace).1.map (·.name)) ↔
    ∀ p, lastClaimed pr rpt = some p → p.2.pipelineWorkspace ≠ "" →
      ∃ pre w post, pr.workspaces = pre ++ w :: post ∧ w.Assisted post ∧
        getAffinityAssistantName sha256 w.name pr.name =
          getAffinityAssistantName sha256 p.2.pipelineWorkspace pr.name := by
  simp only [mem_statefulSets]
  rw [asked_eq hmode h]
  cases hlast : lastClaimed pr rpt with
  | none => simp
  | some p =>
    by_cases hempty : p.2.pipelineWorkspace = "" <;> simp [hempty]

end

def sharedClaim : PipelineRun where
  name := "nightly"
  workspaces := [{ name := "source", persistentVolumeClaim := some "volume" },
    { name := "cache", persistentVolumeClaim := some "volume" }]

def uses (workspace : String) : ResolvedPipelineTask where
  name := "build"
  workspaces := [{ name := workspace }]

theorem cache_assisted : askedAffinityAssistant id sharedClaim {} (uses "cache") =
      .ok (some "affinity-assistant-cachenight") ∧ "affinity-assistant-cachenight" ∈
      (createOrUpdateAffinityAssistantsAndPVCs id sharedClaim .perWorkspace).1.map (·.name) := by
  have hput : askedAffinityAssistant id sharedClaim {} (uses "cache") =
      .ok (some "affinity-assistant-cachenight") := by decide +kernel
  refine ⟨hput, (affinityAssistant_exists_iff id sharedClaim _ rfl hput).mpr ?_ _ rfl⟩
  intro p hp _
  have hlast : lastClaimed sharedClaim (uses "cache") = some
      ({ name := "cache", persistentVolumeClaim := some "volume" }, { name := "cache" }) := by
    decide +kernel
  obtain rfl := Option.some.inj (hlast.symm.trans hp)
  refine ⟨[{ name := "source", persistentVolumeClaim := some "volume" }],
    { name := "cache", persistentVolumeClaim := some "volume" }, [], rfl, ?_, rfl⟩
  exact fun _ hw => absurd hw not_mem_nil

/-- A run that uses the first of the two asks for an assistant that nothing creates, whatever
the hash is, unless it is the same for both. -/
theorem source_not_assisted :
    getAffinityAssistantName id "source" "nightly" ≠ getAffinityAssistantName id "cache" "nightly" ∧
    ∀ sha256 : String → String, askedAffinityAssistant sha256 sharedClaim {} (uses "source") =
        .ok (some (getAffinityAssistantName sha256 "source" "nightly")) ∧
      (createOrUpdateAffinityAssistantsAndPVCs sha256 sharedClaim .perWorkspace).1.map (·.name) =
        [getAffinityAssistantName sha256 "cache" "nightly"] := by
  exact ⟨by decide +kernel, fun sha256 => ⟨rfl, rfl⟩⟩

end TektonPipeline.Workspaces
