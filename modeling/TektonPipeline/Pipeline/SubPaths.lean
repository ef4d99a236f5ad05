import TektonPipeline.Pipeline.Workspaces

/-! Whether a pipeline task stays in the directory that its workspace is bound to. The
directory that the task asks for is joined to the one of the binding, which removes names as
it meets two dots, and only then are the context variables replaced. -/

namespace TektonPipeline.Workspaces
open Api

def PipelineRun.substitute (pr : PipelineRun) (p : List Char) : List Char :=
  (applyReplacements (String.ofList p) pr.contexts).toList

def Inside (pr : PipelineRun) (subPath created : String) : Prop :=
  (Paths.place (pr.substitute subPath.toList)).Below (Paths.place created.toList)

instance (pr : PipelineRun) (subPath created : String) : Decidable (Inside pr subPath created) :=
  inferInstanceAs (Decidable (Paths.Place.Below _ _))

section
variable (pr : PipelineRun)

theorem substitute_eq (p : List Char) : pr.substitute p =
    Text.rewriteAll (matchKey (pr.contexts.map (·.1))) (replacement pr.contexts) p := by
  rw [PipelineRun.substitute, applyReplacements_eq, String.toList_ofList, String.toList_ofList]

theorem substitute_toList (s : String) :
    pr.substitute s.toList = (applyReplacements s pr.contexts).toList := by
  rw [PipelineRun.substitute, String.ofList_toList]

theorem no_slash_in_contexts : ∀ k ∈ pr.contexts.map (·.1), '/' ∉ reference k := by
  have hkeys : pr.contexts.map (·.1) = ["context.pipelineRun.name", "context.pipeline.name",
      "context.pipelineRun.namespace", "context.pipelineRun.uid"] := rfl
  rw [hkeys]
  decide

theorem substitute_piecewise : Paths.Piecewise pr.substitute := by
  have hstops := matchKey_stopsAt (no_slash_in_contexts pr)
  refine ⟨?_, ?_, ?_, fun a b => ?_⟩
  · rw [substitute_eq]
    exact rewriteAll_of_no_dollar (by decide)
  · rw [substitute_eq]
    exact rewriteAll_of_no_dollar (by decide)
  · rw [substitute_eq]
    exact rewriteAll_of_no_dollar (by decide)
  · rw [substitute_eq, substitute_eq, substitute_eq]
    exact hstops.rewriteAll_append_sep a b

end

/-! ## Confinement -/

/-- The task's directory enters again what it climbs out of. Where a context variable does not
stand for a name, as the one of the pipeline does not when the pipeline is embedded, the joined
path has to climb as far as the binding's once the variables are replaced, and to go down
through its names. -/
def Retained (pr : PipelineRun) (s t : String) : Prop :=
  let joined := Paths.onwards s.toList t.toList
  let climbs (p : List Char) (up : Nat) := if Paths.rooted (pr.substitute p) then 0 else up
  if s = "" then (Paths.place (pr.substitute t.toList)).up = 0
  else if t = "" then True
  else if Paths.Kept pr.substitute s.toList ∧ Paths.Kept pr.substitute t.toList then
    (Paths.rooted s.toList = true ∨
      (Paths.route t.toList).up ≤ (Paths.place s.toList).names.length) ∧
    ((Paths.place s.toList).names.drop
      ((Paths.place s.toList).names.length - (Paths.route t.toList).up)).map pr.substitute <+:
        (Paths.route t.toList).names.map pr.substitute
  else
    climbs (joined.text (Paths.rooted s.toList))
        (joined.up + (Paths.rewritten pr.substitute joined.names).up) =
      climbs s.toList (Paths.route (pr.substitute s.toList)).up ∧
    (Paths.route (pr.substitute s.toList)).names <+:
      (Paths.rewritten pr.substitute joined.names).names

instance (pr : PipelineRun) (s t : String) : Decidable (Retained pr s t) :=
  inferInstanceAs (Decidable (ite _ _ (ite _ _ (ite _ _ (_ ∧ _)))))

theorem inside_iff_retained (pr : PipelineRun) (s t : String) :
    Inside pr s (applyReplacements (combinedSubPath s t) pr.contexts) ↔ Retained pr s t := by
  rw [Inside, Retained, combinedSubPath]
  by_cases hs : s = ""
  · subst hs
    rw [if_pos rfl, if_pos rfl, ← substitute_toList]
    have hnil : Paths.place (pr.substitute "".toList) = {} := by
      rw [show "".toList = [] from rfl, (substitute_piecewise pr).nil]
      rfl
    rw [hnil, Paths.Place.Below]
    simp
  · rw [if_neg hs, if_neg hs]
    by_cases ht : t = ""
    · subst ht
      rw [if_pos rfl, if_pos rfl, ← substitute_toList]
      exact iff_true_intro ⟨rfl, List.prefix_rfl⟩
    · have hs' : s.toList ≠ [] := by simpa using hs
      rw [if_neg ht, if_neg ht, ← substitute_toList, String.toList_ofList]
      split
      · rename_i hkept
        exact (substitute_piecewise pr).below_join_iff hs' hkept.1 hkept.2
      · rw [Paths.place_eq_route, Paths.place_eq_route (pr.substitute (Paths.join _ _)), Paths.join,
          (substitute_piecewise pr).route_clean, Paths.place_append hs', ← Paths.join,
          Paths.join_eq hs', Paths.Place.Below]

/-- The bindings of a created TaskRun stay inside those of the PipelineRun exactly if each
task directory does not leave the one it is joined to. -/
theorem workspaces_confined_iff (sha256 : String → String) (cfg : FeatureFlags) (pr : PipelineRun)
    (rpt : ResolvedPipelineTask) {created : List WorkspaceBinding} {pvc : String}
    (h : getTaskrunWorkspaces sha256 cfg pr rpt = .ok (created, pvc)) :
    List.Forall₂ (fun p w => Inside pr p.1.subPath w.subPath)
      (bound pr rpt.taskWorkspaces) created ↔
      ∀ p ∈ bound pr rpt.taskWorkspaces, Retained pr p.1.subPath p.2.subPath := by
  have hall := (getTaskrunWorkspaces_ok h).1
  clear h
  generalize bound pr rpt.taskWorkspaces = pairs at hall ⊢
  induction hall with
  | nil => simp
  | cons hw _ ih =>
    rw [List.forall₂_cons, List.forall_mem_cons, hw, inside_iff_retained]
    exact and_congr_right fun _ => ih

def teamRun : PipelineRun where
  name := "nightly"
  pipelineRef := some "release"
  workspaces := [{ name := "shared", subPath := "team-a", persistentVolumeClaim := some "volume" }]

def checkout (subPath : String) : ResolvedPipelineTask where
  name := "checkout"
  workspaces := [{ name := "source", workspace := "shared", subPath := subPath }]

def checkedOut (subPath : String) : List WorkspaceBinding :=
  [{ name := "source", subPath := subPath, persistentVolumeClaim := some "volume" }]

theorem team_confined : getTaskrunWorkspaces id {} teamRun (checkout "src/../docs") =
      .ok (checkedOut "team-a/docs", "shared") ∧
    List.Forall₂ (fun p w => Inside teamRun p.1.subPath w.subPath)
      (bound teamRun (checkout "src/../docs").taskWorkspaces) (checkedOut "team-a/docs") := by
  have hcreated : getTaskrunWorkspaces id {} teamRun (checkout "src/../docs") =
      .ok (checkedOut "team-a/docs", "shared") := by decide +kernel
  refine ⟨hcreated, (workspaces_confined_iff id {} teamRun _ hcreated).mpr ?_⟩
  decide +kernel

/-- Two dots lead into the directory of another team, and no dots are left that Kubernetes
could object to. -/
theorem team_left : getTaskrunWorkspaces id {} teamRun (checkout "../team-b") =
      .ok (checkedOut "team-b", "shared") ∧
    ¬ List.Forall₂ (fun p w => Inside teamRun p.1.subPath w.subPath)
      (bound teamRun (checkout "../team-b").taskWorkspaces) (checkedOut "team-b") := by
  decide +kernel

end TektonPipeline.Workspaces
