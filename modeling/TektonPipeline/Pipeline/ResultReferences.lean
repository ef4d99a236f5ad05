import TektonPipeline.Pipeline.ResultValidation

/-! Where the reconciler looks for references to results before it asks whether one is missing,
and where they are collected from. -/

namespace TektonPipeline.Pipeline
open Api ResultRef List

theorem parseTaskExpression_isSome {expr : String} : (parseTaskExpression expr).isSome = true ↔
      looksLikeResultRef expr = true ∧ (splitDots expr).length ≤ 5 := by
  unfold parseTaskExpression
  by_cases hlooks : looksLikeResultRef expr = true
  · obtain ⟨kind, task, name, rest, hsplit, -⟩ := looksLikeResultRef_iff.mp hlooks
    rw [if_pos hlooks, parseExpression, hlooks, Bool.true_or, if_pos rfl, hsplit]
    cases rest with
    | nil =>
      refine iff_of_true ?_ ⟨rfl, by simp⟩
      dsimp only
      split
      · rfl
      · split <;> rfl
    | cons key rest =>
      cases rest with
      | nil => exact iff_of_true rfl ⟨rfl, by simp⟩
      | cons key' rest => exact iff_of_false (by simp) (by simp)
  · rw [if_neg hlooks]
    exact iff_of_false (by simp) fun h => hlooks h.1

def expressions (pt : PipelineTask) : List String :=
  pt.params.flatMap (·.getVarSubstitutionExpressions) ++
    pt.when.flatMap (·.getVarSubstitutionExpressions)

def matrixExpressions (pt : PipelineTask) : List String :=
  (pt.matrix.params ++ pt.matrix.includes.flatMap (·.params)).flatMap
    (·.getVarSubstitutionExpressions)

theorem hasResultReferences_iff {t : ResolvedPipelineTask} : t.hasResultReferences = true ↔
      ∃ e ∈ expressions t.pipelineTask, looksLikeResultRef e = true := by
  have hparams : ((t.pipelineTask.params ++
      if t.pipelineTask.isMatrixed then t.pipelineTask.params else []).any fun p =>
        Api.looksLikeContainsResultRefs p.getVarSubstitutionExpressions) =
      t.pipelineTask.params.any fun p =>
        Api.looksLikeContainsResultRefs p.getVarSubstitutionExpressions := by
    rw [any_append]
    split
    · rw [Bool.or_self]
    · rw [any_nil, Bool.or_false]
  rw [ResolvedPipelineTask.hasResultReferences, hparams, ← any_eq_true]
  simp [expressions, Api.looksLikeContainsResultRefs, any_flatMap]

theorem newResultRefs_ne_nil {es : List String} :
    Api.newResultRefs es ≠ [] ↔ ∃ e ∈ es, (parseTaskExpression e).isSome = true := by
  simp [Api.newResultRefs, Option.isSome_iff_ne_none]

theorem resultRefs_ne_nil {pt : PipelineTask} :
    pipelineTaskResultRefs { pt with taskSpec := [] } ≠ [] ↔
      ∃ e ∈ expressions pt ++ matrixExpressions pt, (parseTaskExpression e).isSome = true := by
  have hrefs : pipelineTaskResultRefs { pt with taskSpec := [] } =
      Api.newResultRefs (pt.params.flatMap (·.getVarSubstitutionExpressions) ++
        matrixExpressions pt ++ pt.when.flatMap (·.getVarSubstitutionExpressions)) := by
    simp [pipelineTaskResultRefs, PipelineTask.extractAllParams, Api.newResultRefs,
      matrixExpressions, filterMap_flatMap]
  rw [hrefs, newResultRefs_ne_nil]
  refine exists_congr fun e => and_congr_left fun _ => ?_
  simp only [expressions, mem_append]
  tauto

def SeesReferences (t : ResolvedPipelineTask) : Prop :=
  t.hasResultReferences = true ↔
    pipelineTaskResultRefs { t.pipelineTask with taskSpec := [] } ≠ []

/-- The places are read alike if the matrix has no reference that stands nowhere else, and if no
expression with too many parts is taken for the only reference. -/
theorem seesReferences_iff {t : ResolvedPipelineTask} : SeesReferences t ↔
      ((∃ e ∈ matrixExpressions t.pipelineTask,
          looksLikeResultRef e = true ∧ (splitDots e).length ≤ 5) →
        ∃ e ∈ expressions t.pipelineTask, looksLikeResultRef e = true) ∧
      ((∃ e ∈ expressions t.pipelineTask, looksLikeResultRef e = true) →
        ∃ e ∈ expressions t.pipelineTask ++ matrixExpressions t.pipelineTask,
          looksLikeResultRef e = true ∧ (splitDots e).length ≤ 5) := by
  simp only [SeesReferences, hasResultReferences_iff, resultRefs_ne_nil, parseTaskExpression_isSome]
  constructor
  · intro h
    refine ⟨fun ⟨e, he, href⟩ => ?_, h.mp⟩
    exact h.mpr ⟨e, mem_append_right _ he, href⟩
  · rintro ⟨hmatrix, hparts⟩
    refine ⟨hparts, fun ⟨e, he, href⟩ => ?_⟩
    rcases mem_append.mp he with he | he
    · exact ⟨e, he, href.1⟩
    · exact hmatrix ⟨e, he, href⟩

def scanEach : ResolvedPipelineTask :=
  { pipelineTask :=
      { name := "scan"
        matrix := { params := [⟨"image", { stringVal := "$(tasks.list.results.images[*])" }⟩] } } }

theorem scanEach_unseen : scanEach.hasResultReferences = false ∧
    pipelineTaskResultRefs scanEach.pipelineTask = [⟨"list", "images", none, ""⟩] ∧
    ¬ SeesReferences scanEach := by
  have hunseen : scanEach.hasResultReferences = false := by decide +kernel
  have hrefs : pipelineTaskResultRefs scanEach.pipelineTask = [⟨"list", "images", none, ""⟩] := by
    decide +kernel
  refine ⟨hunseen, hrefs, fun h => ?_⟩
  have hseen : scanEach.hasResultReferences = true := by
    refine h.mpr fun hnil => ?_
    have heq : ({ scanEach.pipelineTask with taskSpec := [] } : PipelineTask) =
        scanEach.pipelineTask := rfl
    rw [heq, hrefs] at hnil
    cases hnil
  rw [hunseen] at hseen
  cases hseen

end TektonPipeline.Pipeline
