import TektonPipeline.Pipeline.State

/-! What the evaluation of skipping keeps of the facts: the tasks are the same but for the
results written into them and the order and the cached results of their runs. -/

namespace TektonPipeline.Pipeline
open Api Stateful List

structure SameTask (pt pt' : PipelineTask) : Prop where
  name : pt'.name = pt.name
  onError : pt'.onError = pt.onError
  matrixed : pt'.isMatrixed = pt.isMatrixed

theorem SameTask.refl (pt : PipelineTask) : SameTask pt pt := ⟨rfl, rfl, rfl⟩

theorem SameTask.trans {pt₁ pt₂ pt₃ : PipelineTask} (h : SameTask pt₁ pt₂)
    (h' : SameTask pt₂ pt₃) : SameTask pt₁ pt₃ :=
  ⟨h'.name.trans h.name, h'.onError.trans h.onError, h'.matrixed.trans h.matrixed⟩

theorem sameTask_applyTaskResults (pt : PipelineTask) (refs : List ResolvedResultRef) :
    SameTask pt (applyTaskResults pt refs) := by
  refine ⟨rfl, rfl, ?_⟩
  unfold PipelineTask.isMatrixed applyTaskResults
  by_cases h : pt.isMatrixed = true
  · simp [h, Matrix.hasParams, Matrix.hasInclude, Params.replaceVariables]
  · simp [h]

namespace ResolvedPipelineTask

def withTask (t : ResolvedPipelineTask) (pt : PipelineTask) : ResolvedPipelineTask :=
  { t with pipelineTask := pt }

theorem perm_cacheResults (t : ResolvedPipelineTask) :
    (t.cacheResults.taskRuns).Perm t.taskRuns := by
  unfold cacheResults
  split
  · exact perm_insertionSort _ _
  · exact .refl _

theorem cacheResults_fields (t : ResolvedPipelineTask) :
    t.cacheResults.pipelineTask = t.pipelineTask ∧ t.cacheResults.customTask = t.customTask ∧
      t.cacheResults.customRuns = t.customRuns ∧ t.cacheResults.resolvedTask = t.resolvedTask ∧
      t.cacheResults.evaluatedCEL = t.evaluatedCEL := by
  unfold cacheResults
  split <;> exact ⟨rfl, rfl, rfl, rfl, rfl⟩

theorem cacheResults_name (t : ResolvedPipelineTask) : t.cacheResults.name = t.name :=
  congrArg PipelineTask.name t.cacheResults_fields.1

theorem cacheResults_withTask (t : ResolvedPipelineTask) (pt : PipelineTask) :
    (t.withTask pt).cacheResults = t.cacheResults.withTask pt := by
  unfold cacheResults withTask
  dsimp only
  split <;> rfl

theorem cacheResults_idem (t : ResolvedPipelineTask) :
    t.cacheResults.cacheResults = t.cacheResults := by
  have hsorted : ∀ l : List ChildRun,
      (l.insertionSort fun a b => a.name ≤ b.name).insertionSort (fun a b => a.name ≤ b.name) =
        l.insertionSort fun a b => a.name ≤ b.name := by
    intro l
    have : Std.Total fun a b : ChildRun => a.name ≤ b.name :=
      ⟨fun a b => String.le_total a.name b.name⟩
    have : IsTrans ChildRun fun a b => a.name ≤ b.name := ⟨fun _ _ _ => String.le_trans⟩
    exact (pairwise_insertionSort _ l).insertionSort_eq
  by_cases h : t.resultsCache.isEmpty = true
  · by_cases h' : t.cacheResults.resultsCache.isEmpty = true
    · rw [cacheResults, if_pos h']
      unfold cacheResults
      rw [if_pos h]
      simp only [hsorted]
    · rw [cacheResults, if_neg h']
  · have heq : t.cacheResults = t := by rw [cacheResults, if_neg h]
    rw [heq, heq]

end ResolvedPipelineTask

structure Kept (t t' : ResolvedPipelineTask) : Prop where
  task : SameTask t.pipelineTask t'.pipelineTask
  rest : t' = t.withTask t'.pipelineTask ∨
    (t.customTask = false ∧ t.pipelineTask.isMatrixed = true) ∧
      t' = t.cacheResults.withTask t'.pipelineTask

namespace Kept
variable {t t' : ResolvedPipelineTask}

theorem refl (t : ResolvedPipelineTask) : Kept t t := ⟨.refl _, .inl rfl⟩

variable (h : Kept t t')
include h

theorem write {pt : PipelineTask} (hpt : SameTask t'.pipelineTask pt) :
    Kept t { t' with pipelineTask := pt } := by
  refine ⟨h.task.trans hpt, ?_⟩
  rcases h.rest with hrest | ⟨hmatrix, hrest⟩
  · left
    rw [hrest]
    rfl
  · right
    refine ⟨hmatrix, ?_⟩
    rw [hrest]
    rfl

theorem cache (hcustom : t.customTask = false)
    (hmatrix : t.pipelineTask.isMatrixed = true) : Kept t t'.cacheResults := by
  have hpt : t'.cacheResults.pipelineTask = t'.pipelineTask := t'.cacheResults_fields.1
  refine ⟨hpt ▸ h.task, .inr ⟨⟨hcustom, hmatrix⟩, ?_⟩⟩
  rw [hpt]
  rcases h.rest with hrest | ⟨-, hrest⟩
  · rw [hrest, ResolvedPipelineTask.cacheResults_withTask]
    rfl
  · rw [hrest, ResolvedPipelineTask.cacheResults_withTask, ResolvedPipelineTask.cacheResults_idem]
    rfl

theorem name_eq : t'.name = t.name := h.task.name

theorem fields : t'.customTask = t.customTask ∧ t'.resolvedTask = t.resolvedTask ∧
      t'.evaluatedCEL = t.evaluatedCEL ∧ t'.customRuns = t.customRuns := by
  have hfields := t.cacheResults_fields
  rcases h.rest with hrest | ⟨-, hrest⟩ <;> rw [hrest]
  · exact ⟨rfl, rfl, rfl, rfl⟩
  · exact ⟨hfields.2.1, hfields.2.2.2.1, hfields.2.2.2.2, hfields.2.2.1⟩

theorem taskRuns_perm : t'.taskRuns.Perm t.taskRuns := by
  rcases h.rest with hrest | ⟨-, hrest⟩ <;> rw [hrest]
  · exact .refl _
  · exact t.perm_cacheResults

theorem runs_perm : t'.runs.Perm t.runs := by
  unfold ResolvedPipelineTask.runs
  rw [h.fields.1, h.fields.2.2.2]
  split
  · exact .refl _
  · exact h.taskRuns_perm

theorem isScheduled_eq : t'.isScheduled = t.isScheduled := by
  unfold ResolvedPipelineTask.isScheduled
  rw [h.runs_perm.isEmpty_eq]

theorem isSuccessful_eq : t'.isSuccessful = t.isSuccessful := by
  simp only [ResolvedPipelineTask.isSuccessful, h.runs_perm.isEmpty_eq, h.runs_perm.all_eq]

theorem isFailure_eq : t'.isFailure = t.isFailure := by
  simp only [ResolvedPipelineTask.isFailure, h.runs_perm.isEmpty_eq, h.runs_perm.all_eq,
    h.runs_perm.any_eq]

end Kept

namespace PipelineRunState
variable {s : PipelineRunState} {n : String} {t t' : ResolvedPipelineTask}

theorem mem_of_task? (h : s.task? n = some t) : t ∈ s ∧ t.name = n := by
  refine ⟨mem_reverse.mp (mem_of_find?_eq_some h), ?_⟩
  simpa using find?_some h

theorem eq_of_name (hnodup : (s.map (·.name)).Nodup) (ht : t ∈ s) (ht' : t' ∈ s)
    (hname : t.name = t'.name) : t = t' :=
  inj_on_of_nodup_map hnodup ht ht' hname

theorem task?_of_mem (hnodup : (s.map (·.name)).Nodup) (ht : t ∈ s) : s.task? t.name = some t := by
  cases h : s.task? t.name with
  | none =>
    have hnone := find?_eq_none.mp h t (mem_reverse.mpr ht)
    simp at hnone
  | some t' =>
    obtain ⟨hmem, hname⟩ := mem_of_task? h
    rw [eq_of_name hnodup hmem ht hname]

theorem task?_map {h : ResolvedPipelineTask → ResolvedPipelineTask}
    (hname : ∀ t, (h t).name = t.name) :
    PipelineRunState.task? (s.map h) n = (s.task? n).map h := by
  unfold task?
  rw [← map_reverse, find?_map]
  have hcomp : ((fun t : ResolvedPipelineTask => t.name == n) ∘ h) = fun t => t.name == n := by
    funext t
    simp [hname]
  rw [hcomp]

end PipelineRunState

/-- The state `s` later in the same evaluation; `A` says which forms a task may have. -/
def KeptState (A : String → PipelineTask → Prop) (s s' : PipelineRunState) : Prop :=
  ∃ h : ResolvedPipelineTask → ResolvedPipelineTask, s' = s.map h ∧ (∀ t, Kept t (h t)) ∧
    ∀ t ∈ s, A t.name (h t).pipelineTask

namespace KeptState
variable {A : String → PipelineTask → Prop} {s s' : PipelineRunState}

theorem refl (hA : ∀ t ∈ s, A t.name t.pipelineTask) : KeptState A s s :=
  ⟨id, by simp, Kept.refl, hA⟩

variable (h : KeptState A s s')
include h

theorem names_eq : s'.map (·.name) = s.map (·.name) := by
  obtain ⟨h, rfl, hkept, -⟩ := h
  rw [map_map]
  exact map_congr_left fun t _ => (hkept t).name_eq

theorem task? {n : String} {t' : ResolvedPipelineTask}
    (ht : s'.task? n = some t') : ∃ t, s.task? n = some t ∧ Kept t t' ∧ A n t'.pipelineTask := by
  obtain ⟨h, rfl, hkept, hA⟩ := h
  rw [PipelineRunState.task?_map fun t => (hkept t).name_eq, Option.map_eq_some_iff] at ht
  obtain ⟨t, ht, rfl⟩ := ht
  obtain ⟨hmem, hname⟩ := PipelineRunState.mem_of_task? ht
  exact ⟨t, ht, hkept t, hname ▸ hA t hmem⟩

theorem isSome_task? (n : String) : (s'.task? n).isSome = (s.task? n).isSome := by
  obtain ⟨h, rfl, hkept, -⟩ := h
  rw [PipelineRunState.task?_map fun t => (hkept t).name_eq, Option.isSome_map]

theorem write {n : String} {pt : PipelineTask}
    (hpt : ∀ t' ∈ s', t'.name = n → SameTask t'.pipelineTask pt) (hA : A n pt) :
    KeptState A s (s'.update n fun t => { t with pipelineTask := pt }) := by
  obtain ⟨h, rfl, hkept, hforms⟩ := h
  refine ⟨fun t => if t ∈ s ∧ (h t).name = n then { h t with pipelineTask := pt } else h t,
    ?_, fun t => ?_, fun t ht => ?_⟩
  · rw [PipelineRunState.update, map_map]
    refine map_congr_left fun t ht => ?_
    simp [ht]
  · dsimp only
    split
    · rename_i hcase
      exact (hkept t).write (hpt (h t) (mem_map.mpr ⟨t, hcase.1, rfl⟩) hcase.2)
    · exact hkept t
  · dsimp only
    split
    · rename_i hcase
      rw [← (hkept t).name_eq, hcase.2]
      exact hA
    · exact hforms t ht

theorem cache (hnodup : (s.map (·.name)).Nodup) {n : String}
    {t : ResolvedPipelineTask} (ht : s.task? n = some t) (hcustom : t.customTask = false)
    (hmatrix : t.pipelineTask.isMatrixed = true) :
    KeptState A s (s'.update n ResolvedPipelineTask.cacheResults) := by
  obtain ⟨h, rfl, hkept, hforms⟩ := h
  obtain ⟨hmem, hname⟩ := PipelineRunState.mem_of_task? ht
  refine ⟨fun u => if u = t then (h u).cacheResults else h u, ?_, fun u => ?_, fun u hu => ?_⟩
  · rw [PipelineRunState.update, map_map]
    refine map_congr_left fun u hu => ?_
    have hiff : (h u).name = n ↔ u = t := by
      rw [(hkept u).name_eq, ← hname]
      exact ⟨PipelineRunState.eq_of_name hnodup hu hmem, fun heq => heq ▸ rfl⟩
    simp [hiff]
  · dsimp only
    split
    · rename_i heq
      subst heq
      exact (hkept u).cache hcustom hmatrix
    · exact hkept u
  · dsimp only
    split
    · rw [(h u).cacheResults_fields.1]
      exact hforms u hu
    · exact hforms u hu

end KeptState

theorem Kept.findResult_eq {t t' : ResolvedPipelineTask} (h : Kept t t') (ref : ResultRef)
    (hplain : t.customTask = true ∨ t.pipelineTask.isMatrixed = false) :
    findResult t'.runs ref = findResult t.runs ref := by
  rcases h.rest with hrest | ⟨⟨hcustom, hmatrix⟩, -⟩
  · rw [hrest]
    rfl
  · rcases hplain with hplain | hplain
    · rw [hcustom] at hplain
      cases hplain
    · rw [hmatrix] at hplain
      cases hplain

theorem Kept.cacheResults_eq {t t' : ResolvedPipelineTask} (h : Kept t t') :
    t'.cacheResults.resultsCache = t.cacheResults.resultsCache ∧
      t'.cacheResults.taskRuns = t.cacheResults.taskRuns := by
  rcases h.rest with hrest | ⟨-, hrest⟩
  · rw [hrest, ResolvedPipelineTask.cacheResults_withTask]
    exact ⟨rfl, rfl⟩
  · rw [hrest, ResolvedPipelineTask.cacheResults_withTask, ResolvedPipelineTask.cacheResults_idem]
    exact ⟨rfl, rfl⟩

section
variable {A : String → PipelineTask → Prop} {s s' : PipelineRunState} (h : KeptState A s s')
  (hnodup : (s.map (·.name)).Nodup)
include h hnodup

theorem KeptState.resolveRef (ref : ResultRef) :
    KeptState A s (resolveRef s' ref).1 ∧ (resolveRef s' ref).2 = (resolveRef s ref).2 := by
  unfold Pipeline.resolveRef
  cases ht' : s'.task? ref.pipelineTask with
  | none =>
    have hnone := h.isSome_task? ref.pipelineTask
    rw [ht'] at hnone
    cases ht : s.task? ref.pipelineTask with
    | none => exact ⟨h, rfl⟩
    | some t => simp [ht] at hnone
  | some t' =>
    obtain ⟨t, ht, hkept, -⟩ := h.task? ht'
    simp only [ht, hkept.isSuccessful_eq, hkept.isFailure_eq, hkept.name_eq, hkept.fields.1,
      hkept.task.matrixed]
    by_cases hfinished : (!t.isSuccessful && !t.isFailure) = true
    · simp only [hfinished, if_true]
      exact ⟨h, trivial⟩
    · rw [if_neg hfinished, if_neg hfinished]
      by_cases hmatrix : (!t.customTask && t.pipelineTask.isMatrixed) = true
      · rw [if_pos hmatrix, if_pos hmatrix]
        rw [Bool.and_eq_true, Bool.not_eq_true'] at hmatrix
        refine ⟨h.cache hnodup ht hmatrix.1 hmatrix.2, ?_⟩
        obtain ⟨hcache, hruns⟩ := hkept.cacheResults_eq
        simp only [findResultValuesForMatrix, hcache, hruns]
      · rw [if_neg hmatrix, if_neg hmatrix]
        refine ⟨h, ?_⟩
        dsimp only
        rw [hkept.findResult_eq ref]
        cases hc : t.customTask with
        | true => exact .inl rfl
        | false => exact .inr (by simpa [hc] using hmatrix)

theorem KeptState.resolveRefs (refs : List ResultRef) {s'' : PipelineRunState}
    (h' : KeptState A s s'') : KeptState A s (resolveRefs s' refs).1 ∧
      (resolveRefs s' refs).2 = (Pipeline.resolveRefs s'' refs).2 := by
  induction refs generalizing s' s'' with
  | nil => exact ⟨h, rfl⟩
  | cons ref refs ih =>
    obtain ⟨hkept, heq⟩ := h.resolveRef hnodup ref
    obtain ⟨hkept', heq'⟩ := h'.resolveRef hnodup ref
    rw [← heq'] at heq
    unfold Pipeline.resolveRefs
    rcases hr : Pipeline.resolveRef s' ref with ⟨s₁, r₁⟩
    rcases hr' : Pipeline.resolveRef s'' ref with ⟨s₂, r₂⟩
    rw [hr] at hkept heq
    rw [hr'] at hkept' heq
    obtain rfl : r₁ = r₂ := heq
    cases r₁ with
    | error e => exact ⟨hkept, rfl⟩
    | ok resolved =>
      obtain ⟨hk, he⟩ := ih hkept hkept'
      dsimp only at hk he ⊢
      rcases hrs : Pipeline.resolveRefs s₁ refs with ⟨s₃, r₃⟩
      rcases hrs' : Pipeline.resolveRefs s₂ refs with ⟨s₄, r₄⟩
      rw [hrs] at hk he
      rw [hrs'] at he
      obtain rfl : r₃ = r₄ := he
      cases r₃ with
      | error e => exact ⟨hk, rfl⟩
      | ok rest => exact ⟨hk, rfl⟩

end

end TektonPipeline.Pipeline
