import TektonPipeline.Conversion.Trip

/-! The conversions of the API types, each with the condition under which a trip from v1 to
v1beta1 and back leaves what is outside its task specs as it was. -/

namespace TektonPipeline.Conversion
open V1Beta1

variable {α τ : Type}

def taskSpec (c : Codec α τ) (name : String) : Trip c (V1.TaskSpec α) (TaskSpec α) where
  convertTo ts := ts.convertTo c name
  convertFrom ts := TaskSpec.convertFrom c ts name
  toV1 := TaskSpec.toV1
  embedded ts := [(name, ts)]
  embedded' ts := [(name, ts)]
  Plain _ := True
  embedded_toV1 _ := rfl
  parks ts := by
    have h : Follows.Follows (shelf c) otherAnnotations (ts.convertTo c name)
        (fun s => (Shelf.put name (retrieveTaskDeprecation ts) s).map ((), ·))
        fun _ b => b = ts.toV1 :=
      (follows_serializeTaskDeprecations c ts name).map fun _ _ _ => rfl
    refine h.congr fun s => ?_
    rw [Shelf.putAll]
    cases Shelf.put name (retrieveTaskDeprecation ts) s <;> rfl
  restores ts := by
    have h : Follows.Follows (shelf c) otherAnnotations (TaskSpec.convertFrom c ts name)
        (fun s => (Shelf.take name s).bind fun r =>
          (restoreWith r.1 (TaskSpec.stepsFrom ts)).map (·, r.2))
        fun b q => q = TaskSpec.fieldsFrom ts b :=
      (follows_deserializeTaskDeprecations c _ name).map fun _ _ h => by rw [h]
    have hreached : ∀ q : TaskSpec α, Reached TaskSpec.toV1 (fun ts => [(name, ts)])
        (fun ts => [(name, ts)]) (fun _ => True) ts [q] q :=
      fun q => { names := rfl, specs := rfl, back := by simp }
    refine Follows.Follows.congr (Follows.Follows.relabel
      (g := fun b => [TaskSpec.fieldsFrom ts b]) (h.weaken fun _ _ h => h ▸ hreached _)) ?_
    intro s
    rw [Shelf.takeAll]
    cases Shelf.take name s with
    | none => rfl
    | some r =>
      simp only [Option.bind_some, restored]
      cases restoreWith r.1 (TaskSpec.stepsFrom ts) <;> rfl

def embeddedTask (c : Codec α τ) (name : String) : Trip c (V1.EmbeddedTask α) (EmbeddedTask α) :=
  .along (fun _ : Unit => taskSpec c name) (fun _ => ()) (fun _ => ()) (·.taskSpec) (·.taskSpec)
    (fun et ts => { typeMeta := et.typeMeta, spec := et.spec, metadata := et.metadata,
                    taskSpec := ts })
    (fun et ts => { typeMeta := et.typeMeta, spec := et.spec, metadata := et.metadata,
                    taskSpec := ts })
    (fun _ => True) (fun _ _ => rfl) (fun _ _ => rfl) (fun _ _ => rfl) (fun _ _ => rfl)
    (by rintro ⟨typeMeta, spec, metadata, taskSpec⟩ q; simp)

/-- No pipeline in the task, nothing but a whole matrix, and every parameter with a type. -/
def V1.PipelineTask.Plain (pt : V1.PipelineTask α) : Prop :=
  pt.pipelineRef = none ∧ pt.pipelineSpec = none ∧ (∀ m ∈ pt.matrix, m.Whole) ∧
    (∀ r ∈ pt.taskRef, r.resolverRef.Typed) ∧ ∀ p ∈ pt.params, p.Typed

theorem matrix_convertTo_convertFrom_iff (m : Option Matrix) :
    (let m' := if isMatrixed m then m.map Matrix.convertFrom else none
      if isMatrixed m' then m'.map Matrix.convertTo else none) = m ↔ ∀ x ∈ m, x.Whole := by
  cases m with
  | none => simp [isMatrixed]
  | some m =>
    by_cases h : (m.hasParams || m.hasInclude) = true
    · have hm : isMatrixed (some m) = true := h
      have hm' : isMatrixed (some m.convertFrom) = true := by simpa [isMatrixed] using h
      simp only [hm, hm', if_true, Option.map_some, Option.some.injEq, Option.mem_def,
        forall_eq', Matrix.convertTo_convertFrom_iff, Matrix.Whole, h, true_and]
    · have hm : isMatrixed (some m) = false := Bool.eq_false_iff.mpr h
      simp only [hm, Bool.false_eq_true, if_false, Option.mem_def, Option.some.injEq,
        forall_eq', Matrix.Whole, h, false_and]
      simp [isMatrixed]

theorem PipelineTask.fieldsTo_fieldsFrom_iff (pt : V1.PipelineTask α)
    (q : Option (EmbeddedTask α)) (x : Option (V1.EmbeddedTask α)) :
    (PipelineTask.fieldsFrom pt q).fieldsTo x = pt ↔ pt.Plain ∧ x = pt.taskSpec := by
  obtain ⟨name, displayName, description, taskRef, taskSpec, when, retries, runAfter, params,
    matrix, workspaces, timeout, pipelineRef, pipelineSpec, onError⟩ := pt
  have hworkspaces : (workspaces.map WorkspacePipelineTaskBinding.convertFrom).map
      WorkspacePipelineTaskBinding.convertTo = workspaces :=
    map_map_eq_self (fun _ => rfl) _
  have hmatrix := matrix_convertTo_convertFrom_iff matrix
  simp only [PipelineTask.fieldsFrom, PipelineTask.fieldsTo, V1.PipelineTask.mk.injEq,
    V1.PipelineTask.Plain, hworkspaces, map_whenExpression, map_param_iff,
    option_map_map_eq_self_iff TaskRef.convertTo_convertFrom_iff, hmatrix]
  grind

def pipelineTask (c : Codec α τ) : Trip c (V1.PipelineTask α) (PipelineTask α) :=
  .along (fun name => (embeddedTask c name).option) (·.name) (·.name) (·.taskSpec) (·.taskSpec)
    PipelineTask.fieldsTo PipelineTask.fieldsFrom V1.PipelineTask.Plain (fun _ _ => rfl)
    (fun _ _ => rfl) (fun _ _ => rfl) (fun _ _ => rfl)
    (fun p q => PipelineTask.fieldsTo_fieldsFrom_iff p q _)

def V1.PipelineSpec.Plain (ps : V1.PipelineSpec α) : Prop :=
  (∀ p ∈ ps.params, p.Typed) ∧ ∀ r ∈ ps.results, r.value.Typed

theorem PipelineSpec.fieldsTo_fieldsFrom_iff (ps : V1.PipelineSpec α)
    (q q' : List (PipelineTask α)) (x x' : List (V1.PipelineTask α)) :
    (PipelineSpec.fieldsFrom ps q q').fieldsTo x x' = ps ↔
      ps.Plain ∧ (x, x') = (ps.tasks, ps.finallyTasks) := by
  obtain ⟨displayName, description, tasks, params, workspaces, results, finallyTasks⟩ := ps
  have hworkspaces : (workspaces.map PipelineWorkspaceDeclaration.convertFrom).map
      PipelineWorkspaceDeclaration.convertTo = workspaces :=
    map_map_eq_self (fun _ => rfl) _
  simp only [PipelineSpec.fieldsFrom, PipelineSpec.fieldsTo, V1.PipelineSpec.mk.injEq,
    V1.PipelineSpec.Plain, hworkspaces, Prod.mk.injEq,
    map_map_eq_self_iff ParamSpec.convertTo_convertFrom_iff,
    map_map_eq_self_iff PipelineResult.convertTo_convertFrom_iff]
  grind

def pipelineSpec (c : Codec α τ) : Trip c (V1.PipelineSpec α) (PipelineSpec α) where
  convertTo := PipelineSpec.convertTo c
  convertFrom := PipelineSpec.convertFrom c
  toV1 := PipelineSpec.toV1
  embedded ps := ((pipelineTask c).list.pair (pipelineTask c).list).embedded
    (ps.tasks, ps.finallyTasks)
  embedded' ps := ((pipelineTask c).list.pair (pipelineTask c).list).embedded'
    (ps.tasks, ps.finallyTasks)
  Plain ps := ps.Plain ∧ ((pipelineTask c).list.pair (pipelineTask c).list).Plain
    (ps.tasks, ps.finallyTasks)
  embedded_toV1 ps := ((pipelineTask c).list.pair (pipelineTask c).list).embedded_toV1
    (ps.tasks, ps.finallyTasks)
  parks ps := ((pipelineTask c).list.parks ps.tasks).bind
    (((pipelineTask c).list.parks ps.finallyTasks).map _)
  restores ps := ((pipelineTask c).list.restores ps.tasks).bind fun ts specs₁ hts =>
    ((pipelineTask c).list.restores ps.finallyTasks).map fun fs specs₂ hfs =>
      { names := (hts.pair hfs).names
        specs := (hts.pair hfs).specs
        back := by
          refine (PipelineSpec.fieldsTo_fieldsFrom_iff ps ts fs _ _).trans ?_
          rw [and_assoc]
          exact and_congr_right fun _ => (hts.pair hfs).back }

/-- Every parameter has a type, and no metadata for a task's runs whose annotations differ from
its labels. -/
def V1.PipelineRunSpec.Plain (prs : V1.PipelineRunSpec α) : Prop :=
  (∀ r ∈ prs.pipelineRef, r.resolverRef.Typed) ∧ (∀ p ∈ prs.params, p.Typed) ∧
    ∀ s ∈ prs.taskRunSpecs, ∀ m ∈ s.metadata, m.annotations = m.labels

theorem map_workspaceBinding (l : List (WorkspaceBinding α)) :
    (l.map WorkspaceBinding.convertFrom).map WorkspaceBinding.convertTo = l :=
  map_map_eq_self (fun _ => rfl) l

theorem PipelineRunSpec.fieldsTo_fieldsFrom_iff (prs : V1.PipelineRunSpec α)
    (q : Option (PipelineSpec α)) (x : Option (V1.PipelineSpec α)) :
    (PipelineRunSpec.fieldsFrom prs q).fieldsTo x = prs ↔ prs.Plain ∧ x = prs.pipelineSpec := by
  obtain ⟨pipelineRef, pipelineSpec, params, status, timeouts, taskRunTemplate, workspaces,
    taskRunSpecs⟩ := prs
  have htimeouts : (timeouts.map TimeoutFields.convertFrom).map TimeoutFields.convertTo =
      timeouts :=
    option_map_map_eq_self (fun _ => rfl) _
  simp only [PipelineRunSpec.fieldsFrom, PipelineRunSpec.fieldsTo,
    V1.PipelineRunSpec.mk.injEq, V1.PipelineRunSpec.Plain, htimeouts, map_workspaceBinding,
    map_param_iff, option_map_map_eq_self_iff PipelineRef.convertTo_convertFrom_iff,
    map_map_eq_self_iff PipelineTaskRunSpec.convertTo_convertFrom_iff]
  grind

def pipelineRunSpec (c : Codec α τ) : Trip c (V1.PipelineRunSpec α) (PipelineRunSpec α) :=
  .along (fun _ : Unit => (pipelineSpec c).option) (fun _ => ()) (fun _ => ())
    (·.pipelineSpec) (·.pipelineSpec) PipelineRunSpec.fieldsTo PipelineRunSpec.fieldsFrom
    V1.PipelineRunSpec.Plain (fun _ _ => rfl) (fun _ _ => rfl) (fun _ _ => rfl)
    (fun _ _ => rfl) (fun p q => PipelineRunSpec.fieldsTo_fieldsFrom_iff p q _)

def V1.TaskRunSpec.Plain (trs : V1.TaskRunSpec α) : Prop :=
  (∀ p ∈ trs.params, p.Typed) ∧ ∀ r ∈ trs.taskRef, r.resolverRef.Typed

theorem TaskRunDebug.convertTo_convertFrom (d : TaskRunDebug) : d.convertFrom.convertTo = d := by
  obtain ⟨breakpoints⟩ := d
  cases breakpoints with
  | none => rfl
  | some b =>
    obtain ⟨onFailure, beforeSteps⟩ := b
    cases beforeSteps <;>
      simp [convertFrom, convertTo, TaskBreakpoints.convertFrom, TaskBreakpoints.convertTo]

theorem TaskRunSpec.fieldsTo_fieldsFrom_iff (trs : V1.TaskRunSpec α)
    (q : Option (TaskSpec α)) (x : Option (V1.TaskSpec α)) :
    (TaskRunSpec.fieldsFrom trs q).fieldsTo x = trs ↔ trs.Plain ∧ x = trs.taskSpec := by
  obtain ⟨debug, params, serviceAccountName, taskRef, taskSpec, status, statusMessage, retries,
    timeout, podTemplate, workspaces, stepSpecs, sidecarSpecs, computeResources⟩ := trs
  have hdebug : (debug.map TaskRunDebug.convertFrom).map TaskRunDebug.convertTo = debug :=
    option_map_map_eq_self TaskRunDebug.convertTo_convertFrom _
  simp only [TaskRunSpec.fieldsFrom, TaskRunSpec.fieldsTo, V1.TaskRunSpec.mk.injEq,
    V1.TaskRunSpec.Plain, hdebug, map_taskRunStepOverride, map_taskRunSidecarOverride,
    map_workspaceBinding, map_param_iff,
    option_map_map_eq_self_iff TaskRef.convertTo_convertFrom_iff]
  grind

def taskRunSpec (c : Codec α τ) (name : String) : Trip c (V1.TaskRunSpec α) (TaskRunSpec α) :=
  .along (fun _ : Unit => (taskSpec c name).option) (fun _ => ()) (fun _ => ())
    (·.taskSpec) (·.taskSpec) TaskRunSpec.fieldsTo TaskRunSpec.fieldsFrom
    V1.TaskRunSpec.Plain (fun _ _ => rfl) (fun _ _ => rfl) (fun _ _ => rfl)
    (fun _ _ => rfl) (fun p q => TaskRunSpec.fieldsTo_fieldsFrom_iff p q _)

end TektonPipeline.Conversion
