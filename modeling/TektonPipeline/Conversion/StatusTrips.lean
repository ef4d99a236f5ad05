import TektonPipeline.Conversion.ApiTrips

/-! The conversions of the statuses. -/

namespace TektonPipeline.Conversion
open V1Beta1

variable {α τ : Type}

theorem Artifact.convertTo_convertFrom_iff (a : Artifact) :
    a.convertFrom.convertTo = a ↔ a.buildOutput = false := by
  obtain ⟨name, values, buildOutput⟩ := a
  have hvalues : (values.map ArtifactValue.convertFrom).map ArtifactValue.convertTo = values :=
    map_map_eq_self (fun v => by simp [ArtifactValue.convertFrom, ArtifactValue.convertTo]) _
  simp [convertFrom, convertTo, mk.injEq, hvalues, eq_comm]

theorem TaskRunResult.convertTo_convertFrom_iff (r : TaskRunResult) :
    r.convertFrom.convertTo = r ↔ r.value.Typed := by
  obtain ⟨name, type, value⟩ := r
  simp [convertFrom, convertTo, ParamValue.convertTo_convertFrom_iff]

theorem PipelineRunResult.convertTo_convertFrom_iff (r : PipelineRunResult) :
    r.convertFrom.convertTo = r ↔ r.value.Typed := by
  obtain ⟨name, value⟩ := r
  simp [convertFrom, convertTo, ParamValue.convertTo_convertFrom_iff]

theorem SkippedTask.convertTo_convertFrom (t : SkippedTask) : t.convertFrom.convertTo = t := by
  simp only [convertFrom, convertTo, map_whenExpression]

theorem ChildStatusReference.convertTo_convertFrom (r : ChildStatusReference) :
    r.convertFrom.convertTo = r := by
  simp only [convertFrom, convertTo, map_whenExpression]

theorem Provenance.convertTo_convertFrom (p : V1.Provenance α) :
    (Provenance.convertFrom p).convertTo = p := by
  obtain ⟨refSource, featureFlags⟩ := p
  have hsource : (refSource.map RefSource.convertFrom).map RefSource.convertTo = refSource :=
    option_map_map_eq_self (fun _ => rfl) _
  simp only [Provenance.convertFrom, Provenance.convertTo, hsource]

theorem option_map_provenance (p : Option (V1.Provenance α)) :
    (p.map Provenance.convertFrom).map Provenance.convertTo = p :=
  option_map_map_eq_self Provenance.convertTo_convertFrom p

/-- The termination reason is the container's, nothing is marked as a build output, and every
result has a type. -/
def V1.StepState.Plain (ss : V1.StepState α) : Prop :=
  ss.terminationReason = (ss.containerState.terminated.map (·.reason)).getD "" ∧
    (∀ a ∈ ss.inputs, a.buildOutput = false) ∧ (∀ a ∈ ss.outputs, a.buildOutput = false) ∧
    ∀ r ∈ ss.results, r.value.Typed

theorem StepState.convertTo_convertFrom_iff (ss : V1.StepState α) :
    (StepState.convertFrom ss).convertTo = ss ↔ ss.Plain := by
  obtain ⟨containerState, name, container, imageID, results, provenance, terminationReason,
    inputs, outputs⟩ := ss
  simp only [StepState.convertFrom, StepState.convertTo, V1.StepState.mk.injEq, V1.StepState.Plain,
    option_map_provenance, map_map_eq_self_iff Artifact.convertTo_convertFrom_iff,
    map_map_eq_self_iff TaskRunResult.convertTo_convertFrom_iff]
  grind

/-- Every result has a type, and there is no span context. -/
def V1.PipelineRunStatus.Plain (prs : V1.PipelineRunStatus α) : Prop :=
  (∀ r ∈ prs.results, r.value.Typed) ∧ prs.spanContext = []

theorem PipelineRunStatus.fieldsTo_fieldsFrom_iff (prs : V1.PipelineRunStatus α)
    (q : Option (PipelineSpec α)) (x : Option (V1.PipelineSpec α)) :
    (PipelineRunStatus.fieldsFrom prs q).fieldsTo x = prs ↔ prs.Plain ∧ x = prs.pipelineSpec := by
  obtain ⟨status, startTime, completionTime, results, pipelineSpec, skippedTasks,
    childReferences, finallyStartTime, provenance, spanContext⟩ := prs
  have hskipped : (skippedTasks.map SkippedTask.convertFrom).map SkippedTask.convertTo =
      skippedTasks := map_map_eq_self SkippedTask.convertTo_convertFrom _
  have hchildren : (childReferences.map ChildStatusReference.convertFrom).map
      ChildStatusReference.convertTo = childReferences :=
    map_map_eq_self ChildStatusReference.convertTo_convertFrom _
  simp only [PipelineRunStatus.fieldsFrom, PipelineRunStatus.fieldsTo,
    V1.PipelineRunStatus.mk.injEq, V1.PipelineRunStatus.Plain, hskipped, hchildren,
    option_map_provenance, map_map_eq_self_iff PipelineRunResult.convertTo_convertFrom_iff]
  grind

def pipelineRunStatus (c : Codec α τ) : Trip c (V1.PipelineRunStatus α) (PipelineRunStatus α) :=
  .along (fun _ : Unit => (pipelineSpec c).option) (fun _ => ()) (fun _ => ())
    (·.pipelineSpec) (·.pipelineSpec) PipelineRunStatus.fieldsTo PipelineRunStatus.fieldsFrom
    V1.PipelineRunStatus.Plain (fun _ _ => rfl) (fun _ _ => rfl) (fun _ _ => rfl)
    (fun _ _ => rfl) (fun p q => PipelineRunStatus.fieldsTo_fieldsFrom_iff p q _)

/-- The steps are plain, every result has a type, and there are no artifacts and no span
context. -/
def V1.TaskRunStatus.Plain (trs : V1.TaskRunStatus α) : Prop :=
  (∀ s ∈ trs.steps, s.Plain) ∧ (∀ r ∈ trs.results, r.value.Typed) ∧ trs.artifacts = none ∧
    trs.spanContext = []

theorem TaskRunStatus.fieldsTo_fieldsFrom_iff (trs : V1.TaskRunStatus α)
    (rs : List (TaskRunStatus α)) (q : Option (TaskSpec α)) (xs : List (V1.TaskRunStatus α))
    (x : Option (V1.TaskSpec α)) : (TaskRunStatus.fieldsFrom trs rs q).fieldsTo xs x = trs ↔
      trs.Plain ∧ (xs, x) = (trs.retriesStatus, trs.taskSpec) := by
  obtain ⟨status, podName, startTime, completionTime, steps, retriesStatus, results, artifacts,
    sidecars, taskSpec, provenance, spanContext⟩ := trs
  have hsidecars : (sidecars.map SidecarState.convertFrom).map SidecarState.convertTo =
      sidecars := map_map_eq_self (fun _ => rfl) _
  simp only [TaskRunStatus.fieldsFrom, TaskRunStatus.fieldsTo, V1.TaskRunStatus.mk.injEq,
    V1.TaskRunStatus.Plain, hsidecars, option_map_provenance, Prod.mk.injEq,
    map_map_eq_self_iff StepState.convertTo_convertFrom_iff,
    map_map_eq_self_iff TaskRunResult.convertTo_convertFrom_iff]
  grind

/-! The task specs of a TaskRun's status, those of its retries first. -/

mutual
def V1.TaskRunStatus.embedded (name : String) :
    V1.TaskRunStatus α → List (String × V1.TaskSpec α)
  | { retriesStatus, taskSpec, .. } =>
    V1.retriesEmbedded name retriesStatus ++ taskSpec.elim [] fun ts => [(name, ts)]

def V1.retriesEmbedded (name : String) :
    List (V1.TaskRunStatus α) → List (String × V1.TaskSpec α)
  | [] => []
  | rr :: retries => rr.embedded name ++ V1.retriesEmbedded name retries
end

mutual
def V1Beta1.TaskRunStatus.embedded (name : String) :
    TaskRunStatus α → List (String × TaskSpec α)
  | { retriesStatus, taskSpec, .. } =>
    V1Beta1.retriesEmbedded name retriesStatus ++ taskSpec.elim [] fun ts => [(name, ts)]

def V1Beta1.retriesEmbedded (name : String) :
    List (TaskRunStatus α) → List (String × TaskSpec α)
  | [] => []
  | rr :: retries => rr.embedded name ++ V1Beta1.retriesEmbedded name retries
end

mutual
def V1.TaskRunStatus.AllPlain : V1.TaskRunStatus α → Prop
  | trs@{ retriesStatus, .. } => trs.Plain ∧ V1.retriesAllPlain retriesStatus

def V1.retriesAllPlain : List (V1.TaskRunStatus α) → Prop
  | [] => True
  | rr :: retries => rr.AllPlain ∧ V1.retriesAllPlain retries
end

mutual
theorem embedded_taskRunStatus_toV1 (name : String) : ∀ trs : TaskRunStatus α,
    trs.toV1.embedded name = (trs.embedded name).map fun e => (e.1, e.2.toV1)
  | { retriesStatus, taskSpec, .. } => by
    rw [TaskRunStatus.toV1, V1Beta1.TaskRunStatus.embedded, List.map_append,
      ← embedded_retries_toV1 name retriesStatus]
    cases taskSpec <;> rfl

theorem embedded_retries_toV1 (name : String) : ∀ retries : List (TaskRunStatus α),
    V1.retriesEmbedded name (retriesToV1 retries) =
      (V1Beta1.retriesEmbedded name retries).map fun e => (e.1, e.2.toV1)
  | [] => rfl
  | rr :: retries => by
    rw [retriesToV1, V1.retriesEmbedded, V1Beta1.retriesEmbedded, List.map_append,
      embedded_taskRunStatus_toV1 name rr, embedded_retries_toV1 name retries]
end

mutual
theorem parks_taskRunStatus (c : Codec α τ) (name : String) : ∀ trs : TaskRunStatus α,
    Parks c (trs.convertTo c name) trs.toV1 (trs.embedded name)
  | { retriesStatus, taskSpec := ts, .. } =>
    (parks_retries c name retriesStatus).bind (((taskSpec c name).option.parks ts).map _)

theorem parks_retries (c : Codec α τ) (name : String) : ∀ retries : List (TaskRunStatus α),
    Parks c (retriesConvertTo c name retries) (retriesToV1 retries)
      (V1Beta1.retriesEmbedded name retries)
  | [] => .pure []
  | rr :: retries =>
    (parks_taskRunStatus c name rr).bind ((parks_retries c name retries).map _)
end

mutual
theorem restores_taskRunStatus (c : Codec α τ) (name : String) : ∀ trs : V1.TaskRunStatus α,
    Restores c (TaskRunStatus.convertFrom c name trs) (trs.embedded name)
      (Reached TaskRunStatus.toV1 (V1.TaskRunStatus.embedded name)
        (V1Beta1.TaskRunStatus.embedded name) V1.TaskRunStatus.AllPlain trs)
  | { retriesStatus, taskSpec := ts, .. } =>
    (restores_retries c name retriesStatus).bind fun rs specs₁ hrs =>
      ((taskSpec c name).option.restores ts).map fun q specs₂ hq =>
        { names := (hrs.pair hq).names
          specs := (hrs.pair hq).specs
          back := by
            refine (TaskRunStatus.fieldsTo_fieldsFrom_iff _ rs q _ _).trans
              ((and_congr_right fun _ => (hrs.pair hq).back).trans ⟨?_, ?_⟩)
            · rintro ⟨hplain, ⟨hretries, -⟩, hsame⟩
              exact ⟨⟨hplain, hretries⟩, hsame⟩
            · rintro ⟨⟨hplain, hretries⟩, hsame⟩
              exact ⟨hplain, ⟨hretries, fun _ _ => trivial⟩, hsame⟩ }

theorem restores_retries (c : Codec α τ) (name : String) :
    ∀ retries : List (V1.TaskRunStatus α),
    Restores c (retriesConvertFrom c name retries) (V1.retriesEmbedded name retries)
      (Reached retriesToV1 (V1.retriesEmbedded name) (V1Beta1.retriesEmbedded name)
        V1.retriesAllPlain retries)
  | [] => .pure
    { names := rfl
      specs := rfl
      back := by
        simp [retriesToV1, V1.retriesAllPlain, V1Beta1.retriesEmbedded, V1.retriesEmbedded] }
  | rr :: retries =>
    (restores_taskRunStatus c name rr).bind fun q specs₁ hq =>
      (restores_retries c name retries).map fun rs specs₂ hrs =>
        { names := (hq.pair hrs).names
          specs := (hq.pair hrs).specs
          back := by
            refine Iff.trans ?_ (hq.pair hrs).back
            rw [retriesToV1, List.cons.injEq, Prod.mk.injEq] }
end

def taskRunStatus (c : Codec α τ) (name : String) :
    Trip c (V1.TaskRunStatus α) (TaskRunStatus α) where
  convertTo := TaskRunStatus.convertTo c name
  convertFrom := TaskRunStatus.convertFrom c name
  toV1 := TaskRunStatus.toV1
  embedded := V1.TaskRunStatus.embedded name
  embedded' := V1Beta1.TaskRunStatus.embedded name
  Plain := V1.TaskRunStatus.AllPlain
  embedded_toV1 := embedded_taskRunStatus_toV1 name
  parks := parks_taskRunStatus c name
  restores := restores_taskRunStatus c name

end TektonPipeline.Conversion
