import TektonPipeline.Pipeline.Steady

/-! What the finally tasks are told about the tasks of the graph as a whole. -/

namespace TektonPipeline.Pipeline
open Api Stateful List

namespace PipelineRunFacts
variable (f : PipelineRunFacts)

def dagTasks : List ResolvedPipelineTask := f.state.filter fun t => f.isDAGTask t.name

def IsDone (n : String) : Prop := ∃ g, isDone skip n f = some (true, g)

def IsSkipped (n : String) : Prop := ∃ r g, skip true n f = some (r, g) ∧ r.isSkipped = true

def HasFailed (t : ResolvedPipelineTask) : Prop :=
  t.haveAnyRunsFailed = true ∨ t.name ∈ f.validationFailedTask

/-- What `$(tasks.status)` is to say. -/
structure TellsTruth (status : String) : Prop where
  none : (∃ t ∈ f.dagTasks, ¬ f.IsDone t.name) → status = "None"
  failed : (∀ t ∈ f.dagTasks, f.IsDone t.name) → (∃ t ∈ f.dagTasks, f.HasFailed t) →
    status = "Failed"
  completed : (∀ t ∈ f.dagTasks, f.IsDone t.name) → (∀ t ∈ f.dagTasks, ¬ f.HasFailed t) →
    (∃ t ∈ f.dagTasks, f.IsSkipped t.name) → status = "Completed"
  succeeded : (∀ t ∈ f.dagTasks, f.IsDone t.name) → (∀ t ∈ f.dagTasks, ¬ f.HasFailed t) →
    (∀ t ∈ f.dagTasks, ¬ f.IsSkipped t.name) → status = "Succeeded"
  haveRun : status = "Succeeded" → ∀ t ∈ f.dagTasks,
    t.runs ≠ [] ∧ ∀ r ∈ t.runs, r.isSuccessful = true

def TruthfulStatus : Prop :=
  ∃ statuses g status, getPipelineTaskStatus f = some (statuses, g) ∧
    statuses.lookup "tasks.status" = some status ∧ f.TellsTruth status

/-- The value of `$(tasks.status)`. -/
def tasksStatus : String :=
  if f.allDone then f.aggregate "Succeeded" (f.names.filter fun n => f.isDAGTask n) else "None"

end PipelineRunFacts

section
variable {f : PipelineRunFacts} {t : ResolvedPipelineTask}

theorem mem_dagTasks : t ∈ f.dagTasks ↔ t ∈ f.state ∧ f.isDAGTask t.name = true := by
  simp [PipelineRunFacts.dagTasks]

theorem any_dagNames (p : String → Bool) :
    ((f.names.filter fun n => f.isDAGTask n).any p) = true ↔ ∃ t ∈ f.dagTasks, p t.name = true := by
  rw [any_eq_true]
  constructor
  · rintro ⟨n, hn, hp⟩
    obtain ⟨hname, hdag⟩ := mem_filter.mp hn
    obtain ⟨t, ht, rfl⟩ := mem_map.mp hname
    exact ⟨t, mem_dagTasks.mpr ⟨ht, hdag⟩, hp⟩
  · rintro ⟨t, ht, hp⟩
    obtain ⟨hmem, hdag⟩ := mem_dagTasks.mp ht
    exact ⟨t.name, mem_filter.mpr ⟨mem_map_of_mem hmem, hdag⟩, hp⟩

theorem successful_iff : t.isSuccessful = true ↔
    t.runs ≠ [] ∧ ∀ r ∈ t.runs, r.isSuccessful = true := by
  simp [ResolvedPipelineTask.isSuccessful]

section
variable (hf : Steady f)
include hf

theorem Steady.tasksStatus : ∃ statuses g, Pipeline.getPipelineTaskStatus f = some (statuses, g) ∧
      statuses.lookup "tasks.status" = some f.tasksStatus := by
  have hrun : Keeps true (Evolved f (ownForm f) (ownReason f)) Pipeline.getPipelineTaskStatus
      (·.lookup "tasks.status" = some f.tasksStatus) := by
    refine .get_bind fun g hg => ?_
    have hdag : g.isDAGTask = f.isDAGTask := funext hg.isDAGTask_eq
    rw [hg.names_eq, hdag]
    refine Keeps.bind hf.returns_checkDAGTasksDone fun done hdone => ?_
    subst hdone
    unfold PipelineRunFacts.tasksStatus
    cases f.allDone with
    | true =>
      refine Keeps.bind (hf.returns_aggregateStatus "Succeeded" fun n hn => ?_)
        fun status hstatus => ?_
      · exact (mem_filter.mp hn).1
      · subst hstatus
        exact .pure rfl
    | false => exact .pure rfl
  obtain ⟨statuses, g, heval, -, hstatus⟩ := hrun.returns hf.evolved_refl
  exact ⟨statuses, g, heval, hstatus⟩

theorem Steady.isDone_iff (ht : t ∈ f.state) : f.IsDone t.name ↔ f.done t.name = true := by
  obtain ⟨g, hrun, -⟩ := (hf.returns_isDone (mem_map_of_mem ht)).eval hf.evolved_refl
  rw [PipelineRunFacts.IsDone, hrun]
  simp

theorem Steady.isSkipped_iff (ht : t ∈ f.state) :
    f.IsSkipped t.name ↔ (f.reason t.name).isSkipped = true := by
  obtain ⟨g, hrun, -⟩ := (hf.returns_skip true (mem_map_of_mem ht)).eval hf.evolved_refl
  rw [PipelineRunFacts.IsSkipped, hrun]
  simp

theorem Steady.allDone_iff : f.allDone = true ↔ ∀ t ∈ f.dagTasks, f.IsDone t.name := by
  rw [PipelineRunFacts.allDone, all_eq_true]
  constructor
  · intro hall t ht
    obtain ⟨hmem, hdag⟩ := mem_dagTasks.mp ht
    exact (hf.isDone_iff hmem).mpr
      (hall t.name (mem_filter.mpr ⟨mem_map_of_mem hmem, hdag⟩))
  · intro hall n hn
    obtain ⟨hname, hdag⟩ := mem_filter.mp hn
    obtain ⟨t, ht, rfl⟩ := mem_map.mp hname
    exact (hf.isDone_iff ht).mp (hall t (mem_dagTasks.mpr ⟨ht, hdag⟩))

theorem Steady.runFailed_eq (ht : t ∈ f.dagTasks) : f.runFailed t.name = t.haveAnyRunsFailed := by
  rw [PipelineRunFacts.runFailed, PipelineRunState.task?_of_mem hf.nodup (mem_dagTasks.mp ht).1]

theorem Steady.tasksStatus_of_allDone (hdone : f.allDone = true) :
    ((∃ t ∈ f.dagTasks, t.haveAnyRunsFailed = true) → f.tasksStatus = "Failed") ∧
    ((¬ ∃ t ∈ f.dagTasks, t.haveAnyRunsFailed = true) →
      ((∃ t ∈ f.dagTasks, f.IsSkipped t.name) → f.tasksStatus = "Completed") ∧
      ((¬ ∃ t ∈ f.dagTasks, f.IsSkipped t.name) → f.tasksStatus = "Succeeded")) := by
  have hfailed : (∃ t ∈ f.dagTasks, t.haveAnyRunsFailed = true) ↔
      ((f.names.filter fun n => f.isDAGTask n).any f.runFailed) = true := by
    rw [any_dagNames]
    exact exists_congr fun t => and_congr_right fun ht => by rw [hf.runFailed_eq ht]
  have hskipped : (∃ t ∈ f.dagTasks, f.IsSkipped t.name) ↔
      ((f.names.filter fun n => f.isDAGTask n).any fun n => (f.reason n).isSkipped) = true := by
    rw [any_dagNames]
    exact exists_congr fun t => and_congr_right fun ht => hf.isSkipped_iff (mem_dagTasks.mp ht).1
  rw [PipelineRunFacts.tasksStatus, if_pos hdone, PipelineRunFacts.aggregate, hfailed, hskipped]
  refine ⟨fun h => if_pos h, fun h => ?_⟩
  rw [if_neg h]
  exact ⟨fun h' => if_pos h', fun h' => if_neg h'⟩

/-- A task that is done without being skipped, and no run of which has failed, has succeeded or
has failed validation. -/
theorem Steady.successful_or_validationFailed (ht : t ∈ f.dagTasks)
    (hdone : f.IsDone t.name) (hskipped : ¬ f.IsSkipped t.name)
    (hfailed : t.haveAnyRunsFailed = false) :
    t.isSuccessful = true ∨ f.isValidationFailed t = true := by
  have hmem := (mem_dagTasks.mp ht).1
  rw [hf.isDone_iff hmem, PipelineRunFacts.done, Bool.or_eq_true,
    ← hf.isSkipped_iff hmem, or_iff_right hskipped, PipelineRunFacts.finished,
    PipelineRunState.task?_of_mem hf.nodup hmem] at hdone
  have hfailure : t.isFailure = false := by
    rw [ResolvedPipelineTask.haveAnyRunsFailed] at hfailed
    simp [ResolvedPipelineTask.isFailure, hfailed]
  simpa [hfailure] using hdone

theorem Steady.truthfulStatus : f.TruthfulStatus ↔ f.TellsTruth f.tasksStatus := by
  obtain ⟨statuses, g, hrun, hlookup⟩ := hf.tasksStatus
  constructor
  · rintro ⟨statuses', g', status, hrun', hlookup', h⟩
    rw [hrun] at hrun'
    obtain ⟨rfl, rfl⟩ := Prod.mk.inj (Option.some.inj hrun')
    rw [hlookup] at hlookup'
    rwa [Option.some.inj hlookup']
  · exact fun h => ⟨statuses, g, _, hrun, hlookup, h⟩

theorem Steady.tellsTruth_of_open (hopen : ¬ ∀ t ∈ f.dagTasks, f.IsDone t.name) :
    f.TellsTruth f.tasksStatus := by
  have hstatus : f.tasksStatus = "None" := by
    rw [PipelineRunFacts.tasksStatus, if_neg (mt hf.allDone_iff.mp hopen)]
  rw [hstatus]
  exact
    { none := fun _ => rfl
      failed := fun h => absurd h hopen
      completed := fun h => absurd h hopen
      succeeded := fun h => absurd h hopen
      haveRun := fun h => absurd h (by decide) }

theorem Steady.tellsTruth_of_failed (hdone : ∀ t ∈ f.dagTasks, f.IsDone t.name)
    (hfailed : ∃ t ∈ f.dagTasks, t.haveAnyRunsFailed = true) : f.TellsTruth f.tasksStatus := by
  obtain ⟨t, ht, hruns⟩ := id hfailed
  have hstatus := (hf.tasksStatus_of_allDone (hf.allDone_iff.mpr hdone)).1 hfailed
  rw [hstatus]
  exact
    { none := fun ⟨u, hu, hopen⟩ => absurd (hdone u hu) hopen
      failed := fun _ _ => rfl
      completed := fun _ hnone => absurd (.inl hruns) (hnone t ht)
      succeeded := fun _ hnone => absurd (.inl hruns) (hnone t ht)
      haveRun := fun h => absurd h (by decide) }

/-- With no failed run the status is right if no task is on the list, and if the tasks behind a
status `Succeeded` have. -/
theorem Steady.tellsTruth_iff_of_unfailed (hdone : ∀ t ∈ f.dagTasks, f.IsDone t.name)
    (hruns : ¬ ∃ t ∈ f.dagTasks, t.haveAnyRunsFailed = true) : f.TellsTruth f.tasksStatus ↔
      (∀ t ∈ f.dagTasks, t.name ∉ f.validationFailedTask) ∧
        ((∃ t ∈ f.dagTasks, f.IsSkipped t.name) ∨ ∀ t ∈ f.dagTasks, t.isSuccessful = true) := by
  obtain ⟨hcompleted, hsucceeded⟩ :=
    (hf.tasksStatus_of_allDone (hf.allDone_iff.mpr hdone)).2 hruns
  by_cases hlisted : ∃ t ∈ f.dagTasks, t.name ∈ f.validationFailedTask
  · obtain ⟨t, ht, hlist⟩ := hlisted
    refine iff_of_false (fun h => ?_) fun h => h.1 t ht hlist
    have hstatus := h.failed hdone ⟨t, ht, .inr hlist⟩
    by_cases hskipped : ∃ t ∈ f.dagTasks, f.IsSkipped t.name
    · rw [hcompleted hskipped] at hstatus
      exact absurd hstatus (by decide)
    · rw [hsucceeded hskipped] at hstatus
      exact absurd hstatus (by decide)
  have hnone : ∀ t ∈ f.dagTasks, ¬ f.HasFailed t := fun t ht hfailed =>
    hfailed.elim (fun h => hruns ⟨t, ht, h⟩) fun h => hlisted ⟨t, ht, h⟩
  have hunlisted : ∀ t ∈ f.dagTasks, t.name ∉ f.validationFailedTask :=
    fun t ht h => hlisted ⟨t, ht, h⟩
  rw [and_iff_right hunlisted]
  by_cases hskipped : ∃ t ∈ f.dagTasks, f.IsSkipped t.name
  · obtain ⟨s, hs, hskip⟩ := id hskipped
    rw [hcompleted hskipped]
    refine iff_of_true ?_ (.inl hskipped)
    exact
      { none := fun ⟨u, hu, hopen⟩ => absurd (hdone u hu) hopen
        failed := fun _ ⟨u, hu, hfailed⟩ => absurd hfailed (hnone u hu)
        completed := fun _ _ _ => rfl
        succeeded := fun _ _ h => absurd hskip (h s hs)
        haveRun := fun h => absurd h (by decide) }
  · rw [hsucceeded hskipped, or_iff_right hskipped]
    constructor
    · exact fun h t ht => successful_iff.mpr (h.haveRun rfl t ht)
    · intro h
      exact
        { none := fun ⟨u, hu, hopen⟩ => absurd (hdone u hu) hopen
          failed := fun _ ⟨u, hu, hfailed⟩ => absurd hfailed (hnone u hu)
          completed := fun _ _ h => absurd h hskipped
          succeeded := fun _ _ _ => rfl
          haveRun := fun _ t ht => successful_iff.mp (h t ht) }

end

/-- The status does not look at the tasks that have failed validation. It is right if a run has
failed all the same, or if no task of the graph is on the list of these and none that has no
successful runs is taken for one of them. -/
theorem truthfulStatus_iff (hf : Steady f) :
    f.TruthfulStatus ↔ ((∀ t ∈ f.dagTasks, f.IsDone t.name) →
      (∃ t ∈ f.dagTasks, t.haveAnyRunsFailed = true) ∨
      (∀ t ∈ f.dagTasks, t.name ∉ f.validationFailedTask) ∧
        ((∃ t ∈ f.dagTasks, f.IsSkipped t.name) ∨
          ∀ t ∈ f.dagTasks, f.isValidationFailed t = true → t.isSuccessful = true)) := by
  rw [hf.truthfulStatus]
  by_cases hdone : ∀ t ∈ f.dagTasks, f.IsDone t.name
  · rw [imp_iff_right hdone]
    by_cases hruns : ∃ t ∈ f.dagTasks, t.haveAnyRunsFailed = true
    · exact iff_of_true (hf.tellsTruth_of_failed hdone hruns) (.inl hruns)
    · rw [or_iff_right hruns, hf.tellsTruth_iff_of_unfailed hdone hruns]
      refine and_congr_right fun _ => ?_
      by_cases hskipped : ∃ t ∈ f.dagTasks, f.IsSkipped t.name
      · exact iff_of_true (.inl hskipped) (.inl hskipped)
      · rw [or_iff_right hskipped, or_iff_right hskipped]
        refine forall₂_congr fun t ht => ⟨fun h _ => h, fun h => ?_⟩
        have hfailed : t.haveAnyRunsFailed = false := by
          rw [← Bool.not_eq_true]
          exact fun hfail => hruns ⟨t, ht, hfail⟩
        rcases hf.successful_or_validationFailed ht (hdone t ht)
          (fun hskip => hskipped ⟨t, ht, hskip⟩) hfailed with hsuccess | hvalidation
        · exact hsuccess
        · exact h hvalidation
  · exact iff_of_true (hf.tellsTruth_of_open hdone) fun h => absurd h hdone

end

def buildTask (condition : TaskRunReconciler.Condition) : ResolvedPipelineTask :=
  { pipelineTask := { name := "build" }
    taskRuns := [{ name := "run-build", succeeded := some condition }]
    resolvedTask := some 0 }

def signTask : ResolvedPipelineTask :=
  { pipelineTask :=
      { name := "sign"
        params := [⟨"digest", { stringVal := "$(tasks.build.results.digest)" }⟩] }
    resolvedTask := some 1 }

/-- The build has finished without a result; `listed` holds the tasks that failed validation. -/
def signFacts (condition : TaskRunReconciler.Condition) (listed : List String) : PipelineRunFacts :=
  { state := [buildTask condition, signTask]
    tasksGraph :=
      { nodes := ["build", "sign"]
        links := [("build", "sign")]
        nodup := by decide
        ends := by decide
        acyclic := ⟨fun n => if n = "sign" then 1 else 0, by decide⟩ }
    validationFailedTask := listed }

theorem signFacts_steady (condition : TaskRunReconciler.Condition) (listed : List String) :
    Steady (signFacts condition listed) := by
  have hbuild : pipelineTaskResultRefs (buildTask condition).pipelineTask = [] := rfl
  have hsign : pipelineTaskResultRefs signTask.pipelineTask = [⟨"build", "digest", none, ""⟩] := by
    decide +kernel
  have hstate : ∀ t ∈ (signFacts condition listed).state,
      t = buildTask condition ∨ t = signTask := by
    simp [signFacts]
  have hfails :
      (convertToResultRefs (signFacts condition listed).state signTask.pipelineTask).2.toOption =
      none := by
    rw [convertToResultRefs, hsign]
    rcases condition with ⟨status, reason, message⟩
    cases status <;> rfl
  refine ⟨⟨fun n hn => hn, fun n hn => .inl hn⟩, ⟨?_, ?_⟩,
    (by decide : ["build", "sign"].Nodup), ?_⟩
  · intro t ht _ _ refs hrefs
    rcases hstate t ht with rfl | rfl
    · rw [convertToResultRefs, hbuild] at hrefs
      cases hrefs
      exact applyTaskResults_nil _
    · rw [hrefs] at hfails
      cases hfails
  · intro t ht _ ref href
    rcases hstate t ht with rfl | rfl
    · rw [hbuild] at href
      cases href
    · rw [hsign] at href
      rw [mem_singleton.mp href]
      exact mem_singleton.mpr rfl
  · intro n r hr
    cases hr

/-- A build that failed is told of, and so the signing, which is skipped then, is no matter. -/
theorem build_failure_told : Steady (signFacts ⟨.isFalse, "Failed", ""⟩ []) ∧
      (signFacts ⟨.isFalse, "Failed", ""⟩ []).TruthfulStatus := by
  have hsteady := signFacts_steady ⟨.isFalse, "Failed", ""⟩ []
  refine ⟨hsteady, (truthfulStatus_iff hsteady).mpr fun _ => .inl ?_⟩
  refine ⟨buildTask ⟨.isFalse, "Failed", ""⟩, mem_dagTasks.mpr ⟨?_, rfl⟩, rfl⟩
  exact mem_cons_self

/-- The signing has failed validation since the build produced no digest, and the finally tasks are
told that all tasks have succeeded. -/
theorem validation_failure_untold : Steady (signFacts ⟨.isTrue, "Succeeded", ""⟩ ["sign"]) ∧
    (getPipelineTaskStatus (signFacts ⟨.isTrue, "Succeeded", ""⟩ ["sign"])).map
      (fun r => r.1.lookup "tasks.status") = some (some "Succeeded") ∧
    ¬ (signFacts ⟨.isTrue, "Succeeded", ""⟩ ["sign"]).TruthfulStatus := by
  have hstatus : (getPipelineTaskStatus (signFacts ⟨.isTrue, "Succeeded", ""⟩ ["sign"])).map
      (fun r => r.1.lookup "tasks.status") = some (some "Succeeded") := by decide +kernel
  refine ⟨signFacts_steady _ _, hstatus, ?_⟩
  rintro ⟨statuses, g, status, hrun, hlookup, htruth⟩
  rw [hrun, Option.map_some, hlookup] at hstatus
  have hsign : signTask ∈ (signFacts ⟨.isTrue, "Succeeded", ""⟩ ["sign"]).dagTasks :=
    mem_dagTasks.mpr ⟨mem_cons_of_mem _ mem_cons_self, rfl⟩
  exact (htruth.haveRun (Option.some.inj (Option.some.inj hstatus)) signTask hsign).1 rfl

end TektonPipeline.Pipeline
