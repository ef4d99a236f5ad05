import TektonPipeline.Pipeline.Resolve

/-! When the finally tasks are started, and when a PipelineRun is over. -/

namespace TektonPipeline.Pipeline
open Api Stateful TaskRunReconciler List

variable {n : String}

section
variable {total : Bool} {f : PipelineRunFacts} {A : String → PipelineTask → Prop}
  {V : String → SkippingReason → Prop} {t : ResolvedPipelineTask}

theorem finallySkipReason_runs (h : Evaluation total f A V) (hn : n ∈ f.names)
    (hfinal : f.isFinalTask n = true) :
    Keeps total (Evolved f A V) (finallySkipReason n) fun _ => True := by
  refine (taskOf_runs fun _ => hn).bind fun t ht => ?_
  obtain ⟨rfl, hreceiver⟩ := ht
  have hvacuous : ∀ {P : Prop}, f.isFinalTask t.name = false → P := by
    intro P hfalse
    rw [hfinal] at hfalse
    cases hfalse
  have hopen : f.isStarted t.name = false := by simp [PipelineRunFacts.isStarted, hfinal]
  have hsetting : Setting total f A V skip t :=
    ⟨h.nodup, h.wellFormed, h.forms, hreceiver, ⟨hvacuous, hvacuous⟩⟩
  refine (skipBecauseResultReferencesAreMissing_runs hsetting hopen true).bind fun r hr => ?_
  rcases r with ⟨missing, t'⟩
  obtain ⟨pt, hsame, hA, rfl, -⟩ := hr
  have h' := hsetting.withTask hsame hA
  have hend : ∀ r : SkippingReason, Keeps total (Evolved f A V) (pure r) fun _ => True :=
    fun _ => .pure trivial
  refine .ite (fun _ => hend _) fun _ => ?_
  refine (skipBecauseWhen_runs h').bind_ite (fun _ => hend _) fun _ => ?_
  refine (skipBecausePipelineTimeout_runs h').bind_ite (fun _ => hend _) fun _ => ?_
  refine (skipBecauseTimeoutReached_runs h' fun g hg => ?_).bind_ite (fun _ => hend _) fun _ => ?_
  · rw [hg.timeoutsState, hg.isFinalTask_eq]
  · exact .ite (fun _ => hend _) fun _ => hend _

theorem isFinallySkipped_runs (h : Evaluation total f A V) (hn : n ∈ f.names) :
    Keeps total (Evolved f A V) (isFinallySkipped n) fun r =>
      r.isSkipped = true → ∃ t, Receiver f A t ∧ t.name = n ∧ t.isScheduled = false := by
  refine (taskOf_runs fun _ => hn).bind fun t ht => ?_
  obtain ⟨rfl, hreceiver⟩ := ht
  have hnone : SkippingReason.isSkipped .none = true →
      ∃ t', Receiver f A t' ∧ t'.name = t.name ∧ t'.isScheduled = false :=
    fun hr => nomatch hr
  refine .ite (fun _ => .pure hnone) fun hsched => ?_
  have hdone : Keeps total (Evolved f A V) checkDAGTasksDone fun _ => True :=
    .get_bind fun g _ => (checkTasksDone_runs h _).imp fun _ _ => trivial
  refine hdone.bind fun done _ => .get_bind fun g hg => ?_
  rw [hg.isFinalTask_eq]
  refine .ite (fun hcase => ?_) fun _ => .pure hnone
  rw [Bool.and_eq_true] at hcase
  refine (finallySkipReason_runs h hn hcase.2).imp fun r _ _ => ?_
  exact ⟨t, hreceiver, rfl, by simpa using hsched⟩

end

section
variable {t : ResolvedPipelineTask}

theorem ChildRun.isDone_of_isSuccessful {r : ChildRun} (h : r.isSuccessful = true) :
    r.isDone = true := by
  unfold ChildRun.isSuccessful hasStatus at h
  unfold ChildRun.isDone isUnknown
  cases hc : r.succeeded with
  | none => simp [hc] at h
  | some c =>
    simp only [hc, beq_iff_eq] at h
    simp [h]

theorem isFailure_of_isCancelled (h : t.isCancelled = true) : t.isFailure = true := by
  unfold ResolvedPipelineTask.isCancelled at h
  unfold ResolvedPipelineTask.isFailure
  simp only [Bool.and_eq_true, any_eq_true, ChildRun.failedFor] at h ⊢
  obtain ⟨hruns, ⟨r, hr, hfailed, -⟩, hdone⟩ := h
  exact ⟨hruns, ⟨r, hr, hfailed⟩, hdone⟩

theorem isFailure_of_isCancelledForTimeOut (h : t.isCancelledForTimeOut = true) :
    t.isFailure = true := by
  unfold ResolvedPipelineTask.isCancelledForTimeOut at h
  unfold ResolvedPipelineTask.isFailure
  simp only [Bool.and_eq_true, any_eq_true, ChildRun.failedFor] at h ⊢
  obtain ⟨hruns, hdone, r, hr, ⟨hfailed, -⟩, -⟩ := h
  exact ⟨hruns, ⟨r, hr, hfailed⟩, hdone⟩

theorem runs_done_of_finished (h : (t.isSuccessful || t.isFailure) = true) :
    t.runs ≠ [] ∧ ∀ r ∈ t.runs, r.isDone = true := by
  unfold ResolvedPipelineTask.isSuccessful ResolvedPipelineTask.isFailure at h
  rw [← Bool.and_or_distrib_left, Bool.and_eq_true, Bool.or_eq_true, Bool.and_eq_true,
    all_eq_true, all_eq_true] at h
  refine ⟨fun hnil => by simp [hnil] at h, fun r hr => ?_⟩
  rcases h.2 with hall | ⟨-, hall⟩
  · exact ChildRun.isDone_of_isSuccessful (hall r hr)
  · exact hall r hr

end

section
variable {total : Bool} {f : PipelineRunFacts} {A : String → PipelineTask → Prop}
  {V : String → SkippingReason → Prop}

/-- `Skip` has said of a task that it is skipped, or `IsFinallySkipped` may have. -/
def SkipFound (f : PipelineRunFacts) (A : String → PipelineTask → Prop)
    (V : String → SkippingReason → Prop) (n : String) : Prop :=
  (∃ r, V n r ∧ r.isSkipped = true) ∨ ∃ t, Receiver f A t ∧ t.name = n ∧ t.isScheduled = false

/-- A task is counted as complete if it has finished or is skipped. -/
def CountObserved (f : PipelineRunFacts) (A : String → PipelineTask → Prop)
    (V : String → SkippingReason → Prop) (n : String) (c : TaskCount) : Prop :=
  c ≠ .incomplete → f.finished n = true ∨ SkipFound f A V n

section
variable (h : Evaluation total f A V) (hn : n ∈ f.names)
include h hn

theorem skippedForTimeout_runs :
    Keeps total (Evolved f A V) (skippedForTimeout n) fun b => b = true → SkipFound f A V n := by
  have hskip : Answers total f A V skip n := skip_runs h fun _ => hn
  refine Keeps.bind (hskip true) fun r hr => .ite (fun heq => .pure fun _ => ?_) fun _ => ?_
  · exact .inl ⟨r, hr, by rw [heq]; rfl⟩
  refine Keeps.bind (hskip true) fun r hr => .ite (fun heq => .pure fun _ => ?_) fun _ => ?_
  · exact .inl ⟨r, hr, by rw [heq]; rfl⟩
  refine (isFinallySkipped_runs h hn).bind fun r hr => .pure fun heq => .inr (hr ?_)
  rw [beq_iff_eq] at heq
  rw [heq]
  rfl

theorem countSkipped_runs :
    Keeps total (Evolved f A V) (countSkipped n) fun c => c ≠ .incomplete → SkipFound f A V n := by
  refine (skippedForTimeout_runs h hn).bind_ite (fun hb => .pure fun _ => hb rfl) fun _ => ?_
  refine Keeps.bind (skip_runs h (fun _ => hn) true) fun r hr => .ite (fun htrue => ?_) fun _ => ?_
  · exact .pure fun _ => .inl ⟨r, hr, htrue⟩
  refine (isFinallySkipped_runs h hn).bind fun r hr => .ite (fun htrue => ?_) fun _ => ?_
  · exact .pure fun _ => .inr (hr htrue)
  · exact .pure fun hne => absurd rfl hne

theorem countTask_runs : Keeps total (Evolved f A V) (countTask n) (CountObserved f A V n) := by
  refine (taskOf_runs fun _ => hn).bind fun t ht => .get_bind fun g hg => ?_
  obtain ⟨rfl, t₀, ht₀, hkept, -⟩ := ht
  have hend : ∀ c, (t.isSuccessful || t.isFailure || g.isValidationFailed t) = true →
      Keeps total (Evolved f A V) (pure c) (CountObserved f A V t.name) := by
    intro c hover
    refine .pure fun _ => .inl ?_
    rw [PipelineRunFacts.finished, ht₀]
    rwa [hkept.isSuccessful_eq, hkept.isFailure_eq,
      hg.isValidationFailed_eq hkept.fields.2.1] at hover
  refine .ite (fun hcase => hend _ (by simp [hcase])) fun _ => ?_
  refine .ite (fun hcase => hend _ (by simp [isFailure_of_isCancelledForTimeOut hcase])) fun _ => ?_
  refine .ite (fun hcase => hend _ (by simp [isFailure_of_isCancelled hcase])) fun _ => ?_
  refine .ite (fun hcase => hend _ (by simp [hcase])) fun _ => ?_
  refine .ite (fun hcase => hend _ (by simp [hcase])) fun _ => ?_
  exact (countSkipped_runs h hn).imp fun c hc hne => .inr (hc hne)

end

theorem getPipelineTasksCount_runs (h : Evaluation total f A V) :
    Keeps total (Evolved f A V) getPipelineTasksCount fun counts =>
      ∀ n ∈ f.names, ∃ c ∈ counts, CountObserved f A V n c := by
  refine .get_bind fun g hg => ?_
  rw [hg.names_eq]
  exact .mapOf fun n hn => countTask_runs h hn

end

/-- Facts as the controller makes them: a task holds runs of its own kind, a skipped task in
the cache has no runs, and a task that failed validation is one of the state that has none
running. -/
structure Consistent (f : PipelineRunFacts) : Prop where
  nodup : f.names.Nodup
  kind : ∀ t ∈ f.state, (if t.customTask then t.taskRuns else t.customRuns) = []
  cache : ∀ n r, f.skipCache.lookup n = some r → r.isSkipped = true →
    ∀ t, f.state.task? n = some t → t.isScheduled = false
  listed : ∀ n ∈ f.validationFailedTask, n ∈ f.names
  ended : ∀ t ∈ f.state, t.name ∈ f.validationFailedTask → ∀ r ∈ t.runs, r.isDone = true

/-- No task points to the resolved task of one that failed validation but that one itself. -/
def OwnResolvedTasks (f : PipelineRunFacts) : Prop :=
  ∀ t ∈ f.state, ∀ u ∈ f.state, u.name ∈ f.validationFailedTask →
    u.resolvedTask = t.resolvedTask → t.name ∈ f.validationFailedTask

/-- `Skip` says so when the tasks before it in the state have been checked. -/
def SkippedWhenChecked (f : PipelineRunFacts) (n : String) : Prop :=
  ∃ before after g r g',
    (f.names.filter fun n => decide (n ∈ f.tasksGraph.nodes)) = before ++ n :: after ∧
      allOf (isDone skip) before f = some (true, g) ∧
      skip false n g = some (r, g') ∧ r.isSkipped = true

def FinallyInTime (f : PipelineRunFacts) : Prop :=
  ∀ tasks g, getFinalTasks f = some (tasks, g) → tasks ≠ [] →
    ∀ t ∈ f.state, f.isDAGTask t.name = true →
      SkippedWhenChecked f t.name ∨ (t.runs ≠ [] ∧ ∀ r ∈ t.runs, r.isDone = true) ∨
        t.name ∈ f.validationFailedTask

def CompletedInTime (f : PipelineRunFacts) : Prop :=
  ∀ prName condition g, getPipelineConditionStatus prName f = some (condition, g) →
    condition.status ≠ .unknown → condition.reason ≠ "PipelineRunTimeout" →
    ∀ t ∈ f.state, ∀ r ∈ t.taskRuns ++ t.customRuns, r.isDone = true

def OwnValidation (f : PipelineRunFacts) : Prop :=
  ∀ t ∈ f.state, f.isValidationFailed t = true ↔ t.name ∈ f.validationFailedTask

section
variable {f : PipelineRunFacts} {t : ResolvedPipelineTask}

theorem isValidationFailed_iff : f.isValidationFailed t = true ↔
      ∃ n ∈ f.validationFailedTask, ∃ u, f.state.task? n = some u ∧
        u.resolvedTask = t.resolvedTask := by
  unfold PipelineRunFacts.isValidationFailed
  rw [any_eq_true]
  refine exists_congr fun n => and_congr_right fun _ => ?_
  cases f.state.task? n with
  | none => simp
  | some u => simp

theorem ownValidation_iff (h : Consistent f) : OwnValidation f ↔ OwnResolvedTasks f := by
  constructor
  · intro hown t ht u hu hlisted heq
    refine (hown t ht).mp (isValidationFailed_iff.mpr ⟨u.name, hlisted, u, ?_, heq⟩)
    exact PipelineRunState.task?_of_mem h.nodup hu
  · intro hown t ht
    rw [isValidationFailed_iff]
    constructor
    · rintro ⟨n, hn, u, hu, heq⟩
      obtain ⟨hmem, rfl⟩ := PipelineRunState.mem_of_task? hu
      exact hown t ht u hmem hn heq
    · exact fun hn => ⟨t.name, hn, t, PipelineRunState.task?_of_mem h.nodup ht, rfl⟩

theorem finished_cases (h : Consistent f) (ht : t ∈ f.state)
    (hfinished : f.finished t.name = true) :
    (t.isSuccessful || t.isFailure) = true ∨ f.isValidationFailed t = true := by
  unfold PipelineRunFacts.finished at hfinished
  rw [PipelineRunState.task?_of_mem h.nodup ht] at hfinished
  exact (Bool.or_eq_true _ _).mp hfinished

theorem isDone_eq_true (hnodup : f.names.Nodup) {g g' : PipelineRunFacts}
    (hg : Evolved f anyForm anyReason g) (h : isDone skip n g = some (true, g')) :
    (∃ r g'', skip false n g = some (r, g'') ∧ r.isSkipped = true) ∨ f.finished n = true := by
  change (skip false n g).bind _ = _ at h
  cases hskip : skip false n g with
  | none => simp [hskip] at h
  | some p =>
    obtain ⟨r, g''⟩ := p
    rw [hskip] at h
    cases hr : r.isSkipped with
    | true => exact .inl ⟨r, g'', rfl, hr⟩
    | false =>
      have hg'' : Evolved f anyForm anyReason g'' :=
        (Keeps.result
          (skip_runs (evaluation_of_nodup hnodup) (fun h => nomatch h) false) hg hskip).1
      right
      change (if r.isSkipped = true then (pure true : Facts Bool) else do
        let t ← taskOf n
        let f ← get
        return t.isSuccessful || t.isFailure || f.isValidationFailed t) g'' = _ at h
      rw [if_neg (by simp [hr])] at h
      have hany : false = true → n ∈ f.names := fun h => nomatch h
      exact ((finished_runs hany).result hg'' h).2.symm

theorem finallyInTime (h : Consistent f) (hown : OwnResolvedTasks f) : FinallyInTime f := by
  intro tasks g hrun hne t ht hdag
  have hdone :
      ∃ g', allOf (isDone skip) (f.names.filter fun n => decide (n ∈ f.tasksGraph.nodes)) f =
      some (true, g') := by
    change (allOf (isDone skip)
      (f.names.filter fun n => decide (n ∈ f.tasksGraph.nodes)) f).bind _ = _
      at hrun
    cases hall :
      allOf (isDone skip) (f.names.filter fun n => decide (n ∈ f.tasksGraph.nodes)) f with
    | none => simp [hall] at hrun
    | some p =>
      obtain ⟨b, g'⟩ := p
      rw [hall] at hrun
      cases b with
      | true => exact ⟨g', rfl⟩
      | false =>
        cases hrun
        exact absurd rfl hne
  obtain ⟨g', hall⟩ := hdone
  have hmem : t.name ∈ f.names.filter fun n => decide (n ∈ f.tasksGraph.nodes) :=
    mem_filter.mpr ⟨mem_map.mpr ⟨t, ht, rfl⟩, hdag⟩
  obtain ⟨before, after, hsplit⟩ := append_of_mem hmem
  obtain ⟨g₁, g₂, hbefore, hcheck⟩ := allOf_eq_true hall hsplit
  have hg₁ : Evolved f anyForm anyReason g₁ := by
    have hloop := Keeps.allOf (I := Evolved f anyForm anyReason) (l := before) fun n hn =>
      isDone_skip_runs (evaluation_of_nodup h.nodup) (n := n) (by
        have hn' : n ∈ before ++ t.name :: after := mem_append_left _ hn
        rw [← hsplit] at hn'
        exact (mem_filter.mp hn').1)
    exact (hloop.result (evolved_refl f) hbefore).1
  rcases isDone_eq_true h.nodup hg₁ hcheck with ⟨r, g₃, hskip, hr⟩ | hfinished
  · exact .inl ⟨before, after, g₁, r, g₃, hsplit, hbefore, hskip, hr⟩
  · rcases finished_cases h ht hfinished with hover | hvalid
    · exact .inr (.inl (runs_done_of_finished hover))
    · exact .inr (.inr (((ownValidation_iff h).mpr hown t ht).mp hvalid))

/-- A task that is skipped has no runs. -/
def unscheduled (f : PipelineRunFacts) (n : String) (r : SkippingReason) : Prop :=
  r.isSkipped = true → ∀ t, f.state.task? n = some t → t.isScheduled = false

theorem evaluation_unscheduled (hnodup : f.names.Nodup) :
    Evaluation false f anyForm (unscheduled f) := by
  refine { evaluation_of_nodup hnodup with closed := ?_ }
  rintro t r ⟨t₀, ht₀, hkept, -⟩ hr hskipped u hu
  obtain rfl := Option.some.inj (ht₀.symm.trans hu)
  cases hsched : t₀.isScheduled with
  | false => rfl
  | true =>
    unfold SkipOutcome at hr
    rw [if_pos (by simp [hkept.isScheduled_eq, hsched])] at hr
    subst hr
    cases hskipped

theorem SkipFound.runs_eq_nil (hnodup : f.names.Nodup)
    (ht : t ∈ f.state) (h : SkipFound f anyForm (unscheduled f) t.name) : t.runs = [] := by
  have htask := PipelineRunState.task?_of_mem hnodup ht
  have hsched : t.isScheduled = false := by
    rcases h with ⟨r, hr, hskipped⟩ | ⟨t', ⟨t₀, ht₀, hkept, -⟩, hname, hsched⟩
    · exact hr hskipped t htask
    · rw [hname, htask] at ht₀
      obtain rfl := Option.some.inj ht₀
      rw [← hkept.isScheduled_eq, hsched]
  unfold ResolvedPipelineTask.isScheduled at hsched
  simpa using hsched

theorem SkippedWhenChecked.runs_eq_nil (h : Consistent f)
    (ht : t ∈ f.state) (hskip : SkippedWhenChecked f t.name) : t.runs = [] := by
  obtain ⟨before, after, g, r, g', hsplit, hbefore, hrun, hr⟩ := hskip
  have heval := evaluation_unscheduled h.nodup
  have hloop := Keeps.allOf (I := Evolved f anyForm (unscheduled f)) (l := before) fun n hn =>
    isDone_skip_runs heval (n := n) (by
      have hn' : n ∈ before ++ t.name :: after := mem_append_left _ hn
      rw [← hsplit] at hn'
      exact (mem_filter.mp hn').1)
  have hg := (hloop.result { evolved_refl f with cache := h.cache } hbefore).1
  have hv := (Keeps.result (skip_runs heval (fun h => nomatch h) false) hg hrun).2
  exact SkipFound.runs_eq_nil h.nodup ht (.inl ⟨r, hv, hr⟩)

theorem getPipelineConditionStatus_counts {prName : String} {condition : Condition}
    {g : PipelineRunFacts} (h : getPipelineConditionStatus prName f = some (condition, g))
    (hstatus : condition.status ≠ .unknown) (hreason : condition.reason ≠ "PipelineRunTimeout") :
    ∃ counts g', getPipelineTasksCount f = some (counts, g') ∧ ∀ c ∈ counts, c ≠ .incomplete := by
  change (if f.hasTimedOut = true then _ else _ : Facts Condition) f = _ at h
  by_cases htimeout : f.hasTimedOut = true
  · rw [if_pos htimeout] at h
    cases h
    exact absurd rfl hreason
  rw [if_neg htimeout] at h
  change (getPipelineTasksCount f).bind _ = _ at h
  cases hcounts : getPipelineTasksCount f with
  | none => simp [hcounts] at h
  | some p =>
    obtain ⟨counts, g'⟩ := p
    rw [hcounts] at h
    refine ⟨counts, g', rfl, fun c hc heq => ?_⟩
    have hpos : ¬ tally counts [.incomplete] = 0 := by
      unfold tally
      rw [length_eq_zero_iff, filter_eq_nil_iff]
      exact fun hall => hall c hc (by simp [heq])
    change (if tally counts [.incomplete] = 0 then _ else _ : Facts Condition) g' = _ at h
    rw [if_neg hpos] at h
    change (runningReason f counts g').bind _ = _ at h
    cases hrunning : runningReason f counts g' with
    | none => simp [hrunning] at h
    | some q =>
      rw [hrunning] at h
      cases h
      exact absurd rfl hstatus

theorem completedInTime (h : Consistent f) (hown : OwnResolvedTasks f) : CompletedInTime f := by
  intro prName condition g hrun hstatus hreason t ht
  obtain ⟨counts, g', hcounts, hcomplete⟩ := getPipelineConditionStatus_counts hrun hstatus hreason
  have hstart : Evolved f anyForm (unscheduled f) f := { evolved_refl f with cache := h.cache }
  obtain ⟨-, hobserved⟩ :=
    (getPipelineTasksCount_runs (evaluation_unscheduled h.nodup)).result hstart hcounts
  have hruns : ∀ r ∈ t.runs, r.isDone = true := by
    obtain ⟨c, hc, hcount⟩ := hobserved t.name (mem_map.mpr ⟨t, ht, rfl⟩)
    rcases hcount (hcomplete c hc) with hfinished | hskipped
    · rcases finished_cases h ht hfinished with hover | hvalid
      · exact (runs_done_of_finished hover).2
      · exact h.ended t ht (((ownValidation_iff h).mpr hown t ht).mp hvalid)
    · rw [hskipped.runs_eq_nil h.nodup ht]
      exact fun r hr => nomatch hr
  have hkind := h.kind t ht
  unfold ResolvedPipelineTask.runs at hruns
  cases hcustom : t.customTask with
  | true => simpa [hcustom, show t.taskRuns = [] by simpa [hcustom] using hkind] using hruns
  | false => simpa [hcustom, show t.customRuns = [] by simpa [hcustom] using hkind] using hruns

end

/-- Finally tasks are started and the PipelineRun is over in time exactly if no task points
to the resolved task of another that failed validation. -/
theorem premature_iff (f : PipelineRunFacts) (h : Consistent f) :
    (FinallyInTime f ∧ CompletedInTime f ∧ OwnValidation f) ↔ OwnResolvedTasks f := by
  constructor
  · exact fun hproperty => (ownValidation_iff h).mp hproperty.2.2
  · exact fun hown => ⟨finallyInTime h hown, completedInTime h hown, (ownValidation_iff h).mpr hown⟩

/-- An approval needs a digest that the scan has not produced, while something else is still
waiting and a notification is to follow. -/
def releaseGraph : Dag where
  nodes := ["scan", "wait", "approve"]
  links := [("scan", "approve")]
  nodup := by decide
  ends := by decide
  acyclic := ⟨fun n => if n = "approve" then 1 else 0, by decide⟩

def scanned : ResolvedPipelineTask :=
  { pipelineTask := { name := "scan" }
    taskRuns := [{ name := "run-scan", succeeded := some ⟨.isTrue, "Succeeded", ""⟩ }]
    resolvedTask := some 0 }

def waiting (customTask : Bool) : ResolvedPipelineTask :=
  { pipelineTask := { name := "wait", customTask := customTask }
    customTask := customTask
    taskRuns := if customTask then [] else [{ name := "run-wait" }]
    customRuns := if customTask then [{ name := "run-wait" }] else []
    resolvedTask := if customTask then none else some 1 }

def unapproved : ResolvedPipelineTask :=
  { pipelineTask :=
      { name := "approve"
        customTask := true
        params := [⟨"digest", { stringVal := "$(tasks.scan.results.digest)" }⟩] }
    customTask := true }

def notification : ResolvedPipelineTask :=
  { pipelineTask := { name := "notify" }, resolvedTask := some 2 }

def releaseFacts (customTask : Bool) (finals : List ResolvedPipelineTask) : PipelineRunFacts where
  state := [scanned, waiting customTask, unapproved] ++ finals
  tasksGraph := releaseGraph
  finalTasksGraph := { nodes := finals.map (·.name) }
  validationFailedTask := ["approve"]

theorem releaseFacts_consistent (customTask : Bool) (finals : List ResolvedPipelineTask)
    (h : finals = [] ∨ finals = [notification]) : Consistent (releaseFacts customTask finals) := by
  rcases h with rfl | rfl <;> cases customTask <;>
    exact ⟨by decide, by decide, (fun _ _ hcache => nomatch hcache), by decide, by decide⟩

/-- The approval and what is waiting are custom tasks without a resolved task: both pass for
tasks that failed validation. -/
theorem releaseFacts_premature :
    Consistent (releaseFacts true [notification]) ∧ Consistent (releaseFacts true []) ∧
      ¬ FinallyInTime (releaseFacts true [notification]) ∧
      ¬ CompletedInTime (releaseFacts true []) ∧
      ¬ OwnValidation (releaseFacts true [notification]) := by
  have hconsistent := releaseFacts_consistent true [notification] (.inr rfl)
  refine ⟨hconsistent, releaseFacts_consistent true [] (.inl rfl), fun h => ?_, fun h => ?_, ?_⟩
  · have hfinal : (getFinalTasks (releaseFacts true [notification])).map (·.1) =
        some ["notify"] := by
      decide +kernel
    obtain ⟨⟨tasks, g⟩, hrun, rfl⟩ := Option.map_eq_some_iff.mp hfinal
    have hwait : waiting true ∈ (releaseFacts true [notification]).state := by decide
    rcases h _ g hrun (by decide) (waiting true) hwait (by decide) with hskip | hover | hlisted
    · exact absurd (hskip.runs_eq_nil hconsistent hwait) (by decide)
    · exact absurd (hover.2 { name := "run-wait" } (by decide)) (by decide)
    · exact absurd hlisted (by decide)
  · have hstatus : (getPipelineConditionStatus "run" (releaseFacts true [])).map (·.1) =
        some ⟨.isFalse, "PipelineValidationFailed",
          "Tasks Completed: 1 (Failed: 0, Cancelled 0), Skipped: 0, Failed Validation: 2"⟩ := by
      decide +kernel
    obtain ⟨⟨condition, g⟩, hrun, hcondition⟩ := Option.map_eq_some_iff.mp hstatus
    obtain rfl : condition = _ := hcondition
    have hdone := h "run" _ g hrun (by decide) (by decide) (waiting true) (by decide)
      { name := "run-wait" } (by decide)
    exact absurd hdone (by decide)
  · unfold OwnValidation
    decide

/-- Where what is waiting is a task of its own, the notification waits for it. -/
theorem releaseFacts_in_time : FinallyInTime (releaseFacts false [notification]) ∧
      CompletedInTime (releaseFacts false [notification]) ∧
      OwnValidation (releaseFacts false [notification]) := by
  refine (premature_iff _ (releaseFacts_consistent false [notification] (.inr rfl))).mpr ?_
  unfold OwnResolvedTasks
  decide

end TektonPipeline.Pipeline
