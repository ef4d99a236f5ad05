import TektonPipeline.Pipeline.Frame

/-! The evaluation of skipping returns, and what it returns for a task follows from what it
was observed to return for the tasks before it. -/

namespace TektonPipeline.Pipeline
open Api Stateful List

structure WellFormed (f : PipelineRunFacts) : Prop where
  dag : ∀ n ∈ f.tasksGraph.nodes, n ∈ f.names
  placed : ∀ n ∈ f.names, n ∈ f.tasksGraph.nodes ∨ n ∈ f.finalTasksGraph.nodes

/-- A task of the graph that has runs. Results are written into the others only. -/
def PipelineRunFacts.isStarted (f : PipelineRunFacts) (n : String) : Bool :=
  !f.isFinalTask n && (f.state.task? n).any (·.isScheduled)

structure Forms (f : PipelineRunFacts) (A : String → PipelineTask → Prop) : Prop where
  start : ∀ t ∈ f.state, A t.name t.pipelineTask
  write : ∀ n pt refs, f.isStarted n = false → A n pt →
    (convertToResultRefs f.state pt).2 = .ok refs → A n (applyTaskResults pt refs)

/-- In each of its forms a task of the graph refers only to tasks it comes after. -/
def RefersBack (f : PipelineRunFacts) (A : String → PipelineTask → Prop) : Prop :=
  ∀ n pt, f.isFinalTask n = false → A n pt → ∀ ref ∈ pipelineTaskResultRefs pt,
    ref.pipelineTask ∈ f.tasksGraph.prev n

/-- The facts `f` later in the same evaluation. `V` says what may be returned for a task. -/
structure Evolved (f : PipelineRunFacts) (A : String → PipelineTask → Prop)
    (V : String → SkippingReason → Prop) (g : PipelineRunFacts) : Prop where
  state : KeptState A f.state g.state
  tasksGraph : g.tasksGraph = f.tasksGraph
  finalTasksGraph : g.finalTasksGraph = f.finalTasksGraph
  specStatus : g.specStatus = f.specStatus
  timeoutsState : g.timeoutsState = f.timeoutsState
  validationFailedTask : g.validationFailedTask = f.validationFailedTask
  cache : ∀ n r, g.skipCache.lookup n = some r → V n r

def PipelineRunFacts.finished (f : PipelineRunFacts) (n : String) : Bool :=
  match f.state.task? n with
  | some t => t.isSuccessful || t.isFailure || f.isValidationFailed t
  | none => false

variable {n : String}

namespace Evolved
variable {f g : PipelineRunFacts} {A : String → PipelineTask → Prop}
  {V : String → SkippingReason → Prop} (h : Evolved f A V g)
include h

theorem names_eq : g.names = f.names := h.state.names_eq

theorem isDAGTask_eq (n : String) : g.isDAGTask n = f.isDAGTask n := by
  simp only [PipelineRunFacts.isDAGTask, h.tasksGraph]

theorem isFinalTask_eq (n : String) : g.isFinalTask n = f.isFinalTask n := by
  simp only [PipelineRunFacts.isFinalTask, h.finalTasksGraph]

theorem isValidationFailed_eq {t t' : ResolvedPipelineTask}
    (ht : t'.resolvedTask = t.resolvedTask) : g.isValidationFailed t' = f.isValidationFailed t := by
  unfold PipelineRunFacts.isValidationFailed
  rw [h.validationFailedTask, ht]
  refine congrArg (List.any f.validationFailedTask) (funext fun n => ?_)
  cases hn : g.state.task? n with
  | none =>
    have hnone := h.state.isSome_task? n
    rw [hn] at hnone
    cases hf : f.state.task? n with
    | none => rfl
    | some u => simp [hf] at hnone
  | some u' =>
    obtain ⟨u, hu, hkept, -⟩ := h.state.task? hn
    rw [hu]
    simp only [hkept.fields.2.1]

theorem isStopping_eq : g.isStopping = f.isStopping := by
  have hvf := @isValidationFailed_eq f g A V h
  have hdag := h.isDAGTask_eq
  obtain ⟨k, hstate, hkept, -⟩ := h.state
  unfold PipelineRunFacts.isStopping
  rw [hstate, any_map]
  refine congrArg (List.any f.state) (funext fun t => ?_)
  simp only [Function.comp, hdag, (hkept t).name_eq, (hkept t).isFailure_eq,
    hvf (hkept t).fields.2.1, (hkept t).task.onError]

theorem task? (hn : n ∈ f.names) :
    ∃ t t', f.state.task? n = some t ∧ g.state.task? n = some t' ∧ Kept t t' ∧
      A n t'.pipelineTask := by
  have hsome : (f.state.task? n).isSome = true := by
    obtain ⟨t, ht, rfl⟩ := mem_map.mp hn
    rw [PipelineRunState.task?, find?_isSome]
    exact ⟨t, mem_reverse.mpr ht, by simp⟩
  rw [← h.state.isSome_task? n] at hsome
  obtain ⟨t', ht'⟩ := Option.isSome_iff_exists.mp hsome
  obtain ⟨t, ht, hkept, hA⟩ := h.state.task? ht'
  exact ⟨t, t', ht, ht', hkept, hA⟩

end Evolved

/-- The outcomes of a loop over the tasks before a task, from what was observed of these. -/
def AllObserved (P : String → Bool → Prop) (l : List String) (b : Bool) : Prop :=
  (b = true → ∀ p ∈ l, P p true) ∧ (b = false → ∃ p ∈ l, P p false)

def AnyObserved (P : String → Bool → Prop) (l : List String) (b : Bool) : Prop :=
  (b = true → ∃ p ∈ l, P p true) ∧ (b = false → ∀ p ∈ l, P p false)

section
variable (f : PipelineRunFacts) (V : String → SkippingReason → Prop)

def DoneObserved (n : String) (b : Bool) : Prop :=
  ∃ r, V n r ∧ b = (r.isSkipped || f.finished n)

def SkipObserved (n : String) (b : Bool) : Prop :=
  ∃ r, V n r ∧ b = (r.isSkipped && r != .whenExpressions)

def ParentsObserved (n : String) (b : Bool) : Prop :=
  if f.isFinalTask n then b = true else AllObserved (DoneObserved f V) (f.tasksGraph.prev n) b

/-- The result of `missesResult`. -/
def MissObserved (t : ResolvedPipelineTask) (e : RefError) (b : Bool) : Prop :=
  if (f.state.task? e.pipelineTask).isNone then b = false
  else if t.pipelineTask.onError = .continues ∨ f.isFinalTask t.name then b = true
  else ∃ r, V e.pipelineTask r ∧ b = (r == .whenExpressions)

/-- The result of `skipBecauseResultReferencesAreMissing`: whether some are, and the form of
the task behind it. -/
inductive ResultsObserved (t : ResolvedPipelineTask) : Bool → PipelineTask → Prop
  | unread (b : Bool) (hparents : ParentsObserved f V t.name b)
      (h : (b && t.hasResultReferences) = false) : ResultsObserved t false t.pipelineTask
  | resolved (refs : List ResolvedResultRef) (hparents : ParentsObserved f V t.name true)
      (hrefs : t.hasResultReferences = true)
      (h : (convertToResultRefs f.state t.pipelineTask).2 = .ok refs) :
      ResultsObserved t false (applyTaskResults t.pipelineTask refs)
  | missing (e : RefError) (hparents : ParentsObserved f V t.name true)
      (hrefs : t.hasResultReferences = true)
      (h : (convertToResultRefs f.state t.pipelineTask).2 = .error e)
      (hmiss : MissObserved f V t e true) : ResultsObserved t true t.pipelineTask
  | unresolved (e : RefError) (hparents : ParentsObserved f V t.name true)
      (hrefs : t.hasResultReferences = true)
      (h : (convertToResultRefs f.state t.pipelineTask).2 = .error e)
      (hmiss : MissObserved f V t e false) : ResultsObserved t false t.pipelineTask

/-- A check of the parents followed by one that needs no further task. -/
def Checked (n : String) (test b : Bool) : Prop :=
  ∃ parents, ParentsObserved f V n parents ∧ b = (parents && test)

def PipelineRunFacts.tasksTimedOut (f : PipelineRunFacts) (n : String) : Bool :=
  !f.isFinalTask n && f.timeoutsState.reached f.timeoutsState.startTime f.timeoutsState.tasksTimeout

/-- What the checks behind that of the results find, which has left the form `pt`. -/
inductive LastOutcome (t : ResolvedPipelineTask) (pt : PipelineTask) : SkippingReason → Prop
  | pipelineTimedOut (hpipeline : Checked f V t.name f.hasTimedOut true) :
      LastOutcome t pt .pipelineTimedOut
  | tasksTimedOut (hpipeline : Checked f V t.name f.hasTimedOut false)
      (htasks : Checked f V t.name (f.tasksTimedOut t.name) true) : LastOutcome t pt .tasksTimedOut
  | matrix (hpipeline : Checked f V t.name f.hasTimedOut false)
      (htasks : Checked f V t.name (f.tasksTimedOut t.name) false) :
      LastOutcome t pt
        (if (t.withTask pt).skipBecauseEmptyArrayInMatrixParams then .emptyArrayInMatrixParams
          else .none)

/-- The result of `skipBecauseOfParents`. -/
inductive ParentOutcome (t : ResolvedPipelineTask) : SkippingReason → Prop
  | whenExpressions
      (hwhen : Checked f V t.name (!t.pipelineTask.when.allowsExecution t.evaluatedCEL) true) :
      ParentOutcome t .whenExpressions
  | parentTasks
      (hwhen : Checked f V t.name (!t.pipelineTask.when.allowsExecution t.evaluatedCEL) false)
      (hparent : AnyObserved (SkipObserved V) (f.tasksGraph.prev t.name) true) :
      ParentOutcome t .parentTasks
  | missingResults (pt : PipelineTask)
      (hwhen : Checked f V t.name (!t.pipelineTask.when.allowsExecution t.evaluatedCEL) false)
      (hparent : AnyObserved (SkipObserved V) (f.tasksGraph.prev t.name) false)
      (hresults : ResultsObserved f V t true pt) : ParentOutcome t .missingResults
  | passed (pt : PipelineTask) {r : SkippingReason}
      (hwhen : Checked f V t.name (!t.pipelineTask.when.allowsExecution t.evaluatedCEL) false)
      (hparent : AnyObserved (SkipObserved V) (f.tasksGraph.prev t.name) false)
      (hresults : ResultsObserved f V t false pt) (hlast : LastOutcome f V t pt r) :
      ParentOutcome t r

/-- The result of `skipReason`. -/
def SkipOutcome (t : ResolvedPipelineTask) (r : SkippingReason) : Prop :=
  if f.isFinalTask t.name || t.isScheduled || f.isValidationFailed t then r = .none
  else if f.isStopping then r = .stopping
  else if f.isGracefullyCancelled then r = .gracefullyCancelled
  else if f.isGracefullyStopped then r = .gracefullyStopped
  else ParentOutcome f V t r

end

/-- A task that a method of `ResolvedPipelineTask` may be called on during the evaluation. -/
def Receiver (f : PipelineRunFacts) (A : String → PipelineTask → Prop)
    (t : ResolvedPipelineTask) : Prop :=
  ∃ t₀, f.state.task? t.name = some t₀ ∧ Kept t₀ t ∧ A t.name t.pipelineTask

theorem Receiver.name_mem {f : PipelineRunFacts} {A : String → PipelineTask → Prop}
    {t : ResolvedPipelineTask} (h : Receiver f A t) : t.name ∈ f.names := by
  obtain ⟨t₀, ht₀, -⟩ := h
  obtain ⟨hmem, hname⟩ := PipelineRunState.mem_of_task? ht₀
  exact mem_map.mpr ⟨t₀, hmem, hname⟩

theorem SameTask.symm {pt pt' : PipelineTask} (h : SameTask pt pt') : SameTask pt' pt :=
  ⟨h.name.symm, h.onError.symm, h.matrixed.symm⟩

variable {e : RefError}

theorem resolveRef_error {s : PipelineRunState} {ref : ResultRef}
    (h : (resolveRef s ref).2 = .error e) : e.pipelineTask = ref.pipelineTask := by
  have hfind : ∀ runs : List ChildRun, findResult runs ref = .error e →
      e.pipelineTask = ref.pipelineTask := by
    intro runs hruns
    unfold findResult at hruns
    split at hruns
    · cases hruns
      rfl
    · split at hruns
      · cases hruns
      · cases hruns
        rfl
  unfold resolveRef at h
  split at h
  · cases h
    rfl
  · rename_i t ht
    split at h
    · cases h
      rfl
    · split at h
      · dsimp only [findResultValuesForMatrix] at h
        split at h
        · cases h
        · cases h
          rfl
      · dsimp only at h
        cases hr : findResult t.runs ref with
        | ok value =>
          rw [hr] at h
          cases h
        | error e' =>
          rw [hr] at h
          cases h
          exact hfind t.runs hr

theorem resolveRefs_error {s : PipelineRunState} {refs : List ResultRef}
    (h : (resolveRefs s refs).2 = .error e) : ∃ ref ∈ refs, e.pipelineTask = ref.pipelineTask := by
  induction refs generalizing s with
  | nil => cases h
  | cons ref refs ih =>
    unfold resolveRefs at h
    rcases hr : resolveRef s ref with ⟨s', r⟩
    rw [hr] at h
    cases r with
    | error e' =>
      cases h
      refine ⟨ref, mem_cons_self, resolveRef_error (s := s) ?_⟩
      rw [hr]
    | ok resolved =>
      dsimp only at h
      rcases hrs : resolveRefs s' refs with ⟨s'', r'⟩
      rw [hrs] at h
      cases r' with
      | ok rest => cases h
      | error e' =>
        cases h
        obtain ⟨ref', hmem, heq⟩ := ih (s := s') (by rw [hrs])
        exact ⟨ref', mem_cons_of_mem ref hmem, heq⟩

section
variable {total : Bool} {f : PipelineRunFacts} {A : String → PipelineTask → Prop}
  {V : String → SkippingReason → Prop} {skip : SkipFn} {t : ResolvedPipelineTask}

/-- What is asked of `Skip` for a task. -/
def Answers (total : Bool) (f : PipelineRunFacts) (A : String → PipelineTask → Prop)
    (V : String → SkippingReason → Prop) (skip : SkipFn) (n : String) : Prop :=
  ∀ pointer, Runs total (Evolved f A V) (skip pointer n) fun r g => Evolved f A V g ∧ V n r

/-- What is asked of `Skip` for the tasks that the evaluation of one looks at. -/
structure AnswersFor (total : Bool) (f : PipelineRunFacts) (A : String → PipelineTask → Prop)
    (V : String → SkippingReason → Prop) (skip : SkipFn) (n : String) : Prop where
  parent : f.isFinalTask n = false → ∀ p ∈ f.tasksGraph.prev n, Answers total f A V skip p
  ref : f.isFinalTask n = false → ∀ pt, A n pt → ∀ ref ∈ pipelineTaskResultRefs pt,
    Answers total f A V skip ref.pipelineTask

theorem taskOf_runs (hn : total = true → n ∈ f.names) :
    Keeps total (Evolved f A V) (taskOf n) fun t => t.name = n ∧ Receiver f A t := by
  refine .get_bind fun g hg => ?_
  cases ht : g.state.task? n with
  | none =>
    cases total with
    | false => exact .stuck
    | true =>
      obtain ⟨-, t, -, ht', -⟩ := hg.task? (hn rfl)
      rw [ht] at ht'
      cases ht'
  | some t =>
    obtain ⟨t₀, ht₀, hkept, hA⟩ := hg.state.task? ht
    have hname : t.name = n := (PipelineRunState.mem_of_task? ht).2
    exact .pure ⟨hname, t₀, hname ▸ ht₀, hkept, hname ▸ hA⟩

theorem finished_runs (hn : total = true → n ∈ f.names) :
    Keeps total (Evolved f A V)
      (do
        let t ← taskOf n
        let f ← get
        return t.isSuccessful || t.isFailure || f.isValidationFailed t : Facts Bool)
      (· = f.finished n) := by
  refine (taskOf_runs hn).bind fun t ht => .get_bind fun g hg => .pure ?_
  obtain ⟨rfl, t₀, ht₀, hkept, -⟩ := ht
  simp only [PipelineRunFacts.finished, ht₀, hkept.isSuccessful_eq, hkept.isFailure_eq,
    hg.isValidationFailed_eq hkept.fields.2.1]

theorem isDone_runs (hn : total = true → n ∈ f.names) (hskip : Answers total f A V skip n) :
    Keeps total (Evolved f A V) (isDone skip n) (DoneObserved f V n) := by
  refine Keeps.bind (hskip false) fun r hr => .ite (fun hskipped => ?_) fun hskipped => ?_
  · exact .pure ⟨r, hr, by simp [hskipped]⟩
  · refine (finished_runs hn).imp fun b hb => ⟨r, hr, ?_⟩
    simp [hskipped, hb]

structure Setting (total : Bool) (f : PipelineRunFacts) (A : String → PipelineTask → Prop)
    (V : String → SkippingReason → Prop) (skip : SkipFn) (t : ResolvedPipelineTask) : Prop where
  nodup : f.names.Nodup
  wellFormed : total = true → WellFormed f
  forms : Forms f A
  receiver : Receiver f A t
  skip : AnswersFor total f A V skip t.name

theorem Setting.receiver_form (h : Setting total f A V skip t) : A t.name t.pipelineTask := by
  obtain ⟨-, -, -, hA⟩ := h.receiver
  exact hA

theorem Setting.isDAGTask (h : Setting total f A V skip t)
    (hfinal : f.isFinalTask t.name = false) (htotal : total = true) :
    f.isDAGTask t.name = true := by
  rcases (h.wellFormed htotal).placed t.name h.receiver.name_mem with hdag | hmem
  · simpa [PipelineRunFacts.isDAGTask] using hdag
  · simp [PipelineRunFacts.isFinalTask, hmem] at hfinal

theorem Setting.withTask (h : Setting total f A V skip t) {pt : PipelineTask}
    (hsame : SameTask t.pipelineTask pt) (hA : A t.name pt) :
    Setting total f A V skip (t.withTask pt) := by
  have hname : (t.withTask pt).name = t.name := hsame.name
  obtain ⟨t₀, ht₀, hkept, -⟩ := h.receiver
  refine ⟨h.nodup, h.wellFormed, h.forms, ⟨t₀, ?_, hkept.write hsame, ?_⟩, ?_⟩
  · rw [hname]
    exact ht₀
  · rw [hname]
    exact hA
  · rw [hname]
    exact h.skip

variable (h : Setting total f A V skip t)
include h

theorem checkParentsDone_runs :
    Keeps total (Evolved f A V) (checkParentsDone skip t) (ParentsObserved f V t.name) := by
  refine .get_bind fun g hg => ?_
  unfold ParentsObserved
  rw [hg.isFinalTask_eq, hg.isDAGTask_eq, hg.tasksGraph]
  refine .ite (fun hfinal => .pure (by simp [hfinal])) fun hfinal => ?_
  simp only [hfinal]
  rw [Bool.not_eq_true] at hfinal
  refine .ite (fun hdag => ?_) fun hdag => ?_
  · exact .allOf fun p hp => isDone_runs
      (fun htotal => (h.wellFormed htotal).dag p (Dag.prev_mem_nodes hp).1)
      (h.skip.parent hfinal p hp)
  · cases total with
    | false => exact .stuck
    | true => exact absurd (h.isDAGTask hfinal rfl) hdag

theorem checked_runs {test : Bool} {rest : Facts Bool}
    (hrest : Keeps total (Evolved f A V) rest (· = test)) : Keeps total (Evolved f A V)
      (checkParentsDone skip t >>= fun b => if b = true then rest else pure false)
      (Checked f V t.name test) :=
  (checkParentsDone_runs h).bind_ite (fun hb => hrest.imp fun r hr => ⟨true, hb, by simp [hr]⟩)
    fun hb => .pure ⟨false, hb, rfl⟩

theorem skipBecauseWhen_runs :
    Keeps total (Evolved f A V) (skipBecauseWhenExpressionsEvaluatedToFalse skip t)
      (Checked f V t.name (!t.pipelineTask.when.allowsExecution t.evaluatedCEL)) :=
  checked_runs h (.pure rfl)

theorem skipBecauseTimeoutReached_runs
    {reached : PipelineRunFacts → Bool} (hreached : ∀ g, Evolved f A V g → reached g = reached f) :
    Keeps total (Evolved f A V) (skipBecauseTimeoutReached skip t reached)
      (Checked f V t.name (reached f)) :=
  checked_runs h (.get_bind fun g hg => .pure (hreached g hg))

theorem skipBecausePipelineTimeout_runs :
    Keeps total (Evolved f A V) (skipBecausePipelineRunPipelineTimeoutReached skip t)
      (Checked f V t.name f.hasTimedOut) := by
  refine skipBecauseTimeoutReached_runs h fun g hg => ?_
  rw [hg.timeoutsState]

theorem skipBecauseTasksTimeout_runs :
    Keeps total (Evolved f A V) (skipBecausePipelineRunTasksTimeoutReached skip t)
      (Checked f V t.name (f.tasksTimedOut t.name)) := by
  refine skipBecauseTimeoutReached_runs h fun g hg => ?_
  rw [hg.timeoutsState, hg.isFinalTask_eq]

theorem skipBecauseParentTaskWasSkipped_runs (hfinal : f.isFinalTask t.name = false) :
    Keeps total (Evolved f A V) (skipBecauseParentTaskWasSkipped skip t)
      (AnyObserved (SkipObserved V) (f.tasksGraph.prev t.name)) := by
  refine .get_bind fun g hg => ?_
  rw [hg.isDAGTask_eq, hg.tasksGraph]
  refine .ite (fun hdag => .anyOf fun p hp => ?_) fun hdag => ?_
  · exact Keeps.bind (h.skip.parent hfinal p hp true) fun r hr => .pure ⟨r, hr, rfl⟩
  · cases total with
    | false => exact .stuck
    | true => exact absurd (h.isDAGTask hfinal rfl) hdag

theorem resolveResultRefs_runs : Keeps total (Evolved f A V) (resolveResultRefs t)
    (· = (convertToResultRefs f.state t.pipelineTask).2) := by
  intro g hg
  obtain ⟨hkept, heq⟩ := hg.state.resolveRefs h.nodup (pipelineTaskResultRefs t.pipelineTask)
    (KeptState.refl h.forms.start)
  exact ⟨{ hg with state := hkept }, heq⟩

theorem applyResults_runs (pointer : Bool)
    {refs : List ResolvedResultRef} (hA : A t.name (applyTaskResults t.pipelineTask refs)) :
    Keeps total (Evolved f A V) (applyResults pointer t refs)
      (· = t.withTask (applyTaskResults t.pipelineTask refs)) := by
  intro g hg
  obtain ⟨t₀, ht₀, hkept, -⟩ := h.receiver
  refine ⟨{ hg with state := ?_, cache := by simp }, rfl⟩
  cases pointer with
  | false => exact hg.state
  | true =>
    refine hg.state.write (fun u hu hname => ?_) hA
    have hnodup : (g.state.map (·.name)).Nodup := by
      rw [hg.state.names_eq]
      exact h.nodup
    obtain ⟨u₀, hu₀, hkept', -⟩ := hg.state.task? (PipelineRunState.task?_of_mem hnodup hu)
    rw [hname, ht₀] at hu₀
    obtain rfl := Option.some.inj hu₀
    exact (hkept'.task.symm.trans hkept.task).trans (sameTask_applyTaskResults _ _)

theorem missesResult_runs (he : (convertToResultRefs f.state t.pipelineTask).2 = .error e) :
    Keeps total (Evolved f A V) (missesResult skip t e) (MissObserved f V t e) := by
  refine .get_bind fun g hg => ?_
  unfold MissObserved
  rw [hg.isFinalTask_eq, ← Option.not_isSome, ← Option.not_isSome, hg.state.isSome_task?]
  refine .ite (fun hnone => .pure (by rw [if_pos hnone])) fun hsome => ?_
  simp only [if_neg hsome]
  refine .ite (fun hfree => .pure (by rw [if_pos hfree])) fun hbound => ?_
  simp only [if_neg hbound]
  rw [not_or, Bool.not_eq_true] at hbound
  obtain ⟨ref, href, heq⟩ := resolveRefs_error he
  have hanswer := h.skip.ref hbound.2 t.pipelineTask h.receiver_form ref href true
  rw [← heq] at hanswer
  exact Keeps.bind hanswer fun r hr => .pure ⟨r, hr, rfl⟩

theorem skipBecauseResultReferencesAreMissing_runs (hopen : f.isStarted t.name = false)
    (pointer : Bool) :
    Keeps total (Evolved f A V) (skipBecauseResultReferencesAreMissing skip pointer t)
      fun r => ∃ pt, SameTask t.pipelineTask pt ∧ A t.name pt ∧
        r.2 = t.withTask pt ∧ ResultsObserved f V t r.1 pt := by
  refine (checkParentsDone_runs h).bind fun parents hparents =>
    .ite (fun hread => ?_) fun hunread => ?_
  · rw [Bool.and_eq_true] at hread
    obtain ⟨rfl, hrefs⟩ := hread
    refine (resolveResultRefs_runs h).bind fun r hr => ?_
    cases r with
    | ok refs =>
      have hA := h.forms.write t.name t.pipelineTask refs hopen h.receiver_form hr.symm
      refine (applyResults_runs h pointer hA).bind fun t' ht' => .pure ?_
      exact ⟨_, sameTask_applyTaskResults _ _, hA, ht', .resolved refs hparents hrefs hr.symm⟩
    | error e =>
      refine (missesResult_runs h hr.symm).bind_ite (fun hb => .pure ?_) fun hb => ?_
      · exact ⟨_, .refl _, h.receiver_form, rfl, .missing e hparents hrefs hr.symm hb⟩
      · have hnil := applyTaskResults_nil t.pipelineTask
        have hA : A t.name (applyTaskResults t.pipelineTask []) := by
          rw [hnil]
          exact h.receiver_form
        have happly := applyResults_runs h pointer hA
        rw [hnil] at happly
        refine happly.bind fun t' ht' => .pure ?_
        exact ⟨_, .refl _, h.receiver_form, ht', .unresolved e hparents hrefs hr.symm hb⟩
  · exact .pure ⟨_, .refl _, h.receiver_form, rfl,
      .unread parents hparents (by simpa using hunread)⟩

theorem Setting.isStarted (hopen : t.isScheduled = false) : f.isStarted t.name = false := by
  obtain ⟨t₀, ht₀, hkept, -⟩ := h.receiver
  rw [PipelineRunFacts.isStarted, ht₀, Option.any_some, ← hkept.isScheduled_eq, hopen,
    Bool.and_false]

theorem skipBecauseOfParents_runs (hfinal : f.isFinalTask t.name = false)
    (hopen : t.isScheduled = false) (pointer : Bool) :
    Keeps total (Evolved f A V) (skipBecauseOfParents skip pointer t) (ParentOutcome f V t) := by
  refine (skipBecauseWhen_runs h).bind_ite (fun hwhen => .pure (.whenExpressions hwhen))
    fun hwhen => ?_
  refine (skipBecauseParentTaskWasSkipped_runs h hfinal).bind_ite
    (fun hparent => .pure (.parentTasks hwhen hparent)) fun hparent => ?_
  refine (skipBecauseResultReferencesAreMissing_runs h (h.isStarted hopen) pointer).bind
    fun r hr => ?_
  rcases r with ⟨missing, t'⟩
  obtain ⟨pt, hsame, hA, rfl, hresults⟩ := hr
  have h' := h.withTask hsame hA
  have hname : (t.withTask pt).name = t.name := hsame.name
  cases missing with
  | true => exact .pure (.missingResults pt hwhen hparent hresults)
  | false =>
    have hpassed {r} := ParentOutcome.passed (r := r) pt hwhen hparent hresults
    have hpipeline := skipBecausePipelineTimeout_runs h'
    have htasks := skipBecauseTasksTimeout_runs h'
    rw [hname] at hpipeline htasks
    refine hpipeline.bind_ite (fun hpipeline => .pure (hpassed (.pipelineTimedOut hpipeline)))
      fun hpipeline => ?_
    refine htasks.bind_ite (fun htasks => .pure (hpassed (.tasksTimedOut hpipeline htasks)))
      fun htasks => ?_
    have hlast := hpassed (.matrix hpipeline htasks)
    refine .ite (fun hb => ?_) fun hb => ?_
    · rw [if_pos hb] at hlast
      exact .pure hlast
    · rw [if_neg hb] at hlast
      exact .pure hlast

theorem skipReason_runs (pointer : Bool) :
    Keeps total (Evolved f A V) (skipReason skip pointer t) (SkipOutcome f V t) := by
  refine .get_bind fun g hg => ?_
  unfold SkipOutcome PipelineRunFacts.isGracefullyCancelled PipelineRunFacts.isGracefullyStopped
  rw [hg.isFinalTask_eq, hg.isValidationFailed_eq rfl, hg.isStopping_eq, hg.specStatus]
  refine .ite (fun hnone => .pure (by rw [if_pos hnone])) fun hopen => ?_
  simp only [if_neg hopen]
  refine .ite (fun hstop => .pure (by rw [if_pos hstop])) fun hstop => ?_
  simp only [if_neg hstop]
  refine .ite (fun hcancel => .pure (by rw [if_pos hcancel])) fun hcancel => ?_
  simp only [if_neg hcancel]
  refine .ite (fun hstopped => .pure (by rw [if_pos hstopped])) fun hstopped => ?_
  simp only [if_neg hstopped]
  simp only [Bool.or_eq_true, not_or, Bool.not_eq_true] at hopen
  exact skipBecauseOfParents_runs h hopen.1.1 hopen.1.2 pointer

end

/-- What a whole evaluation starts from. `V` is closed: it holds of what is returned for a
task if it holds of what was returned for the tasks before. -/
structure Evaluation (total : Bool) (f : PipelineRunFacts) (A : String → PipelineTask → Prop)
    (V : String → SkippingReason → Prop) : Prop where
  nodup : f.names.Nodup
  wellFormed : total = true → WellFormed f
  forms : Forms f A
  refersBack : total = true → RefersBack f A
  closed : ∀ t r, Receiver f A t → SkipOutcome f V t r → V t.name r

section
variable {total : Bool} {f : PipelineRunFacts} {A : String → PipelineTask → Prop}
  {V : String → SkippingReason → Prop} (h : Evaluation total f A V)
include h

/-- By induction on the fuel. A task that is looked at ranks below the one it is looked at
for, so the fuel lasts. -/
theorem skipFuel_runs {rank : String → Nat}
    (hrank : ∀ p n, p ∈ f.tasksGraph.prev n → rank p < rank n) (fuel : Nat) (n : String)
    (hfuel : total = true → n ∈ f.names ∧ rank n < fuel) :
    Answers total f A V (skipFuel fuel) n := by
  induction fuel generalizing n with
  | zero =>
    intro pointer
    cases total with
    | false => exact Keeps.stuck
    | true => exact absurd (hfuel rfl).2 (Nat.not_lt_zero _)
  | succ fuel ih =>
    intro pointer
    have hbefore : ∀ p, (total = true → p ∈ f.tasksGraph.prev n) →
        Answers total f A V (skipFuel fuel) p := by
      intro p hp
      refine ih p fun htotal => ?_
      have hlt := hrank p n (hp htotal)
      have hle := (hfuel htotal).2
      exact ⟨(h.wellFormed htotal).dag p (Dag.prev_mem_nodes (hp htotal)).1, by omega⟩
    refine Keeps.get_bind fun g hg => ?_
    cases hcache : g.skipCache.lookup n with
    | some reason => exact .pure (hg.cache n reason hcache)
    | none =>
      refine (taskOf_runs fun htotal => (hfuel htotal).1).bind fun t ht => ?_
      obtain ⟨rfl, hreceiver⟩ := ht
      have hsetting : Setting total f A V (skipFuel fuel) t :=
        { nodup := h.nodup
          wellFormed := h.wellFormed
          forms := h.forms
          receiver := hreceiver
          skip :=
            { parent := fun _ p hp => hbefore p fun _ => hp
              ref := fun hfinal pt hA ref href =>
                hbefore _ fun htotal => h.refersBack htotal _ pt hfinal hA ref href } }
      refine (skipReason_runs hsetting pointer).bind fun r hr => ?_
      have hv := h.closed t r hreceiver hr
      refine Keeps.bind (.modify (T := fun _ => True) (fun g' hg' => ?_) trivial)
        fun _ _ => .pure hv
      refine { hg' with cache := fun m r' hm => ?_ }
      rw [lookup_cons] at hm
      split at hm
      · rename_i heq
        obtain rfl : m = t.name := by simpa using heq
        obtain rfl := Option.some.inj hm
        exact hv
      · exact hg'.cache m r' hm

theorem skip_runs (hn : total = true → n ∈ f.names) : Answers total f A V skip n := by
  intro pointer
  obtain ⟨rank, hrank, hbound⟩ := f.tasksGraph.bounded_rank
  refine Keeps.get_bind fun g hg => ?_
  rw [hg.tasksGraph]
  refine skipFuel_runs h hrank (f.tasksGraph.nodes.length + 1) n (fun htotal => ?_) pointer
  exact ⟨hn htotal, Nat.lt_succ_of_le (hbound n)⟩

theorem isDone_skip_runs (hn : n ∈ f.names) :
    Keeps total (Evolved f A V) (isDone skip n) (DoneObserved f V n) :=
  isDone_runs (fun _ => hn) (skip_runs h fun _ => hn)

theorem completedOrSkippedDAGTasks_runs :
    Keeps total (Evolved f A V) completedOrSkippedDAGTasks fun done =>
      done.Sublist (f.names.filter fun n => f.isDAGTask n) ∧ (∀ n ∈ done, DoneObserved f V n true) ∧
        ∀ n ∈ f.names, f.isDAGTask n = true → n ∉ done → DoneObserved f V n false := by
  refine .get_bind fun g hg => ?_
  have hdag : g.isDAGTask = f.isDAGTask := funext hg.isDAGTask_eq
  rw [hg.names_eq, hdag]
  refine (Keeps.filterOf fun n hn => isDone_skip_runs h (mem_filter.mp hn).1).imp ?_
  rintro done ⟨hsub, hdone, hopen⟩
  exact ⟨hsub, hdone, fun n hn hdagn => hopen n (mem_filter.mpr ⟨hn, hdagn⟩)⟩

theorem checkTasksDone_runs (gr : Graph) :
    Keeps total (Evolved f A V) (checkTasksDone gr)
      (AllObserved (DoneObserved f V) (f.names.filter fun n => decide (n ∈ gr.nodes))) := by
  refine .get_bind fun g hg => ?_
  rw [hg.names_eq]
  exact .allOf fun n hn => isDone_skip_runs h (mem_filter.mp hn).1

end

end TektonPipeline.Pipeline
