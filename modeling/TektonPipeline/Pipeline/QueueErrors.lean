import TektonPipeline.Pipeline.Resolve

/-! A PipelineRun while its tasks are started and their runs finish, and when the scheduler
rejects what it has found to be done. -/

namespace TektonPipeline.Pipeline
open Api Stateful TaskRunReconciler List

/-- The moves of a PipelineRun. A reconcile may start a task once all tasks before it are
done; it may fail before all runs of the task are created. -/
inductive Step (pr : PipelineRun) : Cluster → Cluster → Prop
  | start {c : Cluster} {refs : List ChildReference} {f g : PipelineRunFacts} {done : List String}
      {t : ResolvedPipelineTask} (created : Nat) (hrefs : Recovered c refs)
      (hf : reconcileFacts pr c refs = .ok f) (ht : t ∈ f.state)
      (hdag : f.isDAGTask t.name = true) (hopen : t.taskRuns = [] ∧ t.customRuns = [])
      (hdone : completedOrSkippedDAGTasks f = some (done, g))
      (hparents : ∀ p ∈ f.tasksGraph.prev t.name, p ∈ done) :
      Step pr c { c with objects := c.objects ++ (createRuns t).take created }
  | finish {c : Cluster} (o : RunObject) (condition : Condition)
      (results : List (String × ResultValue)) (ho : o ∈ c.objects) (hrunning : o.run.isDone = false)
      (hcondition : condition.status ≠ .unknown) :
      Step pr c
        { c with objects := c.objects.map fun o' =>
            if o' = o then o.finish condition results else o' }
  | stop (c : Cluster) : Step pr c { c with specStatus := .stoppedRunFinally }
  | tick (c : Cluster) (now : Nat) :
      Step pr c { c with timeoutsState := { c.timeoutsState with now := now } }

def Reached (pr : PipelineRun) (c : Cluster) : Prop :=
  ∃ c₀ : Cluster, c₀.objects = [] ∧ c₀.specStatus = .none ∧ Relation.ReflTransGen (Step pr) c₀ c

variable {c : Cluster} {pr : PipelineRun}

theorem Reached.specStatus (h : Reached pr c) :
    c.specStatus = .none ∨ c.specStatus = .stoppedRunFinally := by
  obtain ⟨c₀, -, hstatus, hsteps⟩ := h
  induction hsteps with
  | refl => exact .inl hstatus
  | tail _ hstep ih =>
    cases hstep with
    | start => exact ih
    | finish => exact ih
    | stop => exact .inr rfl
    | tick => exact ih

section
variable {f : PipelineRunFacts}

/-- Every task that is done is a root or behind another one. -/
def DoneGrounded (f : PipelineRunFacts) : Prop :=
  ∀ n ∈ f.tasksGraph.nodes, f.done n = true →
    f.tasksGraph.prev n = [] ∨ ∃ p ∈ f.tasksGraph.prev n, f.done p = true

theorem accepts_iff_grounded (h : Steady f)
    (hcancel : (f.isCancelled || f.isGracefullyCancelled) = false) :
    (∃ queue g, dagExecutionQueue f = some (.ok queue, g)) ↔ DoneGrounded f := by
  obtain ⟨done, g, hrun, -, hmem⟩ := h.completedOrSkippedDAGTasks
  obtain ⟨hnodes, hqueue⟩ := dagExecutionQueue_of_done h.nodup hcancel hrun
  have hgrounded : Grounded f.tasksGraph.toGraph done ↔ DoneGrounded f := by
    unfold Grounded
    simp only [hmem]
    constructor
    · intro hg n hn hdone
      refine (hg n ⟨hn, hdone⟩).imp_right ?_
      rintro ⟨p, hp, -, hp'⟩
      exact ⟨p, hp, hp'⟩
    · rintro hg n ⟨hn, hdone⟩
      refine (hg n hn hdone).imp_right ?_
      rintro ⟨p, hp, hp'⟩
      exact ⟨p, hp, (Dag.prev_mem_nodes hp).1, hp'⟩
  rw [← hgrounded, ← getCandidateTasks_isOk_iff hnodes, hqueue]
  cases getCandidateTasks f.tasksGraph.toGraph done with
  | error e => simp
  | ok candidates => simp

def Accepted (f : PipelineRunFacts) : Prop :=
  ∀ t ∈ f.state, f.isDAGTask t.name = true → f.tasksGraph.prev t.name ≠ [] →
    if f.isStopping || f.isGracefullyStopped then
      t.isRunning = false →
        ∃ p ∈ f.state, p.name ∈ f.tasksGraph.prev t.name ∧ p.isRunning = false
    else
      (t.isSuccessful || t.isFailure ||
        (!t.isScheduled && t.skipBecauseEmptyArrayInMatrixParams)) = true →
        ∃ p ∈ f.tasksGraph.prev t.name, f.done p = true

variable {t : ResolvedPipelineTask} (h : Steady f) (hvalid : f.validationFailedTask = [])
include h hvalid

theorem finished_of_mem (ht : t ∈ f.state) :
    f.finished t.name = (t.isSuccessful || t.isFailure) := by
  unfold PipelineRunFacts.finished PipelineRunFacts.isValidationFailed
  rw [PipelineRunState.task?_of_mem h.nodup ht, hvalid]
  simp

variable (hcancel : f.isGracefullyCancelled = false)
include hcancel

theorem done_while_stopping
    (hstop : (f.isStopping || f.isGracefullyStopped) = true) (ht : t ∈ f.state)
    (hfinal : f.isFinalTask t.name = false) : f.done t.name = !t.isRunning := by
  unfold PipelineRunFacts.done
  rw [h.reason_eq ht, finished_of_mem h hvalid ht]
  unfold PipelineRunFacts.reasonBy PipelineRunFacts.isValidationFailed
  rw [hfinal, hvalid, hcancel, any_nil, Bool.false_or, Bool.or_false]
  unfold ResolvedPipelineTask.isScheduled ResolvedPipelineTask.isRunning
  cases hruns : t.runs.isEmpty with
  | false => cases t.isSuccessful <;> cases t.isFailure <;> rfl
  | true =>
    rw [Bool.or_eq_true] at hstop
    rcases hstop with hstop | hstop
    · rw [hstop]
      rfl
    · rw [hstop]
      cases f.isStopping <;> rfl

/-- A task none of whose parents is done is itself done only if it has finished, or if its
matrix has no combinations. -/
theorem done_without_parents
    (hstop : (f.isStopping || f.isGracefullyStopped) = false) (ht : t ∈ f.state)
    (hfinal : f.isFinalTask t.name = false) (hprev : f.tasksGraph.prev t.name ≠ [])
    (hparents : ∀ p ∈ f.tasksGraph.prev t.name, f.done p = false) :
    f.done t.name = (t.isSuccessful || t.isFailure ||
      (!t.isScheduled && t.skipBecauseEmptyArrayInMatrixParams)) := by
  have hopen : f.parentsDoneBy f.reason t.name = false := by
    unfold PipelineRunFacts.parentsDoneBy
    rw [hfinal, Bool.false_or, all_eq_false]
    obtain ⟨p, hp⟩ := exists_mem_of_ne_nil _ hprev
    exact ⟨p, hp, by rw [← PipelineRunFacts.done, hparents p hp]; simp⟩
  have hskipped : f.parentSkippedBy f.reason t.name = false := by
    unfold PipelineRunFacts.parentSkippedBy
    rw [any_eq_false]
    intro p hp
    have hdone := hparents p hp
    unfold PipelineRunFacts.done at hdone
    rw [Bool.or_eq_false_iff] at hdone
    simp [hdone.1]
  rw [Bool.or_eq_false_iff] at hstop
  unfold PipelineRunFacts.done
  rw [h.reason_eq ht, finished_of_mem h hvalid ht]
  unfold PipelineRunFacts.reasonBy PipelineRunFacts.isValidationFailed
    PipelineRunFacts.parentReasonBy
  rw [hfinal, hvalid, hcancel, hstop.1, hstop.2, hopen, hskipped, any_nil, Bool.false_or,
    Bool.or_false]
  cases t.isScheduled with
  | true => cases t.isSuccessful <;> cases t.isFailure <;> rfl
  | false =>
    cases t.skipBecauseEmptyArrayInMatrixParams <;> cases t.isSuccessful <;>
      cases t.isFailure <;> rfl

theorem accepted_iff (hdisjoint : ∀ n ∈ f.tasksGraph.nodes, f.isFinalTask n = false) :
    DoneGrounded f ↔ Accepted f := by
  have htask : ∀ n ∈ f.tasksGraph.nodes, ∃ t ∈ f.state, t.name = n := by
    intro n hn
    exact mem_map.mp (h.dag n hn)
  have hstate : DoneGrounded f ↔
      ∀ t ∈ f.state, f.isDAGTask t.name = true → f.tasksGraph.prev t.name ≠ [] →
        f.done t.name = true → ∃ p ∈ f.tasksGraph.prev t.name, f.done p = true := by
    constructor
    · intro hg t _ hdag hprev hdone
      exact (hg t.name (of_decide_eq_true hdag) hdone).resolve_left hprev
    · intro hg n hn hdone
      obtain ⟨t, ht, rfl⟩ := htask n hn
      exact or_iff_not_imp_left.mpr fun hprev => hg t ht (decide_eq_true hn) hprev hdone
  rw [hstate, Accepted]
  refine forall₂_congr fun t ht => forall₂_congr fun hdag hprev => ?_
  have hnode : t.name ∈ f.tasksGraph.nodes := of_decide_eq_true hdag
  split
  · rename_i hstop
    have hdone : ∀ t ∈ f.state, t.name ∈ f.tasksGraph.nodes → f.done t.name = !t.isRunning :=
      fun t ht hn => done_while_stopping h hvalid hcancel hstop ht (hdisjoint _ hn)
    rw [hdone t ht hnode, Bool.not_eq_true']
    refine imp_congr_right fun _ => ⟨?_, ?_⟩
    · rintro ⟨p, hp, hpdone⟩
      have hpnode := (Dag.prev_mem_nodes hp).1
      obtain ⟨u, hu, rfl⟩ := htask p hpnode
      exact ⟨u, hu, hp, by simpa [hdone u hu hpnode] using hpdone⟩
    · rintro ⟨u, hu, hp, hrunning⟩
      exact ⟨u.name, hp, by simp [hdone u hu (Dag.prev_mem_nodes hp).1, hrunning]⟩
  · rename_i hstop
    by_cases hex : ∃ p ∈ f.tasksGraph.prev t.name, f.done p = true
    · exact iff_of_true (fun _ => hex) fun _ => hex
    · have hparents : ∀ p ∈ f.tasksGraph.prev t.name, f.done p = false := by
        intro p hp
        rw [← Bool.not_eq_true]
        exact fun hdone => hex ⟨p, hp, hdone⟩
      rw [done_without_parents h hvalid hcancel (Bool.not_eq_true _ ▸ hstop) ht
        (hdisjoint _ hnode) hprev hparents]

end

theorem reconcileFacts_disjoint {refs : List ChildReference} {f : PipelineRunFacts}
    (h : reconcileFacts pr c refs = .ok f) {n : String} (hn : n ∈ f.tasksGraph.nodes) :
    f.isFinalTask n = false := by
  obtain ⟨-, hgraph, hfinal, -⟩ := reconcileFacts_ok h
  have hnodup := pr.nodup
  rw [map_append, nodup_append] at hnodup
  rw [hgraph, pr.nodes_eq] at hn
  unfold PipelineRunFacts.isFinalTask
  rw [hfinal, decide_eq_false_iff_not]
  exact fun hmem => hnodup.2.2 n hn n hmem rfl

/-- In every state that a PipelineRun comes to, the scheduler accepts what is done exactly
if the state is an accepted one. -/
theorem dagExecutionQueue_accepts_iff (pr : PipelineRun) (c : Cluster) (hreached : Reached pr c)
    (refs : List ChildReference) (f : PipelineRunFacts) (hf : reconcileFacts pr c refs = .ok f)
    (hplain : PlainResults f) :
    (∃ queue g, dagExecutionQueue f = some (.ok queue, g)) ↔ Accepted f := by
  have hsteady := reconcileFacts_steady hf hplain
  obtain ⟨-, -, -, hstatus, -, hvalid⟩ := reconcileFacts_ok hf
  have hcancel : f.isCancelled = false ∧ f.isGracefullyCancelled = false := by
    unfold PipelineRunFacts.isCancelled PipelineRunFacts.isGracefullyCancelled
    rw [hstatus]
    rcases hreached.specStatus with hc | hc <;> rw [hc] <;> exact ⟨rfl, rfl⟩
  rw [accepts_iff_grounded hsteady (by rw [hcancel.1, hcancel.2]; rfl)]
  exact accepted_iff hsteady hvalid hcancel.2 fun n hn => reconcileFacts_disjoint hf hn

def startable (f : PipelineRunFacts) (name : String) (objects : List RunObject) : Bool :=
  match f.state.task? name, completedOrSkippedDAGTasks f with
  | some t, some (done, _) =>
    f.isDAGTask name && (t.taskRuns.isEmpty && t.customRuns.isEmpty) &&
      (f.tasksGraph.prev name).all (fun p => decide (p ∈ done)) &&
      decide (createRuns t = objects)
  | _, _ => false

theorem step_of_startable (name : String) {objects : List RunObject}
    (h : (match reconcileFacts pr c (c.objects.map (·.childReference)) with
      | .ok f => startable f name objects
      | .error _ => false) = true) :
    Step pr c { c with objects := c.objects ++ objects } := by
  cases hf : reconcileFacts pr c (c.objects.map (·.childReference)) with
  | error e => simp [hf] at h
  | ok f =>
    rw [hf] at h
    unfold startable at h
    dsimp only at h
    cases ht : f.state.task? name with
    | none => simp [ht] at h
    | some t =>
      cases hdone : completedOrSkippedDAGTasks f with
      | none => simp [ht, hdone] at h
      | some r =>
        obtain ⟨done, g⟩ := r
        obtain ⟨hmem, rfl⟩ := PipelineRunState.mem_of_task? ht
        simp only [ht, hdone, Bool.and_eq_true, decide_eq_true_eq, all_eq_true,
          List.isEmpty_iff] at h
        obtain ⟨⟨⟨hdag, htr, hcr⟩, hparents⟩, rfl⟩ := h
        have hstep :=
          Step.start (createRuns t).length (.refl _) hf hmem hdag ⟨htr, hcr⟩ hdone hparents
        rwa [take_length] at hstep

def checkedBuild : PipelineRun where
  name := "run"
  childName := fun parent suffix => parent ++ suffix
  evaluate := fun _ => .ok true
  tasks := [{ name := "build" }, { name := "lint" }, { name := "test", runAfter := ["build"] }]
  tasksGraph :=
    { nodes := ["build", "lint", "test"]
      links := [("build", "test")]
      nodup := by decide
      ends := by decide
      acyclic := ⟨fun n => if n = "test" then 1 else 0, by decide⟩ }
  built := by
    unfold BuiltFrom
    decide +kernel
  nodup := by decide

def buildRun : RunObject := ⟨{ name := "run-build" }, "build", false⟩

def lintRun : RunObject := ⟨{ name := "run-lint" }, "lint", false⟩

def lintFailed : RunObject := lintRun.finish ⟨.isFalse, "Failed", ""⟩ []

/-- The facts that are read off the runs in the order in which they were created. -/
def factsOf (pr : PipelineRun) (c : Cluster) : Except String PipelineRunFacts :=
  reconcileFacts pr c (c.objects.map (·.childReference))

theorem plainResults_of_no_refs {f : PipelineRunFacts}
    (h : ∀ t ∈ f.state, pipelineTaskResultRefs t.pipelineTask = []) : PlainResults f := by
  refine ⟨fun t ht _ _ refs hrefs => ?_, fun t ht _ ref href => ?_⟩
  · rw [convertToResultRefs, h t ht] at hrefs
    cases hrefs
    exact applyTaskResults_nil _
  · rw [h t ht] at href
    cases href

theorem exists_ok {ε α : Type} {x : Except ε α} {P : α → Bool}
    (h : (match x with
      | .ok a => P a
      | .error _ => false) = true) : ∃ a, x = .ok a ∧ P a = true := by
  cases x with
  | error e => cases h
  | ok a => exact ⟨a, rfl, h⟩

theorem lintRunning_reached : Reached checkedBuild { objects := [buildRun, lintRun] } := by
  refine ⟨{}, rfl, rfl, ?_⟩
  have hbuild : Step checkedBuild {} { objects := [] ++ [buildRun] } :=
    step_of_startable "build" (by decide +kernel)
  have hlint : Step checkedBuild { objects := [buildRun] } { objects := [buildRun] ++ [lintRun] } :=
    step_of_startable "lint" (by decide +kernel)
  exact (Relation.ReflTransGen.single hbuild).tail hlint

theorem lintFailed_reached : Reached checkedBuild { objects := [buildRun, lintFailed] } := by
  obtain ⟨c, hobjects, hstatus, hsteps⟩ := lintRunning_reached
  have hfail : Step checkedBuild { objects := [buildRun, lintRun] }
      { objects := [buildRun, lintFailed] } :=
    Step.finish lintRun ⟨.isFalse, "Failed", ""⟩ [] (by decide) (by decide) (by decide)
  exact ⟨c, hobjects, hstatus, hsteps.tail hfail⟩

def orphanError : String :=
  "invalid list of done tasks; some tasks were indicated completed without ancestors being " ++
    "done: [test]"

/-- The test is skipped because the lint has failed, and so it is done before the build. -/
theorem lintFailed_rejected : Reached checkedBuild { objects := [buildRun, lintFailed] } ∧
      ∃ f, factsOf checkedBuild { objects := [buildRun, lintFailed] } = .ok f ∧ PlainResults f ∧
        ∃ g, dagExecutionQueue f = some (.error orphanError, g) := by
  refine ⟨lintFailed_reached, ?_⟩
  obtain ⟨f, hf, hcheck⟩ :=
    exists_ok (x := factsOf checkedBuild { objects := [buildRun, lintFailed] })
    (P := fun f => (f.state.all fun t => (pipelineTaskResultRefs t.pipelineTask).isEmpty) &&
      decide ((dagExecutionQueue f).map (·.1) = some (.error orphanError))) (by decide +kernel)
  rw [Bool.and_eq_true, all_eq_true, decide_eq_true_eq] at hcheck
  obtain ⟨⟨r, g⟩, hrun, rfl⟩ := Option.map_eq_some_iff.mp hcheck.2
  refine ⟨f, hf, plainResults_of_no_refs fun t ht => ?_, g, hrun⟩
  exact List.isEmpty_iff.mp (hcheck.1 t ht)

/-- With the lint still running nothing is wrong. -/
theorem lintRunning_accepted :
    ∃ f, factsOf checkedBuild { objects := [buildRun, lintRun] } = .ok f ∧
      ∃ queue g, dagExecutionQueue f = some (.ok queue, g) := by
  obtain ⟨f, hf, hcheck⟩ := exists_ok (x := factsOf checkedBuild { objects := [buildRun, lintRun] })
    (P := fun f => (f.state.all fun t => (pipelineTaskResultRefs t.pipelineTask).isEmpty) &&
      !(f.isStopping || f.isGracefullyStopped) &&
      f.state.all fun t => !(t.isSuccessful || t.isFailure ||
        (!t.isScheduled && t.skipBecauseEmptyArrayInMatrixParams))) (by decide +kernel)
  simp only [Bool.and_eq_true, all_eq_true, Bool.not_eq_true'] at hcheck
  obtain ⟨⟨hrefs, hstop⟩, hopen⟩ := hcheck
  have hplain : PlainResults f :=
    plainResults_of_no_refs fun t ht => List.isEmpty_iff.mp (hrefs t ht)
  refine ⟨f, hf,
    (dagExecutionQueue_accepts_iff checkedBuild _ lintRunning_reached _ f hf hplain).mpr ?_⟩
  intro t ht _ _
  rw [hstop, if_neg (by simp), hopen t ht]
  exact fun h => nomatch h

end TektonPipeline.Pipeline
