import TektonPipeline.Pipeline.Evaluation

/-! The queue of the tasks to be started holds exactly the tasks that are ready. -/

namespace TektonPipeline.Pipeline
open Api Stateful List

def anyForm (_ : String) (_ : PipelineTask) : Prop := True

def anyReason (_ : String) (_ : SkippingReason) : Prop := True

variable {f : PipelineRunFacts}

theorem evaluation_of_nodup (hnodup : f.names.Nodup) : Evaluation false f anyForm anyReason :=
  { nodup := hnodup
    wellFormed := fun h => nomatch h
    forms := ⟨fun _ _ => trivial, fun _ _ _ _ _ _ => trivial⟩
    refersBack := fun h => nomatch h
    closed := fun _ _ _ _ => trivial }

theorem evolved_refl (f : PipelineRunFacts) : Evolved f anyForm anyReason f :=
  { state := .refl fun _ _ => trivial
    tasksGraph := rfl
    finalTasksGraph := rfl
    specStatus := rfl
    timeoutsState := rfl
    validationFailedTask := rfl
    cache := fun _ _ _ => trivial }

def BuiltFrom (g : Dag) (tasks : List PipelineTask) : Prop :=
  build (tasks.map (·.name)) (pipelineTaskListDeps tasks) = .ok g.toGraph

theorem nodup_of_build {tasks : List String} {deps : List (String × List String)} {g : Graph}
    (h : build tasks deps = .ok g) : tasks.Nodup := by
  unfold build at h
  split at h
  · cases h
  · rename_i nodes hnodes
    obtain ⟨rfl, hnodup⟩ := (addPipelineTasks_eq_ok_iff nodup_nil).mp hnodes
    exact hnodup

variable {tasks : List PipelineTask}

theorem nodup_pipelineTaskListDeps (h : (tasks.map (·.name)).Nodup) :
    ((pipelineTaskListDeps tasks).map (·.1)).Nodup := by
  have hsub := (filter_sublist (p := fun e : String × List String => !e.2.isEmpty)
    (l := tasks.map fun pt => (pt.name, pt.deps))).map Prod.fst
  rw [map_map] at hsub
  exact h.sublist hsub

variable {n : String}

theorem mem_pipelineTaskListDeps {p : String} :
    (∃ deps, (n, deps) ∈ pipelineTaskListDeps tasks ∧ p ∈ deps) ↔
      ∃ pt ∈ tasks, pt.name = n ∧ p ∈ pt.deps := by
  simp only [pipelineTaskListDeps, mem_filter, mem_map, Prod.mk.injEq]
  constructor
  · rintro ⟨deps, ⟨⟨pt, hpt, rfl, rfl⟩, -⟩, hp⟩
    exact ⟨pt, hpt, rfl, hp⟩
  · rintro ⟨pt, hpt, rfl, hp⟩
    refine ⟨pt.deps, ⟨⟨pt, hpt, rfl, rfl⟩, ?_⟩, hp⟩
    cases hdeps : pt.deps with
    | nil => simp [hdeps] at hp
    | cons d ds => rfl

theorem BuiltFrom.mem_prev {g : Dag} (h : BuiltFrom g tasks) {p : String} :
    p ∈ g.prev n ↔ ∃ pt ∈ tasks, pt.name = n ∧
      ((∃ ref ∈ pipelineTaskResultRefs pt, ref.pipelineTask = p) ∨ p ∈ pt.runAfter) := by
  have hnodup := nodup_of_build h
  obtain ⟨-, hlinks, -⟩ := build_ok (nodup_pipelineTaskListDeps hnodup) h
  rw [Graph.mem_prev, hlinks, mem_linksOf, mem_pipelineTaskListDeps]
  simp only [PipelineTask.mem_deps]

theorem Evolved.getNextTasks_eq {g : PipelineRunFacts} {A : String → PipelineTask → Prop}
    {V : String → SkippingReason → Prop} (h : Evolved f A V g) (candidates : List String) :
    g.state.getNextTasks candidates = f.state.getNextTasks candidates := by
  obtain ⟨k, hstate, hkept, -⟩ := h.state
  have hempty : ∀ t, (k t).taskRuns.isEmpty = t.taskRuns.isEmpty := by
    intro t
    rw [Bool.eq_iff_iff, isEmpty_iff_length_eq_zero, isEmpty_iff_length_eq_zero,
      (hkept t).taskRuns_perm.length_eq]
  unfold PipelineRunState.getNextTasks
  rw [hstate, filter_map, map_map]
  have hfilter : ((fun t : ResolvedPipelineTask => decide (t.name ∈ candidates) &&
      (t.taskRuns.isEmpty && t.customRuns.isEmpty)) ∘ k) = fun t => decide (t.name ∈ candidates) &&
      (t.taskRuns.isEmpty && t.customRuns.isEmpty) := by
    funext t
    simp only [Function.comp, (hkept t).name_eq, hempty, (hkept t).fields.2.2.2]
  rw [hfilter]
  exact map_congr_left fun t _ => (hkept t).name_eq

theorem mem_getNextTasks {s : PipelineRunState} {candidates : List String} :
    n ∈ s.getNextTasks candidates ↔
      ∃ t ∈ s, t.name = n ∧ n ∈ candidates ∧ t.taskRuns = [] ∧ t.customRuns = [] := by
  simp only [PipelineRunState.getNextTasks, mem_map, mem_filter, Bool.and_eq_true,
    decide_eq_true_eq, List.isEmpty_iff]
  constructor
  · rintro ⟨t, ⟨ht, hn, htr, hcr⟩, rfl⟩
    exact ⟨t, ht, rfl, hn, htr, hcr⟩
  · rintro ⟨t, ht, rfl, hn, htr, hcr⟩
    exact ⟨t, ⟨ht, hn, htr, hcr⟩, rfl⟩

variable {done : List String}

theorem dagExecutionQueue_of_done {g : PipelineRunFacts}
    (hnodup : f.names.Nodup) (hcancel : (f.isCancelled || f.isGracefullyCancelled) = false)
    (hdone : completedOrSkippedDAGTasks f = some (done, g)) :
    (∀ n ∈ done, n ∈ f.tasksGraph.nodes) ∧
      dagExecutionQueue f = some
        (match getCandidateTasks f.tasksGraph.toGraph done with
          | .error e => .error e
          | .ok candidates =>
            .ok (if !f.isStopping && !f.isGracefullyStopped then f.state.getNextTasks candidates
              else []), g) := by
  have hruns := (completedOrSkippedDAGTasks_runs (evaluation_of_nodup hnodup)).result
    (evolved_refl f) hdone
  obtain ⟨hg, hsub, -⟩ := hruns
  refine ⟨fun n hn => ?_, ?_⟩
  · have hmem := mem_filter.mp (hsub.mem hn)
    simpa [PipelineRunFacts.isDAGTask] using hmem.2
  · change (if (f.isCancelled || f.isGracefullyCancelled) = true then _ else _ :
      Facts (Except String (List String))) f = _
    rw [hcancel]
    change (completedOrSkippedDAGTasks f).bind _ = _
    rw [hdone]
    change (match getCandidateTasks g.tasksGraph.toGraph done with
      | .error e => pure (.error e)
      | .ok candidateTasks =>
        if !g.isStopping && !g.isGracefullyStopped then
          pure (.ok (g.state.getNextTasks candidateTasks))
        else pure (.ok []) : Facts (Except String (List String))) g = _
    unfold PipelineRunFacts.isGracefullyStopped
    rw [hg.tasksGraph, hg.isStopping_eq, hg.specStatus]
    cases getCandidateTasks f.tasksGraph.toGraph done with
    | error e => rfl
    | ok candidates =>
      dsimp only
      rw [hg.getNextTasks_eq]
      split <;> rfl

theorem grounded_of_closed {g : Graph}
    (h : ∀ n ∈ done, ∀ p ∈ g.prev n, p ∈ done) : Grounded g done := by
  intro n hn
  cases hprev : g.prev n with
  | nil => exact .inl rfl
  | cons p ps =>
    refine .inr ⟨p, mem_cons_self, h n hn p ?_⟩
    rw [hprev]
    exact mem_cons_self

theorem mem_queue {candidates : List String} (hnodes : ∀ n ∈ done, n ∈ f.tasksGraph.nodes)
    (h : getCandidateTasks f.tasksGraph.toGraph done = .ok candidates) (n : String) :
    n ∈ f.state.getNextTasks candidates ↔
      ∃ t ∈ f.state, t.name = n ∧ f.isDAGTask n = true ∧ t.taskRuns = [] ∧ t.customRuns = [] ∧
        n ∉ done ∧ ∀ p ∈ f.tasksGraph.prev n, p ∈ done := by
  simp only [mem_getNextTasks, mem_candidates hnodes h, PipelineRunFacts.isDAGTask,
    decide_eq_true_eq]
  constructor
  · rintro ⟨t, ht, hname, ⟨hn, hopen, hprev⟩, htr, hcr⟩
    exact ⟨t, ht, hname, hn, htr, hcr, hopen, hprev⟩
  · rintro ⟨t, ht, hname, hn, htr, hcr, hopen, hprev⟩
    exact ⟨t, ht, hname, ⟨hn, hopen, hprev⟩, htr, hcr⟩

/-- Where the done tasks are closed under what they come after, the queue is made of the
tasks without runs that are not done and that come after done tasks only. The done tasks are
found wherever a task of the graph refers to results of tasks before it only. -/
theorem dagExecutionQueue_exact (f : PipelineRunFacts) (tasks : List PipelineTask)
    (hbuilt : BuiltFrom f.tasksGraph tasks) (hnodup : f.names.Nodup)
    (hstatus : f.specStatus = .none) (hstopping : f.isStopping = false) :
    (∀ done g, completedOrSkippedDAGTasks f = some (done, g) →
      (∀ n ∈ done, ∀ p ∈ f.tasksGraph.prev n, p ∈ done) →
      ∃ queue, dagExecutionQueue f = some (.ok queue, g) ∧ queue.Sublist f.names ∧
        ∀ n, n ∈ queue ↔ ∃ t ∈ f.state, t.name = n ∧ f.isDAGTask n = true ∧ t.taskRuns = [] ∧
          t.customRuns = [] ∧ n ∉ done ∧ ∀ pt ∈ tasks, pt.name = n → (∀ p ∈ pt.runAfter, p ∈ done) ∧
            ∀ ref ∈ pipelineTaskResultRefs pt, ref.pipelineTask ∈ done) ∧
    ∀ A, WellFormed f → Forms f A → RefersBack f A →
      ∃ done g, completedOrSkippedDAGTasks f = some (done, g) := by
  constructor
  · intro done g hdone hclosed
    have hcancel : (f.isCancelled || f.isGracefullyCancelled) = false := by
      simp [PipelineRunFacts.isCancelled, PipelineRunFacts.isGracefullyCancelled, hstatus]
    obtain ⟨hnodes, hqueue⟩ := dagExecutionQueue_of_done hnodup hcancel hdone
    obtain ⟨candidates, hcandidates⟩ :=
      (getCandidateTasks_isOk_iff hnodes).mpr (grounded_of_closed hclosed)
    rw [hcandidates, hstopping] at hqueue
    simp only [PipelineRunFacts.isGracefullyStopped, hstatus] at hqueue
    refine ⟨_, hqueue, filter_sublist.map _, fun n => ?_⟩
    refine (mem_queue hnodes hcandidates n).trans (exists_congr fun t => ?_)
    have hparents : (∀ p ∈ f.tasksGraph.prev n, p ∈ done) ↔
        ∀ pt ∈ tasks, pt.name = n → (∀ p ∈ pt.runAfter, p ∈ done) ∧
          ∀ ref ∈ pipelineTaskResultRefs pt, ref.pipelineTask ∈ done := by
      simp only [hbuilt.mem_prev]
      constructor
      · intro h pt hpt hname
        exact ⟨fun p hp => h p ⟨pt, hpt, hname, .inr hp⟩,
          fun ref href => h _ ⟨pt, hpt, hname, .inl ⟨ref, href, rfl⟩⟩⟩
      · rintro h p ⟨pt, hpt, hname, ⟨ref, href, rfl⟩ | hp⟩
        · exact (h pt hpt hname).2 ref href
        · exact (h pt hpt hname).1 p hp
    rw [hparents]
  · intro A hwf hforms hrefs
    have heval : Evaluation true f A anyReason :=
      { nodup := hnodup
        wellFormed := fun _ => hwf
        forms := hforms
        refersBack := fun _ => hrefs
        closed := fun _ _ _ _ => trivial }
    have hstart : Evolved f A anyReason f := { evolved_refl f with state := .refl hforms.start }
    obtain ⟨done, g, hrun, -⟩ := (completedOrSkippedDAGTasks_runs heval).returns hstart
    exact ⟨done, g, hrun⟩

def deliveryTasks : List PipelineTask :=
  [{ name := "build" },
    { name := "test"
      params := [⟨"image", { stringVal := "$(tasks.build.results.image)" }⟩] },
    { name := "deploy", runAfter := ["test"] }]

def deliveryGraph : Dag where
  nodes := ["build", "test", "deploy"]
  links := [("build", "test"), ("test", "deploy")]
  nodup := by decide
  ends := by decide
  acyclic := ⟨fun n => if n = "deploy" then 2 else if n = "test" then 1 else 0, by decide⟩

def built : ChildRun :=
  { name := "run-build"
    succeeded := some ⟨.isTrue, "Succeeded", ""⟩
    results := [("image", { stringVal := "app" })] }

def deliveryFacts : PipelineRunFacts where
  state := deliveryTasks.map fun pt =>
    { pipelineTask := pt, taskRuns := if pt.name = "build" then [built] else [] }
  tasksGraph := deliveryGraph

/-- The forms of the tasks: the second takes the image from the first. -/
def deliveryForms : List PipelineTask :=
  deliveryTasks ++
    [{ name := "test", params := [⟨"image", { stringVal := "app" }⟩] }]

theorem deliveryForms_refersBack :
    Forms deliveryFacts (fun n pt => pt ∈ deliveryForms ∧ pt.name = n) ∧
      RefersBack deliveryFacts fun n pt => pt ∈ deliveryForms ∧ pt.name = n := by
  have hwrite : ∀ pt ∈ deliveryForms,
      (convertToResultRefs deliveryFacts.state pt).2.toOption.all
        (fun refs => decide (applyTaskResults pt refs ∈ deliveryForms)) = true := by decide +kernel
  have hrefs : ∀ pt ∈ deliveryForms, ∀ ref ∈ pipelineTaskResultRefs pt,
      ref.pipelineTask ∈ deliveryGraph.prev pt.name := by decide +kernel
  refine ⟨⟨by decide +kernel, ?_⟩, ?_⟩
  · rintro n pt refs - ⟨hpt, rfl⟩ heq
    have h := hwrite pt hpt
    rw [heq] at h
    exact ⟨of_decide_eq_true h, rfl⟩
  · rintro n pt - ⟨hpt, rfl⟩ ref href
    exact hrefs pt hpt ref href

theorem deliveryFacts_queue :
    (∃ done g, completedOrSkippedDAGTasks deliveryFacts = some (done, g)) ∧
      ∃ g, completedOrSkippedDAGTasks deliveryFacts = some (["build"], g) ∧
        ∃ queue, dagExecutionQueue deliveryFacts = some (.ok queue, g) ∧
          "test" ∈ queue ∧ "deploy" ∉ queue := by
  have hbuilt : BuiltFrom deliveryFacts.tasksGraph deliveryTasks := by
    unfold BuiltFrom
    decide +kernel
  obtain ⟨hexact, hreturns⟩ := dagExecutionQueue_exact deliveryFacts deliveryTasks hbuilt
    (by decide +kernel) rfl (by decide +kernel)
  refine ⟨hreturns _ ⟨by decide +kernel, by decide +kernel⟩ deliveryForms_refersBack.1
    deliveryForms_refersBack.2, ?_⟩
  have hdone : (completedOrSkippedDAGTasks deliveryFacts).map (·.1) = some ["build"] := by
    decide +kernel
  obtain ⟨⟨done, g⟩, hrun, rfl⟩ := Option.map_eq_some_iff.mp hdone
  refine ⟨g, hrun, ?_⟩
  obtain ⟨queue, hqueue, -, hmem⟩ := hexact ["build"] g hrun (by decide +kernel)
  refine ⟨queue, hqueue, (hmem "test").mpr ?_, fun h => ?_⟩
  · exact ⟨_, mem_cons_of_mem _ mem_cons_self, rfl, by decide +kernel⟩
  · obtain ⟨t, ht, hname, -, -, -, -, hparents⟩ := (hmem "deploy").mp h
    have htest := (hparents { name := "deploy", runAfter := ["test"] } (by decide +kernel) rfl).1
    have hfalse := htest "test" mem_cons_self
    simp at hfalse

/-- The tasks that are done, each of which was a candidate before. -/
inductive Scheduled (g : Graph) : List String → Prop
  | start : Scheduled g []
  | finish {done candidates : List String} {n : String} (h : Scheduled g done)
      (hok : getCandidateTasks g done = .ok candidates) (hn : n ∈ candidates) :
      Scheduled g (n :: done)

theorem Scheduled.closed {g : Dag} (h : Scheduled g.toGraph done) :
    ∀ n ∈ done, n ∈ g.nodes ∧ ∀ p ∈ g.prev n, p ∈ done := by
  induction h with
  | start => simp
  | finish _ hok hn ih =>
    obtain ⟨hnode, -, hprev⟩ := (mem_candidates (fun m hm => (ih m hm).1) hok _).mp hn
    refine forall_mem_cons.mpr ⟨⟨hnode, fun p hp => mem_cons_of_mem _ (hprev p hp)⟩, ?_⟩
    exact fun m hm => ⟨(ih m hm).1, fun p hp => mem_cons_of_mem _ ((ih m hm).2 p hp)⟩

/-- In whatever order candidates get done, there is another until all tasks are done. -/
theorem scheduled_never_stuck (g : Dag) {done : List String} (h : Scheduled g.toGraph done) :
    ∃ candidates, getCandidateTasks g.toGraph done = .ok candidates ∧
      (candidates = [] ↔ ∀ n ∈ g.nodes, n ∈ done) := by
  have hnodes : ∀ n ∈ done, n ∈ g.nodes := fun n hn => (h.closed n hn).1
  obtain ⟨candidates, hok⟩ := (getCandidateTasks_isOk_iff hnodes).mpr
    (grounded_of_closed fun n hn => (h.closed n hn).2)
  refine ⟨candidates, hok, fun hnil n hn => ?_, fun hall => ?_⟩
  · -- of the tasks that are not done the one of least rank would be a candidate
    obtain ⟨rank, hrank⟩ := g.acyclic
    induction hr : rank n using Nat.strong_induction_on generalizing n with
    | _ r ih =>
      by_contra hopen
      have hprev : ∀ p ∈ g.prev n, p ∈ done := fun p hp =>
        ih (rank p) (hr ▸ hrank (p, n) (Graph.mem_prev.mp hp)) p (Dag.prev_mem_nodes hp).1 rfl
      have hmem := (mem_candidates hnodes hok n).mpr ⟨hn, hopen, hprev⟩
      simp [hnil] at hmem
  · refine eq_nil_iff_forall_not_mem.mpr fun n hn => ?_
    obtain ⟨hnode, hopen, -⟩ := (mem_candidates hnodes hok n).mp hn
    exact hopen (hall n hnode)

theorem build_scheduled : Scheduled deliveryGraph.toGraph ["build"] := by
  have hfirst : getCandidateTasks deliveryGraph.toGraph [] = .ok ["build"] := by decide +kernel
  exact .finish .start hfirst mem_cons_self

theorem delivery_never_stuck : Scheduled deliveryGraph.toGraph ["build"] ∧
    ∃ candidates, getCandidateTasks deliveryGraph.toGraph ["build"] = .ok candidates ∧
      (candidates = [] ↔ ∀ n ∈ deliveryGraph.nodes, n ∈ ["build"]) :=
  ⟨build_scheduled, scheduled_never_stuck deliveryGraph build_scheduled⟩

end TektonPipeline.Pipeline
