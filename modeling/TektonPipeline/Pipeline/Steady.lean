import TektonPipeline.Pipeline.Schedule

/-! On steady facts each answer of the evaluation of skipping is a function of the facts. -/

namespace TektonPipeline.Pipeline
open Api Stateful

namespace PipelineRunFacts

def allDone (f : PipelineRunFacts) : Bool :=
  (f.names.filter fun n => decide (n ∈ f.tasksGraph.nodes)).all f.done

def runFailed (f : PipelineRunFacts) (n : String) : Bool :=
  match f.state.task? n with
  | some t => t.haveAnyRunsFailed
  | none => false

def aggregate (f : PipelineRunFacts) (status : String) (names : List String) : String :=
  if names.any f.runFailed then "Failed"
  else if names.any fun n => (f.reason n).isSkipped then "Completed"
  else status

end PipelineRunFacts

namespace Steady
variable {f : PipelineRunFacts} {n : String}

theorem returns_skip (hf : Steady f) (pointer : Bool) (hn : n ∈ f.names) :
    Returns (Evolved f (ownForm f) (ownReason f)) (skip pointer n) (f.reason n) :=
  skip_runs hf.evaluation (fun _ => hn) pointer

theorem returns_isDone (hf : Steady f) (hn : n ∈ f.names) :
    Returns (Evolved f (ownForm f) (ownReason f)) (isDone skip n) (f.done n) :=
  (isDone_skip_runs hf.evaluation hn).imp fun _ hb => doneObserved_settled hb

theorem returns_checkDAGTasksDone (hf : Steady f) :
    Returns (Evolved f (ownForm f) (ownReason f)) checkDAGTasksDone f.allDone := by
  refine .get_bind fun g hg => ?_
  rw [hg.tasksGraph]
  exact (checkTasksDone_runs hf.evaluation f.tasksGraph.toGraph).imp fun _ hb =>
    allObserved_eq (fun _ _ hp => doneObserved_settled hp) hb

theorem returns_aggregateStatus (hf : Steady f) (status : String) {names : List String}
    (hnames : ∀ n ∈ names, n ∈ f.names) :
    Returns (Evolved f (ownForm f) (ownReason f)) (aggregateStatus status names)
      (f.aggregate status names) := by
  induction names generalizing status with
  | nil => exact .pure status
  | cons n names ih =>
    have hn := hnames n List.mem_cons_self
    refine Keeps.bind (taskOf_runs fun _ => hn) fun t ht => ?_
    obtain ⟨rfl, t₀, ht₀, hkept, -⟩ := ht
    have hfailed : f.runFailed t.name = t.haveAnyRunsFailed := by
      unfold PipelineRunFacts.runFailed ResolvedPipelineTask.haveAnyRunsFailed
      rw [ht₀, hkept.runs_perm.any_eq]
    unfold PipelineRunFacts.aggregate
    rw [List.any_cons, List.any_cons, hfailed]
    cases t.haveAnyRunsFailed with
    | true => exact .pure rfl
    | false =>
      refine Returns.bind (hf.returns_skip true hn) ?_
      have hrest := ih (if (f.reason t.name).isSkipped then "Completed" else status)
        fun m hm => hnames m (List.mem_cons_of_mem _ hm)
      unfold PipelineRunFacts.aggregate at hrest
      cases hskipped : (f.reason t.name).isSkipped with
      | true =>
        rw [hskipped] at hrest
        simpa using hrest
      | false =>
        rw [hskipped] at hrest
        exact hrest

end Steady

end TektonPipeline.Pipeline
