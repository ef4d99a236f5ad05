import TektonPipeline.Pipeline.Settled

/-! The facts that a reconcile starts from: each task of the pipeline with the results that
are there written into it and with the runs that it has. -/

namespace TektonPipeline.Pipeline
open Api TaskRunReconciler List

/-- A PipelineRun of a valid pipeline. `childName` makes a name of at most 63 characters out
of two parts; `evaluate` is the evaluation of a CEL expression. -/
structure PipelineRun where
  name : String
  childName : String → String → String
  evaluate : String → Except String Bool
  tasks : List PipelineTask
  finallyTasks : List PipelineTask := []
  tasksGraph : Dag
  built : BuiltFrom tasksGraph tasks
  nodup : ((tasks ++ finallyTasks).map (·.name)).Nodup

structure RunObject where
  run : ChildRun
  pipelineTaskName : String
  customRun : Bool
  deriving DecidableEq

structure ChildReference where
  name : String
  pipelineTaskName : String
  customRun : Bool
  deriving DecidableEq

structure Cluster where
  objects : List RunObject := []
  specStatus : SpecStatus := .none
  timeoutsState : TimeoutsState := {}
  deriving DecidableEq

def RunObject.childReference (o : RunObject) : ChildReference :=
  ⟨o.run.name, o.pipelineTaskName, o.customRun⟩

/-- `updatePipelineRunStatusFromChildRefs`: no run is ever removed, so these are references
to all the runs there are, in the order of a map. -/
def Recovered (c : Cluster) (refs : List ChildReference) : Prop :=
  refs.Perm (c.objects.map (·.childReference))

def Cluster.get (c : Cluster) (customRun : Bool) (name : String) : Option ChildRun :=
  (c.objects.find? fun o => o.customRun == customRun && o.run.name == name).map (·.run)

/-- The name of one run of several; where the number at its end was lost to a hash it is put
back. -/
def newRunName (pr : PipelineRun) (ptName : String) (numberOfRuns i : Nat) : String :=
  let suffix := "-" ++ toString i
  let name := pr.childName pr.name ("-" ++ ptName ++ suffix)
  if suffix.toList.isSuffixOf name.toList then name
  else
    let longest := 63 - ("-" ++ toString numberOfRuns).length
    String.ofList ((pr.childName pr.name ("-" ++ ptName)).toList.take longest) ++ suffix

def getNewRunNames (pr : PipelineRun) (ptName : String) (numberOfRuns : Nat) : List String :=
  if numberOfRuns = 1 then [pr.childName pr.name ("-" ++ ptName)]
  else (List.range numberOfRuns).map (newRunName pr ptName numberOfRuns)

def getRunNamesFromChildRefs (refs : List ChildReference) (customRun : Bool) (ptName : String) :
    List String :=
  (refs.filter fun r => r.customRun == customRun && r.pipelineTaskName == ptName).map (·.name)

/-- `GetNamesOfTaskRuns` and `getNamesOfCustomRuns` -/
def getNamesOfRuns (pr : PipelineRun) (refs : List ChildReference) (customRun : Bool)
    (ptName : String) (numberOfRuns : Nat) : List String :=
  let names := getRunNamesFromChildRefs refs customRun ptName
  if names.isEmpty then getNewRunNames pr ptName numberOfRuns else names

/-- The runs of a task whose results have been written. Each resolution of a task gives an
object of its own, numbered `fresh`. -/
def resolveRuns (pr : PipelineRun) (c : Cluster) (refs : List ChildReference) (fresh : Nat)
    (pt : PipelineTask) : ResolvedPipelineTask :=
  let numCombinations := if pt.isMatrixed then pt.matrix.countCombinations else 1
  let names := getNamesOfRuns pr refs pt.customTask pt.name numCombinations
  let runs := names.filterMap (c.get pt.customTask)
  if pt.customTask then
    { pipelineTask := pt, customTask := true, customRunNames := names, customRuns := runs }
  else
    { pipelineTask := pt
      taskRunNames := names
      taskRuns := runs
      resolvedTask := if names.isEmpty then none else some fresh }

def ResolvedPipelineTask.runNames (t : ResolvedPipelineTask) : List String :=
  if t.customTask then t.customRunNames else t.taskRunNames

/-- `createTaskRuns` and `createCustomRuns`, where no creation fails. -/
def createRuns (t : ResolvedPipelineTask) : List RunObject :=
  let matrixCombinations := if t.pipelineTask.isMatrixed then t.pipelineTask.matrix.fanOut else []
  t.runNames.zipIdx.map fun e =>
    { run := { name := e.1, params := matrixCombinations.getD e.2 [] ++ t.pipelineTask.params }
      pipelineTaskName := t.name
      customRun := t.customTask }

def RunObject.finish (o : RunObject) (condition : Condition)
    (results : List (String × ResultValue)) : RunObject :=
  { o with run := { o.run with succeeded := some condition, results := results } }

def validateArrayResultsIndex (refs : List ResolvedResultRef) : Option String :=
  refs.findSome? fun r =>
    match r.value.type, r.resultReference.resultsIndex with
    | .array, some i =>
      if r.value.arrayVal.length ≤ i then
        some ("array Result Index " ++ toString i ++ " for Task " ++
          r.resultReference.pipelineTask ++ " Result " ++ r.resultReference.result ++
          " is out of bound of size " ++ toString r.value.arrayVal.length)
      else none
    | _, _ => none

def resolvedOrNone (r : Except RefError (List ResolvedResultRef)) : List ResolvedResultRef :=
  match r with
  | .ok refs => refs
  | .error _ => []

def resolvePipelineTask (pr : PipelineRun) (c : Cluster) (refs : List ChildReference)
    (pst : PipelineRunState) (pt : PipelineTask) : Except String PipelineRunState :=
  let r := convertToResultRefs pst pt
  let resolved := resolvedOrNone r.2
  match validateArrayResultsIndex resolved with
  | some e => .error e
  | none => .ok (r.1 ++ [resolveRuns pr c refs pst.length (applyTaskResults pt resolved)])

def resolvePipelineState (pr : PipelineRun) (c : Cluster) (refs : List ChildReference) :
    List PipelineTask → PipelineRunState → Except String PipelineRunState
  | [], pst => .ok pst
  | pt :: rest, pst =>
    match resolvePipelineTask pr c refs pst pt with
    | .error e => .error e
    | .ok pst => resolvePipelineState pr c refs rest pst

def evaluateWhen (evaluate : String → Except String Bool) :
    WhenExpressions → Except String (List (String × Bool))
  | [] => .ok []
  | we :: rest =>
    if we.cel = "" then evaluateWhen evaluate rest
    else
      match evaluate we.cel with
      | .error e => .error e
      | .ok b =>
        match evaluateWhen evaluate rest with
        | .error e => .error e
        | .ok cels => .ok ((we.cel, b) :: cels)

/-- `EvaluateCEL` of one task after the other. -/
def evaluateCEL (evaluate : String → Except String Bool) :
    PipelineRunState → Except String PipelineRunState
  | [] => .ok []
  | t :: rest =>
    match evaluateWhen evaluate t.pipelineTask.when with
    | .error e => .error e
    | .ok cels =>
      match evaluateCEL evaluate rest with
      | .error e => .error e
      | .ok ts => .ok ({ t with evaluatedCEL := cels } :: ts)

/-- The tasks with runs come first, so that their results are there for the others. -/
def reconcileFacts (pr : PipelineRun) (c : Cluster) (refs : List ChildReference) :
    Except String PipelineRunFacts :=
  let tasks := pr.tasks ++ pr.finallyTasks
  let started := fun pt : PipelineTask => refs.any fun r => r.pipelineTaskName == pt.name
  match resolvePipelineState pr c refs (tasks.filter started) [] with
  | .error e => .error e
  | .ok pst =>
    match resolvePipelineState pr c refs (tasks.filter fun pt => !started pt) pst with
    | .error e => .error e
    | .ok pst =>
      match evaluateCEL pr.evaluate pst with
      | .error e => .error e
      | .ok state =>
        .ok
          { state := state
            tasksGraph := pr.tasksGraph
            finalTasksGraph := { nodes := pr.finallyTasks.map (·.name) }
            specStatus := c.specStatus
            timeoutsState := c.timeoutsState }

section
variable {pr : PipelineRun} {c : Cluster} {refs : List ChildReference} {α : Type}
  {key : ResolvedPipelineTask → α} {key' : PipelineTask → α}

theorem resolveRef_map (hcache : ∀ t, key t.cacheResults = key t) (s : PipelineRunState)
    (ref : ResultRef) : (resolveRef s ref).1.map key = s.map key := by
  unfold resolveRef
  split
  · rfl
  · split
    · rfl
    · split
      · rw [PipelineRunState.update, map_map]
        refine map_congr_left fun t _ => ?_
        dsimp only [Function.comp]
        split
        · exact hcache t
        · rfl
      · rfl

theorem resolveRefs_map (hcache : ∀ t, key t.cacheResults = key t) (s : PipelineRunState)
    (l : List ResultRef) : (resolveRefs s l).1.map key = s.map key := by
  induction l generalizing s with
  | nil => rfl
  | cons ref l ih =>
    have hone := resolveRef_map hcache s ref
    unfold resolveRefs
    rcases hr : resolveRef s ref with ⟨s', r⟩
    rw [hr] at hone
    cases r with
    | error e => exact hone
    | ok resolved =>
      have hrest := ih s'
      dsimp only
      rcases hrs : resolveRefs s' l with ⟨s'', r'⟩
      rw [hrs] at hrest
      cases r' <;> exact hrest.trans hone

theorem resolveRuns_pipelineTask (fresh : Nat) (pt : PipelineTask) :
    (resolveRuns pr c refs fresh pt).pipelineTask = pt := by
  unfold resolveRuns
  dsimp only
  split <;> rfl

theorem resolveRuns_customTask (fresh : Nat) (pt : PipelineTask) :
    (resolveRuns pr c refs fresh pt).customTask = pt.customTask := by
  unfold resolveRuns
  dsimp only
  split
  · rename_i hcustom
    exact hcustom.symm
  · rename_i hcustom
    exact (Bool.eq_false_iff.mpr hcustom).symm

variable {pst pst' : PipelineRunState}

section
variable (hcache : ∀ t, key t.cacheResults = key t) (hkey : ∀ fresh pt resolved,
    key (resolveRuns pr c refs fresh (applyTaskResults pt resolved)) = key' pt)
include hcache hkey

theorem resolvePipelineTask_map {pt : PipelineTask}
    (h : resolvePipelineTask pr c refs pst pt = .ok pst') :
    pst'.map key = pst.map key ++ [key' pt] := by
  unfold resolvePipelineTask at h
  dsimp only at h
  split at h
  · cases h
  · obtain rfl := Except.ok.inj h
    rw [map_append, map_singleton, hkey]
    exact congrArg (· ++ [key' pt]) (resolveRefs_map hcache pst _)

theorem resolvePipelineState_map {tasks : List PipelineTask}
    (h : resolvePipelineState pr c refs tasks pst = .ok pst') :
    pst'.map key = pst.map key ++ tasks.map key' := by
  induction tasks generalizing pst with
  | nil =>
    obtain rfl := Except.ok.inj h
    simp
  | cons pt rest ih =>
    unfold resolvePipelineState at h
    cases hone : resolvePipelineTask pr c refs pst pt with
    | error e =>
      rw [hone] at h
      cases h
    | ok pst₁ =>
      rw [hone] at h
      rw [ih h, resolvePipelineTask_map hcache hkey hone, map_cons, append_assoc, singleton_append]

end

theorem evaluateCEL_map (hcel : ∀ t cels, key { t with evaluatedCEL := cels } = key t)
    {evaluate : String → Except String Bool} (h : evaluateCEL evaluate pst = .ok pst') :
    pst'.map key = pst.map key := by
  induction pst generalizing pst' with
  | nil =>
    obtain rfl := Except.ok.inj h
    rfl
  | cons t rest ih =>
    unfold evaluateCEL at h
    split at h
    · cases h
    · split at h
      · cases h
      · rename_i ts hts
        obtain rfl := Except.ok.inj h
        rw [map_cons, map_cons, ih hts, hcel]

end

/-- The tasks in the order they have in the state: those with runs first. -/
def stateOrder (refs : List ChildReference) (tasks : List PipelineTask) : List PipelineTask :=
  let started := fun pt : PipelineTask => refs.any fun r => r.pipelineTaskName == pt.name
  tasks.filter started ++ tasks.filter fun pt => !started pt

section
variable {pr : PipelineRun} {c : Cluster} {refs : List ChildReference} {f : PipelineRunFacts}

theorem reconcileFacts_state (h : reconcileFacts pr c refs = .ok f) :
    f.state.map (fun t => (t.name, t.customTask)) =
      (stateOrder refs (pr.tasks ++ pr.finallyTasks)).map fun pt => (pt.name, pt.customTask) := by
  have hcache : ∀ t : ResolvedPipelineTask,
      (t.cacheResults.name, t.cacheResults.customTask) = (t.name, t.customTask) := fun t =>
    Prod.ext t.cacheResults_name t.cacheResults_fields.2.1
  have hkey : ∀ fresh pt resolved,
      ((resolveRuns pr c refs fresh (applyTaskResults pt resolved)).name,
        (resolveRuns pr c refs fresh (applyTaskResults pt resolved)).customTask) =
          (pt.name, pt.customTask) := by
    intro fresh pt resolved
    rw [ResolvedPipelineTask.name, resolveRuns_pipelineTask, resolveRuns_customTask]
    rfl
  unfold reconcileFacts at h
  dsimp only at h
  split at h
  · cases h
  · rename_i pst hpst
    split at h
    · cases h
    · rename_i pst' hpst'
      split at h
      · cases h
      · rename_i state hstate
        obtain rfl := Except.ok.inj h
        have hmap : state.map (fun t => (t.name, t.customTask)) =
            pst'.map (fun t => (t.name, t.customTask)) :=
          evaluateCEL_map (fun _ _ => rfl) hstate
        rw [resolvePipelineState_map hcache hkey hpst', resolvePipelineState_map hcache hkey hpst,
          map_nil, nil_append, ← map_append] at hmap
        exact hmap

theorem reconcileFacts_ok (h : reconcileFacts pr c refs = .ok f) :
    f.names.Perm ((pr.tasks ++ pr.finallyTasks).map (·.name)) ∧ f.tasksGraph = pr.tasksGraph ∧
      f.finalTasksGraph.nodes = pr.finallyTasks.map (·.name) ∧
      f.specStatus = c.specStatus ∧ f.skipCache = [] ∧ f.validationFailedTask = [] := by
  have hnames : f.names =
      (stateOrder refs (pr.tasks ++ pr.finallyTasks)).map (·.name) := by
    have hfst := congrArg (List.map Prod.fst) (reconcileFacts_state h)
    simpa [PipelineRunFacts.names, Function.comp_def] using hfst
  refine ⟨?_, ?_⟩
  · rw [hnames]
    exact (filter_append_perm _ _).map _
  · unfold reconcileFacts at h
    dsimp only at h
    split at h
    · cases h
    · split at h
      · cases h
      · split at h
        · cases h
        · obtain rfl := Except.ok.inj h
          exact ⟨rfl, rfl, rfl, rfl, rfl⟩

end

theorem PipelineRun.nodes_eq (pr : PipelineRun) : pr.tasksGraph.nodes = pr.tasks.map (·.name) :=
  (build_ok (nodup_pipelineTaskListDeps (nodup_of_build pr.built)) pr.built).1

theorem reconcileFacts_steady {pr : PipelineRun} {c : Cluster} {refs : List ChildReference}
    {f : PipelineRunFacts} (h : reconcileFacts pr c refs = .ok f) (hplain : PlainResults f) :
    Steady f := by
  obtain ⟨hperm, hgraph, hfinal, -, hcache, -⟩ := reconcileFacts_ok h
  refine ⟨⟨?_, ?_⟩, hplain, ?_, ?_⟩
  · intro n hn
    rw [hgraph, pr.nodes_eq] at hn
    rw [hperm.mem_iff, map_append, mem_append]
    exact .inl hn
  · intro n hn
    rw [hperm.mem_iff, map_append, mem_append] at hn
    rw [hgraph, pr.nodes_eq, hfinal]
    exact hn
  · rw [hperm.nodup_iff]
    exact pr.nodup
  · intro n r hr
    rw [hcache] at hr
    cases hr

end TektonPipeline.Pipeline
