import TektonPipeline.Pipeline.Resolve
import TektonPipeline.Library.Transition

/-! The runs of one matrixed task over a sequence of reconciles, any of which may fail after
some of the runs have been created. -/

namespace TektonPipeline.Pipeline
open Api TaskRunReconciler Transition List

/-- What happens to a task: a reconcile finds the references `refs` and creates the first
`created` runs of it; another task gets a run; a run comes to its end. -/
inductive MatrixEvent where
  | start (refs : List ChildReference) (created : Nat)
  | other (o : RunObject)
  | finish (o : RunObject) (condition : Condition) (results : List (String × ResultValue))
  deriving DecidableEq

section
variable (pr : PipelineRun) (pt : PipelineTask)

def resolved (c : Cluster) (refs : List ChildReference) : ResolvedPipelineTask :=
  resolveRuns pr c refs 0 pt

/-- Runs are created for a task that has none. -/
def matrixStep (c : Cluster) : MatrixEvent → Option Cluster
  | .start refs created =>
    let t := resolved pr pt c refs
    if refs.isPerm (c.objects.map (·.childReference)) &&
      (t.taskRuns.isEmpty && t.customRuns.isEmpty)
    then some { c with objects := c.objects ++ (createRuns t).take created }
    else none
  | .other o =>
    if o.pipelineTaskName ≠ pt.name then some { c with objects := c.objects ++ [o] } else none
  | .finish o condition results =>
    if o ∈ c.objects ∧ o.run.isDone = false ∧ condition.status ≠ .unknown then
      some { c with objects := c.objects.map fun o' =>
        if o' = o then o.finish condition results else o' }
    else none

def isOwn (o : RunObject) : Bool :=
  o.customRun == pt.customTask && o.pipelineTaskName == pt.name

def HasRun (c : Cluster) (combination : Params) : Prop :=
  ∃ o ∈ c.objects, isOwn pt o = true ∧ o.run.params = combination ++ pt.params

def NoneLost (c : Cluster) : Prop :=
  ∀ refs, Recovered c refs → (resolved pr pt c refs).isSuccessful = true →
    ∀ combination ∈ pt.matrix.fanOut, HasRun pt c combination

/-- A reconcile creates runs for all combinations or none, and no other task has a run under
a name of these. -/
def Undisturbed (_ : Cluster) : MatrixEvent → Prop
  | .start _ created =>
    min created pt.matrix.countCombinations = 0 ∨ ∀ combination ∈ pt.matrix.fanOut,
      combination ∈ pt.matrix.fanOut.take (min created pt.matrix.countCombinations)
  | .other o =>
    o.customRun = pt.customTask → o.run.name ∉ getNewRunNames pr pt.name pt.matrix.countCombinations
  | .finish _ _ _ => True

end

section
variable {pr : PipelineRun} {pt : PipelineTask} {c : Cluster} {refs : List ChildReference}

theorem resolved_runs : (resolved pr pt c refs).runs = (getNamesOfRuns pr refs pt.customTask pt.name
    (if pt.isMatrixed then pt.matrix.countCombinations else 1)).filterMap
      (c.get pt.customTask) := by
  unfold resolved resolveRuns ResolvedPipelineTask.runs
  cases pt.customTask <;> rfl

theorem runs_eq_nil_of_open (h : (resolved pr pt c refs).taskRuns = [] ∧
    (resolved pr pt c refs).customRuns = []) : (resolved pr pt c refs).runs = [] := by
  unfold ResolvedPipelineTask.runs
  split
  · exact h.2
  · exact h.1

theorem mem_getRunNamesFromChildRefs (hrefs : Recovered c refs) {name : String} :
    name ∈ getRunNamesFromChildRefs refs pt.customTask pt.name ↔
      ∃ o ∈ c.objects, isOwn pt o = true ∧ o.run.name = name := by
  unfold getRunNamesFromChildRefs isOwn
  simp only [mem_map, mem_filter, hrefs.mem_iff]
  constructor
  · rintro ⟨r, ⟨⟨o, ho, rfl⟩, hown⟩, rfl⟩
    exact ⟨o, ho, hown, rfl⟩
  · rintro ⟨o, ho, hown, rfl⟩
    exact ⟨o.childReference, ⟨⟨o, ho, rfl⟩, hown⟩, rfl⟩

theorem Cluster.get_eq_some {customRun : Bool} {name : String} {r : ChildRun}
    (h : c.get customRun name = some r) :
    ∃ o ∈ c.objects, o.customRun = customRun ∧ o.run.name = name ∧ o.run = r := by
  unfold Cluster.get at h
  obtain ⟨o, ho, rfl⟩ := Option.map_eq_some_iff.mp h
  have hkey := find?_some ho
  rw [Bool.and_eq_true, beq_iff_eq, beq_iff_eq] at hkey
  exact ⟨o, mem_of_find?_eq_some ho, hkey.1, hkey.2, rfl⟩

theorem Cluster.get_isSome {o : RunObject} (ho : o ∈ c.objects) :
    (c.get o.customRun o.run.name).isSome = true := by
  unfold Cluster.get
  rw [Option.isSome_map, find?_isSome]
  exact ⟨o, ho, by simp⟩

theorem no_own_of_open (hrefs : Recovered c refs) (h : (resolved pr pt c refs).runs = []) :
    ∀ o ∈ c.objects, isOwn pt o = false := by
  intro o ho
  rw [← Bool.not_eq_true]
  intro hown
  have hname := (mem_getRunNamesFromChildRefs hrefs).mpr ⟨o, ho, hown, rfl⟩
  rw [resolved_runs, filterMap_eq_nil_iff] at h
  have hkind : o.customRun = pt.customTask := by
    unfold isOwn at hown
    simpa using (Bool.and_eq_true_iff.mp hown).1
  have hget := Cluster.get_isSome ho
  rw [hkind, h o.run.name ?_] at hget
  · cases hget
  · unfold getNamesOfRuns
    dsimp only
    rw [if_neg (by
      rw [List.isEmpty_iff]
      exact ne_nil_of_mem hname)]
    exact hname

theorem getNamesOfRuns_of_no_own (hrefs : Recovered c refs)
    (h : ∀ o ∈ c.objects, isOwn pt o = false) (n : Nat) :
    getNamesOfRuns pr refs pt.customTask pt.name n = getNewRunNames pr pt.name n := by
  unfold getNamesOfRuns
  dsimp only
  rw [if_pos]
  rw [List.isEmpty_iff, eq_nil_iff_forall_not_mem]
  intro name hname
  obtain ⟨o, ho, hown, -⟩ := (mem_getRunNamesFromChildRefs hrefs).mp hname
  rw [h o ho] at hown
  cases hown

theorem length_getNewRunNames (ptName : String) (n : Nat) :
    (getNewRunNames pr ptName n).length = n := by
  unfold getNewRunNames
  split
  · rename_i h
    simp [h]
  · simp

theorem resolved_fields (pr : PipelineRun) (pt : PipelineTask) (c : Cluster)
    (refs : List ChildReference) : (resolved pr pt c refs).pipelineTask = pt ∧
    (resolved pr pt c refs).customTask = pt.customTask ∧
    (resolved pr pt c refs).runNames = getNamesOfRuns pr refs pt.customTask pt.name
      (if pt.isMatrixed then pt.matrix.countCombinations else 1) := by
  unfold resolved resolveRuns ResolvedPipelineTask.runNames
  cases pt.customTask <;> exact ⟨rfl, rfl, rfl⟩

theorem isOwn_of_mem_createRuns {o : RunObject} (ho : o ∈ createRuns (resolved pr pt c refs)) :
    isOwn pt o = true := by
  obtain ⟨hpt, hcustom, -⟩ := resolved_fields pr pt c refs
  unfold createRuns at ho
  obtain ⟨e, -, rfl⟩ := mem_map.mp ho
  unfold isOwn ResolvedPipelineTask.name
  rw [hcustom, hpt]
  simp

theorem createRuns_getElem? (hmatrix : pt.isMatrixed = true) {i : Nat} {name : String}
    (h : (resolved pr pt c refs).runNames[i]? = some name) :
    ∃ o, (createRuns (resolved pr pt c refs))[i]? = some o ∧
      o.run.params = pt.matrix.fanOut.getD i [] ++ pt.params := by
  obtain ⟨hpt, -, -⟩ := resolved_fields pr pt c refs
  unfold createRuns
  rw [getElem?_map, getElem?_zipIdx, h, hpt, hmatrix]
  exact ⟨_, rfl, by simp⟩

end

/-- What is kept from event to event. -/
structure MatrixInv (pr : PipelineRun) (pt : PipelineTask) (c : Cluster) : Prop where
  foreign : ∀ o ∈ c.objects, isOwn pt o = false → o.customRun = pt.customTask →
    o.run.name ∉ getNewRunNames pr pt.name pt.matrix.countCombinations
  covered : (∀ o ∈ c.objects, isOwn pt o = false) ∨
    ∀ combination ∈ pt.matrix.fanOut, HasRun pt c combination

section
variable {pr : PipelineRun} {pt : PipelineTask} {c c' : Cluster}

theorem matrixInv_start (hmatrix : pt.isMatrixed = true) {refs : List ChildReference}
    {created : Nat} (h : MatrixInv pr pt c) (hcond : Undisturbed pr pt c (.start refs created))
    (hstep : matrixStep pr pt c (.start refs created) = some c') : MatrixInv pr pt c' := by
  simp only [matrixStep, Option.ite_none_right_eq_some, Bool.and_eq_true, isPerm_iff,
    List.isEmpty_iff, Option.some.injEq] at hstep
  obtain ⟨⟨hrefs, hopen⟩, rfl⟩ := hstep
  have hnone := no_own_of_open hrefs (runs_eq_nil_of_open hopen)
  have hnew : ∀ o ∈ (createRuns (resolved pr pt c refs)).take created, isOwn pt o = true :=
    fun o ho => isOwn_of_mem_createRuns (mem_of_mem_take ho)
  refine ⟨fun o ho hown => ?_, ?_⟩
  · rcases mem_append.mp ho with ho | ho
    · exact h.foreign o ho hown
    · rw [hnew o ho] at hown
      cases hown
  · have hnames := (resolved_fields pr pt c refs).2.2
    rw [hmatrix, if_pos rfl, getNamesOfRuns_of_no_own hrefs hnone] at hnames
    have hcount : (resolved pr pt c refs).runNames.length = pt.matrix.countCombinations := by
      rw [hnames, length_getNewRunNames]
    rcases hcond with hzero | hall
    · left
      have hnil : (createRuns (resolved pr pt c refs)).take created = [] := by
        rw [take_eq_nil_iff, ← length_eq_zero_iff, createRuns, length_map, length_zipIdx, hcount]
        omega
      rw [hnil, append_nil]
      exact hnone
    · right
      intro combination hcombination
      obtain ⟨i, hi⟩ := mem_iff_getElem?.mp (hall combination hcombination)
      rw [getElem?_take] at hi
      obtain ⟨hlt, hi⟩ := (Option.ite_none_right_eq_some).mp hi
      have hlen : i < (resolved pr pt c refs).runNames.length := by omega
      obtain ⟨o, ho, hparams⟩ := createRuns_getElem? hmatrix (getElem?_eq_getElem hlen)
      have hmem : o ∈ (createRuns (resolved pr pt c refs)).take created := by
        refine mem_of_getElem? (i := i) ?_
        rw [getElem?_take, if_pos (by omega)]
        exact ho
      refine ⟨o, mem_append_right _ hmem, hnew o hmem, ?_⟩
      rw [hparams, getD_eq_getElem?_getD, hi]
      rfl

theorem matrixInv_other {o : RunObject} (h : MatrixInv pr pt c)
    (hcond : Undisturbed pr pt c (.other o))
    (hstep : matrixStep pr pt c (.other o) = some c') : MatrixInv pr pt c' := by
  simp only [matrixStep, Option.ite_none_right_eq_some, Option.some.injEq] at hstep
  obtain ⟨hother, rfl⟩ := hstep
  have hown : isOwn pt o = false := by simp [isOwn, hother]
  refine ⟨fun o' ho' => ?_, ?_⟩
  · rcases mem_append.mp ho' with ho' | ho'
    · exact h.foreign o' ho'
    · obtain rfl := mem_singleton.mp ho'
      exact fun _ => hcond
  · refine h.covered.imp (fun hnone o' ho' => ?_) fun hall combination hcombination => ?_
    · rcases mem_append.mp ho' with ho' | ho'
      · exact hnone o' ho'
      · obtain rfl := mem_singleton.mp ho'
        exact hown
    · obtain ⟨o', ho', hrest⟩ := hall combination hcombination
      exact ⟨o', mem_append_left _ ho', hrest⟩

theorem matrixInv_finish {o : RunObject} {condition : Condition}
    {results : List (String × ResultValue)} (h : MatrixInv pr pt c)
    (hstep : matrixStep pr pt c (.finish o condition results) = some c') : MatrixInv pr pt c' := by
  simp only [matrixStep, Option.ite_none_right_eq_some, Option.some.injEq] at hstep
  obtain ⟨-, rfl⟩ := hstep
  have hkeep : ∀ o',
      (if o' = o then o.finish condition results else o').run.params = o'.run.params ∧
      (if o' = o then o.finish condition results else o').run.name = o'.run.name ∧
      (if o' = o then o.finish condition results else o').customRun = o'.customRun ∧
      isOwn pt (if o' = o then o.finish condition results else o') = isOwn pt o' := by
    intro o'
    split
    · rename_i heq
      subst heq
      exact ⟨rfl, rfl, rfl, rfl⟩
    · exact ⟨rfl, rfl, rfl, rfl⟩
  refine ⟨fun o' ho' => ?_, h.covered.imp (fun hnone o' ho' => ?_) fun hall combination hc => ?_⟩
  · obtain ⟨o'', ho'', rfl⟩ := mem_map.mp ho'
    obtain ⟨-, hname, hcustom, hown⟩ := hkeep o''
    rw [hname, hcustom, hown]
    exact h.foreign o'' ho''
  · obtain ⟨o'', ho'', rfl⟩ := mem_map.mp ho'
    rw [(hkeep o'').2.2.2]
    exact hnone o'' ho''
  · obtain ⟨o', ho', hown, hparams⟩ := hall combination hc
    refine ⟨_, mem_map.mpr ⟨o', ho', rfl⟩, ?_, ?_⟩
    · rw [(hkeep o').2.2.2]
      exact hown
    · rw [(hkeep o').1]
      exact hparams

theorem MatrixInv.noneLost (hmatrix : pt.isMatrixed = true) (h : MatrixInv pr pt c) :
    NoneLost pr pt c := by
  intro refs hrefs hsuccess
  refine h.covered.resolve_left fun hnone => ?_
  unfold ResolvedPipelineTask.isSuccessful at hsuccess
  rw [Bool.and_eq_true, Bool.not_eq_true', resolved_runs, hmatrix, if_pos rfl,
    getNamesOfRuns_of_no_own hrefs hnone] at hsuccess
  obtain ⟨r, hr⟩ := exists_mem_of_ne_nil _ (isEmpty_eq_false_iff.mp hsuccess.1)
  obtain ⟨name, hname, hget⟩ := mem_filterMap.mp hr
  obtain ⟨o, ho, hkind, rfl, -⟩ := Cluster.get_eq_some hget
  exact h.foreign o ho (hnone o ho) hkind hname

end

/-- In every run of the events, as long as no reconcile creates only some of the runs and no
other task takes their names, a matrixed task judged successful has had a run for every
combination. -/
theorem noneLost_along (pr : PipelineRun) (pt : PipelineTask) (hmatrix : pt.isMatrixed = true)
    (events : List MatrixEvent) (c : Cluster) (hrun : run (matrixStep pr pt) {} events = some c)
    (halong : Along (matrixStep pr pt) (Undisturbed pr pt) {} events) : NoneLost pr pt c := by
  have hstart : MatrixInv pr pt {} := ⟨(fun o ho => nomatch ho), .inl (fun o ho => nomatch ho)⟩
  refine MatrixInv.noneLost hmatrix (run_induction_along ?_ hstart halong hrun)
  intro s e s' hinv hcond hstep
  cases e with
  | start refs created => exact matrixInv_start hmatrix hinv hcond hstep
  | other o => exact matrixInv_other hinv hcond hstep
  | finish o condition results => exact matrixInv_finish hinv hstep

def singleTask (pt : PipelineTask) (hbuilt : pt.deps = []) : PipelineRun where
  name := "run"
  childName := fun parent suffix => parent ++ suffix
  evaluate := fun _ => .ok true
  tasks := [pt]
  tasksGraph :=
    { nodes := [pt.name]
      links := []
      nodup := nodup_singleton _
      ends := fun l hl => nomatch hl
      acyclic := acyclic_nil }
  built := by
    simp [BuiltFrom, build, pipelineTaskListDeps, hbuilt, addPipelineTasks,
      findCyclesInDependencies,
      getInterdependencyError, kahn, linksOf, addLinks]
  nodup := by simp

def platforms : PipelineTask :=
  { name := "platforms"
    matrix := { params := [⟨"os", { type := .array, arrayVal := ["linux", "mac"] }⟩] } }

/-- The second edition conflicts with what the first has added to the combination. -/
def editions : PipelineTask :=
  { name := "editions"
    matrix :=
      { params := [⟨"os", { type := .array, arrayVal := ["linux"] }⟩]
        includes := [⟨"", [⟨"edition", { stringVal := "free" }⟩]⟩,
          ⟨"", [⟨"edition", { stringVal := "full" }⟩]⟩] } }

def succeeded : Condition := ⟨.isTrue, "Succeeded", ""⟩

def platformsRun : PipelineRun := singleTask platforms (by decide +kernel)

def editionsRun : PipelineRun := singleTask editions (by decide +kernel)

def platformObject (i : Nat) (os : String) : RunObject :=
  ⟨{ name := "run-platforms-" ++ toString i, params := [⟨"os", { stringVal := os }⟩] },
    "platforms", false⟩

def editionObject : RunObject :=
  ⟨{ name := "run-editions"
     params := [⟨"edition", { stringVal := "free" }⟩, ⟨"os", { stringVal := "linux" }⟩] },
    "editions", false⟩

/-- The creation of the second run fails and the first run succeeds. For the editions one
run is counted where there are two combinations. -/
theorem combinations_lost : (∃ c, run (matrixStep platformsRun platforms) {}
        [.start [] 1, .finish (platformObject 0 "linux") succeeded []] = some c ∧
      ¬ NoneLost platformsRun platforms c) ∧ ∃ c, run (matrixStep editionsRun editions) {}
        [.start [] 2, .finish editionObject succeeded []] = some c ∧
      ¬ NoneLost editionsRun editions c := by
  refine ⟨⟨{ objects := [(platformObject 0 "linux").finish succeeded []] }, by decide +kernel, ?_⟩,
    { objects := [editionObject.finish succeeded []] }, by decide +kernel, ?_⟩
  · intro h
    have hlost :=
      h _ (.refl _) (by decide +kernel) [⟨"os", { stringVal := "mac" }⟩] (by decide +kernel)
    unfold HasRun at hlost
    revert hlost
    decide +kernel
  · intro h
    have hlost := h _ (.refl _) (by decide +kernel) [⟨"edition", { stringVal := "full" }⟩]
      (by decide +kernel)
    unfold HasRun at hlost
    revert hlost
    decide +kernel

/-- With both runs created nothing is lost. -/
theorem platforms_noneLost : ∃ c, run (matrixStep platformsRun platforms) {}
        [.start [] 2, .finish (platformObject 0 "linux") succeeded [],
          .finish (platformObject 1 "mac") succeeded []] = some c ∧
      NoneLost platformsRun platforms c := by
  have hrun : run (matrixStep platformsRun platforms) {}
      [.start [] 2, .finish (platformObject 0 "linux") succeeded [],
        .finish (platformObject 1 "mac") succeeded []] =
      some { objects := [(platformObject 0 "linux").finish succeeded [],
        (platformObject 1 "mac").finish succeeded []] } := by decide +kernel
  refine ⟨_, hrun, noneLost_along platformsRun platforms (by decide +kernel) _ _ hrun ?_⟩
  refine ⟨.inr (by decide +kernel), fun _ _ => ⟨trivial, fun _ _ => ⟨trivial, fun _ _ => trivial⟩⟩⟩

def ownRuns (pt : PipelineTask) (objects : List RunObject) : List (String × Params) :=
  objects.filterMap fun o => if isOwn pt o then some (o.run.name, o.run.params) else none

/-- The runs of a task are the first of those that one reconcile creates for it. -/
def CreatedOnce (pr : PipelineRun) (pt : PipelineTask) (c : Cluster) : Prop :=
  ownRuns pt c.objects <+: ownRuns pt (createRuns (resolved pr pt {} []))

section
variable {pr : PipelineRun} {pt : PipelineTask} {c c' : Cluster}

theorem createRuns_of_no_own {refs : List ChildReference} (hrefs : Recovered c refs)
    (h : ∀ o ∈ c.objects, isOwn pt o = false) :
    createRuns (resolved pr pt c refs) = createRuns (resolved pr pt {} []) := by
  obtain ⟨hpt, hcustom, hnames⟩ := resolved_fields pr pt c refs
  obtain ⟨hpt', hcustom', hnames'⟩ := resolved_fields pr pt {} []
  unfold createRuns ResolvedPipelineTask.name
  rw [hnames, hnames', getNamesOfRuns_of_no_own hrefs h, hpt, hpt', hcustom, hcustom']
  rfl

theorem CreatedOnce.step {e : MatrixEvent} (h : CreatedOnce pr pt c)
    (hstep : matrixStep pr pt c e = some c') : CreatedOnce pr pt c' := by
  unfold CreatedOnce at h ⊢
  cases e with
  | start refs created =>
    simp only [matrixStep, Option.ite_none_right_eq_some, Bool.and_eq_true, isPerm_iff,
      List.isEmpty_iff, Option.some.injEq] at hstep
    obtain ⟨⟨hrefs, hopen⟩, rfl⟩ := hstep
    have hnone := no_own_of_open hrefs (runs_eq_nil_of_open hopen)
    have hnil : ownRuns pt c.objects = [] :=
      filterMap_eq_nil_iff.mpr fun o ho => by simp [hnone o ho]
    rw [createRuns_of_no_own hrefs hnone, ownRuns, filterMap_append, ← ownRuns, hnil]
    exact IsPrefix.filterMap _ <| take_prefix _ _
  | other o =>
    simp only [matrixStep, Option.ite_none_right_eq_some, Option.some.injEq] at hstep
    obtain ⟨hother, rfl⟩ := hstep
    simpa [ownRuns, isOwn, hother] using h
  | finish o condition results =>
    simp only [matrixStep, Option.ite_none_right_eq_some, Option.some.injEq] at hstep
    obtain ⟨-, rfl⟩ := hstep
    rw [ownRuns, filterMap_map]
    convert h using 1
    refine filterMap_congr fun o' _ => ?_
    by_cases heq : o' = o
    · rw [Function.comp_apply, if_pos heq, heq]
      rfl
    · rw [Function.comp_apply, if_neg heq]

/-- In every run of the events no run of a task is created twice. -/
theorem none_created_twice (events : List MatrixEvent)
    (hrun : run (matrixStep pr pt) {} events = some c) : CreatedOnce pr pt c :=
  run_induction (s := {}) CreatedOnce.step nil_prefix hrun

end

theorem platforms_created_once : CreatedOnce platformsRun platforms
    { objects := [(platformObject 0 "linux").finish succeeded []] } :=
  none_created_twice [.start [] 1, .finish (platformObject 0 "linux") succeeded []]
    (by decide +kernel)

end TektonPipeline.Pipeline
