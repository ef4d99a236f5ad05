import TektonPipeline.Pipeline.Resolve
import TektonPipeline.Api.ParamSpecs

/-! The enums of the parameters of a pipeline have to be contained in those of its tasks. Each
task is checked with the parameters it had before any substitution; these are found by the
place of the task in the state. -/

namespace TektonPipeline.Pipeline
open Api TaskRunReconciler List

structure ResolvedTask where
  taskName : String
  params : List ParamSpec
  deriving DecidableEq

/-- A list of texts as `%v` writes it. -/
def listText (l : List String) : String := "[" ++ String.intercalate " " l ++ "]"

def isSubset (pipelineEnum taskEnum : List String) : Bool :=
  pipelineEnum.all fun e => decide (e ∈ taskEnum)

/-- A parameter without an enum, or not of type string, ends the validation of all. -/
def validateEnumSubset (pipelineParamSpecs : List ParamSpec) (rt : ResolvedTask) :
    Params → Option String
  | [] => none
  | p :: ps =>
    let res := extractVariablesFromString p.value.stringVal "params"
    if res.errString ≠ "" then
      some ("unexpected error in ExtractVariablesFromString: " ++ res.errString)
    else match res.vars with
      | [v] =>
        match getParamFromName (trimArrayIndex v) pipelineParamSpecs,
            getParamFromName p.name rt.params with
        | some pipelineParam, some resolvedTaskParam =>
          if pipelineParam.type ≠ .string ∨ resolvedTaskParam.enum.isEmpty then none
          else if pipelineParam.enum.isEmpty then
            some ("pipeline param \"" ++ pipelineParam.name ++
              "\" has no enum, but referenced in \"" ++ rt.taskName ++ "\" task has enums: " ++
              listText resolvedTaskParam.enum)
          else if !isSubset pipelineParam.enum resolvedTaskParam.enum then
            some ("pipeline param \"" ++ pipelineParam.name ++ "\" enum: " ++
              listText pipelineParam.enum ++ " is not a subset of the referenced in \"" ++
              rt.taskName ++ "\" task param enum: " ++ listText resolvedTaskParam.enum)
          else validateEnumSubset pipelineParamSpecs rt ps
        | _, _ => none
      | _ => validateEnumSubset pipelineParamSpecs rt ps

def validateParamEnumSubset (pipelineTaskParams : Params) (pipelineParamSpecs : List ParamSpec)
    (rt : Option ResolvedTask) : Option String :=
  match rt with
  | none => none
  | some rt => validateEnumSubset pipelineParamSpecs rt pipelineTaskParams

def enumCalls (originalTasks : List PipelineTask) (s : PipelineRunState) :
    List (ResolvedPipelineTask × Params) :=
  (s.zip originalTasks).filterMap fun e =>
    if e.1.customTask then none else some (e.1, e.2.params)

/-- `resolved` is the task that a pipeline task refers to, by the name of the pipeline
task. -/
def validateEnums (pipelineParamSpecs : List ParamSpec) (resolved : String → ResolvedTask)
    (originalTasks : List PipelineTask) (s : PipelineRunState) : Option String :=
  (enumCalls originalTasks s).findSome? fun call =>
    validateParamEnumSubset call.2 pipelineParamSpecs
      (call.1.resolvedTask.map fun _ => resolved call.1.name)

/-- No task takes the place of one that has other parameters, custom tasks apart. -/
def InPlace (refs : List ChildReference) (originalTasks : List PipelineTask) : Prop :=
  ∀ x ∈ (stateOrder refs originalTasks).zip originalTasks,
    x.1.customTask = true ∨ x.1.params = x.2.params

instance (refs : List ChildReference) (originalTasks : List PipelineTask) :
    Decidable (InPlace refs originalTasks) :=
  inferInstanceAs (Decidable (∀ x ∈ _, _ ∨ _))

theorem mem_zip_iff {α β : Type} {l : List α} {l' : List β} {a : α} {b : β} :
    (a, b) ∈ l.zip l' ↔ ∃ i : Nat, l[i]? = some a ∧ l'[i]? = some b := by
  rw [mem_iff_getElem?]
  exact exists_congr fun i => by rw [getElem?_zip_eq_some]

section
variable {pr : PipelineRun} {c : Cluster} {refs : List ChildReference} {f : PipelineRunFacts}
  {originalTasks : List PipelineTask}

theorem stateOrder_map (tasks : List PipelineTask) :
    (stateOrder refs tasks).map (fun pt => (pt.name, pt.customTask)) =
      ((tasks.map fun pt => (pt.name, pt.customTask)).filter fun k =>
          refs.any fun r => r.pipelineTaskName == k.1) ++
        (tasks.map fun pt => (pt.name, pt.customTask)).filter fun k =>
          !(refs.any fun r => r.pipelineTaskName == k.1) := by
  simp only [stateOrder, map_append, filter_map]
  rfl

theorem mem_stateOrder {tasks : List PipelineTask} {pt : PipelineTask} :
    pt ∈ stateOrder refs tasks ↔ pt ∈ tasks :=
  (filter_append_perm _ _).mem_iff

def CheckedAsOwn (originalTasks : List PipelineTask) (s : PipelineRunState) : Prop :=
  ∀ call ∈ enumCalls originalTasks s, ∀ pt ∈ originalTasks, pt.name = call.1.name →
    call.2 = pt.params

variable (h : reconcileFacts pr c refs = .ok f)
  (hkind : originalTasks.map (fun pt => (pt.name, pt.customTask)) =
    (pr.tasks ++ pr.finallyTasks).map fun pt => (pt.name, pt.customTask))

include hkind

theorem nodup_originalTasks : (originalTasks.map (·.name)).Nodup := by
  have hnames := congrArg (List.map Prod.fst) hkind
  simp only [map_map, Function.comp_def] at hnames
  rw [hnames]
  exact pr.nodup

include h

theorem state_place (i : Nat) : (f.state[i]?).map (fun t => (t.name, t.customTask)) =
      ((stateOrder refs originalTasks)[i]?).map fun pt => (pt.name, pt.customTask) := by
  have horder := reconcileFacts_state h
  rw [stateOrder_map, ← hkind, ← stateOrder_map] at horder
  have hi := congrArg (fun l => l[i]?) horder
  simpa using hi

theorem mem_enumCalls {t : ResolvedPipelineTask} {params : Params}
    (hcall : (t, params) ∈ enumCalls originalTasks f.state) : (t ∈ f.state ∧ t.customTask = false) ∧
      ∃ x ∈ (stateOrder refs originalTasks).zip originalTasks,
        x.1.name = t.name ∧ x.1.customTask = false ∧ params = x.2.params := by
  obtain ⟨⟨t', o⟩, hmem, hsome⟩ := mem_filterMap.mp hcall
  cases hcustom : t'.customTask with
  | true => simp [hcustom] at hsome
  | false =>
    obtain ⟨rfl, rfl⟩ : t' = t ∧ o.params = params := by simpa [hcustom] using hsome
    obtain ⟨i, ht, ho⟩ := mem_zip_iff.mp hmem
    have hplace := state_place h hkind i
    rw [ht, Option.map_some] at hplace
    obtain ⟨pt, hpt, heq⟩ := Option.map_eq_some_iff.mp hplace.symm
    obtain ⟨hname, hkind'⟩ := Prod.mk.inj heq
    exact ⟨⟨(of_mem_zip hmem).1, hcustom⟩, (pt, o), mem_zip_iff.mpr ⟨i, hpt, ho⟩, hname,
      hkind'.trans hcustom, rfl⟩

theorem exists_enumCall {x : PipelineTask × PipelineTask}
    (hx : x ∈ (stateOrder refs originalTasks).zip originalTasks)
    (hcustom : x.1.customTask = false) :
    ∃ t, (t, x.2.params) ∈ enumCalls originalTasks f.state ∧ t.name = x.1.name := by
  obtain ⟨i, hpt, ho⟩ := mem_zip_iff.mp hx
  have hplace := state_place h hkind i
  rw [hpt, Option.map_some] at hplace
  obtain ⟨t, ht, heq⟩ := Option.map_eq_some_iff.mp hplace
  obtain ⟨hname, hkind'⟩ := Prod.mk.inj heq
  refine ⟨t, mem_filterMap.mpr ⟨(t, x.2), mem_zip_iff.mpr ⟨i, ht, ho⟩, ?_⟩, hname⟩
  simp [hkind'.trans hcustom]

theorem exists_params {t : ResolvedPipelineTask} (ht : t ∈ f.state)
    (hcustom : t.customTask = false) :
    ∃ params, (t, params) ∈ enumCalls originalTasks f.state := by
  obtain ⟨i, hi⟩ := mem_iff_getElem?.mp ht
  have hplace := state_place h hkind i
  rw [hi, Option.map_some] at hplace
  obtain ⟨x, hx, -⟩ := Option.map_eq_some_iff.mp hplace.symm
  have hlen : (stateOrder refs originalTasks).length = originalTasks.length :=
    (filter_append_perm _ _).length_eq
  obtain ⟨hlt, -⟩ := List.getElem?_eq_some_iff.mp hx
  obtain ⟨o, ho⟩ : ∃ o, originalTasks[i]? = some o :=
    ⟨_, getElem?_eq_getElem (hlen ▸ hlt)⟩
  exact ⟨o.params, mem_filterMap.mpr ⟨(t, o), mem_zip_iff.mpr ⟨i, hi, ho⟩, by simp [hcustom]⟩⟩

theorem checkedAsOwn_iff : CheckedAsOwn originalTasks f.state ↔ InPlace refs originalTasks := by
  constructor
  · intro hown x hx
    cases hcustom : x.1.customTask with
    | true => exact .inl rfl
    | false =>
      obtain ⟨t, hcall, hname⟩ := exists_enumCall h hkind hx hcustom
      have hmem : x.1 ∈ originalTasks := mem_stateOrder.mp (of_mem_zip hx).1
      exact .inr (hown _ hcall x.1 hmem hname.symm).symm
  · rintro hplace ⟨t, params⟩ hcall pt hpt hname
    obtain ⟨-, x, hx, hxname, hcustom, rfl⟩ := mem_enumCalls h hkind hcall
    have hmem : x.1 ∈ originalTasks := mem_stateOrder.mp (of_mem_zip hx).1
    have heq : x.1 = pt :=
      inj_on_of_nodup_map (nodup_originalTasks hkind) hmem hpt (hxname.trans hname.symm)
    rcases hplace x hx with htrue | hparams
    · rw [hcustom] at htrue
      cases htrue
    · rw [← hparams, heq]

end

/-- The tasks are checked with their own parameters exactly if they are in place; then the
check passes if every task passes it with its own parameters. -/
theorem enums_checkedAsOwn_iff {pr : PipelineRun} {c : Cluster} {refs : List ChildReference}
    {f : PipelineRunFacts} (h : reconcileFacts pr c refs = .ok f)
    {originalTasks : List PipelineTask}
    (hkind : originalTasks.map (fun pt => (pt.name, pt.customTask)) =
      (pr.tasks ++ pr.finallyTasks).map fun pt => (pt.name, pt.customTask))
    (pipelineParamSpecs : List ParamSpec) (resolved : String → ResolvedTask) :
    (CheckedAsOwn originalTasks f.state ↔ InPlace refs originalTasks) ∧
      (InPlace refs originalTasks →
        (validateEnums pipelineParamSpecs resolved originalTasks f.state = none ↔
          ∀ t ∈ f.state, t.customTask = false → ∀ pt ∈ originalTasks, pt.name = t.name →
            validateParamEnumSubset pt.params pipelineParamSpecs
              (t.resolvedTask.map fun _ => resolved t.name) = none)) := by
  have hiff := checkedAsOwn_iff h hkind
  refine ⟨hiff, fun hplace => ?_⟩
  have hown := hiff.mpr hplace
  rw [validateEnums, findSome?_eq_none_iff]
  constructor
  · intro hpass t ht hcustom pt hpt hname
    obtain ⟨params, hcall⟩ := exists_params h hkind ht hcustom
    rw [← hown _ hcall pt hpt hname]
    exact hpass _ hcall
  · rintro hpass ⟨t, params⟩ hcall
    obtain ⟨⟨ht, hcustom⟩, x, hx, hname, -, -⟩ := mem_enumCalls h hkind hcall
    have hmem : x.1 ∈ originalTasks := mem_stateOrder.mp (of_mem_zip hx).1
    rw [hown _ hcall x.1 hmem hname]
    exact hpass t ht hcustom x.1 hmem hname

/-- Two tasks with a parameter of the same name, the first one after the second. -/
def releaseTasks : List PipelineTask :=
  [{ name := "deploy"
     runAfter := ["build"]
     params := [⟨"kind", { stringVal := "$(params.site)" }⟩] },
    { name := "build", params := [⟨"kind", { stringVal := "$(params.mode)" }⟩] }]

def releaseRun : PipelineRun where
  name := "run"
  childName := fun parent suffix => parent ++ suffix
  evaluate := fun _ => .ok true
  tasks :=
    [{ name := "deploy", runAfter := ["build"], params := [⟨"kind", { stringVal := "eu" }⟩] },
      { name := "build", params := [⟨"kind", { stringVal := "debug" }⟩] }]
  tasksGraph :=
    { nodes := ["deploy", "build"]
      links := [("build", "deploy")]
      nodup := by decide
      ends := by decide
      acyclic := ⟨fun n => if n = "deploy" then 1 else 0, by decide⟩ }
  built := by
    unfold BuiltFrom
    decide +kernel
  nodup := by decide

def releaseParams : List ParamSpec :=
  [{ name := "site", enum := ["eu", "us"] }, { name := "mode", enum := ["debug", "release"] }]

def releaseTask (pipelineTask : String) : ResolvedTask :=
  if pipelineTask = "deploy" then ⟨"deploy", [{ name := "kind", enum := ["eu", "us"] }]⟩
  else ⟨"build", [{ name := "kind", enum := ["debug", "release"] }]⟩

def buildStarted : Cluster :=
  { objects := [⟨{ name := "run-build", params := [⟨"kind", { stringVal := "debug" }⟩] }, "build",
      false⟩] }

def enumError (c : Cluster) : Except String (Option String) :=
  (reconcileFacts releaseRun c (c.objects.map (·.childReference))).map fun f =>
    validateEnums releaseParams releaseTask releaseTasks f.state

/-- The tasks in the order in which they start. -/
def orderedRun : PipelineRun :=
  { releaseRun with
    tasks := releaseRun.tasks.reverse
    tasksGraph :=
      { releaseRun.tasksGraph with
        nodes := ["build", "deploy"]
        nodup := by decide
        ends := by decide }
    built := by
      unfold BuiltFrom
      decide +kernel
    nodup := by decide }

theorem release_checkedAsOwn : ∃ f, reconcileFacts orderedRun buildStarted
      (buildStarted.objects.map (·.childReference)) = .ok f ∧
    CheckedAsOwn releaseTasks.reverse f.state := by
  have hok : (reconcileFacts orderedRun buildStarted
      (buildStarted.objects.map (·.childReference))).isOk = true := by decide +kernel
  cases h : reconcileFacts orderedRun buildStarted
      (buildStarted.objects.map (·.childReference)) with
  | error e =>
    rw [h] at hok
    cases hok
  | ok f =>
    exact ⟨f, rfl,
      (enums_checkedAsOwn_iff h (by decide) releaseParams releaseTask).1.mpr (by decide)⟩

/-- The first reconcile passes the check; once the build has started it is checked with the
parameters of the deployment. -/
theorem release_checkedAsOther : enumError {} = .ok none ∧
    enumError buildStarted = .ok (some ("pipeline param \"site\" enum: [eu us] is not a subset " ++
      "of the referenced in \"build\" task param enum: [debug release]")) := by
  decide +kernel

end TektonPipeline.Pipeline
