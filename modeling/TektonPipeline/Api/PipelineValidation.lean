import TektonPipeline.Api.FieldError
import TektonPipeline.Api.ParamSpecs
import TektonPipeline.Api.PipelineTask

/-! What the values of a pipeline may refer to: context variables in any task, results of the
tasks section in finally, and the status of a task in finally only. -/

namespace TektonPipeline.Api
open TektonPipeline.ResultRef List

def FieldError.via (field : String) (e : FieldError) : FieldError :=
  { e with paths := e.paths.map fun path => if path = "" then field else field ++ "." ++ path }

/-! ## Context variables -/

def Params.extractValues (ps : Params) : List String :=
  ps.flatMap fun p => p.value.stringVal :: (p.value.arrayVal ++ p.value.objectVal.map (·.2))

structure ContextNames where
  word : String
  pattern : String
  names : List String
  deriving DecidableEq

def pipelineContexts : List ContextNames :=
  [⟨"context.pipelineRun", "context\\.pipelineRun", ["name", "namespace", "uid"]⟩,
    ⟨"context.pipeline", "context\\.pipeline", ["name"]⟩,
    ⟨"context.pipelineTask", "context\\.pipelineTask", ["retries"]⟩]

def validateNoReferencesToUnknownVariables (value : String) (c : ContextNames) : List FieldError :=
  let found := extractVariablesFromString value c.word
  if !found.present then []
  else if found.errString ≠ "" then
    [errGeneric ("Invalid referencing of parameters in \"" ++ value ++
      "\"! Only two dot-separated components after the prefix \"" ++ c.pattern ++
      "\" are allowed.") [""]]
  else if found.vars.any fun v => trimArrayIndex v ∉ c.names then
    [errGeneric ("non-existent variable in \"" ++ value ++ "\"") [""]]
  else []

def validatePipelineContextVariablesInParamValues (paramValues : List String)
    (c : ContextNames) : List FieldError :=
  paramValues.flatMap fun value =>
    (validateNoReferencesToUnknownVariables value c).map (FieldError.via "value")

/-- The values of one task take the place of those of the task before it. -/
def validatePipelineContextVariables (tasks : List PipelineTask) : List FieldError :=
  let paramValues := tasks.foldl (fun _ task => task.extractAllParams.extractValues) []
  pipelineContexts.flatMap (validatePipelineContextVariablesInParamValues paramValues)

def MatchGroups.written (g : MatchGroups) : String :=
  if g.var1 ≠ "" then g.var1 else if g.var2 ≠ "" then g.var2 else g.var3

/-- The value refers to a variable that its context does not have. -/
def UnknownVariable (value : String) : Prop :=
  ∃ c ∈ pipelineContexts, ∃ w ∈ Text.findAll (braceMatching c.word) value.toList,
    (matchGroups c.word w).written ∉ c.names

/-- It still does without an index and without what follows the first dot, or there are two
dots. -/
def UnknownName (value : String) : Prop :=
  ∃ c ∈ pipelineContexts, ∃ w ∈ Text.findAll (braceMatching c.word) value.toList,
    ∀ x, MatchGroups.captured? (matchGroups c.word w) = some x → trimArrayIndex x ∉ c.names

theorem fillVariables_rejected {gs : List MatchGroups} {names : List String} :
    (fillVariables gs).2 = true ∨ (∃ x ∈ (fillVariables gs).1, trimArrayIndex x ∉ names) ↔
      ∃ g ∈ gs, ∀ x, MatchGroups.captured? g = some x → trimArrayIndex x ∉ names := by
  induction gs with
  | nil => simp [fillVariables]
  | cons g gs ih =>
    rw [exists_mem_cons_iff, ← ih]
    cases hg : MatchGroups.captured? g with
    | none => simp [fillVariables, hg]
    | some x =>
      simp only [fillVariables, hg, exists_mem_cons_iff, Option.some.injEq, forall_eq']
      exact or_left_comm

theorem unknownVariables_ne_nil {value : String} {c : ContextNames} :
    validateNoReferencesToUnknownVariables value c ≠ [] ↔
      ∃ w ∈ Text.findAll (braceMatching c.word) value.toList,
        ∀ x, MatchGroups.captured? (matchGroups c.word w) = some x →
          trimArrayIndex x ∉ c.names := by
  have hmatches := @fillVariables_rejected
    ((Text.findAll (braceMatching c.word) value.toList).map (matchGroups c.word)) c.names
  simp only [mem_map, exists_exists_and_eq_and] at hmatches
  rw [← hmatches]
  unfold validateNoReferencesToUnknownVariables extractVariablesFromString
  cases hfound : Text.findAll (braceMatching c.word) value.toList with
  | nil => simp [fillVariables]
  | cons v vs =>
    rcases hfill : fillVariables (matchGroups c.word v :: vs.map (matchGroups c.word)) with
      ⟨vars, failed⟩
    cases failed with
    | true => simp [hfill]
    | false => simp [hfill]

theorem contextErrors_ne_nil {values : List String} :
    pipelineContexts.flatMap (validatePipelineContextVariablesInParamValues values) ≠ [] ↔
      ∃ value ∈ values, UnknownName value := by
  simp only [ne_eq, flatMap_eq_nil_iff, validatePipelineContextVariablesInParamValues,
    map_eq_nil_iff, UnknownName, ← unknownVariables_ne_nil]
  push Not
  exact ⟨fun ⟨c, hc, v, hv, h⟩ => ⟨v, hv, c, hc, h⟩, fun ⟨v, hv, c, hc, h⟩ => ⟨c, hc, v, hv, h⟩⟩

theorem UnknownName.unknownVariable {value : String} (h : UnknownName value) :
    UnknownVariable value := by
  have hnames : ∀ c ∈ pipelineContexts, ∀ n ∈ c.names,
      n ≠ "" ∧ '.' ∉ n.toList ∧ trimArrayIndex n = n := by decide +kernel
  obtain ⟨c, hc, w, hw, hno⟩ := h
  refine ⟨c, hc, w, hw, fun hmem => ?_⟩
  obtain ⟨hne, hdot, htrim⟩ := hnames c hc _ hmem
  have hread : MatchGroups.captured? (matchGroups c.word w) =
      some (matchGroups c.word w).written := by
    revert hne hdot
    unfold MatchGroups.written MatchGroups.captured?
    split
    · intro _ hdot
      rw [if_neg hdot]
    · rename_i h1
      rw [ne_eq, not_not] at h1
      intro _ _
      by_cases h2 : (matchGroups c.word w).var2 = "" <;> simp [h1, h2]
  exact hno _ hread (htrim.symm ▸ hmem)

/-- An error is reported exactly where a value of some task refers to an unknown variable. -/
def ReportsUnknownVariables (tasks : List PipelineTask) : Prop :=
  validatePipelineContextVariables tasks ≠ [] ↔
    ∃ t ∈ tasks, ∃ value ∈ t.extractAllParams.extractValues, UnknownVariable value

/-- Only the last task is looked at, and of its references only the name. -/
theorem reportsUnknownVariables_iff (tasks : List PipelineTask) : ReportsUnknownVariables tasks ↔
      ((∃ t ∈ tasks, ∃ value ∈ t.extractAllParams.extractValues, UnknownVariable value) →
        ∃ t, tasks.getLast? = some t ∧
          ∃ value ∈ t.extractAllParams.extractValues, UnknownName value) := by
  have hlast : validatePipelineContextVariables tasks ≠ [] ↔ ∃ t, tasks.getLast? = some t ∧
      ∃ value ∈ t.extractAllParams.extractValues, UnknownName value := by
    unfold validatePipelineContextVariables
    rw [contextErrors_ne_nil]
    rcases eq_nil_or_concat tasks with rfl | ⟨before, t, rfl⟩
    · simp
    · simp
  unfold ReportsUnknownVariables
  rw [hlast]
  constructor
  · exact fun h => h.mpr
  · refine fun h => ⟨fun ⟨t, ht, value, hv, hunknown⟩ => ?_, h⟩
    exact ⟨t, mem_of_getLast? ht, value, hv, hunknown.unknownVariable⟩

/-- A variable that does not exist, in the first of two tasks. -/
theorem first_task_not_reported : ¬ ReportsUnknownVariables
      [{ name := "build", params := [⟨"run", { stringVal := "$(context.pipelineRun.number)" }⟩] },
        { name := "test" }] := by
  have hnone : validatePipelineContextVariables
      [{ name := "build", params := [⟨"run", { stringVal := "$(context.pipelineRun.number)" }⟩] },
        { name := "test" }] = [] := by decide +kernel
  intro h
  refine h.mpr ⟨_, mem_cons_self, "$(context.pipelineRun.number)", by decide, ?_⟩ hnone
  refine ⟨_, mem_cons_self, "$(context.pipelineRun.number)".toList, ?_, ?_⟩
  · decide +kernel
  · decide +kernel

/-! ## Results in finally -/

/-- The expressions of each value: of the parameters, those of the matrix included, and of the
when expressions. -/
def PipelineTask.expressionLists (pt : PipelineTask) : List (List String) :=
  pt.extractAllParams.map (·.getVarSubstitutionExpressions) ++
    pt.when.map (·.getVarSubstitutionExpressions)

/-- Those that the checks below walk through: the matrix is not among them. -/
def PipelineTask.walkedLists (pt : PipelineTask) : List (List String) :=
  pt.params.map (·.getVarSubstitutionExpressions) ++ pt.when.map (·.getVarSubstitutionExpressions)

def PipelineTask.walk (check : List String → String → List FieldError) (pt : PipelineTask) :
    List FieldError :=
  (pt.params.flatMap fun p => (check p.getVarSubstitutionExpressions "value").map
      (FieldError.via ("params[" ++ p.name ++ "]"))) ++
    pt.when.zipIdx.flatMap fun e => (check e.1.getVarSubstitutionExpressions "").map
      (FieldError.via ("when[" ++ toString e.2 ++ "]"))

def walkTasks (field : String) (check : List String → String → List FieldError)
    (tasks : List PipelineTask) : List FieldError :=
  tasks.zipIdx.flatMap fun e =>
    (e.1.walk check).map (FieldError.via (field ++ "[" ++ toString e.2 ++ "]"))

theorem zipIdx_flatMap_eq_nil {α β : Type} {l : List α} {f : α × Nat → List β} {P : α → Prop}
    (h : ∀ a i, f (a, i) = [] ↔ P a) : l.zipIdx.flatMap f = [] ↔ ∀ a ∈ l, P a := by
  rw [flatMap_eq_nil_iff]
  constructor
  · intro hall a ha
    obtain ⟨i, hi⟩ := mem_iff_getElem?.mp ha
    exact (h a i).mp (hall (a, i) (mem_zipIdx_iff_getElem?.mpr hi))
  · intro hall e he
    exact (h e.1 e.2).mpr (hall e.1 (fst_mem_of_mem_zipIdx he))

theorem walkTasks_eq_nil {field : String} {check : List String → String → List FieldError}
    {good : List String → Prop} (hcheck : ∀ es path, check es path = [] ↔ good es)
    {tasks : List PipelineTask} :
    walkTasks field check tasks = [] ↔ ∀ t ∈ tasks, ∀ es ∈ t.walkedLists, good es := by
  refine zipIdx_flatMap_eq_nil fun t i => ?_
  have hwhen : (t.when.zipIdx.flatMap fun e => (check e.1.getVarSubstitutionExpressions "").map
      (FieldError.via ("when[" ++ toString e.2 ++ "]"))) = [] ↔
        ∀ we ∈ t.when, good we.getVarSubstitutionExpressions :=
    zipIdx_flatMap_eq_nil fun we j => map_eq_nil_iff.trans (hcheck _ "")
  rw [map_eq_nil_iff, PipelineTask.walk, append_eq_nil_iff, hwhen]
  simp [PipelineTask.walkedLists, hcheck, or_imp, forall_and]

def PipelineTaskList.names (tasks : List PipelineTask) : List String := tasks.map (·.name)

def validateResultsVariablesExpressionsInFinally (pipelineTasksNames finalTasksNames : List String)
    (expressions : List String) (fieldPath : String) : List FieldError :=
  if looksLikeContainsResultRefs expressions then
    (newResultRefs expressions).flatMap fun ref =>
      if ref.pipelineTask ∈ finalTasksNames then
        [errInvalidValue ("invalid task result reference, final task has task result reference " ++
          "from a final task " ++ ref.pipelineTask) fieldPath]
      else if ref.pipelineTask ∉ pipelineTasksNames then
        [errInvalidValue ("invalid task result reference, final task has task result reference " ++
          "from a task " ++ ref.pipelineTask ++ " which is not defined in the pipeline") fieldPath]
      else []
  else []

def validateFinalTasks (tasks finalTasks : List PipelineTask) : List FieldError :=
  (finalTasks.zipIdx.flatMap fun e =>
    if e.1.runAfter ≠ [] then
      [(errInvalidValue ("no runAfter allowed under spec.finally, final task " ++ e.1.name ++
        " has runAfter specified") "").via ("finally[" ++ toString e.2 ++ "]")]
    else []) ++
  walkTasks "finally" (validateResultsVariablesExpressionsInFinally
    (PipelineTaskList.names tasks) (PipelineTaskList.names finalTasks)) finalTasks

theorem newResultRefs_of_not_looksLike {es : List String}
    (h : looksLikeContainsResultRefs es = false) : newResultRefs es = [] := by
  refine filterMap_eq_nil_iff.mpr fun e he => ?_
  have hnot : looksLikeResultRef e = false := by
    simpa using any_eq_false.mp h e he
  unfold parseTaskExpression
  rw [hnot]
  rfl

def FromTasks (tasks finalTasks : List PipelineTask) (es : List String) : Prop :=
  ∀ ref ∈ newResultRefs es, ref.pipelineTask ∈ PipelineTaskList.names tasks ∧
    ref.pipelineTask ∉ PipelineTaskList.names finalTasks

theorem resultsInFinally_eq_nil {tasks finals : List PipelineTask} (es : List String)
    (path : String) : validateResultsVariablesExpressionsInFinally (PipelineTaskList.names tasks)
      (PipelineTaskList.names finals) es path = [] ↔ FromTasks tasks finals es := by
  unfold validateResultsVariablesExpressionsInFinally FromTasks
  generalize PipelineTaskList.names tasks = tasks
  generalize PipelineTaskList.names finals = finals
  split
  · rw [flatMap_eq_nil_iff]
    refine forall₂_congr fun ref _ => ?_
    by_cases hfinal : ref.pipelineTask ∈ finals <;> by_cases htask : ref.pipelineTask ∈ tasks <;>
      simp [hfinal, htask]
  · rename_i hlooks
    simp [newResultRefs_of_not_looksLike (Bool.eq_false_iff.mpr hlooks)]

theorem mem_pipelineTaskResultRefs_bare {pt : PipelineTask} {ref : ResultRef} :
    ref ∈ pipelineTaskResultRefs { pt with taskSpec := [] } ↔
      ∃ es ∈ pt.expressionLists, ref ∈ newResultRefs es := by
  simp [pipelineTaskResultRefs, PipelineTask.expressionLists, PipelineTask.extractAllParams,
    newResultRefs, or_and_right, exists_or]

/-- Where the finally tasks are accepted, their results come from the tasks section exactly if
those of the matrix do. -/
theorem finally_results_fromTasks_iff {tasks finalTasks : List PipelineTask}
    (h : validateFinalTasks tasks finalTasks = []) :
    (∀ f ∈ finalTasks, ∀ ref ∈ pipelineTaskResultRefs { f with taskSpec := [] },
        ref.pipelineTask ∈ PipelineTaskList.names tasks ∧
          ref.pipelineTask ∉ PipelineTaskList.names finalTasks) ↔
      ∀ f ∈ finalTasks, ∀ p ∈ f.matrix.params ++ f.matrix.includes.flatMap (·.params),
        FromTasks tasks finalTasks p.getVarSubstitutionExpressions := by
  have hwalked := (walkTasks_eq_nil resultsInFinally_eq_nil).mp (append_eq_nil_iff.mp h).2
  simp only [mem_pipelineTaskResultRefs_bare]
  refine forall₂_congr fun f hf =>
    ⟨fun hall p hp ref href => ?_, fun hmatrix ref ⟨es, hes, href⟩ => ?_⟩
  · refine hall ref ⟨_, mem_append_left _ (mem_map_of_mem ?_), href⟩
    rw [PipelineTask.extractAllParams, append_assoc]
    exact mem_append_right _ hp
  · rw [PipelineTask.expressionLists, PipelineTask.extractAllParams, append_assoc,
      map_append, append_assoc] at hes
    rcases mem_append.mp hes with hes | hes
    · exact hwalked f hf es (mem_append_left _ hes) ref href
    · rcases mem_append.mp hes with hes | hes
      · obtain ⟨p, hp, rfl⟩ := mem_map.mp hes
        exact hmatrix p hp ref href
      · exact hwalked f hf es (mem_append_right _ hes) ref href

def reading (name value : String) : PipelineTask :=
  { name := name, params := [⟨"value", { stringVal := value }⟩] }

def fannedOut (name value : String) : PipelineTask :=
  { name := name, matrix := { params := [⟨"value", { stringVal := value }⟩] } }

theorem notify_reads_task :
    validateFinalTasks [{ name := "build" }] [reading "notify" "$(tasks.build.results.digest)"] =
        [] ∧
      ∀ f ∈ [reading "notify" "$(tasks.build.results.digest)"],
        ∀ ref ∈ pipelineTaskResultRefs { f with taskSpec := [] },
          ref.pipelineTask ∈ PipelineTaskList.names [{ name := "build" }] ∧
            ref.pipelineTask ∉ PipelineTaskList.names
              [reading "notify" "$(tasks.build.results.digest)"] := by
  have haccepted : validateFinalTasks [{ name := "build" }]
      [reading "notify" "$(tasks.build.results.digest)"] = [] := by decide +kernel
  refine ⟨haccepted, (finally_results_fromTasks_iff haccepted).mpr ?_⟩
  intro f hf p hp
  obtain rfl := mem_singleton.mp hf
  cases hp

/-- The matrix of a finally task reads the results of another one. -/
theorem notify_reads_report : validateFinalTasks [{ name := "build" }]
        [{ name := "report" }, fannedOut "notify" "$(tasks.report.results.urls[*])"] = [] ∧
      ∃ f ∈ [{ name := "report" }, fannedOut "notify" "$(tasks.report.results.urls[*])"],
        ∃ ref ∈ pipelineTaskResultRefs { f with taskSpec := [] },
          ref.pipelineTask ∈ PipelineTaskList.names
            [{ name := "report" }, fannedOut "notify" "$(tasks.report.results.urls[*])"] := by
  decide +kernel

/-! ## The status of tasks -/

def hasSuffix (s suffix : String) : Bool := suffix.toList.isSuffixOf s.toList

def containsExecutionStatusRef (p : String) : Bool :=
  "tasks.".toList.isPrefixOf p.toList && (hasSuffix p ".status" || hasSuffix p ".reason")

def containsExecutionStatusReferences (expressions : List String) : Bool :=
  !looksLikeContainsResultRefs expressions && expressions.any containsExecutionStatusRef

def validateContainsExecutionStatusVariablesDisallowed (expressions : List String)
    (path : String) : List FieldError :=
  if containsExecutionStatusReferences expressions then
    [errInvalidValue ("pipeline tasks can not refer to execution status of any other pipeline " ++
      "task or aggregate status of tasks") path]
  else []

def trimTasks (expression suffix : String) : String :=
  String.ofList (Text.trimSuffix suffix.toList (Text.trimPrefix "tasks.".toList expression.toList))

def statusTask (expression : String) : String :=
  let pt := if hasSuffix expression ".status" then trimTasks expression ".status" else ""
  if hasSuffix expression ".reason" then trimTasks expression ".reason" else pt

def validateExecutionStatusVariablesExpressions (ptNames : List String)
    (expressions : List String) (fieldPath : String) : List FieldError :=
  if looksLikeContainsResultRefs expressions then []
  else expressions.flatMap fun expression =>
    if expression ≠ "tasks.status" ∧ containsExecutionStatusRef expression = true ∧
        statusTask expression ∉ ptNames then
      [errInvalidValue ("pipeline task " ++ statusTask expression ++
        " is not defined in the pipeline") fieldPath]
    else []

def validateExecutionStatusVariables (tasks finallyTasks : List PipelineTask) : List FieldError :=
  walkTasks "tasks" validateContainsExecutionStatusVariablesDisallowed tasks ++
    walkTasks "finally" (validateExecutionStatusVariablesExpressions
      (PipelineTaskList.names tasks)) finallyTasks

/-- `$(tasks.<task>.status)` or `$(tasks.<task>.reason)` -/
def IsStatusOf (expression task : String) : Prop :=
  '.' ∉ task.toList ∧ (expression = "tasks." ++ task ++ ".status" ∨
    expression = "tasks." ++ task ++ ".reason")

def IsStatusVariable (expression : String) : Prop :=
  expression = "tasks.status" ∨ ∃ task, IsStatusOf expression task

theorem IsStatusOf.read {expression task : String} (h : IsStatusOf expression task) :
    expression ≠ "tasks.status" ∧ containsExecutionStatusRef expression = true ∧
      statusTask expression = task := by
  have hlen : ∀ suffix : String, suffix.length = 7 →
      "tasks." ++ task ++ suffix ≠ "tasks.status" := by
    intro suffix hsuffix heq
    have hlength := congrArg String.length heq
    have hshort : "tasks.status".length = 12 ∧ "tasks.".length = 6 := by decide
    rw [String.length_append, String.length_append, hsuffix] at hlength
    omega
  have hends : ∀ suffix : String, ("tasks." ++ task ++ suffix).toList =
      "tasks.".toList ++ (task.toList ++ suffix.toList) := by
    intro suffix
    simp
  have htrim : ∀ suffix : String, trimTasks ("tasks." ++ task ++ suffix) suffix = task := by
    intro suffix
    rw [trimTasks, hends, Text.trimPrefix_append, Text.trimSuffix_append, String.ofList_toList]
  have hsuffix : ∀ suffix : String, hasSuffix ("tasks." ++ task ++ suffix) suffix = true := by
    intro suffix
    rw [hasSuffix, hends, isSuffixOf_iff_suffix, ← append_assoc]
    exact suffix_append _ _
  rcases h.2 with rfl | rfl
  · refine ⟨hlen _ (by decide), by simp [containsExecutionStatusRef, hsuffix], ?_⟩
    have hother : hasSuffix ("tasks." ++ task ++ ".status") ".reason" = false := by
      rw [hasSuffix, ← Bool.not_eq_true, isSuffixOf_iff_suffix]
      intro ⟨u, hu⟩
      rw [hends, ← append_assoc] at hu
      have hlast := congrArg List.getLast? hu
      rw [getLast?_append_of_ne_nil _ (by decide), getLast?_append_of_ne_nil _ (by decide)] at hlast
      exact absurd hlast (by decide)
    simp [statusTask, hother, hsuffix, htrim]
  · refine ⟨hlen _ (by decide), by simp [containsExecutionStatusRef, hsuffix], ?_⟩
    simp [statusTask, hsuffix, htrim]

theorem IsStatusVariable.contained {expression : String} (h : IsStatusVariable expression) :
    containsExecutionStatusRef expression = true := by
  rcases h with rfl | ⟨task, h⟩
  · decide
  · exact h.read.2.1

/-- No task of the tasks section refers to a status, and finally refers to that of its tasks;
`seen` are the lists of expressions that are left out. -/
def StatusConfined (tasks finallyTasks : List PipelineTask)
    (seen : PipelineTask → List String → Prop) : Prop :=
  (∀ t ∈ tasks, ∀ es ∈ t.expressionLists, ¬ seen t es → ∀ e ∈ es, ¬ IsStatusVariable e) ∧
    ∀ f ∈ finallyTasks, ∀ es ∈ f.expressionLists, ¬ seen f es → ∀ e ∈ es, ∀ task,
      IsStatusOf e task → task ∈ PipelineTaskList.names tasks

/-- The lists that are checked: not those of the matrix, and none with a reference to a
result. -/
def Checked (t : PipelineTask) (es : List String) : Prop :=
  es ∈ t.walkedLists ∧ looksLikeContainsResultRefs es = false

theorem disallowed_eq_nil (es : List String) (path : String) :
    validateContainsExecutionStatusVariablesDisallowed es path = [] ↔
      (looksLikeContainsResultRefs es = false →
        ∀ e ∈ es, containsExecutionStatusRef e = false) := by
  simp [validateContainsExecutionStatusVariablesDisallowed, containsExecutionStatusReferences]

theorem allowed_eq_nil {names : List String} (es : List String) (path : String) :
    validateExecutionStatusVariablesExpressions names es path = [] ↔
      (looksLikeContainsResultRefs es = false → ∀ e ∈ es, e ≠ "tasks.status" →
        containsExecutionStatusRef e = true → statusTask e ∈ names) := by
  simp [validateExecutionStatusVariablesExpressions]

/-- Where a pipeline is accepted, the status of tasks is confined to finally exactly if it is in
the lists that are not checked. -/
theorem statusConfined_iff {tasks finallyTasks : List PipelineTask}
    (h : validateExecutionStatusVariables tasks finallyTasks = []) :
    StatusConfined tasks finallyTasks (fun _ _ => False) ↔
      StatusConfined tasks finallyTasks Checked := by
  obtain ⟨htasks, hfinally⟩ := append_eq_nil_iff.mp h
  have hdisallowed := (walkTasks_eq_nil disallowed_eq_nil).mp htasks
  have hallowed := (walkTasks_eq_nil allowed_eq_nil).mp hfinally
  constructor
  · intro ⟨hall, hall'⟩
    exact ⟨fun t ht es hes _ => hall t ht es hes id, fun f hf es hes _ => hall' f hf es hes id⟩
  · intro ⟨hrest, hrest'⟩
    refine ⟨fun t ht es hes _ e he hstatus => ?_, fun f hf es hes _ e he task htask => ?_⟩
    · by_cases hchecked : Checked t es
      · have hno := hdisallowed t ht es hchecked.1 hchecked.2 e he
        rw [hstatus.contained] at hno
        cases hno
      · exact hrest t ht es hes hchecked e he hstatus
    · by_cases hchecked : Checked f es
      · obtain ⟨hne, hcontains, hname⟩ := htask.read
        exact hname ▸ hallowed f hf es hchecked.1 hchecked.2 e he hne hcontains
      · exact hrest' f hf es hes hchecked e he task htask

theorem notify_reads_status : validateExecutionStatusVariables [{ name := "build" }]
        [reading "notify" "$(tasks.build.status)"] = [] ∧
      StatusConfined [{ name := "build" }] [reading "notify" "$(tasks.build.status)"]
        fun _ _ => False := by
  have haccepted : validateExecutionStatusVariables [{ name := "build" }]
      [reading "notify" "$(tasks.build.status)"] = [] := by decide +kernel
  have hlists : (reading "notify" "$(tasks.build.status)").expressionLists =
      [["tasks.build.status"]] := by decide +kernel
  refine ⟨haccepted, (statusConfined_iff haccepted).mpr ⟨fun t ht es hes => ?_,
    fun f hf es hes hno => ?_⟩⟩
  · obtain rfl := mem_singleton.mp ht
    cases hes
  · obtain rfl := mem_singleton.mp hf
    rw [hlists] at hes
    obtain rfl := mem_singleton.mp hes
    exact absurd ⟨by decide +kernel, by decide +kernel⟩ hno

/-- A status next to a result, in a task of the tasks section. -/
theorem test_reads_status : validateExecutionStatusVariables [{ name := "build" },
          reading "test" "$(tasks.build.results.digest) $(tasks.build.status)"] [] = [] ∧
      ¬ StatusConfined
        [{ name := "build" },
          reading "test" "$(tasks.build.results.digest) $(tasks.build.status)"] []
        fun _ _ => False := by
  refine ⟨by decide +kernel, fun h => ?_⟩
  have hlists :
      (reading "test" "$(tasks.build.results.digest) $(tasks.build.status)").expressionLists =
      [["tasks.build.results.digest", "tasks.build.status"]] := by decide +kernel
  refine h.1 _ (mem_cons_of_mem _ mem_cons_self) _ (hlists ▸ mem_cons_self) id
    "tasks.build.status" (by simp) (.inr ⟨"build", by decide, .inl rfl⟩)

end TektonPipeline.Api
