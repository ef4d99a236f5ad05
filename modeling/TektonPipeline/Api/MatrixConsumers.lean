import TektonPipeline.Api.PipelineValidation

/-! The results of matrixed tasks in the parameters of other tasks: they are to be read as a
whole, and to be strings where their type is known. -/

namespace TektonPipeline.Api
open TektonPipeline.ResultRef List

/-- A task with the name of the task it refers to and the results that an embedded task
declares, with their types. -/
structure DeclaringTask extends PipelineTask where
  taskRef : Option String := none
  taskSpecResults : Option (List (String × Option ResultType)) := none
  deriving DecidableEq

/-- The task of a name, the last one of several. -/
def createTaskMapping (tasks : List DeclaringTask) (name : String) : DeclaringTask :=
  (tasks.reverse.find? fun t => t.name == name).getD { name := "" }

variable (mapping : String → DeclaringTask)

def consumesMatrix (expression : String) : Bool :=
  looksLikeResultRef expression &&
    (mapping ((splitDots expression)[1]?.getD "")).toPipelineTask.isMatrixed

def validateMatrixedPipelineTaskConsumed (expressions : List String) :
    List ResultRef × List FieldError :=
  let filteredExpressions := expressions.filter (consumesMatrix mapping)
  (newResultRefs filteredExpressions,
    (filteredExpressions.filter fun e => !hasSuffix e "[*]").map fun e =>
      errGeneric
        ("A matrixed pipelineTask can only be consumed in aggregate using [*] notation, " ++
        "but is currently set to " ++ e) [])

/-- The references of one parameter take the place of those of the parameter before it. -/
def findAndValidateResultRefsForMatrix (resultRefs : List ResultRef) :
    List (List String) → List ResultRef × List FieldError
  | [] => (resultRefs, [])
  | expressions :: rest =>
    if looksLikeContainsResultRefs expressions then
      let (found, errs) := validateMatrixedPipelineTaskConsumed mapping expressions
      if errs ≠ [] then ([], errs) else findAndValidateResultRefsForMatrix found rest
    else findAndValidateResultRefsForMatrix resultRefs rest

def ResultType.text : Option ResultType → String
  | none => ""
  | some .string => "string"
  | some .array => "array"
  | some .object => "object"

def validateStringResults (results : List (String × Option ResultType)) (resultName : String) :
    List FieldError :=
  (results.filter fun e => e.1 == resultName && e.2 != some .string).map fun e =>
    errInvalidValue ("Matrixed PipelineTasks emitting results must have an underlying type " ++
      "string, but result " ++ resultName ++ " has type " ++ ResultType.text e.2 ++
      " in pipelineTask") ""

def validateMatrixEmittingStringResults (resultRefs : List ResultRef) : List FieldError :=
  resultRefs.flatMap fun ref =>
    let task := mapping ref.pipelineTask
    let declaring := (task.taskRef.map mapping).getD task
    (declaring.taskSpecResults.map fun results => validateStringResults results ref.result).getD []

/-- The expressions of the parameters, without those of the matrix. -/
def paramLists (tasks : List DeclaringTask) : List (List String) :=
  tasks.flatMap fun t => t.params.map (·.getVarSubstitutionExpressions)

def validateTaskResultsFromMatrixedPipelineTasksConsumed (tasks : List DeclaringTask) :
    List FieldError :=
  let (resultRefs, errs) :=
    findAndValidateResultRefsForMatrix (createTaskMapping tasks) [] (paramLists tasks)
  if errs ≠ [] then errs
  else validateMatrixEmittingStringResults (createTaskMapping tasks) resultRefs

def ReadsString (expression : String) : Prop :=
  ∀ ref ∈ newResultRefs [expression], ∀ results,
    (mapping ref.pipelineTask).taskSpecResults = some results →
      ∀ type, (ref.result, type) ∈ results → type = some .string

def ConsumedWhole (tasks : List DeclaringTask) : Prop :=
  ∀ t ∈ tasks, ∀ p ∈ t.toPipelineTask.extractAllParams, ∀ e ∈ p.getVarSubstitutionExpressions,
    consumesMatrix (createTaskMapping tasks) e = true →
      hasSuffix e "[*]" = true ∧ ReadsString (createTaskMapping tasks) e

def lastConsumer (tasks : List DeclaringTask) : Option (List String) :=
  ((paramLists tasks).filter looksLikeContainsResultRefs).getLast?

/-- The task of the reference is embedded, and the reference is in the last parameter that has
any. -/
def TypeChecked (tasks : List DeclaringTask) (expressions : List String) (e : String) : Prop :=
  lastConsumer tasks = some expressions ∧
    ∀ ref ∈ newResultRefs [e], (createTaskMapping tasks ref.pipelineTask).taskRef = none

theorem find_accepts {refs refs' : List ResultRef} {lists : List (List String)}
    (h : findAndValidateResultRefsForMatrix mapping refs lists = (refs', [])) :
    (∀ es ∈ lists, ∀ e ∈ es, consumesMatrix mapping e = true → hasSuffix e "[*]" = true) ∧
      refs' = (((lists.filter looksLikeContainsResultRefs).getLast?.map fun es =>
        newResultRefs (es.filter (consumesMatrix mapping))).getD refs) := by
  induction lists generalizing refs with
  | nil =>
    obtain ⟨rfl, -⟩ := Prod.mk.inj h
    exact ⟨by simp, rfl⟩
  | cons es lists ih =>
    unfold findAndValidateResultRefsForMatrix at h
    cases hlooks : looksLikeContainsResultRefs es with
    | false =>
      rw [hlooks, if_neg Bool.false_ne_true] at h
      obtain ⟨hstar, hrefs⟩ := ih h
      refine ⟨forall_mem_cons.mpr ⟨fun e he hconsumes => ?_, hstar⟩, ?_⟩
      · have hnot := any_eq_false.mp hlooks e he
        exact absurd (Bool.and_eq_true_iff.mp hconsumes).1 hnot
      · rw [filter_cons_of_neg (by simp [hlooks])]
        exact hrefs
    | true =>
      rw [hlooks, if_pos rfl] at h
      unfold validateMatrixedPipelineTaskConsumed at h
      dsimp only at h
      split at h
      · rename_i herrs
        exact absurd (Prod.mk.inj h).2 herrs
      · rename_i herrs
        obtain ⟨hstar, hrefs⟩ := ih h
        refine ⟨forall_mem_cons.mpr ⟨fun e he hconsumes => ?_, hstar⟩, ?_⟩
        · rw [ne_eq, not_not, map_eq_nil_iff, filter_eq_nil_iff] at herrs
          simpa using herrs e (mem_filter.mpr ⟨he, hconsumes⟩)
        · rw [hrefs, filter_cons_of_pos hlooks, getLast?_cons]
          cases (lists.filter looksLikeContainsResultRefs).getLast? <;> rfl

theorem emitting_eq_nil {refs : List ResultRef} :
    validateMatrixEmittingStringResults mapping refs = [] ↔ ∀ ref ∈ refs, ∀ results,
        (((mapping ref.pipelineTask).taskRef.map mapping).getD
          (mapping ref.pipelineTask)).taskSpecResults = some results →
          ∀ type, (ref.result, type) ∈ results → type = some .string := by
  unfold validateMatrixEmittingStringResults
  rw [flatMap_eq_nil_iff]
  refine forall₂_congr fun ref _ => ?_
  dsimp only
  generalize (((mapping ref.pipelineTask).taskRef.map mapping).getD
    (mapping ref.pipelineTask)).taskSpecResults = declared
  cases declared with
  | none => simp
  | some results =>
    simp only [Option.map_some, Option.getD_some, validateStringResults, map_eq_nil_iff,
      filter_eq_nil_iff, Option.some.injEq, forall_eq']
    constructor
    · intro hall type hmem
      simpa using hall _ hmem
    · intro hall e he
      by_cases hname : e.1 = ref.result
      · simp [hall e.2 (hname ▸ he)]
      · simp [hname]

/-- Where the tasks are accepted, the results of matrixed tasks are consumed as they should be
exactly if those are that are not looked at. -/
theorem consumedWhole_iff {tasks : List DeclaringTask}
    (h : validateTaskResultsFromMatrixedPipelineTasksConsumed tasks = []) : ConsumedWhole tasks ↔
      ∀ t ∈ tasks, ∀ p ∈ t.toPipelineTask.extractAllParams, ∀ e ∈ p.getVarSubstitutionExpressions,
          consumesMatrix (createTaskMapping tasks) e = true →
            (p.getVarSubstitutionExpressions ∉ paramLists tasks → hasSuffix e "[*]" = true) ∧
              (¬ TypeChecked tasks p.getVarSubstitutionExpressions e →
                ReadsString (createTaskMapping tasks) e) := by
  unfold validateTaskResultsFromMatrixedPipelineTasksConsumed at h
  rcases hfind : findAndValidateResultRefsForMatrix (createTaskMapping tasks) [] (paramLists tasks)
    with ⟨refs, errs⟩
  rw [hfind] at h
  dsimp only at h
  split at h
  · rename_i herrs
    exact absurd h herrs
  · rename_i herrs
    rw [ne_eq, not_not] at herrs
    subst herrs
    obtain ⟨hstar, hrefs⟩ := find_accepts _ hfind
    have htypes := (emitting_eq_nil _).mp h
    refine forall₄_congr fun t _ p _ => forall₂_congr fun e he =>
      imp_congr_right fun hconsumes => ?_
    constructor
    · exact fun ⟨hs, hr⟩ => ⟨fun _ => hs, fun _ => hr⟩
    · intro ⟨hrest, htype⟩
      refine ⟨?_, ?_⟩
      · by_cases hmem : p.getVarSubstitutionExpressions ∈ paramLists tasks
        · exact hstar _ hmem e he hconsumes
        · exact hrest hmem
      · by_cases hchecked : TypeChecked tasks p.getVarSubstitutionExpressions e
        · intro ref href results hresults
          refine htypes ref ?_ results ?_
          · rw [hrefs]
            have hlast : (List.filter looksLikeContainsResultRefs (paramLists tasks)).getLast? =
                some p.getVarSubstitutionExpressions := hchecked.1
            rw [hlast, Option.map_some, Option.getD_some]
            obtain ⟨x, hx, hparse⟩ := mem_filterMap.mp href
            obtain rfl := mem_singleton.mp hx
            exact mem_filterMap.mpr ⟨x, mem_filter.mpr ⟨he, hconsumes⟩, hparse⟩
          · rw [hchecked.2 ref href]
            exact hresults
        · exact htype hchecked

/-- A matrixed task with the results `digest` and `files`, of which the second is an array. -/
def scanEach : DeclaringTask where
  toPipelineTask := fannedOut "scan" "$(params.images[*])"
  taskSpecResults := some [("digest", some .string), ("files", some .array)]

def reader (name value : String) : DeclaringTask where
  toPipelineTask := reading name value

theorem digests_consumed : validateTaskResultsFromMatrixedPipelineTasksConsumed
        [scanEach, reader "sign" "$(tasks.scan.results.digest[*])"] = [] ∧
      ConsumedWhole [scanEach, reader "sign" "$(tasks.scan.results.digest[*])"] := by
  have haccepted : validateTaskResultsFromMatrixedPipelineTasksConsumed
      [scanEach, reader "sign" "$(tasks.scan.results.digest[*])"] = [] := by decide +kernel
  have hall : ([scanEach, reader "sign" "$(tasks.scan.results.digest[*])"].all fun t =>
      t.toPipelineTask.extractAllParams.all fun p => p.getVarSubstitutionExpressions.all fun e =>
        !consumesMatrix (createTaskMapping
          [scanEach, reader "sign" "$(tasks.scan.results.digest[*])"]) e ||
        (lastConsumer [scanEach, reader "sign" "$(tasks.scan.results.digest[*])"] ==
            some p.getVarSubstitutionExpressions &&
          (newResultRefs [e]).all fun ref => (createTaskMapping
            [scanEach, reader "sign" "$(tasks.scan.results.digest[*])"]
            ref.pipelineTask).taskRef.isNone)) = true := by decide +kernel
  refine ⟨haccepted, (consumedWhole_iff haccepted).mpr fun t ht p hp e he hconsumes => ?_⟩
  have hone := all_eq_true.mp (all_eq_true.mp (all_eq_true.mp hall t ht) p hp) e he
  rw [hconsumes, Bool.not_true, Bool.false_or, Bool.and_eq_true, beq_iff_eq] at hone
  have hchecked : TypeChecked _ p.getVarSubstitutionExpressions e :=
    ⟨hone.1, fun ref href => Option.isNone_iff_eq_none.mp (all_eq_true.mp hone.2 ref href)⟩
  refine ⟨fun hmem => absurd ?_ hmem, fun hno => absurd hchecked hno⟩
  exact mem_of_mem_filter (mem_of_getLast? hone.1)

/-- The type of a result is not looked at where another parameter follows. -/
theorem files_consumed : validateTaskResultsFromMatrixedPipelineTasksConsumed
        [scanEach, reader "list" "$(tasks.scan.results.files[*])",
          reader "sign" "$(tasks.scan.results.digest[*])"] = [] ∧ ¬ ConsumedWhole
        [scanEach, reader "list" "$(tasks.scan.results.files[*])",
          reader "sign" "$(tasks.scan.results.digest[*])"] := by
  refine ⟨by decide +kernel, fun h => ?_⟩
  have hread := (h _ (mem_cons_of_mem _ mem_cons_self) _ mem_cons_self
    "tasks.scan.results.files[*]" (by decide +kernel) (by decide +kernel)).2
  have harray := hread ⟨"scan", "files", none, ""⟩ (by decide +kernel)
    [("digest", some .string), ("files", some .array)] (by decide +kernel) (some .array) (by simp)
  exact absurd harray (by decide)

end TektonPipeline.Api
