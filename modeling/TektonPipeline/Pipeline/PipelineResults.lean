import TektonPipeline.Pipeline.Frame
import TektonPipeline.Api.Variables

/-! The results of a PipelineRun. The results of a matrixed task are collected in a cache of
the reconcile, which is filled by whatever refers to one of them first; the results of the
PipelineRun are read off that cache. -/

namespace TektonPipeline.Pipeline
open Api ResultRef

def convertResultsMapToTaskRunResults (resultsMap : List (String × List String)) :
    List (String × ResultValue) :=
  resultsMap.map fun e => (e.1, { type := .array, arrayVal := e.2 })

def ResolvedPipelineTask.results? (t : ResolvedPipelineTask) :
    Option (List (String × ResultValue)) :=
  if t.customTask || !t.isSuccessful then none
  else if t.pipelineTask.isMatrixed then
    let taskRunResults := convertResultsMapToTaskRunResults t.resultsCache
    if taskRunResults.isEmpty then none else some taskRunResults
  else some ((t.taskRuns.head?.map (·.results)).getD [])

/-- A later task of a name comes before an earlier one. -/
def getTaskRunsResults (s : PipelineRunState) : List (String × List (String × ResultValue)) :=
  s.reverse.filterMap fun t => t.results?.map fun results => (t.name, results)

/-- `text` gives the text that a result of a CustomRun was reported as. -/
def ResolvedPipelineTask.runResults? (text : ResultValue → String) (t : ResolvedPipelineTask) :
    Option (List (String × String)) :=
  if !t.customTask || !t.isSuccessful then none
  else match t.customRuns with
    | [run] => some (run.results.map fun e => (e.1, text e.2))
    | _ => none

def getRunsResults (text : ResultValue → String) (s : PipelineRunState) :
    List (String × List (String × String)) :=
  s.reverse.filterMap fun t => (t.runResults? text).map fun results => (t.name, results)

structure PipelineResult where
  name : String
  value : ParamValue
  deriving DecidableEq

def PipelineResult.getVarSubstitutionExpressions (r : PipelineResult) : List String :=
  validateString r.value.stringVal ++ r.value.arrayVal.flatMap validateString ++
    r.value.objectVal.flatMap fun e => validateString e.2

structure RunResults where
  taskRunResults : List (String × List (String × ResultValue)) := []
  customTaskResults : List (String × List (String × String)) := []
  taskStatus : List (String × String) := []
  deriving DecidableEq

/-- What a variable of a pipeline result stands for. A variable without a value drops the
pipeline result, which is an error if the variable is `invalid`. -/
inductive VariableValue where
  | string (value : String)
  | array (values : List String)
  | object (entries : List (String × String))
  | missing (invalid : Bool)
  deriving DecidableEq

def RunResults.taskResultValue (e : RunResults) (taskName resultName : String) :
    Option ResultValue :=
  (e.taskRunResults.lookup taskName).bind fun results => results.lookup resultName

def RunResults.runResultValue (e : RunResults) (taskName resultName : String) : Option String :=
  (e.customTaskResults.lookup taskName).bind fun results => results.lookup resultName

/-- A result may be missing where the task was not successful. -/
def RunResults.missingResult (e : RunResults) (taskName : String) : VariableValue :=
  match e.taskStatus.lookup ("tasks." ++ taskName ++ ".status") with
  | some status => .missing (status == "Succeeded")
  | none => .missing true

def RunResults.wholeResult (e : RunResults) (taskName name : String) : VariableValue :=
  let (resultName, stringIdx) := parseResultName name
  match e.taskResultValue taskName resultName with
  | some value =>
    match value.type with
    | .string => .string value.stringVal
    | .array =>
      if stringIdx = "*" then .array value.arrayVal
      else match value.arrayVal[atoi stringIdx]? with
        | some element => .string element
        | none => .missing true
    | .object => .object value.objectVal
  | none =>
    match e.runResultValue taskName resultName with
    | some value => .string value
    | none => e.missingResult taskName

def RunResults.keyedResult (e : RunResults) (taskName name objectKey : String) : VariableValue :=
  match e.taskResultValue taskName (parseResultName name).1 with
  | some value =>
    match value.objectVal.lookup objectKey with
    | some element => .string element
    | none => .missing true
  | none => e.missingResult taskName

/-- Reading the third part of `tasks.a` panics. -/
def RunResults.variableValue (e : RunResults) (expr : String) : Option VariableValue :=
  match splitDots expr with
  | kind :: rest =>
    if kind ≠ "tasks" ∧ kind ≠ "finally" then some (.missing true)
    else match rest with
      | taskName :: part :: names =>
        if part ≠ "results" then some (.missing true)
        else match names with
          | [name] => some (e.wholeResult taskName name)
          | [name, objectKey] => some (e.keyedResult taskName name objectKey)
          | _ => some (.missing true)
      | _ => none
  | [] => none

def VariableValue.add (expr : String) (r : Replacements) : VariableValue → Replacements
  | .string value => { r with strings := (expr, value) :: r.strings }
  | .array values =>
    { r with arrays := (stripStarVarSubExpression expr, values) :: r.arrays }
  | .object entries =>
    { r with objects := (stripStarVarSubExpression expr, entries) :: r.objects }
  | .missing _ => r

def VariableValue.isValid : VariableValue → Bool
  | .missing _ => false
  | _ => true

def VariableValue.isInvalid : VariableValue → Bool
  | .missing invalid => invalid
  | _ => false

def memoized (r : Replacements) (expr : String) : Bool :=
  (r.strings.lookup expr).isSome || (r.arrays.lookup expr).isSome ||
    (r.objects.lookup expr).isSome

structure Substituted where
  replacements : Replacements
  valid : Bool := true
  reported : Nat := 0
  deriving DecidableEq

def RunResults.substitute (e : RunResults) : Substituted → List String → Option Substituted
  | acc, [] => some acc
  | acc, expr :: exprs =>
    if memoized acc.replacements expr then e.substitute acc exprs
    else match e.variableValue expr with
      | none => none
      | some value =>
        e.substitute
          ⟨value.add expr acc.replacements, acc.valid && value.isValid,
            acc.reported + if value.isInvalid then 1 else 0⟩ exprs

structure PipelineResults where
  runResults : List PipelineResult := []
  invalid : List String := []
  deriving DecidableEq

def RunResults.applyOne (e : RunResults) (r : Replacements) (result : PipelineResult) :
    Option (Replacements × PipelineResults) :=
  let exprs := result.getVarSubstitutionExpressions
  if exprs.isEmpty then some (r, {})
  else (e.substitute ⟨r, true, 0⟩ exprs).map fun found =>
    (found.replacements,
      { runResults :=
          if found.valid then [⟨result.name, result.value.applyReplacements found.replacements⟩]
          else []
        invalid := List.replicate found.reported result.name })

def RunResults.applyAll (e : RunResults) (r : Replacements) :
    List PipelineResult → Option (Replacements × PipelineResults)
  | [] => some (r, {})
  | result :: results => do
    let (r, added) ← e.applyOne r result
    let (r, rest) ← e.applyAll r results
    return (r, ⟨added.runResults ++ rest.runResults, added.invalid ++ rest.invalid⟩)

/-- `ApplyTaskResultsToPipelineResults`; it is an error if a pipeline result is invalid. -/
def applyTaskResultsToPipelineResults (results : List PipelineResult) (e : RunResults) :
    Option PipelineResults :=
  (e.applyAll {} results).map (·.2)

def PipelineResults.error? (r : PipelineResults) : Option String :=
  if r.invalid.isEmpty then none
  else some ("invalid pipelineresults [" ++ String.intercalate " " r.invalid ++
    "], the referenced results don't exist")

/-! ## The results that a matrixed task has in the cache -/

def valuesOf (r : String) (results : List (String × ResultValue)) : List String :=
  (results.filter fun e => e.1 = r).map fun e => e.2.stringVal

def addToCache (cache : List (String × List String)) (e : String × ResultValue) :
    List (String × List String) :=
  Assoc.upsert cache e.1 (· ++ [e.2.stringVal]) [e.2.stringVal]

theorem lookup_addToCache (results : List (String × ResultValue))
    (cache : List (String × List String)) (r : String) : (results.foldl addToCache cache).lookup r =
      if valuesOf r results = [] then cache.lookup r
      else some ((cache.lookup r).getD [] ++ valuesOf r results) := by
  have hfold : results.foldl addToCache cache =
      Assoc.group cache (results.map fun e => (e.1, e.2.stringVal)) := by
    rw [Assoc.group, List.foldl_map]
    rfl
  have hvalues : Assoc.valuesAt r (results.map fun e => (e.1, e.2.stringVal)) =
      valuesOf r results := by
    simp [Assoc.valuesAt, valuesOf, List.filter_map, Function.comp_def]
  rw [hfold, Assoc.lookup_group, hvalues]

theorem ResolvedPipelineTask.lookup_cacheResults {t : ResolvedPipelineTask}
    (hcache : t.resultsCache = []) (r : String) : t.cacheResults.resultsCache.lookup r =
      if valuesOf r (t.cacheResults.taskRuns.flatMap (·.results)) = [] then none
      else some (valuesOf r (t.cacheResults.taskRuns.flatMap (·.results))) := by
  have hfold : t.cacheResults.resultsCache =
      (t.cacheResults.taskRuns.flatMap (·.results)).foldl addToCache [] := by
    simp only [cacheResults, hcache, List.isEmpty_nil, if_true]
    rfl
  rw [hfold, lookup_addToCache]
  simp

theorem valuesOf_perm {r : String} {runs runs' : List ChildRun} (h : runs.Perm runs') :
    (valuesOf r (runs.flatMap (·.results))).Perm (valuesOf r (runs'.flatMap (·.results))) :=
  ((h.flatMap_right _).filter _).map _

theorem lookup_convertResultsMap (cache : List (String × List String)) (r : String) :
    (convertResultsMapToTaskRunResults cache).lookup r =
      (cache.lookup r).map fun values => { type := .array, arrayVal := values } :=
  Assoc.lookup_map (fun _ values => ({ type := .array, arrayVal := values } : ResultValue)) cache r

end TektonPipeline.Pipeline
