import TektonPipeline.TaskRun.TaskSpec
import TektonPipeline.Termination.Message

/-! The results and artifacts that a TaskRun gets from the termination messages of its steps
and from the logs of the results sidecar. -/

namespace TektonPipeline.PodStatus
open Termination
open Tasks (ResultsType TaskResult StepResult)

/-- The digests are listed in the order of their algorithms. A nil map is not equal to an empty
one. -/
structure ArtifactValue where
  digest : Option (List (String × String)) := none
  uri : String := ""
  deriving DecidableEq

structure Artifact where
  name : String := ""
  values : List ArtifactValue := []
  buildOutput : Bool := false
  deriving DecidableEq

structure Artifacts where
  inputs : List Artifact := []
  outputs : List Artifact := []
  deriving DecidableEq

/-- The values that are not there yet are added. -/
def addValues (present added : List ArtifactValue) : List ArtifactValue :=
  added.foldl (fun vs v => if v ∈ vs then vs else vs ++ [v]) present

/-- `map[string][]ArtifactValue` -/
def mergeInputs (inputs another : List Artifact) : List Artifact :=
  let inputMap := Assoc.ofWrites (inputs.map fun v => (v.name, v.values))
  let merged := another.foldl
    (fun m v => Assoc.upsert m v.name (fun vs => addValues vs v.values) (addValues [] v.values))
    inputMap
  merged.map fun e => { name := e.1, values := e.2 }

/-- `buildOutput` is only ever set. -/
def mergeOutputs (outputs another : List Artifact) : List Artifact :=
  let outputMap := Assoc.ofWrites (outputs.map fun v => (v.name, v))
  let add (a v : Artifact) : Artifact :=
    { a with values := addValues a.values v.values, buildOutput := a.buildOutput || v.buildOutput }
  let merged := another.foldl
    (fun m v => Assoc.upsert m v.name (fun a => add a v)
      (add { name := v.name, buildOutput := v.buildOutput } v))
    outputMap
  merged.map (·.2)

/-- The maps are read in the order of their first entries; the order of the source's is not
fixed. -/
def Artifacts.merge (a another : Artifacts) : Artifacts where
  inputs := mergeInputs a.inputs another.inputs
  outputs := mergeOutputs a.outputs another.outputs

/-- `TaskRunResult` and `TaskRunStepResult` -/
structure TaskRunResult where
  name : String
  type : ResultsType
  value : Api.ResultValue
  deriving DecidableEq

/-- The decoders of what is read. `artifacts` decodes into the value that is there already,
which may be changed even where decoding fails. -/
structure Decoders where
  json : Json
  artifacts : String → Artifacts → Artifacts × Option String
  resultValue : String → Except String Api.ResultValue
  time : String → Except String Nat

/-- The value of a result as it was declared; `none` where it cannot be decoded. -/
def Decoders.taskRunResult (d : Decoders) (declared : ResultsType) (r : RunResult) :
    Option TaskRunResult :=
  if declared = .string then some ⟨r.key, .string, { stringVal := r.value }⟩
  else
    match d.resultValue r.value with
    | .error _ => none
    | .ok v => some ⟨r.key, .ofParamType v.type, v⟩

structure FilteredResults where
  taskResults : List TaskRunResult := []
  taskRunStepResults : List TaskRunResult := []
  filteredResults : List RunResult := []
  deriving DecidableEq

/-- The type of the last result of a name. -/
def neededType (results : List (String × ResultsType)) (name : String) : ResultsType :=
  (results.reverse.lookup name).getD .unset

def filterResults (d : Decoders) (specResults : List TaskResult) (stepResults : List StepResult) :
    List RunResult → FilteredResults
  | [] => {}
  | r :: results =>
    let rest := filterResults d specResults stepResults results
    if r.resultType = taskRunResultType then
      match d.taskRunResult (neededType (specResults.map fun s => (s.name, s.type)) r.key) r with
      | none => rest
      | some t =>
        { rest with
          taskResults := t :: rest.taskResults
          filteredResults := r :: rest.filteredResults }
    else if r.resultType = stepResultType then
      match d.taskRunResult (neededType (stepResults.map fun s => (s.name, s.type)) r.key) r with
      | none => rest
      | some t =>
        { rest with
          taskRunStepResults := t :: rest.taskRunStepResults
          filteredResults := r :: rest.filteredResults }
    else if r.resultType = internalTektonResultType then rest
    else { rest with filteredResults := r :: rest.filteredResults }

def getTaskResultsFromSidecarLogs (runResults : List RunResult) : List RunResult :=
  runResults.filter fun slr => slr.resultType = taskRunResultType

/-- `<stepName>.<resultName>`, cut at the first dot. -/
def extractStepAndResultFromSidecarResultName (name : String) : Except String (String × String) :=
  let stepName := name.toList.takeWhile (· != '.')
  match name.toList.drop stepName.length with
  | [] => .error ("invalid string " ++ name ++
      " : expected somtthing that looks like <stepName>.<resultName>")
  | _ :: resultName => .ok (String.ofList stepName, String.ofList resultName)

def getStepResultsFromSidecarLogs (containerName : String) :
    List RunResult → Except String (List RunResult)
  | [] => .ok []
  | slr :: rest => do
    if slr.resultType = stepResultType then
      let (stepName, resultName) ← extractStepAndResultFromSidecarResultName slr.key
      let found ← getStepResultsFromSidecarLogs containerName rest
      if stepName = containerName then .ok ({ slr with key := resultName } :: found)
      else .ok found
    else getStepResultsFromSidecarLogs containerName rest

/-- The first artifacts among the results that `wanted` picks. -/
def setArtifacts (d : Decoders) (wanted : RunResult → Bool) (results : List RunResult)
    (artifacts : Artifacts) : Artifacts × Option String :=
  match results.find? wanted with
  | none => (artifacts, none)
  | some r => d.artifacts r.value artifacts

def setTaskRunArtifactsFromRunResult (d : Decoders) :
    List RunResult → Artifacts → Artifacts × Option String :=
  setArtifacts d fun slr => slr.resultType = taskRunArtifactsResultType

def setStepArtifactsValueFromSidecarLogResult (d : Decoders) (name : String) :
    List RunResult → Artifacts → Artifacts × Option String :=
  setArtifacts d fun r => r.key = name && r.resultType = stepArtifactsResultType

def setStepArtifactsValueFromTerminationMessageRunResult (d : Decoders) :
    List RunResult → Artifacts → Artifacts × Option String :=
  setArtifacts d fun r => r.resultType = stepArtifactsResultType

/-- `neededStepResults` maps the names of step results to those of the task results that fetch
them. -/
def createTaskResultsFromStepResults (neededStepResults : List (String × String))
    (stepRunRes : List TaskRunResult) : List TaskRunResult :=
  stepRunRes.filterMap fun r =>
    (neededStepResults.lookup r.name).map fun name => { r with name := name }

/-- `\$\(steps\.(.*?)\.results\.(.*?)\)`; the groups are lazy and end where the text that closes
them comes first. -/
def stepResultPattern : List Char → Option Nat :=
  Text.andThen (Text.literal "$(steps.".toList) <|
    Text.andThen (Text.lazyUntil ".results.".toList) (Text.lazyUntil ")".toList)

def extractStepResultName (value : String) : Except String (String × String) :=
  match Text.findAll stepResultPattern value.toList with
  | [] => .error ("Could not extract step name and result name. Expected value to look like " ++
      "$(steps.<stepName>.results.<resultName>) but got \"" ++ value ++ "\"")
  | w :: _ =>
    let inner := w.drop "$(steps.".length
    let n := (Text.lazyUntil ".results.".toList inner).getD 0
    .ok (String.ofList (inner.take (n - ".results.".length)),
      String.ofList ((inner.drop n).dropLast))

def getContainerName (name : String) : String := "step-" ++ name

def findStepResultsFetchedByTask (containerName : String) :
    List TaskResult → Except String (List (String × String))
  | [] => .ok []
  | r :: specResults => do
    let stringVal := (r.value.map (·.stringVal)).getD ""
    if stringVal = "" then findStepResultsFetchedByTask containerName specResults
    else
      let (sName, resultName) ← extractStepResultName stringVal
      let needed ← findStepResultsFetchedByTask containerName specResults
      -- a later result overwrites an earlier one
      if getContainerName sName = containerName ∧ needed.lookup resultName = none then
        .ok ((resultName, r.name) :: needed)
      else .ok needed

/-- `map` writes of `latest`, read at the place of the first result of each name. -/
def removeDuplicateResults (taskRunResult : List TaskRunResult) : List TaskRunResult :=
  (Assoc.ofWrites (taskRunResult.map fun r => (r.name, r))).map (·.2)

def extractStartedAtTimeFromResults (d : Decoders) (results : List RunResult) :
    Except String (Option Nat) :=
  match results.find? fun r => r.key = "StartedAt" with
  | none => .ok none
  | some r =>
    match d.time r.value with
    | .ok t => .ok (some t)
    | .error e =>
      .error ("could not parse time value \"" ++ r.value ++ "\" in StartedAt field: " ++ e)

def digits? (cs : List Char) : Option Nat :=
  if cs ≠ [] ∧ cs.all ResultRef.isDigit then
    some (cs.foldl (fun n c => 10 * n + (c.toNat - '0'.toNat)) 0)
  else none

/-- `strconv.ParseInt(value, 10, 32)` -/
def parseInt32 (value : String) : Except String Int :=
  let (negative, cs) :=
    match value.toList with
    | '-' :: cs => (true, cs)
    | '+' :: cs => (false, cs)
    | cs => (false, cs)
  match digits? cs with
  | none => .error ("strconv.ParseInt: parsing \"" ++ value ++ "\": invalid syntax")
  | some n =>
    if n ≤ (if negative then 2 ^ 31 else 2 ^ 31 - 1) then .ok (if negative then -n else n)
    else .error ("strconv.ParseInt: parsing \"" ++ value ++ "\": value out of range")

def extractExitCodeFromResults (results : List RunResult) : Except String (Option Int) :=
  match results.find? fun r => r.key = "ExitCode" with
  | none => .ok none
  | some r =>
    match parseInt32 r.value with
    | .ok i => .ok (some i)
    | .error e =>
      .error ("could not parse int value \"" ++ r.value ++ "\" in ExitCode field: " ++ e)

def extractTerminationReasonFromResults (results : List RunResult) : String :=
  match results.find? fun r => r.resultType = internalTektonResultType && r.key = "Reason" with
  | none => ""
  | some r => r.value

def getTerminationReason (terminatedStateReason terminationFromResults : String)
    (exitCodeFromResults : Option Int) : String :=
  if terminationFromResults ≠ "" then terminationFromResults
  else if exitCodeFromResults.isSome then "Continued"
  else terminatedStateReason

def createMessageFromResults (d : Decoders) (results : List RunResult) : List UInt8 :=
  if results = [] then [] else d.json.marshal results

def monthLengths (year : Nat) : List Nat :=
  [31, if year % 4 = 0 ∧ (year % 100 ≠ 0 ∨ year % 400 = 0) then 29 else 28, 31, 30, 31, 30, 31, 31,
    30, 31, 30, 31]

/-- `time.Parse` with the layout of the entrypoint, for times in UTC: the milliseconds since the
start of the year 0. -/
def parseTime (value : String) : Except String Nat :=
  let cs := value.toList
  let part (i n : Nat) : Nat := (digits? ((cs.drop i).take n)).getD 0
  let (year, month, day) := (part 0 4, part 5 2, part 8 2)
  let (hour, minute, second) := (part 11 2, part 14 2, part 17 2)
  let lengths := monthLengths year
  if cs.map (fun c => if ResultRef.isDigit c then '0' else c) ≠ "0000-00-00T00:00:00.000Z".toList ∨
      month = 0 ∨ day = 0 ∨ lengths.getD (month - 1) 0 < day ∨ 24 ≤ hour ∨ 60 ≤ minute ∨
      60 ≤ second then .error ("parsing time \"" ++ value ++ "\"")
  else
    let leapYears := (year + 3) / 4 - (year + 99) / 100 + (year + 399) / 400
    let days := 365 * year + leapYears + (lengths.take (month - 1)).sum + (day - 1)
    .ok ((((24 * days + hour) * 60 + minute) * 60 + second) * 1000 + part 20 3)

/-- Artifacts and values that are not plain strings are not decoded. -/
def plainDecoders : Decoders where
  json := encodingJson
  artifacts value artifacts :=
    if value = "null" then (artifacts, none) else (artifacts, some "invalid character")
  resultValue _ := .error "invalid character"
  time := parseTime

end TektonPipeline.PodStatus
