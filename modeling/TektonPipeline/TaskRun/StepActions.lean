import Mathlib.Data.List.Sort
import TektonPipeline.TaskRun.TaskSpec

/-! The step of a StepAction: the parameters a step and the declarations give it, and the tables
of replacements made from them. -/

namespace TektonPipeline.StepActions
open Api ResultRef
open Tasks (Step applyStepReplacements)

/-- `paramPatterns` with a name in place of `%s` and `%q`. -/
def paramPatterns (name : String) : List String :=
  ["params." ++ name, "params[\"" ++ name ++ "\"]", "params['" ++ name ++ "']",
    "inputs.params." ++ name]

def objectIndividualVariable (name key : String) : String := "params." ++ name ++ "." ++ key

def stringsOf (name : String) (v : ParamValue) : List (String × String) :=
  match v.type with
  | .array => (paramPatterns name).flatMap fun pattern =>
      v.arrayVal.zipIdx.map fun e => (pattern ++ "[" ++ toString e.2 ++ "]", e.1)
  | .object => v.objectVal.map fun e => (objectIndividualVariable name e.1, e.2)
  | .string => (paramPatterns name).map fun pattern => (pattern, v.stringVal)

def arraysOf (name : String) (v : ParamValue) : List (String × List String) :=
  match v.type with
  | .array => (paramPatterns name).map fun pattern => (pattern, v.arrayVal)
  | _ => []

def objectsOf (name : String) (v : ParamValue) : List (String × List (String × String)) :=
  match v.type with
  | .object => (paramPatterns name).map fun pattern => (pattern, v.objectVal)
  | _ => []

/-- A later parameter overwrites the entries of an earlier one. -/
def replacementsFromParams (params : Params) : Replacements where
  strings := params.reverse.flatMap fun p => stringsOf p.name p.value
  arrays := params.reverse.flatMap fun p => arraysOf p.name p.value
  objects := params.reverse.flatMap fun p => objectsOf p.name p.value

/-- The default refers to other parameters. -/
def refersToParams (v : ParamValue) : Bool :=
  Text.contains "$(params.".toList v.stringVal.toList

def extractVariableExpressions (s : String) : List (List Char) :=
  Text.findAll (braceMatching "params") s.toList

/-- The name in `$(params.name)`; of the other notations nothing is taken off the front. -/
def referencedParam (w : List Char) : String :=
  String.ofList (Text.trimSuffix ")".toList (Text.trimPrefix "$(params.".toList w))

/-- The defaults of the first pass, which refer to no other parameter. -/
def simpleDefaults (defaults : List ParamSpec) : Params :=
  defaults.filterMap fun p => (p.default.filter fun v => !refersToParams v).map (Param.mk p.name)

/-- One reference of the second pass; the last one that has a value decides. -/
def substituteReference (p : ParamSpec) (v : ParamValue) (strings : List (String × String))
    (w : List Char) : List (String × String) :=
  match (paramPatterns (referencedParam w)).findSome? fun key => strings.lookup key with
  | some value =>
    (paramPatterns p.name).map
      (fun pattern => (pattern, replaceAll v.stringVal (String.ofList w) value)) ++ strings
  | none => strings

def substituteDefault (strings : List (String × String)) (p : ParamSpec) : List (String × String) :=
  match p.default with
  | some v =>
    if refersToParams v then
      (extractVariableExpressions v.stringVal).foldl (substituteReference p v) strings
    else strings
  | none => strings

def replacementsFromDefaultParams (defaults : List ParamSpec) : Replacements :=
  let simple := replacementsFromParams (simpleDefaults defaults)
  { simple with strings := defaults.foldl substituteDefault simple.strings }

/-- The keys of an object given by the TaskRun are set in the default's; an object without
keys sets none. -/
def mergeObjects (given defaults : List (String × List (String × String))) :
    List (String × List (String × String)) :=
  (given.filter fun e => !e.2.isEmpty).map
    (fun e => (e.1, e.2 ++ (defaults.lookup e.1).getD [])) ++ defaults

def getTaskParameters (defaults : List ParamSpec) (params : Params) : Replacements :=
  let d := replacementsFromDefaultParams defaults
  let tr := replacementsFromParams params
  { strings := tr.strings ++ d.strings
    arrays := tr.arrays ++ d.arrays
    objects := mergeObjects tr.objects d.objects }

def applyParameters (step : Step) (defaults : List ParamSpec) (params : Params) : Step :=
  applyStepReplacements (getTaskParameters defaults params) step

/-- `stepProvidedParams`: of two entries with one name the later counts. -/
def provided (stepParams : Params) (name : String) : Option ParamValue :=
  (stepParams.reverse.find? fun sp => sp.name == name).map (·.value)

/-- The parameters whose value needs no other parameter. -/
def processedAtOnce (stepParams : Params) (defaults : List ParamSpec) : Params :=
  defaults.filterMap fun p =>
    match provided stepParams p.name with
    | some v => some ⟨p.name, v⟩
    | none => (p.default.filter fun v => !refersToParams v).map (Param.mk p.name)

/-- `paramsNeedingResolution`, in the order of the declarations. -/
def paramsNeedingResolution (stepParams : Params) (defaults : List ParamSpec) : Params :=
  defaults.filterMap fun p =>
    match provided stepParams p.name with
    | some _ => none
    | none => (p.default.filter refersToParams).map (Param.mk p.name)

def valueOf (processed : Params) (name : String) : Option ParamValue :=
  (processed.find? fun pp => pp.name == name).map (·.value)

def referencedParams (v : ParamValue) : List String :=
  (extractVariableExpressions v.stringVal).map referencedParam

/-- The references are replaced one after the other, in what the ones before have left. -/
def hydrate (processed : Params) (v : ParamValue) : ParamValue :=
  { v with
    stringVal := (referencedParams v).foldl
      (fun s name =>
        match valueOf processed name with
        | some pv => replaceAll s ("$(params." ++ name ++ ")") pv.stringVal
        | none => s)
      v.stringVal }

def resolveRound : Params → Params → Params × Params
  | [], processed => ([], processed)
  | p :: needed, processed =>
    if (referencedParams p.value).all fun name => (valueOf processed name).isSome then
      resolveRound needed (processed ++ [⟨p.name, hydrate processed p.value⟩])
    else
      let (left, processed') := resolveRound needed processed
      (p :: left, processed')

/-- The error of a round in which nothing was resolved, for the first parameter it reports. -/
def unresolvedError (defaults : List ParamSpec) (processed : Params) (p : Param) : String :=
  match (referencedParams p.value).find? fun name => (valueOf processed name).isNone with
  | some name =>
    if defaults.any fun d => d.name == name then
      "circular dependency detected in parameter references"
    else "parameter \"" ++ p.name ++ "\" references non-existent parameter \"" ++ name ++ "\""
  | none => "circular dependency detected in parameter references"

/-- Each round resolves one parameter at least, so there are no more rounds than parameters. -/
def resolveRounds (defaults : List ParamSpec) : Nat → Params → Params → Except String Params
  | _, [], processed => .ok processed
  | 0, p :: _, processed => .error (unresolvedError defaults processed p)
  | n + 1, p :: needed, processed =>
    let (left, processed') := resolveRound (p :: needed) processed
    if left.length = needed.length + 1 then .error (unresolvedError defaults processed p)
    else resolveRounds defaults n left processed'

def processedParams (stepParams : Params) (defaults : List ParamSpec) : Except String Params :=
  let needed := paramsNeedingResolution stepParams defaults
  resolveRounds defaults needed.length needed (processedAtOnce stepParams defaults)

/-- The name of a parameter as a part of a regular expression, where a dot is any character. -/
def namePattern (name : String) : List Char → Option Nat :=
  name.toList.foldr
    (fun c m => Text.andThen
      (if c = '.' then Text.one fun d => d != '\n' else Text.literal [c]) m)
    fun _ => some 0

/-- `\[([0-9]*)*\*?\]\)` -/
def indexPattern : List Char → Option Nat :=
  Text.andThen (Text.literal "[".toList) <| Text.andThen (Text.many 0 isDigit) <|
    Text.andThen (Text.optional (Text.literal "*".toList)) (Text.literal "])".toList)

def paramIndexRegexPatterns (name : String) : List (List Char → Option Nat) :=
  [Text.andThen (Text.literal "$(params".toList) <| Text.andThen (Text.one fun d => d != '\n') <|
      Text.andThen (namePattern name) indexPattern,
    Text.andThen (Text.literal "$(params[\"".toList) <| Text.andThen (namePattern name) <|
      Text.andThen (Text.literal "\"]".toList) indexPattern,
    Text.andThen (Text.literal "$(params['".toList) <| Text.andThen (namePattern name) <|
      Text.andThen (Text.literal "']".toList) indexPattern]

/-- The digits at the end of a match, before `])` or `*])`. -/
def matchedIndex (w : List Char) : List Char :=
  ((Text.trimSuffix "*".toList (Text.trimSuffix "])".toList w)).reverse.takeWhile isDigit).reverse

def findArrayIndexParamUsage (s name : String) : List (String × String) :=
  (paramIndexRegexPatterns name).flatMap fun m =>
    (Text.findAll m s.toList).filterMap fun w =>
      if matchedIndex w = [] then none
      else some (stripVarSubExpression (String.ofList w), String.ofList (matchedIndex w))

/-- The command, the arguments and the environment are looked through, the script is not. -/
def arrayIdxUsage (step : Step) (name : String) : List (String × String) :=
  (step.command ++ step.args ++ step.env.map (·.value)).flatMap fun s =>
    findArrayIndexParamUsage s name

def stepResult (pr : ParsedResult) (rest : String) : String :=
  "$(steps." ++ pr.resourceName ++ ".results." ++ pr.resultName ++ rest ++ ")"

def stepResultStrings (step : Step) (d : ParamSpec) (value : String) (pr : ParsedResult) :
    List (String × String) :=
  match d.type with
  | .object => d.properties.map fun k =>
      (objectIndividualVariable d.name k, stepResult pr ("." ++ k))
  | .array =>
    (arrayIdxUsage step d.name).map (fun e => (e.1, stepResult pr ("[" ++ e.2 ++ "]"))) ++
      (paramPatterns d.name).map fun pattern => (pattern ++ "[*]", stepResult pr "[*]")
  | .string => (paramPatterns d.name).map fun pattern => (pattern, value)

def isStepResult (v : ParamValue) : Bool := "$(steps.".toList.isPrefixOf v.stringVal.toList

def replacementsFromStepResults (step : Step) (defaults : List ParamSpec) :
    Params → Except String (List (String × String))
  | [] => .ok []
  | sp :: stepParams =>
    if isStepResult sp.value then
      match parseStepExpression (stripVarSubExpression sp.value.stringVal) with
      | none => .error stepExpressionForms
      | some pr =>
        match replacementsFromStepResults step defaults stepParams with
        | .error e => .error e
        | .ok rest =>
          .ok (rest ++ (defaults.filter fun d => d.name == sp.name).flatMap fun d =>
            stepResultStrings step d sp.value.stringVal pr)
    else replacementsFromStepResults step defaults stepParams

/-- The part of a key between an opening and a closing text, made of one class of
characters. -/
def inside (opening closing : String) (p : Char → Bool) (key : String) : Option String :=
  let inner := Text.trimSuffix closing.toList (Text.trimPrefix opening.toList key.toList)
  if key.toList = opening.toList ++ inner ++ closing.toList ∧ inner ≠ [] ∧ inner.all p then
    some (String.ofList inner)
  else none

def isWordChar (c : Char) : Bool := c.isAlphanum || c == '_'

def paramNameFromReplacementKey (key : String) : String :=
  ((inside "params." "" isWordChar key).or <|
    (inside "params[\"" "\"]" (· != '"') key).or <|
      (inside "params['" "']" (· != '\'') key).or <|
        inside "inputs.params." "" isWordChar key).getD key

def sortedKeys (strings : List (String × String)) : List String :=
  List.insertionSort (fun a b : String => a ≤ b) (strings.map (·.1))

def checkForDuplicateKeys (strings : List (String × String))
    (arrays : List (String × List String)) : Option String :=
  ((sortedKeys strings).find? fun k => (arrays.lookup k).isSome).map
    fun k => "invalid parameter substitution: " ++ paramNameFromReplacementKey k ++
      ". Please check the types of the default value and the passed value"

/-- Step results overwrite what was processed, and that the defaults. -/
def mergeReplacements (processed : Params) (results : List (String × String))
    (defaults : List ParamSpec) : Replacements where
  strings := results ++ ((replacementsFromParams processed).strings ++
    (replacementsFromDefaultParams defaults).strings)
  arrays := (replacementsFromParams processed).arrays ++
    (replacementsFromDefaultParams defaults).arrays

/-- The replacements of a StepAction, whose objects are not used any further. -/
def stepActionReplacements (step : Step) (stepParams : Params) (defaults : List ParamSpec) :
    Except String Replacements :=
  match processedParams stepParams defaults with
  | .error e => .error e
  | .ok processed =>
    match replacementsFromStepResults step defaults stepParams with
    | .error e => .error e
    | .ok results =>
      let r := mergeReplacements processed results defaults
      match checkForDuplicateKeys r.strings r.arrays with
      | some e => .error e
      | none => .ok r

def applyStepActionParameters (step : Step) (spec : List ParamSpec) (tr stepParams : Params)
    (defaults : List ParamSpec) : Except String Step :=
  let given := stepParams.replaceVariables (getTaskParameters spec tr)
  match stepActionReplacements step given defaults with
  | .error e => .error e
  | .ok r => .ok (applyStepReplacements r step)

end TektonPipeline.StepActions
