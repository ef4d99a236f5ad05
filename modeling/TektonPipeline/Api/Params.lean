import TektonPipeline.ResultRef

/-! Parameter values, when expressions and the substitution of variables in them. Go maps
are association lists whose first entry for a key is the map's entry. -/

namespace TektonPipeline.Api
open TektonPipeline.ResultRef

inductive ParamType where
  | string
  | array
  | object
  deriving DecidableEq

def ParamType.text : ParamType → String
  | .string => "string"
  | .array => "array"
  | .object => "object"

structure ParamValue where
  type : ParamType := .string
  stringVal : String := ""
  arrayVal : List String := []
  objectVal : List (String × String) := []
  deriving DecidableEq

abbrev ResultValue := ParamValue

structure Param where
  name : String
  value : ParamValue
  deriving DecidableEq

abbrev Params := List Param

def isVarChar (c : Char) : Bool :=
  c == '_' || ('a' ≤ c && c ≤ 'z') || ('A' ≤ c && c ≤ 'Z') || isDigit c || c == '.' || c == '-'

/-- `\$\([_a-zA-Z0-9.-]+(\.[_a-zA-Z0-9.-]+)*(\[([0-9]+|\*)\])?\)`; the middle group adds
nothing, its characters are in the class before it. -/
def variableSubstitution : List Char → Option Nat :=
  Text.andThen (Text.literal "$(".toList) <| Text.andThen (Text.many 1 isVarChar) <|
    Text.andThen
      (Text.optional <| Text.andThen (Text.literal "[".toList) <|
        Text.andThen (Text.orElse (Text.many 1 isDigit) (Text.literal "*".toList))
          (Text.literal "]".toList))
      (Text.literal ")".toList)

def isExactVariableSubstitution (s : String) : Bool :=
  variableSubstitution s.toList == some s.toList.length

def validateString (value : String) : List String :=
  (Text.findAll variableSubstitution value.toList).map
    fun e => stripVarSubExpression (String.ofList e)

def stripStarVarSubExpression (s : String) : String :=
  String.ofList (Text.trimSuffix "[*]".toList (stripVarSubExpression s).toList)

/-- `strings.NewReplacer`: one pass over the text, every key written `$(key)`. -/
def applyReplacements (s : String) (replacements : List (String × String)) : String :=
  let table := replacements.map fun e => (("$(" ++ e.1 ++ ")").toList, e.2.toList)
  String.ofList <| Text.rewriteAll
    (fun t => (table.find? fun e => e.1.isPrefixOf t).map fun e => e.1.length)
    (fun w => (table.lookup w).getD w) s.toList

def applyArrayReplacements (s : String) (strings : List (String × String)) :
    List (String × List String) → List String
  | [] => [applyReplacements s strings]
  | (k, v) :: arrays =>
    if s = "$(" ++ k ++ ")" ∨ s = "$(" ++ k ++ "[*])" then v
    else applyArrayReplacements s strings arrays

structure Replacements where
  strings : List (String × String) := []
  arrays : List (String × List String) := []
  objects : List (String × List (String × String)) := []
  deriving DecidableEq

def ParamValue.applyOrCorrect (v : ParamValue) (r : Replacements) : ParamValue :=
  if !isExactVariableSubstitution v.stringVal then
    { v with stringVal := applyReplacements v.stringVal r.strings }
  else
    let trimmed := stripStarVarSubExpression v.stringVal
    let v₁ := if (r.strings.lookup trimmed).isSome then
        { v with stringVal := applyReplacements v.stringVal r.strings } else v
    let v₂ := if (r.arrays.lookup trimmed).isSome then
        { v₁ with
          stringVal := ""
          arrayVal := applyArrayReplacements v.stringVal r.strings r.arrays
          type := .array } else v₁
    match r.objects.lookup trimmed with
    | some o => { v₂ with stringVal := "", objectVal := o, type := .object }
    | none => v₂

def ParamValue.applyReplacements (v : ParamValue) (r : Replacements) : ParamValue :=
  match v.type with
  | .array =>
    { v with arrayVal := v.arrayVal.flatMap fun s => applyArrayReplacements s r.strings r.arrays }
  | .object =>
    { v with objectVal := v.objectVal.map fun e => (e.1, Api.applyReplacements e.2 r.strings) }
  | .string => v.applyOrCorrect r

def Param.getVarSubstitutionExpressions (p : Param) : List String :=
  match p.value.type with
  | .array => p.value.arrayVal.flatMap validateString
  | .string => validateString p.value.stringVal
  | .object => p.value.objectVal.flatMap fun e => validateString e.2

def Params.replaceVariables (ps : Params) (r : Replacements) : Params :=
  ps.map fun p => { p with value := p.value.applyReplacements r }

inductive Operator where
  | isIn
  | notIn
  deriving DecidableEq

structure WhenExpression where
  input : String := ""
  operator : Operator := .isIn
  values : List String := []
  cel : String := ""
  deriving DecidableEq

abbrev WhenExpressions := List WhenExpression

def WhenExpression.isInputInValues (we : WhenExpression) : Bool :=
  we.values.any fun v => v == we.input

def WhenExpression.isTrue (we : WhenExpression) : Bool :=
  match we.operator with
  | .isIn => we.isInputInValues
  | .notIn => !we.isInputInValues

def arrayReference (s : String) : String :=
  String.ofList (Text.trimSuffix "[*])".toList (Text.trimPrefix "$(params.".toList s.toList))

def WhenExpression.applyReplacements (we : WhenExpression) (r : Replacements) : WhenExpression :=
  { we with
    input := Api.applyReplacements we.input r.strings
    cel := Api.applyReplacements we.cel r.strings
    values := we.values.flatMap fun v =>
      if (r.arrays.lookup ("params." ++ arrayReference v)).isSome ∨
          (r.arrays.lookup (stripStarVarSubExpression v)).isSome then
        applyArrayReplacements v r.strings r.arrays
      else [Api.applyReplacements v r.strings] }

def WhenExpression.getVarSubstitutionExpressions (we : WhenExpression) : List String :=
  validateString we.input ++ validateString we.cel ++ we.values.flatMap validateString

/-- A map read at a missing key gives `false`. -/
def WhenExpressions.allowsExecution (wes : WhenExpressions)
    (evaluatedCEL : List (String × Bool)) : Bool :=
  wes.all fun we => we.isTrue && (we.cel == "" || (evaluatedCEL.lookup we.cel).getD false)

def WhenExpressions.replaceVariables (wes : WhenExpressions) (r : Replacements) : WhenExpressions :=
  wes.map fun we => we.applyReplacements r

theorem applyReplacements_nil (s : String) : applyReplacements s [] = s := by
  simp [applyReplacements, Text.rewriteAll_none]

theorem ParamValue.applyReplacements_nil (v : ParamValue) : v.applyReplacements {} = v := by
  rcases v with ⟨type, stringVal, arrayVal, objectVal⟩
  cases type with
  | array => simp [ParamValue.applyReplacements, applyArrayReplacements, Api.applyReplacements_nil]
  | object => simp [ParamValue.applyReplacements, Api.applyReplacements_nil]
  | string =>
    simp [ParamValue.applyReplacements, ParamValue.applyOrCorrect, Api.applyReplacements_nil]

theorem Params.replaceVariables_nil (ps : Params) : ps.replaceVariables {} = ps := by
  simp [Params.replaceVariables, ParamValue.applyReplacements_nil]

theorem WhenExpressions.replaceVariables_nil (wes : WhenExpressions) :
    wes.replaceVariables {} = wes := by
  simp [WhenExpressions.replaceVariables, WhenExpression.applyReplacements,
    Api.applyReplacements_nil]

end TektonPipeline.Api
