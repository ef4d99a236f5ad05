import TektonPipeline.Library.Text

/-! Result references as the entrypoint and the pipeline controller read them:
`steps.<name>.results.<result>` and `tasks.<name>.results.<result>`, with an optional index
or object key. -/

namespace TektonPipeline.ResultRef
open TektonPipeline

def splitDots (s : String) : List String :=
  (Text.splitOn '.' s.toList).map String.ofList

def isDigit (c : Char) : Bool := '0' ≤ c && c ≤ '9'

/-- `\[([0-9])*\*?\]` -/
def arrayIndexing : List Char → Option Nat :=
  Text.andThen (Text.literal "[".toList) <| Text.andThen (Text.many 0 isDigit) <|
    Text.andThen (Text.optional (Text.literal "*".toList)) (Text.literal "]".toList)

/-- `\$\(steps\..*?\.results\..*?\)` -/
def stepResultUsage : List Char → Option Nat :=
  Text.andThen (Text.literal "$(steps.".toList) <|
    Text.andThen (Text.lazyUntil ".results.".toList) (Text.lazyUntil ")".toList)

/-- The uses of step results in a text, in the order they stand in it. -/
def stepResultMatches (s : String) : List String :=
  (Text.findAll stepResultUsage s.toList).map String.ofList

def stripVarSubExpression (s : String) : String :=
  String.ofList (Text.trimSuffix ")".toList (Text.trimPrefix "$(".toList s.toList))

def replaceAll (s old new : String) : String :=
  String.ofList (Text.replaceAll old.toList new.toList s.toList)

def looksLikeResultRef (expression : String) : Bool :=
  match splitDots expression with
  | kind :: _ :: part :: _ :: _ => (kind == "tasks" || kind == "finally") && part == "results"
  | _ => false

def looksLikeStepResultRef (expression : String) : Bool :=
  match splitDots expression with
  | kind :: _ :: part :: _ :: _ => kind == "steps" && part == "results"
  | _ => false

inductive ResultType where
  | string
  | array
  | object
  deriving DecidableEq

structure ParsedResult where
  resourceName : String
  resultName : String
  resultType : ResultType
  arrayIdx : Option Nat := none
  objectKey : String := ""
  deriving DecidableEq

/-- `strconv.Atoi` with its error dropped: zero for anything but digits, the largest int
for a number out of range. -/
def atoi (s : String) : Nat :=
  if s.toList ≠ [] ∧ s.toList.all isDigit then
    min (Nat.ofDigitChars 10 s.toList 0) (2 ^ 63 - 1)
  else 0

def parseResultName (resultName : String) : String × String :=
  let found := ((Text.findAll arrayIndexing resultName.toList).head?).getD []
  let stringIdx := Text.trimSuffix "]".toList (Text.trimPrefix "[".toList found)
  (String.ofList (Text.rewriteAll arrayIndexing (fun _ => []) resultName.toList),
    String.ofList stringIdx)

/-- `parseExpression`; its one error is `none`. -/
def parseExpression (expression : String) : Option ParsedResult :=
  if looksLikeResultRef expression || looksLikeStepResultRef expression then
    match splitDots expression with
    | [_, resource, _, name] =>
      let (resultName, stringIdx) := parseResultName name
      if stringIdx = "" then some ⟨resource, resultName, .string, none, ""⟩
      else if stringIdx = "*" then some ⟨resource, resultName, .array, none, ""⟩
      else some ⟨resource, resultName, .array, some (atoi stringIdx), ""⟩
    | [_, resource, _, name, key] => some ⟨resource, name, .object, none, key⟩
    | _ => none
  else none

@[irreducible] def parseTaskExpression (expression : String) : Option ParsedResult :=
  if looksLikeResultRef expression then parseExpression expression else none

@[irreducible] def parseStepExpression (expression : String) : Option ParsedResult :=
  if looksLikeStepResultRef expression then parseExpression expression else none

/-- What is said of an expression that is not one of a step. -/
def stepExpressionForms : String :=
  "must be one of the form 1). \"steps.<stepName>.results.<resultName>\"; 2). " ++
    "\"steps.<stepName>.results.<objectResultName>.<individualAttribute>\""

end TektonPipeline.ResultRef
