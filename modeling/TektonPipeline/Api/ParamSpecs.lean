import TektonPipeline.Library.Matching
import TektonPipeline.Api.Params

/-! Declared parameters, and the references to them that are found in a text. -/

namespace TektonPipeline.Api
open TektonPipeline.ResultRef

/-- `properties` holds the names of the keys of an object. -/
structure ParamSpec where
  name : String
  type : ParamType := .string
  properties : List String := []
  default : Option ParamValue := none
  enum : List String := []
  deriving DecidableEq

/-- The parameter of a name; `none` is the empty declaration. -/
def getParamFromName (name : String) (specs : List ParamSpec) : Option ParamSpec :=
  specs.find? fun ps => ps.name == name

/-- `\$\(params(\.(.*?(\[\*\])?)|\["(.*?(\[\*\])?)"\]|\['(.*?(\[\*\])?)'\])\)` with another word
for `params`. The groups are lazy and read no further than a line, so each of them ends where
the text that closes it comes first. -/
def braceMatching (word : String) : List Char → Option Nat :=
  Text.andThen (Text.literal ("$(" ++ word).toList) <|
    Text.orElse (Text.andThen (Text.literal ".".toList) (Text.lazyUntil ")".toList)) <|
      Text.orElse (Text.andThen (Text.literal "[\"".toList) (Text.lazyUntil "\"])".toList))
        (Text.andThen (Text.literal "['".toList) (Text.lazyUntil "'])".toList))

structure MatchGroups where
  var1 : String := ""
  var2 : String := ""
  var3 : String := ""
  deriving DecidableEq

def matchGroups (word : String) (w : List Char) : MatchGroups :=
  let rest := w.drop ("$(" ++ word).length
  if ".".toList.isPrefixOf rest then { var1 := String.ofList ((rest.drop 1).dropLast) }
  else
    let inner := String.ofList (((rest.drop 2).dropLast.dropLast).dropLast)
    if "[\"".toList.isPrefixOf rest then { var2 := inner } else { var3 := inner }

/-- The name a match refers to; of two parts with a dot the first, more than two are an
error. -/
def MatchGroups.captured? (g : MatchGroups) : Option String :=
  if '.' ∈ g.var1.toList then
    match splitDots g.var1 with
    | [name, _] => some name
    | _ => none
  else if g.var1 ≠ "" then some g.var1
  else if g.var2 ≠ "" then some g.var2
  else some g.var3

structure Extracted where
  vars : List String := []
  present : Bool := false
  errString : String := ""
  deriving DecidableEq

/-- The variables up to the first error; those behind it are left empty. -/
def fillVariables : List MatchGroups → List String × Bool
  | [] => ([], false)
  | g :: gs =>
    match g.captured? with
    | none => ("" :: gs.map fun _ => "", true)
    | some name =>
      let (names, failed) := fillVariables gs
      (name :: names, failed)

def extractVariablesFromString (s word : String) : Extracted :=
  let found := Text.findAll (braceMatching word) s.toList
  if found.isEmpty then {}
  else
    let (vars, failed) := fillVariables (found.map (matchGroups word))
    { vars := vars
      present := true
      errString :=
        if failed then
          "Invalid referencing of parameters in \"" ++ s ++
            "\"! Only two dot-separated components after the prefix \"" ++ word ++
            "\" are allowed."
        else "" }

/-- Every `[i]` and `[*]` is taken out. -/
def trimArrayIndex (s : String) : String :=
  String.ofList (Text.rewriteAll arrayIndexing (fun _ => []) s.toList)

end TektonPipeline.Api
