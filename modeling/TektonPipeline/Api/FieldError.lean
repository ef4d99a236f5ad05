import Mathlib.Data.List.Basic

/-! What validation complains about. A collection of errors is the list of them, and nothing
is wrong where the list is empty. -/

namespace TektonPipeline.Api

structure FieldError where
  message : String
  paths : List String
  details : String := ""
  deriving DecidableEq

def errInvalidValue (value fieldPath : String) (details : String := "") : FieldError where
  message := "invalid value: " ++ value
  paths := [fieldPath]
  details := details

def errMissingField (fieldPath : String) : FieldError where
  message := "missing field(s)"
  paths := [fieldPath]

def errMultipleOneOf (fieldPaths : List String) : FieldError where
  message := "expected exactly one, got both"
  paths := fieldPaths

def errGeneric (diagnostic : String) (fieldPaths : List String) : FieldError where
  message := diagnostic
  paths := fieldPaths

def FieldError.viaFieldIndex (e : FieldError) (field : String) (i : Nat) : FieldError :=
  { e with paths := e.paths.map fun path => field ++ "[" ++ toString i ++ "]." ++ path }

/-- An index stands behind the field it is of. -/
def FieldError.flatten (path : List String) : String :=
  ".".intercalate ((path.flatMap (·.splitOn ".")).foldl (fun newPath p =>
    if p = "" then newPath
    else if newPath ≠ [] ∧ p.startsWith "[" ∧ p.endsWith "]" then
      newPath.dropLast ++ [newPath.getLast?.getD "" ++ p]
    else newPath ++ [p]) [])

def FieldError.viaField (e : FieldError) (field : String) : FieldError :=
  { e with paths := e.paths.map fun path => flatten [field, path] }

def FieldError.viaKey (e : FieldError) (key : String) : FieldError := e.viaField ("[" ++ key ++ "]")

end TektonPipeline.Api
