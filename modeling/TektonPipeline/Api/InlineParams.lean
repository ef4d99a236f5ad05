import Mathlib.Data.List.Sort
import Mathlib.Data.String.Basic
import TektonPipeline.Api.FieldError
import TektonPipeline.Library.Assoc
import TektonPipeline.Library.Transition

/-! The parameters of an inline run, merged for validation. A map that is not there is `none`:
it can be read and not written, and a default that is not there can be neither. A function
that would do so anyway has no result. -/

namespace TektonPipeline.InlineParams
open Api List

structure ParamValue where
  type : String := "string"
  stringVal : String := ""
  arrayVal : List String := []
  objectVal : Option (List (String × String)) := none
  deriving DecidableEq

structure Param where
  name : String
  value : ParamValue
  deriving DecidableEq

/-- `properties` has the type of each key. -/
structure ParamSpec where
  name : String
  type : String := "string"
  properties : Option (List (String × String)) := none
  default : Option ParamValue := none
  enum : List String := []
  deriving DecidableEq

abbrev SpecMap := List (String × ParamSpec)

def put {ν : Type} (m : List (String × ν)) (k : String) (v : ν) : List (String × ν) :=
  Assoc.upsert m k (fun _ => v) v

def createParamSpecFromParam (p : Param) (paramSpecForValidation : SpecMap) : SpecMap :=
  put paramSpecForValidation p.name
    { name := p.name
      default := some p.value
      type := p.value.type
      properties := p.value.objectVal.map fun object => object.map fun e => (e.1, "string") }

/-- The loop that merges an object into a default. -/
def mergeDefault : List (String × String) → Option ParamValue → Option (Option ParamValue)
  | [], d => some d
  | _ :: _, none => none
  | (k, v) :: rest, some d =>
    mergeDefault rest (some { d with objectVal := some (put (d.objectVal.getD []) k v) })

def ParamSpec.objectDefault (p : ParamSpec) : Option (List (String × String)) :=
  p.default.bind (·.objectVal)

/-- The default is shared with the entry of the map, so what is merged into it stays there
even where the specification is turned down. -/
def combineParamSpec (p : ParamSpec) (paramSpecForValidation : SpecMap) :
    Option (SpecMap × List FieldError) :=
  match paramSpecForValidation.lookup p.name with
  | none => some (put paramSpecForValidation p.name p, [])
  | some pSpec => do
    let merged ← mergeDefault (p.objectDefault.getD []) pSpec.default
    let pSpec := { pSpec with default := merged }
    let turnedDown :=
      (put paramSpecForValidation p.name pSpec, [errMissingField (p.name ++ ".properties")])
    if p.objectDefault.isSome ∧ p.properties = none then some turnedDown
    else if pSpec.type = "object" then
      if p.properties = none then some turnedDown
      else some (put paramSpecForValidation p.name { pSpec with properties := p.properties }, [])
    else some (put paramSpecForValidation p.name pSpec, [])

def writeObject : List (String × String) → ParamSpec → Option ParamSpec
  | [], pSpec => some pSpec
  | (k, v) :: rest, pSpec => do
    let d ← pSpec.default
    let object ← d.objectVal
    let properties ← pSpec.properties
    writeObject rest
      { pSpec with
        default := some { d with objectVal := some (put object k v) }
        properties := some (put properties k "string") }

def appendPipelineTaskParam (paramSpecForValidation : SpecMap) (p : Param) : Option SpecMap :=
  match paramSpecForValidation.lookup p.name with
  | some pSpec => do
    let pSpec ← writeObject (p.value.objectVal.getD []) pSpec
    some (put paramSpecForValidation p.name pSpec)
  | none => some (createParamSpecFromParam p paramSpecForValidation)

def appendPipelineTaskParams (paramSpecForValidation : SpecMap) (params : List Param) :
    Option SpecMap :=
  params.foldlM appendPipelineTaskParam paramSpecForValidation

/-! ## The checks of the merged parameters -/

def allParamTypes : List String := ["string", "array", "object"]

/-- Nothing here writes, and a default is looked at only where there is one. -/
def ParamSpec.validateType (p : ParamSpec) : List FieldError :=
  if p.type ∉ allParamTypes then [errInvalidValue p.type (p.name ++ ".type")]
  else match p.default with
    | some d =>
      if d.type ≠ p.type then
        [{ message := "\"" ++ p.type ++ "\" type does not match default value's type: \"" ++
             d.type ++ "\""
           paths := [p.name ++ ".type", p.name ++ ".default.type"] }]
      else validateObjectType p
    | none => validateObjectType p
where
  validateObjectType (p : ParamSpec) : List FieldError :=
    let invalidKeys := ((p.properties.getD []).filter fun e => e.2 ≠ "string").map (·.1)
    if invalidKeys = [] then []
    else [{ message := "The value type specified for these keys [" ++
              String.intercalate " " invalidKeys ++ "] is invalid"
            paths := [p.name ++ ".properties"] }]

def validateParameterTypes (params : List ParamSpec) : List FieldError :=
  params.flatMap ParamSpec.validateType

structure TaskSpec (Step : Type) where
  params : List ParamSpec := []
  steps : Option (List Step) := none

structure PipelineTask (Step : Type) where
  params : List Param := []
  taskSpec : Option (TaskSpec Step) := none

structure PipelineSpec (Step : Type) where
  params : List ParamSpec := []
  tasks : Option (List (PipelineTask Step)) := none

structure PipelineRunSpec (Step : Type) where
  params : List Param := []
  pipelineSpec : Option (PipelineSpec Step) := none

structure TaskRunSpec (Step : Type) where
  params : List Param := []
  taskSpec : Option (TaskSpec Step) := none

/-- The search for references in the texts of steps and tasks. Of a parameter it is given the
name and the keys, and nothing that could be missing. -/
structure UsageChecks (Step : Type) where
  enableParamEnum : Bool
  validateVariables : List Step → String → List String → List FieldError
  validateObjectUsageAsWhole : List Step → List String → List FieldError
  validateArrayUsage : List Step → List String → List FieldError
  validatePipelineParametersVariables : List (PipelineTask Step) → List String → List String →
    List (String × List String) → List FieldError

def getNames (params : List ParamSpec) : List String := params.map (·.name)

def ofType (type : String) (params : List ParamSpec) : List ParamSpec :=
  params.filter fun p => p.type == type

def ParamSpec.keys (p : ParamSpec) : List String := (p.properties.getD []).map (·.1)

def findDups (vals : List String) : List String :=
  (vals.filter fun val => 1 < vals.count val).dedup

def validateNoDuplicateNames (params : List ParamSpec) : List FieldError :=
  (findDups (getNames params)).map fun dup =>
    ((errGeneric "parameter appears more than once" [""]).viaKey dup).viaField "params"

/-- Without the feature flag the errors so far are added once more. -/
def validateParamEnums (enableParamEnum : Bool) (params : List ParamSpec) : List FieldError :=
  params.foldl (fun errs p =>
    let error := fun message => [((errGeneric message [""]).viaKey p.name).viaField "params"]
    if p.enum = [] then errs
    else
      (if enableParamEnum then errs
        else errs ++ errs ++
          error "feature flag `enable-param-enum` should be set to true to use Enum") ++
      (if p.type = "string" then [] else error "enum can only be set with string type param") ++
      (findDups p.enum).flatMap (fun dup =>
        error ("parameter enum value " ++ dup ++ " appears more than once")) ++
      match p.default with
      | some d =>
        if d.stringVal ≠ "" ∧ d.stringVal ∉ p.enum then
          error ("param default value " ++ d.stringVal ++ " not in the enum list")
        else []
      | none => []) []

def nameFormat (dots : Bool) (name : String) : Bool :=
  match name.toList with
  | [] => false
  | c :: rest => (c.isAlpha || c == '_') &&
      rest.all fun c => c.isAlphanum || c == '_' || c == '-' || dots && c == '.'

def listed (names : List String) : String := "[" ++ " ".intercalate names ++ "]"

def validateNameFormat (params : List ParamSpec) : List FieldError :=
  let invalidNames :=
    (getNames (params.filter fun p => p.type != "object")).dedup.filter (!nameFormat true ·)
  let objectParams := (ofType "object" params).insertionSort fun p q => p.name ≤ q.name
  let invalidObjects := objectParams.filterMap fun p =>
    let invalidKeys := p.keys.filter (!nameFormat false ·)
    if nameFormat false p.name && invalidKeys.isEmpty then none
    else some (p.name ++ ":" ++ listed invalidKeys)
  (if invalidNames = [] then []
    else [{ message := "The format of following array and string variable names is invalid: " ++
              listed (invalidNames.insertionSort (· ≤ ·))
            paths := ["params"]
            details := "String/Array Names: \nMust only contain alphanumeric characters, " ++
              "hyphens (-), underscores (_), and dots (.)\n" ++
              "Must begin with a letter or an underscore (_)" }]) ++
  if invalidObjects = [] then []
  else [{ message := "Object param name and key name format is invalid: map" ++
            listed invalidObjects
          paths := ["params"]
          details := "Object Names: \nMust only contain alphanumeric characters, " ++
            "hyphens (-), underscores (_) \nMust begin with a letter or an underscore (_)" }]

def validateObjectParamsHaveProperties (params : List ParamSpec) : List FieldError :=
  ((ofType "object" params).filter fun p => p.properties.isNone).map fun p =>
    errMissingField (p.name ++ ".properties")

def validateDuplicateParameters (params : List Param) : List FieldError :=
  params.zipIdx.flatMap fun (p, i) =>
    if p.name ∈ (params.take i).map (·.name) then
      [errGeneric ("parameter names must be unique, the parameter \"" ++ p.name ++
        "\" is also defined at") ["[" ++ toString i ++ "].name"]]
    else []

section
variable {Step : Type} (checks : UsageChecks Step)

def validateParameterVariables (steps : List Step) (params : List ParamSpec) : List FieldError :=
  validateNoDuplicateNames params ++ validateParamEnums checks.enableParamEnum params ++
    validateNameFormat params ++ checks.validateArrayUsage steps (getNames (ofType "array" params))

def validateUsageOfDeclaredParameters (steps : List Step) (params : List ParamSpec) :
    List FieldError :=
  let objectParams := ofType "object" params
  checks.validateVariables steps "params" (getNames params) ++
    objectParams.flatMap (fun p => checks.validateVariables steps ("params\\." ++ p.name) p.keys) ++
    checks.validateObjectUsageAsWhole steps (getNames objectParams) ++
    validateObjectParamsHaveProperties params

def validateTaskParameters (tasks : List (PipelineTask Step)) : List FieldError :=
  tasks.zipIdx.flatMap fun (task, i) =>
    (validateDuplicateParameters task.params).map fun e =>
      (e.viaField "params").viaKey (toString i)

def validatePipelineParameterVariables (tasks : List (PipelineTask Step))
    (params : List ParamSpec) : List FieldError :=
  (validateParameterTypes params).map (·.viaField "params") ++ validateNoDuplicateNames params ++
    validateParamEnums checks.enableParamEnum params ++ validateTaskParameters tasks

def validatePipelineTaskParameterUsage (tasks : List (PipelineTask Step))
    (params : List ParamSpec) : List FieldError :=
  checks.validatePipelineParametersVariables tasks (getNames params)
    (getNames (ofType "array" params))
    (((ofType "object" params).filter fun p => p.keys ≠ []).map fun p => (p.name, p.keys)) ++
    validateTaskParameters tasks

def validateTaskSpec (taskSpec : Option (TaskSpec Step)) (paramSpec : List ParamSpec) :
    List FieldError :=
  match taskSpec.bind (·.steps) with
  | some steps =>
    validateParameterTypes paramSpec ++ validateParameterVariables checks steps paramSpec ++
      validateUsageOfDeclaredParameters checks steps paramSpec
  | none => []

/-- The merged parameters and the complaints so far. -/
structure Merged where
  specs : SpecMap := []
  errs : List FieldError := []

def Merged.combine (s : Merged) (p : ParamSpec) : Option Merged := do
  let (specs, errs) ← combineParamSpec p s.specs
  some { specs := specs, errs := s.errs ++ errs }

def Merged.addTask (s : Merged) (pt : PipelineTask Step) : Option Merged := do
  let specs ← appendPipelineTaskParams s.specs pt.params
  (pt.taskSpec.elim [] (·.params)).foldlM Merged.combine { s with specs := specs }

def createParamSpecs (params : List Param) : SpecMap :=
  params.foldl (fun m p => createParamSpecFromParam p m) []

def PipelineRunSpec.validateInlineParameters (ps : PipelineRunSpec Step) :
    Option (List FieldError) :=
  match ps.pipelineSpec with
  | none => some []
  | some spec =>
    let merged := (spec.params.foldlM Merged.combine { specs := createParamSpecs ps.params }).bind
      fun merged => (spec.tasks.getD []).foldlM Merged.addTask merged
    merged.map fun merged =>
      let paramSpec := merged.specs.map (·.2)
      merged.errs ++ match spec.tasks with
        | some tasks =>
          tasks.flatMap (fun pt => validateTaskSpec checks pt.taskSpec paramSpec) ++
            validatePipelineParameterVariables checks tasks paramSpec ++
            validatePipelineTaskParameterUsage checks tasks paramSpec
        | none => []

def TaskRunSpec.validateInlineParameters (ts : TaskRunSpec Step) : Option (List FieldError) :=
  match ts.taskSpec with
  | none => some []
  | some spec =>
    (spec.params.foldlM Merged.combine { specs := createParamSpecs ts.params }).map fun merged =>
      merged.errs ++ validateTaskSpec checks ts.taskSpec (merged.specs.map (·.2))

end

/-! ## What comes to the merged parameters, and in which order -/

inductive Event where
  | given (p : Param)
  | param (p : Param)
  | spec (p : ParamSpec)
  deriving DecidableEq

def Event.name : Event → String
  | .given p => p.name
  | .param p => p.name
  | .spec p => p.name

def Merged.apply (s : Merged) : Event → Option Merged
  | .given p => some { s with specs := createParamSpecFromParam p s.specs }
  | .param p => (appendPipelineTaskParam s.specs p).map fun specs => { s with specs := specs }
  | .spec p => s.combine p

section
variable {Step : Type}

def PipelineTask.events (pt : PipelineTask Step) : List Event :=
  pt.params.map .param ++ (pt.taskSpec.elim [] (·.params)).map .spec

def PipelineRunSpec.events (ps : PipelineRunSpec Step) : List Event :=
  match ps.pipelineSpec with
  | none => []
  | some spec =>
    ps.params.map .given ++ spec.params.map .spec ++
      (spec.tasks.getD []).flatMap PipelineTask.events

def TaskRunSpec.events (ts : TaskRunSpec Step) : List Event :=
  match ts.taskSpec with
  | none => []
  | some spec => ts.params.map .given ++ spec.params.map .spec

theorem apply_given (params : List Param) (s : Merged) :
    (params.map Event.given).foldlM Merged.apply s =
      some { s with specs := params.foldl (fun m p => createParamSpecFromParam p m) s.specs } := by
  induction params generalizing s with
  | nil => rfl
  | cons p params ih => exact ih _

theorem apply_param (params : List Param) (s : Merged) :
    (params.map Event.param).foldlM Merged.apply s =
      (appendPipelineTaskParams s.specs params).map fun specs => { s with specs := specs } := by
  induction params generalizing s with
  | nil => rfl
  | cons p params ih =>
    rw [map_cons, foldlM_cons, appendPipelineTaskParams, foldlM_cons, Merged.apply]
    cases appendPipelineTaskParam s.specs p with
    | none => rfl
    | some specs => exact ih _

theorem apply_spec (specs : List ParamSpec) (s : Merged) :
    (specs.map Event.spec).foldlM Merged.apply s = specs.foldlM Merged.combine s := by
  rw [foldlM_map]
  rfl

theorem apply_task (pt : PipelineTask Step) (s : Merged) :
    pt.events.foldlM Merged.apply s = s.addTask pt := by
  rw [PipelineTask.events, foldlM_append, apply_param, Merged.addTask]
  cases appendPipelineTaskParams s.specs pt.params with
  | none => rfl
  | some specs => exact apply_spec _ _

theorem apply_tasks (tasks : List (PipelineTask Step)) (s : Merged) :
    (tasks.flatMap PipelineTask.events).foldlM Merged.apply s = tasks.foldlM Merged.addTask s := by
  induction tasks generalizing s with
  | nil => rfl
  | cons pt tasks ih =>
    rw [flatMap_cons, foldlM_append, apply_task, foldlM_cons]
    exact bind_congr fun s => ih s

theorem isSome_validatePipelineRun (checks : UsageChecks Step) (ps : PipelineRunSpec Step) :
    (ps.validateInlineParameters checks).isSome = (ps.events.foldlM Merged.apply {}).isSome := by
  rw [PipelineRunSpec.validateInlineParameters, PipelineRunSpec.events]
  cases ps.pipelineSpec with
  | none => rfl
  | some spec =>
    rw [foldlM_append, foldlM_append, apply_given]
    simp only [Option.isSome_map, Option.bind_eq_bind, Option.bind_some, apply_spec, apply_tasks]
    rfl

theorem isSome_validateTaskRun (checks : UsageChecks Step) (ts : TaskRunSpec Step) :
    (ts.validateInlineParameters checks).isSome = (ts.events.foldlM Merged.apply {}).isSome := by
  rw [TaskRunSpec.validateInlineParameters, TaskRunSpec.events]
  cases ts.taskSpec with
  | none => rfl
  | some spec =>
    rw [foldlM_append, apply_given]
    simp only [Option.isSome_map, Option.bind_eq_bind, Option.bind_some, apply_spec]
    rfl

end

/-! ## What there is of a parameter -/

/-- The event that an entry comes from, and those that have come to it since. A parameter of
the run replaces what there is. -/
def origin (pre : List Event) (name : String) : Option (Event × List Event) :=
  pre.foldl (fun o e =>
    if e.name ≠ name then o
    else match e, o with
      | .given _, _ => some (e, [])
      | _, none => some (e, [])
      | _, some (f, later) => some (f, later ++ [e])) none

theorem origin_concat (pre : List Event) (e : Event) (name : String) :
    origin (pre ++ [e]) name =
      if e.name ≠ name then origin pre name
      else match e, origin pre name with
        | .given _, _ => some (e, [])
        | _, none => some (e, [])
        | _, some (f, later) => some (f, later ++ [e]) := by
  rw [origin, foldl_append]
  rfl

theorem origin_given (pre : List Event) (p : Param) :
    origin (pre ++ [.given p]) p.name = some (.given p, []) := by
  rw [origin_concat]
  simp [Event.name]

theorem origin_first {pre : List Event} {e : Event} (h : origin pre e.name = none) :
    origin (pre ++ [e]) e.name = some (e, []) := by
  rw [origin_concat, h]
  cases e <;> simp

theorem origin_later {pre : List Event} {e f : Event} {later : List Event}
    (he : ∀ p, e ≠ .given p) (h : origin pre e.name = some (f, later)) :
    origin (pre ++ [e]) e.name = some (f, later ++ [e]) := by
  rw [origin_concat, h]
  cases e with
  | given p => exact absurd rfl (he p)
  | param p => simp
  | spec q => simp

def Event.type : Event → String
  | .given p => p.value.type
  | .param p => p.value.type
  | .spec p => p.type

def Event.HasDefault : Event → Prop
  | .given _ => True
  | .param _ => True
  | .spec p => p.default.isSome = true

/-- The value that comes with an event, or its default, is an object. -/
def Event.HasObject : Event → Prop
  | .given p => p.value.objectVal.isSome = true
  | .param p => p.value.objectVal.isSome = true
  | .spec p => p.objectDefault.isSome = true

def Event.HasProperties : Event → Prop
  | .given p => p.value.objectVal.isSome = true
  | .param p => p.value.objectVal.isSome = true
  | .spec p => p.properties.isSome = true

/-- A default that is an object with a key was merged. -/
def ObjectMerged (later : List Event) : Prop :=
  ∃ p, Event.spec p ∈ later ∧ p.objectDefault.getD [] ≠ []

def PropertiesMerged (later : List Event) : Prop :=
  ∃ p, Event.spec p ∈ later ∧ p.properties.isSome = true

/-- An object that a pipeline task passes needs an entry with an object and with properties to
be written to, and a default that is an object needs one with a default. -/
def Allowed (pre : List Event) : Event → Prop
  | .given _ => True
  | .param p => ∀ f later, origin pre p.name = some (f, later) →
      p.value.objectVal.getD [] ≠ [] →
      f.HasDefault ∧ (f.HasObject ∨ ObjectMerged later) ∧
        (f.HasProperties ∨ f.type = "object" ∧ PropertiesMerged later)
  | .spec p => ∀ f later, origin pre p.name = some (f, later) →
      p.objectDefault.getD [] ≠ [] → f.HasDefault

/-- What of an entry is there, by the events that made it. -/
structure MadeBy (f : Event) (later : List Event) (pSpec : ParamSpec) : Prop where
  type : pSpec.type = f.type
  default : pSpec.default.isSome = true ↔ f.HasDefault
  object : pSpec.objectDefault.isSome = true ↔ f.HasObject ∨ ObjectMerged later
  properties : pSpec.properties.isSome = true ↔
    f.HasProperties ∨ f.type = "object" ∧ PropertiesMerged later

/-- The entries are there that events have made. -/
def History (pre : List Event) (s : Merged) : Prop :=
  ∀ name, match origin pre name with
    | none => s.specs.lookup name = none
    | some (f, later) => ∃ pSpec, s.specs.lookup name = some pSpec ∧ MadeBy f later pSpec

/-! ## What the loops need and leave -/

theorem mergeDefault_cases (es : List (String × String)) (d : Option ParamValue) :
    ((es ≠ [] → d.isSome = true) ∧ ∃ d', mergeDefault es d = some d' ∧ d'.isSome = d.isSome ∧
        ((d'.bind (·.objectVal)).isSome = true ↔ (d.bind (·.objectVal)).isSome = true ∨ es ≠ [])) ∨
      ¬ (es ≠ [] → d.isSome = true) ∧ mergeDefault es d = none := by
  induction es generalizing d with
  | nil => simp [mergeDefault]
  | cons e es ih =>
    cases d with
    | none => simp [mergeDefault]
    | some d =>
      obtain ⟨-, d', hmerged, hsome, hobject⟩ | ⟨hnot, -⟩ :=
        ih (some { d with objectVal := some (put (d.objectVal.getD []) e.1 e.2) })
      · refine .inl ⟨by simp, d', hmerged, hsome, ?_⟩
        rw [hobject]
        simp
      · simp at hnot

structure SameShape (p p' : ParamSpec) : Prop where
  type : p'.type = p.type
  default : p'.default.isSome = p.default.isSome
  object : p'.objectDefault.isSome = p.objectDefault.isSome
  properties : p'.properties.isSome = p.properties.isSome

def ParamSpec.Writable (pSpec : ParamSpec) : Prop :=
  pSpec.default.isSome = true ∧ pSpec.objectDefault.isSome = true ∧ pSpec.properties.isSome = true

theorem writeObject_cases (es : List (String × String)) (pSpec : ParamSpec) :
    ((es ≠ [] → pSpec.Writable) ∧ ∃ pSpec', writeObject es pSpec = some pSpec' ∧
        SameShape pSpec pSpec') ∨ ¬ (es ≠ [] → pSpec.Writable) ∧ writeObject es pSpec = none := by
  induction es generalizing pSpec with
  | nil => exact .inl ⟨by simp, pSpec, rfl, rfl, rfl, rfl, rfl⟩
  | cons e es ih =>
    rw [writeObject]
    unfold ParamSpec.Writable ParamSpec.objectDefault at ih ⊢
    cases hd : pSpec.default with
    | none => simp
    | some d =>
      cases hobject : d.objectVal with
      | none => simp [hobject]
      | some object =>
        cases hproperties : pSpec.properties with
        | none => simp
        | some properties =>
          obtain ⟨-, pSpec', hwritten, hshape⟩ | ⟨hnot, -⟩ := ih
            { pSpec with
              default := some { d with objectVal := some (put object e.1 e.2) }
              properties := some (put properties e.1 "string") }
          · refine .inl ⟨by simp [hobject], pSpec', by simpa [hobject] using hwritten,
              hshape.type, ?_, ?_, ?_⟩
            · rw [hshape.default, hd]
              rfl
            · rw [hshape.object, ParamSpec.objectDefault, ParamSpec.objectDefault, hd,
                Option.bind_some, Option.bind_some, hobject]
              rfl
            · rw [hshape.properties, hproperties]
              rfl
          · simp at hnot

/-- What a declaration leaves of the entry it is combined with. -/
structure Combined (p pSpec pSpec' : ParamSpec) : Prop where
  type : pSpec'.type = pSpec.type
  default : pSpec'.default.isSome = pSpec.default.isSome
  object : pSpec'.objectDefault.isSome = true ↔
    pSpec.objectDefault.isSome = true ∨ p.objectDefault.getD [] ≠ []
  properties : pSpec'.properties.isSome = true ↔
    pSpec.properties.isSome = true ∨ pSpec.type = "object" ∧ p.properties.isSome = true

theorem combineParamSpec_cases {p pSpec : ParamSpec} {m : SpecMap}
    (hlookup : m.lookup p.name = some pSpec) :
    ((p.objectDefault.getD [] ≠ [] → pSpec.default.isSome = true) ∧
        ∃ pSpec' errs, combineParamSpec p m = some (put m p.name pSpec', errs) ∧
          Combined p pSpec pSpec') ∨
      ¬ (p.objectDefault.getD [] ≠ [] → pSpec.default.isSome = true) ∧
        combineParamSpec p m = none := by
  rw [combineParamSpec, hlookup]
  obtain ⟨hneeds, merged, hmerged, hsome, hobject⟩ | ⟨hnot, hnone⟩ :=
    mergeDefault_cases (p.objectDefault.getD []) pSpec.default
  · refine .inl ⟨hneeds, ?_⟩
    have hkept : ¬ (pSpec.type = "object" ∧ p.properties.isSome = true) →
        Combined p pSpec { pSpec with default := merged } :=
      fun hnot => ⟨rfl, hsome, hobject, by simp [hnot]⟩
    simp only [hmerged, Option.bind_eq_bind, Option.bind_some]
    split
    · rename_i hnone
      exact ⟨_, _, rfl, hkept (by simp [hnone.2])⟩
    · split
      · split
        · rename_i hnone
          exact ⟨_, _, rfl, hkept (by simp [hnone])⟩
        · rename_i htype hproperties
          have hproperties := Option.isSome_iff_ne_none.mpr hproperties
          exact ⟨_, _, rfl, rfl, hsome, hobject, by simp [htype, hproperties]⟩
      · rename_i htype
        exact ⟨_, _, rfl, hkept (by simp [htype])⟩
  · exact .inr ⟨hnot, by simp [hnone]⟩

/-! ## The history of the entries -/

section
variable {pre later : List Event} {s : Merged} {f : Event} {p : Param} {q pSpec : ParamSpec}

theorem exists_spec_concat {P : ParamSpec → Prop} {e : Event} :
    (∃ q, Event.spec q ∈ later ++ [e] ∧ P q) ↔
      (∃ q, Event.spec q ∈ later ∧ P q) ∨ ∃ q, Event.spec q = e ∧ P q := by
  simp [or_and_right, exists_or]

theorem not_objectMerged_nil : ¬ ObjectMerged [] := by simp [ObjectMerged]

theorem not_propertiesMerged_nil : ¬ PropertiesMerged [] := by simp [PropertiesMerged]

def paramEntry (p : Param) : ParamSpec where
  name := p.name
  default := some p.value
  type := p.value.type
  properties := p.value.objectVal.map fun object => object.map fun e => (e.1, "string")

theorem madeBy_given (p : Param) : MadeBy (.given p) [] (paramEntry p) := by
  refine ⟨rfl, by simp [paramEntry, Event.HasDefault], ?_, ?_⟩
  · simp [paramEntry, ParamSpec.objectDefault, Event.HasObject, not_objectMerged_nil]
  · simp [paramEntry, Event.HasProperties, not_propertiesMerged_nil]

theorem madeBy_param (p : Param) : MadeBy (.param p) [] (paramEntry p) :=
  ⟨rfl, (madeBy_given p).default, (madeBy_given p).object, (madeBy_given p).properties⟩

theorem madeBy_spec (q : ParamSpec) : MadeBy (.spec q) [] q :=
  ⟨rfl, Iff.rfl, by simp [Event.HasObject, not_objectMerged_nil],
    by simp [Event.HasProperties, not_propertiesMerged_nil]⟩

theorem MadeBy.write (h : MadeBy f later pSpec) {pSpec' : ParamSpec}
    (hshape : SameShape pSpec pSpec') : MadeBy f (later ++ [.param p]) pSpec' := by
  refine ⟨hshape.type.trans h.type, ?_, ?_, ?_⟩
  · rw [hshape.default, h.default]
  · rw [hshape.object, h.object, ObjectMerged, ObjectMerged, exists_spec_concat]
    simp
  · rw [hshape.properties, h.properties, PropertiesMerged, PropertiesMerged, exists_spec_concat]
    simp

theorem MadeBy.combine (h : MadeBy f later pSpec) {pSpec' : ParamSpec}
    (hcombined : Combined q pSpec pSpec') : MadeBy f (later ++ [.spec q]) pSpec' := by
  refine ⟨hcombined.type.trans h.type, ?_, ?_, ?_⟩
  · rw [hcombined.default, h.default]
  · rw [hcombined.object, h.object, ObjectMerged, ObjectMerged, exists_spec_concat]
    simp [or_assoc]
  · rw [hcombined.properties, h.properties, h.type, PropertiesMerged, PropertiesMerged,
      exists_spec_concat]
    simp only [Event.spec.injEq, exists_eq_left]
    rw [and_or_left, or_assoc]

theorem History.put (h : History pre s) (e : Event) {f : Event} {later : List Event}
    (horigin : origin (pre ++ [e]) e.name = some (f, later)) (hmade : MadeBy f later pSpec)
    (errs : List FieldError) :
    History (pre ++ [e]) ⟨InlineParams.put s.specs e.name pSpec, errs⟩ := by
  intro name
  have hlookup : (InlineParams.put s.specs e.name pSpec).lookup name =
      if name = e.name then some pSpec else s.specs.lookup name := by
    rw [InlineParams.put, Assoc.lookup_upsert]
    cases s.specs.lookup e.name <;> rfl
  by_cases hname : name = e.name
  · subst hname
    rw [horigin]
    exact ⟨pSpec, by rw [hlookup, if_pos rfl], hmade⟩
  · rw [origin_concat, if_pos (Ne.symm hname), hlookup, if_neg hname]
    exact h name

theorem History.lookup_none (h : History pre s) {name : String} (ho : origin pre name = none) :
    s.specs.lookup name = none := by
  have := h name
  rwa [ho] at this

theorem History.lookup_some (h : History pre s) {name : String}
    (ho : origin pre name = some (f, later)) :
    ∃ pSpec, s.specs.lookup name = some pSpec ∧ MadeBy f later pSpec := by
  have := h name
  rwa [ho] at this

theorem History.step (h : History pre s) (e : Event) :
    Allowed pre e ∧ (∃ s', s.apply e = some s' ∧ History (pre ++ [e]) s') ∨
      ¬ Allowed pre e ∧ s.apply e = none := by
  cases e with
  | given p =>
    exact .inl ⟨trivial, _, rfl, h.put (.given p) (origin_given pre p) (madeBy_given p) _⟩
  | param p =>
    cases ho : origin pre p.name with
    | none =>
      refine .inl ⟨by simp [Allowed, ho], _, ?_,
        h.put (.param p) (origin_first ho) (madeBy_param p) s.errs⟩
      rw [Merged.apply, appendPipelineTaskParam, h.lookup_none ho]
      rfl
    | some o =>
      obtain ⟨f, later⟩ := o
      obtain ⟨pSpec, hlookup, hmade⟩ := h.lookup_some ho
      have hneeds : Allowed pre (.param p) ↔
          (p.value.objectVal.getD [] ≠ [] → pSpec.Writable) := by
        simp [Allowed, ho, ParamSpec.Writable, hmade.default, hmade.object, hmade.properties]
      rw [hneeds, Merged.apply, appendPipelineTaskParam, hlookup]
      obtain ⟨hallowed, pSpec', hwritten, hshape⟩ | ⟨hnot, hnone⟩ :=
        writeObject_cases (p.value.objectVal.getD []) pSpec
      · refine .inl ⟨hallowed, _, ?_, h.put (.param p)
          (origin_later (fun _ => Event.noConfusion) ho) (hmade.write hshape) s.errs⟩
        simp [hwritten, Event.name]
      · exact .inr ⟨hnot, by simp [hnone]⟩
  | spec q =>
    cases ho : origin pre q.name with
    | none =>
      refine .inl ⟨by simp [Allowed, ho], _, ?_,
        h.put (.spec q) (origin_first ho) (madeBy_spec q) (s.errs ++ [])⟩
      rw [Merged.apply, Merged.combine, combineParamSpec, h.lookup_none ho]
      rfl
    | some o =>
      obtain ⟨f, later⟩ := o
      obtain ⟨pSpec, hlookup, hmade⟩ := h.lookup_some ho
      have hneeds : Allowed pre (.spec q) ↔
          (q.objectDefault.getD [] ≠ [] → pSpec.default.isSome = true) := by
        simp [Allowed, ho, hmade.default]
      rw [hneeds, Merged.apply, Merged.combine]
      obtain ⟨hallowed, pSpec', errs, heq, hcombined⟩ | ⟨hnot, hnone⟩ :=
        combineParamSpec_cases hlookup
      · refine .inl ⟨hallowed, _, ?_, h.put (.spec q)
          (origin_later (fun _ => Event.noConfusion) ho) (hmade.combine hcombined) (s.errs ++ errs)⟩
        rw [heq]
        rfl
      · exact .inr ⟨hnot, by simp [hnone]⟩

theorem history_nil : History [] {} := fun _ => rfl

theorem isSome_merge_iff (events : List Event) : (events.foldlM Merged.apply {}).isSome = true ↔
      ∀ pre e post, events = pre ++ e :: post → Allowed pre e := by
  refine Transition.isSome_foldlM_iff (fun {pre s e} h => ?_) (fun {pre s e s'} h hs' => ?_)
    history_nil events
  · rcases h.step e with ⟨hallowed, s', hs', -⟩ | ⟨hnot, hnone⟩
    · simp [hallowed, hs']
    · simp [hnot, hnone]
  · obtain ⟨-, t, ht, hhistory⟩ | ⟨-, hnone⟩ := h.step e
    · rw [hs'] at ht
      obtain rfl := Option.some.inj ht
      exact hhistory
    · rw [hs'] at hnone
      cases hnone

end

/-- Admission of an inline run ends without a panic exactly if no object is passed or merged to
an entry that cannot take it. -/
theorem validateInlineParameters_total_iff {Step : Type} (checks : UsageChecks Step) :
    (∀ ps : PipelineRunSpec Step, (ps.validateInlineParameters checks).isSome = true ↔
      ∀ pre e post, ps.events = pre ++ e :: post → Allowed pre e) ∧
    ∀ ts : TaskRunSpec Step, (ts.validateInlineParameters checks).isSome = true ↔
      ∀ pre e post, ts.events = pre ++ e :: post → Allowed pre e := by
  refine ⟨fun ps => ?_, fun ts => ?_⟩
  · rw [isSome_validatePipelineRun, isSome_merge_iff]
  · rw [isSome_validateTaskRun, isSome_merge_iff]

def repoValue : ParamValue where
  type := "object"
  objectVal := some [("url", "https")]

def cloneRun (params : List Param) (specs : List ParamSpec) : PipelineRunSpec Unit where
  params := params
  pipelineSpec := some
    { params := specs
      tasks := some [{ params := [{ name := "repo", value := repoValue }] }] }

def repoDeclared : ParamSpec where
  name := "repo"
  type := "object"
  properties := some [("url", "string")]

/-- A task that declares a parameter twice, the second time with a default. -/
def repoTwice : TaskRunSpec Unit where
  taskSpec := some { params := [repoDeclared, { repoDeclared with default := some repoValue }] }

/-- A declaration without a default has nothing to write to, a string has no object to write
to, and of two declarations of one name the first may have no default. -/
theorem cloneRun_panics :
    (∀ checks, (cloneRun [] [repoDeclared]).validateInlineParameters checks = none) ∧
    (∀ checks, (cloneRun [{ name := "repo", value := { stringVal := "main" } }]
      []).validateInlineParameters checks = none) ∧
    ∀ checks, repoTwice.validateInlineParameters checks = none :=
  ⟨fun _ => rfl, fun _ => rfl, fun _ => rfl⟩

end TektonPipeline.InlineParams
