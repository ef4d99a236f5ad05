import TektonPipeline.Conversion.Fields
import TektonPipeline.Library.Assoc
import TektonPipeline.Library.Follows
import TektonPipeline.Library.Shelf

/-! What v1 has no field for is kept in the annotations of the object that is converted: the
deprecated fields of its task specs in one annotation, by task name, and the resources in
others. -/

namespace TektonPipeline.Conversion
open V1Beta1

variable {α τ : Type}

/-- `taskDeprecation`, of whose steps and step template only the deprecated fields are set. -/
structure TaskDeprecation (α : Type) where
  deprecatedSteps : List (Deprecated α) := []
  deprecatedStepTemplate : Option (DeprecatedTemplate α) := none

abbrev TaskDeprecations (α : Type) := List (String × TaskDeprecation α)

inductive Kept where
  | taskResources
  | pipelineResources
  | pipelineRunResources
  | taskRunResources
  | cloudEvents
  | resourcesResult
  | resourcesStatus
  deriving DecidableEq

def taskDeprecationsAnnotationKey : String := "tekton.dev/v1beta1.task-deprecations"

def Kept.key : Kept → String
  | .taskResources | .pipelineResources | .pipelineRunResources | .taskRunResources =>
    "tekton.dev/v1beta1Resources"
  | .cloudEvents => "tekton.dev/v1beta1CloudEvents"
  | .resourcesResult => "tekton.dev/v1beta1ResourcesResult"
  | .resourcesStatus => "tekton.dev/v1beta1ResourcesStatus"

theorem Kept.key_ne (k : Kept) : k.key ≠ taskDeprecationsAnnotationKey := by
  cases k <;> decide

/-- The encoding of annotations. A text that is read without error may be `null`, which leaves
a map nil, and a value of which no field is set is `none`. -/
structure Codec (α τ : Type) where
  marshalDeprecations : TaskDeprecations α → τ
  unmarshalDeprecations : τ → Except String (Option (TaskDeprecations α))
  marshal : Kept → α → τ
  unmarshal : Kept → τ → Except String (Option α)
  unmarshal_marshalDeprecations : ∀ m, ∃ m',
    unmarshalDeprecations (marshalDeprecations m) = .ok (some m') ∧
      ∀ k, m'.lookup k = m.lookup k
  unmarshal_marshal : ∀ k v, ∃ v', unmarshal k (marshal k v) = .ok v'

inductive Text (α : Type) where
  | deprecations (m : TaskDeprecations α)
  | value (v : α)

def Codec.ofText (α : Type) : Codec α (Text α) where
  marshalDeprecations := .deprecations
  unmarshalDeprecations
    | .deprecations m => .ok (some m)
    | .value _ => .error "not a map"
  marshal _ := .value
  unmarshal _
    | .deprecations _ => .error "not a value"
    | .value v => .ok (some v)
  unmarshal_marshalDeprecations m := ⟨m, rfl, fun _ => rfl⟩
  unmarshal_marshal _ v := ⟨some v, rfl⟩

abbrev Annotations (τ : Type) := List (String × τ)

abbrev Convert (τ A : Type) := StateT (Annotations τ) (Except String) A

def annotate (key : String) (v : τ) (annotations : Annotations τ) : Annotations τ :=
  Assoc.upsert annotations key (fun _ => v) v

def removeKey (key : String) (annotations : Annotations τ) : Annotations τ :=
  annotations.filter fun e => e.1 != key

/-- `serializeResources` and its siblings. -/
def serialize (c : Codec α τ) (k : Kept) (value : Option α) : Convert τ Unit :=
  fun annotations =>
    match value with
    | none => .ok ((), annotations)
    | some v => .ok ((), annotate k.key (c.marshal k v) annotations)

/-- `deserializeResources` and its siblings. -/
def deserialize (c : Codec α τ) (k : Kept) : Convert τ (Option α) := fun annotations =>
  match annotations.lookup k.key with
  | none => .ok (none, annotations)
  | some str =>
    match c.unmarshal k str with
    | .error err => .error s!"error deserializing key {k.key} from metadata: {err}"
    | .ok v => .ok (v, removeKey k.key annotations)

section
variable (c : Codec α τ)

def V1Beta1.Deprecated.isSet (d : Deprecated α) : Bool :=
  !d.deprecatedPorts.isEmpty || d.deprecatedLivenessProbe.isSome ||
    d.deprecatedReadinessProbe.isSome || d.deprecatedStartupProbe.isSome ||
    d.deprecatedLifecycle.isSome || d.deprecatedTerminationMessagePath != "" ||
    d.deprecatedTerminationMessagePolicy != "" || d.deprecatedStdin || d.deprecatedStdinOnce ||
    d.deprecatedTTY

/-- The step template is not asked for its liveness probe. -/
def V1Beta1.TaskSpec.hasDeprecatedFields (ts : TaskSpec α) : Bool :=
  ts.steps.any (fun s => s.toDeprecated.isSet) ||
    ts.stepTemplate.any fun t =>
      !t.deprecatedPorts.isEmpty || t.deprecatedName != "" ||
        t.deprecatedReadinessProbe.isSome || t.deprecatedStartupProbe.isSome ||
        t.deprecatedLifecycle.isSome || t.deprecatedTerminationMessagePath != "" ||
        t.deprecatedTerminationMessagePolicy != "" || t.deprecatedStdin ||
        t.deprecatedStdinOnce || t.deprecatedTTY

def retrieveTaskDeprecation (spec : TaskSpec α) : Option (TaskDeprecation α) :=
  if spec.hasDeprecatedFields then
    some {
      deprecatedSteps := spec.steps.map (·.toDeprecated)
      deprecatedStepTemplate := spec.stepTemplate.map (·.toDeprecatedTemplate) }
  else none

/-- The map of the annotation: empty without one, `none` for a nil map. -/
def storedDeprecations (annotations : Annotations τ) :
    Except String (Option (TaskDeprecations α)) :=
  match annotations.lookup taskDeprecationsAnnotationKey with
  | none => .ok (some [])
  | some str => c.unmarshalDeprecations str

def existingDeprecations (doing : String) (annotations : Annotations τ) :
    Except String (Option (TaskDeprecations α)) :=
  (storedDeprecations c annotations).mapError fun err =>
    s!"error {doing} key {taskDeprecationsAnnotationKey} from metadata: {err}"

/-- An entry of a nil map cannot be assigned to. -/
def assignDeprecation (taskName : String) (td : TaskDeprecation α) :
    Option (TaskDeprecations α) → Convert τ Unit
  | none, _ => .error "assignment to entry in nil map"
  | some m, annotations =>
    .ok ((), annotate taskDeprecationsAnnotationKey
      (c.marshalDeprecations (Assoc.upsert m taskName (fun _ => td) td)) annotations)

def serializeTaskDeprecations (spec : TaskSpec α) (taskName : String) : Convert τ Unit :=
  fun annotations => do
    let existing ← existingDeprecations c "serializing" annotations
    match retrieveTaskDeprecation spec with
    | none => .ok ((), annotations)
    | some td => assignDeprecation c taskName td existing annotations

def TaskDeprecation.restore (td : TaskDeprecation α) (spec : TaskSpec α) : Option (TaskSpec α) :=
  if spec.steps.length ≠ td.deprecatedSteps.length then none
  else some { spec with
    steps := List.zipWith (fun (s : Step α) d => { s with toDeprecated := d }) spec.steps
      td.deprecatedSteps
    stepTemplate :=
      match td.deprecatedStepTemplate with
      | none => spec.stepTemplate
      | some d => some { spec.stepTemplate.getD {} with toDeprecatedTemplate := d } }

/-- The entry is restored to the spec and removed, with the annotation if it was the last. -/
def consumeDeprecation (spec : TaskSpec α) (taskName : String) (existing : TaskDeprecations α) :
    Convert τ (TaskSpec α) := fun annotations =>
  match existing.lookup taskName with
  | none => .ok (spec, annotations)
  | some td =>
    match td.restore spec with
    | none => .error "length of deserialized steps mismatch the length of target steps"
    | some spec =>
      let left := existing.filter fun e => e.1 != taskName
      .ok (spec,
        if left.isEmpty then removeKey taskDeprecationsAnnotationKey annotations
        else annotate taskDeprecationsAnnotationKey (c.marshalDeprecations left)
          annotations)

def deserializeTaskDeprecations (spec : TaskSpec α) (taskName : String) :
    Convert τ (TaskSpec α) := fun annotations => do
  let existing ← existingDeprecations c "deserializing" annotations
  consumeDeprecation c spec taskName (existing.getD []) annotations

end

/-! The annotations as a shelf of deprecated fields and the values of the other keys. -/

section
variable (c : Codec α τ)

def shelf (annotations : Annotations τ) : Shelf.Shelf String (TaskDeprecation α) :=
  match storedDeprecations c annotations with
  | .error _ => { readable := false, writable := false, held := fun _ => none }
  | .ok none => { readable := true, writable := false, held := fun _ => none }
  | .ok (some m) => { readable := true, writable := true, held := fun k => m.lookup k }

def otherAnnotations (annotations : Annotations τ) (key : String) : Option τ :=
  if key = taskDeprecationsAnnotationKey then none else annotations.lookup key

theorem lookup_annotate (key : String) (v : τ) (annotations : Annotations τ) (key' : String) :
    (annotate key v annotations).lookup key' =
      if key' = key then some v else annotations.lookup key' := by
  rw [annotate, Assoc.lookup_upsert]
  cases annotations.lookup key <;> rfl

theorem lookup_removeKey (key : String) (annotations : Annotations τ) (key' : String) :
    (removeKey key annotations).lookup key' =
      if key' = key then none else annotations.lookup key' :=
  Assoc.lookup_filter_ne annotations key key'

theorem shelf_annotate (m : TaskDeprecations α) (annotations : Annotations τ) :
    shelf c (annotate taskDeprecationsAnnotationKey (c.marshalDeprecations m)
      annotations) = { readable := true, writable := true, held := fun k => m.lookup k } := by
  obtain ⟨m', hm', hlookup⟩ := c.unmarshal_marshalDeprecations m
  simp [shelf, storedDeprecations, lookup_annotate, hm', hlookup]

theorem shelf_removeKey (annotations : Annotations τ) :
    shelf c (removeKey taskDeprecationsAnnotationKey annotations) =
      { readable := true, writable := true, held := fun _ => none } := by
  simp [shelf, storedDeprecations, lookup_removeKey]

theorem otherAnnotations_annotate (v : τ) (annotations : Annotations τ) :
    otherAnnotations (annotate taskDeprecationsAnnotationKey v annotations) =
      otherAnnotations annotations := by
  funext key
  by_cases h : key = taskDeprecationsAnnotationKey <;>
    simp [otherAnnotations, lookup_annotate, h]

theorem otherAnnotations_removeKey (annotations : Annotations τ) :
    otherAnnotations (removeKey taskDeprecationsAnnotationKey annotations) =
      otherAnnotations annotations := by
  funext key
  by_cases h : key = taskDeprecationsAnnotationKey <;>
    simp [otherAnnotations, lookup_removeKey, h]

variable {c} in
theorem shelf_of_stored {annotations : Annotations τ} {existing : Option (TaskDeprecations α)}
    (h : storedDeprecations c annotations = .ok existing) :
    shelf c annotations =
      { readable := true
        writable := existing.isSome
        held := fun k => (existing.getD []).lookup k } := by
  rw [shelf, h]
  cases existing <;> rfl

theorem follows_serializeTaskDeprecations (spec : TaskSpec α) (taskName : String) :
    Follows.Follows (shelf c) otherAnnotations (serializeTaskDeprecations c spec taskName)
      (fun s => (Shelf.put taskName (retrieveTaskDeprecation spec) s).map ((), ·))
      fun _ _ => True := by
  intro annotations
  cases h : storedDeprecations c annotations with
  | error err =>
    have hfails : ∃ e, serializeTaskDeprecations c spec taskName annotations = .error e :=
      ⟨_, by rw [serializeTaskDeprecations, existingDeprecations, h]; rfl⟩
    simpa [shelf, h, Shelf.put] using hfails
  | ok existing =>
    have hrun : serializeTaskDeprecations c spec taskName annotations =
        match retrieveTaskDeprecation spec with
        | none => .ok ((), annotations)
        | some td => assignDeprecation c taskName td existing annotations := by
      rw [serializeTaskDeprecations, existingDeprecations, h]
      rfl
    rw [hrun, shelf_of_stored h]
    cases retrieveTaskDeprecation spec with
    | none => simp [shelf_of_stored h, Shelf.put]
    | some td =>
      cases existing with
      | none => simp [Shelf.put, assignDeprecation]
      | some m =>
        have hheld : (fun k => (Assoc.upsert m taskName (fun _ => td) td).lookup k) =
            Function.update (fun k => m.lookup k) taskName (some td) := by
          funext k
          rw [Assoc.lookup_upsert, Function.update_apply]
          cases m.lookup taskName <;> rfl
        simp [Shelf.put, assignDeprecation, shelf_annotate, otherAnnotations_annotate, hheld]

/-- What becomes of a spec that finds the entry `e`. -/
def restoreWith (e : Option (TaskDeprecation α)) (spec : TaskSpec α) : Option (TaskSpec α) :=
  match e with
  | none => some spec
  | some td => td.restore spec

theorem follows_deserializeTaskDeprecations (spec : TaskSpec α) (taskName : String) :
    Follows.Follows (shelf c) otherAnnotations (deserializeTaskDeprecations c spec taskName)
      (fun s => (Shelf.take taskName s).bind fun r => (restoreWith r.1 spec).map (·, r.2))
      fun restored spec => spec = restored := by
  intro annotations
  cases h : storedDeprecations c annotations with
  | error err =>
    have hfails : ∃ e, deserializeTaskDeprecations c spec taskName annotations = .error e :=
      ⟨_, by rw [deserializeTaskDeprecations, existingDeprecations, h]; rfl⟩
    simpa [shelf, h, Shelf.take] using hfails
  | ok existing =>
    have hrun : deserializeTaskDeprecations c spec taskName annotations =
        consumeDeprecation c spec taskName (existing.getD []) annotations := by
      rw [deserializeTaskDeprecations, existingDeprecations, h]
      rfl
    have hshelf := shelf_of_stored h
    rw [hrun]
    cases existing with
    | none => simp [hshelf, Shelf.take, restoreWith, consumeDeprecation]
    | some m =>
      rw [Option.isSome_some, Option.getD_some] at hshelf
      have hheld : (fun k => (m.filter fun e => e.1 != taskName).lookup k) =
          Function.update (fun k => m.lookup k) taskName none := by
        funext k
        rw [Assoc.lookup_filter_ne, Function.update_apply]
      cases hentry : m.lookup taskName with
      | none =>
        have hsame : Function.update (fun k => m.lookup k) taskName none =
            fun k => m.lookup k := by
          rw [← hentry, Function.update_eq_self]
        simp [hshelf, Shelf.take, restoreWith, consumeDeprecation, hentry, hsame]
      | some td =>
        cases hrestore : td.restore spec with
        | none => simp [hshelf, Shelf.take, restoreWith, consumeDeprecation, hentry, hrestore]
        | some restored =>
          simp only [hshelf, Shelf.take, restoreWith, consumeDeprecation, ← hheld]
          by_cases hempty : (m.filter fun e => e.1 != taskName).isEmpty
          · have hnil : m.filter (fun e => e.1 != taskName) = [] := List.isEmpty_iff.mp hempty
            simp [hnil, hentry, hrestore, shelf_removeKey, otherAnnotations_removeKey]
          · simp [hempty, hentry, hrestore, shelf_annotate, otherAnnotations_annotate]

end

end TektonPipeline.Conversion
