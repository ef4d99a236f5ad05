import TektonPipeline.Api.ParamSpecs
import TektonPipeline.Pipeline.Dag

/-! The check that the declared keys of every object parameter are given, by its default or by
the run. -/

namespace TektonPipeline.TaskRun
open Api Pipeline List Assoc

/-- `neededKeys[name] = append(neededKeys[name], key)`, key by key. -/
def appendKeys (m : List (String × List String)) (name : String) (keys : List String) :
    List (String × List String) :=
  Assoc.group m (keys.map fun key => (name, key))

def findMissingKeys (neededKeys providedKeys : List (String × List String)) :
    List (String × List String) :=
  providedKeys.filterMap fun (p, keys) =>
    match neededKeys.lookup p with
    | none => none
    | some needed =>
      let missedKeys := diffLeft needed keys
      if missedKeys.length ≠ 0 then some (p, missedKeys) else none

def collectNeeded (neededKeys : List (String × List String)) (spec : ParamSpec) :
    List (String × List String) :=
  if spec.type = .object then appendKeys neededKeys spec.name spec.properties else neededKeys

/-- The keys of a default; one that is no object has none. -/
def collectDefault (providedKeys : List (String × List String)) (spec : ParamSpec) :
    List (String × List String) :=
  if spec.type = .object then
    match spec.default with
    | some default => appendKeys providedKeys spec.name (default.objectVal.map (·.1))
    | none => providedKeys
  else providedKeys

def collectProvided (providedKeys : List (String × List String)) (p : Param) :
    List (String × List String) :=
  if p.value.type = .object then appendKeys providedKeys p.name (p.value.objectVal.map (·.1))
  else providedKeys

def missingKeysObjectParamNames (paramSpecs : List ParamSpec) (params : Params) :
    List (String × List String) :=
  let neededKeys := paramSpecs.foldl collectNeeded []
  let providedKeys := params.foldl collectProvided (paramSpecs.foldl collectDefault [])
  findMissingKeys neededKeys providedKeys

section
variable (paramSpecs : List ParamSpec) (params : Params) (o k : String)

def IsDeclaredKey : Prop :=
  ∃ spec ∈ paramSpecs, spec.type = .object ∧ spec.name = o ∧ k ∈ spec.properties

def IsDefaultKey : Prop :=
  ∃ spec ∈ paramSpecs, spec.type = .object ∧ spec.name = o ∧
    ∃ default ∈ spec.default, k ∈ default.objectVal.map (·.1)

def IsProvidedKey : Prop :=
  ∃ p ∈ params, p.name = o ∧ p.value.type = .object ∧ k ∈ p.value.objectVal.map (·.1)

/-- The object parameter has a default, or the run provides an object for it. -/
def HasObject : Prop :=
  ∃ spec ∈ paramSpecs, spec.type = .object ∧ spec.name = o ∧
    (spec.default.isSome ∨ ∃ p ∈ params, p.name = o ∧ p.value.type = .object)

/-- A declared key that neither the default nor the run gives. -/
def IsMissingKey : Prop :=
  IsDeclaredKey paramSpecs o k ∧ ¬ IsDefaultKey paramSpecs o k ∧ ¬ IsProvidedKey params o k

end

def neededEntries (spec : ParamSpec) : List (String × String) :=
  if spec.type = .object then spec.properties.map fun key => (spec.name, key) else []

def defaultEntries (spec : ParamSpec) : List (String × String) :=
  if spec.type = .object then
    (spec.default.elim [] fun default => default.objectVal.map (·.1)).map fun key =>
      (spec.name, key)
  else []

def providedEntries (p : Param) : List (String × String) :=
  if p.value.type = .object then (p.value.objectVal.map (·.1)).map fun key => (p.name, key)
  else []

section
variable {paramSpecs : List ParamSpec} {params : Params} {o k : String}

theorem mem_neededEntries :
    (o, k) ∈ paramSpecs.flatMap neededEntries ↔ IsDeclaredKey paramSpecs o k := by
  rw [mem_flatMap]
  refine exists_congr fun spec => and_congr_right fun _ => ?_
  rw [neededEntries]
  by_cases h : spec.type = .object
  · simp [h, and_comm]
  · simp [h]

theorem mem_givenEntries :
    (o, k) ∈ paramSpecs.flatMap defaultEntries ++ params.flatMap providedEntries ↔
      IsDefaultKey paramSpecs o k ∨ IsProvidedKey params o k := by
  rw [mem_append, mem_flatMap, mem_flatMap]
  refine or_congr (exists_congr fun spec => and_congr_right fun _ => ?_)
    (exists_congr fun p => and_congr_right fun _ => ?_)
  · rw [defaultEntries]
    by_cases h : spec.type = .object
    · cases spec.default with
      | none => simp
      | some default => simp [h, and_comm]
    · simp [h]
  · rw [providedEntries]
    by_cases h : p.value.type = .object
    · simp [h, and_comm]
    · simp [h]

theorem missingKeysObjectParamNames_eq (paramSpecs : List ParamSpec) (params : Params) :
    missingKeysObjectParamNames paramSpecs params =
      findMissingKeys (Assoc.group [] (paramSpecs.flatMap neededEntries)) (Assoc.group []
          (paramSpecs.flatMap defaultEntries ++ params.flatMap providedEntries)) := by
  have hneeded : collectNeeded = fun m spec => Assoc.group m (neededEntries spec) := by
    funext m spec
    rw [collectNeeded, neededEntries]
    split
    · rfl
    · rfl
  have hdefault : collectDefault = fun m spec => Assoc.group m (defaultEntries spec) := by
    funext m spec
    rw [collectDefault, defaultEntries]
    split
    · cases spec.default with
      | none => rfl
      | some default => rfl
    · rfl
  have hprovided : collectProvided = fun m p => Assoc.group m (providedEntries p) := by
    funext m p
    rw [collectProvided, providedEntries]
    split
    · rfl
    · rfl
  rw [missingKeysObjectParamNames, hneeded, hdefault, hprovided, foldl_group,
    foldl_group, foldl_group, ← group_append]

theorem lookup_findMissingKeys {neededKeys providedKeys : List (String × List String)}
    (hkeys : (providedKeys.map (·.1)).Nodup) : (findMissingKeys neededKeys providedKeys).lookup o =
      (providedKeys.lookup o).bind fun given => (neededKeys.lookup o).bind fun needed =>
        if diffLeft needed given = [] then none else some (diffLeft needed given) := by
  have hfind : findMissingKeys neededKeys providedKeys =
      providedKeys.filterMap fun e =>
        ((neededKeys.lookup e.1).bind fun needed =>
          if diffLeft needed e.2 = [] then none else some (diffLeft needed e.2)).map fun v =>
            (e.1, v) := by
    rw [findMissingKeys]
    refine filterMap_congr fun e _ => ?_
    dsimp only
    cases neededKeys.lookup e.1 with
    | none => rfl
    | some needed => by_cases h : diffLeft needed e.2 = [] <;> simp [h]
  rw [hfind]
  cases hlook : providedKeys.lookup o with
  | some given => exact lookup_filterMap hkeys (mem_of_lookup hlook)
  | none =>
    refine lookup_of_not_mem fun hmem => ?_
    obtain ⟨e, he, rfl⟩ := mem_map.mp hmem
    obtain ⟨e', he', heq⟩ := mem_filterMap.mp he
    obtain ⟨v, -, rfl⟩ := Option.map_eq_some_iff.mp heq
    simpa using lookup_eq_none_iff.mp hlook e' he'

variable (paramSpecs params o)

/-- The keys that are needed and those that are given, in the order in which they are read. -/
def needed : List String := Assoc.valuesAt o (paramSpecs.flatMap neededEntries)

def given : List String :=
  Assoc.valuesAt o (paramSpecs.flatMap defaultEntries ++ params.flatMap providedEntries)

theorem lookup_missingKeysObjectParamNames :
    (missingKeysObjectParamNames paramSpecs params).lookup o =
      if given paramSpecs params o = [] then none
      else if diffLeft (needed paramSpecs o) (given paramSpecs params o) = [] then none
      else some (diffLeft (needed paramSpecs o) (given paramSpecs params o)) := by
  have hnodup : (([] : List (String × List String)).map (·.1)).Nodup := nodup_nil
  rw [missingKeysObjectParamNames_eq, lookup_findMissingKeys (nodup_group hnodup _),
    lookup_group, lookup_group, ← given, ← needed]
  by_cases hgiven : given paramSpecs params o = []
  · rw [if_pos hgiven, if_pos hgiven]
    rfl
  · rw [if_neg hgiven, if_neg hgiven]
    by_cases hneeded : needed paramSpecs o = []
    · rw [if_pos hneeded, hneeded]
      rfl
    · rw [if_neg hneeded]
      rfl

theorem mem_diffLeft_needed (k : String) :
    k ∈ diffLeft (needed paramSpecs o) (given paramSpecs params o) ↔
      IsMissingKey paramSpecs params o k := by
  have hneeded : k ∈ needed paramSpecs o ↔ IsDeclaredKey paramSpecs o k :=
    mem_valuesAt.trans mem_neededEntries
  have hgiven : k ∈ given paramSpecs params o ↔
      IsDefaultKey paramSpecs o k ∨ IsProvidedKey params o k :=
    mem_valuesAt.trans mem_givenEntries
  rw [IsMissingKey, diffLeft, mem_filter, decide_eq_true_iff, hneeded, hgiven, not_or]

end

section
variable (paramSpecs : List ParamSpec) (params : Params)

/-- For every object parameter with a default or a provided object the declared keys that neither
gives are reported, those and no others, and no entry is made where there is none. -/
def ReportsMissingKeys : Prop :=
  (∀ o, HasObject paramSpecs params o → ∀ k,
    (∃ keys, (missingKeysObjectParamNames paramSpecs params).lookup o = some keys ∧ k ∈ keys) ↔
      IsMissingKey paramSpecs params o k) ∧
  ∀ o, (∀ k, ¬ IsMissingKey paramSpecs params o k) →
    (missingKeysObjectParamNames paramSpecs params).lookup o = none

/-- Every object parameter with declared keys that has a default or a provided object is given
some key, declared or not. -/
def GivesSomeKey : Prop :=
  ∀ o, HasObject paramSpecs params o → (∃ k, IsDeclaredKey paramSpecs o k) →
    ∃ k, IsDefaultKey paramSpecs o k ∨ IsProvidedKey params o k

variable {paramSpecs params}

theorem given_ne_nil {o : String} : given paramSpecs params o ≠ [] ↔
    ∃ k, IsDefaultKey paramSpecs o k ∨ IsProvidedKey params o k := by
  have hmem : ∀ k, k ∈ given paramSpecs params o ↔
      IsDefaultKey paramSpecs o k ∨ IsProvidedKey params o k :=
    fun k => mem_valuesAt.trans mem_givenEntries
  constructor
  · intro hne
    obtain ⟨k, hk⟩ := exists_mem_of_ne_nil _ hne
    exact ⟨k, (hmem k).mp hk⟩
  · rintro ⟨k, hk⟩
    exact ne_nil_of_mem ((hmem k).mpr hk)

theorem missing_of_reported {o k : String} {keys : List String}
    (h : (missingKeysObjectParamNames paramSpecs params).lookup o = some keys) (hk : k ∈ keys) :
    IsMissingKey paramSpecs params o k := by
  rw [lookup_missingKeysObjectParamNames] at h
  split at h
  · cases h
  · split at h
    · cases h
    · rw [← Option.some.inj h] at hk
      exact (mem_diffLeft_needed paramSpecs params o k).mp hk

theorem reported_of_missing {o k : String} (hgiven : given paramSpecs params o ≠ [])
    (hk : IsMissingKey paramSpecs params o k) :
    ∃ keys, (missingKeysObjectParamNames paramSpecs params).lookup o = some keys ∧ k ∈ keys := by
  have hmem := (mem_diffLeft_needed paramSpecs params o k).mpr hk
  refine ⟨_, ?_, hmem⟩
  rw [lookup_missingKeysObjectParamNames, if_neg hgiven, if_neg (ne_nil_of_mem hmem)]

/-- A parameter without an entry of keys in the map of those provided is left out, whatever it
declares. -/
theorem reportsMissingKeys_iff :
    ReportsMissingKeys paramSpecs params ↔ GivesSomeKey paramSpecs params := by
  constructor
  · rintro ⟨hreports, -⟩ o ho ⟨k, hk⟩
    refine given_ne_nil.mp fun hnil => ?_
    have hnone : ∀ k', ¬ (IsDefaultKey paramSpecs o k' ∨ IsProvidedKey params o k') :=
      fun k' h => given_ne_nil.mpr ⟨k', h⟩ hnil
    have hmissing : IsMissingKey paramSpecs params o k :=
      ⟨hk, fun h => hnone k (.inl h), fun h => hnone k (.inr h)⟩
    obtain ⟨keys, hlookup, -⟩ := (hreports o ho k).mpr hmissing
    rw [lookup_missingKeysObjectParamNames, if_pos hnil] at hlookup
    cases hlookup
  · intro hgives
    refine ⟨fun o ho k => ⟨fun ⟨keys, hlookup, hk⟩ => missing_of_reported hlookup hk,
      fun hk => ?_⟩, fun o hnone => ?_⟩
    · exact reported_of_missing (given_ne_nil.mpr (hgives o ho ⟨k, hk.1⟩)) hk
    · have hnil : diffLeft (needed paramSpecs o) (given paramSpecs params o) = [] :=
        eq_nil_iff_forall_not_mem.mpr fun k hk =>
          hnone k ((mem_diffLeft_needed paramSpecs params o k).mp hk)
      rw [lookup_missingKeysObjectParamNames, if_pos hnil]
      split <;> rfl

end

def imageSpec : ParamSpec := { name := "image", type := .object, properties := ["digest"] }

/-- The run provides the image as an object without keys: nothing is reported, although the
digest is missing. -/
theorem empty_object_unreported : HasObject [imageSpec] [⟨"image", { type := .object }⟩] "image" ∧
    IsMissingKey [imageSpec] [⟨"image", { type := .object }⟩] "image" "digest" ∧
    missingKeysObjectParamNames [imageSpec] [⟨"image", { type := .object }⟩] = [] ∧
    ¬ ReportsMissingKeys [imageSpec] [⟨"image", { type := .object }⟩] := by
  have hobject : HasObject [imageSpec] [⟨"image", { type := .object }⟩] "image" := by
    simp [HasObject, imageSpec]
  have hmissing : IsMissingKey [imageSpec] [⟨"image", { type := .object }⟩] "image" "digest" := by
    simp [IsMissingKey, IsDeclaredKey, IsDefaultKey, IsProvidedKey, imageSpec]
  have hnil : missingKeysObjectParamNames [imageSpec] [⟨"image", { type := .object }⟩] = [] := rfl
  refine ⟨hobject, hmissing, hnil, fun h => ?_⟩
  obtain ⟨keys, hkeys, -⟩ := (h.1 "image" hobject "digest").mpr hmissing
  rw [hnil] at hkeys
  cases hkeys

end TektonPipeline.TaskRun
