import Mathlib.Algebra.Ring.Nat
import TektonPipeline.Api.FieldError
import TektonPipeline.Resolution.Names

/-! Whether every reference that validation accepts gets a name for its request. -/

namespace TektonPipeline.Resolution
open Spire (TypedValue)
open Api (FieldError errInvalidValue errMissingField errMultipleOneOf errGeneric)

/-- What a request may hold before anything is known of it: parameters in any number, also of
one name, and without a type. -/
structure RawSpec where
  params : List (String × Option TypedValue) := []
  url : String := ""

section
variable (h : NameHasher) (marshalJSON : TypedValue → String)

/-- A value without a type adds nothing to what is hashed. -/
def rawText (value : Option TypedValue) : String :=
  match value with
  | none => ""
  | some value => hashedText marshalJSON value

def rawMessage (base : String) (spec : RawSpec) : String :=
  base ++ String.join ((spec.params.insertionSort fun a b => a.1 ≤ b.1).map
    fun p => p.1 ++ rawText marshalJSON p.2) ++ spec.url

def getRawName (resolverName : String) (owner : Owner) (name inNamespace : String)
    (spec : RawSpec) : Option (String × String) :=
  let (name, inNamespace) :=
    if name = "" then (owner.name, owner.inNamespace) else (name, inNamespace)
  let inNamespace := if inNamespace = "" then "default" else inNamespace
  (cutName (resolverName ++ "-" ++
    h.sum (rawMessage marshalJSON (inNamespace ++ "/" ++ name) spec))).map
      fun name => (inNamespace, name)

end

def ResolutionRequestSpec.raw (spec : ResolutionRequestSpec) : RawSpec where
  params := spec.params.map fun p => (p.1, some p.2)
  url := spec.url

theorem rawMessage_raw (marshalJSON : TypedValue → String) (base : String)
    (spec : ResolutionRequestSpec) :
    rawMessage marshalJSON base spec.raw = hashedMessage marshalJSON base spec := by
  have hsort : (spec.params.insertionSort fun a b => a.1 ≤ b.1).map (fun p => (p.1, some p.2)) =
      (spec.params.map fun p => (p.1, some p.2)).insertionSort fun a b => a.1 ≤ b.1 :=
    List.map_insertionSort _ _ _ _ fun _ _ _ _ => Iff.rfl
  rw [rawMessage, ResolutionRequestSpec.raw, ← hsort, List.map_map]
  rfl

/-- The name of a reference whose parameters have types and names of their own. -/
theorem getRawName_raw (h : NameHasher) (marshalJSON : TypedValue → String) (r : Reference) :
    getRawName h marshalJSON r.resolverName r.owner r.payload.name r.payload.inNamespace
      r.spec.raw = getNameAndNamespace h marshalJSON r := by
  unfold getRawName getNameAndNamespace Reference.base Reference.inNamespace
  by_cases hname : r.payload.name = ""
  · simp only [hname, if_true, rawMessage_raw]
    rfl
  · simp only [hname, if_false, rawMessage_raw]
    rfl

/-! ## The validation of references -/

/-- The feature gates validation looks at, and what is not of this repository. -/
structure RefConfig where
  enableAPIFields : String := "beta"
  enableConciseResolverSyntax : Bool := false
  isQualifiedName : String → List String
  toLower : String → String

def validateEnabledBetaFields (cfg : RefConfig) (featureName : String) : List FieldError :=
  if cfg.enableAPIFields ≠ "beta" ∧ cfg.enableAPIFields ≠ "alpha" then
    [errGeneric (featureName ++
      " requires \"enable-api-fields\" feature gate to be \"alpha\" or \"beta\" but it is \"" ++
      cfg.enableAPIFields ++ "\"") []]
  else []

/-- `validateNoDuplicateNames` by key; `seen` are the names before. -/
def validateNoDuplicateNames (cfg : RefConfig) (seen : List String) : List String → List FieldError
  | [] => []
  | n :: names =>
    (if cfg.toLower n ∈ seen then
      [errMultipleOneOf ["[" ++ n ++ "].name"]] else []) ++
    validateNoDuplicateNames cfg (cfg.toLower n :: seen) names

/-- A match of `[\w-]+:\/\/*`. -/
def refNameLikeUrl : List Char → Bool
  | c :: ':' :: '/' :: rest =>
    c.isAlphanum || c == '_' || c == '-' || refNameLikeUrl (':' :: '/' :: rest)
  | _ :: rest => refNameLikeUrl rest
  | [] => false

def conciseSyntaxError : FieldError :=
  errGeneric ("feature flag enable-concise-resolver-syntax should be set to true to use " ++
    "concise resolver syntax") [""]

def validateRef (cfg : RefConfig) (refName refResolver : String)
    (refParams : Option (List String)) :
    List FieldError :=
  if refResolver ≠ "" ∨ refParams ≠ none then
    (match refParams with
      | none => []
      | some names =>
        validateEnabledBetaFields cfg "resolver params" ++
        (if refName ≠ "" then [errMultipleOneOf ["name", "params"]] else []) ++
        (if refResolver = "" then [errMissingField "resolver"] else []) ++
        validateNoDuplicateNames cfg [] names) ++
    if refResolver ≠ "" then
      validateEnabledBetaFields cfg "resolver" ++
      if refName ≠ "" then
        if refNameLikeUrl refName.toList then
          if cfg.enableConciseResolverSyntax then [] else [conciseSyntaxError]
        else [errInvalidValue "invalid URI for request" "name"]
      else []
    else []
  else if refName ≠ "" then
    if refNameLikeUrl refName.toList then
      (if cfg.enableConciseResolverSyntax then [] else [conciseSyntaxError]) ++
      [errMissingField "resolver"]
    else
      match cfg.isQualifiedName refName with
      | [] => []
      | errSlice => [errInvalidValue (",".intercalate errSlice) "name"]
  else [errMissingField "name"]

/-! ## Which names are long enough -/

def byteLength (l : List Char) : Nat := (l.map Char.utf8Size).sum

theorem length_le_utf8ByteSize (s : String) : s.length ≤ s.utf8ByteSize := by
  obtain ⟨l, rfl⟩ : ∃ l, s = String.ofList l := ⟨s.toList, String.ofList_toList.symm⟩
  rw [String.length_ofList]
  induction l with
  | nil => simp
  | cons c l ih =>
    have hsize := Char.utf8Size_pos c
    rw [String.ofList_cons, String.utf8ByteSize_append, String.utf8ByteSize_singleton,
      List.length_cons]
    omega

/-- A space begins before the 63rd byte. -/
def SpaceWithin (l : List Char) (offset : Nat) : Prop :=
  ∃ a b, l = a ++ ' ' :: b ∧ offset + byteLength a < 63

theorem spaceWithin_cons {c : Char} {cs : List Char} {offset : Nat} (hoffset : offset < 63) :
    SpaceWithin (c :: cs) offset ↔ SpaceWithin cs (offset + c.utf8Size) ∨ c = ' ' := by
  constructor
  · rintro ⟨a, b, heq, hlt⟩
    cases a with
    | nil => exact .inr (List.cons.inj heq).1
    | cons c' a =>
      obtain ⟨rfl, rfl⟩ := List.cons.inj heq
      refine .inl ⟨a, b, rfl, ?_⟩
      simpa [byteLength, Nat.add_assoc] using hlt
  · rintro (⟨a, b, rfl, hlt⟩ | rfl)
    · refine ⟨c :: a, b, rfl, ?_⟩
      simpa [byteLength, Nat.add_assoc] using hlt
    · exact ⟨[], cs, rfl, by simpa [byteLength] using hoffset⟩

theorem beforeLastSpace_spec (l : List Char) (offset : Nat) :
    ((∃ r, beforeLastSpace l offset = some r) ↔ SpaceWithin l offset) ∧
    ∀ r, beforeLastSpace l offset = some r → offset + r.length < 63 := by
  induction l generalizing offset with
  | nil =>
    refine ⟨iff_of_false (by simp [beforeLastSpace]) ?_, by simp [beforeLastSpace]⟩
    rintro ⟨a, b, heq, -⟩
    simp at heq
  | cons c cs ih =>
    obtain ⟨hiff, hshort⟩ := ih (offset + c.utf8Size)
    unfold beforeLastSpace
    by_cases hoffset : 63 ≤ offset
    · rw [if_pos hoffset]
      refine ⟨iff_of_false (by simp) ?_, by simp⟩
      rintro ⟨a, b, -, hlt⟩
      omega
    rw [if_neg hoffset, spaceWithin_cons (by omega), ← hiff]
    have hsize := Char.utf8Size_pos c
    cases hrest : beforeLastSpace cs (offset + c.utf8Size) with
    | some r =>
      have hr := hshort r hrest
      refine ⟨by simp, fun r' hr' => ?_⟩
      obtain rfl := Option.some.inj hr'
      rw [List.length_cons]
      omega
    | none =>
      by_cases hc : c = ' '
      · refine ⟨by simp [hc], fun r hr => ?_⟩
        rw [if_pos hc] at hr
        obtain rfl := Option.some.inj hr
        simpa using hoffset
      · simp [hc]

/-- A request gets a name of at most 63 characters exactly if its resolver has a name of less
than 30 bytes or one with a space among its first 63 bytes. -/
theorem getNameAndNamespace_total_iff (h : NameHasher) (marshalJSON : TypedValue → String)
    (resolverName : String) (owner : Owner) (name inNamespace : String) (spec : RawSpec) :
    (∃ key, getRawName h marshalJSON resolverName owner name inNamespace spec = some key ∧
      key.2.length ≤ 63) ↔ resolverName.utf8ByteSize < 30 ∨ SpaceWithin resolverName.toList 0 := by
  unfold getRawName
  dsimp only
  generalize rawMessage marshalJSON _ spec = message
  by_cases hshort : resolverName.utf8ByteSize < 30
  · rw [cutName_short hshort]
    refine iff_of_true ⟨_, rfl, ?_⟩ (.inl hshort)
    have hlength := length_le_utf8ByteSize resolverName
    have hdash : "-".length = 1 := by decide
    rw [String.length_append, String.length_append, h.length, hdash]
    omega
  · rw [cutName_long (by omega)]
    obtain ⟨hiff, hbound⟩ := beforeLastSpace_spec resolverName.toList 0
    rw [← hiff]
    constructor
    · rintro ⟨key, hkey, -⟩
      obtain ⟨cut, hcut, -⟩ := Option.map_eq_some_iff.mp hkey
      obtain ⟨r, hr, -⟩ := Option.map_eq_some_iff.mp hcut
      exact .inr ⟨r, hr⟩
    · rintro (hlt | ⟨r, hr⟩)
      · exact absurd hlt hshort
      · refine ⟨_, by rw [hr]; rfl, ?_⟩
        have hlt := hbound r hr
        rw [String.length_ofList]
        omega

/-- A resolver with a long name, used without parameters. -/
def mirrorResolver : String := "internal-artifact-mirror-for-pipelines"

def betaConfig : RefConfig := { isQualifiedName := fun _ => [], toLower := id }

/-- The reference is accepted, and no request can be named for it. -/
theorem mirrorResolver_unnamed : validateRef betaConfig "" mirrorResolver none = [] ∧
    ¬ ∃ (h : NameHasher) (marshalJSON : TypedValue → String),
      (getRawName h marshalJSON mirrorResolver ⟨"run", "ci"⟩ "" "" {}).isSome := by
  refine ⟨by decide, ?_⟩
  rintro ⟨h, marshalJSON, hsome⟩
  simp only [getRawName, if_true] at hsome
  rw [cutName_long (by decide)] at hsome
  revert hsome
  decide

end TektonPipeline.Resolution
