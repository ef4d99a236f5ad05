import Mathlib.Data.List.Dedup
import TektonPipeline.TaskRun.StepActionKeys

/-! Whether the script of a StepAction depends on the values of its parameters. Its validation
looks for references to parameters by one regular expression; the substitution replaces
whatever is a key of its tables. -/

namespace TektonPipeline.StepActions
open Api ResultRef List
open Tasks (Step applyStepReplacements)

/-- A default that was read from JSON holds a text only if it is one. -/
structure StepActionSpec where
  step : Step
  params : List ParamSpec
  typed : ∀ p ∈ params, ∀ v, p.default = some v → v.type ≠ .string → v.stringVal = ""

structure FieldError where
  message : String
  paths : List String
  deriving DecidableEq

def validateNoParamSubstitutionsInScript (script : String) : List FieldError :=
  let e := extractVariablesFromString script "params"
  if e.errString ≠ "" ∨ e.present then
    [⟨"param substitution in scripts is not allowed.", ["script"]⟩]
  else []

def validateNoDuplicateNames (params : List ParamSpec) : List FieldError :=
  let names := params.map (·.name)
  (names.filter fun name => 1 < names.count name).dedup.map fun name =>
    ⟨"parameter appears more than once", ["params[" ++ name ++ "]"]⟩

def ParamSpec.validateType (p : ParamSpec) : List FieldError :=
  match p.default with
  | none => []
  | some v =>
    if v.type ≠ p.type then
      [⟨"\"" ++ p.type.text ++ "\" type does not match default value's type: \"" ++
        v.type.text ++ "\"", [p.name ++ ".type", p.name ++ ".default.type"]⟩]
    else []

def StepActionSpec.validate (ss : StepActionSpec) : List FieldError :=
  (if ss.step.image = "" then [⟨"missing field(s)", ["Image"]⟩] else []) ++
  (if ss.step.script = "" then []
    else (if ss.step.command.isEmpty then []
      else [⟨"script cannot be used with command", ["script"]⟩]) ++
      validateNoParamSubstitutionsInScript ss.step.script) ++
  (ss.params.flatMap ParamSpec.validateType) ++ validateNoDuplicateNames ss.params

/-- The script of the resolved step is the same for any two assignments of values that a step
can give, also after the parameters of the task have been applied. -/
def StepActionSpec.ScriptIndependent (ss : StepActionSpec) : Prop :=
  ∀ (spec : List ParamSpec) (tr given₁ given₂ : Params) (step₁ step₂ : Step),
    (given₁.map (·.name)).Nodup → (given₂.map (·.name)).Nodup →
    applyStepActionParameters ss.step spec tr given₁ ss.params = .ok step₁ →
    applyStepActionParameters ss.step spec tr given₂ ss.params = .ok step₂ →
    step₁.script = step₂.script ∧
      (applyParameters step₁ spec tr).script = (applyParameters step₂ spec tr).script

def foundInScript (key : String) : Bool := (braceMatching "params" (reference key)).isSome

/-- The script names no parameter by a key that its check does not find, with any value a step
can give to it. -/
def StepActionSpec.NamesNoParam (ss : StepActionSpec) : Prop :=
  ∀ (given : Params) (r : Replacements), (given.map (·.name)).Nodup →
    stepActionReplacements ss.step given ss.params = .ok r →
    ∀ p ∈ ss.params, ∀ v, ⟨p.name, v⟩ ∈ given → ∀ key ∈ keysOf ss.step p v,
      foundInScript key = false → ¬ Occurs key ss.step.script

variable {p : ParamSpec} {v : ParamValue}

section

theorem braceMatching_persists (word : String) : Text.Persists (braceMatching word) :=
  .literal_andThen _ <| .orElse (.literal_andThen _ (.lazyUntil _)) <|
    .orElse (.literal_andThen _ (.lazyUntil _)) (.literal_andThen _ (.lazyUntil _))

theorem findAll_of_validate {script : String}
    (h : validateNoParamSubstitutionsInScript script = []) :
    Text.findAll (braceMatching "params") script.toList = [] := by
  by_contra hne
  have hpresent : (extractVariablesFromString script "params").present = true := by
    simp [extractVariablesFromString, hne]
  simp [validateNoParamSubstitutionsInScript, hpresent] at h

theorem not_occurs_of_found {script key : String}
    (h : validateNoParamSubstitutionsInScript script = []) (hkey : foundInScript key = true) :
    ¬ Occurs key script := by
  rintro ⟨u, v, huv⟩
  obtain ⟨c, t, hct⟩ := exists_cons_of_ne_nil (reference_ne_nil key)
  have hnone := Text.none_of_findAll_nil (findAll_of_validate h) (c := c) (t := t ++ v)
    ⟨u, by rw [← cons_append, ← hct, ← append_assoc, huv]⟩
  have hsome := braceMatching_persists "params" (reference key) v hkey
  rw [hct, cons_append, hnone] at hsome
  simp at hsome

variable {ss : StepActionSpec}

theorem StepActionSpec.script_of_validate (h : ss.validate = []) :
    validateNoParamSubstitutionsInScript ss.step.script = [] := by
  by_cases hs : ss.step.script = ""
  · rw [hs]
    rfl
  · simp only [StepActionSpec.validate, hs, if_false, append_eq_nil_iff] at h
    exact h.1.1.2.2

theorem StepActionSpec.nodup_of_validate (h : ss.validate = []) :
    (ss.params.map (·.name)).Nodup := by
  simp only [StepActionSpec.validate, append_eq_nil_iff, validateNoDuplicateNames,
    map_eq_nil_iff] at h
  refine nodup_iff_count_le_one.mpr fun name => ?_
  by_contra hlt
  have hmem : name ∈ ss.params.map (·.name) := count_pos_iff.mp (by omega)
  have hdup : name ∈ ([] : List String) := by
    rw [← h.2]
    exact mem_dedup.mpr (mem_filter.mpr ⟨hmem, decide_eq_true (by omega)⟩)
  simp at hdup

theorem StepActionSpec.string_of_refers (hp : p ∈ ss.params) (hv : p.default = some v)
    (hr : refersToParams v = true) : v.type = .string := by
  by_contra ht
  rw [refersToParams, ss.typed p hp v hv ht] at hr
  simp [Text.contains, Text.findAll, Text.scan] at hr

end

def fillText (t : String) (stepResult : Bool) : String :=
  if stepResult then "$(steps." ++ t ++ ".results.r)" else t

/-- A value of the same shape with other texts; the reference to a step result stays one. -/
def fill (t : String) (v : ParamValue) : ParamValue :=
  { v with
    stringVal := fillText t (isStepResult v)
    arrayVal := v.arrayVal.map fun _ => t
    objectVal := v.objectVal.map fun e => (e.1, t) }

section
variable {t : String} (ht : t ∈ ["a", "aa"]) (v : ParamValue)
include ht

theorem isStepResult_fill : isStepResult (fill t v) = isStepResult v := by
  simp only [mem_cons, not_mem_nil, or_false] at ht
  change "$(steps.".toList.isPrefixOf (fillText t (isStepResult v)).toList = isStepResult v
  generalize isStepResult v = b
  rcases ht with rfl | rfl <;> revert b <;> decide

theorem parse_fill (hv : isStepResult v = true) :
    parseStepExpression (stripVarSubExpression (fill t v).stringVal) =
      some ⟨t, "r", .string, none, ""⟩ := by
  simp only [mem_cons, not_mem_nil, or_false] at ht
  rw [show (fill t v).stringVal = fillText t true from congrArg (fillText t) hv]
  rcases ht with rfl | rfl <;> decide +kernel

theorem keysOf_fill (step : Step) (p : ParamSpec) : keysOf step p (fill t v) = keysOf step p v := by
  have hkeys : (stringsOf p.name (fill t v)).map (·.1) = (stringsOf p.name v).map (·.1) := by
    unfold stringsOf
    cases hv : v.type <;>
      simp only [fill, hv, zipIdx_map, map_map, map_flatMap, Function.comp_def, Prod.map]
    rfl
  rw [keysOf, keysOf, hkeys, isStepResult_fill ht]

end

def Longer : List (String × String) → List (String × String) → Prop :=
  List.Forall₂ fun e e' => e'.1 = e.1 ∧ e.2.length < e'.2.length

section
variable {a a' b b' : List (String × String)}

theorem Longer.append (h : Longer a a') (h' : Longer b b') : Longer (a ++ b) (a' ++ b') :=
  rel_append h h'

theorem Longer.map {α : Type} {l : List α} {f g : α → String × String}
    (h : ∀ x ∈ l, (g x).1 = (f x).1 ∧ (f x).2.length < (g x).2.length) :
    Longer (l.map f) (l.map g) := by
  induction l with
  | nil => exact .nil
  | cons x l ih =>
    exact .cons (h x mem_cons_self) (ih fun y hy => h y (mem_cons_of_mem x hy))

theorem Longer.flatMap {α : Type} {l : List α} {f g : α → List (String × String)}
    (h : ∀ x ∈ l, Longer (f x) (g x)) : Longer (l.flatMap f) (l.flatMap g) := by
  induction l with
  | nil => exact .nil
  | cons x l ih =>
    exact (h x mem_cons_self).append (ih fun y hy => h y (mem_cons_of_mem x hy))

theorem Longer.keys (h : Longer a a') : a'.map (·.1) = a.map (·.1) := by
  induction h with
  | nil => rfl
  | cons he _ ih => simp [he.1, ih]

theorem Longer.lookup (h : Longer a a') (rest : List (String × String)) {k : String}
    (hk : k ∈ a.map (·.1)) : ∃ v v', (a ++ rest).lookup k = some v ∧
      (a' ++ rest).lookup k = some v' ∧ v.length < v'.length := by
  induction h with
  | nil => simp at hk
  | @cons e e' a a' he h ih =>
    obtain ⟨k₀, v₀⟩ := e
    obtain ⟨k₁, v₁⟩ := e'
    obtain ⟨rfl, hlen⟩ := he
    by_cases heq : k = k₁
    · subst heq
      exact ⟨v₀, v₁, by simp, by simp, hlen⟩
    · have hne : (k == k₁) = false := by simpa using heq
      simp only [cons_append, lookup_cons, hne]
      exact ih (by simpa [heq] using hk)

theorem length_fillText (b : Bool) : (fillText "a" b).length < (fillText "aa" b).length := by
  revert b
  decide

theorem longer_stringsOf (name : String) (v : ParamValue) :
    Longer (stringsOf name (fill "a" v)) (stringsOf name (fill "aa" v)) := by
  unfold stringsOf
  cases hv : v.type with
  | string =>
    simp only [fill, hv]
    exact Longer.map fun _ _ => ⟨rfl, length_fillText _⟩
  | object =>
    simp only [fill, hv, map_map]
    exact Longer.map fun _ _ => ⟨rfl, length_fillText false⟩
  | array =>
    simp only [fill, hv, zipIdx_map, map_map]
    exact Longer.flatMap fun _ _ => Longer.map fun _ _ => ⟨rfl, length_fillText false⟩

end

section
variable (step : Step)

theorem longer_stepResultStrings (d : ParamSpec) {value value' : String}
    (hvalue : value.length < value'.length) :
    Longer (stepResultStrings step d value ⟨"a", "r", .string, none, ""⟩)
      (stepResultStrings step d value' ⟨"aa", "r", .string, none, ""⟩) := by
  have hlen : ∀ rest, (stepResult ⟨"a", "r", .string, none, ""⟩ rest).length <
      (stepResult ⟨"aa", "r", .string, none, ""⟩ rest).length := by
    intro rest
    have ha : "a".length < "aa".length := by decide
    simp only [stepResult, String.length_append]
    omega
  unfold stepResultStrings
  cases d.type with
  | string => exact Longer.map (by simp [hvalue])
  | object => exact Longer.map (by simp [hlen])
  | array => exact (Longer.map (by simp [hlen])).append (Longer.map (by simp [hlen]))

theorem longer_results (defaults : List ParamSpec) (given : Params) : ∃ results results',
      replacementsFromStepResults step defaults
        (given.map fun sp => ⟨sp.name, fill "a" sp.value⟩) = .ok results ∧
      replacementsFromStepResults step defaults
        (given.map fun sp => ⟨sp.name, fill "aa" sp.value⟩) = .ok results' ∧
      Longer results results' := by
  induction given with
  | nil => exact ⟨[], [], rfl, rfl, .nil⟩
  | cons sp given ih =>
    obtain ⟨results, results', h, h', hlong⟩ := ih
    simp only [map_cons, replacementsFromStepResults,
      isStepResult_fill (t := "a") (by simp), isStepResult_fill (t := "aa") (by simp)]
    cases hsp : isStepResult sp.value with
    | false => exact ⟨results, results', by simpa using h, by simpa using h', hlong⟩
    | true =>
      simp only [if_true, parse_fill (t := "a") (by simp) _ hsp,
        parse_fill (t := "aa") (by simp) _ hsp, h, h']
      exact ⟨_, _, rfl, rfl, hlong.append (Longer.flatMap fun d _ =>
        longer_stepResultStrings step d (length_fillText _))⟩

end

def supply (params : List ParamSpec) (val : ParamSpec → ParamValue) : Params :=
  params.map fun p => ⟨p.name, val p⟩

section
variable {step : Step} {params : List ParamSpec} {val : ParamSpec → ParamValue}
  {r : Replacements} {k : String}

theorem names_supply : (supply params val).map (·.name) = params.map (·.name) := by
  simp [supply, Function.comp_def]

theorem mem_supply (hp : p ∈ params) : ⟨p.name, val p⟩ ∈ supply params val :=
  mem_map_of_mem hp

theorem processedParams_supply (hnames : (params.map (·.name)).Nodup) :
    processedParams (supply params val) params = .ok (supply params val) := by
  have hprov : ∀ p ∈ params, provided (supply params val) p.name = some (val p) :=
    fun p hp => provided_of_mem (names_supply ▸ hnames) (mem_supply hp)
  have hneeded : paramsNeedingResolution (supply params val) params = [] := by
    refine filterMap_eq_nil_iff.mpr fun p hp => ?_
    simp [hprov p hp]
  have hat : processedAtOnce (supply params val) params = supply params val := by
    rw [supply, ← filterMap_eq_map]
    refine filterMap_congr fun p hp => ?_
    have := hprov p hp
    rw [supply] at this
    simp [this]
  rw [processedParams, hneeded, hat]
  rfl

theorem mem_front_supply (hnames : (params.map (·.name)).Nodup) {results : List (String × String)}
    (h : replacementsFromStepResults step params (supply params val) = .ok results) :
    k ∈ (results ++ (replacementsFromParams (supply params val)).strings).map (·.1) ↔
      ∃ p ∈ params, k ∈ keysOf step p (val p) := by
  rw [map_append, mem_append, mem_keys_results h, mem_strings_replacementsFromParams]
  simp only [supply, mem_map (f := fun p : ParamSpec => Param.mk p.name (val p)),
    exists_exists_and_eq_and, keysOf, mem_append]
  constructor
  · rintro (⟨p, hp, hres, d, hd, hname, hk⟩ | ⟨p, hp, hk⟩)
    · obtain rfl := inj_on_of_nodup_map hnames hd hp hname
      exact ⟨d, hd, .inr (by simpa [hres] using hk)⟩
    · exact ⟨p, hp, .inl hk⟩
  · rintro ⟨p, hp, hk | hk⟩
    · exact .inr ⟨p, hp, hk⟩
    · split at hk
      · rename_i hres
        exact .inl ⟨p, hp, hres, p, hp, rfl, hk⟩
      · simp at hk

theorem mem_arrays_supply {t : String} :
    k ∈ (replacementsFromParams (supply params fun p => fill t (val p))).arrays.map (·.1) ↔
      ∃ p ∈ params, (val p).type = .array ∧ k ∈ paramPatterns p.name := by
  simp [mem_arrays_replacementsFromParams, mem_keys_arraysOf, supply, fill]

theorem supply_fill (t : String) : (supply params fun p => fill t (val p)) =
    (supply params val).map fun sp => ⟨sp.name, fill t sp.value⟩ := by
  simp [supply, Function.comp_def]

theorem longer_strings (given : Params) :
    Longer (replacementsFromParams (given.map fun sp => ⟨sp.name, fill "a" sp.value⟩)).strings
      (replacementsFromParams (given.map fun sp => ⟨sp.name, fill "aa" sp.value⟩)).strings := by
  simp only [replacementsFromParams, ← map_reverse, flatMap_map]
  exact Longer.flatMap fun sp _ => longer_stringsOf sp.name sp.value

/-- With longer texts in all values the script is longer if it names one of them and none of
the keys that only the defaults have. -/
theorem script_lengthens (hnames : (params.map (·.name)).Nodup) {r' : Replacements}
    (hr : stepActionReplacements step (supply params fun p => fill "a" (val p)) params = .ok r)
    (hr' : stepActionReplacements step (supply params fun p => fill "aa" (val p)) params = .ok r')
    (hfront : ∃ p ∈ params, ∃ k ∈ keysOf step p (val p), Occurs k step.script)
    (hdefault : ∀ k ∈ (replacementsFromDefaultParams params).strings.map (·.1),
      Occurs k step.script → ∃ p ∈ params, k ∈ keysOf step p (val p)) :
    (applyReplacements step.script r.strings).length <
      (applyReplacements step.script r'.strings).length := by
  obtain ⟨processed, results, hproc, hres, rfl, -⟩ := stepActionReplacements_eq_ok.mp hr
  obtain ⟨processed', results', hproc', hres', rfl, -⟩ := stepActionReplacements_eq_ok.mp hr'
  rw [processedParams_supply hnames, Except.ok.injEq] at hproc hproc'
  subst hproc hproc'
  have hkeys : ∀ {k}, k ∈ (results ++ (replacementsFromParams
      (supply params fun p => fill "a" (val p))).strings).map (·.1) ↔
      ∃ p ∈ params, k ∈ keysOf step p (val p) := by
    simp only [mem_front_supply hnames hres, keysOf_fill (t := "a") (by simp), implies_true]
  obtain ⟨_, _, h, h', hlong⟩ := longer_results step params (supply params val)
  have hlong := hlong.append (longer_strings (supply params val))
  rw [← supply_fill] at h h' hlong
  rw [← supply_fill] at hlong
  rw [hres, Except.ok.injEq] at h
  rw [hres', Except.ok.injEq] at h'
  subst h h'
  simp only [mergeReplacements, ← append_assoc]
  refine length_applyReplacements_lt ?_ ?_ ?_
  · rw [map_append, ← hlong.keys, ← map_append]
  · intro k hk hocc
    rw [map_append, mem_append] at hk
    refine hlong.lookup _ ?_
    rcases hk with hk | hk
    · exact hk
    · exact hkeys.mpr (hdefault k hk hocc)
  · obtain ⟨p, hp, k, hk, hocc⟩ := hfront
    refine ⟨k, ?_, hocc⟩
    rw [map_append]
    exact mem_append_left _ (hkeys.mpr ⟨p, hp, hk⟩)

end

/-- Each value is one the step gave, has the shape of the default, or is a plain text. -/
def Admissible (params : List ParamSpec) (given : Params) (val : ParamSpec → ParamValue) : Prop :=
  ∀ p ∈ params, ⟨p.name, val p⟩ ∈ given ∨
    (∃ v, p.default = some v ∧ refersToParams v = false ∧ val p = { v with stringVal := "" }) ∨
    (val p = {} ∧ ∀ v, p.default = some v → refersToParams v = true)

/-- The defaults' own shapes, and for the parameters without a default what the step gave. -/
def canonical (given : Params) (p : ParamSpec) : ParamValue :=
  match p.default with
  | some v => if refersToParams v then {} else { v with stringVal := "" }
  | none => (provided given p.name).getD {}

section
variable {step : Step} {params : List ParamSpec} {given : Params} {k : String}

theorem keys_stringsOf_shape (name : String) (v : ParamValue) (s : String) :
    (stringsOf name { v with stringVal := s }).map (·.1) = (stringsOf name v).map (·.1) := by
  unfold stringsOf
  cases v.type <;> simp [Function.comp_def]

theorem admissible_canonical : Admissible params given (canonical given) := by
  intro p hp
  unfold canonical
  cases hd : p.default with
  | none =>
    cases hprov : provided given p.name with
    | none => exact .inr (.inr ⟨rfl, by simp⟩)
    | some v => exact .inl (mem_of_provided hprov)
  | some v =>
    cases hr : refersToParams v with
    | true => exact .inr (.inr ⟨by simp [hr], by simp [hr]⟩)
    | false => exact .inr (.inl ⟨v, rfl, hr, by simp [hr]⟩)

theorem Admissible.update {val : ParamSpec → ParamValue} (h : Admissible params given val)
    (hv : ⟨p.name, v⟩ ∈ given) : Admissible params given fun q => if q = p then v else val q := by
  intro q hq
  by_cases heq : q = p
  · subst heq
    exact .inl (by simpa using hv)
  · simpa [heq] using h q hq

theorem mem_keysOf_canonical (hk : k ∈ (replacementsFromDefaultParams params).strings.map (·.1)) :
    ∃ p ∈ params, k ∈ keysOf step p (canonical given p) := by
  obtain ⟨p, hp, v, hv, h⟩ := mem_strings_of_default hk
  refine ⟨p, hp, mem_append_left _ ?_⟩
  rcases h with ⟨hr, hk⟩ | ⟨hr, hk⟩
  · simp only [canonical, hv, hr]
    rwa [if_neg (by simp), keys_stringsOf_shape]
  · simp only [canonical, hv, hr, if_true]
    rwa [keys_stringsOf_string rfl]

/-- The tables can be built for every admissible assignment if they can for the one it is
made from: it adds no arrays, and no keys that are arrays. -/
theorem Admissible.replacements {val : ParamSpec → ParamValue} {r : Replacements}
    (h : Admissible params given val) {t : String} (ht : t ∈ ["a", "aa"])
    (hnames : (params.map (·.name)).Nodup) (hgiven : (given.map (·.name)).Nodup)
    (hr : stepActionReplacements step given params = .ok r) :
    ∃ r', stepActionReplacements step (supply params fun p => fill t (val p)) params = .ok r' := by
  obtain ⟨processed, results, hproc, hres, rfl, hdup⟩ := stepActionReplacements_eq_ok.mp hr
  obtain ⟨results', hres'⟩ : ∃ results', replacementsFromStepResults step params
      (supply params fun p => fill t (val p)) = .ok results' := by
    obtain ⟨short, long, h, h', -⟩ := longer_results step params (supply params val)
    rw [← supply_fill] at h h'
    simp only [mem_cons, not_mem_nil, or_false] at ht
    rcases ht with rfl | rfl
    · exact ⟨short, h⟩
    · exact ⟨long, h'⟩
  refine ⟨_, stepActionReplacements_eq_ok.mpr ⟨_, results', processedParams_supply hnames, hres',
    rfl, ?_⟩⟩
  simp only [mergeReplacements, map_append, mem_append] at hdup ⊢
  -- The arrays are among those of the assignment it is made from.
  have harrays : ∀ k, k ∈ (replacementsFromParams
        (supply params fun p => fill t (val p))).arrays.map (·.1) ∨
      k ∈ (replacementsFromDefaultParams params).arrays.map (·.1) →
      k ∈ (replacementsFromParams processed).arrays.map (·.1) ∨
        k ∈ (replacementsFromDefaultParams params).arrays.map (·.1) := by
    rintro k (hk | hk)
    · obtain ⟨p, hp, hk⟩ := mem_arrays_supply.mp hk
      rcases h p hp with hmem | ⟨v, hv, hrefers, hval⟩ | ⟨hval, -⟩
      · exact .inl (mem_arrays_replacementsFromParams.mpr ⟨_, provided_mem_processedParams hproc hp
          (provided_of_mem hgiven hmem), mem_keys_arraysOf.mpr hk⟩)
      · rw [hval] at hk
        exact .inr (mem_arrays_default.mpr ⟨p, hp, v, hv, hrefers, hk⟩)
      · simp [hval] at hk
    · exact .inr hk
  intro k hk harray
  rw [← or_assoc, ← mem_append, ← map_append, mem_front_supply hnames hres'] at hk
  simp only [keysOf_fill ht] at hk
  rcases hk with ⟨p, hp, hk⟩ | hk
  · rw [keysOf, mem_append] at hk
    rcases h p hp with hmem | ⟨v, hv, hrefers, hval⟩ | ⟨hval, hplain⟩
    · refine hdup k ?_ (harrays k harray)
      rcases hk with hk | hk
      · exact .inr (.inl (mem_strings_replacementsFromParams.mpr ⟨_,
          provided_mem_processedParams hproc hp (provided_of_mem hgiven hmem), hk⟩))
      · split at hk
        · rename_i hstep
          exact .inl ((mem_keys_results hres).mpr ⟨_, hmem, hstep, p, hp, rfl, hk⟩)
        · simp at hk
    · refine hdup k (.inr (.inr ?_)) (harrays k harray)
      rw [hval, keys_stringsOf_shape] at hk
      exact default_mem_strings hp hv hrefers (by simpa [isStepResult] using hk)
    · -- A plain text takes the place of no array: the spellings of an array are another's.
      rw [hval, keys_stringsOf_string rfl] at hk
      have hk : k ∈ paramPatterns p.name := by simpa [isStepResult] using hk
      rcases harray with harray | harray
      · obtain ⟨q, hq, hkq⟩ := mem_arrays_supply.mp harray
        obtain rfl := inj_on_of_nodup_map hnames hp hq (eq_of_paramPatterns hk hkq.2)
        simp [hval] at hkq
      · obtain ⟨q, hq, v, hv, hrefers, -, hkq⟩ := mem_arrays_default.mp harray
        obtain rfl := inj_on_of_nodup_map hnames hp hq (eq_of_paramPatterns hk hkq)
        simp [hplain v hv] at hrefers
  · exact hdup k (.inr (.inr hk)) (harrays k harray)

end

section
variable {ss : StepActionSpec} {given : Params} {r : Replacements}

section
variable (hv : ss.validate = []) (hgiven : (given.map (·.name)).Nodup)
  (hr : stepActionReplacements ss.step given ss.params = .ok r)
include hv hgiven hr

theorem StepActionSpec.NamesNoParam.absent (h : ss.NamesNoParam) :
    ∀ k ∈ r.strings.map (·.1), ¬ Occurs k ss.step.script := by
  have hnames := ss.nodup_of_validate hv
  intro k hk
  cases hfound : foundInScript k with
  | true => exact not_occurs_of_found (ss.script_of_validate hv) hfound
  | false =>
    have hcanonical : (∃ p ∈ ss.params, k ∈ keysOf ss.step p (canonical given p)) →
        ¬ Occurs k ss.step.script := by
      rintro ⟨p, hp, hk⟩
      obtain ⟨r', hr'⟩ :=
        admissible_canonical.replacements (t := "a") (by simp) hnames hgiven hr
      rw [← keysOf_fill (t := "a") (by simp)] at hk
      exact h _ r' (names_supply ▸ hnames) hr' p hp _ (mem_supply hp) k hk hfound
    obtain ⟨processed, results, hproc, hres, rfl, -⟩ := stepActionReplacements_eq_ok.mp hr
    simp only [mergeReplacements, map_append, mem_append] at hk
    rcases hk with hk | hk | hk
    · obtain ⟨sp, hsp, hstep, d, hd, hname, hk⟩ := (mem_keys_results hres).mp hk
      refine h given _ hgiven hr d hd sp.value (hname ▸ hsp) k ?_ hfound
      exact mem_append_right _ (by simpa [hstep] using hk)
    · obtain ⟨x, hx, hk⟩ := mem_strings_replacementsFromParams.mp hk
      obtain ⟨p, hp, hname, hprov | ⟨v, hd, ⟨hrefers, hxv⟩ | ⟨hrefers, s, hxv⟩⟩⟩ :=
        mem_processedParams hproc hx
      · exact h given _ hgiven hr p hp x.value (mem_of_provided hprov) k
          (mem_append_left _ (hname ▸ hk)) hfound
      · refine hcanonical (mem_keysOf_canonical (default_mem_strings hp hd hrefers ?_))
        rwa [hname, ← hxv]
      · refine hcanonical ⟨p, hp, mem_append_left _ ?_⟩
        rw [hxv, keys_stringsOf_shape, keys_stringsOf_string (ss.string_of_refers hp hd hrefers),
          ← hname] at hk
        simp only [canonical, hd, hrefers, if_true]
        rwa [keys_stringsOf_string rfl]
    · exact hcanonical (mem_keysOf_canonical hk)

theorem StepActionSpec.exists_scripts_ne (hp : p ∈ ss.params)
    (hmem : ⟨p.name, v⟩ ∈ given) {k : String} (hk : k ∈ keysOf ss.step p v)
    (hocc : Occurs k ss.step.script) : ∃ (val : ParamSpec → ParamValue) (r₁ r₂ : Replacements),
      stepActionReplacements ss.step (supply ss.params fun p => fill "a" (val p)) ss.params =
        .ok r₁ ∧
      stepActionReplacements ss.step (supply ss.params fun p => fill "aa" (val p)) ss.params =
        .ok r₂ ∧ (applyReplacements ss.step.script r₁.strings).length <
        (applyReplacements ss.step.script r₂.strings).length := by
  have hnames := ss.nodup_of_validate hv
  -- Where no default's key is in the script, giving the parameter its value leaves none over.
  obtain ⟨val, hval, hfront, hdefault⟩ : ∃ val, Admissible ss.params given val ∧
      (∃ q ∈ ss.params, ∃ k ∈ keysOf ss.step q (val q), Occurs k ss.step.script) ∧
      ∀ k ∈ (replacementsFromDefaultParams ss.params).strings.map (·.1),
        Occurs k ss.step.script → ∃ q ∈ ss.params, k ∈ keysOf ss.step q (val q) := by
    by_cases hcanonical : ∃ q ∈ ss.params, ∃ k' ∈ keysOf ss.step q (canonical given q),
        Occurs k' ss.step.script
    · exact ⟨_, admissible_canonical, hcanonical, fun k hk _ => mem_keysOf_canonical hk⟩
    · refine ⟨_, admissible_canonical.update hmem, ⟨p, hp, k, by simpa using hk, hocc⟩, ?_⟩
      intro k' hk' hocc'
      obtain ⟨q, hq, hkq⟩ := mem_keysOf_canonical hk'
      exact absurd ⟨q, hq, k', hkq, hocc'⟩ hcanonical
  obtain ⟨r₁, hr₁⟩ := hval.replacements (t := "a") (by simp) hnames hgiven hr
  obtain ⟨r₂, hr₂⟩ := hval.replacements (t := "aa") (by simp) hnames hgiven hr
  exact ⟨val, r₁, r₂, hr₁, hr₂, script_lengthens hnames hr₁ hr₂ hfront hdefault⟩

end

theorem names_replaceVariables (ps : Params) (r : Replacements) :
    (ps.replaceVariables r).map (·.name) = ps.map (·.name) := by
  simp [Params.replaceVariables, Function.comp_def]

theorem applyStepActionParameters_eq_ok {step step' : Step} {spec : List ParamSpec}
    {tr stepParams : Params} {defaults : List ParamSpec} :
    applyStepActionParameters step spec tr stepParams defaults = .ok step' ↔
      ∃ r, stepActionReplacements step
        (stepParams.replaceVariables (getTaskParameters spec tr)) defaults = .ok r ∧
        applyStepReplacements r step = step' := by
  unfold applyStepActionParameters
  dsimp only
  cases stepActionReplacements step
    (stepParams.replaceVariables (getTaskParameters spec tr)) defaults <;> simp

theorem scriptIndependent_iff (ss : StepActionSpec) (hv : ss.validate = []) :
    ss.ScriptIndependent ↔ ss.NamesNoParam := by
  constructor
  · intro h given r hgiven hr p hp v hmem k hk _ hocc
    obtain ⟨val, r₁, r₂, hr₁, hr₂, hlt⟩ := ss.exists_scripts_ne hv hgiven hr hp hmem hk hocc
    have hnames := ss.nodup_of_validate hv
    have hnone : getTaskParameters [] [] = {} := rfl
    have heq := (h [] [] _ _ _ _ (names_supply ▸ hnames) (names_supply ▸ hnames)
      (applyStepActionParameters_eq_ok.mpr ⟨r₁, by rwa [hnone, Params.replaceVariables_nil], rfl⟩)
      (applyStepActionParameters_eq_ok.mpr
        ⟨r₂, by rwa [hnone, Params.replaceVariables_nil], rfl⟩)).1
    simp only [applyStepReplacements] at heq
    rw [heq] at hlt
    exact absurd hlt (Nat.lt_irrefl _)
  · intro h spec tr given₁ given₂ step₁ step₂ hgiven₁ hgiven₂ h₁ h₂
    have hscript : ∀ {given : Params} {step : Step}, (given.map (·.name)).Nodup →
        applyStepActionParameters ss.step spec tr given ss.params = .ok step →
        step.script = ss.step.script := by
      intro given step hgiven hstep
      obtain ⟨r, hr, rfl⟩ := applyStepActionParameters_eq_ok.mp hstep
      exact applyReplacements_of_absent (h.absent hv (names_replaceVariables given _ ▸ hgiven) hr)
    have heq := (hscript hgiven₁ h₁).trans (hscript hgiven₂ h₂).symm
    exact ⟨heq, by simp only [applyParameters, applyStepReplacements, heq]⟩

end

def announce : StepActionSpec where
  step :=
    { image := "bash", script := "echo $NAME"
      env := [{ name := "NAME", value := "$(params.name)" }] }
  params := [{ name := "name" }]
  typed := by simp

theorem announce_independent : announce.validate = [] ∧ announce.ScriptIndependent := by
  refine ⟨by decide +kernel, (scriptIndependent_iff announce (by decide +kernel)).mpr ?_⟩
  intro given r _ _ p _ v _ key _ _ hocc
  have hstart : "$(".toList <:+: announce.step.script.toList :=
    List.IsInfix.trans ⟨[], (key ++ ")").toList, by simp [reference]⟩ hocc
  exact absurd hstart (by decide +kernel)

def greet : StepActionSpec where
  step := { image := "bash", script := "echo $(inputs.params.name)" }
  params := [{ name := "name" }]
  typed := by simp

/-- The validation accepts the script, and a value becomes a command of it. -/
theorem greet_injected : greet.validate = [] ∧
    (applyStepActionParameters greet.step [] [] [⟨"name", { stringVal := "tekton" }⟩]
      greet.params).map (·.script) = .ok "echo tekton" ∧
    (applyStepActionParameters greet.step [] [] [⟨"name", { stringVal := "tekton; id" }⟩]
      greet.params).map (·.script) = .ok "echo tekton; id" ∧
    ¬ greet.ScriptIndependent := by
  have h₁ : (applyStepActionParameters greet.step [] [] [⟨"name", { stringVal := "tekton" }⟩]
      greet.params).map (·.script) = .ok "echo tekton" := by decide +kernel
  have h₂ : (applyStepActionParameters greet.step [] [] [⟨"name", { stringVal := "tekton; id" }⟩]
      greet.params).map (·.script) = .ok "echo tekton; id" := by decide +kernel
  refine ⟨by decide +kernel, h₁, h₂, fun h => ?_⟩
  cases hs₁ : applyStepActionParameters greet.step [] []
      [⟨"name", { stringVal := "tekton" }⟩] greet.params with
  | error e => simp [hs₁, Except.map] at h₁
  | ok step₁ =>
    cases hs₂ : applyStepActionParameters greet.step [] []
        [⟨"name", { stringVal := "tekton; id" }⟩] greet.params with
    | error e => simp [hs₂, Except.map] at h₂
    | ok step₂ =>
      have heq := (h [] [] _ _ _ _ (by simp) (by simp) hs₁ hs₂).1
      simp only [hs₁, hs₂, Except.map, Except.ok.injEq] at h₁ h₂
      rw [h₁, h₂] at heq
      exact absurd heq (by decide)

end TektonPipeline.StepActions
