import TektonPipeline.TaskRun.StepActions

/-! The keys of the replacements of a StepAction: by which spellings a parameter is named, given
its value, and when the tables are built without an error. -/

namespace TektonPipeline.StepActions
open Api ResultRef List
open Tasks (Step)

section
variable {given : Params} {name : String} {v : ParamValue}

theorem mem_of_provided (h : provided given name = some v) : ⟨name, v⟩ ∈ given := by
  obtain ⟨sp, hsp, rfl⟩ := Option.map_eq_some_iff.mp h
  have hname : sp.name = name := by simpa using find?_some hsp
  subst hname
  simpa using mem_of_find?_eq_some hsp

theorem provided_of_mem (hgiven : (given.map (·.name)).Nodup) (h : ⟨name, v⟩ ∈ given) :
    provided given name = some v := by
  cases hp : provided given name with
  | none =>
    have hall := find?_eq_none.mp (Option.map_eq_none_iff.mp hp) ⟨name, v⟩ (by simpa using h)
    simp at hall
  | some v' =>
    have heq : (⟨name, v'⟩ : Param) = ⟨name, v⟩ :=
      inj_on_of_nodup_map hgiven (mem_of_provided hp) h rfl
    simpa using heq

end

theorem eq_of_paramPatterns {a b k : String} (ha : k ∈ paramPatterns a)
    (hb : k ∈ paramPatterns b) : a = b := by
  simp only [paramPatterns, mem_cons, not_mem_nil, or_false] at ha hb
  rcases ha with rfl | rfl | rfl | rfl <;> rcases hb with hb | hb | hb | hb <;>
    first
    | simpa using hb
    | (have h := congrArg (fun s : String => s.toList.take 8) hb
       simp [String.toList_append] at h)

def resultKeys (step : Step) (d : ParamSpec) : List String :=
  match d.type with
  | .object => d.properties.map (objectIndividualVariable d.name)
  | .array => (arrayIdxUsage step d.name).map (·.1) ++
      (paramPatterns d.name).map fun pattern => pattern ++ "[*]"
  | .string => paramPatterns d.name

theorem keys_stepResultStrings (step : Step) (d : ParamSpec) (value : String) (pr : ParsedResult) :
    (stepResultStrings step d value pr).map (·.1) = resultKeys step d := by
  unfold stepResultStrings resultKeys
  cases d.type <;> simp [Function.comp_def]

def keysOf (step : Step) (p : ParamSpec) (v : ParamValue) : List String :=
  (stringsOf p.name v).map (·.1) ++ if isStepResult v then resultKeys step p else []

theorem keys_stringsOf_string {name : String} {v : ParamValue} (hv : v.type = .string) :
    (stringsOf name v).map (·.1) = paramPatterns name := by
  simp [stringsOf, hv, Function.comp_def]

variable {strings : List (String × String)} {p : ParamSpec}

section
variable {defaults : List ParamSpec} {params : Params} {k : String}

theorem mem_strings_replacementsFromParams : k ∈ (replacementsFromParams params).strings.map (·.1) ↔
      ∃ p ∈ params, k ∈ (stringsOf p.name p.value).map (·.1) := by
  simp [replacementsFromParams, map_flatMap]

theorem mem_arrays_replacementsFromParams : k ∈ (replacementsFromParams params).arrays.map (·.1) ↔
      ∃ p ∈ params, k ∈ (arraysOf p.name p.value).map (·.1) := by
  simp [replacementsFromParams, map_flatMap]

theorem mem_keys_arraysOf {name : String} {v : ParamValue} :
    k ∈ (arraysOf name v).map (·.1) ↔ v.type = .array ∧ k ∈ paramPatterns name := by
  unfold arraysOf
  cases v.type <;> simp

theorem mem_simpleDefaults {x : Param} : x ∈ simpleDefaults defaults ↔
      ∃ p ∈ defaults, p.default = some x.value ∧ refersToParams x.value = false ∧
        p.name = x.name := by
  obtain ⟨name, value⟩ := x
  simp only [simpleDefaults, mem_filterMap, Option.map_eq_some_iff,
    Option.filter_eq_some_iff, Bool.not_eq_true', Param.mk.injEq]
  constructor
  · rintro ⟨p, hp, v, ⟨hv, hr⟩, rfl, rfl⟩
    exact ⟨p, hp, hv, hr, rfl⟩
  · rintro ⟨p, hp, hv, hr, rfl⟩
    exact ⟨p, hp, value, ⟨hv, hr⟩, rfl, rfl⟩

theorem substituteReference_eq (p : ParamSpec) (v : ParamValue) (strings : List (String × String))
    (w : List Char) : ∃ new, substituteReference p v strings w = new ++ strings ∧
      ∀ k ∈ new.map (·.1), k ∈ paramPatterns p.name := by
  unfold substituteReference
  split
  · exact ⟨_, rfl, by simp [Function.comp_def]⟩
  · exact ⟨[], rfl, by simp⟩

theorem substituteDefault_eq (strings : List (String × String)) (p : ParamSpec) :
    ∃ new, substituteDefault strings p = new ++ strings ∧ ∀ k ∈ new.map (·.1),
      ∃ v, p.default = some v ∧ refersToParams v = true ∧ k ∈ paramPatterns p.name := by
  unfold substituteDefault
  cases p.default with
  | none => exact ⟨[], rfl, by simp⟩
  | some v =>
    dsimp only
    split
    · rename_i hr
      generalize extractVariableExpressions v.stringVal = ws
      induction ws generalizing strings with
      | nil => exact ⟨[], rfl, by simp⟩
      | cons w ws ih =>
        obtain ⟨new, heq, hnew⟩ := substituteReference_eq p v strings w
        obtain ⟨new', heq', hnew'⟩ := ih (new ++ strings)
        refine ⟨new' ++ new, by rw [foldl_cons, heq, heq', append_assoc], ?_⟩
        rw [map_append, forall_mem_append]
        exact ⟨hnew', fun k hk => ⟨v, rfl, hr, hnew k hk⟩⟩
    · exact ⟨[], rfl, by simp⟩

theorem foldl_substituteDefault_eq (strings : List (String × String)) (defaults : List ParamSpec) :
    ∃ new, defaults.foldl substituteDefault strings = new ++ strings ∧ ∀ k ∈ new.map (·.1),
      ∃ p ∈ defaults, ∃ v, p.default = some v ∧ refersToParams v = true ∧
        k ∈ paramPatterns p.name := by
  induction defaults generalizing strings with
  | nil => exact ⟨[], rfl, by simp⟩
  | cons p ps ih =>
    obtain ⟨new, heq, hnew⟩ := substituteDefault_eq strings p
    obtain ⟨new', heq', hnew'⟩ := ih (new ++ strings)
    refine ⟨new' ++ new, by rw [foldl_cons, heq, heq', append_assoc], ?_⟩
    rw [map_append, forall_mem_append]
    refine ⟨fun k hk => ?_, fun k hk => ⟨p, mem_cons_self, hnew k hk⟩⟩
    obtain ⟨q, hq, h⟩ := hnew' k hk
    exact ⟨q, mem_cons_of_mem p hq, h⟩

theorem mem_strings_of_default
    (hk : k ∈ (replacementsFromDefaultParams defaults).strings.map (·.1)) :
    ∃ p ∈ defaults, ∃ v, p.default = some v ∧
      ((refersToParams v = false ∧ k ∈ (stringsOf p.name v).map (·.1)) ∨
        (refersToParams v = true ∧ k ∈ paramPatterns p.name)) := by
  obtain ⟨new, heq, hnew⟩ := foldl_substituteDefault_eq
    (replacementsFromParams (simpleDefaults defaults)).strings defaults
  simp only [replacementsFromDefaultParams, heq, map_append, mem_append] at hk
  rcases hk with h | h
  · obtain ⟨p, hp, v, hv, hr, h⟩ := hnew k h
    exact ⟨p, hp, v, hv, .inr ⟨hr, h⟩⟩
  · obtain ⟨x, hx, h⟩ := mem_strings_replacementsFromParams.mp h
    obtain ⟨p, hp, hv, hr, hname⟩ := mem_simpleDefaults.mp hx
    exact ⟨p, hp, x.value, hv, .inl ⟨hr, hname ▸ h⟩⟩

theorem default_mem_strings {v : ParamValue} (hp : p ∈ defaults) (hv : p.default = some v)
    (hr : refersToParams v = false) (hk : k ∈ (stringsOf p.name v).map (·.1)) :
    k ∈ (replacementsFromDefaultParams defaults).strings.map (·.1) := by
  obtain ⟨new, heq, -⟩ := foldl_substituteDefault_eq
    (replacementsFromParams (simpleDefaults defaults)).strings defaults
  simp only [replacementsFromDefaultParams, heq, map_append, mem_append]
  exact .inr (mem_strings_replacementsFromParams.mpr
    ⟨⟨p.name, v⟩, mem_simpleDefaults.mpr ⟨p, hp, hv, hr, rfl⟩, hk⟩)

theorem mem_arrays_default : k ∈ (replacementsFromDefaultParams defaults).arrays.map (·.1) ↔
      ∃ p ∈ defaults, ∃ v, p.default = some v ∧ refersToParams v = false ∧ v.type = .array ∧
        k ∈ paramPatterns p.name := by
  rw [show (replacementsFromDefaultParams defaults).arrays =
    (replacementsFromParams (simpleDefaults defaults)).arrays from rfl,
    mem_arrays_replacementsFromParams]
  constructor
  · rintro ⟨x, hx, hk⟩
    obtain ⟨p, hp, hv, hr, hname⟩ := mem_simpleDefaults.mp hx
    obtain ⟨ht, hk⟩ := mem_keys_arraysOf.mp hk
    exact ⟨p, hp, x.value, hv, hr, ht, hname ▸ hk⟩
  · rintro ⟨p, hp, v, hv, hr, ht, hk⟩
    exact ⟨⟨p.name, v⟩, mem_simpleDefaults.mpr ⟨p, hp, hv, hr, rfl⟩, mem_keys_arraysOf.mpr ⟨ht, hk⟩⟩

end

section
variable {defaults : List ParamSpec} {given processed : Params} {x : Param}

theorem mem_processedAtOnce : x ∈ processedAtOnce given defaults ↔ ∃ p ∈ defaults, p.name = x.name ∧
      (provided given p.name = some x.value ∨ provided given p.name = none ∧
        p.default = some x.value ∧ refersToParams x.value = false) := by
  obtain ⟨name, value⟩ := x
  simp only [processedAtOnce, mem_filterMap]
  refine exists_congr fun p => and_congr_right fun _ => ?_
  cases hp : provided given p.name with
  | some v => simp
  | none => simp [Option.filter_eq_some_iff, and_comm]

theorem mem_paramsNeedingResolution (hx : x ∈ paramsNeedingResolution given defaults) :
    ∃ p ∈ defaults, p.name = x.name ∧ p.default = some x.value ∧ refersToParams x.value = true := by
  obtain ⟨name, value⟩ := x
  simp only [paramsNeedingResolution, mem_filterMap] at hx
  obtain ⟨p, hp, hx⟩ := hx
  cases hprov : provided given p.name with
  | some v => simp [hprov] at hx
  | none =>
    simp [hprov, Option.filter_eq_some_iff] at hx
    exact ⟨p, hp, hx.2, hx.1⟩

def ValueFrom (needed : Params) (x : Param) : Prop :=
  ∃ y ∈ needed, y.name = x.name ∧ ∃ s, x.value = { y.value with stringVal := s }

theorem resolveRound_eq (needed processed : Params) :
    (∀ x ∈ (resolveRound needed processed).1, x ∈ needed) ∧
      ∃ added, (resolveRound needed processed).2 = processed ++ added ∧
        ∀ x ∈ added, ValueFrom needed x := by
  induction needed generalizing processed with
  | nil => exact ⟨by simp [resolveRound], [], by simp [resolveRound]⟩
  | cons p needed ih =>
    have hlater : ∀ {x}, ValueFrom needed x → ValueFrom (p :: needed) x := by
      intro x ⟨y, hy, h⟩
      exact ⟨y, mem_cons_of_mem p hy, h⟩
    rw [resolveRound]
    split
    · obtain ⟨hleft, added, heq, hadded⟩ :=
        ih (processed ++ [⟨p.name, hydrate processed p.value⟩])
      refine ⟨fun x hx => mem_cons_of_mem p (hleft x hx), _ :: added,
        by rw [heq, append_assoc, singleton_append], ?_⟩
      rw [forall_mem_cons]
      exact ⟨⟨p, mem_cons_self, rfl, _, rfl⟩, fun x hx => hlater (hadded x hx)⟩
    · obtain ⟨hleft, added, heq, hadded⟩ := ih processed
      refine ⟨?_, added, heq, fun x hx => hlater (hadded x hx)⟩
      rw [forall_mem_cons]
      exact ⟨mem_cons_self, fun x hx => mem_cons_of_mem p (hleft x hx)⟩

theorem resolveRounds_eq {n : Nat} {needed result : Params}
    (h : resolveRounds defaults n needed processed = .ok result) :
    ∃ added, result = processed ++ added ∧ ∀ x ∈ added, ValueFrom needed x := by
  induction n generalizing needed processed with
  | zero =>
    cases needed with
    | nil => exact ⟨[], by simpa [resolveRounds] using h.symm, by simp⟩
    | cons p needed => simp [resolveRounds] at h
  | succ n ih =>
    cases needed with
    | nil => exact ⟨[], by simpa [resolveRounds] using h.symm, by simp⟩
    | cons p needed =>
      rw [resolveRounds] at h
      dsimp only at h
      split at h
      · simp at h
      · obtain ⟨hleft, added, heq, hadded⟩ := resolveRound_eq (p :: needed) processed
        obtain ⟨added', heq', hadded'⟩ := ih h
        refine ⟨added ++ added', by rw [heq', heq, append_assoc], ?_⟩
        rw [forall_mem_append]
        refine ⟨hadded, fun x hx => ?_⟩
        obtain ⟨y, hy, hx⟩ := hadded' x hx
        exact ⟨y, hleft y hy, hx⟩

theorem mem_processedParams (h : processedParams given defaults = .ok processed)
    (hx : x ∈ processed) : ∃ p ∈ defaults, p.name = x.name ∧
      (provided given p.name = some x.value ∨ ∃ v, p.default = some v ∧
        (refersToParams v = false ∧ x.value = v ∨
          refersToParams v = true ∧ ∃ s, x.value = { v with stringVal := s })) := by
  obtain ⟨added, rfl, hadded⟩ := resolveRounds_eq h
  rcases mem_append.mp hx with hx | hx
  · obtain ⟨p, hp, hname, hv | ⟨-, hv, hr⟩⟩ := mem_processedAtOnce.mp hx
    · exact ⟨p, hp, hname, .inl hv⟩
    · exact ⟨p, hp, hname, .inr ⟨x.value, hv, .inl ⟨hr, rfl⟩⟩⟩
  · obtain ⟨y, hy, hname, hs⟩ := hadded x hx
    obtain ⟨p, hp, hpname, hv, hr⟩ := mem_paramsNeedingResolution hy
    exact ⟨p, hp, hpname.trans hname, .inr ⟨y.value, hv, .inr ⟨hr, hs⟩⟩⟩

theorem provided_mem_processedParams (h : processedParams given defaults = .ok processed)
    {v : ParamValue} (hp : p ∈ defaults) (hv : provided given p.name = some v) :
    ⟨p.name, v⟩ ∈ processed := by
  obtain ⟨added, rfl, -⟩ := resolveRounds_eq h
  exact mem_append_left _ (mem_processedAtOnce.mpr ⟨p, hp, rfl, .inl hv⟩)

end

section
variable {step : Step} {defaults : List ParamSpec} {given : Params}
  {results : List (String × String)} {k : String}

theorem mem_keys_results (h : replacementsFromStepResults step defaults given = .ok results) :
    k ∈ results.map (·.1) ↔ ∃ sp ∈ given, isStepResult sp.value = true ∧
      ∃ d ∈ defaults, d.name = sp.name ∧ k ∈ resultKeys step d := by
  induction given generalizing results with
  | nil =>
    simp only [replacementsFromStepResults, Except.ok.injEq] at h
    simp [← h]
  | cons sp given ih =>
    rw [replacementsFromStepResults] at h
    split at h
    · rename_i hsp
      cases hpr : parseStepExpression (stripVarSubExpression sp.value.stringVal) with
      | none => simp [hpr] at h
      | some pr =>
        cases hrest : replacementsFromStepResults step defaults given with
        | error e => simp [hpr, hrest] at h
        | ok rest =>
          simp only [hpr, hrest, Except.ok.injEq] at h
          subst h
          simp only [map_append, mem_append, ih hrest, map_flatMap, keys_stepResultStrings,
            mem_flatMap, mem_filter, beq_iff_eq, exists_mem_cons_iff, hsp, true_and, and_assoc]
          exact or_comm
    · rename_i hsp
      rw [ih h]
      simp [hsp]

end

theorem checkForDuplicateKeys_eq_none {arrays : List (String × List String)} :
    checkForDuplicateKeys strings arrays = none ↔
      ∀ k ∈ strings.map (·.1), k ∉ arrays.map (·.1) := by
  unfold checkForDuplicateKeys
  rw [Option.map_eq_none_iff, find?_eq_none]
  refine forall_congr' fun k => ?_
  rw [sortedKeys, mem_insertionSort]
  refine imp_congr_right fun _ => ?_
  simp only [Option.isSome_iff_ne_none, ne_eq, not_not, lookup_eq_none_iff,
    mem_map, not_exists, not_and, bne_iff_ne]
  exact ⟨fun h e he hek => h e he hek.symm, fun h e he hek => h e he hek.symm⟩

theorem stepActionReplacements_eq_ok {step : Step} {given : Params} {defaults : List ParamSpec}
    {r : Replacements} : stepActionReplacements step given defaults = .ok r ↔
      ∃ processed results, processedParams given defaults = .ok processed ∧
        replacementsFromStepResults step defaults given = .ok results ∧
        r = mergeReplacements processed results defaults ∧
        ∀ k ∈ r.strings.map (·.1), k ∉ r.arrays.map (·.1) := by
  unfold stepActionReplacements
  cases processedParams given defaults with
  | error e => simp
  | ok processed =>
    cases replacementsFromStepResults step defaults given with
    | error e => simp
    | ok results =>
      simp only [Except.ok.injEq, exists_and_left, exists_eq_left', ← checkForDuplicateKeys_eq_none]
      cases hc : checkForDuplicateKeys (mergeReplacements processed results defaults).strings
          (mergeReplacements processed results defaults).arrays with
      | some e =>
        simp only [reduceCtorEq, false_iff, not_and]
        rintro rfl
        simp [hc]
      | none =>
        simp only [Except.ok.injEq]
        constructor
        · rintro rfl
          exact ⟨rfl, hc⟩
        · rintro ⟨rfl, -⟩
          rfl

end TektonPipeline.StepActions
