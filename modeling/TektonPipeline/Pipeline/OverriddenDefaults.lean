import TektonPipeline.Pipeline.ArrayIndexing
import TektonPipeline.Pipeline.Shadowing

/-! The default of an array that the run gives a value for. The run's elements take the place of
the default's one by one, so what is left of a longer default stays in the tables; the check of
the indices keeps it from being used in the texts that the check looks through. -/

namespace TektonPipeline.Parameters
open Api Tasks ResultRef List Assoc Table

/-- The declarations with another default for the array `x`. -/
def setDefault (x : String) (d : List String) (declared : List ParamSpec) : List ParamSpec :=
  declared.map fun p =>
    if p.name = x then { p with default := some { type := .array, arrayVal := d } } else p

def PipelineSpec.setDefault (p : PipelineSpec) (x : String) (d : List String) : PipelineSpec :=
  { p with params := Parameters.setDefault x d p.params }

def tables (p : PipelineSpec) (given : Params) (x : String) (d : List String) : Replacements :=
  parameterReplacements (p.setDefault x d).params given

/-- What is made of the tasks does not depend on the default of `x`. -/
def DefaultUnused (p : PipelineSpec) (given : Params) (x : String) : Prop :=
  ∀ d d', (applyParameters (p.setDefault x d) given).tasks =
      (applyParameters (p.setDefault x d') given).tasks ∧
    (applyParameters (p.setDefault x d) given).finalTasks =
      (applyParameters (p.setDefault x d') given).finalTasks

/-- No array that the run gives for `x` has this element. -/
def PastEnd (given : Params) (x : String) (i : Nat) : Prop :=
  ∀ q ∈ given, q.name = x → q.value.type = .array → q.value.arrayVal.length ≤ i

/-- The entries that can be left of a default. -/
def IsStale (given : Params) (x k : String) : Prop :=
  ∃ pattern ∈ paramPatterns x, ∃ i, PastEnd given x i ∧ k = indexed pattern i

section
variable {given : Params} {x k : String} {d d' : List String}

theorem flatMap_defaults {κ ν : Type} (writes : Param → List (κ × ν)) (declared : List ParamSpec) :
    (defaults declared).flatMap writes =
      declared.flatMap fun p => (p.default.map (Param.mk p.name)).toList.flatMap writes := by
  induction declared with
  | nil => rfl
  | cons p declared ih =>
    unfold defaults at ih ⊢
    cases hp : p.default with
    | none => simp [hp, ih]
    | some v => simp [hp, ih]

theorem agreeOff_setDefault {ν : Type} {writes : Param → List (String × ν)} {Q : String → Bool}
    (hQ : ∀ d, ∀ e ∈ writes ⟨x, { type := .array, arrayVal := d }⟩, Q e.1 = true)
    (declared : List ParamSpec) (given : Params) (d d' : List String) :
    Table.AgreeOff (fun k => Q k && k ∉ (given.flatMap writes).map (·.1))
      (Table.puts [] ((defaults (setDefault x d declared) ++ given).flatMap writes))
      (Table.puts [] ((defaults (setDefault x d' declared) ++ given).flatMap writes)) := by
  have hdefaults : Table.AgreeOff Q
      (Table.puts [] ((defaults (setDefault x d declared)).flatMap writes))
      (Table.puts [] ((defaults (setDefault x d' declared)).flatMap writes)) := by
    rw [flatMap_defaults, flatMap_defaults, setDefault, setDefault, flatMap_map, flatMap_map]
    refine agreeOff_puts_flatMap (fun p _ => ?_) []
    by_cases hp : p.name = x
    · right
      simp only [hp, if_true, Option.map_some, Option.toList_some, flatMap_cons,
        flatMap_nil, append_nil]
      exact ⟨hQ d, hQ d'⟩
    · exact .inl (by simp only [hp, if_false])
  rw [flatMap_append, flatMap_append, puts_append, puts_append]
  exact hdefaults.puts_diff _

theorem tables_eq (p : PipelineSpec) (given : Params) (x : String) (d : List String) :
    tables p given x d = replacementsOf (defaults (setDefault x d p.params) ++ given) :=
  parameterReplacements_eq _ _

theorem isStale_of_not_mem (hpart : IsPart .array x k)
    (hk : k ∉ (given.flatMap stringWrites).map (·.1)) : IsStale given x k := by
  obtain ⟨pattern, hp, i, rfl⟩ := hpart
  refine ⟨pattern, hp, i, fun q hq hname htype => ?_, rfl⟩
  by_contra hlt
  refine hk ?_
  rw [map_flatMap, mem_flatMap]
  refine ⟨q, hq, ?_⟩
  have hi : i < q.value.arrayVal.length := Nat.lt_of_not_le hlt
  simp only [stringWrites, htype, hname, map_flatMap, map_map, mem_flatMap,
    mem_map, Function.comp_apply]
  refine ⟨pattern, hp, (q.value.arrayVal[i], i), ?_, rfl⟩
  rw [mk_mem_zipIdx_iff_getElem?, getElem?_eq_getElem hi]

open Classical in
theorem related_tables (p : PipelineSpec) (hx : Gives given x) (d d' : List String) :
    Related (fun _ => false) (fun k => IsStale given x k)
      (tables p given x d) (tables p given x d') := by
  have hvalue : ∀ d, IsValue .array { type := .array, arrayVal := d } :=
    fun d => ⟨rfl, fun e he => absurd he not_mem_nil⟩
  rw [tables_eq, tables_eq]
  unfold replacementsOf
  constructor
  · refine (agreeOff_setDefault (Q := fun k => decide (IsPart .array x k)) (fun d e he => ?_)
      p.params given d d').mono fun k hk => ?_
    · rcases mem_keys_stringWrites (hvalue d) (mem_map_of_mem he) with ⟨-, ht⟩ | hpart
      · cases ht
      · exact decide_eq_true hpart
    · rw [Bool.and_eq_true, decide_eq_true_eq, decide_eq_true_eq] at hk
      exact decide_eq_true (isStale_of_not_mem hk.1 hk.2)
  · refine (agreeOff_setDefault (Q := fun k => decide (k ∈ paramPatterns x)) (fun d e he => ?_)
      p.params given d d').mono fun k hk => ?_
    · exact decide_eq_true ((mem_keys_arrayWrites (hvalue d)).mp (mem_map_of_mem he)).1
    · rw [Bool.and_eq_true, decide_eq_true_eq, decide_eq_true_eq] at hk
      obtain ⟨q, hq, rfl, htype⟩ := hx
      refine absurd ?_ hk.2
      rw [map_flatMap, mem_flatMap]
      refine ⟨q, hq, ?_⟩
      simpa [arrayWrites, htype] using hk.1
  · refine (agreeOff_setDefault (Q := fun _ => false) (fun d e he => ?_)
      p.params given d d').mono fun k hk => ?_
    · exact absurd he not_mem_nil
    · exact absurd hk Bool.false_ne_true
  · exact fun k hk => absurd hk Bool.false_ne_true
  · exact fun k hk => absurd hk Bool.false_ne_true
  · exact fun k hk => absurd hk Bool.false_ne_true

end

def PipelineTask.embeddedSites (r : Replacements) (t : PipelineTask) : List Site :=
  let inner := scopeParams r (t.replaceFields r).params
  t.taskSpec.toList.flatMap (TaskSpec.sites inner.arrays inner.objects)

section
variable {r r' : Replacements} {K : String → Bool}

theorem propagateParams_eq_iff (t : PipelineTask) : t.applyReplacements r = t.applyReplacements r' ↔
      t.replaceFields r = t.replaceFields r' ∧
        t.taskSpec.map (TaskSpec.applyReplacements (scopeParams r (t.replaceFields r).params)) =
          t.taskSpec.map
            (TaskSpec.applyReplacements (scopeParams r' (t.replaceFields r').params)) := by
  unfold PipelineTask.applyReplacements propagateParams
  generalize scopeParams r (t.replaceFields r).params = inner
  generalize scopeParams r' (t.replaceFields r').params = inner'
  simp only [PipelineTask.mk.injEq, PipelineTask.replaceFields]
  tauto

theorem Related.applyReplacements_eq_iff (h : Related (fun _ => false) K r r') (t : PipelineTask) :
    t.applyReplacements r = t.applyReplacements r' ↔
      Agree r.strings r'.strings (t.fieldSites r.arrays r.objects) ∧
        Agree (Parameters.scopeParams r (t.replaceFields r).params).strings
          (Parameters.scopeParams r' (t.replaceFields r).params).strings (t.embeddedSites r) := by
  have hinner := h.scopeParams (t.replaceFields r).params
  have harrays := agreeOff_none.mp (hinner.arrays.mono fun k hk => by simp at hk)
  have hobjects := agreeOff_none.mp (hinner.objects.mono fun k hk => by simp at hk)
  have hfields : t.replaceFields r = t.replaceFields r' ↔
      Agree r.strings r'.strings (t.fieldSites r.arrays r.objects) := by
    obtain ⟨S, A, O⟩ := r
    obtain ⟨S', A', O'⟩ := r'
    obtain rfl : A = A' := agreeOff_none.mp h.arrays
    obtain rfl : O = O' := agreeOff_none.mp h.objects
    exact t.replaceFields_eq_iff
  rw [propagateParams_eq_iff, hfields]
  refine and_congr_right fun hagree => ?_
  rw [← hfields.mpr hagree, Tasks.map_eq_map_iff, PipelineTask.embeddedSites, agree_flatMap]
  refine forall₂_congr fun ts _ => ?_
  generalize Parameters.scopeParams r (t.replaceFields r).params = inner at harrays hobjects ⊢
  generalize Parameters.scopeParams r' (t.replaceFields r).params = inner' at harrays hobjects ⊢
  obtain ⟨S, A, O⟩ := inner
  obtain ⟨S', A', O'⟩ := inner'
  obtain rfl : A = A' := harrays
  obtain rfl : O = O' := hobjects
  exact ts.applyReplacements_eq_iff

end

def PipelineTask.sites (r : Replacements) (t : PipelineTask) : List Site :=
  t.fieldSites r.arrays r.objects ++ t.embeddedSites r

/-- The check of the indices does not see a reference: it does not look at the text, or does not
read the notation. -/
def Unchecked (p : PipelineSpec) (x : String) (site : Site) (pattern : String) : Prop :=
  site.source ∉ p.indexedTexts ∨ ¬ Recognised x pattern

/-- No reference that the check does not see is to an element past the end of the run's
array. -/
def NamesNoStale (p : PipelineSpec) (given : Params) (x : String) : Prop :=
  ∀ t ∈ p.tasks ++ p.finalTasks, ∀ site ∈ t.sites (tables p given x []),
    ∀ pattern ∈ paramPatterns x, ∀ i, PastEnd given x i → Unchecked p x site pattern →
      ¬ site.Names (indexed pattern i)

section
variable {p : PipelineSpec} {given : Params} {x pattern : String} {i : Nat}

theorem not_names_of_checked (hvalid : validateParamArrayIndex p given = some none)
    (hx : Gives given x) (hlen : ∀ q ∈ given, q.value.arrayVal.length < 2 ^ 63) {site : Site}
    (hpast : PastEnd given x i) (hsite : ¬ Unchecked p x site pattern) :
    ¬ site.Names (indexed pattern i) := by
  intro hnames
  rw [Unchecked, not_or, not_not, not_not] at hsite
  obtain ⟨q, hq, hname, htype, hlt⟩ :=
    index_lt_of_valid hvalid hx hlen hsite.2 hsite.1 (occurs_of_names hnames)
  exact absurd (hpast q hq hname htype) (Nat.not_le_of_lt hlt)

theorem applyParameters_tasks (p : PipelineSpec) (given : Params) (x : String)
    (d : List String) : (applyParameters (p.setDefault x d) given).tasks =
      p.tasks.map (PipelineTask.applyReplacements (tables p given x d)) := rfl

theorem applyParameters_finalTasks (p : PipelineSpec) (given : Params) (x : String)
    (d : List String) : (applyParameters (p.setDefault x d) given).finalTasks =
      p.finalTasks.map (PipelineTask.applyReplacements (tables p given x d)) := rfl

theorem defaultUnused_iff : DefaultUnused p given x ↔
    ∀ t ∈ p.tasks ++ p.finalTasks, ∀ d, t.applyReplacements (tables p given x []) =
      t.applyReplacements (tables p given x d) := by
  unfold DefaultUnused
  simp only [applyParameters_tasks, applyParameters_finalTasks, map_inj_left]
  constructor
  · intro h t ht d
    rcases mem_append.mp ht with ht | ht
    · exact (h [] d).1 t ht
    · exact (h [] d).2 t ht
  · intro h d d'
    exact ⟨fun t ht => (h t (mem_append_left _ ht) d).symm.trans (h t (mem_append_left _ ht) d'),
      fun t ht => (h t (mem_append_right _ ht) d).symm.trans (h t (mem_append_right _ ht) d')⟩

theorem defaultUnused_of_namesNoStale (hvalid : validateParamArrayIndex p given = some none)
    (hx : Gives given x) (hlen : ∀ q ∈ given, q.value.arrayVal.length < 2 ^ 63)
    (h : NamesNoStale p given x) : DefaultUnused p given x := by
  classical
  have hnone : ∀ t ∈ p.tasks ++ p.finalTasks, ∀ site ∈ t.sites (tables p given x []), ∀ k,
      site.Names k → decide (IsStale given x k) = false := by
    intro t ht site hsite k hnames
    refine decide_eq_false ?_
    rintro ⟨pattern, hp, i, hpast, rfl⟩
    by_cases hunchecked : Unchecked p x site pattern
    · exact h t ht site hsite pattern hp i hpast hunchecked hnames
    · exact not_names_of_checked hvalid hx hlen hpast hunchecked hnames
  rw [defaultUnused_iff]
  intro t ht d
  have hrelated := related_tables p hx [] d
  rw [hrelated.applyReplacements_eq_iff]
  constructor
  · refine agree_of_agreeOff (fun site hsite => hnone t ht site ?_) hrelated.strings
    exact mem_append_left _ hsite
  · have hinner := (hrelated.scopeParams (t.replaceFields (tables p given x [])).params).strings
    refine agree_of_agreeOff (fun site hsite => hnone t ht site ?_) (hinner.mono fun k hk => ?_)
    · exact mem_append_right _ hsite
    · simp only [Bool.false_and, Bool.false_or, Bool.and_eq_true] at hk
      exact hk.1

end

structure WellNamed (p : PipelineSpec) (given : Params) : Prop where
  declared : ∀ s ∈ p.params, ∀ c ∈ s.name.toList, isVarChar c = true
  params : ∀ q ∈ defaults p.params ++ given ++ (p.tasks ++ p.finalTasks).flatMap (·.params),
    Spelled q

section
variable {p : PipelineSpec} {given : Params} {x pattern : String} {i : Nat}

theorem mem_defaults_setDefault {d : List String} {declared : List ParamSpec} {q : Param} :
    q ∈ defaults (setDefault x d declared) ↔ (q.name ≠ x ∧ q ∈ defaults declared) ∨
        (x ∈ declared.map (·.name) ∧ q = ⟨x, { type := .array, arrayVal := d }⟩) := by
  simp only [defaults, setDefault, mem_filterMap, mem_map, Option.map_eq_some_iff]
  constructor
  · rintro ⟨s, ⟨s', hs', rfl⟩, v, hv, rfl⟩
    by_cases hname : s'.name = x
    · simp only [hname, if_true, Option.some.injEq] at hv ⊢
      exact .inr ⟨⟨s', hs', hname⟩, by rw [hv]⟩
    · simp only [hname, if_false] at hv ⊢
      exact .inl ⟨hname, s', hs', v, hv, rfl⟩
  · rintro (⟨hne, s, hs, v, hv, rfl⟩ | ⟨⟨s, hs, rfl⟩, rfl⟩)
    · exact ⟨s, ⟨s, hs, if_neg hne⟩, v, hv, rfl⟩
    · exact ⟨_, ⟨s, hs, rfl⟩, { type := .array, arrayVal := d }, by simp, by simp⟩

theorem WellNamed.spelled (h : WellNamed p given) (d : List String) :
    ∀ q ∈ defaults (setDefault x d p.params) ++ given, Spelled q := by
  intro q hq
  rcases mem_append.mp hq with hq | hq
  · rcases mem_defaults_setDefault.mp hq with ⟨-, hq⟩ | ⟨hx, rfl⟩
    · exact h.params q (mem_append_left _ (mem_append_left _ hq))
    · obtain ⟨s, hs, rfl⟩ := mem_map.mp hx
      exact ⟨h.declared s hs, fun e he => absurd he not_mem_nil⟩
  · exact h.params q (mem_append_left _ (mem_append_right _ hq))

theorem lookup_tables (h : WellNamed p given) (hdeclared : x ∈ p.params.map (·.name))
    (hp : pattern ∈ paramPatterns x) (hpast : PastEnd given x i) (w : String) :
    (tables p given x (List.replicate (i + 1) w)).strings.lookup (indexed pattern i) = some w := by
  have hspelled := h.spelled (x := x) (List.replicate (i + 1) w)
  have hgiven : indexed pattern i ∉ (given.flatMap stringWrites).map (·.1) := by
    intro hmem
    obtain ⟨e, he, heq⟩ := mem_map.mp hmem
    obtain ⟨q, hq, heq'⟩ := mem_flatMap.mp he
    have hentry : (indexed pattern i, e.2) ∈ stringWrites q := by rwa [← heq]
    obtain ⟨hname, htype, hi⟩ :=
      (hspelled q (mem_append_right _ hq)).of_mem_stringWrites hp hentry
    obtain ⟨hlt, -⟩ := List.getElem?_eq_some_iff.mp hi
    exact absurd (hpast q hq hname htype) (Nat.not_le_of_lt hlt)
  have hlookup : ((defaults (setDefault x (List.replicate (i + 1) w) p.params)).flatMap
      stringWrites).reverse.lookup (indexed pattern i) = some w := by
    refine lookup_of_const (fun v hv => ?_) ?_
    · obtain ⟨q, hq, hentry⟩ := mem_flatMap.mp (mem_reverse.mp hv)
      obtain ⟨hname, -, hi⟩ :=
        (hspelled q (mem_append_left _ hq)).of_mem_stringWrites hp hentry
      rcases mem_defaults_setDefault.mp hq with ⟨hne, -⟩ | ⟨-, rfl⟩
      · exact absurd hname hne
      · exact eq_of_mem_replicate (mem_of_getElem? hi)
    · have hwrite := mem_of_lookup
        (lookup_filledArray hp (Nat.lt_succ_self i) w)
      rw [map_reverse, mem_reverse, map_flatMap, mem_flatMap]
      exact ⟨_, mem_defaults_setDefault.mpr (.inr ⟨hdeclared, rfl⟩),
        mem_map_of_mem (mem_reverse.mp hwrite)⟩
  rw [tables_eq, replacementsOf]
  dsimp only
  rw [flatMap_append, puts_append, lookup_puts_of_not_mem hgiven, lookup_puts, hlookup]
  rfl

theorem WellNamed.plain_tables (h : WellNamed p given) (d : List String) :
    ∀ k ∈ (tables p given x d).strings.map (·.1), Plain k := by
  rw [tables_eq]
  exact plain_replacementsOf fun q hq => (h.spelled d q hq).plainParam

theorem mem_objectVal_applyReplacements {v : ParamValue} {r : Replacements} {e : String × String}
    (he : e ∈ (v.applyReplacements r).objectVal) :
    e.1 ∈ v.objectVal.map (·.1) ∨ ∃ k o, r.objects.lookup k = some o ∧ e ∈ o := by
  obtain ⟨S, A, O⟩ := r
  unfold ParamValue.applyReplacements at he
  cases ht : v.type with
  | array =>
    simp only [ht] at he
    exact .inl (mem_map_of_mem he)
  | object =>
    simp only [ht, mem_map] at he
    obtain ⟨e', he', rfl⟩ := he
    exact .inl (mem_map.mpr ⟨e', he', rfl⟩)
  | string =>
    simp only [ht] at he
    by_cases hexact : isExactVariableSubstitution v.stringVal = true
    · cases hO : O.lookup (stripStarVarSubExpression v.stringVal) with
      | some o =>
        rw [ParamValue.applyOrCorrect_object hexact hO] at he
        exact .inr ⟨_, o, hO, he⟩
      | none =>
        cases hA : (A.lookup (stripStarVarSubExpression v.stringVal)).isSome with
        | true =>
          rw [ParamValue.applyOrCorrect_array hexact hO hA] at he
          exact .inl (mem_map_of_mem he)
        | false =>
          rw [ParamValue.applyOrCorrect_whole hexact hO hA] at he
          exact .inl (mem_map_of_mem he)
    · rw [ParamValue.applyOrCorrect_text (by simpa using hexact)] at he
      exact .inl (mem_map_of_mem he)

theorem WellNamed.spelled_replaceFields (h : WellNamed p given) (d : List String)
    {t : PipelineTask} (ht : t ∈ p.tasks ++ p.finalTasks) :
    ∀ q ∈ (t.replaceFields (tables p given x d)).params, Spelled q := by
  intro q hq
  obtain ⟨q, hmem, rfl⟩ := mem_map.mp hq
  have hspelled : Spelled q :=
    h.params q (mem_append_right _ (mem_flatMap.mpr ⟨t, ht, hmem⟩))
  refine ⟨hspelled.1, fun e he => ?_⟩
  rcases mem_objectVal_applyReplacements he with hkey | ⟨k, o, hlookup, he⟩
  · obtain ⟨e', he', heq⟩ := mem_map.mp hkey
    rw [← heq]
    exact hspelled.2 e' he'
  · rw [tables_eq, replacementsOf] at hlookup
    dsimp only at hlookup
    rw [lookup_puts, lookup_nil, Option.or_none] at hlookup
    obtain ⟨q', hq', hwrite⟩ :=
      mem_flatMap.mp (mem_reverse.mp (mem_of_lookup hlookup))
    have hobject : o = q'.value.objectVal := by
      unfold objectWrites at hwrite
      cases ht : q'.value.type with
      | object =>
        simp only [ht, mem_map] at hwrite
        obtain ⟨pattern, -, heq⟩ := hwrite
        exact (Prod.mk.inj heq).2.symm
      | string => simp [ht] at hwrite
      | array => simp [ht] at hwrite
    rw [hobject] at he
    exact (h.spelled d q' hq').2 e he

theorem lookup_scopeParams_indexed {r : Replacements} {ps : Params} (hps : ∀ q ∈ ps, Spelled q) :
    (scopeParams r ps).strings.lookup (indexed pattern i) = r.strings.lookup (indexed pattern i) :=
  scopeParams_lookup fun par hpar => ⟨indexed_not_mem_paramPatterns (hps par hpar).1 pattern i,
    (hps par hpar).indexed_not_mem_objectKeyWrites pattern i⟩

theorem namesNoStale_of_defaultUnused (hx : Gives given x)
    (hdeclared : x ∈ p.params.map (·.name)) (hnamed : WellNamed p given)
    (h : DefaultUnused p given x) : NamesNoStale p given x := by
  intro t ht site hsite pattern hp i hpast _ hnames
  have hplain : Plain (indexed pattern i) := by
    obtain ⟨s, hs, rfl⟩ := mem_map.mp hdeclared
    exact plain_indexed (plain_of_isVarChar (hnamed.declared s hs)) hp i
  have hlookup := lookup_tables hnamed hdeclared hp hpast
  -- a longer element of the default gives a longer text
  have hagree : ∀ w, Agree _ _ _ ∧ Agree _ _ _ := fun w =>
    ((related_tables p hx [] (List.replicate (i + 1) w)).applyReplacements_eq_iff t).mp
      (defaultUnused_iff.mp h t ht _)
  rcases mem_append.mp hsite with hsite | hsite
  · obtain ⟨w, hw⟩ := Text.exists_ne_of_length_le fun w =>
      site_reads_array hnames (hnamed.plain_tables _) hplain (hlookup w)
    exact hw (((hagree w).1 site hsite).symm.trans ((hagree "").1 site hsite))
  · have hspelled := hnamed.spelled_replaceFields (x := x) [] ht
    obtain ⟨w, hw⟩ := Text.exists_ne_of_length_le fun w =>
      site_reads_array hnames (plain_scopeParams (hnamed.plain_tables _)
        fun q hq => (hspelled q hq).plainParam) hplain
          ((lookup_scopeParams_indexed hspelled).trans (hlookup w))
    exact hw (((hagree w).2 site hsite).symm.trans ((hagree "").2 site hsite))

/-- After the check of the indices, the default of an array that the run gives is of no effect
exactly where no text that the check does not look at, and no reference in a notation it does
not read, is to an element past the end of the run's array. A Go slice has fewer than 2⁶³
elements. -/
theorem defaultUnused_iff_namesNoStale (hvalid : validateParamArrayIndex p given = some none)
    (hx : Gives given x) (hdeclared : x ∈ p.params.map (·.name))
    (hlen : ∀ q ∈ given, q.value.arrayVal.length < 2 ^ 63) :
    (NamesNoStale p given x → DefaultUnused p given x) ∧
      (WellNamed p given → DefaultUnused p given x → NamesNoStale p given x) :=
  ⟨defaultUnused_of_namesNoStale hvalid hx hlen, namesNoStale_of_defaultUnused hx hdeclared⟩

end

def revisions (value : List String) : ParamValue := { type := .array, arrayVal := value }

def revised (t : PipelineTask) : PipelineSpec where
  params := [{ name := "revisions", type := .array, default := some (revisions ["main", "old"]) }]
  tasks := [t]

def built (revision : String) : PipelineTask where
  name := "build"
  params := [⟨"revision", { stringVal := revision }⟩]

def resolvedAt (revision : String) : PipelineTask where
  name := "build"
  taskRef := some { params := [⟨"revision", { stringVal := revision }⟩] }

/-- The first revision is the run's. -/
theorem first_revision_given :
    DefaultUnused (revised (built "$(params.revisions[0])")) [⟨"revisions", revisions ["v1"]⟩]
      "revisions" := by
  refine (defaultUnused_iff_namesNoStale (by decide) ⟨_, mem_cons_self, rfl, rfl⟩
    mem_cons_self (by decide)).1 ?_
  intro t ht site hsite pattern hp i hpast _ hnames
  have hi : 1 ≤ i := hpast _ mem_cons_self rfl rfl
  obtain rfl := mem_singleton.mp ht
  have hsites : (built "$(params.revisions[0])").sites
      (tables (revised (built "$(params.revisions[0])")) [⟨"revisions", revisions ["v1"]⟩]
        "revisions" []) = [.text "", .whole "$(params.revisions[0])" (by decide)] := by decide
  rw [hsites, mem_cons, mem_singleton] at hsite
  rcases hsite with rfl | rfl
  · exact not_names_of_no_dollar (by decide) hnames
  · have hself : "$(params.revisions[0])" = "$(" ++ indexed "params.revisions" 0 ++ ")" := by
      decide
    have heq := hself.symm.trans (names_whole_indexed hnames).1
    rw [String.append_left_inj, String.append_right_inj] at heq
    have h0 := (indexed_inj heq).2
    omega

/-- The run gives one revision, and the second is that of the default. -/
theorem second_revision_stale :
    validateParamArrayIndex (revised (resolvedAt "$(params.revisions[1])"))
        [⟨"revisions", revisions ["v1"]⟩] = some none ∧
      ¬ DefaultUnused (revised (resolvedAt "$(params.revisions[1])"))
        [⟨"revisions", revisions ["v1"]⟩] "revisions" := by
  refine ⟨rfl, fun h => ?_⟩
  have htasks := (h ["main", "old"] ["main", "older"]).1
  revert htasks
  decide

end TektonPipeline.Parameters
