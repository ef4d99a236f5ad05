import TektonPipeline.Pipeline.Scope

/-! A parameter that a task with an embedded spec binds itself. `propagateParams` writes the
task's value over the pipeline's, key by key; the entries of the pipeline for single elements
and keys stay where the task's value has none of its own. -/

namespace TektonPipeline.Parameters
open Api Tasks List Assoc Table

/-- The parameters of the pipeline in the order in which they are written, the defaults before
those of the run, with one value of the parameter `x`. -/
def outer (before after : Params) (x : String) (v : ParamValue) : Params :=
  before ++ ⟨x, v⟩ :: after

def IsValue (type : ParamType) (v : ParamValue) : Prop :=
  v.type = type ∧ ∀ e ∈ v.objectVal, Plain e.1

/-- The entries of the strings that are made from single elements or keys of `x`. -/
def IsPart (type : ParamType) (x k : String) : Prop :=
  match type with
  | .string => False
  | .array => ∃ pattern ∈ paramPatterns x, ∃ i, k = indexed pattern i
  | .object => ∃ key, Plain key ∧ k = objectIndividualVariable x key

variable {pattern : String}

section
variable {type : ParamType} {x k : String} {v v' : ParamValue} {before after : Params}

theorem not_indexed_mem_paramPatterns (hp : pattern ∈ paramPatterns x) (i : Nat) :
    indexed pattern i ∉ paramPatterns x := by
  simp only [paramPatterns, mem_cons, not_mem_nil, or_false] at hp
  rcases hp with rfl | rfl | rfl <;>
    simp [paramPatterns, indexed, ← String.toList_inj]

theorem objectIndividualVariable_not_mem_paramPatterns (x key : String) :
    objectIndividualVariable x key ∉ paramPatterns x := by
  simp [paramPatterns, objectIndividualVariable, ← String.toList_inj]

theorem mem_keys_stringWrites (hv : IsValue type v) (hk : k ∈ (stringWrites ⟨x, v⟩).map (·.1)) :
    (k ∈ paramPatterns x ∧ type = .string) ∨ IsPart type x k := by
  obtain ⟨rfl, hkeys⟩ := hv
  unfold IsPart
  rcases cases_of_mem_stringWrites hk with ⟨ht, hp⟩ | ⟨ht, hindexed⟩ | ⟨ht, e, he, rfl⟩ <;>
    dsimp only at ht <;> rw [ht]
  · exact .inl ⟨hp, rfl⟩
  · exact .inr hindexed
  · exact .inr ⟨e.1, hkeys e he, rfl⟩

theorem not_isPart_of_mem_paramPatterns (hk : k ∈ paramPatterns x) : ¬ IsPart type x k := by
  intro hpart
  cases type with
  | string => exact hpart
  | array =>
    obtain ⟨pattern, hp, i, rfl⟩ := hpart
    exact not_indexed_mem_paramPatterns hp i hk
  | object =>
    obtain ⟨key, -, rfl⟩ := hpart
    exact objectIndividualVariable_not_mem_paramPatterns x key hk

theorem mem_paramPatterns_stringWrites (hv : IsValue type v) (hk : k ∈ paramPatterns x) :
    k ∈ (stringWrites ⟨x, v⟩).map (·.1) ↔ type = .string := by
  constructor
  · intro h
    rcases mem_keys_stringWrites hv h with ⟨-, ht⟩ | hpart
    · exact ht
    · exact absurd hpart (not_isPart_of_mem_paramPatterns hk)
  · rintro rfl
    simpa [stringWrites, hv.1] using hk

theorem mem_keys_arrayWrites (hv : IsValue type v) :
    k ∈ (arrayWrites ⟨x, v⟩).map (·.1) ↔ k ∈ paramPatterns x ∧ type = .array := by
  obtain ⟨rfl, -⟩ := hv
  unfold arrayWrites
  cases ht : v.type <;> simp

theorem mem_keys_objectWrites (hv : IsValue type v) :
    k ∈ (objectWrites ⟨x, v⟩).map (·.1) ↔ k ∈ paramPatterns x ∧ type = .object := by
  obtain ⟨rfl, -⟩ := hv
  unfold objectWrites
  cases ht : v.type <;> simp

theorem flatMap_outer {κ ν : Type} (writes : Param → List (κ × ν)) :
    (outer before after x v).flatMap writes =
      before.flatMap writes ++ writes ⟨x, v⟩ ++ after.flatMap writes := by
  simp [outer]

theorem isSome_lookup_outer {ν : Type} {writes : Param → List (String × ν)}
    (hkeys : k ∈ (writes ⟨x, v⟩).map (·.1) ↔ k ∈ (writes ⟨x, v'⟩).map (·.1)) :
    ((Table.puts [] ((outer before after x v).flatMap writes)).lookup k).isSome =
      ((Table.puts [] ((outer before after x v').flatMap writes)).lookup k).isSome := by
  rw [Bool.eq_iff_iff, lookup_isSome, lookup_isSome, mem_keys_puts,
    mem_keys_puts, flatMap_outer, flatMap_outer]
  simp [hkeys]

open Classical in
theorem related_outer (before after : Params) (x : String) (hv : IsValue type v)
    (hv' : IsValue type v') : Related (fun k => k ∈ paramPatterns x) (fun k => IsPart type x k)
      (replacementsOf (outer before after x v)) (replacementsOf (outer before after x v')) := by
  have hstrings : ∀ {w}, IsValue type w → ∀ e ∈ stringWrites ⟨x, w⟩,
      (decide (e.1 ∈ paramPatterns x) || decide (IsPart type x e.1)) = true := by
    intro w hw e he
    rw [Bool.or_eq_true, decide_eq_true_eq, decide_eq_true_eq]
    exact (mem_keys_stringWrites hw (mem_map_of_mem he)).imp_left And.left
  have harrays : ∀ {w}, IsValue type w → ∀ e ∈ arrayWrites ⟨x, w⟩,
      decide (e.1 ∈ paramPatterns x) = true := fun hw e he =>
    decide_eq_true ((mem_keys_arrayWrites hw).mp (mem_map_of_mem he)).1
  have hobjects : ∀ {w}, IsValue type w → ∀ e ∈ objectWrites ⟨x, w⟩,
      decide (e.1 ∈ paramPatterns x) = true := fun hw e he =>
    decide_eq_true ((mem_keys_objectWrites hw).mp (mem_map_of_mem he)).1
  unfold replacementsOf
  constructor
  · dsimp only
    rw [flatMap_outer, flatMap_outer]
    exact agreeOff_puts (hstrings hv) (hstrings hv') _ _ _
  · dsimp only
    rw [flatMap_outer, flatMap_outer]
    exact agreeOff_puts (harrays hv) (harrays hv') _ _ _
  · dsimp only
    rw [flatMap_outer, flatMap_outer]
    exact agreeOff_puts (hobjects hv) (hobjects hv') _ _ _
  · intro k hk
    have hk' := of_decide_eq_true hk
    refine isSome_lookup_outer ?_
    rw [mem_paramPatterns_stringWrites hv hk', mem_paramPatterns_stringWrites hv' hk']
  · intro k _
    refine isSome_lookup_outer ?_
    rw [mem_keys_arrayWrites hv, mem_keys_arrayWrites hv']
  · intro k _
    refine isSome_lookup_outer ?_
    rw [mem_keys_objectWrites hv, mem_keys_objectWrites hv']

end

/-- The parts of the pipeline's value that no value of the task takes the place of. -/
def Leaks (type : ParamType) (x : String) (ps : Params) (k : String) : Prop :=
  IsPart type x k ∧
    ¬ (type = .object ∧
      ∃ q ∈ ps, q.name = x ∧ ∃ key ∈ q.value.objectVal.map (·.1),
        k = objectIndividualVariable x key)

def propagated (before after : Params) (x : String) (t : PipelineTask) (v : ParamValue) :
    Option TaskSpec :=
  (propagateParams t (replacementsOf (outer before after x v))).taskSpec

/-- The embedded task does not depend on the pipeline's value. -/
def Shadowed (type : ParamType) (before after : Params) (x : String) (t : PipelineTask) : Prop :=
  ∀ v v', IsValue type v → IsValue type v' →
    propagated before after x t v = propagated before after x t v'

def inScope (before after : Params) (x : String) (t : PipelineTask) (v : ParamValue) :
    Replacements :=
  scopeParams (replacementsOf (outer before after x v)) t.params

def specSites (type : ParamType) (before after : Params) (x : String) (t : PipelineTask) :
    List Site :=
  let r := inScope before after x t { type := type }
  t.taskSpec.toList.flatMap (TaskSpec.sites r.arrays r.objects)

def NamesNoPart (type : ParamType) (before after : Params) (x : String) (t : PipelineTask) : Prop :=
  ∀ site ∈ specSites type before after x t, ∀ k, Leaks type x t.params k → ¬ site.Names k

section
variable {type : ParamType} {x : String} {v v' : ParamValue} {before after : Params}
  {t : PipelineTask}

theorem isValue_empty (type : ParamType) : IsValue type { type := type } :=
  ⟨rfl, fun _ he => absurd he not_mem_nil⟩

theorem rewrittenBy_of_mem (before after : Params) (hv : IsValue .object v) {q : Param}
    (hq : q ∈ t.params) (hname : q.name = x) {key : String}
    (hkey : key ∈ q.value.objectVal.map (·.1)) :
    rewrittenBy (replacementsOf (outer before after x v)) t.params
      (objectIndividualVariable x key) = true := by
  subst hname
  have hpattern : "params." ++ q.name ∈ paramPatterns q.name := mem_cons_self
  have hpresent : ((replacementsOf (outer before after q.name v)).objects.lookup
      ("params." ++ q.name)).isSome = true := by
    rw [lookup_isSome, replacementsOf, mem_keys_puts, flatMap_outer]
    have hself := (mem_keys_objectWrites hv).mpr ⟨hpattern, rfl⟩
    simp only [map_append, mem_append]
    exact .inl (.inl (.inr hself))
  have hwritten : objectIndividualVariable q.name key ∈
      (objectKeyWrites q.name q.value.objectVal).map (·.1) := by
    obtain ⟨e, he, rfl⟩ := mem_map.mp hkey
    exact mem_map.mpr ⟨_, mem_map.mpr ⟨e, mem_reverse.mpr he, rfl⟩, rfl⟩
  refine any_eq_true.mpr ⟨q, hq, any_eq_true.mpr ⟨_, hpattern, ?_⟩⟩
  simp [rewritten, hpresent, hwritten]

open Classical in
/-- In the scope of a task that binds `x`, only the strings depend on the pipeline's value,
and only at the parts the task has no value for. -/
theorem inScope_related (before after : Params) (hx : ∃ q ∈ t.params, q.name = x)
    (hv : IsValue type v) (hv' : IsValue type v') :
    Table.AgreeOff (fun k => Leaks type x t.params k) (inScope before after x t v).strings
        (inScope before after x t v').strings ∧
      (inScope before after x t v).arrays = (inScope before after x t v').arrays ∧
      (inScope before after x t v).objects = (inScope before after x t v').objects := by
  have h := (related_outer before after x hv hv').scopeParams t.params
  have hnone : ∀ k, (decide (k ∈ paramPatterns x) &&
      t.params.all fun par => decide (k ∉ paramPatterns par.name)) = false := by
    intro k
    obtain ⟨q, hq, rfl⟩ := hx
    rw [Bool.and_eq_false_iff]
    by_cases hk : k ∈ paramPatterns q.name
    · right
      rw [all_eq_false]
      exact ⟨q, hq, by simpa using hk⟩
    · left
      simpa using hk
  have h' := h.congr hnone fun k => rfl
  refine ⟨h'.strings.mono fun k hk => ?_, agreeOff_none.mp h'.arrays, agreeOff_none.mp h'.objects⟩
  simp only [Bool.false_or, Bool.and_eq_true, decide_eq_true_eq, Bool.not_eq_true'] at hk
  refine decide_eq_true ⟨hk.1, ?_⟩
  intro ⟨htype, q, hq, hname, key, hkey, hk'⟩
  subst htype hk'
  have hrewritten := rewrittenBy_of_mem before after hv hq hname hkey
  rw [hrewritten] at hk
  cases hk.2

theorem propagated_eq (before after : Params) (x : String) (t : PipelineTask) (v : ParamValue) :
    propagated before after x t v =
      t.taskSpec.map (TaskSpec.applyReplacements (inScope before after x t v)) := rfl

theorem propagated_eq_iff (hx : ∃ q ∈ t.params, q.name = x) (hv : IsValue type v)
    (hv' : IsValue type v') : propagated before after x t v = propagated before after x t v' ↔
      Agree (inScope before after x t v).strings (inScope before after x t v').strings
        (specSites type before after x t) := by
  have hbase : ∀ {w}, IsValue type w → inScope before after x t w =
      ⟨(inScope before after x t w).strings,
        (inScope before after x t { type := type }).arrays,
        (inScope before after x t { type := type }).objects⟩ := by
    intro w hw
    obtain ⟨-, harrays, hobjects⟩ :=
      inScope_related before after hx hw (isValue_empty type)
    rw [← harrays, ← hobjects]
  rw [propagated_eq, propagated_eq, Tasks.map_eq_map_iff, specSites, agree_flatMap, hbase hv,
    hbase hv']
  exact forall₂_congr fun ts _ => ts.applyReplacements_eq_iff

theorem shadowed_of_namesNoPart (hx : ∃ q ∈ t.params, q.name = x)
    (h : NamesNoPart type before after x t) : Shadowed type before after x t := by
  classical
  intro v v' hv hv'
  rw [propagated_eq_iff hx hv hv']
  refine agree_of_agreeOff (fun site hsite k hk => ?_) (inScope_related before after hx hv hv').1
  exact decide_eq_false fun hleak => h site hsite k hleak hk

end

/-- Names and keys that can be told apart in a key of the tables, and no later parameter of the
name. -/
structure Clean (before after : Params) (x : String) (ps : Params) : Prop where
  name : IsName x
  names : ∀ q ∈ before ++ after ++ ps, IsName q.name
  keys : ∀ q ∈ before ++ after ++ ps, ∀ e ∈ q.value.objectVal, ∀ c ∈ e.1.toList,
    isVarChar c = true
  last : ∀ q ∈ after, q.name ≠ x

variable {s : String}

section
variable {type : ParamType} {x k : String} {v : ParamValue} {before after : Params}
  {t : PipelineTask}

theorem IsPart.ownerOf (hk : IsPart type x k) (hx : IsName x) : ownerOf k.toList = x.toList := by
  cases type with
  | string => exact hk.elim
  | array =>
    obtain ⟨pattern, hp, i, rfl⟩ := hk
    exact hx.ownerOf_indexed hp i
  | object =>
    obtain ⟨key, -, rfl⟩ := hk
    exact hx.ownerOf_key key

theorem indexed_ne_objectIndividualVariable (hp : pattern ∈ paramPatterns x) (i : Nat)
    (key : String) : indexed pattern i ≠ objectIndividualVariable x key := by
  simp only [paramPatterns, mem_cons, not_mem_nil, or_false] at hp
  rcases hp with rfl | rfl | rfl <;>
    simp [indexed, objectIndividualVariable, ← String.toList_inj]

theorem Leaks.kept (hk : Leaks type x t.params k) (hclean : Clean before after x t.params)
    {par : Param} (hpar : par ∈ t.params) : k ∉ paramPatterns par.name ∧
      k ∉ (objectKeyWrites par.name par.value.objectVal).map (·.1) := by
  have hname := hclean.names par (mem_append_right _ hpar)
  by_cases heq : par.name = x
  · refine ⟨?_, fun hmem => ?_⟩
    · rw [heq]
      exact fun hmem => not_isPart_of_mem_paramPatterns hmem hk.1
    · obtain ⟨e, he, rfl⟩ := mem_objectKeyWrites.mp hmem
      rw [heq] at hk
      cases type with
      | string => exact hk.1
      | array =>
        obtain ⟨pattern, hp, i, hi⟩ := hk.1
        exact indexed_ne_objectIndividualVariable hp i e.1 hi.symm
      | object => exact hk.2 ⟨rfl, par, hpar, heq, e.1, mem_map_of_mem he, rfl⟩
  · have howner := hk.1.ownerOf hclean.name
    refine ⟨fun hmem => heq ?_, fun hmem => heq ?_⟩
    · exact String.toList_inj.mp ((hname.ownerOf_pattern hmem).symm.trans howner)
    · obtain ⟨e, -, rfl⟩ := mem_objectKeyWrites.mp hmem
      exact String.toList_inj.mp ((hname.ownerOf_key e.1).symm.trans howner)

theorem lookup_inScope (hclean : Clean before after x t.params) (hk : Leaks type x t.params k)
    {w : String} (hw : (stringWrites ⟨x, v⟩).reverse.lookup k = some w) :
    (inScope before after x t v).strings.lookup k = some w := by
  have hafter : k ∉ (after.flatMap stringWrites).map (·.1) := by
    intro hmem
    rw [map_flatMap, mem_flatMap] at hmem
    obtain ⟨q, hq, hkq⟩ := hmem
    have hname := hclean.names q (mem_append_left _ (mem_append_right _ hq))
    refine hclean.last q hq (String.toList_inj.mp ?_)
    exact (ownerOf_stringWrites hname hkq).symm.trans (hk.1.ownerOf hclean.name)
  rw [inScope, scopeParams_lookup fun par hpar => hk.kept hclean hpar, replacementsOf]
  dsimp only
  rw [flatMap_outer, puts_append, lookup_puts_of_not_mem hafter, puts_append, lookup_puts, hw]
  rfl

theorem plain_inScope (hclean : Clean before after x t.params) (hv : ∀ e ∈ v.objectVal, Plain e.1) :
    ∀ k ∈ (inScope before after x t v).strings.map (·.1), Plain k := by
  have hplain : ∀ q ∈ before ++ after ++ t.params, PlainParam q := fun q hq =>
    ⟨(hclean.names q hq).plain, fun e he => plain_of_isVarChar (hclean.keys q hq e he)⟩
  refine plain_scopeParams (plain_replacementsOf fun q hq => ?_) fun q hq =>
    hplain q (mem_append_right _ hq)
  unfold outer at hq
  rw [mem_append, mem_cons] at hq
  rcases hq with hq | rfl | hq
  · exact hplain q (mem_append_left _ (mem_append_left _ hq))
  · exact ⟨hclean.name.plain, hv⟩
  · exact hplain q (mem_append_left _ (mem_append_right _ hq))

theorem mem_keys_inScope (before after : Params) (t : PipelineTask)
    (hk : k ∈ (stringWrites ⟨x, v⟩).map (·.1)) :
    k ∈ (inScope before after x t v).strings.map (·.1) := by
  refine mem_keys_scopeParams.1 (mem_keys_puts.mpr (.inl ?_))
  rw [flatMap_outer, map_append, map_append, mem_append, mem_append]
  exact .inl (.inr hk)

def filledArray (n : Nat) (w : String) : ParamValue :=
  { type := .array, arrayVal := List.replicate n w }

def filledObject (keys : List String) (w : String) : ParamValue :=
  { type := .object, objectVal := keys.map fun key => (key, w) }

variable {i : Nat}

theorem lookup_filledArray (hp : pattern ∈ paramPatterns x) {n : Nat} (hi : i < n) (w : String) :
    (stringWrites ⟨x, filledArray n w⟩).reverse.lookup (indexed pattern i) = some w := by
  refine lookup_of_const (fun v hv => ?_) ?_
  · simp only [stringWrites, filledArray, mem_reverse, mem_flatMap, mem_map] at hv
    obtain ⟨pattern, -, a, ha, heq⟩ := hv
    rw [← (Prod.mk.inj heq).2]
    exact eq_of_mem_replicate (fst_mem_of_mem_zipIdx ha)
  · rw [map_reverse, mem_reverse, stringWrites, filledArray, map_flatMap, mem_flatMap]
    refine ⟨pattern, hp, ?_⟩
    rw [map_map, mem_map]
    refine ⟨(w, i), ?_, rfl⟩
    rw [mk_mem_zipIdx_iff_getElem?, getElem?_replicate, if_pos hi]

theorem mem_keys_filledObject {keys : List String} {key : String} (hkey : key ∈ keys)
    (w : String) : objectIndividualVariable x key ∈
      (stringWrites ⟨x, filledObject keys w⟩).map (·.1) := by
  simp only [stringWrites, filledObject, objectKeyWrites, map_map, mem_map,
    mem_reverse, Function.comp_apply]
  exact ⟨(key, w), ⟨key, hkey, rfl⟩, rfl⟩

theorem lookup_filledObject {keys : List String} {key : String} (hkey : key ∈ keys)
    (w : String) : (stringWrites ⟨x, filledObject keys w⟩).reverse.lookup
      (objectIndividualVariable x key) = some w := by
  refine lookup_of_const (fun v hv => ?_) ?_
  · simp only [stringWrites, filledObject, objectKeyWrites, mem_reverse, mem_map] at hv
    obtain ⟨a, ⟨key, -, rfl⟩, heq⟩ := hv
    exact (Prod.mk.inj heq).2.symm
  · rw [map_reverse, mem_reverse]
    exact mem_keys_filledObject hkey w

theorem isValue_filledObject {keys : List String} (hkeys : ∀ key ∈ keys, Plain key)
    (w : String) : IsValue .object (filledObject keys w) := by
  refine ⟨rfl, fun e he => ?_⟩
  obtain ⟨key, hkey, rfl⟩ := mem_map.mp he
  exact hkeys key hkey

theorem indexed_ne_append_star (pattern : String) (i : Nat) (s : String) :
    indexed pattern i ≠ s ++ "[*]" := by
  intro h
  have hlist := congrArg String.toList h
  rw [toList_indexed, String.toList_append, ← cons_append, ← append_assoc,
    show "[*]".toList = ['[', '*'] ++ [']'] from rfl, ← append_assoc] at hlist
  have hinit := append_cancel_right hlist
  have hlast : ('[' :: (toString i).toList).getLast? = some '*' := by
    have hboth := congrArg List.getLast? hinit
    simpa [getLast?_append] using hboth
  rcases mem_cons.mp (mem_of_getLast? hlast) with heq | hmem
  · cases heq
  · exact absurd (Text.isDigit_of_mem_toString hmem) (by decide)

/-- A parameter that depends on an element is one reference to it: the reference has one index,
and that is a number. -/
theorem names_whole_indexed {exact : isExactVariableSubstitution s = true}
    (h : (Site.whole s exact).Names (indexed pattern i)) :
    s = "$(" ++ indexed pattern i ++ ")" ∧ stripStarVarSubExpression s = indexed pattern i := by
  obtain ⟨v, hs, hv, hk, hstrip⟩ := Site.names_whole h
  have hvk : v = indexed pattern i := by
    refine hk.resolve_right fun h => ?_
    have hcount := hv.count_bracket
    rw [h, String.toList_append, toList_indexed] at hcount
    simp at hcount
    omega
  refine ⟨hvk ▸ hs, ?_⟩
  rcases hstrip with h | h
  · rw [← h, hvk]
  · exact absurd (hvk ▸ h) (indexed_ne_append_star pattern i _)

variable {site : Site}

theorem occurs_of_names (h : site.Names (indexed pattern i)) :
    Occurs (indexed pattern i) site.source := by
  cases site with
  | text s => exact h
  | whole s exact =>
    rw [Site.source, (names_whole_indexed h).1]
    exact infix_refl _

theorem site_reads_array (hsite : site.Names (indexed pattern i)) {S : List (String × String)}
    {w : String} (hS : ∀ k ∈ S.map (·.1), Plain k) (hk : Plain (indexed pattern i))
    (hw : S.lookup (indexed pattern i) = some w) : w.length ≤ (site.apply S).length := by
  cases site with
  | text s => exact length_le_applyReplacements hS hk hsite hw
  | whole s exact =>
    have hlen := length_le_applyReplacements hS hk (occurs_of_names hsite) hw
    simpa [Site.apply, Site.source, (names_whole_indexed hsite).2, hw] using hlen

/-- A key without the star behind it. -/
def unstarred (key : String) : String := String.ofList (Text.trimSuffix "[*]".toList key.toList)

theorem unstarred_append_star (s : String) : unstarred (s ++ "[*]") = s := by
  rw [unstarred, String.toList_append, Text.trimSuffix_append, String.ofList_toList]

theorem plain_unstarred {key : String} (h : Plain key) : Plain (unstarred key) := by
  refine plain_iff.mpr fun c hc => plain_iff.mp h c ?_
  rw [unstarred, String.toList_ofList, Text.trimSuffix] at hc
  split at hc
  · exact mem_of_mem_take hc
  · exact hc

theorem objectIndividualVariable_star {key : String}
    (h : objectIndividualVariable x key = s ++ "[*]") :
    s = objectIndividualVariable x (unstarred key) := by
  have hlist := congrArg String.toList h
  rw [toList_objectIndividualVariable, String.toList_append, ← singleton_append,
    ← append_assoc, ← append_assoc] at hlist
  rcases append_eq_append_iff.mp hlist with ⟨a, hs, hkey⟩ | ⟨c, hpre, hkey⟩
  · have hk : key = String.ofList a ++ "[*]" := by
      rw [← String.toList_inj, hkey]
      simp
    rw [hk, unstarred_append_star, ← String.toList_inj, hs, toList_objectIndividualVariable]
    simp
  · rcases eq_nil_or_concat c with rfl | ⟨c, d, rfl⟩
    · have hk : key = "" ++ "[*]" := by
        rw [← String.toList_inj]
        simpa using hkey.symm
      rw [hk, unstarred_append_star, ← String.toList_inj, toList_objectIndividualVariable]
      simpa using hpre.symm
    · rw [concat_eq_append, ← append_assoc] at hpre
      obtain rfl : '.' = d := singleton_inj.mp (append_inj_right' hpre rfl)
      have hmem : '.' ∈ "[*]".toList := by
        rw [hkey]
        simp
      exact absurd hmem (by decide)

/-- A site that names a key of an object depends on it, or on the key with a star behind it,
as long as the table has the key without the star. -/
theorem site_reads_object {key : String} (hx : IsName x) (hkey : Plain key)
    (hsite : site.Names (objectIndividualVariable x key)) :
    ∃ key', (key' = key ∨ key' = key ++ "[*]") ∧ ∀ (S : List (String × String)) (w : String),
      (∀ k ∈ S.map (·.1), Plain k) → S.lookup (objectIndividualVariable x key') = some w →
        objectIndividualVariable x (unstarred key') ∈ S.map (·.1) →
          w.length ≤ (site.apply S).length := by
  cases site with
  | text s =>
    exact ⟨key, .inl rfl, fun S w hS hw _ =>
      length_le_applyReplacements hS (plain_key hx.plain hkey) hsite hw⟩
  | whole s exact =>
    obtain ⟨v, hs, hv, hk, hstrip⟩ := Site.names_whole hsite
    obtain ⟨key', hkey', hvk⟩ : ∃ key', (key' = key ∨ key' = key ++ "[*]") ∧
        v = objectIndividualVariable x key' := by
      rcases hk with h | h
      · exact ⟨key, .inl rfl, h⟩
      · refine ⟨key ++ "[*]", .inr rfl, ?_⟩
        rw [h, objectIndividualVariable, objectIndividualVariable, String.append_assoc]
    refine ⟨key', hkey', fun S w hS hw hunstarred => ?_⟩
    have hsome : (S.lookup (stripStarVarSubExpression s)).isSome = true := by
      rcases hstrip with h | h
      · rw [← h, hvk, hw]
        rfl
      · have hself := objectIndividualVariable_star (hvk.symm.trans h)
        rw [hself]
        exact lookup_isSome.mpr hunstarred
    have hocc : Occurs (objectIndividualVariable x key') s := by
      rw [hs, hvk]
      exact infix_refl _
    have hlen := length_le_applyReplacements hS (hvk ▸ hv.plain) hocc hw
    simpa [Site.apply, hsome] using hlen

theorem exists_longer (hclean : Clean before after x t.params) (hsite : site.Names k)
    (hk : Leaks type x t.params k) : ∃ value : String → ParamValue, ∀ w, IsValue type (value w) ∧
      w.length ≤ (site.apply (inScope before after x t (value w)).strings).length := by
  cases type with
  | string => exact hk.1.elim
  | array =>
    obtain ⟨pattern, hp, i, rfl⟩ := hk.1
    refine ⟨filledArray (i + 1), fun w => ?_⟩
    have hvalue : IsValue .array (filledArray (i + 1) w) :=
      ⟨rfl, fun e he => absurd he not_mem_nil⟩
    refine ⟨hvalue, site_reads_array hsite (plain_inScope hclean hvalue.2)
      (plain_indexed hclean.name.plain hp i) ?_⟩
    exact lookup_inScope hclean hk (lookup_filledArray hp (Nat.lt_succ_self i) w)
  | object =>
    obtain ⟨key, hkey, rfl⟩ := hk.1
    obtain ⟨key', hkey', hreads⟩ := site_reads_object hclean.name hkey hsite
    have hplain : Plain key' := by
      rcases hkey' with rfl | rfl
      · exact hkey
      · exact plain_append.mpr ⟨hkey, ⟨by decide, by decide⟩⟩
    have hleaks : Leaks .object x t.params (objectIndividualVariable x key') := by
      refine ⟨⟨key', hplain, rfl⟩, ?_⟩
      rintro ⟨-, q, hq, hname, inner, hinner, heq⟩
      obtain rfl := objectIndividualVariable_injective heq
      rcases hkey' with rfl | hstar
      · exact hk.2 ⟨rfl, q, hq, hname, key', hinner, rfl⟩
      · -- the task's keys have no bracket in them
        obtain ⟨e, he, rfl⟩ := mem_map.mp hinner
        have hchars := hclean.keys q (mem_append_right _ hq) e he
        refine (bracket_not_mem hchars).1 ?_
        rw [hstar]
        simp
    refine ⟨filledObject [key', unstarred key'], fun w => ?_⟩
    have hvalue : IsValue .object (filledObject [key', unstarred key'] w) := by
      refine isValue_filledObject (fun a ha => ?_) w
      rcases mem_cons.mp ha with rfl | ha
      · exact hplain
      · rw [mem_singleton.mp ha]
        exact plain_unstarred hplain
    refine ⟨hvalue, hreads _ w (plain_inScope hclean hvalue.2) ?_ ?_⟩
    · exact lookup_inScope hclean hleaks (lookup_filledObject mem_cons_self w)
    · exact mem_keys_inScope before after t
        (mem_keys_filledObject (mem_cons_of_mem _ mem_cons_self) w)

/-- The task's parameter hides the pipeline's exactly where nothing in the embedded task names
a part of a value, an element of an array or a key of an object, that the task's own value does
not have. -/
theorem shadowed_iff (hx : ∃ q ∈ t.params, q.name = x) :
    (NamesNoPart type before after x t → Shadowed type before after x t) ∧
      (Clean before after x t.params → Shadowed type before after x t →
        NamesNoPart type before after x t) := by
  refine ⟨shadowed_of_namesNoPart hx, fun hclean hshadowed site hsite k hleaks hnames => ?_⟩
  obtain ⟨value, hvalue⟩ := exists_longer hclean hnames hleaks
  obtain ⟨w, hw⟩ := Text.exists_ne_of_length_le fun w => (hvalue w).2
  have hagree := (propagated_eq_iff hx (hvalue w).1 (hvalue "").1).mp
    (hshadowed _ _ (hvalue w).1 (hvalue "").1)
  exact hw (hagree site hsite)

end

def flagged (step : Step) : PipelineTask :=
  { name := "build"
    params := [⟨"flags", { type := .array, arrayVal := ["-v"] }⟩]
    taskSpec := some { steps := [step] } }

theorem not_names_of_no_dollar {k : String} (h : '$' ∉ s.toList) : ¬ (Site.text s).Names k := by
  intro hocc
  refine h (hocc.subset ?_)
  simp [reference]

/-- The whole array is the task's, whatever the pipeline's flags are. -/
theorem all_flags_shadowed :
    (∃ q ∈ (flagged { args := ["$(params.flags[*])"], script := "go build" }).params,
        q.name = "flags") ∧
      Shadowed .array [] [] "flags"
        (flagged { args := ["$(params.flags[*])"], script := "go build" }) := by
  have hx : ∃ q ∈ (flagged { args := ["$(params.flags[*])"], script := "go build" }).params,
      q.name = "flags" := ⟨_, mem_cons_self, rfl⟩
  refine ⟨hx, (shadowed_iff hx).1 fun site hsite k _ => ?_⟩
  have hsites : specSites .array [] [] "flags"
      (flagged { args := ["$(params.flags[*])"], script := "go build" }) =
        [.text "", .text "", .text "", .text "", .text "go build", .text ""] := by decide
  rw [hsites] at hsite
  have htext : ∃ s, site = .text s ∧ '$' ∉ s.toList := by
    simp only [mem_cons, not_mem_nil, or_false] at hsite
    rcases hsite with rfl | rfl | rfl | rfl | rfl | rfl <;> exact ⟨_, rfl, by decide⟩
  obtain ⟨s, rfl, hs⟩ := htext
  exact not_names_of_no_dollar hs

/-- The task has one flag; the second is the pipeline's. -/
theorem second_flag_leaks :
    propagated [] [] "flags" (flagged { script := "echo $(params.flags[0]) $(params.flags[1])" })
        { type := .array, arrayVal := ["-race", "-secret"] } =
      some { steps := [{ script := "echo -race -secret" }] } ∧
      ¬ Shadowed .array [] [] "flags"
        (flagged { script := "echo $(params.flags[0]) $(params.flags[1])" }) := by
  have hvalue : ∀ l, IsValue .array { type := .array, arrayVal := l } :=
    fun l => ⟨rfl, fun e he => absurd he not_mem_nil⟩
  refine ⟨by decide +kernel, fun h => ?_⟩
  have heq := h _ _ (hvalue ["-race", "-secret"]) (hvalue [])
  revert heq
  decide +kernel

end TektonPipeline.Parameters
