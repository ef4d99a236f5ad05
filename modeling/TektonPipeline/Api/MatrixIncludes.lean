import TektonPipeline.Api.MatrixCount
import Mathlib.Data.List.Sections
import Mathlib.Data.Multiset.Bind
import Mathlib.Data.String.Basic

/-! What becomes of the arrays and of the include entries of a matrix. An entry is laid over the
combinations it does not disagree with; whether it is added behind them is decided by another
test. -/

namespace TektonPipeline.Api
open List Assoc

/-! ## The arrays -/

def product (ps : Params) : List Combination :=
  (ps.map (·.value.arrayVal)).sections.map fun values => (ps.map (·.name)).zip values

theorem flatMap_swap {α β γ : Type} (l : List α) (m : List β) (f : α → β → List γ) :
    (l.flatMap fun a => m.flatMap (f a)).Perm (m.flatMap fun b => l.flatMap fun a => f a b) := by
  rw [← Multiset.coe_eq_coe]
  simp only [← Multiset.coe_bind]
  exact Multiset.bind_bind _ _

theorem product_cons (p : Param) (ps : Params) :
    product (p :: ps) = (product ps).flatMap fun d => p.value.arrayVal.map fun value =>
      (p.name, value) :: d := by
  simp [product, List.sections, map_flatMap, flatMap_map, Function.comp_def]

theorem foldl_choices_perm (ps : Params) (cs : List Combination) :
    (ps.foldl (fun cs p => p.value.arrayVal.flatMap fun value =>
      cs.map fun c => c ++ [(p.name, value)]) cs).Perm
      (cs.flatMap fun c => (product ps).map fun d => c ++ d) := by
  induction ps generalizing cs with
  | nil => simp [product, List.sections]
  | cons p ps ih =>
    rw [foldl_cons]
    refine (ih _).trans ?_
    have houter :
        ((p.value.arrayVal.flatMap fun value => cs.map fun c => c ++ [(p.name, value)]).flatMap
        fun c => (product ps).map fun d => c ++ d) =
        p.value.arrayVal.flatMap fun value => cs.flatMap fun c =>
          (product ps).map fun d => c ++ (p.name, value) :: d := by
      simp [flatMap_assoc, flatMap_map]
    rw [houter]
    refine (flatMap_swap _ _ _).trans (List.Perm.flatMap_left cs fun c _ => ?_)
    rw [product_cons, map_flatMap]
    simp only [map_eq_flatMap, flatMap_assoc, flatMap_singleton]
    exact flatMap_swap _ _ _

theorem choices_perm_product (ps : Params) : (choices ps).Perm (product ps) := by
  have h := foldl_choices_perm ps [[]]
  simpa [choices] using h

theorem map_fst_choices (ps : Params) : ∀ c ∈ choices ps, c.map (·.1) = ps.map (·.name) := by
  intro c hc
  obtain ⟨values, hvalues, rfl⟩ := mem_map.mp ((choices_perm_product ps).mem_iff.mp hc)
  have hlength := mem_sections_length hvalues
  rw [map_fst_zip]
  simpa using hlength.ge

/-! ## The combination of an entry -/

def IncludeParams.combination (i : IncludeParams) : Combination :=
  i.params.foldl (fun c p => c.set p.name p.value.stringVal) []

theorem getIncludeCombinations_eq_map (m : Matrix) :
    m.getIncludeCombinations = m.includes.map IncludeParams.combination := rfl

theorem IncludeParams.combination_eq (i : IncludeParams) :
    i.combination = Assoc.ofWrites i.entry := foldl_set_eq_ofWrites i.params

theorem nodup_combination (i : IncludeParams) : (i.combination.map (·.1)).Nodup := by
  rw [i.combination_eq]
  exact nodup_ofWrites _

theorem nodup_combinations (is : List IncludeParams) :
    ∀ e ∈ is.map IncludeParams.combination, (e.map (·.1)).Nodup := by
  intro e he
  obtain ⟨i, -, rfl⟩ := mem_map.mp he
  exact nodup_combination i

/-- The entry gives no parameter two values. -/
def IncludeParams.Consistent (i : IncludeParams) : Prop :=
  ∀ p ∈ i.params, ∀ q ∈ i.params, p.name = q.name → p.value.stringVal = q.value.stringVal

instance (i : IncludeParams) : Decidable i.Consistent :=
  inferInstanceAs (Decidable (∀ p ∈ i.params, ∀ q ∈ i.params, _ → _))

variable {i : IncludeParams} {x : String × String}

theorem mem_entry_of_mem_combination (h : x ∈ i.combination) : x ∈ i.entry := by
  have hlookup := lookup_of_mem (nodup_combination i) h
  rw [i.combination_eq, lookup_ofWrites] at hlookup
  exact mem_reverse.mp (mem_of_lookup hlookup)

theorem lookup_combination_ne_none (h : x ∈ i.entry) : ∃ value, (x.1, value) ∈ i.combination := by
  rw [i.combination_eq]
  cases hlookup : (Assoc.ofWrites i.entry).lookup x.1 with
  | some value => exact ⟨value, mem_of_lookup hlookup⟩
  | none =>
    rw [lookup_ofWrites, lookup_eq_none_iff] at hlookup
    exact absurd (hlookup x (mem_reverse.mpr h)) (by simp)

theorem IncludeParams.Consistent.mem_combination (h : i.Consistent) :
    x ∈ i.combination ↔ x ∈ i.entry := by
  refine ⟨mem_entry_of_mem_combination, fun hx => ?_⟩
  obtain ⟨value, hvalue⟩ := lookup_combination_ne_none hx
  obtain ⟨p, hp, heq⟩ := mem_map.mp (mem_entry_of_mem_combination hvalue)
  obtain ⟨q, hq, rfl⟩ := mem_map.mp hx
  obtain ⟨hname, rfl⟩ := Prod.mk.inj heq
  rw [h p hp q hq hname] at hvalue
  exact hvalue

theorem combination_ne_nil (h : i.params ≠ []) : i.combination ≠ [] := by
  obtain ⟨p, hp⟩ := exists_mem_of_ne_nil _ h
  obtain ⟨value, hvalue⟩ := lookup_combination_ne_none (i := i)
    (mem_map.mpr ⟨p, hp, rfl⟩)
  exact ne_nil_of_mem hvalue

/-! ## Where an entry is found again -/

section
variable {c : Combination} {laid added es pre post : List Combination} {e e' : Combination}
  {used : String × String → Bool}

theorem laidOver_append (c : Combination) (laid es es' : List Combination) :
    laidOver c laid (es ++ es') = laidOver c (laidOver c laid es) es' := by
  induction es generalizing laid with
  | nil => rfl
  | cons e es ih => exact ih _

theorem mem_laidOver (h : e ∈ laid) (es : List Combination) : e ∈ laidOver c laid es := by
  induction es generalizing laid with
  | nil => exact h
  | cons e' es ih =>
    refine ih ?_
    split
    · exact mem_append_left _ h
    · exact h

theorem addedEntries_append (used : String × String → Bool) (added es es' : List Combination) :
    addedEntries used added (es ++ es') = addedEntries used (addedEntries used added es) es' := by
  induction es generalizing added with
  | nil => rfl
  | cons e es ih => exact ih _

theorem mem_addedEntries (h : e ∈ added) (es : List Combination) :
    e ∈ addedEntries used added es := by
  induction es generalizing added with
  | nil => exact h
  | cons e' es ih =>
    refine ih ?_
    split
    · exact mem_append_left _ h
    · exact h

theorem fresh_of_mem_addedEntries (h : e ∈ addedEntries used added es) :
    e ∈ added ∨ e ∈ es ∧ ∀ x ∈ e, used x = false ∧ ∀ e' ∈ added, x ∉ e' := by
  induction es generalizing added with
  | nil => exact .inl h
  | cons e₁ es ih =>
    rw [addedEntries] at h
    by_cases hadds : addsCombination used added e₁ = true
    · rw [if_pos hadds] at h
      rcases ih h with hmem | ⟨hmem, hfresh⟩
      · rcases mem_append.mp hmem with hmem | hmem
        · exact .inl hmem
        · obtain rfl := mem_singleton.mp hmem
          refine .inr ⟨mem_cons_self, fun x hx => ?_⟩
          unfold addsCombination at hadds
          rw [Bool.and_eq_true, all_eq_true] at hadds
          simpa using hadds.2 x hx
      · refine .inr ⟨mem_cons_of_mem e₁ hmem, fun x hx => ⟨(hfresh x hx).1, fun e' he' => ?_⟩⟩
        exact (hfresh x hx).2 e' (mem_append_left _ he')
    · rw [if_neg hadds] at h
      rcases ih h with hmem | ⟨hmem, hfresh⟩
      · exact .inl hmem
      · exact .inr ⟨mem_cons_of_mem e₁ hmem, hfresh⟩

/-- The entries before `e` are `pre`. The entry agrees with a choice and with what is laid over
it before; or nothing of it is in use, nor in an entry added before; or all of it is in one
entry added before. -/
def Honoured (ps : Params) (es pre : List Combination) (e : Combination) : Prop :=
  (∃ c ∈ choices ps, takesEffect c (laidOver c [] pre) e = true) ∨
  addsCombination (inUseWith ps es) (addedEntries (inUseWith ps es) [] pre) e = true ∨
  ∃ e' ∈ addedEntries (inUseWith ps es) [] pre, ∀ x ∈ e, x ∈ e'

instance (ps : Params) (es pre : List Combination) (e : Combination) :
    Decidable (Honoured ps es pre e) :=
  inferInstanceAs (Decidable (_ ∨ _ ∨ _))

theorem found_iff_takesEffect (hes : ∀ d ∈ pre ++ e :: post, (d.map (·.1)).Nodup) :
    (∀ x ∈ e, ((pre ++ e :: post).foldl overwrite c).lookup x.1 = some x.2) ↔
      takesEffect c (laidOver c [] pre) e = true := by
  have hpre : ∀ e ∈ pre, (e.map (·.1)).Nodup := fun e he => hes e (mem_append_left _ he)
  constructor
  · intro hfound
    rw [← (overlay_self hpre c).contains_eq e]
    unfold Combination.contains
    rw [all_eq_true]
    intro x hx
    cases hlookup : (pre.foldl overwrite c).lookup x.1 with
    | none => rfl
    | some value =>
      -- what is there when the entry comes stays there
      have hself : Overlay (pre.foldl overwrite c) (laidOver (pre.foldl overwrite c) [] (e :: post))
          ((e :: post).foldl overwrite (pre.foldl overwrite c)) :=
        overlay_self (fun e' he' => hes e' (mem_append_right _ he')) _
      have hkept := hself.lookup x.1 value hlookup
      rw [← foldl_append, hfound x hx] at hkept
      simpa using (Option.some.inj hkept).symm
  · intro htakes x hx
    refine (overlay_self hes c).of_laid e ?_ x hx
    rw [laidOver_append, laidOver, if_pos htakes]
    exact mem_laidOver (mem_append_right _ mem_cons_self) post

theorem honoured_iff {ps : Params} (hes : ∀ d ∈ pre ++ e :: post, (d.map (·.1)).Nodup)
    (hne : e ≠ []) : (∃ d ∈ overwriteCombinations (choices ps) (pre ++ e :: post) ++
      addedEntries (inUseWith ps (pre ++ e :: post)) [] (pre ++ e :: post),
      ∀ x ∈ e, d.lookup x.1 = some x.2) ↔ Honoured ps (pre ++ e :: post) pre e := by
  generalize hused : inUseWith ps (pre ++ e :: post) = used
  have hnodup : ∀ d ∈ addedEntries used [] (pre ++ e :: post), (d.map (·.1)).Nodup := by
    intro d hd
    rcases fresh_of_mem_addedEntries hd with hd | hd
    · cases hd
    · exact hes d hd.1
  unfold Honoured
  rw [hused]
  constructor
  · rintro ⟨d, hd, hfound⟩
    rcases mem_append.mp hd with hd | hd
    · obtain ⟨c, hc, rfl⟩ := mem_map.mp hd
      exact .inl ⟨c, hc, (found_iff_takesEffect hes).mp hfound⟩
    · right
      by_cases hadds : addsCombination used (addedEntries used [] pre) e = true
      · exact .inl hadds
      have hin : ∀ x ∈ e, x ∈ d := fun x hx => mem_of_lookup (hfound x hx)
      rw [addedEntries_append, addedEntries, if_neg hadds] at hd
      rcases fresh_of_mem_addedEntries hd with hbefore | ⟨-, hfresh⟩
      · exact .inr ⟨d, hbefore, hin⟩
      · -- what kept `e` out would have kept `d` out
        refine absurd ?_ hadds
        unfold addsCombination
        rw [Bool.and_eq_true, all_eq_true]
        refine ⟨by simpa using hne, fun x hx => ?_⟩
        simpa using hfresh x (hin x hx)
  · rintro (⟨c, hc, htakes⟩ | hadds | ⟨d, hd, hin⟩)
    · refine ⟨(pre ++ e :: post).foldl overwrite c, mem_append_left _ ?_, ?_⟩
      · exact mem_map.mpr ⟨c, hc, rfl⟩
      · exact (found_iff_takesEffect hes).mpr htakes
    · refine ⟨e, mem_append_right _ ?_, fun x hx => ?_⟩
      · rw [addedEntries_append, addedEntries, if_pos hadds]
        exact mem_addedEntries (mem_append_right _ mem_cons_self) post
      · exact lookup_of_mem (hes e (by simp)) hx
    · have hmem : d ∈ addedEntries used [] (pre ++ e :: post) := by
        rw [addedEntries_append]
        exact mem_addedEntries hd _
      exact ⟨d, mem_append_right _ hmem, fun x hx =>
        lookup_of_mem (hnodup d hmem) (hin x hx)⟩

end

/-! ## The combinations that are returned -/

def restrict (names : List String) (ps : Params) : Params :=
  ps.filter fun p => decide (p.name ∈ names)

theorem mem_toParams {c : Combination} {name value : String} :
    (⟨name, { stringVal := value }⟩ : Param) ∈ c.toParams ↔ (name, value) ∈ c := by
  unfold Combination.toParams
  rw [mem_map]
  constructor
  · rintro ⟨e, he, heq⟩
    obtain ⟨k, v⟩ := e
    obtain ⟨rfl, hvalue⟩ := Param.mk.inj heq
    obtain rfl : v = value := congrArg ParamValue.stringVal hvalue
    exact (perm_insertionSort _ c).mem_iff.mp he
  · intro hmem
    exact ⟨(name, value), (perm_insertionSort _ c).mem_iff.mpr hmem, rfl⟩

theorem nodup_overwritten {c : Combination} (hc : (c.map (·.1)).Nodup) (es : List Combination) :
    ((es.foldl overwrite c).map (·.1)).Nodup := by
  induction es generalizing c with
  | nil => exact hc
  | cons e es ih =>
    refine ih ?_
    unfold overwrite
    split
    · simp only [Combination.set_eq_upsert]
      exact nodup_foldl_upsert hc
    · exact hc

theorem restrict_overwritten {c : Combination} {es : List Combination}
    (hc : (c.map (·.1)).Nodup) (hes : ∀ e ∈ es, (e.map (·.1)).Nodup) :
    restrict (c.map (·.1)) (es.foldl overwrite c).toParams = c.toParams := by
  have hd := nodup_overwritten hc es
  generalize hover : es.foldl overwrite c = d at hd
  have hlookup : ∀ name value, c.lookup name = some value → d.lookup name = some value :=
    hover ▸ (overlay_self hes c).lookup
  have hmem : ∀ x, x ∈ d.filter (fun x => decide (x.1 ∈ c.map (·.1))) ↔ x ∈ c := by
    intro x
    rw [mem_filter, decide_eq_true_eq]
    constructor
    · rintro ⟨hx, hname⟩
      obtain ⟨y, hy, hyx⟩ := mem_map.mp hname
      have hvalue := hlookup y.1 y.2 (lookup_of_mem hc hy)
      rw [hyx, lookup_of_mem hd hx] at hvalue
      have heq : x = y := Prod.ext hyx.symm (Option.some.inj hvalue)
      exact heq ▸ hy
    · intro hx
      exact ⟨mem_of_lookup (hlookup x.1 x.2 (lookup_of_mem hc hx)), mem_map_of_mem hx⟩
  have hsame : (d.insertionSort fun a b => a.1 ≤ b.1).filter (fun x => decide (x.1 ∈ c.map (·.1))) =
      c.insertionSort fun a b => a.1 ≤ b.1 := by
    have hsorted : ∀ l : Combination,
        (l.insertionSort fun a b => a.1 ≤ b.1).Pairwise fun a b => a.1 ≤ b.1 :=
      fun l => pairwise_insertionSort (fun a b : String × String => a.1 ≤ b.1) l
    refine List.Perm.eq_of_pairwise ?_ ((hsorted d).filter _) (hsorted c) ?_
    · intro x y hx hy hxy hyx
      have hx' := (hmem x).mp (((perm_insertionSort _ d).filter _).mem_iff.mp hx)
      have hy' := (perm_insertionSort _ c).mem_iff.mp hy
      exact inj_on_of_nodup_map hc hx' hy' (le_antisymm hxy hyx)
    · refine ((perm_insertionSort _ d).filter _).trans
        (List.Perm.trans ?_ (perm_insertionSort _ c).symm)
      exact (perm_ext_iff_of_nodup (hd.of_map.filter _) hc.of_map).mpr hmem
  unfold restrict Combination.toParams
  rw [filter_map, ← hsame]
  rfl

theorem prod_length_eq (ps : Params) :
    (ps.map (·.value.arrayVal.length)).prod = (choices ps).length := by
  rw [length_choices, prod_eq_foldl, foldl_map]

variable {m : Matrix}

structure FanOutDocumented (m : Matrix) : Prop where
  arrays : ((m.fanOut.take (m.params.map (·.value.arrayVal.length)).prod).map
    (restrict (m.params.map (·.name)))).Perm ((product m.params).map Combination.toParams)
  includes : ∀ i ∈ m.includes, i.params ≠ [] → ∃ c ∈ m.fanOut, ∀ p ∈ i.params,
    (⟨p.name, { stringVal := p.value.stringVal }⟩ : Param) ∈ c

/-- The combinations of the arrays under the entries laid over them, and the added ones. -/
abbrev Matrix.allCombinations (m : Matrix) : List Combination :=
  overwriteCombinations (choices m.params) m.getIncludeCombinations ++
    addedEntries (inUseWith m.params m.getIncludeCombinations) [] m.getIncludeCombinations

section
variable (hparams : m.params ≠ []) (hnames : (m.params.map (·.name)).Nodup)
  (harrays : ∀ p ∈ m.params, p.value.arrayVal ≠ [])
include hparams hnames harrays

theorem fanOut_eq : m.fanOut = m.allCombinations.map Combination.toParams := by
  have hhas : m.hasParams = true := by simpa [Matrix.hasParams] using hparams
  have hes : ∀ e ∈ m.getIncludeCombinations, (e.map (·.1)).Nodup := nodup_combinations m.includes
  have hadded := addNewCombinations_eq (exists_overwritten hes m.params)
    (fun e he => absurd he not_mem_nil) hes
  rw [append_nil] at hadded
  unfold Matrix.fanOut
  simp [hhas, combinations_eq_choices hparams hnames harrays, hadded]

theorem fanOut_arrays :
    ((m.fanOut.take (m.params.map (·.value.arrayVal.length)).prod).map
      (restrict (m.params.map (·.name)))).Perm ((product m.params).map Combination.toParams) := by
  have hlength : (overwriteCombinations (choices m.params) m.getIncludeCombinations).length =
      (m.params.map (·.value.arrayVal.length)).prod := by
    rw [overwriteCombinations, length_map, prod_length_eq]
  have hchoice : ∀ c ∈ choices m.params,
      restrict (m.params.map (·.name)) (m.getIncludeCombinations.foldl overwrite c).toParams =
        c.toParams := by
    intro c hc
    have hkeys := map_fst_choices m.params c hc
    rw [← hkeys]
    exact restrict_overwritten (hkeys ▸ hnames) (nodup_combinations m.includes)
  have hmap : ((overwriteCombinations (choices m.params) m.getIncludeCombinations).map
      Combination.toParams).map (restrict (m.params.map (·.name))) =
        (choices m.params).map Combination.toParams := by
    rw [overwriteCombinations, map_map, map_map]
    exact map_congr_left hchoice
  rw [fanOut_eq hparams hnames harrays, ← map_take, take_left' hlength, hmap]
  exact (choices_perm_product m.params).map _

end

theorem mem_final_nodup (hnames : (m.params.map (·.name)).Nodup) {d : Combination}
    (hd : d ∈ m.allCombinations) : (d.map (·.1)).Nodup := by
  rcases mem_append.mp hd with hd | hd
  · obtain ⟨c, hc, rfl⟩ := mem_map.mp hd
    exact nodup_overwritten (map_fst_choices m.params c hc ▸ hnames) _
  · rcases fresh_of_mem_addedEntries hd with hd | hd
    · cases hd
    · exact nodup_combinations m.includes d hd.1

/-- The arrays are always multiplied as documented. An include entry is found again exactly if
it gives no parameter two values and is laid over a combination, or added, or part of one that
was added before. -/
theorem fanOut_documented_iff {m : Matrix} (hparams : m.params ≠ [])
    (hnames : (m.params.map (·.name)).Nodup) (harrays : ∀ p ∈ m.params, p.value.arrayVal ≠ []) :
    FanOutDocumented m ↔ ∀ pre i post, m.includes = pre ++ i :: post → i.params ≠ [] →
      i.Consistent ∧ Honoured m.params m.getIncludeCombinations
        (pre.map IncludeParams.combination) i.combination := by
  have hfound : ∀ i : IncludeParams, (∃ c ∈ m.fanOut, ∀ p ∈ i.params,
      (⟨p.name, { stringVal := p.value.stringVal }⟩ : Param) ∈ c) ↔ i.Consistent ∧
      ∃ d ∈ m.allCombinations, ∀ x ∈ i.combination, d.lookup x.1 = some x.2 := by
    intro i
    rw [fanOut_eq hparams hnames harrays]
    constructor
    · rintro ⟨c, hc, hin⟩
      obtain ⟨d, hd, rfl⟩ := mem_map.mp hc
      have hnodup := mem_final_nodup hnames hd
      have hlookup : ∀ p ∈ i.params, d.lookup p.name = some p.value.stringVal := fun p hp =>
        lookup_of_mem hnodup (mem_toParams.mp (hin p hp))
      refine ⟨fun p hp q hq hname => ?_, d, hd, fun x hx => ?_⟩
      · have hp' := hlookup p hp
        rw [hname, hlookup q hq] at hp'
        exact (Option.some.inj hp').symm
      · obtain ⟨p, hp, rfl⟩ := mem_map.mp (mem_entry_of_mem_combination hx)
        exact hlookup p hp
    · rintro ⟨hconsistent, d, hd, hlookup⟩
      refine ⟨d.toParams, mem_map_of_mem hd, fun p hp => mem_toParams.mpr ?_⟩
      have hx : (p.name, p.value.stringVal) ∈ i.combination :=
        hconsistent.mem_combination.mpr (mem_map.mpr ⟨p, hp, rfl⟩)
      exact mem_of_lookup (hlookup _ hx)
  have hentry : ∀ pre i post, m.includes = pre ++ i :: post → i.params ≠ [] →
      ((∃ d ∈ m.allCombinations, ∀ x ∈ i.combination, d.lookup x.1 = some x.2) ↔
      Honoured m.params m.getIncludeCombinations (pre.map IncludeParams.combination)
        i.combination) := by
    intro pre i post hsplit hi
    have hes : m.getIncludeCombinations = pre.map IncludeParams.combination ++
        i.combination :: post.map IncludeParams.combination := by
      rw [getIncludeCombinations_eq_map, hsplit, map_append, map_cons]
    rw [Matrix.allCombinations, hes]
    exact honoured_iff (hes ▸ nodup_combinations m.includes) (combination_ne_nil hi)
  constructor
  · rintro ⟨-, hincludes⟩ pre i post hsplit hi
    obtain ⟨hconsistent, hd⟩ := (hfound i).mp (hincludes i (by rw [hsplit]; simp) hi)
    exact ⟨hconsistent, (hentry pre i post hsplit hi).mp hd⟩
  · intro h
    refine ⟨fanOut_arrays hparams hnames harrays, fun i hi hne => ?_⟩
    obtain ⟨pre, post, hsplit⟩ := append_of_mem hi
    obtain ⟨hconsistent, hhonoured⟩ := h pre i post hsplit hne
    exact (hfound i).mpr ⟨hconsistent, (hentry pre i post hsplit hne).mpr hhonoured⟩

theorem archMatrix_documented :
    FanOutDocumented (archMatrix [[("arch", "arm64"), ("flags", "-v")]]) := by
  refine (fanOut_documented_iff (by decide) (by decide) (by decide)).mpr ?_
  intro pre i post hsplit _
  cases pre with
  | nil =>
    obtain ⟨rfl, -⟩ := List.cons.inj hsplit
    decide +kernel
  | cons j pre =>
    obtain ⟨-, hnil⟩ := List.cons.inj hsplit
    simp at hnil

/-- The entry has an architecture of the matrix with a version that it does not have: it is
laid over no combination, and is not added either. -/
theorem archMatrix_lost :
    ¬ FanOutDocumented (archMatrix [[("arch", "arm64"), ("version", "1.16")]]) := by
  intro h
  have hfound := h.includes ⟨"", [⟨"arch", { stringVal := "arm64" }⟩,
    ⟨"version", { stringVal := "1.16" }⟩]⟩ (by decide) (by decide)
  revert hfound
  decide +kernel

end TektonPipeline.Api
