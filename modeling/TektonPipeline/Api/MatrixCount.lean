import TektonPipeline.Api.PipelineTask
import TektonPipeline.Library.Assoc

/-! The combinations of a matrix and the count of them. `fanOut` lays the include entries over
the combinations of the arrays and adds an entry that none of its values is found for;
`countCombinations` looks at the values of one entry at a time. -/

namespace TektonPipeline.Api
open List Assoc

theorem Combination.set_eq_upsert (c : Combination) (name value : String) :
    c.set name value = Assoc.upsert c name (fun _ => value) value := by
  unfold Combination.set Assoc.upsert
  congr 1
  refine map_congr_left fun e _ => ?_
  by_cases he : e.1 = name <;> simp [he]

theorem Combination.lookup_set (c : Combination) (name value name' : String) :
    (c.set name value).lookup name' = if name' = name then some value else c.lookup name' := by
  rw [Combination.set_eq_upsert, lookup_upsert]
  cases c.lookup name <;> rfl

def IncludeParams.entry (i : IncludeParams) : Combination :=
  i.params.map fun p => (p.name, p.value.stringVal)

variable {c : Combination} {ps : Params}

theorem foldl_set_eq_ofWrites (ps : Params) :
    ps.foldl (fun (c : Combination) p => c.set p.name p.value.stringVal) [] =
      ofWrites (ps.map fun p => (p.name, p.value.stringVal)) := by
  rw [ofWrites, foldl_map]
  simp only [Combination.set_eq_upsert]

variable {m : Matrix}

theorem getIncludeCombinations_eq (h : ∀ i ∈ m.includes, (i.params.map (·.name)).Nodup) :
    m.getIncludeCombinations = m.includes.map IncludeParams.entry := by
  refine map_congr_left fun i hi => ?_
  rw [foldl_set_eq_ofWrites, ofWrites_of_nodup (by simpa [Function.comp_def] using h i hi)]
  rfl

/-- The entry takes effect on a combination: its parameters agree with the combination and
with the entries laid over it before. -/
def takesEffect (c : Combination) (laid : List Combination) (e : Combination) : Bool :=
  e.all fun x =>
    match c.lookup x.1 with
    | some value => value == x.2
    | none => laid.all fun e' => e'.all fun y => y.1 != x.1 || y.2 == x.2

def laidOver (c : Combination) (laid : List Combination) : List Combination → List Combination
  | [] => laid
  | e :: es => laidOver c (if takesEffect c laid e then laid ++ [e] else laid) es

def overwrite (c : Combination) (e : Combination) : Combination :=
  if c.contains e then e.foldl (fun c x => c.set x.1 x.2) c else c

/-- `d` is `c` with the entries of `laid` over it. -/
structure Overlay (c : Combination) (laid : List Combination) (d : Combination) : Prop where
  lookup : ∀ name value, c.lookup name = some value → d.lookup name = some value
  of_laid : ∀ e ∈ laid, ∀ x ∈ e, d.lookup x.1 = some x.2
  from_laid : ∀ name value, d.lookup name = some value →
    c.lookup name = some value ∨ ∃ e ∈ laid, (name, value) ∈ e

variable {d : Combination} {laid : List Combination}

theorem Overlay.lookup_iff (h : Overlay c laid d) (name value : String) :
    d.lookup name = some value ↔ c.lookup name = some value ∨
      (c.lookup name = none ∧ ∃ e ∈ laid, (name, value) ∈ e) := by
  constructor
  · intro hlookup
    cases hc : c.lookup name with
    | some value' =>
      rw [h.lookup name value' hc] at hlookup
      exact .inl hlookup
    | none =>
      rcases h.from_laid name value hlookup with hc' | hlaid
      · rw [hc] at hc'
        cases hc'
      · exact .inr ⟨rfl, hlaid⟩
  · rintro (hc | ⟨-, e, he, hx⟩)
    · exact h.lookup name value hc
    · exact h.of_laid e he (name, value) hx

theorem Overlay.contains_eq (h : Overlay c laid d) (e : Combination) :
    d.contains e = takesEffect c laid e := by
  unfold Combination.contains takesEffect
  refine all_congr rfl fun x => ?_
  cases hc : c.lookup x.1 with
  | some value => rw [h.lookup x.1 value hc]
  | none =>
    have hd := h.lookup_iff x.1
    simp only [hc, reduceCtorEq, false_or, true_and] at hd
    rw [Bool.eq_iff_iff]
    refine Iff.trans (b := ∀ value, d.lookup x.1 = some value → value = x.2) ?_ ?_
    · cases d.lookup x.1 <;> simp
    · simp only [hd, all_eq_true, Bool.or_eq_true, bne_iff_ne, beq_iff_eq]
      constructor
      · rintro hall e' he' ⟨name, value⟩ hy
        by_cases hname : name = x.1
        · exact .inr (hall value ⟨e', he', hname ▸ hy⟩)
        · exact .inl hname
      · rintro hall value ⟨e', he', hy⟩
        simpa using hall e' he' (x.1, value) hy

theorem lookup_foldl_set {e : Combination} (he : (e.map (·.1)).Nodup) (c : Combination)
    (name : String) :
    (e.foldl (fun c x => c.set x.1 x.2) c).lookup name = (e.lookup name).or (c.lookup name) := by
  induction e generalizing c with
  | nil => simp
  | cons x e ih =>
    obtain ⟨k, v⟩ := x
    rw [map_cons, nodup_cons] at he
    rw [foldl_cons, ih he.2, Combination.lookup_set, lookup_cons]
    by_cases hk : name = k
    · subst hk
      simp [lookup_of_not_mem he.1]
    · have hbeq : (name == k) = false := by simpa using hk
      simp [hk, hbeq]

theorem Overlay.overwrite (h : Overlay c laid d) {e : Combination} (he : (e.map (·.1)).Nodup) :
    Overlay c (if takesEffect c laid e then laid ++ [e] else laid) (overwrite d e) := by
  unfold Api.overwrite
  rw [← h.contains_eq e]
  by_cases hcontains : d.contains e = true
  · rw [if_pos hcontains, if_pos hcontains]
    -- the entry gives no parameter of `d` another value
    have hagree : ∀ name value, d.lookup name = some value →
        (e.foldl (fun c x => c.set x.1 x.2) d).lookup name = some value := by
      intro name value hd
      rw [lookup_foldl_set he]
      cases hlookup : e.lookup name with
      | none => simpa using hd
      | some value' =>
        have hmem := mem_of_lookup hlookup
        unfold Combination.contains at hcontains
        have hx := all_eq_true.mp hcontains (name, value') hmem
        simp only [hd, beq_iff_eq] at hx
        simp [hx]
    have hentry : ∀ x ∈ e, (e.foldl (fun c x => c.set x.1 x.2) d).lookup x.1 = some x.2 := by
      intro x hx
      rw [lookup_foldl_set he, lookup_of_mem he hx]
      rfl
    refine ⟨fun name value hc => hagree name value (h.lookup name value hc), ?_, ?_⟩
    · intro e' he' x hx
      rcases mem_append.mp he' with he' | he'
      · exact hagree x.1 x.2 (h.of_laid e' he' x hx)
      · obtain rfl := mem_singleton.mp he'
        exact hentry x hx
    · intro name value hlookup
      rw [lookup_foldl_set he] at hlookup
      cases hl : e.lookup name with
      | some value' =>
        rw [hl] at hlookup
        obtain rfl : value' = value := by simpa using hlookup
        exact .inr ⟨e, by simp, mem_of_lookup hl⟩
      | none =>
        rw [hl] at hlookup
        rcases h.from_laid name value (by simpa using hlookup) with hc | ⟨e', he', hx⟩
        · exact .inl hc
        · exact .inr ⟨e', mem_append_left _ he', hx⟩
  · rw [if_neg hcontains, if_neg hcontains]
    exact h

variable {es : List Combination}

section
variable (hes : ∀ e ∈ es, (e.map (·.1)).Nodup)
include hes

theorem overlay_foldl (h : Overlay c laid d) :
    Overlay c (laidOver c laid es) (es.foldl overwrite d) := by
  induction es generalizing d laid with
  | nil => exact h
  | cons e es ih =>
    rw [forall_mem_cons] at hes
    exact ih hes.2 (h.overwrite hes.1)

theorem overlay_self (c : Combination) : Overlay c (laidOver c [] es) (es.foldl overwrite c) :=
  overlay_foldl hes ⟨fun _ _ hc => hc, by simp, fun _ _ hc => .inl hc⟩

theorem lookup_overwritten (name value : String) :
    (es.foldl overwrite c).lookup name = some value ↔ c.lookup name = some value ∨
        (c.lookup name = none ∧ ∃ e ∈ laidOver c [] es, (name, value) ∈ e) :=
  (overlay_self hes c).lookup_iff name value

end

def choices (ps : Params) : List Combination :=
  ps.foldl (fun cs p =>
      p.value.arrayVal.flatMap fun value => cs.map fun c => c ++ [(p.name, value)])
    [[]]

theorem length_choices (ps : Params) :
    (choices ps).length = ps.foldl (fun count p => count * p.value.arrayVal.length) 1 := by
  have h : ∀ cs : List Combination,
      (ps.foldl (fun cs p => p.value.arrayVal.flatMap fun value =>
        cs.map fun c => c ++ [(p.name, value)]) cs).length =
      ps.foldl (fun count p => count * p.value.arrayVal.length) cs.length := by
    induction ps with
    | nil => exact fun _ => rfl
    | cons p ps ih =>
      intro cs
      have hlength : (p.value.arrayVal.flatMap fun value =>
          cs.map fun c => c ++ [(p.name, value)]).length = cs.length * p.value.arrayVal.length := by
        induction p.value.arrayVal with
        | nil => rfl
        | cons value values ih =>
          rw [flatMap_cons, length_append, length_map, ih, length_cons, Nat.mul_succ, Nat.add_comm]
      rw [foldl_cons, ih, foldl_cons, hlength]
  exact h [[]]

variable {cs : List Combination}

theorem foldl_fanOutMatrixParams (hcs : cs ≠ []) (hnames : (ps.map (·.name)).Nodup)
    (harrays : ∀ p ∈ ps, p.value.arrayVal ≠ [])
    (hfresh : ∀ c ∈ cs, ∀ p ∈ ps, p.name ∉ c.map (·.1)) :
    ps.foldl fanOutMatrixParams cs = ps.foldl (fun cs p => p.value.arrayVal.flatMap fun value =>
        cs.map fun c => c ++ [(p.name, value)]) cs := by
  induction ps generalizing cs with
  | nil => rfl
  | cons p ps ih =>
    rw [map_cons, nodup_cons] at hnames
    have hstep : fanOutMatrixParams cs p =
        p.value.arrayVal.flatMap fun value => cs.map fun c => c ++ [(p.name, value)] := by
      unfold fanOutMatrixParams distribute
      rw [if_neg (by simpa using hcs)]
      refine congrArg p.value.arrayVal.flatMap (funext fun value => ?_)
      refine map_congr_left fun c hc => ?_
      rw [Combination.set_eq_upsert, upsert_of_not_mem (hfresh c hc p mem_cons_self)]
    rw [foldl_cons, foldl_cons, hstep]
    refine ih ?_ hnames.2 (fun q hq => harrays q (mem_cons_of_mem p hq)) ?_
    · simp only [ne_eq, flatMap_eq_nil_iff, map_eq_nil_iff, not_forall]
      obtain ⟨value, hvalue⟩ := exists_mem_of_ne_nil _ (harrays p mem_cons_self)
      exact ⟨value, hvalue, hcs⟩
    · intro c hc q hq hmem
      obtain ⟨value, -, hc⟩ := mem_flatMap.mp hc
      obtain ⟨d, hd, rfl⟩ := mem_map.mp hc
      rw [map_append, mem_append] at hmem
      rcases hmem with hmem | hmem
      · exact hfresh d hd q (mem_cons_of_mem p hq) hmem
      · have heq : q.name = p.name := by simpa using hmem
        exact hnames.1 (heq ▸ mem_map_of_mem hq)

theorem combinations_eq_choices (hps : ps ≠ []) (hnames : (ps.map (·.name)).Nodup)
    (harrays : ∀ p ∈ ps, p.value.arrayVal ≠ []) : ps.foldl fanOutMatrixParams [] = choices ps := by
  cases ps with
  | nil => exact absurd rfl hps
  | cons p ps =>
    have hfirst : fanOutMatrixParams [] p = fanOutMatrixParams [[]] p := by
      simp [fanOutMatrixParams, initializeCombinations, distribute, Combination.set, map_eq_flatMap]
    rw [foldl_cons, hfirst, ← foldl_cons]
    exact foldl_fanOutMatrixParams (by simp) hnames harrays (by simp)

/-- The values in use where the given entries are laid over the choices. -/
def inUseWith (ps : Params) (es : List Combination) (x : String × String) : Bool :=
  (choices ps).any fun c => c.lookup x.1 == some x.2 ||
    (c.lookup x.1).isNone && (laidOver c [] es).any fun e => decide (x ∈ e)

def Matrix.inUse (m : Matrix) : String × String → Bool :=
  inUseWith m.params (m.includes.map IncludeParams.entry)

/-- The entry makes a combination of its own, behind those in `added`. -/
def addsCombination (used : String × String → Bool) (added : List Combination)
    (e : Combination) : Bool :=
  !e.isEmpty && e.all fun x => !used x && added.all fun e' => decide (x ∉ e')

def addsCombinations (used : String × String → Bool) :
    List Combination → List Combination → List Bool
  | _, [] => []
  | added, e :: es =>
    addsCombination used added e ::
      addsCombinations used (if addsCombination used added e then added ++ [e] else added) es

/-- The entries of `es` that make a combination of their own, behind those in `added`. -/
def addedEntries (used : String × String → Bool) :
    List Combination → List Combination → List Combination
  | added, [] => added
  | added, e :: es =>
    addedEntries used (if addsCombination used added e then added ++ [e] else added) es

section
variable {used : String × String → Bool} {added : List Combination}
  (hused : ∀ name value, (∃ c ∈ cs, c.lookup name = some value) ↔ used (name, value) = true)
  (hadded : ∀ e ∈ added, (e.map (·.1)).Nodup)
include hused hadded

theorem shouldAddNewCombination_eq (e : Combination) :
    shouldAddNewCombination (cs ++ added) e = addsCombination used added e := by
  have hcs : ∀ x : String × String,
      (cs.all fun c => c.lookup x.1 != some x.2) = !used x := by
    intro x
    rw [Bool.eq_iff_iff, Bool.not_eq_true', ← Bool.not_eq_true, ← hused x.1 x.2]
    simp
  have hadd : ∀ x : String × String,
      (added.all fun e' => e'.lookup x.1 != some x.2) =
        added.all fun e' => decide (x ∉ e') := by
    intro x
    rw [Bool.eq_iff_iff]
    simp only [all_eq_true, bne_iff_ne, ne_eq, decide_eq_true_eq]
    refine forall₂_congr fun e' he' => not_congr ?_
    exact ⟨mem_of_lookup, lookup_of_mem (hadded e' he')⟩
  have hswap : ∀ l : List Combination,
      (l.all fun c => e.all fun x => c.lookup x.1 != some x.2) =
        e.all fun x => l.all fun c => c.lookup x.1 != some x.2 := by
    intro l
    rw [Bool.eq_iff_iff]
    simp only [all_eq_true]
    exact ⟨fun h x hx c hc => h c hc x hx, fun h c hc x hx => h x hx c hc⟩
  unfold shouldAddNewCombination addsCombination
  rw [hswap]
  simp [hcs, hadd]

theorem addNewCombinations_eq (hes : ∀ e ∈ es, (e.map (·.1)).Nodup) :
    addNewCombinations (cs ++ added) es = cs ++ addedEntries used added es := by
  unfold addNewCombinations
  induction es generalizing added with
  | nil => rfl
  | cons e es ih =>
    have hes' := fun e' he' => hes e' (mem_cons_of_mem e he')
    rw [foldl_cons, shouldAddNewCombination_eq hused hadded, addedEntries]
    by_cases hnew : addsCombination used added e = true
    · rw [if_pos hnew, if_pos hnew, append_assoc]
      refine ih (fun e' he' => ?_) hes'
      rcases mem_append.mp he' with he' | he'
      · exact hadded e' he'
      · exact hes e' (by simp [mem_singleton.mp he'])
    · rw [if_neg hnew, if_neg hnew, ih hadded hes']

end

theorem length_addedEntries (used : String × String → Bool) (added es : List Combination) :
    (addedEntries used added es).length =
      added.length + (addsCombinations used added es).count true := by
  induction es generalizing added with
  | nil => simp [addedEntries, addsCombinations]
  | cons e es ih =>
    rw [addedEntries, addsCombinations, count_cons, ih]
    by_cases hnew : addsCombination used added e = true
    · simp [hnew]
      omega
    · simp [hnew]

/-- The values of an entry, up to the first that an array has, that are foreign to the array
of their name. -/
def Matrix.foreign (m : Matrix) (e : Combination) : Nat :=
  ((e.takeWhile fun x =>
    !m.params.any fun p => p.name == x.1 && decide (x.2 ∈ p.value.arrayVal)).filter
    fun x => m.params.any fun p => p.name == x.1).length

theorem countNewCombinations_eq (hnames : (m.params.map (·.name)).Nodup) (ps : Params) :
    countNewCombinations (m.params.map fun p => (p.name, p.value.arrayVal)).reverse ps =
      m.foreign (ps.map fun p => (p.name, p.value.stringVal)) := by
  have hkeys : ((m.params.map fun p => (p.name, p.value.arrayVal)).reverse.map (·.1)).Nodup := by
    simpa [map_reverse, Function.comp_def] using hnames
  have hany := any_lookup hkeys
  simp only [any_reverse, any_map, Function.comp_def] at hany
  induction ps with
  | nil => rfl
  | cons p ps ih =>
    have hname := hany p.name fun _ => true
    have hvalue := hany p.name fun values => decide (p.value.stringVal ∈ values)
    simp only [Bool.and_true] at hname
    unfold countNewCombinations Matrix.foreign
    rw [map_cons, takeWhile_cons, ← hvalue]
    cases hlookup : (m.params.map fun p => (p.name, p.value.arrayVal)).reverse.lookup p.name with
    | none =>
      rw [hlookup] at hname
      simpa [← hname, Matrix.foreign] using ih
    | some values =>
      rw [hlookup] at hname
      by_cases hmem : p.value.stringVal ∈ values
      · simp [hmem]
      · simp only [hmem, if_false, Option.any_some, decide_false, Bool.not_false, if_true,
          filter_cons, ← hname, length_cons, ih]
        rw [Matrix.foreign]
        omega

/-- Of the counts of foreign values, those for which there is no combination. -/
def surplus : List Bool → List Nat → Nat
  | new :: news, count :: counts => (if new then count - 1 else count) + surplus news counts
  | _, _ => 0

/-- The combinations for which no foreign value is counted. -/
def deficit : List Bool → List Nat → Nat
  | new :: news, count :: counts => (if new && count == 0 then 1 else 0) + deficit news counts
  | _, _ => 0

theorem sum_add_deficit {news : List Bool} {counts : List Nat} (h : news.length = counts.length) :
    counts.sum + deficit news counts = news.count true + surplus news counts := by
  induction news generalizing counts with
  | nil =>
    obtain rfl := length_eq_zero_iff.mp h.symm
    rfl
  | cons new news ih =>
    cases counts with
    | nil => simp at h
    | cons count counts =>
      have hrest := ih (by simpa using h)
      rw [sum_cons, count_cons, surplus, deficit]
      cases new with
      | false =>
        simp
        omega
      | true =>
        by_cases hcount : count = 0
        · simp [hcount]
          omega
        · simp [hcount]
          omega

theorem length_addsCombinations (used : String × String → Bool) (added es : List Combination) :
    (addsCombinations used added es).length = es.length := by
  induction es generalizing added with
  | nil => rfl
  | cons e es ih => rw [addsCombinations, length_cons, length_cons, ih]

def Matrix.news (m : Matrix) : List Bool :=
  addsCombinations m.inUse [] (m.includes.map IncludeParams.entry)

def Matrix.foreigns (m : Matrix) : List Nat := m.includes.map fun i => m.foreign i.entry

theorem nodup_entry (h : ∀ i ∈ m.includes, (i.params.map (·.name)).Nodup) :
    ∀ e ∈ m.includes.map IncludeParams.entry, (e.map (·.1)).Nodup := by
  intro e he
  obtain ⟨i, hi, rfl⟩ := mem_map.mp he
  simpa [IncludeParams.entry, Function.comp_def] using h i hi

theorem exists_overwritten (hes : ∀ e ∈ es, (e.map (·.1)).Nodup) (ps : Params)
    (name value : String) :
    (∃ c ∈ overwriteCombinations (choices ps) es, c.lookup name = some value) ↔
      inUseWith ps es (name, value) = true := by
  unfold overwriteCombinations inUseWith
  simp only [mem_map, exists_exists_and_eq_and, any_eq_true, Bool.or_eq_true,
    Bool.and_eq_true, beq_iff_eq, Option.isNone_iff_eq_none, decide_eq_true_eq]
  exact exists_congr fun c => and_congr_right fun _ => lookup_overwritten hes name value

theorem exists_overwritten_iff (hincludes : ∀ i ∈ m.includes, (i.params.map (·.name)).Nodup)
    (name value : String) :
    (∃ c ∈ overwriteCombinations (choices m.params) (m.includes.map IncludeParams.entry),
      c.lookup name = some value) ↔ m.inUse (name, value) = true :=
  exists_overwritten (nodup_entry hincludes) m.params name value

theorem countNewCombinationsFromInclude_eq (hnames : (m.params.map (·.name)).Nodup)
    (hparams : m.hasParams = true) : m.countNewCombinationsFromInclude = m.foreigns.sum := by
  unfold Matrix.countNewCombinationsFromInclude Matrix.foreigns
  by_cases hinclude : m.hasInclude = true
  · simp only [hinclude, hparams, Bool.not_true, Bool.false_eq_true, if_false]
    refine congrArg List.sum (map_congr_left fun i _ => ?_)
    exact countNewCombinations_eq hnames i.params
  · have hnone : m.includes = [] := by simpa [Matrix.hasInclude] using hinclude
    simp [hinclude, hnone]

theorem length_fanOut_eq (hnames : (m.params.map (·.name)).Nodup)
    (harrays : ∀ p ∈ m.params, p.value.arrayVal ≠ [])
    (hincludes : ∀ i ∈ m.includes, (i.params.map (·.name)).Nodup) (hparams : m.hasParams = true) :
    m.fanOut.length = m.countGeneratedCombinationsFromParams + m.news.count true := by
  have hne : m.params ≠ [] := by simpa [Matrix.hasParams] using hparams
  have hadded := addNewCombinations_eq (exists_overwritten_iff hincludes)
    (fun e he => absurd he not_mem_nil) (nodup_entry hincludes)
  rw [append_nil] at hadded
  unfold Matrix.fanOut Matrix.countGeneratedCombinationsFromParams
  simp only [hparams, Bool.not_true, Bool.and_false, Bool.false_eq_true, if_false, if_true,
    length_map, getIncludeCombinations_eq hincludes,
    combinations_eq_choices hne hnames harrays, hadded, length_append, length_addedEntries]
  simp [overwriteCombinations, length_choices, Matrix.news]

/-- The count of combinations is the number of combinations of the matrix exactly where the
foreign values counted in excess of the combinations that their entries make are as many as
the combinations made by entries without foreign values. -/
theorem countCombinations_eq_length_fanOut_iff (m : Matrix) (hnames : (m.params.map (·.name)).Nodup)
    (harrays : ∀ p ∈ m.params, p.value.type = .array ∧ p.value.arrayVal ≠ [])
    (hincludes : ∀ i ∈ m.includes, (∀ p ∈ i.params, p.value.type = .string) ∧
      (i.params.map (·.name)).Nodup) : m.countCombinations = m.fanOut.length ↔
      m.hasParams = false ∨ surplus m.news m.foreigns = deficit m.news m.foreigns := by
  unfold Matrix.countCombinations
  by_cases hparams : m.hasParams = true
  · have hbalance : m.foreigns.sum + deficit m.news m.foreigns =
        m.news.count true + surplus m.news m.foreigns :=
      sum_add_deficit (by simp [Matrix.news, Matrix.foreigns, length_addsCombinations])
    rw [countNewCombinationsFromInclude_eq hnames hparams,
      length_fanOut_eq hnames (fun p hp => (harrays p hp).2)
        (fun i hi => (hincludes i hi).2) hparams]
    simp only [hparams, Bool.true_eq_false, false_or]
    omega
  · -- without arrays every entry is a combination of its own
    have hnone : m.params = [] := by simpa [Matrix.hasParams] using hparams
    by_cases hinclude : m.hasInclude = true
    · simp [Matrix.countGeneratedCombinationsFromParams, Matrix.countNewCombinationsFromInclude,
        Matrix.fanOut, Matrix.getIncludeCombinations, hparams, hinclude]
    · have hempty : m.includes = [] := by simpa [Matrix.hasInclude] using hinclude
      simp [Matrix.countGeneratedCombinationsFromParams, Matrix.countNewCombinationsFromInclude,
        Matrix.fanOut, Matrix.getIncludeCombinations, hparams, hinclude, hnone, hempty,
        overwriteCombinations, addNewCombinations]

def archMatrix (includes : List (List (String × String))) : Matrix :=
  { params := [⟨"arch", { type := .array, arrayVal := ["amd64", "arm64"] }⟩,
      ⟨"version", { type := .array, arrayVal := ["1.17", "1.18"] }⟩]
    includes := includes.map fun e => ⟨"", e.map fun x => ⟨x.1, { stringVal := x.2 }⟩⟩ }

theorem archMatrix_counted :
    (archMatrix [[("package", "common")], [("arch", "arm64"), ("flags", "-v")],
        [("arch", "riscv")]]).countCombinations =
      (archMatrix [[("package", "common")], [("arch", "arm64"), ("flags", "-v")],
        [("arch", "riscv")]]).fanOut.length :=
  (countCombinations_eq_length_fanOut_iff _ (by decide) (by decide) (by decide)).mpr
    (.inr (by decide))

/-- An entry with two foreign values is counted twice, an entry repeated is counted again, a
second value for a parameter outside the arrays is not counted. -/
theorem archMatrix_miscounted :
    ((archMatrix [[("arch", "riscv"), ("version", "1.16")]]).countCombinations = 6 ∧
      (archMatrix [[("arch", "riscv"), ("version", "1.16")]]).fanOut.length = 5) ∧
    ((archMatrix [[("arch", "riscv")], [("arch", "riscv")]]).countCombinations = 6 ∧
      (archMatrix [[("arch", "riscv")], [("arch", "riscv")]]).fanOut.length = 5) ∧
    (archMatrix [[("package", "a")], [("package", "b")]]).countCombinations = 4 ∧
      (archMatrix [[("package", "a")], [("package", "b")]]).fanOut.length = 5 := by
  decide +kernel

end TektonPipeline.Api
