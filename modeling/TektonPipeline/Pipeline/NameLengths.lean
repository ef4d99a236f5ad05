import TektonPipeline.Pipeline.RunNames

/-! Whether `getNewRunNames` returns. The names of the PipelineRun and of its task are of ASCII
characters, so that bytes are characters. -/

namespace TektonPipeline.Pipeline
open List

/-- `s[0:n]`, which panics where `s` is shorter. -/
def slice? (s : String) (n : Nat) : Option String :=
  if n ≤ s.toList.length then some (String.ofList (s.toList.take n)) else none

/-- One turn of the loop of `getNewRunNames`. -/
def matrixRunName? (d : Digest) (ptName prName : String) (numberOfRuns i : Nat) : Option String :=
  let taskRunName := childName d prName ("-" ++ ptName ++ numbered i)
  if (numbered i).toList.isSuffixOf taskRunName.toList then some taskRunName
  else
    let taskRunName := childName d prName ("-" ++ ptName)
    let longest := 63 - (numbered numberOfRuns).length
    (slice? taskRunName longest).map (· ++ numbered i)

/-- `getNewRunNames`, which returns nothing where a slice is out of range. -/
def getNewRunNames? (d : Digest) (ptName prName : String) (numberOfRuns : Nat) :
    Option (List String) :=
  if numberOfRuns = 1 then some [childName d prName ("-" ++ ptName)]
  else (List.range numberOfRuns).mapM (matrixRunName? d ptName prName numberOfRuns)

theorem mapM_eq_some {α β : Type} {f : α → Option β} {l : List α} {r : List β} :
    l.mapM f = some r ↔ l.map f = r.map some := by
  induction l generalizing r with
  | nil => cases r <;> simp
  | cons a l ih =>
    simp only [mapM_cons, Option.bind_eq_bind, Option.bind_eq_some_iff, map_cons]
    constructor
    · rintro ⟨b, hb, rest, hrest, heq⟩
      obtain rfl := Option.some.inj heq
      rw [hb, ih.mp hrest, map_cons]
    · intro h
      cases r with
      | nil => cases h
      | cons b rest =>
        obtain ⟨hb, hrest⟩ := List.cons.inj h
        exact ⟨b, hb, rest, ih.mpr hrest, rfl⟩

theorem exists_mapM_eq_some {α β : Type} {f : α → Option β} {l : List α}
    (h : ∀ a ∈ l, ∃ b, f a = some b) : ∃ r, l.mapM f = some r := by
  choose g hg using h
  refine ⟨l.pmap g fun _ ha => ha, mapM_eq_some.mpr ?_⟩
  simp only [map_pmap, ← hg, pmap_eq_map]

section
variable (d : Digest) {prName ptName : String} {numberOfRuns i : Nat}

/-- The names are those of the runs of the task, one by one. -/
theorem getNewRunNames?_eq {pr : PipelineRun} (hchild : pr.childName = childName d) :
    getNewRunNames? d ptName pr.name numberOfRuns =
      (runsOf ptName numberOfRuns).mapM (RunId.name? pr) := by
  unfold getNewRunNames? runsOf
  by_cases hone : numberOfRuns = 1
  · subst hone
    simp [RunId.name?, RunId.cut, RunId.suffix, hchild]
  · rw [if_neg hone, mapM_map]
    congr 1
    funext i
    have hcut : RunId.cut pr ⟨ptName, numberOfRuns, i⟩ =
        !(numbered i).toList.isSuffixOf
          (childName d pr.name ("-" ++ ptName ++ numbered i)).toList := by
      simp [RunId.cut, RunId.suffix, hone, hchild]
    simp only [Function.comp_apply, matrixRunName?, RunId.name?, hcut, slice?, RunId.stem,
      RunId.longest, RunId.suffix, hchild, if_neg hone]
    cases (numbered i).toList.isSuffixOf
      (childName d pr.name ("-" ++ ptName ++ numbered i)).toList with
    | true => rfl
    | false =>
      simp only [Bool.not_false, if_true, Bool.false_eq_true, if_false]
      split <;> rfl

theorem length_makeValidName_le (n : List Char) : (makeValidName n).length ≤ n.length :=
  (List.rdropWhile_prefix _ n).length_le

theorem length_childName_le (parent s : String) : (childName d parent s).toList.length ≤ 63 := by
  by_cases hfit : parent.toList.length + s.toList.length ≤ 63
  · rw [childName_fits d hfit, length_append]
    exact hfit
  by_cases hs : s.toList.length < 31
  · rw [childName_short d (by omega) hs]
    simp only [length_append, length_take, d.length_hex]
    omega
  · have hvalid := length_makeValidName_le (s.toList.take (31 - parent.toList.length))
    rw [childName_long_eq d (by omega) (by omega)]
    simp only [length_append, length_take, d.length_hex] at hvalid ⊢
    omega

theorem length_numbered (i : Nat) :
    (numbered i).toList.length = 1 + (Nat.toDigits 10 i).length := by
  rw [toList_numbered, length_cons, Nat.add_comm]

theorem length_toDigits_mono {i n : Nat} (h : i ≤ n) :
    (Nat.toDigits 10 i).length ≤ (Nat.toDigits 10 n).length := by
  have hpos : 0 < (Nat.toDigits 10 n).length := length_pos_iff.mpr Nat.toDigits_ne_nil
  have hlt := (Nat.length_toDigits_le_iff (b := 10) (n := n) (by decide) hpos).mp le_rfl
  exact (Nat.length_toDigits_le_iff (by decide) hpos).mpr (Nat.lt_of_le_of_lt h hlt)

theorem length_numbered_mono {n : Nat} (h : i ≤ n) : (numbered i).length ≤ (numbered n).length := by
  rw [← String.length_toList, ← String.length_toList, length_numbered, length_numbered]
  exact Nat.add_le_add_left (length_toDigits_mono h) 1

theorem long_of_not_suffix
    (h : ¬ (numbered i).toList <:+ (childName d prName ("-" ++ ptName ++ numbered i)).toList) :
    63 < prName.toList.length + ("-" ++ ptName ++ numbered i).toList.length ∧
      31 ≤ ("-" ++ ptName ++ numbered i).toList.length := by
  have hends : ∀ l : List Char,
      (numbered i).toList <:+ l ++ ("-" ++ ptName ++ numbered i).toList := by
    intro l
    rw [String.toList_append, ← append_assoc]
    exact suffix_append _ _
  by_contra hnot
  refine h ?_
  by_cases hfit : prName.toList.length + ("-" ++ ptName ++ numbered i).toList.length ≤ 63
  · rw [childName_fits d hfit]
    exact hends _
  · rw [childName_short d (by omega) (by omega)]
    exact hends _

def dropped (n : List Char) : Nat := n.length - (makeValidName n).length

theorem length_childName_task (ptName : String)
    (h : 63 < prName.toList.length + ("-" ++ ptName).toList.length)
    (hs : 31 ≤ ("-" ++ ptName).toList.length) : (childName d prName ("-" ++ ptName)).toList.length =
      63 - dropped (("-" ++ ptName).toList.take (31 - prName.toList.length)) := by
  have hvalid := length_makeValidName_le (("-" ++ ptName).toList.take (31 - prName.toList.length))
  rw [childName_long_eq d h hs]
  simp only [dropped, length_append, length_take, d.length_hex] at hvalid ⊢
  omega

theorem suffix_of_digest {a t : List Char} {x : String} (hlen : (numbered i).toList.length ≤ 32)
    (h : (numbered i).toList <:+ a ++ (d.hex x).toList ++ t) : (numbered i).toList <:+ t := by
  rcases suffix_or_suffix_of_suffix h (suffix_append _ t) with hin | ⟨u, hu⟩
  · exact hin
  cases u with
  | nil => exact ⟨[], by simpa using hu.symm⟩
  | cons c u =>
    -- the dash would be one of the digits of the hash
    have hc : c = '-' := by
      rw [toList_numbered, cons_append] at hu
      exact (List.cons.inj hu).1
    obtain ⟨v, hv⟩ := h
    rw [← hu, ← append_assoc] at hv
    have hsuffix : c :: u <:+ a ++ (d.hex x).toList := ⟨v, append_cancel_right hv⟩
    have hshort : (c :: u).length ≤ (d.hex x).toList.length := by
      have := congrArg List.length hu
      rw [length_append] at this
      rw [d.length_hex]
      omega
    have hdigest := suffix_of_suffix_length_le hsuffix (suffix_append _ _) hshort
    exact absurd (hdigest.subset (hc ▸ mem_cons_self)) (dash_not_mem_hex d x)

theorem matrixRunName?_eq_none_iff : matrixRunName? d ptName prName numberOfRuns i = none ↔
      ¬ (numbered i).toList <:+ (childName d prName ("-" ++ ptName ++ numbered i)).toList ∧
      (childName d prName ("-" ++ ptName)).toList.length + (numbered numberOfRuns).length < 63 := by
  unfold matrixRunName? slice?
  dsimp only
  by_cases hsuffix : (numbered i).toList <:+
      (childName d prName ("-" ++ ptName ++ numbered i)).toList
  · simp [hsuffix]
  · simp [hsuffix]

theorem length_numbered_le {n : Nat} (h : n < 2 ^ 63) : (numbered n).length ≤ 20 := by
  have hdigits := (Nat.length_toDigits_le_iff (b := 10) (n := n) (k := 19) (by decide)
    (by decide)).mpr (Nat.lt_trans h (by decide))
  rw [← String.length_toList, length_numbered]
  omega

theorem matrixRunName?_spec {name : String} (hint : numberOfRuns < 2 ^ 63) (hi : i ≤ numberOfRuns)
    (h : matrixRunName? d ptName prName numberOfRuns i = some name) :
    name.toList.length ≤ 63 ∧ ∃ a, name = a ++ numbered i := by
  unfold matrixRunName? at h
  dsimp only at h
  split at h
  · rename_i hsuffix
    obtain ⟨a, ha⟩ := isSuffixOf_iff_suffix.mp hsuffix
    obtain rfl := Option.some.inj h
    refine ⟨length_childName_le d _ _, String.ofList a, ?_⟩
    rw [← String.toList_inj, String.toList_append, String.toList_ofList, ha]
  · unfold slice? at h
    split at h
    · obtain rfl := Option.some.inj h
      refine ⟨?_, _, rfl⟩
      have hnumber := length_numbered_mono hi
      have hroom := length_numbered_le hint
      simp only [String.toList_append, String.toList_ofList, length_append, length_take,
        String.length_toList]
      omega
    · cases h

/-- The names of the runs of a matrix can be cut: what is left of the name of the task when
separators at its end are dropped leaves room for the number only. -/
def CutFits (ptName prName : String) (numberOfRuns : Nat) : Prop :=
  2 ≤ numberOfRuns → 30 ≤ ptName.length → 63 ≤ prName.length + ptName.length →
    dropped (("-" ++ ptName).toList.take (31 - prName.length)) ≤ (numbered numberOfRuns).length

theorem length_dash (ptName : String) : ("-" ++ ptName).toList.length = ptName.length + 1 := by
  rw [String.toList_append, length_append, String.length_toList, String.length_toList]
  have hdash : "-".length = 1 := by decide
  omega

theorem exists_matrixRunName (h : CutFits ptName prName numberOfRuns) (hi : i < numberOfRuns)
    (hone : numberOfRuns ≠ 1) :
    ∃ name, matrixRunName? d ptName prName numberOfRuns i = some name := by
  rw [← Option.isSome_iff_exists, ← Option.ne_none_iff_isSome]
  intro hnone
  obtain ⟨hsuffix, hshort⟩ := (matrixRunName?_eq_none_iff d).mp hnone
  obtain ⟨hlong, -⟩ := long_of_not_suffix d hsuffix
  have hdash := length_dash ptName
  have hnumber := length_numbered_mono hi.le
  rw [String.toList_append, length_append, String.length_toList,
    String.length_toList (s := numbered i)] at hlong
  by_cases hfit : prName.toList.length + ("-" ++ ptName).toList.length ≤ 63
  · rw [childName_fits d hfit, length_append] at hshort
    rw [String.length_toList] at hshort
    omega
  by_cases hs : ("-" ++ ptName).toList.length < 31
  · rw [childName_short d (by omega) hs] at hshort
    simp only [length_append, length_take, d.length_hex] at hshort
    simp only [String.length_toList] at hfit hshort hdash
    omega
  · rw [length_childName_task d ptName (by omega) (by omega), String.length_toList] at hshort
    rw [String.length_toList] at hfit
    have hcut := h (by omega) (by omega) (by omega)
    omega

theorem exists_panic (h : ¬ CutFits ptName prName numberOfRuns) :
    2 ≤ numberOfRuns ∧ ∃ i, i < 2 ∧ matrixRunName? d ptName prName numberOfRuns i = none := by
  unfold CutFits at h
  simp only [Classical.not_imp, Nat.not_le] at h
  obtain ⟨hruns, hpt, hpr, hdropped⟩ := h
  refine ⟨hruns, ?_⟩
  have hdash := length_dash ptName
  have hlong : 63 < prName.toList.length + ("-" ++ ptName).toList.length := by
    rw [String.length_toList]
    omega
  have hlength := length_childName_task d ptName hlong (by omega)
  rw [String.length_toList (s := prName)] at hlength
  have hle : dropped (("-" ++ ptName).toList.take (31 - prName.length)) ≤ 31 - prName.length :=
    (Nat.sub_le _ _).trans (length_take_le _ _)
  have hshort : (childName d prName ("-" ++ ptName)).toList.length +
      (numbered numberOfRuns).length < 63 := by omega
  have hname : ∀ i, (childName d prName ("-" ++ ptName ++ numbered i)).toList =
      prName.toList.take 31 ++ (d.hex (prName ++ ("-" ++ ptName ++ numbered i))).toList ++
        makeValidName (("-" ++ ptName).toList.take (31 - prName.length)) := by
    intro i
    have hlen : ("-" ++ ptName ++ numbered i).toList.length =
        ptName.length + 1 + (numbered i).toList.length := by
      rw [String.toList_append, length_append, hdash]
    rw [childName_long_eq d (by rw [String.length_toList]; omega) (by omega), String.toList_append,
      String.length_toList (s := prName), take_append_of_le_length (by omega)]
  by_contra hnone
  have hsuffix : ∀ i, i < 2 → (numbered i).toList <:+
      makeValidName (("-" ++ ptName).toList.take (31 - prName.length)) := by
    intro i hi
    have hlen : (numbered i).toList.length ≤ 32 := by
      have hdigits := length_numbered_le (n := i) (by omega)
      rw [String.length_toList]
      omega
    refine suffix_of_digest d hlen (x := prName ++ ("-" ++ ptName ++ numbered i))
      (a := prName.toList.take 31) ?_
    rw [← hname]
    by_contra hnot
    exact hnone ⟨i, hi, (matrixRunName?_eq_none_iff d).mpr ⟨hnot, hshort⟩⟩
  have hsame := suffix_of_suffix_length_le (hsuffix 0 (by omega)) (hsuffix 1 (by omega))
    (by decide)
  revert hsame
  decide

theorem no_names (h : ¬ CutFits ptName prName numberOfRuns) {names : List String} :
    getNewRunNames? d ptName prName numberOfRuns ≠ some names := by
  intro hnames
  obtain ⟨hruns, i, hi, hnone⟩ := exists_panic d h
  rw [getNewRunNames?, if_neg (by omega)] at hnames
  have hmem := mem_map_of_mem (f := matrixRunName? d ptName prName numberOfRuns)
    (mem_range.mpr (Nat.lt_of_lt_of_le hi hruns))
  rw [mapM_eq_some.mp hnames, hnone] at hmem
  simp at hmem

end

/-- As many names as runs come back, all different and short enough, exactly where the name of
the task can be cut. -/
theorem getNewRunNames_total_iff (d : Digest) (ptName prName : String) {numberOfRuns : Nat}
    (hint : numberOfRuns < 2 ^ 63) :
    (∃ names, getNewRunNames? d ptName prName numberOfRuns = some names ∧
      names.length = numberOfRuns ∧ names.Nodup ∧ ∀ name ∈ names, name.length ≤ 63) ↔
      CutFits ptName prName numberOfRuns := by
  unfold getNewRunNames?
  by_cases hone : numberOfRuns = 1
  · have hcut : CutFits ptName prName numberOfRuns := fun h => by omega
    refine iff_of_true ⟨_, if_pos hone, by simp [hone], nodup_singleton _, ?_⟩ hcut
    intro name hname
    rw [mem_singleton.mp hname, ← String.length_toList]
    exact length_childName_le d _ _
  rw [if_neg hone]
  constructor
  · rintro ⟨names, hnames, -⟩
    by_contra hcut
    have hsome : getNewRunNames? d ptName prName numberOfRuns = some names := by
      rw [getNewRunNames?, if_neg hone, hnames]
    exact no_names d hcut hsome
  · intro hcut
    have hsome : ∀ i ∈ List.range numberOfRuns, ∃ name,
        matrixRunName? d ptName prName numberOfRuns i = some name := fun i hi =>
      exists_matrixRunName d hcut (mem_range.mp hi) hone
    obtain ⟨names, hnames⟩ := exists_mapM_eq_some hsome
    have hmap := mapM_eq_some.mp hnames
    refine ⟨names, hnames, ?_, ?_, fun name hname => ?_⟩
    · have hlength := congrArg List.length hmap
      simpa using hlength.symm
    · rw [← nodup_map_iff (Option.some_injective _), ← hmap]
      refine nodup_range.map_on fun i hi j hj heq => ?_
      obtain ⟨name, hname⟩ := hsome i hi
      obtain ⟨-, a, ha⟩ := matrixRunName?_spec d hint (mem_range.mp hi).le hname
      obtain ⟨-, b, hb⟩ := matrixRunName?_spec d hint (mem_range.mp hj).le (heq ▸ hname)
      exact (append_numbered_inj (ha.symm.trans hb)).2
    · obtain ⟨i, hi, hname⟩ := mem_map.mp (hmap ▸ mem_map_of_mem (f := some) hname)
      rw [← String.length_toList]
      exact (matrixRunName?_spec d hint (mem_range.mp hi).le hname).1

theorem delivery_runs_named :
    2 < 2 ^ 63 ∧ ∃ names, getNewRunNames? sumDigest "deploy" "delivery" 2 = some names ∧
      names.length = 2 ∧ names.Nodup ∧ ∀ name ∈ names, name.length ≤ 63 :=
  ⟨by decide, (getNewRunNames_total_iff sumDigest "deploy" "delivery" (by decide)).mpr
    fun _ h => absurd h (by decide)⟩

/-- Three dashes of the task's name come to stand at the end of the name and are dropped,
whatever the digest is. -/
theorem dashed_task_panics :
    ¬ ∃ d : Digest, (getNewRunNames? d "a---verify-the-rollout-of-the-cluster"
      "release-of-the-new-gateway" 2).isSome := by
  have hcut : ¬ CutFits "a---verify-the-rollout-of-the-cluster" "release-of-the-new-gateway" 2 := by
    unfold CutFits
    decide +kernel
  rintro ⟨d, hsome⟩
  obtain ⟨names, hnames⟩ := Option.isSome_iff_exists.mp hsome
  exact no_names d hcut hnames

end TektonPipeline.Pipeline
