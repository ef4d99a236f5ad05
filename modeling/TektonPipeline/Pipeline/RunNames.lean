import TektonPipeline.Pipeline.Resolve
import TektonPipeline.Library.Matching
import Mathlib.Data.List.DropRight

/-! The names of the runs of a PipelineRun. `getNewRunNames` looks at one task at a time; a
name over 63 characters is hashed, and one that loses its number to the hash is cut. -/

namespace TektonPipeline.Pipeline
open Api List

def isHexDigit (c : Char) : Bool := c.isDigit || ('a' ≤ c && c ≤ 'f')

structure Digest where
  hex : String → String
  length_hex : ∀ s, (hex s).toList.length = 32
  isHexDigit_of_mem : ∀ s, ∀ c ∈ (hex s).toList, isHexDigit c = true

def makeValidName (n : List Char) : List Char := n.rdropWhile fun c => !c.isAlphanum

/-- `kmeta.ChildName`: the longest name is of 63 characters, 32 of them for a digest. -/
def childName (d : Digest) (parent suffix : String) : String :=
  let p := parent.toList
  let s := suffix.toList
  String.ofList
    (if 63 < p.length + s.length then
      if 31 ≤ s.length then
        let ret := p.take 31 ++ (d.hex (parent ++ suffix)).toList
        makeValidName (ret ++ s.take (63 - ret.length))
      else p.take (31 - s.length) ++ (d.hex parent).toList ++ s
    else p ++ s)

structure OwnDigest (d : Digest) (parent s s' : String) : Prop where
  fits : parent.toList.length + s.toList.length ≤ 63
  hashed : 63 < parent.toList.length + s'.toList.length
  short : s'.toList.length < 31
  eq : parent.toList ++ s.toList =
    parent.toList.take (31 - s'.toList.length) ++ (d.hex parent).toList ++ s'.toList

instance (d : Digest) (parent s s' : String) : Decidable (OwnDigest d parent s s') :=
  decidable_of_iff
    (parent.toList.length + s.toList.length ≤ 63 ∧
      63 < parent.toList.length + s'.toList.length ∧ s'.toList.length < 31 ∧
      parent.toList ++ s.toList =
        parent.toList.take (31 - s'.toList.length) ++ (d.hex parent).toList ++ s'.toList)
    ⟨fun h => ⟨h.1, h.2.1, h.2.2.1, h.2.2.2⟩, fun h => ⟨h.fits, h.hashed, h.short, h.eq⟩⟩

theorem dash_not_mem_hex (d : Digest) (s : String) : '-' ∉ (d.hex s).toList := by
  intro hmem
  have := d.isHexDigit_of_mem s '-' hmem
  revert this
  decide

theorem isAlphanum_of_isHexDigit {c : Char} (h : isHexDigit c = true) : c.isAlphanum = true := by
  unfold isHexDigit at h
  unfold Char.isAlphanum
  rcases Bool.or_eq_true _ _ ▸ h with h | h
  · simp [h]
  · simp only [Bool.and_eq_true, decide_eq_true_eq] at h
    have hlower : c.isLower = true := by
      unfold Char.isLower
      simp only [Bool.and_eq_true, decide_eq_true_eq]
      exact ⟨h.1, Nat.le_trans h.2 (by decide)⟩
    have halpha : c.isAlpha = true := by
      show (c.isUpper || c.isLower) = true
      rw [hlower, Bool.or_true]
    rw [halpha, Bool.true_or]

theorem rdropWhile_append_of_last {p : Char → Bool} {l : List Char} (hl : l ≠ [])
    (hlast : p (l.getLast hl) = false) (t : List Char) :
    (l ++ t).rdropWhile p = l ++ t.rdropWhile p := by
  induction t using List.reverseRecOn with
  | nil =>
    rw [append_nil, rdropWhile_nil, append_nil, rdropWhile_eq_self_iff]
    intro _
    simp [hlast]
  | append_singleton t x ih =>
    by_cases hx : p x = true
    · rw [← append_assoc, rdropWhile_concat_pos p _ x hx, rdropWhile_concat_pos p t x hx, ih]
    · rw [← append_assoc, rdropWhile_concat_neg p _ x hx,
        rdropWhile_concat_neg p t x hx, append_assoc]

theorem makeValidName_digest (d : Digest) (p : List Char) (s : String) (t : List Char) :
    makeValidName (p ++ (d.hex s).toList ++ t) = p ++ (d.hex s).toList ++ makeValidName t := by
  have hlen := d.length_hex s
  have hne : (d.hex s).toList ≠ [] := by
    intro h
    rw [h] at hlen
    simp at hlen
  have hne' : p ++ (d.hex s).toList ≠ [] := by simp [hne]
  refine rdropWhile_append_of_last hne' ?_ t
  rw [getLast_append_of_ne_nil _ hne]
  have hhex := d.isHexDigit_of_mem s _ (getLast_mem hne)
  simp [isAlphanum_of_isHexDigit hhex]

section
variable (d : Digest) {parent s s' : String}

theorem childName_fits (h : parent.toList.length + s.toList.length ≤ 63) :
    (childName d parent s).toList = parent.toList ++ s.toList := by
  unfold childName
  simp [Nat.not_lt.mpr h]

theorem childName_short (h : 63 < parent.toList.length + s.toList.length)
    (hs : s.toList.length < 31) : (childName d parent s).toList =
      parent.toList.take (31 - s.toList.length) ++ (d.hex parent).toList ++ s.toList := by
  unfold childName
  simp [h, Nat.not_le.mpr hs]

theorem childName_long_eq (h : 63 < parent.toList.length + s.toList.length)
    (hs : 31 ≤ s.toList.length) : (childName d parent s).toList =
      parent.toList.take 31 ++ (d.hex (parent ++ s)).toList ++
        makeValidName (s.toList.take (31 - parent.toList.length)) := by
  have hroom : 63 - (parent.toList.take 31 ++ (d.hex (parent ++ s)).toList).length =
      31 - parent.toList.length := by
    rw [length_append, length_take, d.length_hex]
    omega
  unfold childName
  simp only [h, hs, if_true, String.toList_ofList, hroom]
  exact makeValidName_digest d _ _ _

theorem childName_long (parent s : String) (h : 63 < parent.toList.length + s.toList.length)
    (hs : 31 ≤ s.toList.length) : ∃ t, (childName d parent s).toList =
      parent.toList.take 31 ++ (d.hex (parent ++ s)).toList ++ t :=
  ⟨_, childName_long_eq d h hs⟩

theorem not_dash_in_digest {a b a' : List Char} {x : String} (hs : s.toList.head? = some '-')
    (h : a ++ (d.hex x).toList ++ b = a' ++ s.toList) (hle : a.length ≤ a'.length)
    (hlt : a'.length < a.length + 32) : False := by
  have hdash : (a' ++ s.toList)[a'.length]? = some '-' := by
    rw [getElem?_append_right (Nat.le_refl _), Nat.sub_self, ← head?_eq_getElem?, hs]
  rw [← h, append_assoc, getElem?_append_right hle, getElem?_append_left
    (by rw [d.length_hex x]; omega)] at hdash
  exact dash_not_mem_hex d x (mem_of_getElem? hdash)

theorem childName_short_inj (hs' : s'.toList.head? = some '-')
    (hlt : 63 < parent.toList.length + s.toList.length) (hshort : s.toList.length < 31)
    (hlt' : 63 < parent.toList.length + s'.toList.length) (hshort' : s'.toList.length < 31)
    (hle : s.toList.length ≤ s'.toList.length) (h : childName d parent s = childName d parent s') :
    s = s' := by
  have heq := congrArg String.toList h
  rw [childName_short d hlt hshort, childName_short d hlt' hshort'] at heq
  rcases Nat.lt_or_eq_of_le hle with hlt'' | hlen
  · refine absurd heq fun heq => not_dash_in_digest d hs' heq ?_ ?_
    · simp [d.length_hex]
      omega
    · simp [d.length_hex]
      omega
  · exact String.toList_inj.mp (append_inj_right' heq hlen)

abbrev Long (parent s : String) : Prop :=
  63 < parent.toList.length + s.toList.length ∧ 31 ≤ s.toList.length

/-- A name with a digest of its own is not one that ends with its suffix. -/
theorem childName_long_ne (hs : s.toList.head? = some '-') (hlong : Long parent s')
    (hends : ¬ Long parent s) :
    childName d parent s' ≠ childName d parent s := by
  intro h
  have heq := congrArg String.toList h
  have hpos : 0 < s.toList.length := length_pos_iff.mpr (by rintro hn; simp [hn] at hs)
  obtain ⟨t, ht⟩ := childName_long d parent s' hlong.1 hlong.2
  by_cases hfit : parent.toList.length + s.toList.length ≤ 63
  · rw [ht, childName_fits d hfit] at heq
    exact not_dash_in_digest d hs heq (by simp) (by simp; omega)
  · rw [ht, childName_short d (by omega) (by omega)] at heq
    exact not_dash_in_digest d hs heq (by simp [d.length_hex]) (by simp [d.length_hex]; omega)

theorem childName_inj (hs : s.toList.head? = some '-') (hs' : s'.toList.head? = some '-')
    (hinj : d.hex (parent ++ s) = d.hex (parent ++ s') → s = s')
    (h : childName d parent s = childName d parent s') :
    s = s' ∨ OwnDigest d parent s s' ∨ OwnDigest d parent s' s := by
  have heq := congrArg String.toList h
  by_cases hlong : Long parent s
  · by_cases hlong' : Long parent s'
    · obtain ⟨t, ht⟩ := childName_long d parent s hlong.1 hlong.2
      obtain ⟨t', ht'⟩ := childName_long d parent s' hlong'.1 hlong'.2
      rw [ht, ht', append_assoc, append_assoc] at heq
      have hhex := append_inj_left (append_cancel_left heq)
        (by rw [d.length_hex, d.length_hex])
      exact .inl (hinj (String.toList_inj.mp hhex))
    · exact absurd h (childName_long_ne d hs' hlong hlong')
  by_cases hlong' : Long parent s'
  · exact absurd h.symm (childName_long_ne d hs hlong' hlong)
  by_cases hfit : parent.toList.length + s.toList.length ≤ 63
  · rw [childName_fits d hfit] at heq
    by_cases hfit' : parent.toList.length + s'.toList.length ≤ 63
    · rw [childName_fits d hfit'] at heq
      exact .inl (String.toList_inj.mp (append_cancel_left heq))
    · rw [childName_short d (by omega) (by omega)] at heq
      exact .inr (.inl ⟨hfit, by omega, by omega, heq⟩)
  by_cases hfit' : parent.toList.length + s'.toList.length ≤ 63
  · rw [childName_short d (by omega) (by omega), childName_fits d hfit'] at heq
    exact .inr (.inr ⟨hfit', by omega, by omega, heq.symm⟩)
  have hshort : s.toList.length < 31 ∧ s'.toList.length < 31 := by omega
  rcases Nat.le_total s.toList.length s'.toList.length with hle | hle
  · exact .inl (childName_short_inj d hs' (by omega) hshort.1 (by omega) hshort.2 hle h)
  · exact .inl (childName_short_inj d hs (by omega) hshort.2 (by omega) hshort.1 hle h.symm).symm

end

/-- One run of a task that has `count` of them. -/
structure RunId where
  task : String
  count : Nat
  index : Nat
  deriving DecidableEq

def numbered (i : Nat) : String := "-" ++ toString i

def RunId.suffix (r : RunId) : String :=
  if r.count = 1 then "-" ++ r.task else "-" ++ r.task ++ numbered r.index

def RunId.cut (pr : PipelineRun) (r : RunId) : Bool :=
  r.count != 1 && !(numbered r.index).toList.isSuffixOf (pr.childName pr.name r.suffix).toList

def RunId.longest (r : RunId) : Nat := 63 - (numbered r.count).length

/-- What is kept of the name of the task where the number has to be put behind it. -/
def RunId.stem (pr : PipelineRun) (r : RunId) : String :=
  String.ofList ((pr.childName pr.name ("-" ++ r.task)).toList.take r.longest)

def RunId.name? (pr : PipelineRun) (r : RunId) : Option String :=
  if r.cut pr then
    if r.longest ≤ (pr.childName pr.name ("-" ++ r.task)).toList.length then
      some (r.stem pr ++ numbered r.index)
    else none
  else some (pr.childName pr.name r.suffix)

def runsOf (ptName : String) (numberOfRuns : Nat) : List RunId :=
  (List.range numberOfRuns).map fun i => ⟨ptName, numberOfRuns, i⟩

def runs (tasks : List (String × Nat)) : List RunId := tasks.flatMap fun t => runsOf t.1 t.2

variable {pr : PipelineRun}

theorem getNewRunNames_of_name? {ptName : String} {numberOfRuns : Nat}
    (h : ∀ r ∈ runsOf ptName numberOfRuns, (r.name? pr).isSome = true) :
    (runsOf ptName numberOfRuns).map (RunId.name? pr) =
      (getNewRunNames pr ptName numberOfRuns).map some := by
  unfold getNewRunNames runsOf
  by_cases hone : numberOfRuns = 1
  · subst hone
    simp [RunId.name?, RunId.cut, RunId.suffix]
  · rw [if_neg hone, map_map, map_map]
    refine map_congr_left fun i hi => ?_
    have hsome := h ⟨ptName, numberOfRuns, i⟩ (mem_map.mpr ⟨i, hi, rfl⟩)
    unfold RunId.name? at hsome
    simp only [Function.comp_apply, RunId.name?, newRunName]
    by_cases hcut : RunId.cut pr ⟨ptName, numberOfRuns, i⟩ = true
    · rw [if_pos hcut] at hsome ⊢
      have hlong : RunId.longest ⟨ptName, numberOfRuns, i⟩ ≤
          (pr.childName pr.name ("-" ++ ptName)).toList.length := by
        by_contra hlong
        rw [if_neg hlong] at hsome
        cases hsome
      have hnot : ("-" ++ toString i).toList.isSuffixOf
          (pr.childName pr.name ("-" ++ ptName ++ ("-" ++ toString i))).toList = false := by
        simpa [RunId.cut, RunId.suffix, hone, numbered] using hcut
      rw [if_pos hlong, hnot]
      rfl
    · have hsuffix : ("-" ++ toString i).toList.isSuffixOf
          (pr.childName pr.name ("-" ++ ptName ++ ("-" ++ toString i))).toList = true := by
        simpa [RunId.cut, RunId.suffix, hone, numbered] using hcut
      rw [if_neg hcut, if_pos hsuffix]
      simp [RunId.suffix, hone, numbered]

theorem toList_numbered (i : Nat) : (numbered i).toList = '-' :: Nat.toDigits 10 i := by
  simp [numbered]

theorem dash_not_mem_toDigits (i : Nat) : '-' ∉ Nat.toDigits 10 i := by
  intro hmem
  have hdigit := Nat.isDigit_of_mem_toDigits (by decide) (by decide) hmem
  revert hdigit
  decide

theorem append_numbered_inj {a a' : String} {i j : Nat} (h : a ++ numbered i = a' ++ numbered j) :
    a = a' ∧ i = j := by
  have hlist := congrArg String.toList h
  rw [String.toList_append, String.toList_append, toList_numbered, toList_numbered] at hlist
  obtain ⟨hstem, hdigits⟩ :=
    Text.append_cons_inj (dash_not_mem_toDigits i) (dash_not_mem_toDigits j) hlist
  exact ⟨String.toList_inj.mp hstem, Text.toDigits_inj hdigits⟩

variable {r : RunId}

theorem name?_of_count_ne_one (hcount : r.count ≠ 1) {name : String} (h : r.name? pr = some name) :
    ∃ a, name = a ++ numbered r.index := by
  unfold RunId.name? at h
  by_cases hcut : r.cut pr = true
  · rw [if_pos hcut] at h
    split at h
    · exact ⟨_, (Option.some.inj h).symm⟩
    · cases h
  · rw [if_neg hcut] at h
    have hsuffix : (numbered r.index).toList <:+ (pr.childName pr.name r.suffix).toList := by
      simpa [RunId.cut, hcount] using hcut
    obtain ⟨a, ha⟩ := hsuffix
    refine ⟨String.ofList a, ?_⟩
    rw [← Option.some.inj h, ← String.toList_inj, String.toList_append, String.toList_ofList, ha]

theorem RunId.head?_suffix (r : RunId) : r.suffix.toList.head? = some '-' := by
  unfold RunId.suffix
  split <;> simp

theorem RunId.suffix_eq_iff {r' : RunId} (htask : r.task ≠ r'.task) : r.suffix = r'.suffix ↔
      (r.count = 1 ∧ r'.count ≠ 1 ∧ r.task = r'.task ++ numbered r'.index) ∨
        (r'.count = 1 ∧ r.count ≠ 1 ∧ r'.task = r.task ++ numbered r.index) := by
  have hdash : ∀ {a b : String}, "-" ++ a = "-" ++ b ↔ a = b := by
    intro a b
    rw [← String.toList_inj, ← String.toList_inj, String.toList_append, String.toList_append]
    exact append_right_inj _
  unfold RunId.suffix
  by_cases hcount : r.count = 1
  · by_cases hcount' : r'.count = 1
    · simp [hcount, hcount', hdash, htask]
    · rw [if_pos hcount, if_neg hcount', String.append_assoc, hdash]
      simp [hcount, hcount']
  · by_cases hcount' : r'.count = 1
    · rw [if_neg hcount, if_pos hcount', String.append_assoc, hdash]
      simp [hcount, hcount', eq_comm]
    · rw [if_neg hcount, if_neg hcount']
      simp only [hcount, hcount', false_and, or_self, iff_false]
      intro heq
      exact htask (hdash.mp (append_numbered_inj heq).1)

/-- The run `r` of one task gets the name of the run `r'` of another. -/
def RunId.Clash (pr : PipelineRun) (d : Digest) (r r' : RunId) : Prop :=
  (r.cut pr = false ∧ r'.cut pr = false ∧
    (r.count = 1 ∧ r'.count ≠ 1 ∧ r.task = r'.task ++ numbered r'.index ∨
      OwnDigest d pr.name r.suffix r'.suffix)) ∨
  (r.cut pr = true ∧ r'.cut pr = true ∧ r.index = r'.index ∧ r.stem pr = r'.stem pr) ∨
  (r.cut pr = true ∧ r'.cut pr = false ∧
    pr.childName pr.name r'.suffix = r.stem pr ++ numbered r.index)

instance (pr : PipelineRun) (d : Digest) (r r' : RunId) : Decidable (r.Clash pr d r') :=
  inferInstanceAs (Decidable (_ ∨ _))

theorem OwnDigest.childName_eq {d : Digest} {parent s s' : String} (h : OwnDigest d parent s s') :
    childName d parent s = childName d parent s' := by
  rw [← String.toList_inj, childName_fits d h.fits, childName_short d h.hashed h.short]
  exact h.eq

theorem name?_eq_iff_clash {d : Digest} (hchild : pr.childName = childName d) {r' : RunId}
    (htask : r.task ≠ r'.task) (hr : (r.name? pr).isSome = true) (hr' : (r'.name? pr).isSome = true)
    (hinj : d.hex (pr.name ++ r.suffix) = d.hex (pr.name ++ r'.suffix) → r.suffix = r'.suffix) :
    r.name? pr = r'.name? pr ↔ r.Clash pr d r' ∨ r'.Clash pr d r := by
  have hcutName : ∀ {r : RunId}, (r.name? pr).isSome = true → r.cut pr = true →
      r.name? pr = some (r.stem pr ++ numbered r.index) := by
    intro r hr hcut
    unfold RunId.name? at hr ⊢
    rw [if_pos hcut] at hr ⊢
    split at hr
    · rename_i hlong
      rw [if_pos hlong]
    · cases hr
  have hwhole : ∀ {r : RunId}, r.cut pr = false →
      r.name? pr = some (pr.childName pr.name r.suffix) := by
    intro r hcut
    simp [RunId.name?, hcut]
  unfold RunId.Clash
  cases hcut : r.cut pr with
  | false =>
    cases hcut' : r'.cut pr with
    | false =>
      rw [hwhole hcut, hwhole hcut', Option.some.injEq, hchild]
      simp only [true_and, and_self, Bool.false_eq_true, false_and, or_false]
      constructor
      · intro heq
        rcases childName_inj d r.head?_suffix r'.head?_suffix hinj heq with heq | hown | hown
        · rcases (RunId.suffix_eq_iff htask).mp heq with h | h
          · exact .inl (.inl h)
          · exact .inr (.inl h)
        · exact .inl (.inr hown)
        · exact .inr (.inr hown)
      · rintro ((h | hown) | (h | hown))
        · rw [(RunId.suffix_eq_iff htask).mpr (.inl h)]
        · exact hown.childName_eq
        · rw [(RunId.suffix_eq_iff htask).mpr (.inr h)]
        · exact hown.childName_eq.symm
    | true =>
      rw [hwhole hcut, hcutName hr' hcut', Option.some.injEq]
      simp
  | true =>
    cases hcut' : r'.cut pr with
    | false =>
      rw [hcutName hr hcut, hwhole hcut', Option.some.injEq]
      simp [eq_comm]
    | true =>
      rw [hcutName hr hcut, hcutName hr' hcut', Option.some.injEq]
      simp only [Bool.true_eq_false, false_and, true_and, false_or, or_false]
      constructor
      · intro heq
        obtain ⟨hstem, hindex⟩ := append_numbered_inj heq
        exact .inl ⟨hindex, hstem⟩
      · rintro (⟨hindex, hstem⟩ | ⟨hindex, hstem⟩) <;> rw [hindex, hstem]

variable {tasks : List (String × Nat)}

theorem mem_runs : r ∈ runs tasks ↔ (r.task, r.count) ∈ tasks ∧ r.index < r.count := by
  unfold runs runsOf
  simp only [mem_flatMap, mem_map, mem_range]
  constructor
  · rintro ⟨⟨task, count⟩, hmem, i, hi, rfl⟩
    exact ⟨hmem, hi⟩
  · rintro ⟨hmem, hindex⟩
    exact ⟨(r.task, r.count), hmem, r.index, hindex, rfl⟩

theorem nodup_runs (h : (tasks.map (·.1)).Nodup) : (runs tasks).Nodup := by
  unfold runs runsOf
  rw [nodup_flatMap]
  refine ⟨fun t _ => List.Nodup.map (fun i j hij => ?_) nodup_range, ?_⟩
  · simpa using hij
  · refine (pairwise_map.mp h).imp fun {t u} hne => ?_
    intro r hr hr'
    obtain ⟨i, -, rfl⟩ := mem_map.mp hr
    obtain ⟨j, -, heq⟩ := mem_map.mp hr'
    exact hne (congrArg RunId.task heq).symm

theorem flatMap_getNewRunNames (h : ∀ r ∈ runs tasks, (r.name? pr).isSome = true) :
    (runs tasks).map (RunId.name? pr) =
      (tasks.flatMap fun t => getNewRunNames pr t.1 t.2).map some := by
  unfold runs at h ⊢
  rw [map_flatMap, map_flatMap]
  refine flatMap_congr fun t ht => getNewRunNames_of_name? fun r hr => ?_
  exact h r (mem_flatMap.mpr ⟨t, ht, hr⟩)

/-- The names of all the runs of a PipelineRun are returned and distinct exactly where no name
is cut that is too short for it and no run of a task gets the name of a run of another. -/
theorem runNames_distinct_iff (d : Digest) (pr : PipelineRun) (hchild : pr.childName = childName d)
    (tasks : List (String × Nat)) (hnames : (tasks.map (·.1)).Nodup)
    (hinj : ∀ r ∈ runs tasks, ∀ r' ∈ runs tasks,
      d.hex (pr.name ++ r.suffix) = d.hex (pr.name ++ r'.suffix) → r.suffix = r'.suffix) :
    ((∀ r ∈ runs tasks, (r.name? pr).isSome = true) ∧
      (tasks.flatMap fun t => getNewRunNames pr t.1 t.2).Nodup) ↔
    ((∀ r ∈ runs tasks, r.cut pr = true →
        r.longest ≤ (pr.childName pr.name ("-" ++ r.task)).toList.length) ∧
      ∀ r ∈ runs tasks, ∀ r' ∈ runs tasks, r.task ≠ r'.task → ¬ r.Clash pr d r') := by
  have hsome : (∀ r ∈ runs tasks, (r.name? pr).isSome = true) ↔
      ∀ r ∈ runs tasks, r.cut pr = true →
        r.longest ≤ (pr.childName pr.name ("-" ++ r.task)).toList.length := by
    refine forall₂_congr fun r _ => ?_
    unfold RunId.name?
    by_cases hcut : r.cut pr = true <;> simp [hcut]
  rw [← hsome]
  refine and_congr_right fun hall => ?_
  have hdistinct : (tasks.flatMap fun t => getNewRunNames pr t.1 t.2).Nodup ↔
      ((runs tasks).map (RunId.name? pr)).Nodup := by
    rw [flatMap_getNewRunNames hall]
    exact (nodup_map_iff (Option.some_injective _)).symm
  rw [hdistinct]
  constructor
  · intro hnodup r hr r' hr' htask hclash
    have heq := (name?_eq_iff_clash hchild htask (hall r hr) (hall r' hr') (hinj r hr r' hr')).mpr
      (.inl hclash)
    exact htask (congrArg RunId.task (inj_on_of_nodup_map hnodup hr hr' heq))
  · intro hclash
    refine (nodup_runs hnames).map_on fun r hr r' hr' heq => ?_
    by_cases htask : r.task = r'.task
    · -- two runs of one task differ in their number
      obtain ⟨hmem, hindex⟩ := mem_runs.mp hr
      obtain ⟨hmem', hindex'⟩ := mem_runs.mp hr'
      have hcount : r.count = r'.count := by
        have := inj_on_of_nodup_map hnames hmem hmem' htask
        exact congrArg Prod.snd this
      have hnumber : r.index = r'.index := by
        by_cases hone : r.count = 1
        · omega
        · obtain ⟨name, hname⟩ := Option.isSome_iff_exists.mp (hall r hr)
          obtain ⟨a, ha⟩ := name?_of_count_ne_one hone hname
          obtain ⟨a', ha'⟩ := name?_of_count_ne_one (hcount ▸ hone) (heq ▸ hname)
          exact (append_numbered_inj (ha.symm.trans ha')).2
      obtain ⟨task, count, index⟩ := r
      obtain ⟨task', count', index'⟩ := r'
      exact RunId.mk.injEq .. ▸ ⟨htask, hcount, hnumber⟩
    · rcases (name?_eq_iff_clash hchild htask (hall r hr) (hall r' hr') (hinj r hr r' hr')).mp heq
        with h | h
      · exact (hclash r hr r' hr' htask h).elim
      · exact (hclash r' hr' r hr (Ne.symm htask) h).elim

/-- A digest of one digit, the sum of the characters. -/
def sumDigest : Digest where
  hex := fun s => String.ofList
    (List.replicate 31 '0' ++ [Nat.digitChar ((s.toList.map Char.toNat).sum % 16)])
  length_hex := by simp
  isHexDigit_of_mem := by
    intro s c hc
    have hdigit : ∀ n < 16, isHexDigit (Nat.digitChar n) = true := by decide
    simp only [String.toList_ofList, mem_append, mem_replicate, mem_singleton] at hc
    rcases hc with ⟨-, rfl⟩ | rfl
    · decide
    · exact hdigit _ (Nat.mod_lt _ (by decide))

theorem ends_nil : ∀ l ∈ ([] : List (String × String)), l.1 ∈ ([] : List String) ∧ l.2 ∈ [] :=
  fun _ hl => absurd hl not_mem_nil

theorem nexts_nil : (⟨[], [], []⟩ : Graph).nexts = [] := rfl

def noTasks : Dag where
  nodes := []
  links := []
  nodup := nodup_nil
  inverse := nexts_nil
  ends := ends_nil
  acyclic := acyclic_nil

theorem noTasks_built : BuiltFrom noTasks [] := by
  unfold BuiltFrom
  decide +kernel

def namedRun (name : String) : PipelineRun where
  name := name
  childName := childName sumDigest
  evaluate := fun _ => .ok true
  tasks := []
  finallyTasks := []
  tasksGraph := noTasks
  built := noTasks_built
  nodup := nodup_nil

theorem release_names_distinct : ([("scan", 2), ("build", 1)].flatMap fun t =>
      getNewRunNames (namedRun "release") t.1 t.2).Nodup := by
  exact ((runNames_distinct_iff sumDigest (namedRun "release") rfl [("scan", 2), ("build", 1)]
    (by decide) (by decide +kernel)).mpr (by decide +kernel)).2

/-- A task named like a run of another, two names cut to the same text, and a name that is too
short to be cut. -/
theorem release_names_clash :
    ([("scan", 2), ("scan-0", 1)].flatMap fun t => getNewRunNames (namedRun "release") t.1 t.2) =
      ["release-scan-0", "release-scan-1", "release-scan-0"] ∧
    (getNewRunNames (namedRun "release-candidate-for-the-gateway")
        "verify-rollout-of-cluster-eu" 2).head? =
      (getNewRunNames (namedRun "release-candidate-for-the-gateway")
        "verify-rollout-of-cluster-es" 2).head? ∧
    RunId.name? (namedRun "ci")
      ⟨"a-------------------------------------------------------------b", 2, 0⟩ = none := by
  decide +kernel

end TektonPipeline.Pipeline
