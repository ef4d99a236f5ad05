import TektonPipeline.ComputeResources.Quantities

/-! Several LimitRanges of one namespace, taken for a single one. -/

namespace TektonPipeline.ComputeResources
open List

inductive LimitType where
  | container
  | pod
  | persistentVolumeClaim
  | other (name : String)
  deriving DecidableEq

inductive Field where
  | min
  | max
  | default
  | defaultRequest
  | maxLimitRequestRatio
  deriving DecidableEq

/-- The resource lists of an item, by what is read from them. -/
abbrev Amounts := Field → ResourceName → Int

structure LimitRangeItem where
  type : LimitType
  amounts : Amounts

structure LimitRange where
  limits : List LimitRangeItem

def resourceNames : List ResourceName := [.cpu, .memory, .ephemeralStorage]

/-- The bounds are not looked at. -/
def minOfBetween (a b _min _max : Int) : Int := if a = 0 ∨ b < a then b else a

/-- The new entry of a list, from the one that is there and that of an item. The default request
for storage is given the bounds of the processor. -/
def combine (v : Amounts) (f : Field) (k : ResourceName) (b : Int) : Int :=
  let k' := if f = .defaultRequest ∧ k = .ephemeralStorage then .cpu else k
  match f with
  | .min => maxRequest [v f k, b]
  | .max | .maxLimitRequestRatio => minLimit [v f k, b]
  | .default | .defaultRequest => minOfBetween (v f k) b (v .min k') (v .max k')

/-- `m[item.Type]`, made where it is missing. -/
def addItem (fields : List Field) (m : LimitType → Option Amounts) (item : LimitRangeItem) :
    LimitType → Option Amounts :=
  let v := (m item.type).getD fun _ _ => 0
  Function.update m item.type (some fun f k =>
    if f ∈ fields ∧ k ∈ resourceNames then combine v f k (item.amounts f k) else v f k)

/-- The limits of a LimitRange that is made are a map by their types, in an order that is not
fixed. -/
inductive VirtualLimitRange where
  | none
  | one (limitRange : LimitRange)
  | several (limits : LimitType → Option Amounts)

def virtualLimits (items : List LimitRangeItem) : LimitType → Option Amounts :=
  items.foldl (addItem [.default, .defaultRequest])
    (items.foldl (addItem [.min, .max, .maxLimitRequestRatio]) fun _ => none)

def getVirtualLimitRange (limitRanges : List LimitRange) : VirtualLimitRange :=
  match limitRanges with
  | [] => .none
  | [lr] => .one lr
  | lrs => .several (virtualLimits (lrs.flatMap (·.limits)))

/-! ## What is meant -/

def readings (f : Field) (t : LimitType) (k : ResourceName) (limitRanges : List LimitRange) :
    List Int :=
  ((limitRanges.flatMap (·.limits)).filter fun item => item.type = t).map fun item =>
    item.amounts f k

/-- Zero is unset. -/
def IsSmallest (q : Int) (l : List Int) : Prop :=
  q = 0 ∧ (∀ x ∈ l, x = 0) ∨ q ≠ 0 ∧ q ∈ l ∧ ∀ x ∈ l, x ≠ 0 → q ≤ x

def IsLargest (q : Int) (l : List Int) : Prop := (q = 0 ∨ q ∈ l) ∧ 0 ≤ q ∧ ∀ x ∈ l, x ≤ q

structure Meets (limitRanges : List LimitRange) : Prop where
  order : ∀ other, other.Perm limitRanges →
    getVirtualLimitRange other = getVirtualLimitRange limitRanges
  combined : ∃ limits, getVirtualLimitRange limitRanges = .several limits ∧
    ∀ t v, limits t = some v → ∀ k ∈ resourceNames,
      IsLargest (v .min k) (readings .min t k limitRanges) ∧
      ∀ f, f ≠ .min → IsSmallest (v f k) (readings f t k limitRanges)

/-- In no LimitRange the value is left out without the smallest one after that, unless it is
left out everywhere or less than nothing somewhere. -/
def Kept (limitRanges : List LimitRange) (f : Field) (t : LimitType) (k : ResourceName) : Prop :=
  (∃ x ∈ readings f t k limitRanges, x < 0) ∨ (∀ x ∈ readings f t k limitRanges, x = 0) ∨
    ∀ lr ∈ limitRanges, ∀ before after, readings f t k [lr] = before ++ 0 :: after →
      ∃ x ∈ after, x ≠ 0 ∧ ∀ y ∈ readings f t k limitRanges, y ≠ 0 → x ≤ y

/-! ## The smallest and the largest -/

theorem minLimit_append (l : List Int) (y : Int) :
    minLimit (l ++ [y]) = minLimit [minLimit l, y] := by
  simp [minLimit]

theorem minLimit_pair (x y : Int) :
    minLimit [x, y] = if x = 0 then y else if y < x then y else x := by
  simp [minLimit]

theorem maxRequest_append (l : List Int) (y : Int) :
    maxRequest (l ++ [y]) = if maxRequest l < y then y else maxRequest l := by
  rw [maxRequest, foldl_append]
  rfl

theorem maxRequest_isLargest (l : List Int) : IsLargest (maxRequest l) l := by
  induction l using List.reverseRecOn with
  | nil => simp [IsLargest, maxRequest]
  | append_singleton l y ih =>
    obtain ⟨hmem, hnonneg, hle⟩ := ih
    simp only [IsLargest, maxRequest_append, mem_append, mem_singleton, or_imp,
      forall_and, forall_eq]
    split
    · exact ⟨.inr (.inr rfl), by omega, fun x hx => by have := hle x hx; omega, Int.le_refl y⟩
    · exact ⟨hmem.imp_right .inl, hnonneg, hle, by omega⟩

theorem maxRequest_pair (l : List Int) (y : Int) :
    maxRequest (l ++ [y]) = maxRequest [maxRequest l, y] := by
  have hnonneg := (maxRequest_isLargest l).2.1
  rw [maxRequest_append]
  simp only [maxRequest, foldl_cons, foldl_nil] at hnonneg ⊢
  generalize l.foldl _ 0 = m at *
  grind

theorem IsSmallest.minLimit_append {m y : Int} {l : List Int} (h : IsSmallest m l) (hy : y ≠ 0) :
    IsSmallest (minLimit [m, y]) (l ++ [y]) := by
  rw [minLimit_pair]
  simp only [IsSmallest, mem_append, mem_singleton, or_imp, forall_and, forall_eq]
  rcases h with ⟨rfl, hzero⟩ | ⟨hm, hmem, hle⟩
  · exact .inr ⟨hy, .inr rfl, fun x hx hne => absurd (hzero x hx) hne, fun _ => Int.le_refl y⟩
  · rw [if_neg hm]
    split
    · exact .inr ⟨hy, .inr rfl, fun x hx hne => by have := hle x hx hne; omega, fun _ =>
        Int.le_refl y⟩
    · exact .inr ⟨hm, .inl hmem, hle, fun _ => by omega⟩

/-- Only what stands behind the last zero is looked at. -/
theorem minLimit_cases (l : List Int) :
    (minLimit l < 0 ∧ minLimit l ∈ l ∧ ∀ x ∈ l, minLimit l ≤ x) ∨
      (∀ x ∈ l, 0 ≤ x) ∧ ∃ before after, 0 :: l = before ++ 0 :: after ∧ 0 ∉ after ∧
        IsSmallest (minLimit l) after := by
  induction l using List.reverseRecOn with
  | nil => exact .inr ⟨by simp, [], [], rfl, by simp, .inl ⟨rfl, by simp⟩⟩
  | append_singleton l y ih =>
    rw [minLimit_append, forall_mem_append, forall_mem_append, forall_mem_singleton,
      forall_mem_singleton, mem_append, mem_singleton]
    rcases ih with ⟨hneg, hmem, hle⟩ | ⟨hnonneg, before, after, hl, hafter, hsmall⟩
    · rw [minLimit_pair, if_neg (by omega)]
      split
      · exact .inl ⟨by omega, .inr rfl, fun x hx => by have := hle x hx; omega, Int.le_refl y⟩
      · exact .inl ⟨hneg, .inl hmem, hle, by omega⟩
    have hm : 0 ≤ minLimit l := by
      rcases hsmall with ⟨hm, -⟩ | ⟨-, hm, -⟩
      · omega
      · have hin : minLimit l ∈ 0 :: l := hl ▸ mem_append_right _ (mem_cons_of_mem _ hm)
        rcases mem_cons.mp hin with hin | hin
        · omega
        · exact hnonneg _ hin
    rcases Int.lt_trichotomy y 0 with hy | rfl | hy
    · have hvalue : minLimit [minLimit l, y] = y := by
        rw [minLimit_pair]
        split
        · rfl
        · exact if_pos (by omega)
      rw [hvalue]
      exact .inl ⟨hy, .inr rfl, fun x hx => by have := hnonneg x hx; omega, Int.le_refl y⟩
    · have hvalue : minLimit [minLimit l, 0] = 0 := by
        rw [minLimit_pair]
        split
        · rfl
        · exact if_pos (by omega)
      rw [hvalue]
      exact .inr ⟨⟨hnonneg, Int.le_refl 0⟩, 0 :: l, [], rfl, by simp, .inl ⟨rfl, by simp⟩⟩
    · refine .inr
        ⟨⟨hnonneg, by omega⟩, before, after ++ [y], ?_, ?_, hsmall.minLimit_append (by omega)⟩
      · rw [← cons_append, hl, append_assoc, cons_append]
      · simp only [mem_append, mem_singleton, hafter, false_or]
        omega

theorem subset_of_last_zero {before after before' after' : List Int}
    (h : before ++ 0 :: after = before' ++ 0 :: after') (hafter : 0 ∉ after) : after ⊆ after' := by
  rcases append_eq_append_iff.mp h with ⟨t, -, ht⟩ | ⟨t, -, ht⟩
  · cases t with
    | nil => simp_all
    | cons z t =>
      obtain ⟨-, rfl⟩ := List.cons.inj ht
      simp at hafter
  · cases t with
    | nil => simp_all
    | cons z t =>
      obtain ⟨-, rfl⟩ := List.cons.inj ht
      simp

theorem minLimit_isSmallest_iff (l : List Int) :
    IsSmallest (minLimit l) l ↔ (∃ x ∈ l, x < 0) ∨ (∀ x ∈ l, x = 0) ∨
      ∀ before after, l = before ++ 0 :: after → ∃ x ∈ after, x ≠ 0 ∧ ∀ y ∈ l, y ≠ 0 → x ≤ y := by
  rcases minLimit_cases l with ⟨hneg, hmem, hle⟩ | ⟨hnonneg, before, after, hl, hafter, hsmall⟩
  · exact iff_of_true (.inr ⟨by omega, hmem, fun x hx _ => hle x hx⟩) (.inl ⟨_, hmem, hneg⟩)
  have hsub : ∀ x ∈ after, x ∈ l := by
    intro x hx
    have hin : x ∈ 0 :: l := hl ▸ mem_append_right _ (mem_cons_of_mem _ hx)
    exact (mem_cons.mp hin).resolve_left fun h => hafter (h ▸ hx)
  constructor
  · rintro (⟨-, hzero⟩ | ⟨hm, hmem, hle⟩)
    · exact .inr (.inl hzero)
    · refine .inr (.inr fun before' after' hl' => ⟨minLimit l, ?_, hm, hle⟩)
      have hin : minLimit l ∈ after := (hsmall.resolve_left fun h => hm h.1).2.1
      have hsplit : before ++ 0 :: after = (0 :: before') ++ 0 :: after' := by
        rw [← hl, hl', cons_append]
      exact subset_of_last_zero hsplit hafter hin
  · rintro (⟨x, hx, hlt⟩ | hzero | hkept)
    · have := hnonneg x hx
      omega
    · refine .inl ⟨?_, hzero⟩
      rcases hsmall with ⟨hm, -⟩ | ⟨-, hm, -⟩
      · exact hm
      · exact hzero _ (hsub _ hm)
    · cases before with
      | nil =>
        obtain rfl := (List.cons.inj hl).2
        exact hsmall
      | cons z before =>
        obtain ⟨x, hx, hne, hle⟩ := hkept before after (List.cons.inj hl).2
        rcases hsmall with ⟨-, hzero⟩ | ⟨hm, hmem, hleast⟩
        · exact absurd (hzero x hx) hne
        · exact .inr
            ⟨hm, hsub _ hmem, fun y hy hy0 => Int.le_trans (hleast x hx hne) (hle y hy hy0)⟩

theorem IsSmallest.unique {q q' : Int} {l : List Int} (h : IsSmallest q l) (h' : IsSmallest q' l) :
    q = q' := by
  rcases h with ⟨rfl, hzero⟩ | ⟨hne, hmem, hle⟩ <;>
    rcases h' with ⟨rfl, hzero'⟩ | ⟨hne', hmem', hle'⟩
  · rfl
  · exact absurd (hzero _ hmem') hne'
  · exact absurd (hzero' _ hmem) hne
  · exact Int.le_antisymm (hle _ hmem' hne') (hle' _ hmem hne)

theorem IsLargest.le {q q' : Int} {l l' : List Int} (h : IsLargest q l) (h' : IsLargest q' l')
    (hsub : ∀ x ∈ l, x ∈ l') : q ≤ q' := by
  rcases h.1 with rfl | hmem
  · exact h'.2.1
  · exact h'.2.2 q (hsub q hmem)

/-! ## The virtual LimitRange -/

/-- What the loops make of the readings of one entry. -/
def folded (f : Field) (l : List Int) : Int := if f = .min then maxRequest l else minLimit l

theorem folded_append (f : Field) (l : List Int) (y : Int) :
    folded f (l ++ [y]) = folded f [folded f l, y] := by
  unfold folded
  split
  · exact maxRequest_pair l y
  · exact minLimit_append l y

theorem combine_eq (v : Amounts) (f : Field) (k : ResourceName) (b : Int) :
    combine v f k b = folded f [v f k, b] := by
  have hbetween : ∀ a min max, minOfBetween a b min max = minLimit [a, b] := by
    intro a min max
    rw [minLimit_pair, minOfBetween]
    by_cases ha : a = 0 <;> simp [ha]
  cases f <;> simp [combine, folded, hbetween]

theorem foldl_addItem (fields : List Field) (items : List LimitRangeItem)
    (m : LimitType → Option Amounts) (t : LimitType) : items.foldl (addItem fields) m t =
      if (items.filter fun item => item.type = t) = [] then m t else some fun f k =>
        if f ∈ fields ∧ k ∈ resourceNames then
          ((items.filter fun item => item.type = t).map fun item => item.amounts f k).foldl
            (fun a b => folded f [a, b]) (((m t).getD fun _ _ => 0) f k)
        else ((m t).getD fun _ _ => 0) f k := by
  induction items generalizing m with
  | nil => rfl
  | cons item items ih =>
    rw [foldl_cons, ih]
    by_cases ht : item.type = t
    · subst ht
      by_cases hrest : (items.filter fun other => other.type = item.type) = [] <;>
        simp +contextual [addItem, hrest, combine_eq]
    · have hne : t ≠ item.type := Ne.symm ht
      simp [addItem, ht, Function.update_of_ne hne]

section
variable {limitRanges other : List LimitRange} {f : Field} {t : LimitType} {k : ResourceName}

theorem virtualLimits_eq (items : List LimitRangeItem) (t : LimitType) : virtualLimits items t =
      if (items.filter fun item => item.type = t) = [] then none else some fun f k =>
        if k ∈ resourceNames then
          folded f ((items.filter fun item => item.type = t).map fun item => item.amounts f k)
        else 0 := by
  have hfolded : ∀ f l, l.foldl (fun a b => folded f [a, b]) 0 = folded f l := by
    intro f l
    induction l using List.reverseRecOn with
    | nil => cases f <;> rfl
    | append_singleton l y ih => rw [foldl_append, ih, folded_append, foldl_cons,
        foldl_nil]
  rw [virtualLimits, foldl_addItem, foldl_addItem]
  by_cases hitems : (items.filter fun item => item.type = t) = []
  · simp [hitems]
  · simp only [hitems, if_false, Option.getD_none, Option.getD_some, hfolded]
    refine congrArg some (funext fun f => funext fun k => ?_)
    cases f <;> by_cases hk : k ∈ resourceNames <;> simp [hk, hfolded]

theorem value_of_limits {v : Amounts} (hk : k ∈ resourceNames)
    (h : virtualLimits (limitRanges.flatMap (·.limits)) t = some v) :
    v f k = folded f (readings f t k limitRanges) := by
  rw [virtualLimits_eq] at h
  split at h
  · cases h
  · rw [← Option.some.inj h]
    exact if_pos hk

theorem several_of_length (hlen : 2 ≤ limitRanges.length) : getVirtualLimitRange limitRanges =
      .several (virtualLimits (limitRanges.flatMap (·.limits))) := by
  cases limitRanges with
  | nil => simp at hlen
  | cons lr rest =>
    cases rest with
    | nil => simp at hlen
    | cons lr' rest => rfl

theorem readings_perm (h : other.Perm limitRanges) :
    (readings f t k other).Perm (readings f t k limitRanges) :=
  ((h.flatMap_right _).filter _).map _

/-- What is read as zero is so in one of the LimitRanges. -/
theorem split_readings {before after : List Int}
    (h : readings f t k limitRanges = before ++ 0 :: after) :
    ∃ lr ∈ limitRanges, ∃ before' after', readings f t k [lr] = before' ++ 0 :: after' ∧
      after' ⊆ after := by
  induction limitRanges generalizing before with
  | nil => simp [readings] at h
  | cons lr rest ih =>
    have hcons : readings f t k (lr :: rest) = readings f t k [lr] ++ readings f t k rest := by
      simp [readings]
    rw [hcons] at h
    rcases append_eq_append_iff.mp h with ⟨l, -, hl⟩ | ⟨l, hlr, hl⟩
    · obtain ⟨lr', hlr', hsplit⟩ := ih hl
      exact ⟨lr', mem_cons_of_mem _ hlr', hsplit⟩
    · cases l with
      | nil =>
        obtain ⟨lr', hlr', hsplit⟩ := ih (show readings f t k rest = [] ++ 0 :: after from hl.symm)
        exact ⟨lr', mem_cons_of_mem _ hlr', hsplit⟩
      | cons z l =>
        obtain ⟨rfl, rfl⟩ := List.cons.inj hl
        exact ⟨lr, mem_cons_self, before, l, hlr, subset_append_left _ _⟩

theorem Kept.isSmallest (h : Kept limitRanges f t k) :
    IsSmallest (minLimit (readings f t k limitRanges)) (readings f t k limitRanges) := by
  rw [minLimit_isSmallest_iff]
  refine h.imp_right (Or.imp_right fun hkept before after hsplit => ?_)
  obtain ⟨lr, hlr, before', after', hlr', hsub⟩ := split_readings hsplit
  obtain ⟨x, hx, hleast⟩ := hkept lr hlr before' after' hlr'
  exact ⟨x, hsub hx, hleast⟩

theorem Kept.minLimit_eq (h : Kept limitRanges f t k) (hperm : other.Perm limitRanges) :
    minLimit (readings f t k other) = minLimit (readings f t k limitRanges) := by
  have hmem : ∀ x, x ∈ readings f t k other ↔ x ∈ readings f t k limitRanges :=
    fun _ => (readings_perm hperm).mem_iff
  have hother : Kept other f t k := by simpa only [Kept, hmem, hperm.mem_iff] using h
  have hsmallest : IsSmallest (minLimit (readings f t k other)) (readings f t k limitRanges) := by
    simpa only [IsSmallest, hmem] using hother.isSmallest
  exact hsmallest.unique h.isSmallest

theorem maxRequest_perm (hperm : other.Perm limitRanges) :
    maxRequest (readings f t k other) = maxRequest (readings f t k limitRanges) :=
  Int.le_antisymm
    ((maxRequest_isLargest _).le (maxRequest_isLargest _) fun _ => (readings_perm hperm).mem_iff.mp)
    ((maxRequest_isLargest _).le (maxRequest_isLargest _) fun _ =>
      (readings_perm hperm).mem_iff.mpr)

end

/-- A value that one LimitRange leaves out is forgotten from those before it. -/
theorem limitRanges_meet_iff (limitRanges : List LimitRange) (hlen : 2 ≤ limitRanges.length) :
    Meets limitRanges ↔ ∀ t, ∀ k ∈ resourceNames, ∀ f, f ≠ .min → Kept limitRanges f t k := by
  constructor
  · intro h t k hk f hf
    by_cases hzero : ∀ x ∈ readings f t k limitRanges, x = 0
    · exact .inr (.inl hzero)
    refine or_iff_not_imp_left.mpr fun hneg => .inr fun lr hlr before after hsplit => ?_
    -- the LimitRange comes last in some order
    obtain ⟨l, r, rfl⟩ := append_of_mem hlr
    have hperm : (l ++ r ++ [lr]).Perm (l ++ lr :: r) :=
      (perm_append_singleton lr _).trans perm_middle.symm
    have hlast : readings f t k (l ++ r ++ [lr]) =
        readings f t k (l ++ r) ++ before ++ 0 :: after := by
      rw [append_assoc _ before, ← hsplit]
      simp [readings]
    obtain ⟨limits, hlimits, hcombined⟩ := h.combined
    have hother := (h.order _ hperm).trans hlimits
    rw [several_of_length (by simpa using hlen), VirtualLimitRange.several.injEq] at hother
    obtain ⟨v, hv⟩ : ∃ v, limits t = some v := by
      rw [← hother, virtualLimits_eq]
      split
      · rename_i hnil
        rw [readings, hnil] at hlast
        simp at hlast
      · exact ⟨_, rfl⟩
    have hvalue : v f k = folded f (readings f t k (l ++ r ++ [lr])) :=
      value_of_limits hk (hother.symm ▸ hv)
    have hsmallest := (hcombined t v hv k hk).2 f hf
    rw [hvalue, folded, if_neg hf] at hsmallest
    have hmem : ∀ x, x ∈ readings f t k (l ++ lr :: r) ↔ x ∈ readings f t k (l ++ r ++ [lr]) :=
      fun _ => (readings_perm hperm).mem_iff.symm
    simp only [IsSmallest, hmem] at hsmallest hzero hneg ⊢
    exact (((minLimit_isSmallest_iff _).mp hsmallest).resolve_left hneg).resolve_left
      hzero _ _ hlast
  · intro hkept
    refine ⟨fun other hperm => ?_, ⟨_, several_of_length hlen, fun t v hv k hk => ⟨?_, ?_⟩⟩⟩
    · rw [several_of_length hlen, several_of_length (hperm.length_eq ▸ hlen)]
      refine congrArg _ (funext fun t => ?_)
      have hitems := (hperm.flatMap_right (·.limits)).filter fun item => item.type = t
      rw [virtualLimits_eq, virtualLimits_eq]
      by_cases hnil : ((limitRanges.flatMap (·.limits)).filter fun item => item.type = t) = []
      · rw [if_pos hnil, if_pos (perm_nil.mp (hnil ▸ hitems))]
      · rw [if_neg hnil, if_neg fun h => hnil (nil_perm.mp (by rwa [h] at hitems))]
        refine congrArg some (funext fun f => funext fun k => ?_)
        by_cases hk : k ∈ resourceNames
        · rw [if_pos hk, if_pos hk]
          by_cases hf : f = .min
          · simpa [folded, hf, readings] using maxRequest_perm hperm
          · simpa [folded, hf, readings] using (hkept t k hk f hf).minLimit_eq hperm
        · rw [if_neg hk, if_neg hk]
    · rw [value_of_limits hk hv]
      exact maxRequest_isLargest _
    · intro f hf
      rw [value_of_limits hk hv, folded, if_neg hf]
      exact (hkept t k hk f hf).isSmallest

def cpuOnly (f : Field) (q : Int) : Amounts := fun f' k => if f' = f ∧ k = .cpu then q else 0

def maxTwo : LimitRange := ⟨[⟨.container, cpuOnly .max 2000000000⟩]⟩

def minOne : LimitRange := ⟨[⟨.container, cpuOnly .min 1000000000⟩]⟩

def maxThree : LimitRange := ⟨[⟨.container, cpuOnly .max 3000000000⟩]⟩

theorem maxima_meet : 2 ≤ [maxTwo, maxThree].length ∧ Meets [maxTwo, maxThree] := by
  refine ⟨by decide, (limitRanges_meet_iff _ (by decide)).mpr fun t k hk f hf => ?_⟩
  by_cases hcpu : f = .max ∧ k = .cpu
  · refine .inr (.inr fun lr hlr before after hsplit => ?_)
    have hzero : 0 ∈ readings f t k [lr] := by simp [hsplit]
    simp only [mem_cons, not_mem_nil, or_false] at hlr
    rcases hlr with rfl | rfl <;>
      simp [readings, maxTwo, maxThree, cpuOnly, hcpu.1, hcpu.2, filter_cons] at hzero
  · refine .inr (.inl fun x hx => ?_)
    obtain ⟨item, hitem, rfl⟩ := mem_map.mp hx
    have hcases := (mem_filter.mp hitem).1
    simp only [maxTwo, maxThree, flatMap_cons, flatMap_nil, append_nil,
      cons_append, nil_append, mem_cons, not_mem_nil, or_false] at hcases
    rcases hcases with rfl | rfl <;> exact if_neg hcpu

/-- A LimitRange with a minimum and no maximum makes the maximum of the others be forgotten. -/
theorem maximum_forgotten : ¬ Meets [maxTwo, minOne] := by
  intro h
  obtain ⟨limits, hlimits, hcombined⟩ := h.combined
  obtain rfl := VirtualLimitRange.several.inj hlimits
  have hsmallest := (hcombined .container _ rfl .cpu (by decide)).2 .max (by decide)
  have hvalue := hsmallest.resolve_right fun h => h.1 (by decide)
  exact absurd (hvalue.2 2000000000 (by decide)) (by decide)

end TektonPipeline.ComputeResources
