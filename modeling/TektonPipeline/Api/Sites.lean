import TektonPipeline.Library.Table
import TektonPipeline.Api.Replacements
import TektonPipeline.Api.Variables

/-! The places of a value at which string replacements are read. With the arrays and the
objects fixed, a substitution does to a value what the strings do to each of these places, so
two tables of strings give one result exactly where they agree on all of them. -/

namespace TektonPipeline.Api
open TektonPipeline.ResultRef List

/-- `whole` is the value of a parameter that is one reference; it is left alone where the
table has no entry for what it refers to. -/
inductive Site where
  | text (s : String)
  | whole (s : String) (exact : isExactVariableSubstitution s = true)
  deriving DecidableEq

def Site.apply (strings : List (String × String)) : Site → String
  | .text s => applyReplacements s strings
  | .whole s _ =>
    if (strings.lookup (stripStarVarSubExpression s)).isSome then applyReplacements s strings
    else s

def Site.source : Site → String
  | .text s => s
  | .whole s _ => s

def Agree (strings strings' : List (String × String)) (sites : List Site) : Prop :=
  ∀ x ∈ sites, x.apply strings = x.apply strings'

variable {α : Type}

section
variable {S S' : List (String × String)}

@[simp] theorem agree_nil : Agree S S' [] ↔ True := by
  simp [Agree]

variable {l : List Site}

@[simp] theorem agree_cons {x : Site} :
    Agree S S' (x :: l) ↔ x.apply S = x.apply S' ∧ Agree S S' l := by
  simp [Agree]

@[simp] theorem agree_append {l' : List Site} :
    Agree S S' (l ++ l') ↔ Agree S S' l ∧ Agree S S' l' := by
  simp [Agree, or_imp, forall_and]

@[simp] theorem agree_flatMap {l : List α} {f : α → List Site} :
    Agree S S' (l.flatMap f) ↔ ∀ a ∈ l, Agree S S' (f a) := by
  simp only [Agree, mem_flatMap]
  exact ⟨fun h a ha x hx => h x ⟨a, ha, hx⟩, fun h x ⟨a, ha, hx⟩ => h a ha x hx⟩

@[simp] theorem agree_map {l : List α} {f : α → Site} :
    Agree S S' (l.map f) ↔ ∀ a ∈ l, (f a).apply S = (f a).apply S' := by
  simp [Agree]

def Site.Names (key : String) : Site → Prop
  | .text s => Occurs key s
  | .whole s _ => Occurs key s ∨ stripStarVarSubExpression s = key

instance (key : String) : (x : Site) → Decidable (x.Names key)
  | .text s => inferInstanceAs (Decidable (Occurs key s))
  | .whole s _ => inferInstanceAs (Decidable (Occurs key s ∨ _))

theorem Site.apply_congr {x : Site} {Q : String → Bool} (hx : ∀ k, x.Names k → Q k = false)
    (h : Table.AgreeOff Q S S') : x.apply S = x.apply S' := by
  have htext : ∀ s, (∀ k, Occurs k s → Q k = false) →
      applyReplacements s S = applyReplacements s S' := by
    intro s hs
    have hkeep : ∀ k, Occurs k s → (!Q k) = true := fun k hk => by rw [hs k hk]; rfl
    rw [← applyReplacements_filter (r := S) (P := fun k => !Q k) hkeep,
      ← applyReplacements_filter (r := S') (P := fun k => !Q k) hkeep]
    exact congrArg _ h
  cases x with
  | text s => exact htext s hx
  | whole s _ =>
    have hlookup := h.lookup (hx _ (.inr rfl))
    have hsame := htext s fun k hk => hx k (.inl hk)
    simp only [Site.apply, hlookup, hsame]

theorem agree_of_agreeOff {Q : String → Bool} (hl : ∀ x ∈ l, ∀ k, x.Names k → Q k = false)
    (h : Table.AgreeOff Q S S') : Agree S S' l :=
  fun x hx => x.apply_congr (hl x hx) h

end

theorem flatMap_eq_iff {β : Type} {l : List α} {f g : α → List β}
    (hlen : ∀ a ∈ l, (f a).length = (g a).length) :
    l.flatMap f = l.flatMap g ↔ ∀ a ∈ l, f a = g a := by
  induction l with
  | nil => simp
  | cons a l ih =>
    have hl := ih fun b hb => hlen b (mem_cons_of_mem a hb)
    rw [flatMap_cons, flatMap_cons, forall_mem_cons, ← hl]
    constructor
    · intro h
      exact append_inj h (hlen a mem_cons_self)
    · intro ⟨ha, hrest⟩
      rw [ha, hrest]

/-- An element of an array that is not itself an array. -/
def itemSites (arrays : List (String × List String)) (s : String) : List Site :=
  if arrays.any fun e => s == "$(" ++ e.1 ++ ")" || s == "$(" ++ e.1 ++ "[*])" then []
  else [.text s]

variable {k s : String}

section
variable {S S' : List (String × String)} {A : List (String × List String)}

theorem applyArrayReplacements_eq_iff :
    applyArrayReplacements s S A = applyArrayReplacements s S' A ↔ Agree S S' (itemSites A s) := by
  induction A with
  | nil => simp [applyArrayReplacements, itemSites, Site.apply]
  | cons e A ih =>
    obtain ⟨k, v⟩ := e
    unfold applyArrayReplacements
    by_cases hs : s = "$(" ++ k ++ ")" ∨ s = "$(" ++ k ++ "[*])"
    · have hsites : itemSites ((k, v) :: A) s = [] := by
        rw [itemSites, if_pos (by simpa using .inl hs)]
      simp [hs, hsites]
    · have hsites : itemSites ((k, v) :: A) s = itemSites A s := by
        have hk : (s == "$(" ++ k ++ ")" || s == "$(" ++ k ++ "[*])") = false := by
          simpa using hs
        unfold itemSites
        rw [any_cons, hk, Bool.false_or]
      rw [if_neg hs, if_neg hs, hsites, ih]

theorem length_applyArrayReplacements (s : String) :
    (applyArrayReplacements s S A).length = (applyArrayReplacements s S' A).length := by
  induction A with
  | nil => rfl
  | cons e A ih =>
    obtain ⟨k, v⟩ := e
    unfold applyArrayReplacements
    split
    · rfl
    · exact ih

omit S S' A in
theorem star_reference (k : String) : "$(" ++ k ++ "[*])" = "$(" ++ (k ++ "[*]") ++ ")" := by
  rw [← String.toList_inj]
  simp

theorem applyArrayReplacements_eq_lookup
    (hs : ∀ e ∈ A, s = "$(" ++ e.1 ++ ")" ∨ s = "$(" ++ e.1 ++ "[*])" ↔ k = e.1) :
    applyArrayReplacements s S A = (A.lookup k).getD [applyReplacements s S] := by
  induction A with
  | nil => rfl
  | cons e A ih =>
    obtain ⟨hhead, htail⟩ := forall_mem_cons.mp hs
    unfold applyArrayReplacements
    rw [lookup_cons]
    by_cases heq : k = e.1
    · rw [if_pos (hhead.mpr heq), heq, beq_self_eq_true]
      rfl
    · rw [if_neg (mt hhead.mp heq), ih htail, beq_false_of_ne heq]

theorem applyArrayReplacements_whole (hk : ∀ e ∈ A, k ≠ e.1 ++ "[*]") :
    applyArrayReplacements ("$(" ++ k ++ ")") S A =
      (A.lookup k).getD [applyReplacements ("$(" ++ k ++ ")") S] :=
  applyArrayReplacements_eq_lookup fun e he => by simp [star_reference, hk e he]

theorem applyArrayReplacements_star (hk : ∀ e ∈ A, e.1 ≠ k ++ "[*]") :
    applyArrayReplacements ("$(" ++ (k ++ "[*]") ++ ")") S A =
      (A.lookup k).getD [applyReplacements ("$(" ++ (k ++ "[*]") ++ ")") S] :=
  applyArrayReplacements_eq_lookup fun e he => by simp [star_reference, (hk e he).symm]

theorem applyArrayReplacements_of_ne
    (hs : ∀ e ∈ A, s ≠ "$(" ++ e.1 ++ ")" ∧ s ≠ "$(" ++ e.1 ++ "[*])") :
    applyArrayReplacements s S A = [applyReplacements s S] := by
  induction A with
  | nil => rfl
  | cons e A ih =>
    have hne := hs e mem_cons_self
    unfold applyArrayReplacements
    rw [if_neg (not_or.mpr hne)]
    exact ih fun e he => hs e (mem_cons_of_mem _ he)

@[simp] theorem flatMap_applyArrayReplacements_eq_iff {l : List String} :
    (l.flatMap fun s => applyArrayReplacements s S A) =
        (l.flatMap fun s => applyArrayReplacements s S' A) ↔
      Agree S S' (l.flatMap (itemSites A)) := by
  rw [flatMap_eq_iff fun s _ => length_applyArrayReplacements s, agree_flatMap]
  exact forall₂_congr fun s _ => applyArrayReplacements_eq_iff

end

theorem exists_of_isExactVariableSubstitution (h : isExactVariableSubstitution s = true) :
    ∃ v : String, s = "$(" ++ v ++ ")" ∧ IsVariable v.toList ∧
      (v = stripStarVarSubExpression s ∨ v = stripStarVarSubExpression s ++ "[*]") := by
  have hm : variableSubstitution s.toList = some s.toList.length := by
    simpa [isExactVariableSubstitution] using h
  obtain ⟨-, v, hv, hvar⟩ := variableSubstitution_accepts _ _ hm
  rw [take_length] at hv
  have hs : s = "$(" ++ String.ofList v ++ ")" := by
    rw [← String.toList_inj, hv]
    simp
  have hstrip : stripVarSubExpression s = String.ofList v := by
    rw [← String.ofList_toList (s := s), hv, stripVarSubExpression_variable]
  refine ⟨String.ofList v, hs, by rwa [String.toList_ofList], ?_⟩
  rw [stripStarVarSubExpression, hstrip]
  generalize String.ofList v = w
  rw [Text.trimSuffix]
  split
  · rename_i hsuffix
    obtain ⟨x, hx⟩ := isSuffixOf_iff_suffix.mp hsuffix
    right
    rw [← String.toList_inj, ← hx]
    simp
  · left
    rw [String.ofList_toList]

theorem plain_of_isVarChar (h : ∀ c ∈ k.toList, isVarChar c = true) : Plain k :=
  ⟨(bracket_not_mem h).2.1, (bracket_not_mem h).2.2⟩

theorem IsVariable.plain {v : String} (h : IsVariable v.toList) : Plain v := by
  refine ⟨h.dollar_not_mem, fun hmem => ?_⟩
  obtain ⟨body, index, hv, ⟨-, hbody⟩, hindex⟩ := h
  rw [hv, mem_append] at hmem
  rcases hmem with hmem | hmem
  · exact (bracket_not_mem hbody).2.2 hmem
  · rcases hindex with rfl | ⟨w, rfl, ⟨-, hdigit⟩ | rfl⟩
    · exact absurd hmem not_mem_nil
    · have hw : ')' ∉ w := fun h => absurd (hdigit _ h) (by decide)
      simp [hw] at hmem
    · revert hmem
      decide

theorem occurs_of_mem_validateString {expr : String} (h : expr ∈ validateString s) :
    Occurs expr s := by
  obtain ⟨w, hw, rfl⟩ := mem_map.mp h
  obtain ⟨v, rfl, -⟩ := variableSubstitution_accepts.mem_findAll hw
  rw [stripVarSubExpression_variable, Occurs, reference]
  have hinfix := Text.infix_of_mem_findAll hw
  simpa using hinfix

theorem Site.names_whole {exact : isExactVariableSubstitution s = true}
    (h : (Site.whole s exact).Names k) :
    ∃ v : String, s = "$(" ++ v ++ ")" ∧ IsVariable v.toList ∧ (v = k ∨ v = k ++ "[*]") ∧
      (v = stripStarVarSubExpression s ∨ v = stripStarVarSubExpression s ++ "[*]") := by
  obtain ⟨v, hs, hv, hstrip⟩ := exists_of_isExactVariableSubstitution exact
  refine ⟨v, hs, hv, ?_, hstrip⟩
  rcases h with hocc | rfl
  · rw [Occurs, hs] at hocc
    exact .inl (hv.plain.eq_of_reference_infix hocc).symm
  · exact hstrip

theorem itemSites_of_exact {A : List (String × List String)}
    (hs : isExactVariableSubstitution s = true)
    (hA : (A.lookup (stripStarVarSubExpression s)).isSome = true) : itemSites A s = [] := by
  obtain ⟨v, hv, -, hstrip⟩ := exists_of_isExactVariableSubstitution hs
  obtain ⟨e, he, hkey⟩ := mem_map.mp (Assoc.lookup_isSome.mp hA)
  rw [itemSites, if_pos]
  refine any_eq_true.mpr ⟨e, he, ?_⟩
  rw [Bool.or_eq_true, beq_iff_eq, beq_iff_eq, hkey]
  rcases hstrip with h | h
  · exact .inl (by rw [← h]; exact hv)
  · right
    rw [star_reference, ← h]
    exact hv

/-- The value of a parameter. One reference to an array or an object becomes that array or
object, whatever the strings are. -/
def ParamValue.sites (arrays : List (String × List String))
    (objects : List (String × List (String × String))) (v : ParamValue) : List Site :=
  match v.type with
  | .array => v.arrayVal.flatMap (itemSites arrays)
  | .object => v.objectVal.map fun e => .text e.2
  | .string =>
    let trimmed := stripStarVarSubExpression v.stringVal
    if exact : isExactVariableSubstitution v.stringVal = true then
      if (arrays.lookup trimmed).isSome || (objects.lookup trimmed).isSome then []
      else [.whole v.stringVal exact]
    else [.text v.stringVal]

section
variable {S S' : List (String × String)} {A : List (String × List String)}
  {O : List (String × List (String × String))}

variable {v : ParamValue}

theorem ParamValue.applyOrCorrect_text (hv : isExactVariableSubstitution v.stringVal = false) :
    v.applyOrCorrect ⟨S, A, O⟩ =
      { v with stringVal := (Site.text v.stringVal).apply S } := by
  simp [ParamValue.applyOrCorrect, hv, Site.apply]

theorem ParamValue.applyOrCorrect_object {o : List (String × String)}
    (hv : isExactVariableSubstitution v.stringVal = true)
    (hO : O.lookup (stripStarVarSubExpression v.stringVal) = some o) :
    v.applyOrCorrect ⟨S, A, O⟩ =
      { v with
        stringVal := ""
        arrayVal := if (A.lookup (stripStarVarSubExpression v.stringVal)).isSome then
            applyArrayReplacements v.stringVal S A else v.arrayVal
        objectVal := o
        type := .object } := by
  simp only [ParamValue.applyOrCorrect, hv, hO, Bool.not_true, Bool.false_eq_true, if_false]
  cases (A.lookup (stripStarVarSubExpression v.stringVal)).isSome <;>
    cases (S.lookup (stripStarVarSubExpression v.stringVal)).isSome <;> rfl

theorem ParamValue.applyOrCorrect_array (hv : isExactVariableSubstitution v.stringVal = true)
    (hO : O.lookup (stripStarVarSubExpression v.stringVal) = none)
    (hA : (A.lookup (stripStarVarSubExpression v.stringVal)).isSome = true) :
    v.applyOrCorrect ⟨S, A, O⟩ =
      { v with
        stringVal := ""
        arrayVal := applyArrayReplacements v.stringVal S A
        type := .array } := by
  simp only [ParamValue.applyOrCorrect, hv, hO, hA, Bool.not_true, Bool.false_eq_true, if_false,
    if_true]
  cases (S.lookup (stripStarVarSubExpression v.stringVal)).isSome <;> rfl

theorem ParamValue.applyOrCorrect_whole (hv : isExactVariableSubstitution v.stringVal = true)
    (hO : O.lookup (stripStarVarSubExpression v.stringVal) = none)
    (hA : (A.lookup (stripStarVarSubExpression v.stringVal)).isSome = false) :
    v.applyOrCorrect ⟨S, A, O⟩ =
      { v with stringVal := (Site.whole v.stringVal hv).apply S } := by
  simp only [ParamValue.applyOrCorrect, hv, hO, hA, Bool.not_true, Bool.false_eq_true, if_false,
    Site.apply]
  cases (S.lookup (stripStarVarSubExpression v.stringVal)).isSome <;> rfl

theorem ParamValue.applyOrCorrect_eq_iff (hv : v.type = .string) :
    v.applyOrCorrect ⟨S, A, O⟩ = v.applyOrCorrect ⟨S', A, O⟩ ↔ Agree S S' (v.sites A O) := by
  have harray : isExactVariableSubstitution v.stringVal = true →
      (A.lookup (stripStarVarSubExpression v.stringVal)).isSome = true →
        applyArrayReplacements v.stringVal S A = applyArrayReplacements v.stringVal S' A := by
    intro hexact hA
    rw [applyArrayReplacements_eq_iff, itemSites_of_exact hexact hA, agree_nil]
    trivial
  unfold ParamValue.sites
  rw [hv]
  by_cases hexact : isExactVariableSubstitution v.stringVal = true
  · cases hO : O.lookup (stripStarVarSubExpression v.stringVal) with
    | some o =>
      rw [applyOrCorrect_object hexact hO, applyOrCorrect_object hexact hO]
      cases hA : (A.lookup (stripStarVarSubExpression v.stringVal)).isSome <;>
        simp [harray hexact, hA, hO, hexact]
    | none =>
      cases hA : (A.lookup (stripStarVarSubExpression v.stringVal)).isSome with
      | true =>
        rw [applyOrCorrect_array hexact hO hA, applyOrCorrect_array hexact hO hA]
        simp [harray hexact hA, hA, hexact]
      | false =>
        rw [applyOrCorrect_whole hexact hO hA, applyOrCorrect_whole hexact hO hA]
        simp [hA, hO, hexact]
  · have htext : isExactVariableSubstitution v.stringVal = false := by simpa using hexact
    rw [applyOrCorrect_text htext, applyOrCorrect_text htext]
    simp [hexact]

@[simp] theorem ParamValue.applyReplacements_eq_iff :
    v.applyReplacements ⟨S, A, O⟩ = v.applyReplacements ⟨S', A, O⟩ ↔ Agree S S' (v.sites A O) := by
  cases hv : v.type with
  | string =>
    rw [← ParamValue.applyOrCorrect_eq_iff hv]
    simp [ParamValue.applyReplacements, hv]
  | array =>
    simp [ParamValue.applyReplacements, ParamValue.sites, hv]
  | object =>
    simp [ParamValue.applyReplacements, ParamValue.sites, hv, Site.apply]

def Params.sites (arrays : List (String × List String))
    (objects : List (String × List (String × String))) (ps : Params) : List Site :=
  ps.flatMap fun p => p.value.sites arrays objects

@[simp] theorem Params.replaceVariables_eq_iff {ps : Params} :
    ps.replaceVariables ⟨S, A, O⟩ = ps.replaceVariables ⟨S', A, O⟩ ↔ Agree S S' (ps.sites A O) := by
  simp [Params.replaceVariables, Params.sites]

def valueSites (arrays : List (String × List String)) (v : String) : List Site :=
  if (arrays.lookup ("params." ++ arrayReference v)).isSome ∨
      (arrays.lookup (stripStarVarSubExpression v)).isSome then itemSites arrays v
  else [.text v]

def WhenExpression.sites (arrays : List (String × List String)) (we : WhenExpression) : List Site :=
  .text we.input :: .text we.cel :: we.values.flatMap (valueSites arrays)

@[simp] theorem WhenExpression.applyReplacements_eq_iff {we : WhenExpression} :
    we.applyReplacements ⟨S, A, O⟩ = we.applyReplacements ⟨S', A, O⟩ ↔ Agree S S' (we.sites A) := by
  let value (S : List (String × String)) (v : String) :=
    if (A.lookup ("params." ++ arrayReference v)).isSome ∨
        (A.lookup (stripStarVarSubExpression v)).isSome then applyArrayReplacements v S A
      else [Api.applyReplacements v S]
  have hlen : ∀ v ∈ we.values, (value S v).length = (value S' v).length := by
    intro v _
    dsimp only [value]
    split
    · exact length_applyArrayReplacements v
    · rfl
  have hvalue : ∀ v, value S v = value S' v ↔ Agree S S' (valueSites A v) := by
    intro v
    dsimp only [value, valueSites]
    split
    · exact applyArrayReplacements_eq_iff
    · simp [Site.apply]
  unfold WhenExpression.applyReplacements WhenExpression.sites
  rw [WhenExpression.mk.injEq, flatMap_eq_iff hlen, agree_cons, agree_cons, agree_flatMap]
  simp only [hvalue, Site.apply, true_and]
  exact ⟨fun ⟨hi, hv, hc⟩ => ⟨hi, hc, hv⟩, fun ⟨hi, hc, hv⟩ => ⟨hi, hv, hc⟩⟩

def WhenExpressions.sites (arrays : List (String × List String)) (wes : WhenExpressions) :
    List Site :=
  wes.flatMap (WhenExpression.sites arrays)

@[simp] theorem WhenExpressions.replaceVariables_eq_iff {wes : WhenExpressions} :
    wes.replaceVariables ⟨S, A, O⟩ = wes.replaceVariables ⟨S', A, O⟩ ↔
      Agree S S' (wes.sites A) := by
  simp [WhenExpressions.replaceVariables, WhenExpressions.sites]

end

end TektonPipeline.Api
