import TektonPipeline.Library.Matching
import TektonPipeline.Api.Params

/-! What the variables that are found in a text look like. -/

namespace TektonPipeline.Api
open TektonPipeline.ResultRef List

/-- `[0-9]+|\*` -/
def IsIndex (w : List Char) : Prop := (1 ≤ w.length ∧ ∀ c ∈ w, isDigit c = true) ∨ w = "*".toList

/-- What stands between `$(` and `)`: a name and at most one index. -/
def IsVariable (v : List Char) : Prop :=
  ∃ body index, v = body ++ index ∧ (1 ≤ body.length ∧ ∀ c ∈ body, isVarChar c = true) ∧
    (index = [] ∨ ∃ w, index = '[' :: (w ++ [']']) ∧ IsIndex w)

theorem variableSubstitution_accepts : Text.Accepts variableSubstitution fun w =>
      ∃ v, w = "$(".toList ++ (v ++ ")".toList) ∧ IsVariable v := by
  have hindex := (Text.Accepts.literal "[".toList).andThen
    (((Text.Accepts.many 1 isDigit).orElse (.literal "*".toList)).andThen (.literal "]".toList))
  have h := (Text.Accepts.literal "$(".toList).andThen
    ((Text.Accepts.many 1 isVarChar).andThen (hindex.optional.andThen (.literal ")".toList)))
  refine h.mono ?_
  rintro _ ⟨_, _, rfl, rfl, body, _, rfl, hbody, index, _, rfl, hopt, rfl⟩
  refine ⟨body ++ index, by simp, body, index, rfl, hbody, hopt.imp_right ?_⟩
  rintro ⟨_, _, rfl, rfl, w, _, rfl, hw, rfl⟩
  exact ⟨w, rfl, hw⟩

theorem stripVarSubExpression_variable (v : List Char) :
    stripVarSubExpression (String.ofList ("$(".toList ++ (v ++ ")".toList))) = String.ofList v := by
  rw [stripVarSubExpression, String.toList_ofList (l := "$(".toList ++ (v ++ ")".toList)),
    Text.trimPrefix_append, Text.trimSuffix_append]

variable {s : String}

theorem isVariable_of_mem_validateString {expr : String} (h : expr ∈ validateString s) :
    IsVariable expr.toList := by
  obtain ⟨w, hw, rfl⟩ := mem_map.mp h
  obtain ⟨v, rfl, hv⟩ := variableSubstitution_accepts.mem_findAll hw
  rw [stripVarSubExpression_variable, String.toList_ofList]
  exact hv

variable {body : List Char}

theorem bracket_not_mem (h : ∀ c ∈ body, isVarChar c = true) :
    '[' ∉ body ∧ '$' ∉ body ∧ ')' ∉ body := by
  refine ⟨fun hmem => ?_, fun hmem => ?_, fun hmem => ?_⟩ <;>
    exact absurd (h _ hmem) (by decide)

section
variable (hne : body ≠ []) (hbody : ∀ c ∈ body, isVarChar c = true)
include hne hbody

theorem variableSubstitution_star :
    variableSubstitution ("$(".toList ++ (body ++ "[*])".toList)) =
      some ("$(".toList ++ (body ++ "[*])".toList)).length := by
  have hmany : Text.Reads (Text.many 1 isVarChar) body ("[*])".toList ++ []) := by
    refine .many hbody (length_pos_iff.mpr hne) fun c hc => ?_
    obtain rfl : '[' = c := by simpa using hc
    decide
  have hall : Text.Reads variableSubstitution _ [] :=
    (Text.Reads.literal "$(".toList _).andThen (hmany.andThen (by decide))
  rwa [Text.Reads, append_nil] at hall

theorem validateString_star :
    validateString (String.ofList ("$(".toList ++ (body ++ "[*])".toList))) =
      [String.ofList (body ++ "[*]".toList)] := by
  have hfound := Text.findAll_whole (by simp) (variableSubstitution_star hne hbody)
  rw [validateString, String.toList_ofList, hfound]
  have hsplit : body ++ "[*])".toList = (body ++ "[*]".toList) ++ ")".toList := by simp
  rw [map_singleton, hsplit, stripVarSubExpression_variable]

theorem isExactVariableSubstitution_star :
    isExactVariableSubstitution
      (String.ofList ("$(".toList ++ (body ++ "[*])".toList))) = true := by
  rw [isExactVariableSubstitution, String.toList_ofList, variableSubstitution_star hne hbody,
    beq_self_eq_true]

end

theorem stripStarVarSubExpression_star (body : List Char) :
    stripStarVarSubExpression (String.ofList ("$(".toList ++ (body ++ "[*])".toList))) =
      String.ofList body := by
  have hsplit : body ++ "[*])".toList = (body ++ "[*]".toList) ++ ")".toList := by simp
  rw [stripStarVarSubExpression, hsplit, stripVarSubExpression_variable,
    String.toList_ofList (l := body ++ "[*]".toList), Text.trimSuffix_append]

theorem IsVariable.count_bracket {v : List Char} (h : IsVariable v) : v.count '[' ≤ 1 := by
  obtain ⟨body, index, rfl, ⟨-, hbody⟩, hindex⟩ := h
  have hnone : body.count '[' = 0 := count_eq_zero.mpr (bracket_not_mem hbody).1
  rcases hindex with rfl | ⟨w, rfl, hw⟩
  · simp [hnone]
  · have hw0 : w.count '[' = 0 := by
      rw [count_eq_zero]
      intro hmem
      rcases hw with ⟨-, hdigit⟩ | rfl
      · exact absurd (hdigit _ hmem) (by decide)
      · simp at hmem
    simp [hnone, hw0]

theorem IsVariable.dollar_not_mem {v : List Char} (h : IsVariable v) : '$' ∉ v := by
  obtain ⟨body, index, rfl, ⟨-, hbody⟩, hindex⟩ := h
  rw [mem_append, not_or]
  refine ⟨(bracket_not_mem hbody).2.1, ?_⟩
  rcases hindex with rfl | ⟨w, rfl, ⟨-, hdigit⟩ | rfl⟩
  · exact not_mem_nil
  · have hw : '$' ∉ w := fun hmem => absurd (hdigit _ hmem) (by decide)
    simp [hw]
  · decide

theorem IsVariable.last_part {u r : List Char} (h : IsVariable (u ++ '.' :: r)) :
    (∀ c ∈ u, isVarChar c = true) ∧ ∃ name index, r = name ++ index ∧
      (∀ c ∈ name, isVarChar c = true) ∧
      (index = [] ∨ ∃ w, index = '[' :: (w ++ [']']) ∧ IsIndex w) := by
  obtain ⟨body, index, hv, ⟨-, hbody⟩, hindex⟩ := h
  have hdot : '.' ∉ index := by
    rcases hindex with rfl | ⟨w, rfl, ⟨-, hdigit⟩ | rfl⟩
    · exact not_mem_nil
    · have hw : '.' ∉ w := fun hmem => absurd (hdigit _ hmem) (by decide)
      simp [hw]
    · decide
  rcases append_eq_append_iff.mp hv with ⟨x, rfl, hx⟩ | ⟨x, rfl, hx⟩
  · cases x with
    | nil =>
      rw [nil_append] at hx
      exact absurd (hx ▸ mem_cons_self) hdot
    | cons c x =>
      obtain ⟨-, rfl⟩ := List.cons.inj hx
      refine ⟨fun d hd => hbody d (mem_append_left _ hd), x, index, rfl, fun d hd => ?_, hindex⟩
      exact hbody d (mem_append_right _ (mem_cons_of_mem c hd))
  · exact absurd (hx ▸ mem_append_right _ mem_cons_self) hdot

theorem stripVarSubExpression_of_isVariable {v : String} (h : IsVariable v.toList) :
    stripVarSubExpression v = v := by
  obtain ⟨body, index, hv, ⟨hlen, hbody⟩, hindex⟩ := h
  have hprefix : "$(".toList.isPrefixOf v.toList = false := by
    obtain ⟨c, body, rfl⟩ := exists_cons_of_ne_nil (ne_nil_of_length_pos hlen)
    have hc : ('$' == c) = false := by
      rw [beq_eq_false_iff_ne]
      rintro rfl
      exact (bracket_not_mem hbody).2.1 mem_cons_self
    simp [hv, List.isPrefixOf, hc]
  have hsuffix : ")".toList.isSuffixOf v.toList = false := by
    rw [Bool.eq_false_iff]
    intro hsuffix
    obtain ⟨x, hx⟩ := isSuffixOf_iff_suffix.mp hsuffix
    have hlast : v.toList.getLast? = some ')' := by simp [← hx]
    rcases hindex with rfl | ⟨w, rfl, -⟩
    · rw [hv, append_nil] at hlast
      exact (bracket_not_mem hbody).2.2 (mem_of_getLast? hlast)
    · have hend : v.toList = (body ++ '[' :: w) ++ [']'] := by simp [hv]
      rw [hend, getLast?_concat] at hlast
      cases hlast
  rw [stripVarSubExpression, Text.trimPrefix, hprefix, Text.trimSuffix]
  simp only [Bool.false_eq_true, if_false, hsuffix, String.ofList_toList]

theorem stripStarVarSubExpression_of_isVariable {v : String} (h : IsVariable v.toList) :
    (v = stripStarVarSubExpression v ∨ v = stripStarVarSubExpression v ++ "[*]") ∧
      ¬ "[*]".toList <:+ (stripStarVarSubExpression v).toList := by
  rw [stripStarVarSubExpression, stripVarSubExpression_of_isVariable h, Text.trimSuffix]
  by_cases hstar : "[*]".toList.isSuffixOf v.toList = true
  · rw [if_pos hstar]
    obtain ⟨x, hx⟩ := isSuffixOf_iff_suffix.mp hstar
    have hcount := h.count_bracket
    have htake : v.toList.take (v.toList.length - "[*]".toList.length) = x := by simp [← hx]
    rw [htake]
    refine ⟨.inr ?_, ?_⟩
    · rw [← String.toList_inj, ← hx]
      simp
    · rintro ⟨y, hy⟩
      have hx' : x = y ++ "[*]".toList := by simpa using hy.symm
      rw [← hx, hx'] at hcount
      simp at hcount
  · rw [if_neg hstar, String.ofList_toList]
    exact ⟨.inl rfl, fun hsuffix => hstar (isSuffixOf_iff_suffix.mpr hsuffix)⟩

theorem isVariable_star (hne : body ≠ []) (hbody : ∀ c ∈ body, isVarChar c = true) :
    IsVariable (body ++ "[*]".toList) :=
  ⟨body, "[*]".toList, rfl, ⟨length_pos_iff.mpr hne, hbody⟩,
    .inr ⟨"*".toList, rfl, .inr rfl⟩⟩

theorem stripStar_variable_star (hne : s.toList ≠ []) (hs : ∀ c ∈ s.toList, isVarChar c = true) :
    stripStarVarSubExpression (s ++ "[*]") = s := by
  have hvar : IsVariable (s ++ "[*]").toList := by
    rw [String.toList_append]
    exact isVariable_star hne hs
  obtain ⟨heq | heq, hnone⟩ := stripStarVarSubExpression_of_isVariable hvar
  · rw [← heq, String.toList_append] at hnone
    exact absurd (suffix_append _ _) hnone
  · rw [← String.toList_inj, String.toList_append, String.toList_append] at heq
    exact (String.toList_inj.mp (append_cancel_right heq)).symm

/-! ## References to results -/

theorem splitDots_reference {task : String} (h : '.' ∉ task.toList) (rest : String) :
    splitDots ("tasks." ++ task ++ ".results." ++ rest) =
      "tasks" :: task :: "results" :: splitDots rest := by
  have htext : ("tasks." ++ task ++ ".results." ++ rest).toList =
      "tasks".toList ++
        '.' :: (task.toList ++ '.' :: ("results".toList ++ '.' :: rest.toList)) := by
    simp
  rw [splitDots, htext, Text.splitOn_append (by decide), Text.splitOn_append h,
    Text.splitOn_append (by decide)]
  simp [splitDots]

theorem splitDots_of_not_mem (h : '.' ∉ s.toList) : splitDots s = [s] := by
  simp [splitDots, Text.splitOn_of_not_mem h]

theorem eq_of_splitDots_singleton {w : String} (h : splitDots s = [w]) :
    s = w ∧ '.' ∉ s.toList := by
  obtain ⟨x, hx, rfl⟩ := map_eq_singleton_iff.mp h
  refine ⟨?_, Text.not_mem_of_splitOn hx⟩
  rw [← Text.eq_of_splitOn_singleton hx, String.ofList_toList]

theorem exists_of_splitDots_cons {w x : String} {xs : List String}
    (h : splitDots s = w :: x :: xs) :
    ∃ t, s = w ++ "." ++ t ∧ '.' ∉ w.toList ∧ splitDots t = x :: xs := by
  obtain ⟨w, l, hl, rfl, hmap⟩ := map_eq_cons_iff.mp h
  obtain ⟨x, xs, rfl, rfl, rfl⟩ := map_eq_cons_iff.mp hmap
  obtain ⟨t, ht, hw, hrest⟩ := Text.exists_of_splitOn_cons hl
  refine ⟨String.ofList t, ?_, ?_, ?_⟩
  · rw [← String.toList_inj, ht]
    simp
  · rwa [String.toList_ofList]
  · rw [splitDots, String.toList_ofList, hrest, map_cons]

theorem arrayIndexing_other (c : Char) (t : List Char) (hc : c ≠ '[') :
    arrayIndexing (c :: t) = none :=
  Text.andThen_of_none (by simp [Text.literal, hc.symm])

theorem scan_arrayIndexing {α : Type} (emit : List Char → List α) (pass : Char → List α)
    {name : List Char} (h : '[' ∉ name) (rest : List Char) :
    Text.scan arrayIndexing emit pass 0 (name ++ rest) =
      name.flatMap pass ++ Text.scan arrayIndexing emit pass 0 rest :=
  (Text.Passes.of_not_mem arrayIndexing_other h rest).scan emit pass

variable {r : String}

theorem parseResultName_name {r : String} (h : '[' ∉ r.toList) : parseResultName r = (r, "") := by
  have hfind : Text.findAll arrayIndexing r.toList = [] := by
    have hscan := scan_arrayIndexing (fun w => [w]) (fun _ => []) h []
    rw [append_nil] at hscan
    rw [Text.findAll, hscan]
    simp [Text.scan]
  have hrewrite : Text.rewriteAll arrayIndexing (fun _ => []) r.toList = r.toList := by
    have hscan := scan_arrayIndexing (fun _ => []) (fun c => [c]) h []
    simpa [Text.rewriteAll, Text.scan] using hscan
  simp [parseResultName, hfind, hrewrite, Text.trimPrefix, Text.trimSuffix]

theorem parseResultName_indexed {r index : String} (h : '[' ∉ r.toList) (hne : index.toList ≠ [])
    (hindex : Text.Reads arrayIndexing index.toList []) : parseResultName (r ++ index) =
      (r, String.ofList
        (Text.trimSuffix "]".toList (Text.trimPrefix "[".toList index.toList))) := by
  have hscan : ∀ {α : Type} (emit : List Char → List α) (pass : Char → List α),
      Text.scan arrayIndexing emit pass 0 (r.toList ++ index.toList) =
        r.toList.flatMap pass ++ emit index.toList := by
    intro α emit pass
    have hwhole := hindex.scan hne emit pass
    rw [append_nil] at hwhole
    rw [scan_arrayIndexing emit pass h, hwhole]
    simp [Text.scan]
  have hpass : r.toList.flatMap (fun _ => ([] : List (List Char))) = [] :=
    flatMap_eq_nil_iff.mpr fun _ _ => rfl
  simp [parseResultName, Text.findAll, Text.rewriteAll, hscan, hpass]

theorem parseResultName_star {r : String} (h : '[' ∉ r.toList) :
    parseResultName (r ++ "[*]") = (r, "*") := by
  have hindex : Text.trimSuffix "]".toList (Text.trimPrefix "[".toList "[*]".toList) =
      "*".toList := by decide
  rw [parseResultName_indexed h (by decide) (by decide), hindex, String.ofList_toList]

theorem arrayIndexing_digits {digits : List Char} (hdigits : ∀ c ∈ digits, isDigit c = true)
    (rest : List Char) : Text.Reads arrayIndexing ("[".toList ++ (digits ++ "]".toList)) rest := by
  have hmany : Text.Reads (Text.many 0 isDigit) digits ("]".toList ++ rest) := by
    refine .many hdigits (Nat.zero_le _) fun c hc => ?_
    obtain rfl : ']' = c := by simpa using hc
    decide
  refine (Text.Reads.literal _ _).andThen (hmany.andThen ?_)
  simp [Text.Reads, Text.andThen, Text.optional, Text.literal]

theorem parseResultName_index {r digits : String} (h : '[' ∉ r.toList)
    (hdigits : ∀ c ∈ digits.toList, isDigit c = true) :
    parseResultName (r ++ ("[" ++ digits ++ "]")) = (r, digits) := by
  have htext : ("[" ++ digits ++ "]").toList = "[".toList ++ (digits.toList ++ "]".toList) := by
    simp
  rw [parseResultName_indexed h (by simp) (htext ▸ arrayIndexing_digits hdigits []), htext,
    Text.trimPrefix_append, Text.trimSuffix_append, String.ofList_toList]

end TektonPipeline.Api
