import TektonPipeline.Pipeline.Parameters

/-! An object that the pipeline gives a default and the run a value. The references to its keys
are replaced key by key, from the run or from the default; the reference to the whole object is
replaced by the run's alone. -/

namespace TektonPipeline.Parameters
open Api List Assoc Table

/-- What `ApplyParameters` makes of the value of a task's parameter. -/
def substituted (declared : List ParamSpec) (given : Params) (v : ParamValue) : ParamValue :=
  v.applyReplacements (parameterReplacements declared given)

def substitutedKey (declared : List ParamSpec) (given : Params) (o k : String) : Option String :=
  (parameterReplacements declared given).strings.lookup (objectIndividualVariable o k)

def wholeReference (o : String) : ParamValue := { stringVal := "$(params." ++ o ++ "[*])" }

/-- The object that takes the place of the whole reference has the keys whose references are
replaced, with their values. -/
def WholeAgrees (declared : List ParamSpec) (given : Params) (o : String) : Prop :=
  (substituted declared given (wholeReference o)).type = .object ∧
    ∀ k, (substituted declared given (wholeReference o)).objectVal.lookup k =
      substitutedKey declared given o k

/-- No other parameter has an entry for a key of the object. -/
def Owns (o : String) (ps : Params) : Prop :=
  ∀ q ∈ ps, q.name ≠ o → ∀ k, objectIndividualVariable o k ∉ (stringWrites q).map (·.1)

theorem lookup_objectKeyWrites (o : String) (v : List (String × String)) (k : String) :
    (objectKeyWrites o v).reverse.lookup (objectIndividualVariable o k) = v.lookup k := by
  rw [objectKeyWrites, ← map_reverse, reverse_reverse]
  induction v with
  | nil => rfl
  | cons e v ih =>
    obtain ⟨k', w⟩ := e
    rw [map_cons, lookup_cons, lookup_cons, ih]
    by_cases hk : k = k'
    · simp [hk]
    · have hne : (objectIndividualVariable o k == objectIndividualVariable o k') = false := by
        simpa using fun heq => hk (objectIndividualVariable_injective heq)
      rw [hne, show (k == k') = false by simpa using hk]

theorem lookup_writes {κ ν : Type} [DecidableEq κ] {writes : Param → List (κ × ν)} {k : κ}
    {ps : Params} {o : Param} (hnames : (ps.map (·.name)).Nodup) (ho : o ∈ ps)
    (hk : ∀ q ∈ ps, q.name ≠ o.name → k ∉ (writes q).map (·.1)) :
    (ps.flatMap writes).reverse.lookup k = (writes o).reverse.lookup k := by
  obtain ⟨before, after, rfl⟩ := append_of_mem ho
  have hnone : ∀ l : Params, (∀ q ∈ l, k ∉ (writes q).map (·.1)) →
      (l.flatMap writes).reverse.lookup k = none := by
    intro l hl
    refine lookup_of_not_mem fun hmem => ?_
    rw [map_reverse, mem_reverse, map_flatMap, mem_flatMap] at hmem
    obtain ⟨q, hq, hkq⟩ := hmem
    exact hl q hq hkq
  rw [map_append, map_cons, nodup_append] at hnames
  have hbefore : ∀ q ∈ before, k ∉ (writes q).map (·.1) := by
    intro q hq
    refine hk q (mem_append_left _ hq) ?_
    exact hnames.2.2 _ (mem_map_of_mem hq) _ mem_cons_self
  have hafter : ∀ q ∈ after, k ∉ (writes q).map (·.1) := by
    intro q hq
    refine hk q (mem_append_right _ (mem_cons_of_mem _ hq)) ?_
    intro heq
    exact (nodup_cons.mp hnames.2.1).1 (heq ▸ mem_map_of_mem hq)
  rw [flatMap_append, flatMap_cons, reverse_append, reverse_append,
    List.lookup_append, List.lookup_append, hnone before hbefore, hnone after hafter]
  simp

theorem eq_of_mem_paramPatterns {name o : String} (h : "params." ++ o ∈ paramPatterns name) :
    name = o := by
  have hbracket : ∀ s : String, "params." ++ o ≠ "params[" ++ s := by
    intro s hs
    have hlist := congrArg String.toList hs
    simp at hlist
  simp only [paramPatterns, mem_cons, not_mem_nil, or_false] at h
  rcases h with h | h | h
  · simpa [String.append_right_inj, eq_comm] using h
  · refine absurd ?_ (hbracket ("\"" ++ name ++ "\"]"))
    rw [h, ← String.toList_inj]
    simp
  · refine absurd ?_ (hbracket ("'" ++ name ++ "']"))
    rw [h, ← String.toList_inj]
    simp

section
variable {declared : List ParamSpec} {given : Params} {o : String}
  {d v : List (String × String)}

def objectParam (o : String) (v : List (String × String)) : Param :=
  ⟨o, { type := .object, objectVal := v }⟩

theorem lookup_objects (declared : List ParamSpec) (hnames : (given.map (·.name)).Nodup)
    (hv : objectParam o v ∈ given) :
    (parameterReplacements declared given).objects.lookup ("params." ++ o) = some v := by
  have hwrites : (given.flatMap objectWrites).reverse.lookup ("params." ++ o) =
      (objectWrites (objectParam o v)).reverse.lookup ("params." ++ o) := by
    refine lookup_writes hnames hv fun q _ hne hmem => hne ?_
    obtain ⟨e, he, heq⟩ := mem_map.mp hmem
    unfold objectWrites at he
    cases ht : q.value.type with
    | object =>
      rw [ht] at he
      obtain ⟨pattern, hpattern, rfl⟩ := mem_map.mp he
      exact eq_of_mem_paramPatterns (heq ▸ hpattern)
    | string => simp [ht] at he
    | array => simp [ht] at he
  have hself : (objectWrites (objectParam o v)).reverse.lookup ("params." ++ o) = some v := by
    refine lookup_of_mem ?_ ?_
    · simp [objectWrites, objectParam, paramPatterns, ← String.toList_inj]
    · simp [objectWrites, objectParam, paramPatterns]
  rw [parameterReplacements_eq]
  simp [replacementsOf, puts_append, lookup_puts, hwrites, hself]

theorem substituted_wholeReference (declared : List ParamSpec)
    (hname : ∀ c ∈ o.toList, isVarChar c = true)
    (hnames : (given.map (·.name)).Nodup) (hv : objectParam o v ∈ given) :
    (substituted declared given (wholeReference o)).type = .object ∧
      (substituted declared given (wholeReference o)).objectVal = v := by
  have hbody : ∀ c ∈ ("params." ++ o).toList, isVarChar c = true := by
    intro c hc
    rw [String.toList_append, mem_append] at hc
    rcases hc with hc | hc
    · exact all_eq_true.mp (by decide : "params.".toList.all isVarChar = true) c hc
    · exact hname c hc
  have htext : (wholeReference o).stringVal =
      String.ofList ("$(".toList ++ (("params." ++ o).toList ++ "[*])".toList)) := by
    rw [← String.toList_inj]
    simp [wholeReference]
  have hexact : isExactVariableSubstitution (wholeReference o).stringVal = true := by
    rw [htext]
    exact isExactVariableSubstitution_star (by simp) hbody
  have hstrip : stripStarVarSubExpression (wholeReference o).stringVal = "params." ++ o := by
    rw [htext, stripStarVarSubExpression_star, String.ofList_toList]
  have hlookup := lookup_objects declared hnames hv
  rw [← hstrip] at hlookup
  have happly := ParamValue.applyOrCorrect_object
    (S := (parameterReplacements declared given).strings)
    (A := (parameterReplacements declared given).arrays) hexact hlookup
  have hsub : substituted declared given (wholeReference o) =
      (wholeReference o).applyOrCorrect (parameterReplacements declared given) := rfl
  rw [hsub]
  constructor
  · exact congrArg ParamValue.type happly
  · exact congrArg ParamValue.objectVal happly

theorem substitutedKey_eq (hdeclared : ((defaults declared).map (·.name)).Nodup)
    (hnames : (given.map (·.name)).Nodup) (hd : objectParam o d ∈ defaults declared)
    (hv : objectParam o v ∈ given) (howns : Owns o (defaults declared ++ given)) (k : String) :
    substitutedKey declared given o k = (v.lookup k).or (d.lookup k) := by
  have hgiven := lookup_writes (k := objectIndividualVariable o k) hnames hv fun q hq hne =>
    howns q (mem_append_right _ hq) hne k
  have hdefault := lookup_writes (k := objectIndividualVariable o k) hdeclared hd fun q hq hne =>
    howns q (mem_append_left _ hq) hne k
  have hwrites : ∀ w, stringWrites (objectParam o w) = objectKeyWrites o w := fun w => rfl
  rw [substitutedKey, parameterReplacements_eq]
  simp [replacementsOf, puts_append, lookup_puts, hgiven, hdefault, hwrites, lookup_objectKeyWrites]

/-- The two kinds of reference agree as long as the run gives every key of the default. -/
theorem wholeAgrees_iff (hdeclared : ((defaults declared).map (·.name)).Nodup)
    (hnames : (given.map (·.name)).Nodup) (hname : ∀ c ∈ o.toList, isVarChar c = true)
    (hd : objectParam o d ∈ defaults declared) (hv : objectParam o v ∈ given)
    (howns : Owns o (defaults declared ++ given)) :
    WholeAgrees declared given o ↔ ∀ k ∈ d.map (·.1), k ∈ v.map (·.1) := by
  obtain ⟨htype, hobject⟩ := substituted_wholeReference declared hname hnames hv
  have hkey := substitutedKey_eq hdeclared hnames hd hv howns
  have hiff : ∀ k, v.lookup k = (v.lookup k).or (d.lookup k) ↔
      (k ∈ d.map (·.1) → k ∈ v.map (·.1)) := by
    intro k
    rw [← lookup_isSome, ← lookup_isSome]
    cases v.lookup k <;> cases d.lookup k <;> simp
  unfold WholeAgrees
  rw [hobject]
  simp only [htype, hkey, true_and]
  exact forall_congr' hiff

end

def repository : List ParamSpec :=
  [{ name := "repo", type := .object, properties := ["url", "commit"]
     default := some { type := .object, objectVal := [("url", "upstream"), ("commit", "main")] } }]

/-- The run's repository, with a commit of its own. -/
theorem pinned_repository_agrees : (∀ k ∈ ["url", "commit"], k ∈ ["commit", "url"]) ∧
      WholeAgrees repository [objectParam "repo" [("commit", "v1"), ("url", "fork")]] "repo" := by
  have hkeys : ∀ k ∈ ["url", "commit"], k ∈ ["commit", "url"] := by decide
  refine ⟨hkeys, ?_⟩
  refine (wholeAgrees_iff (d := [("url", "upstream"), ("commit", "main")])
    (v := [("commit", "v1"), ("url", "fork")]) (by decide) (by decide)
    (all_eq_true.mp (by decide)) (by decide) (by decide) ?_).mpr hkeys
  intro q hq hne
  refine absurd ?_ hne
  have hall : ((defaults repository ++ [objectParam "repo" [("commit", "v1"), ("url", "fork")]]).all
      fun q => q.name == "repo") = true := by decide
  simpa using all_eq_true.mp hall q hq

/-- The commit of the default is put where it is named, and missing from the whole object. -/
theorem commit_missing_from_whole :
    substitutedKey repository [objectParam "repo" [("url", "fork")]] "repo" "commit" = some "main" ∧
      (substituted repository [objectParam "repo" [("url", "fork")]]
        (wholeReference "repo")).objectVal = [("url", "fork")] ∧
      ¬ WholeAgrees repository [objectParam "repo" [("url", "fork")]] "repo" := by
  have hkey : substitutedKey repository [objectParam "repo" [("url", "fork")]] "repo" "commit" =
      some "main" := by decide
  have hgiven : objectParam "repo" [("url", "fork")] ∈ [objectParam "repo" [("url", "fork")]] :=
    mem_cons_self
  have hwhole := (substituted_wholeReference repository (all_eq_true.mp (by decide)) (by decide)
    hgiven).2
  refine ⟨hkey, hwhole, fun h => ?_⟩
  have hagree := h.2 "commit"
  rw [hwhole, hkey] at hagree
  cases hagree

end TektonPipeline.Parameters
