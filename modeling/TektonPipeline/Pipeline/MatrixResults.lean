import TektonPipeline.Pipeline.PipelineResults

/-! When the results of a matrixed task reach the results of its PipelineRun. -/

namespace TektonPipeline.Pipeline
open Api ResultRef List Assoc

/-- What a reconcile does to the resolved tasks: it resolves a reference to a result, counts
the results of a task for a context variable, or writes results into a task. -/
inductive StateStep where
  | resolve (ref : ResultRef)
  | matrixLength (pipelineTask : String)
  | write (pipelineTask : String) (refs : List ResolvedResultRef)
  deriving DecidableEq

def StateStep.run (s : PipelineRunState) : StateStep → PipelineRunState
  | .resolve ref => (resolveRef s ref).1
  | .matrixLength pipelineTask => s.update pipelineTask ResolvedPipelineTask.cacheResults
  | .write pipelineTask refs =>
    s.update pipelineTask fun t => t.withTask (applyTaskResults t.pipelineTask refs)

def StateStep.collects : StateStep → Option String
  | .resolve ref => some ref.pipelineTask
  | .matrixLength pipelineTask => some pipelineTask
  | .write _ _ => none

def runSteps (s : PipelineRunState) (steps : List StateStep) : PipelineRunState :=
  steps.foldl StateStep.run s

def collected (steps : List StateStep) (name : String) : Bool :=
  steps.any fun step => step.collects == some name

/-- The task `t` is still there, with its results in the cache if they were collected. -/
structure Carries (t : ResolvedPipelineTask) (cached : Bool) (s : PipelineRunState) : Prop where
  nodup : (s.map (·.name)).Nodup
  task : ∃ t' ∈ s, SameTask t.pipelineTask t'.pipelineTask ∧
    t' = (if cached then t.cacheResults else t).withTask t'.pipelineTask

namespace Carries
variable {t : ResolvedPipelineTask} {cached : Bool} {s : PipelineRunState}

theorem update {n : String} {f : ResolvedPipelineTask → ResolvedPipelineTask} {cached' : Bool}
    (h : Carries t cached s) (hf : ∀ t, (f t).name = t.name)
    (htask : ∀ t', SameTask t.pipelineTask t'.pipelineTask →
      t' = (if cached then t.cacheResults else t).withTask t'.pipelineTask →
      let t'' := if t'.name = n then f t' else t'
      SameTask t.pipelineTask t''.pipelineTask ∧
        t'' = (if cached' then t.cacheResults else t).withTask t''.pipelineTask) :
    Carries t cached' (s.update n f) := by
  obtain ⟨t', hmem, hsame, heq⟩ := h.task
  refine ⟨?_, _, mem_map.mpr ⟨t', hmem, rfl⟩, htask t' hsame heq⟩
  have hnames : (s.update n f).map (·.name) = s.map (·.name) := by
    rw [PipelineRunState.update, map_map]
    refine map_congr_left fun u _ => ?_
    by_cases hu : u.name = n
    · simp [hu, hf]
    · simp [hu]
  rw [hnames]
  exact h.nodup

theorem name_eq {t' : ResolvedPipelineTask} (h : SameTask t.pipelineTask t'.pipelineTask) :
    t'.name = t.name := h.name

theorem write (h : Carries t cached s) (n : String) (refs : List ResolvedResultRef) :
    Carries t cached (s.update n fun t => t.withTask (applyTaskResults t.pipelineTask refs)) := by
  refine h.update (fun _ => rfl) fun t' hsame heq => ?_
  by_cases hn : t'.name = n
  · simp only [hn, if_true]
    refine ⟨hsame.trans (sameTask_applyTaskResults _ refs), ?_⟩
    rw [heq]
    rfl
  · simp only [hn, if_false]
    exact ⟨hsame, heq⟩

theorem cache (h : Carries t cached s) (n : String) :
    Carries t (cached || n == t.name) (s.update n ResolvedPipelineTask.cacheResults) := by
  refine h.update ResolvedPipelineTask.cacheResults_name
    fun t' hsame heq => ?_
  by_cases hn : t'.name = n
  · have hbeq : (n == t.name) = true := by
      rw [← hn, name_eq hsame, beq_self_eq_true]
    have hpt := t'.cacheResults_fields.1
    simp only [hn, if_true, hbeq, Bool.or_true]
    refine ⟨hpt ▸ hsame, ?_⟩
    rw [hpt]
    conv_lhs => rw [heq, ResolvedPipelineTask.cacheResults_withTask]
    cases cached with
    | false => rfl
    | true => simp [ResolvedPipelineTask.cacheResults_idem]
  · have hbeq : (n == t.name) = false := by
      rw [beq_eq_false_iff_ne, ← name_eq hsame]
      exact Ne.symm hn
    simp only [hn, if_false, hbeq, Bool.or_false]
    exact ⟨hsame, heq⟩

end Carries

structure Collects (t : ResolvedPipelineTask) : Prop where
  customTask : t.customTask = false
  matrixed : t.pipelineTask.isMatrixed = true
  successful : t.isSuccessful = true
  empty : t.resultsCache = []

section
variable {t t' : ResolvedPipelineTask} {cached : Bool} {s : PipelineRunState}

theorem Collects.kept (ht : Collects t) (hsame : SameTask t.pipelineTask t'.pipelineTask)
    (heq : t' = (if cached then t.cacheResults else t).withTask t'.pipelineTask) : Kept t t' := by
  refine ⟨hsame, ?_⟩
  cases cached with
  | false => exact .inl heq
  | true => exact .inr ⟨⟨ht.customTask, ht.matrixed⟩, heq⟩

variable (ht : Collects t) (h : Carries t cached s)
include ht h

theorem Carries.resolve (ref : ResultRef) :
    Carries t (cached || ref.pipelineTask == t.name) (resolveRef s ref).1 := by
  by_cases hname : ref.pipelineTask = t.name
  · obtain ⟨t', hmem, hsame, heq⟩ := h.task
    have hkept := ht.kept hsame heq
    have hfind : s.task? ref.pipelineTask = some t' := by
      rw [hname, ← hkept.name_eq]
      exact PipelineRunState.task?_of_mem h.nodup hmem
    have hstate : (resolveRef s ref).1 =
        s.update ref.pipelineTask ResolvedPipelineTask.cacheResults := by
      simp [resolveRef, hfind, hkept.isSuccessful_eq, ht.successful, hkept.fields.1,
        ht.customTask, hkept.task.matrixed, ht.matrixed]
    rw [hstate]
    exact h.cache ref.pipelineTask
  · have hcache := h.cache ref.pipelineTask
    have hbeq : (ref.pipelineTask == t.name) = false := by simpa using hname
    rw [hbeq, Bool.or_false] at hcache ⊢
    unfold resolveRef
    cases s.task? ref.pipelineTask with
    | none => exact h
    | some u =>
      dsimp only
      split
      · exact h
      · split
        · exact hcache
        · exact h

theorem Carries.step (step : StateStep) :
    Carries t (cached || step.collects == some t.name) (step.run s) := by
  cases step with
  | resolve ref => exact h.resolve ht ref
  | matrixLength n => exact h.cache n
  | write n refs =>
    have hnone : ((none : Option String) == some t.name) = false := rfl
    rw [StateStep.collects, hnone, Bool.or_false]
    exact h.write n refs

theorem Carries.runSteps (steps : List StateStep) :
    Carries t (cached || collected steps t.name) (runSteps s steps) := by
  induction steps generalizing cached s with
  | nil => simpa [collected, Pipeline.runSteps] using h
  | cons step steps ih =>
    have hrest := ih (h.step ht step)
    rw [Bool.or_assoc] at hrest
    exact hrest

/-- The task that is found by its name. -/
theorem Carries.exists_kept :
    ∃ t', Kept t t' ∧ t' = (if cached then t.cacheResults else t).withTask t'.pipelineTask ∧
      ∀ {ν : Type} (f : ResolvedPipelineTask → Option ν),
        (s.reverse.filterMap fun t => (f t).map fun v => (t.name, v)).lookup t.name = f t' := by
  obtain ⟨t', hmem, hsame, heq⟩ := h.task
  have hkept := ht.kept hsame heq
  have hnodup : (s.reverse.map (·.name)).Nodup := by
    rw [map_reverse, nodup_reverse]
    exact h.nodup
  refine ⟨t', hkept, heq, fun f => ?_⟩
  rw [← hkept.name_eq]
  exact lookup_filterMap hnodup (mem_reverse.mpr hmem)

theorem Carries.lookup_results (r : String) :
    ((getTaskRunsResults s).lookup t.name).bind (fun results => results.lookup r) = if cached then
        (t.cacheResults.resultsCache.lookup r).map fun values =>
          { type := .array, arrayVal := values }
      else none := by
  obtain ⟨t', hkept, heq, hlook⟩ := h.exists_kept ht
  have hcache : t'.resultsCache = if cached then t.cacheResults.resultsCache else [] := by
    rw [heq]
    cases cached with
    | false => exact ht.empty
    | true => rfl
  have hresults : t'.results? =
      if (convertResultsMapToTaskRunResults t'.resultsCache).isEmpty then none
      else some (convertResultsMapToTaskRunResults t'.resultsCache) := by
    simp [ResolvedPipelineTask.results?, hkept.fields.1, ht.customTask, hkept.isSuccessful_eq,
      ht.successful, hkept.task.matrixed, ht.matrixed]
  have hwhole : (t'.results?).bind (fun results => results.lookup r) =
      (convertResultsMapToTaskRunResults t'.resultsCache).lookup r := by
    rw [hresults]
    cases convertResultsMapToTaskRunResults t'.resultsCache with
    | nil => rfl
    | cons e l => rfl
  rw [getTaskRunsResults, hlook, hwhole, lookup_convertResultsMap, hcache]
  cases cached with
  | false => rfl
  | true => rfl

theorem Carries.lookup_runResults (text : ResultValue → String) :
    (getRunsResults text s).lookup t.name = none := by
  obtain ⟨t', hkept, -, hlook⟩ := h.exists_kept ht
  rw [getRunsResults, hlook]
  simp [ResolvedPipelineTask.runResults?, hkept.fields.1, ht.customTask]

end

def Emits (t : ResolvedPipelineTask) (r : String) : Prop :=
  ∀ run ∈ t.taskRuns, ∃ value, (r, value) ∈ run.results ∧ value.type = .string

def ResolvedPipelineTask.aggregated (t : ResolvedPipelineTask) (r : String) : List String :=
  valuesOf r (t.cacheResults.taskRuns.flatMap (·.results))

theorem Collects.aggregated_ne_nil {t : ResolvedPipelineTask} {r : String} (ht : Collects t)
    (hemit : Emits t r) : t.aggregated r ≠ [] := by
  have hruns : t.taskRuns ≠ [] := by
    have hsuccessful := ht.successful
    intro hnil
    simp [ResolvedPipelineTask.isSuccessful, ResolvedPipelineTask.runs, ht.customTask, hnil]
      at hsuccessful
  obtain ⟨run, rest, hcons⟩ := exists_cons_of_ne_nil hruns
  obtain ⟨value, hvalue, -⟩ := hemit run (by simp [hcons])
  have hrun : run ∈ t.cacheResults.taskRuns := t.perm_cacheResults.mem_iff.mpr (by simp [hcons])
  refine ne_nil_of_mem (a := value.stringVal) (mem_map.mpr ⟨(r, value), ?_, rfl⟩)
  exact mem_filter.mpr ⟨mem_flatMap.mpr ⟨run, hrun, hvalue⟩, by simp⟩

theorem Collects.taskResultValue {t : ResolvedPipelineTask} {r : String} (ht : Collects t)
    (hemit : Emits t r) {cached : Bool} {s : PipelineRunState} (h : Carries t cached s) :
    ((getTaskRunsResults s).lookup t.name).bind (fun results => results.lookup r) =
      if cached then some { type := .array, arrayVal := t.aggregated r } else none := by
  rw [h.lookup_results ht, ResolvedPipelineTask.lookup_cacheResults ht.empty]
  have hne := ht.aggregated_ne_nil hemit
  unfold ResolvedPipelineTask.aggregated at hne ⊢
  rw [if_neg hne]
  rfl

/-! ## The replacements that are kept from one pipeline result to the next -/

structure RunResults.Sound (e : RunResults) (r : Replacements) : Prop where
  strings : ∀ x ∈ r.strings, ∃ value, e.variableValue x.1 = some (.string value)
  arrays : ∀ x ∈ r.arrays, ∃ expr values, IsVariable expr.toList ∧
    x.1 = stripStarVarSubExpression expr ∧ e.variableValue expr = some (.array values)
  objects : ∀ x ∈ r.objects, ∃ expr entries, IsVariable expr.toList ∧
    x.1 = stripStarVarSubExpression expr ∧ e.variableValue expr = some (.object entries)

variable {value : VariableValue}

namespace RunResults.Sound
variable {e : RunResults} {r : Replacements}

theorem empty (e : RunResults) : e.Sound {} := ⟨by simp, by simp, by simp⟩

variable {expr : String}

theorem add (h : e.Sound r) (hexpr : IsVariable expr.toList)
    (hvalue : e.variableValue expr = some value) : e.Sound (value.add expr r) := by
  cases value with
  | string v =>
    refine ⟨fun x hx => ?_, h.arrays, h.objects⟩
    rcases mem_cons.mp hx with rfl | hx
    · exact ⟨v, hvalue⟩
    · exact h.strings x hx
  | array v =>
    refine ⟨h.strings, fun x hx => ?_, h.objects⟩
    rcases mem_cons.mp hx with rfl | hx
    · exact ⟨expr, v, hexpr, rfl, hvalue⟩
    · exact h.arrays x hx
  | object v =>
    refine ⟨h.strings, h.arrays, fun x hx => ?_⟩
    rcases mem_cons.mp hx with rfl | hx
    · exact ⟨expr, v, hexpr, rfl, hvalue⟩
    · exact h.objects x hx
  | missing invalid => exact h

theorem substitute {exprs : List String} {acc found : Substituted}
    (hexprs : ∀ expr ∈ exprs, IsVariable expr.toList) (h : e.Sound acc.replacements)
    (hfound : e.substitute acc exprs = some found) : e.Sound found.replacements := by
  induction exprs generalizing acc with
  | nil =>
    cases hfound
    exact h
  | cons expr exprs ih =>
    have hrest : ∀ expr ∈ exprs, IsVariable expr.toList :=
      fun x hx => hexprs x (mem_cons_of_mem _ hx)
    rw [RunResults.substitute] at hfound
    by_cases hmemo : memoized acc.replacements expr = true
    · rw [if_pos hmemo] at hfound
      exact ih hrest h hfound
    · rw [if_neg hmemo] at hfound
      cases hvalue : e.variableValue expr with
      | none => simp [hvalue] at hfound
      | some value =>
        rw [hvalue] at hfound
        exact ih hrest (h.add (hexprs expr mem_cons_self) hvalue) hfound

theorem isVariable_of_mem {result : PipelineResult}
    (h : expr ∈ result.getVarSubstitutionExpressions) : IsVariable expr.toList := by
  simp only [PipelineResult.getVarSubstitutionExpressions, mem_append, mem_flatMap] at h
  rcases h with (h | ⟨_, _, h⟩) | ⟨_, _, h⟩ <;> exact isVariable_of_mem_validateString h

theorem applyOne {result : PipelineResult} {r' : Replacements} {added : PipelineResults}
    (h : e.Sound r) (hone : e.applyOne r result = some (r', added)) : e.Sound r' := by
  simp only [RunResults.applyOne] at hone
  split at hone
  · cases hone
    exact h
  · obtain ⟨found, hfound, heq⟩ := Option.map_eq_some_iff.mp hone
    obtain ⟨rfl, -⟩ := Prod.mk.inj heq
    exact substitute (fun _ => isVariable_of_mem) h hfound

theorem applyAll {results : List PipelineResult} {r' : Replacements} {added : PipelineResults}
    (h : e.Sound r) (hall : e.applyAll r results = some (r', added)) : e.Sound r' := by
  induction results generalizing r added with
  | nil =>
    cases hall
    exact h
  | cons result results ih =>
    cases hone : e.applyOne r result with
    | none => simp [RunResults.applyAll, hone] at hall
    | some found =>
      cases hrest : e.applyAll found.1 results with
      | none => simp [RunResults.applyAll, hone, hrest] at hall
      | some rest =>
        obtain ⟨rfl, -⟩ : rest.1 = r' ∧ _ := by
          simpa [RunResults.applyAll, hone, hrest] using hall
        exact ih (h.applyOne hone) hrest

theorem memoized_star (h : e.Sound r) (hstar : "[*]".toList <:+ expr.toList)
    (hvalue : e.variableValue expr = some value) (hstring : ∀ v, value ≠ .string v) :
    memoized r expr = false := by
  have hkey : ∀ expr', IsVariable expr'.toList → expr ≠ stripStarVarSubExpression expr' := by
    rintro expr' hexpr' rfl
    exact (stripStarVarSubExpression_of_isVariable hexpr').2 hstar
  have hstrings : r.strings.lookup expr = none := by
    refine lookup_of_not_mem fun hmem => ?_
    obtain ⟨x, hx, rfl⟩ := mem_map.mp hmem
    obtain ⟨v, hv⟩ := h.strings x hx
    exact hstring v (Option.some.inj (hvalue.symm.trans hv))
  have harrays : r.arrays.lookup expr = none := by
    refine lookup_of_not_mem fun hmem => ?_
    obtain ⟨x, hx, rfl⟩ := mem_map.mp hmem
    obtain ⟨expr', -, hvar, heq, -⟩ := h.arrays x hx
    exact hkey expr' hvar heq
  have hobjects : r.objects.lookup expr = none := by
    refine lookup_of_not_mem fun hmem => ?_
    obtain ⟨x, hx, rfl⟩ := mem_map.mp hmem
    obtain ⟨expr', -, hvar, heq, -⟩ := h.objects x hx
    exact hkey expr' hvar heq
  simp [memoized, hstrings, harrays, hobjects]

end RunResults.Sound

/-! ## A pipeline result that takes a whole array -/

/-- A pipeline result `$(tasks.<task>.results.<result>[*])`. -/
def wholeArray (name task result : String) : PipelineResult :=
  ⟨name, { stringVal := "$(tasks." ++ task ++ ".results." ++ result ++ "[*])" }⟩

def resultKey (taskName name : String) : String := "tasks." ++ taskName ++ ".results." ++ name

section
variable {name task result : String}

theorem reference_ne_nil (task result : String) : (resultKey task result).toList ≠ [] := by
  simp [resultKey]

theorem wholeArray_text (task result : String) :
    "$(tasks." ++ task ++ ".results." ++ result ++ "[*])" = String.ofList
      ("$(".toList ++ ((resultKey task result).toList ++ "[*])".toList)) := by
  rw [← String.toList_inj]
  simp [resultKey]

theorem variableValue_reference (e : RunResults) (htask : '.' ∉ task.toList) (rest : String)
    (hrest : '.' ∉ rest.toList) :
    e.variableValue (resultKey task rest) = some (e.wholeResult task rest) := by
  simp [RunResults.variableValue, resultKey, splitDots_reference htask, splitDots_of_not_mem hrest]

theorem exists_missingResult (e : RunResults) (task : String) :
    ∃ invalid, e.missingResult task = .missing invalid := by
  unfold RunResults.missingResult
  cases e.taskStatus.lookup ("tasks." ++ task ++ ".status") with
  | none => exact ⟨true, rfl⟩
  | some status => exact ⟨_, rfl⟩

theorem variableValue_dotted (e : RunResults) (htask : '.' ∉ task.toList) (rest : String)
    (hrest : '.' ∈ rest.toList)
    (hobject : ∀ n value, e.taskResultValue task n = some value → value.objectVal = []) :
    ∃ invalid, e.variableValue (resultKey task rest) = some (.missing invalid) := by
  have hmissing : ∀ n key, ∃ invalid, e.keyedResult task n key = .missing invalid := by
    intro n key
    unfold RunResults.keyedResult
    cases hvalue : e.taskResultValue task (parseResultName n).1 with
    | none => exact exists_missingResult e task
    | some value =>
      dsimp only
      rw [hobject _ _ hvalue]
      exact ⟨true, rfl⟩
  rw [RunResults.variableValue, resultKey, splitDots_reference htask]
  rcases hsplit : splitDots rest with _ | ⟨n, _ | ⟨key, _ | ⟨more, names⟩⟩⟩
  · exact ⟨true, by simp⟩
  · have hone : Text.splitOn '.' rest.toList = [n.toList] := by
      have hmap := congrArg (List.map String.toList) hsplit
      simpa [splitDots, Function.comp_def] using hmap
    exact absurd hrest (Text.not_mem_of_splitOn hone)
  · obtain ⟨invalid, hkeyed⟩ := hmissing n key
    exact ⟨invalid, by simp [hkeyed]⟩
  · exact ⟨true, by simp⟩

section
variable (htask : ∀ c ∈ task.toList, isVarChar c = true)
  (hresult : ∀ c ∈ result.toList, isVarChar c = true)
include htask hresult

theorem isVarChar_reference : ∀ c ∈ (resultKey task result).toList, isVarChar c = true := by
  intro c hc
  simp only [resultKey, String.toList_append, mem_append] at hc
  rcases hc with ((hc | hc) | hc) | hc
  · exact all_eq_true.mp (by decide : "tasks.".toList.all isVarChar = true) c hc
  · exact htask c hc
  · exact all_eq_true.mp (by decide : ".results.".toList.all isVarChar = true) c hc
  · exact hresult c hc

theorem wholeArray_expressions : (wholeArray name task result).getVarSubstitutionExpressions =
      [resultKey task (result ++ "[*]")] := by
  have hfound := validateString_star (reference_ne_nil task result)
    (isVarChar_reference htask hresult)
  simp only [PipelineResult.getVarSubstitutionExpressions, wholeArray, wholeArray_text,
    hfound, flatMap_nil, append_nil]
  rw [List.cons.injEq, ← String.toList_inj]
  simp [resultKey]

theorem applyOne_wholeArray {e : RunResults} {r : Replacements} (hsound : e.Sound r)
    (hvalue : e.variableValue (resultKey task (result ++ "[*]")) = some value)
    (hstring : ∀ v, value ≠ .string v) :
    e.applyOne r (wholeArray name task result) =
      let r' := value.add (resultKey task (result ++ "[*]")) r
      some (r',
        { runResults :=
            if value.isValid then
              [⟨name, (wholeArray name task result).value.applyReplacements r'⟩] else []
          invalid := List.replicate (if value.isInvalid then 1 else 0) name }) := by
  have hstar : "[*]".toList <:+ (resultKey task (result ++ "[*]")).toList := by
    simp only [resultKey, String.toList_append, ← append_assoc]
    exact suffix_append _ _
  have hmemo := hsound.memoized_star hstar hvalue hstring
  have hname : (wholeArray name task result).name = name := rfl
  simp [RunResults.applyOne, wholeArray_expressions htask hresult, RunResults.substitute, hmemo,
    hvalue, hname]

theorem applyReplacements_wholeArray {r : Replacements} {values : List String}
    (hobjects : r.objects.lookup (resultKey task result) = none) :
    (wholeArray name task result).value.applyReplacements
        { r with arrays := (resultKey task result, values) :: r.arrays } =
      { type := .array, arrayVal := values } := by
  have hexact := isExactVariableSubstitution_star (reference_ne_nil task result)
    (isVarChar_reference htask hresult)
  have htrimmed := stripStarVarSubExpression_star (resultKey task result).toList
  rw [← wholeArray_text] at hexact htrimmed
  rw [String.ofList_toList] at htrimmed
  have harrays : applyArrayReplacements ("$(tasks." ++ task ++ ".results." ++ result ++ "[*])")
      r.strings ((resultKey task result, values) :: r.arrays) = values := by
    have htext : "$(tasks." ++ task ++ ".results." ++ result ++ "[*])" =
        "$(" ++ resultKey task result ++ "[*])" := by
      rw [← String.toList_inj]
      simp [resultKey]
    rw [applyArrayReplacements, if_pos (.inr htext)]
  simp only [wholeArray, ParamValue.applyReplacements, ParamValue.applyOrCorrect, hexact, htrimmed,
    Bool.not_true, Bool.false_eq_true, if_false, lookup_cons, beq_self_eq_true,
    Option.isSome_some, if_true, hobjects, harrays]
  cases (r.strings.lookup (resultKey task result)).isSome <;> rfl

end

theorem wholeResult_of_array {e : RunResults} {v : ResultValue} (hbracket : '[' ∉ result.toList)
    (hvalue : e.taskResultValue task result = some v) (harray : v.type = .array) :
    e.wholeResult task (result ++ "[*]") = .array v.arrayVal ∧
      ∀ entries, e.wholeResult task result ≠ .object entries := by
  constructor
  · simp [RunResults.wholeResult, parseResultName_star hbracket, hvalue, harray]
  · intro entries hobject
    simp only [RunResults.wholeResult, parseResultName_name hbracket, hvalue, harray] at hobject
    rw [if_neg (by decide)] at hobject
    split at hobject <;> cases hobject

theorem wholeResult_of_missing {e : RunResults} (hbracket : '[' ∉ result.toList)
    (hvalue : e.taskResultValue task result = none)
    (hrun : e.customTaskResults.lookup task = none) :
    ∃ invalid, e.wholeResult task (result ++ "[*]") = .missing invalid := by
  simp only [RunResults.wholeResult, parseResultName_star hbracket, hvalue,
    RunResults.runResultValue, hrun, Option.bind_none]
  exact exists_missingResult e task

theorem applyOne_wholeArray_iff {e : RunResults} {r : Replacements}
    (hsound : e.Sound r) (htask : ∀ c ∈ task.toList, isVarChar c = true ∧ c ≠ '.')
    (hresult : ∀ c ∈ result.toList, isVarChar c = true)
    (hrun : e.customTaskResults.lookup task = none)
    (harray : ∀ n v, e.taskResultValue task n = some v → v.type = .array ∧ v.objectVal = [])
    (values : List String) : (e.applyOne r (wholeArray name task result)).map (·.2) =
        some { runResults := [⟨name, { type := .array, arrayVal := values }⟩] } ↔
      '.' ∉ result.toList ∧ ∃ v, e.taskResultValue task result = some v ∧ v.arrayVal = values := by
  have htaskVar : ∀ c ∈ task.toList, isVarChar c = true := fun c hc => (htask c hc).1
  have htaskDot : '.' ∉ task.toList := fun hc => (htask '.' hc).2 rfl
  have hbracket : '[' ∉ result.toList := (bracket_not_mem hresult).1
  have hmissing : ∀ invalid,
      e.variableValue (resultKey task (result ++ "[*]")) = some (.missing invalid) →
      (e.applyOne r (wholeArray name task result)).map (·.2) ≠
        some { runResults := [⟨name, { type := .array, arrayVal := values }⟩] } := by
    intro invalid hvalue
    rw [applyOne_wholeArray htaskVar hresult hsound hvalue (by simp)]
    simp [VariableValue.isValid]
  by_cases hdot : '.' ∈ result.toList
  · obtain ⟨invalid, hvalue⟩ := variableValue_dotted e htaskDot
      (result ++ "[*]") (by simp [hdot]) fun n v hv => (harray n v hv).2
    exact ⟨fun h => absurd h (hmissing invalid hvalue), fun h => absurd hdot h.1⟩
  · have hwhole := variableValue_reference e htaskDot (result ++ "[*]")
      (by simp [hdot])
    cases hlook : e.taskResultValue task result with
    | none =>
      obtain ⟨invalid, hnone⟩ := wholeResult_of_missing hbracket hlook hrun
      rw [hnone] at hwhole
      exact ⟨fun h => absurd h (hmissing invalid hwhole), fun h => by simp at h⟩
    | some v =>
      obtain ⟨hvalue, hplain⟩ := wholeResult_of_array hbracket hlook (harray _ v hlook).1
      rw [hvalue] at hwhole
      have hkey := stripStar_variable_star (reference_ne_nil task result)
        (isVarChar_reference htaskVar hresult)
      have hassoc : resultKey task result ++ "[*]" = resultKey task (result ++ "[*]") :=
        String.append_assoc
      -- an object under this key would be the value of the variable with or without the star
      have hobjects : r.objects.lookup (resultKey task result) = none := by
        refine lookup_of_not_mem fun hmem => ?_
        obtain ⟨x, hx, hname⟩ := mem_map.mp hmem
        obtain ⟨expr, entries, hvar, hstrip, hexpr⟩ := hsound.objects x hx
        rcases (stripStarVarSubExpression_of_isVariable hvar).1 with heq | heq <;>
          rw [← hstrip, hname] at heq
        · rw [heq, variableValue_reference e htaskDot _ hdot] at hexpr
          exact hplain entries (Option.some.inj hexpr)
        · rw [heq, hassoc, hwhole] at hexpr
          cases hexpr
      rw [applyOne_wholeArray htaskVar hresult hsound hwhole (by simp)]
      simp only [VariableValue.add, ← hassoc, hkey, VariableValue.isValid, if_true,
        VariableValue.isInvalid, Bool.false_eq_true, if_false, replicate_zero,
        Option.map_some, applyReplacements_wholeArray htaskVar hresult hobjects]
      simp [hdot]

end

def Aggregates (t : ResolvedPipelineTask) (r : String) (values : List String) : Prop :=
  values.Perm (t.taskRuns.flatMap fun run => valuesOf r run.results)

theorem valuesOf_flatMap (r : String) (runs : List ChildRun) :
    valuesOf r (runs.flatMap (·.results)) = runs.flatMap fun run => valuesOf r run.results := by
  simp [valuesOf, filter_flatMap, map_flatMap]

theorem ResolvedPipelineTask.aggregates (t : ResolvedPipelineTask) (r : String) :
    Aggregates t r (t.aggregated r) := by
  rw [Aggregates, ← valuesOf_flatMap]
  exact valuesOf_perm t.perm_cacheResults

def Reaches (s : PipelineRunState) (t : ResolvedPipelineTask) (r : String) : Prop :=
  ∃ results values, (getTaskRunsResults s).lookup t.name = some results ∧
    results.lookup r = some { type := .array, arrayVal := values } ∧ Aggregates t r values

/-- The pipeline result of the whole array is there and is not reported, behind any pipeline
results that were handled before it. -/
def Populated (e : RunResults) (t : ResolvedPipelineTask) (r : String) : Prop :=
  ∀ name before replacements added, e.applyAll {} before = some (replacements, added) →
    ∃ values, Aggregates t r values ∧
      (e.applyOne replacements (wholeArray name t.name r)).map (·.2) =
        some { runResults := [⟨name, { type := .array, arrayVal := values }⟩] }

section
variable {s : PipelineRunState} {t : ResolvedPipelineTask} {r : String} {cached : Bool}

theorem Carries.reaches_iff (ht : Collects t) (hemit : Emits t r) (h : Carries t cached s) :
    Reaches s t r ↔ cached = true := by
  have hvalue := ht.taskResultValue hemit h
  constructor
  · rintro ⟨results, values, hresults, hr, -⟩
    rw [hresults, Option.bind_some, hr] at hvalue
    cases cached with
    | false => cases hvalue
    | true => rfl
  · rintro rfl
    obtain ⟨results, hresults, hr⟩ := Option.bind_eq_some_iff.mp hvalue
    exact ⟨results, t.aggregated r, hresults, hr, t.aggregates r⟩

theorem Carries.populated_iff (ht : Collects t) (hemit : Emits t r) (h : Carries t cached s)
    (htask : ∀ c ∈ t.name.toList, isVarChar c = true ∧ c ≠ '.')
    (hresult : ∀ c ∈ r.toList, isVarChar c = true) (text : ResultValue → String)
    (taskStatus : List (String × String)) :
    Populated ⟨getTaskRunsResults s, getRunsResults text s, taskStatus⟩ t r ↔
      '.' ∉ r.toList ∧ cached = true := by
  let e : RunResults := ⟨getTaskRunsResults s, getRunsResults text s, taskStatus⟩
  have harray : ∀ n v, e.taskResultValue t.name n = some v →
      v.type = .array ∧ v.objectVal = [] := by
    intro n v hv
    change ((getTaskRunsResults s).lookup t.name).bind (fun results => results.lookup n) =
      some v at hv
    rw [h.lookup_results ht] at hv
    cases cached with
    | false => cases hv
    | true =>
      obtain ⟨values, -, rfl⟩ := Option.map_eq_some_iff.mp hv
      exact ⟨rfl, rfl⟩
  have hvalue : e.taskResultValue t.name r = _ := ht.taskResultValue hemit h
  have hiff : ∀ name before replacements added values,
      e.applyAll {} before = some (replacements, added) →
      ((e.applyOne replacements (wholeArray name t.name r)).map (·.2) =
          some { runResults := [⟨name, { type := .array, arrayVal := values }⟩] } ↔
        '.' ∉ r.toList ∧ ∃ v, e.taskResultValue t.name r = some v ∧ v.arrayVal = values) :=
    fun name before replacements added values hall =>
      applyOne_wholeArray_iff ((RunResults.Sound.empty e).applyAll hall) htask hresult
        (h.lookup_runResults ht text) harray values
  constructor
  · intro hpopulated
    obtain ⟨values, -, hadd⟩ := hpopulated "" [] {} {} rfl
    obtain ⟨hdot, v, hv, -⟩ := (hiff "" [] {} {} values rfl).mp hadd
    rw [hvalue] at hv
    cases cached with
    | false => cases hv
    | true => exact ⟨hdot, rfl⟩
  · rintro ⟨hdot, rfl⟩ name before replacements added hall
    exact ⟨t.aggregated r, t.aggregates r,
      (hiff name before replacements added _ hall).mpr ⟨hdot, _, hvalue, rfl⟩⟩

end

/-- The results of a matrixed task reach the map of results exactly if something in the same
reconcile has asked for one of them, and a pipeline result of the whole array is there
exactly if they do and the name of the result has no dot. -/
theorem matrixResult_reaches_iff {s : PipelineRunState} (hnodup : (s.map (·.name)).Nodup)
    {t : ResolvedPipelineTask} (hmem : t ∈ s) (ht : Collects t) {r : String} (hemit : Emits t r)
    (htask : ∀ c ∈ t.name.toList, isVarChar c = true ∧ c ≠ '.')
    (hresult : ∀ c ∈ r.toList, isVarChar c = true) (steps : List StateStep)
    (text : ResultValue → String) (taskStatus : List (String × String)) :
    (Reaches (runSteps s steps) t r ↔ collected steps t.name = true) ∧
      (Populated ⟨getTaskRunsResults (runSteps s steps), getRunsResults text (runSteps s steps),
          taskStatus⟩ t r ↔ '.' ∉ r.toList ∧ collected steps t.name = true) := by
  have hstart : Carries t false s := ⟨hnodup, t, hmem, .refl _, rfl⟩
  have hend := hstart.runSteps ht steps
  rw [Bool.false_or] at hend
  exact ⟨hend.reaches_iff ht hemit, hend.populated_iff ht hemit htask hresult text taskStatus⟩

def builtImages : ResolvedPipelineTask :=
  { pipelineTask :=
      { name := "build"
        matrix := { params := [⟨"arch", { type := .array, arrayVal := ["amd64", "arm64"] }⟩] } }
    taskRuns := [("build-0", "sha-a"), ("build-1", "sha-b")].map fun e =>
      { name := e.1
        succeeded := some ⟨.isTrue, "Succeeded", ""⟩
        results := [("digest", { stringVal := e.2 })] } }

theorem builtImages_collects : Collects builtImages := ⟨rfl, rfl, by decide, rfl⟩

theorem builtImages_emits : Emits builtImages "digest" := by
  intro run hrun
  simp only [builtImages, map_cons, map_nil, mem_cons, not_mem_nil, or_false] at hrun
  rcases hrun with rfl | rfl
  · exact ⟨{ stringVal := "sha-a" }, by simp, rfl⟩
  · exact ⟨{ stringVal := "sha-b" }, by simp, rfl⟩

theorem builtImages_name : ∀ c ∈ builtImages.name.toList, isVarChar c = true ∧ c ≠ '.' := by
  intro c hc
  have hall : builtImages.name.toList.all (fun c => isVarChar c && c != '.') = true := by decide
  simpa using all_eq_true.mp hall c hc

theorem builtImages_reach :
    Reaches (runSteps [builtImages] [.resolve ⟨"build", "digest", none, ""⟩])
      builtImages "digest" :=
  (matrixResult_reaches_iff (by decide) (by simp) builtImages_collects builtImages_emits
    builtImages_name (all_eq_true.mp (by decide)) [.resolve ⟨"build", "digest", none, ""⟩]
    (fun _ => "") []).1.mpr (by decide)

/-- Where nothing refers to the digests the pipeline result of them is an error. -/
theorem builtImages_lost : getTaskRunsResults [builtImages] = [] ∧
    (applyTaskResultsToPipelineResults [wholeArray "digests" "build" "digest"]
        { taskRunResults := getTaskRunsResults [builtImages]
          taskStatus := [("tasks.build.status", "Succeeded")] }).bind PipelineResults.error? =
      some "invalid pipelineresults [digests], the referenced results don't exist" := by
  decide +kernel

end TektonPipeline.Pipeline
