import TektonPipeline.Pipeline.PipelineResults
import TektonPipeline.Api.FieldError
import TektonPipeline.Pod.Build

/-! What validation demands of the results of a pipeline, and what the reconciler relies on
when it takes their expressions apart. -/

namespace TektonPipeline.Pipeline
open Api ResultRef List
open PodBuild (isDNS1123Label)
open TaskRunReconciler (quoted)

/-! ## Validation -/

def validateName (name : String) : List FieldError :=
  if isDNS1123Label name then []
  else
    [{ message := "invalid value " ++ quoted name
       paths := ["name"]
       details := "Pipeline Task name must be a valid DNS Label.For more info refer to " ++
         "https://kubernetes.io/docs/concepts/overview/working-with-objects/names/#names" }]

def looksLikeContainsResultRefs (expressions : List String) : Bool :=
  expressions.any looksLikeResultRef

def newResultRefs (expressions : List String) : List ParsedResult :=
  expressions.filterMap parseTaskExpression

def taskContainsResult (resultExpression : String)
    (pipelineTaskNames pipelineFinallyTaskNames : List String) : Bool :=
  (Text.splitOn '$' resultExpression.toList).all fun expression =>
    if expression = [] then true
    else
      let value := stripVarSubExpression (String.ofList ('$' :: expression))
      match parseTaskExpression value with
      | none => false
      | some pr =>
        !("tasks".toList.isPrefixOf value.toList && pr.resourceName ∉ pipelineTaskNames) &&
        !("finally".toList.isPrefixOf value.toList && pr.resourceName ∉ pipelineFinallyTaskNames)

section
variable (refsText : List ParsedResult → String)

/-- `refsText` prints the references, which are pointers. -/
def validatePipelineResult (result : PipelineResult)
    (pipelineTaskNames pipelineFinallyTaskNames : List String) : List FieldError :=
  let expressions := result.getVarSubstitutionExpressions
  let looking := expressions.filter looksLikeResultRef
  let resultRefs := newResultRefs looking
  (if expressions = [] then
    [errInvalidValue ("expected pipeline results to be task result expressions but no " ++
      "expressions were found") "value"]
  else []) ++
  (if looksLikeContainsResultRefs expressions then []
  else
    [errInvalidValue ("expected pipeline results to be task result expressions but an invalid " ++
      "expressions was found") "value"]) ++
  (if looking.length ≠ resultRefs.length then
    [errInvalidValue ("expected all of the expressions [" ++ String.intercalate " " looking ++
      "] to be result expressions but only " ++ refsText resultRefs ++ " were") "value"]
  else []) ++
  if taskContainsResult result.value.stringVal pipelineTaskNames pipelineFinallyTaskNames then []
  else [errInvalidValue "referencing a nonexistent task" "value"]

def validatePipelineResults (results : List PipelineResult) (tasks finallyTasks : List String) :
    List FieldError :=
  results.zipIdx.flatMap fun e =>
    (validatePipelineResult refsText e.1 tasks finallyTasks).map fun err =>
      err.viaFieldIndex "results" e.2

structure ResultSpec where
  results : List PipelineResult
  tasks : List String
  finallyTasks : List String := []

/-- The checks of `PipelineSpec.Validate` on these. -/
def ResultSpec.validate (spec : ResultSpec) : List FieldError :=
  spec.tasks.zipIdx.flatMap (fun e => (validateName e.1).map (·.viaFieldIndex "tasks" e.2)) ++
  spec.finallyTasks.zipIdx.flatMap
    (fun e => (validateName e.1).map (·.viaFieldIndex "finally" e.2)) ++
  validatePipelineResults refsText spec.results spec.tasks spec.finallyTasks

end

/-! ## References -/

def Named (tasks finallyTasks : List String) (expr : String) : Prop :=
  ∃ kind task name rest, splitDots expr = kind :: task :: "results" :: name :: rest ∧
    (kind = "tasks" ∧ task ∈ tasks ∨ kind = "finally" ∧ task ∈ finallyTasks)

def IsReference (tasks finallyTasks : List String) (expr : String) : Prop :=
  Named tasks finallyTasks expr ∧ (parseTaskExpression expr).isSome = true

variable {expr : String}

section
variable {tasks finallyTasks : List String}

theorem looksLikeResultRef_iff : looksLikeResultRef expr = true ↔
    ∃ kind task name rest, splitDots expr = kind :: task :: "results" :: name :: rest ∧
      (kind = "tasks" ∨ kind = "finally") := by
  unfold looksLikeResultRef
  split
  · rename_i kind task part name rest hsplit
    simp only [Bool.and_eq_true, Bool.or_eq_true, beq_iff_eq, hsplit, List.cons.injEq]
    constructor
    · rintro ⟨hkind, rfl⟩
      exact ⟨kind, task, name, rest, ⟨rfl, rfl, rfl, rfl, rfl⟩, hkind⟩
    · rintro ⟨kind', task', name', rest', ⟨rfl, rfl, rfl, rfl, rfl⟩, hkind⟩
      exact ⟨hkind, rfl⟩
  · rename_i hsplit
    refine iff_of_false (by simp) ?_
    rintro ⟨kind, task, name, rest, hsplit', -⟩
    exact hsplit kind task "results" name rest hsplit'

theorem Named.looksLike (h : Named tasks finallyTasks expr) : looksLikeResultRef expr = true := by
  obtain ⟨kind, task, name, rest, hsplit, hkind⟩ := h
  exact looksLikeResultRef_iff.mpr ⟨kind, task, name, rest, hsplit, hkind.imp And.left And.left⟩

theorem resourceName_of_parse {pr : ParsedResult} (h : parseTaskExpression expr = some pr) :
    ∃ kind name rest, splitDots expr = kind :: pr.resourceName :: "results" :: name :: rest ∧
      (kind = "tasks" ∨ kind = "finally") := by
  unfold parseTaskExpression at h
  split at h
  · rename_i hlooks
    obtain ⟨kind, task, name, rest, hsplit, hkind⟩ := looksLikeResultRef_iff.mp hlooks
    refine ⟨kind, name, rest, ?_, hkind⟩
    rw [parseExpression, hlooks, Bool.true_or, if_pos rfl, hsplit] at h
    rw [hsplit]
    cases rest with
    | nil =>
      dsimp only at h
      split at h
      · obtain rfl := Option.some.inj h
        rfl
      · split at h
        · obtain rfl := Option.some.inj h
          rfl
        · obtain rfl := Option.some.inj h
          rfl
    | cons key rest =>
      cases rest with
      | nil =>
        obtain rfl := Option.some.inj h
        rfl
      | cons key' rest => cases h
  · cases h

theorem named_of_piece {s : String} (h : taskContainsResult s tasks finallyTasks = true)
    {piece : List Char} (hpiece : piece ∈ Text.splitOn '$' s.toList) (hne : piece ≠ []) :
    Named tasks finallyTasks (stripVarSubExpression (String.ofList ('$' :: piece))) := by
  have hok := all_eq_true.mp h piece hpiece
  rw [if_neg hne] at hok
  dsimp only at hok
  generalize stripVarSubExpression (String.ofList ('$' :: piece)) = value at hok ⊢
  cases hparse : parseTaskExpression value with
  | none => simp [hparse] at hok
  | some pr =>
    obtain ⟨kind, name, rest, hsplit, hkind⟩ := resourceName_of_parse hparse
    have hbegins : kind.toList.isPrefixOf value.toList = true := by
      rw [List.isPrefixOf_iff_prefix]
      have hfirst := hsplit
      rw [splitDots] at hfirst
      have hne : Text.splitOn '.' value.toList ≠ [] := Text.splitOn_ne_nil _
      obtain ⟨x, xs, hx⟩ := exists_cons_of_ne_nil hne
      rw [hx, map_cons] at hfirst
      rw [← (List.cons.inj hfirst).1, String.toList_ofList]
      exact Text.prefix_of_splitOn hx
    simp only [hparse, Bool.and_eq_true, Bool.not_eq_true', Bool.and_eq_false_iff,
      decide_eq_false_iff_not, not_not] at hok
    refine ⟨kind, pr.resourceName, name, rest, hsplit, hkind.imp ?_ ?_⟩
    · rintro rfl
      exact ⟨rfl, hok.1.resolve_left (by rw [hbegins]; exact Bool.noConfusion)⟩
    · rintro rfl
      exact ⟨rfl, hok.2.resolve_left (by rw [hbegins]; exact Bool.noConfusion)⟩

theorem exists_piece {s : String} (h : expr ∈ validateString s) :
    ∃ rest, '(' :: (expr.toList ++ ')' :: rest) ∈ Text.splitOn '$' s.toList := by
  have hvar := isVariable_of_mem_validateString h
  obtain ⟨w, hw, rfl⟩ := mem_map.mp h
  obtain ⟨v, rfl, hv⟩ := variableSubstitution_accepts.mem_findAll hw
  obtain ⟨a, b, hs⟩ := Text.infix_of_mem_findAll hw
  rw [stripVarSubExpression_variable, String.toList_ofList]
  have hdollar : '$' ∉ '(' :: (v ++ [')']) := by simp [hv.dollar_not_mem]
  have htext : s.toList = a ++ '$' :: (('(' :: (v ++ [')'])) ++ b) := by
    rw [← hs]
    simp
  obtain ⟨ws, w, x, xs, hfirst, -, happ⟩ := Text.splitOn_append_eq '$' ('(' :: (v ++ [')'])) b
  rw [Text.splitOn_of_not_mem hdollar] at hfirst
  obtain ⟨rfl, rfl⟩ : ws = [] ∧ w = '(' :: (v ++ [')']) := by
    cases ws with
    | nil => exact ⟨rfl, (List.cons.inj hfirst).1.symm⟩
    | cons u us => simp at hfirst
  refine ⟨x, ?_⟩
  rw [htext, Text.splitOn_append_sep, happ]
  exact mem_append_right _ (by simp)

theorem strip_piece (v rest : List Char) :
    stripVarSubExpression (String.ofList ('$' :: '(' :: (v ++ ')' :: rest))) = String.ofList v ∨
    ∃ more, stripVarSubExpression (String.ofList ('$' :: '(' :: (v ++ ')' :: rest))) =
      String.ofList (v ++ ')' :: more) := by
  have hstrip : stripVarSubExpression (String.ofList ('$' :: '(' :: (v ++ ')' :: rest))) =
      String.ofList (Text.trimSuffix [')'] (v ++ ')' :: rest)) := by
    rw [stripVarSubExpression, String.toList_ofList (l := '$' :: '(' :: (v ++ ')' :: rest))]
    exact congrArg (fun t => String.ofList (Text.trimSuffix [')'] t))
      (Text.trimPrefix_append "$(".toList (v ++ ')' :: rest))
  rw [hstrip]
  rcases Text.trimSuffix_singleton ')' (v ++ ')' :: rest) with hsame | hcut
  · exact .inr ⟨rest, by rw [hsame]⟩
  · rcases eq_nil_or_concat rest with rfl | ⟨rest', c, rfl⟩
    · exact .inl (congrArg String.ofList (append_cancel_right hcut).symm)
    · have hend : v ++ ')' :: rest' ++ [c] =
          Text.trimSuffix [')'] (v ++ ')' :: (rest'.concat c)) ++ [')'] := by
        rw [← hcut]
        simp
      refine .inr ⟨rest', ?_⟩
      rw [← (append_inj' hend rfl).1]

theorem Named.of_append (hnames : ∀ n ∈ tasks ++ finallyTasks, ')' ∉ n.toList) {v more : List Char}
    (h : Named tasks finallyTasks (String.ofList (v ++ ')' :: more))) :
    Named tasks finallyTasks (String.ofList v) := by
  obtain ⟨kind, task, name, rest, hsplit, hkind⟩ := h
  obtain ⟨ws, w, x, xs, hv, hmore, happ⟩ := Text.splitOn_append_eq '.' v (')' :: more)
  have hclose : ')' ∈ w ++ x := by
    obtain ⟨y, ys, hy⟩ := Text.splitOn_cons_of_ne (by decide : ')' ≠ '.') more
    rw [hmore] at hy
    rw [(List.cons.inj hy).1]
    exact mem_append_right _ mem_cons_self
  rw [splitDots, String.toList_ofList, happ] at hsplit
  have hv' : splitDots (String.ofList v) = ws.map String.ofList ++ [String.ofList w] := by
    rw [splitDots, String.toList_ofList, hv, map_append, map_singleton]
  have hkindclose : ')' ∉ kind.toList := by
    rcases hkind with ⟨rfl, -⟩ | ⟨rfl, -⟩ <;> decide
  have htaskclose : ')' ∉ task.toList := by
    rcases hkind with ⟨-, hmem⟩ | ⟨-, hmem⟩
    · exact hnames task (mem_append_left _ hmem)
    · exact hnames task (mem_append_right _ hmem)
  rcases ws with _ | ⟨w₁, _ | ⟨w₂, _ | ⟨w₃, ws⟩⟩⟩
  · have hfirst := (List.cons.inj hsplit).1
    rw [← hfirst, String.toList_ofList] at hkindclose
    exact absurd hclose hkindclose
  · have hsecond := (List.cons.inj (List.cons.inj hsplit).2).1
    rw [← hsecond, String.toList_ofList] at htaskclose
    exact absurd hclose htaskclose
  · have hthird := (List.cons.inj (List.cons.inj (List.cons.inj hsplit).2).2).1
    have hresults : ')' ∉ "results".toList := by decide
    rw [← hthird, String.toList_ofList] at hresults
    exact absurd hclose hresults
  · obtain ⟨hfirst, hafter⟩ := List.cons.inj hsplit
    obtain ⟨hsecond, hlast⟩ := List.cons.inj hafter
    have hthird := (List.cons.inj hlast).1
    rw [map_cons, map_cons, map_cons, hfirst, hsecond, hthird] at hv'
    obtain ⟨name', rest', hrest⟩ : ∃ name' rest',
        ws.map String.ofList ++ [String.ofList w] = name' :: rest' := by
      cases ws with
      | nil => exact ⟨_, _, rfl⟩
      | cons u us => exact ⟨_, _, rfl⟩
    exact ⟨_, _, name', rest', by rw [hv', ← hrest]; rfl, hkind⟩

theorem named_of_taskContainsResult (hnames : ∀ n ∈ tasks ++ finallyTasks, ')' ∉ n.toList)
    {s expr : String} (h : taskContainsResult s tasks finallyTasks = true)
    (hexpr : expr ∈ validateString s) : Named tasks finallyTasks expr := by
  obtain ⟨rest, hpiece⟩ := exists_piece hexpr
  have hnamed := named_of_piece h hpiece (cons_ne_nil _ _)
  rcases strip_piece expr.toList rest with heq | ⟨more, heq⟩
  · rwa [heq, String.ofList_toList] at hnamed
  · rw [heq] at hnamed
    have hfront := hnamed.of_append hnames
    rwa [String.ofList_toList] at hfront

end

/-! ## What an accepted pipeline has passed -/

section
variable {refsText : List ParsedResult → String} {spec : ResultSpec}

theorem flatMap_zipIdx_eq_nil {α : Type} {l : List α} (check : α → List FieldError) {field : String}
    (h : l.zipIdx.flatMap (fun e => (check e.1).map (·.viaFieldIndex field e.2)) = [])
    {a : α} (ha : a ∈ l) : check a = [] := by
  obtain ⟨i, hi⟩ := mem_iff_getElem?.mp ha
  exact map_eq_nil_iff.mp
    (flatMap_eq_nil_iff.mp h (a, i) (mem_zipIdx_iff_getElem?.mpr hi))

theorem close_not_mem_of_validateName {name : String} (h : validateName name = []) :
    ')' ∉ name.toList := by
  unfold validateName at h
  split at h
  · rename_i hlabel
    intro hmem
    simp only [isDNS1123Label, Bool.and_eq_true] at hlabel
    exact absurd (all_eq_true.mp hlabel.1.1.2 _ hmem) (by decide)
  · cases h

theorem ResultSpec.close_not_mem (h : spec.validate refsText = []) :
    ∀ n ∈ spec.tasks ++ spec.finallyTasks, ')' ∉ n.toList := by
  obtain ⟨hnames, -⟩ := append_eq_nil_iff.mp h
  obtain ⟨htasks, hfinally⟩ := append_eq_nil_iff.mp hnames
  intro n hn
  rcases mem_append.mp hn with hn | hn
  · exact close_not_mem_of_validateName (flatMap_zipIdx_eq_nil validateName htasks hn)
  · exact close_not_mem_of_validateName (flatMap_zipIdx_eq_nil validateName hfinally hn)

theorem ResultSpec.result_accepted (h : spec.validate refsText = []) {r : PipelineResult}
    (hr : r ∈ spec.results) : validatePipelineResult refsText r spec.tasks spec.finallyTasks = [] :=
  flatMap_zipIdx_eq_nil (validatePipelineResult refsText · spec.tasks spec.finallyTasks)
    (append_eq_nil_iff.mp h).2 hr

variable {r : PipelineResult} {tasks finallyTasks : List String}

/-- Of the array elements and the object values it is only asked that what looks like a
reference is one. -/
theorem parse_of_accepted (h : validatePipelineResult refsText r tasks finallyTasks = [])
    (hexpr : expr ∈ r.getVarSubstitutionExpressions) (hlooks : looksLikeResultRef expr = true) :
    (parseTaskExpression expr).isSome = true := by
  have hlength := (append_eq_nil_iff.mp (append_eq_nil_iff.mp h).1).2
  split at hlength
  · cases hlength
  · rename_i heq
    have hall := filterMap_length_eq_length.mp (not_not.mp heq).symm
    exact hall expr (mem_filter.mpr ⟨hexpr, hlooks⟩)

theorem taskContainsResult_of_accepted
    (h : validatePipelineResult refsText r tasks finallyTasks = []) :
    taskContainsResult r.value.stringVal tasks finallyTasks = true := by
  have hcontains := (append_eq_nil_iff.mp h).2
  split at hcontains
  · assumption
  · cases hcontains

end

/-! ## What the reconciler takes apart -/

section
variable {e : RunResults}

theorem RunResults.variableValue_isSome (h : looksLikeResultRef expr = true) :
    (e.variableValue expr).isSome = true := by
  obtain ⟨kind, task, name, rest, hsplit, hkind⟩ := looksLikeResultRef_iff.mp h
  unfold variableValue
  rw [hsplit]
  dsimp only
  rw [if_neg (fun hne => hkind.elim hne.1 hne.2), if_neg (fun hne => hne rfl)]
  split <;> rfl

theorem RunResults.substitute_isSome {exprs : List String} (acc : Substituted)
    (h : ∀ expr ∈ exprs, looksLikeResultRef expr = true) :
    (e.substitute acc exprs).isSome = true := by
  induction exprs generalizing acc with
  | nil => rfl
  | cons expr exprs ih =>
    have hrest := fun acc => ih acc fun x hx => h x (mem_cons_of_mem _ hx)
    rw [substitute]
    split
    · exact hrest acc
    · obtain ⟨value, hvalue⟩ := Option.isSome_iff_exists.mp
        (variableValue_isSome (h expr mem_cons_self))
      rw [hvalue]
      exact hrest _

theorem RunResults.applyOne_isSome {r : PipelineResult} (acc : Replacements)
    (h : ∀ expr ∈ r.getVarSubstitutionExpressions, looksLikeResultRef expr = true) :
    (e.applyOne acc r).isSome = true := by
  unfold applyOne
  dsimp only
  split
  · rfl
  · rw [Option.isSome_map]
    exact substitute_isSome _ h

theorem RunResults.applyAll_isSome {results : List PipelineResult} (acc : Replacements)
    (h : ∀ r ∈ results, ∀ expr ∈ r.getVarSubstitutionExpressions, looksLikeResultRef expr = true) :
    (e.applyAll acc results).isSome = true := by
  induction results generalizing acc with
  | nil => rfl
  | cons r results ih =>
    obtain ⟨⟨acc', added⟩, hone⟩ := Option.isSome_iff_exists.mp
      (applyOne_isSome (e := e) acc (h r mem_cons_self))
    obtain ⟨⟨acc'', rest⟩, hrest⟩ := Option.isSome_iff_exists.mp
      (ih acc' fun x hx => h x (mem_cons_of_mem _ hx))
    rw [applyAll, hone]
    simp [hrest]

theorem applyTaskResultsToPipelineResults_ne_none {results : List PipelineResult} (e : RunResults)
    (h : ∀ r ∈ results, ∀ expr ∈ r.getVarSubstitutionExpressions, looksLikeResultRef expr = true) :
    applyTaskResultsToPipelineResults results e ≠ none := by
  have hsome : (applyTaskResultsToPipelineResults results e).isSome = true := by
    rw [applyTaskResultsToPipelineResults, Option.isSome_map]
    exact RunResults.applyAll_isSome _ h
  exact Option.isSome_iff_ne_none.mp hsome

end

/-- Of the results of an accepted pipeline, those in its texts refer to tasks of the pipeline.
Those in its arrays and objects have to be held to that by whoever writes it. -/
theorem results_safe_iff {refsText : List ParsedResult → String} {spec : ResultSpec}
    (h : spec.validate refsText = []) :
    ((∀ r ∈ spec.results, ∀ expr ∈ r.getVarSubstitutionExpressions,
        IsReference spec.tasks spec.finallyTasks expr) ∧
      ∀ e, applyTaskResultsToPipelineResults spec.results e ≠ none) ↔
    ∀ r ∈ spec.results, ∀ v ∈ r.value.arrayVal ++ r.value.objectVal.map (·.2),
      ∀ expr ∈ validateString v, Named spec.tasks spec.finallyTasks expr := by
  constructor
  · rintro ⟨hrefs, -⟩ r hr v hv expr hexpr
    refine (hrefs r hr expr ?_).1
    rw [PipelineResult.getVarSubstitutionExpressions, append_assoc]
    refine mem_append_right _ ?_
    rcases mem_append.mp hv with hv | hv
    · exact mem_append_left _ (mem_flatMap.mpr ⟨v, hv, hexpr⟩)
    · obtain ⟨entry, hentry, rfl⟩ := mem_map.mp hv
      exact mem_append_right _ (mem_flatMap.mpr ⟨entry, hentry, hexpr⟩)
  · intro hvalues
    have hnamed : ∀ r ∈ spec.results, ∀ expr ∈ r.getVarSubstitutionExpressions,
        Named spec.tasks spec.finallyTasks expr := by
      intro r hr expr hexpr
      rw [PipelineResult.getVarSubstitutionExpressions, append_assoc] at hexpr
      rcases mem_append.mp hexpr with hstring | hexpr
      · exact named_of_taskContainsResult (ResultSpec.close_not_mem h)
          (taskContainsResult_of_accepted (ResultSpec.result_accepted h hr)) hstring
      · rcases mem_append.mp hexpr with harray | hobject
        · obtain ⟨v, hv, hexpr⟩ := mem_flatMap.mp harray
          exact hvalues r hr v (mem_append_left _ hv) expr hexpr
        · obtain ⟨entry, hentry, hexpr⟩ := mem_flatMap.mp hobject
          exact hvalues r hr entry.2
            (mem_append_right _ (mem_map_of_mem hentry)) expr hexpr
    refine ⟨fun r hr expr hexpr => ⟨hnamed r hr expr hexpr, ?_⟩, fun e => ?_⟩
    · exact parse_of_accepted (ResultSpec.result_accepted h hr) hexpr
        (hnamed r hr expr hexpr).looksLike
    · exact applyTaskResultsToPipelineResults_ne_none e fun r hr expr hexpr =>
        (hnamed r hr expr hexpr).looksLike

def release : ResultSpec where
  results :=
    [⟨"image", { stringVal := "$(tasks.build.results.url)@$(tasks.build.results.digest[0])" }⟩,
      ⟨"report",
        { type := .object, objectVal := [("mail", "$(finally.notify.results.sent.mail)")] }⟩]
  tasks := ["build"]
  finallyTasks := ["notify"]

theorem release_safe : (release.validate fun _ => "") = [] ∧
    (∀ r ∈ release.results, ∀ expr ∈ r.getVarSubstitutionExpressions,
      IsReference release.tasks release.finallyTasks expr) ∧
    ∀ e, applyTaskResultsToPipelineResults release.results e ≠ none := by
  have haccepted : (release.validate fun _ => "") = [] := by decide +kernel
  refine ⟨haccepted, (results_safe_iff haccepted).mpr ?_⟩
  intro r hr v hv expr hexpr
  have hall : ∀ r ∈ release.results, ∀ v ∈ r.value.arrayVal ++ r.value.objectVal.map (·.2),
      ∀ expr ∈ validateString v, expr = "finally.notify.results.sent.mail" := by
    decide +kernel
  rw [hall r hr v hv expr hexpr]
  exact ⟨"finally", "notify", "sent", ["mail"], by decide +kernel, .inr ⟨rfl, by decide⟩⟩

/-- One element refers to a result, so nothing is asked of the other. -/
def images : ResultSpec where
  results :=
    [⟨"images",
      { type := .array, arrayVal := ["$(tasks.build.results.digest)", "$(tasks.build)"] }⟩]
  tasks := ["build"]

theorem images_crash : (images.validate fun _ => "") = [] ∧
    applyTaskResultsToPipelineResults images.results {} = none := by
  decide +kernel

end TektonPipeline.Pipeline
