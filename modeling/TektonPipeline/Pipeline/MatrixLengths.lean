import TektonPipeline.Api.Sites
import TektonPipeline.Pipeline.MatrixResults

/-! `ApplyPipelineTaskContexts`: the variables for the number of runs of a matrixed task, and for
the number of values its runs gave to a result. -/

namespace TektonPipeline.Pipeline
open Api ResultRef List Table

structure StartedTask extends PipelineTask where
  displayName : String := ""
  retries : Int := 0
  deriving DecidableEq

def isMatrixContextVar (expression : String) : Bool :=
  let subExpressions := splitDots expression
  decide (4 ≤ subExpressions.length) && subExpressions[2]? == some "matrix" &&
    subExpressions.getLast? == some "length"

def filterMatrixContextVar (params : Params) : Params :=
  params.flatMap fun p =>
    (p.getVarSubstitutionExpressions.filter isMatrixContextVar).map fun _ => p

/-- `none` where the second part of an expression without a dot is read. -/
def parseExpressions : List String → Option (String × String)
  | [] => some ("", "")
  | expression :: expressions =>
    match splitDots expression with
    | [_, pipelineTaskName, _, _] => some (pipelineTaskName, "")
    | [_, pipelineTaskName, _, resultName, _] => some (pipelineTaskName, resultName)
    | _ :: _ :: _ => parseExpressions expressions
    | _ => none

def parseTaskandResultName (p : Param) : Option (String × String) :=
  parseExpressions p.getVarSubstitutionExpressions

def matrixLength (pipelineTaskName : String) : String :=
  "tasks." ++ pipelineTaskName ++ ".matrix.length"

def resultLength (pipelineTaskName resultName : String) : String :=
  "tasks." ++ pipelineTaskName ++ ".matrix." ++ resultName ++ ".length"

/-- `stored` are the tasks of the spec in the status of the PipelineRun, if it has one. -/
def lengthWrites (stored : Option (List PipelineTask)) (pipelineTaskName : String) :
    List (String × String) :=
  if pipelineTaskName = "" then []
  else ((stored.getD []).filter fun task => task.name = pipelineTaskName).map fun task =>
    (matrixLength pipelineTaskName, toString task.matrix.countCombinations)

def ResolvedPipelineTask.cachedLength (t : ResolvedPipelineTask) (resultName : String) : Nat :=
  ((t.cacheResults.resultsCache.lookup resultName).getD []).length

def resultLengthWrites (s : PipelineRunState) (pipelineTaskName resultName : String) :
    List (String × String) :=
  if pipelineTaskName = "" ∨ resultName = "" then []
  else (s.filter fun t => t.name = pipelineTaskName).map fun t =>
    (resultLength pipelineTaskName resultName, toString (t.cachedLength resultName))

/-- The loop over the filtered parameters, with the resolved tasks, whose results it collects,
and the replacements so far. -/
def contextLoop (stored : Option (List PipelineTask)) :
    PipelineRunState → List (String × String) → Params →
      Option (PipelineRunState × List (String × String))
  | s, replacements, [] => some (s, replacements)
  | s, replacements, p :: ps =>
    match parseTaskandResultName p with
    | none => none
    | some (pipelineTaskName, resultName) =>
      contextLoop stored
        (if pipelineTaskName = "" ∨ resultName = "" then s
          else s.update pipelineTaskName ResolvedPipelineTask.cacheResults)
        (Table.puts replacements (lengthWrites stored pipelineTaskName ++
          resultLengthWrites s pipelineTaskName resultName)) ps

def contextReplacements (stored : Option (List PipelineTask)) (s : PipelineRunState)
    (pt : StartedTask) : Option (PipelineRunState × List (String × String)) :=
  contextLoop stored s [("context.pipelineTask.retries", toString pt.retries)]
    (filterMatrixContextVar pt.params)

def StartedTask.replaceStrings (pt : StartedTask) (strings : List (String × String)) :
    StartedTask :=
  { pt with
    params := pt.params.replaceVariables { strings := strings }
    matrix := if pt.isMatrixed then
        { params := pt.matrix.params.replaceVariables { strings := strings }
          includes := pt.matrix.includes.map fun i =>
            { i with params := i.params.replaceVariables { strings := strings } } }
      else pt.matrix
    displayName := applyReplacements pt.displayName strings }

def applyPipelineTaskContexts (pt : StartedTask) (stored : Option (List PipelineTask))
    (s : PipelineRunState) : Option (PipelineRunState × StartedTask) :=
  (contextReplacements stored s pt).map fun (s, strings) => (s, pt.replaceStrings strings)

/-! ## Which variable is read from a parameter -/

def HasLength (p : Param) : Prop :=
  ∃ e ∈ p.getVarSubstitutionExpressions, isMatrixContextVar e = true

/-- An expression at which the search for the variable does not end. -/
def PassedBy (expression : String) : Prop :=
  (splitDots expression).length ≠ 4 ∧ (splitDots expression).length ≠ 5

def IsAbout (expression pipelineTaskName resultName : String) : Prop :=
  (∃ a c d, splitDots expression = [a, pipelineTaskName, c, d] ∧ resultName = "") ∨
    ∃ a c d, splitDots expression = [a, pipelineTaskName, c, resultName, d]

/-- The first expression of four or five parts is about these names, and none without a dot
stands in front of it. -/
def Reads (expressions : List String) (pipelineTaskName resultName : String) : Prop :=
  ∃ before e after, expressions = before ++ e :: after ∧
    (∀ b ∈ before, PassedBy b ∧ '.' ∈ b.toList) ∧ IsAbout e pipelineTaskName resultName

/-- An expression without a dot stands in front of all those of four or five parts. -/
def Stuck (expressions : List String) : Prop :=
  ∃ before e after, expressions = before ++ e :: after ∧ (∀ b ∈ before, PassedBy b) ∧
    '.' ∉ e.toList

theorem mem_filterMatrixContextVar {params : Params} {p : Param} :
    p ∈ filterMatrixContextVar params ↔ p ∈ params ∧ HasLength p := by
  simp only [filterMatrixContextVar, mem_flatMap, mem_map, mem_filter, HasLength]
  grind

section
variable {e n r : String} {es : List String}

theorem one_lt_length_splitDots (h : '.' ∈ e.toList) : 1 < (splitDots e).length := by
  obtain ⟨u, v, huv, -⟩ := eq_append_cons_of_mem h
  have hu : 0 < (Text.splitOn '.' u).length := length_pos_iff.mpr (Text.splitOn_ne_nil u)
  have hv : 0 < (Text.splitOn '.' v).length := length_pos_iff.mpr (Text.splitOn_ne_nil v)
  rw [splitDots, length_map, huv, Text.splitOn_append_sep, length_append]
  omega

theorem parseExpressions_dotless (h : '.' ∉ e.toList) : parseExpressions (e :: es) = none := by
  simp [parseExpressions, splitDots_of_not_mem h]

theorem parseExpressions_isAbout (h : IsAbout e n r) :
    parseExpressions (e :: es) = some (n, r) := by
  rcases h with ⟨a, c, d, hsplit, rfl⟩ | ⟨a, c, d, hsplit⟩ <;> simp [parseExpressions, hsplit]

theorem parseExpressions_passedBy (h : PassedBy e) (hdot : '.' ∈ e.toList) :
    parseExpressions (e :: es) = parseExpressions es := by
  have hlen := one_lt_length_splitDots hdot
  unfold PassedBy at h
  rw [parseExpressions.eq_2]
  rcases hsplit : splitDots e with _ | ⟨a, _ | ⟨b, _ | ⟨c, _ | ⟨d, _ | ⟨f, _ | ⟨g, l⟩⟩⟩⟩⟩⟩ <;>
    simp_all

theorem exists_isAbout (h : ¬ PassedBy e) : ∃ n r, IsAbout e n r := by
  unfold PassedBy at h
  rcases hsplit : splitDots e with _ | ⟨a, _ | ⟨b, _ | ⟨c, _ | ⟨d, _ | ⟨f, _ | ⟨g, l⟩⟩⟩⟩⟩⟩ <;>
    simp [hsplit] at h
  · exact ⟨b, "", .inl ⟨a, c, d, hsplit, rfl⟩⟩
  · exact ⟨b, d, .inr ⟨a, c, f, hsplit⟩⟩

theorem IsAbout.not_passedBy (h : IsAbout e n r) : ¬ PassedBy e := by
  rcases h with ⟨a, c, d, hsplit, -⟩ | ⟨a, c, d, hsplit⟩ <;> simp [PassedBy, hsplit]

theorem exists_split_cons {P Q : String → Prop} :
    (∃ before f after, e :: es = before ++ f :: after ∧ (∀ b ∈ before, P b) ∧ Q f) ↔
      Q e ∨ P e ∧ ∃ before f after, es = before ++ f :: after ∧ (∀ b ∈ before, P b) ∧ Q f := by
  constructor
  · rintro ⟨_ | ⟨b, before⟩, f, after, heq, hbefore, hf⟩
    · obtain ⟨rfl, -⟩ := List.cons.inj heq
      exact .inl hf
    · obtain ⟨rfl, rfl⟩ := List.cons.inj heq
      obtain ⟨hb, hbefore⟩ := forall_mem_cons.mp hbefore
      exact .inr ⟨hb, before, f, after, rfl, hbefore, hf⟩
  · rintro (he | ⟨he, before, f, after, rfl, hbefore, hf⟩)
    · exact ⟨[], e, es, rfl, by simp, he⟩
    · exact ⟨e :: before, f, after, rfl, forall_mem_cons.mpr ⟨he, hbefore⟩, hf⟩

theorem parseExpressions_eq_some_iff : parseExpressions es = some (n, r) ↔
    Reads es n r ∨ (n = "" ∧ r = "") ∧ ∀ e ∈ es, PassedBy e ∧ '.' ∈ e.toList := by
  induction es with
  | nil => simp [parseExpressions, Reads, eq_comm]
  | cons e es ih =>
    rw [Reads, exists_split_cons, ← Reads, forall_mem_cons]
    by_cases hpassed : PassedBy e
    · have hnot : ¬ IsAbout e n r := fun h => h.not_passedBy hpassed
      by_cases hdot : '.' ∈ e.toList
      · simp [parseExpressions_passedBy hpassed hdot, ih, hpassed, hdot, hnot]
      · simp [parseExpressions_dotless hdot, hdot, hnot]
    · obtain ⟨n', r', habout⟩ := exists_isAbout hpassed
      simp only [hpassed, false_and, and_false, or_false]
      constructor
      · intro h
        obtain ⟨rfl, rfl⟩ :=
          Prod.mk.inj (Option.some.inj ((parseExpressions_isAbout habout).symm.trans h))
        exact habout
      · exact parseExpressions_isAbout

theorem parseExpressions_eq_none_iff : parseExpressions es = none ↔ Stuck es := by
  induction es with
  | nil => simp [parseExpressions, Stuck]
  | cons e es ih =>
    rw [Stuck, exists_split_cons, ← Stuck, ← ih]
    by_cases hdot : '.' ∈ e.toList
    · by_cases hpassed : PassedBy e
      · simp [parseExpressions_passedBy hpassed hdot, hpassed, hdot]
      · obtain ⟨n, r, habout⟩ := exists_isAbout hpassed
        simp [parseExpressions_isAbout habout, hpassed, hdot]
    · simp [parseExpressions_dotless hdot, hdot]

end

/-! ## The table of the lengths -/

section
variable {n n' r r' : String}

theorem splitDots_matrixLength (h : '.' ∉ n.toList) :
    splitDots (matrixLength n) = ["tasks", n, "matrix", "length"] := by
  have htext : (matrixLength n).toList = "tasks".toList ++ '.' ::
      (n.toList ++ '.' :: ("matrix".toList ++ '.' :: "length".toList)) := by
    simp [matrixLength]
  rw [splitDots, htext, Text.splitOn_append (by decide), Text.splitOn_append h,
    Text.splitOn_append (by decide), Text.splitOn_of_not_mem (by decide)]
  simp

theorem splitDots_resultLength (h : '.' ∉ n.toList) (r : String) :
    splitDots (resultLength n r) = "tasks" :: n :: "matrix" :: (splitDots r ++ ["length"]) := by
  have htext : (resultLength n r).toList = "tasks".toList ++ '.' ::
      (n.toList ++ '.' :: ("matrix".toList ++ '.' :: (r.toList ++ '.' :: "length".toList))) := by
    simp [resultLength]
  rw [splitDots, htext, Text.splitOn_append (by decide), Text.splitOn_append h,
    Text.splitOn_append (by decide), Text.splitOn_append_sep,
    Text.splitOn_of_not_mem (w := "length".toList) (by decide)]
  simp [splitDots]

theorem matrixLength_ne_resultLength (hn : '.' ∉ n.toList) (hn' : '.' ∉ n'.toList) :
    matrixLength n ≠ resultLength n' r := by
  intro h
  have hsplit := congrArg (fun k => (splitDots k).length) h
  have hne : splitDots r ≠ [] := by simp [splitDots, Text.splitOn_ne_nil]
  have hpos := length_pos_iff.mpr hne
  simp only [splitDots_matrixLength hn, splitDots_resultLength hn', length_cons,
    length_append, length_nil] at hsplit
  omega

theorem matrixLength_inj (h : matrixLength n = matrixLength n') : n = n' := by
  simpa [matrixLength, String.append_left_inj, String.append_right_inj] using h

theorem resultLength_inj (hn : '.' ∉ n.toList) (hn' : '.' ∉ n'.toList)
    (h : resultLength n r = resultLength n' r') : n = n' ∧ r = r' := by
  have hsplit := congrArg splitDots h
  rw [splitDots_resultLength hn, splitDots_resultLength hn'] at hsplit
  obtain rfl : n = n' := (List.cons.inj (List.cons.inj hsplit).2).1
  refine ⟨rfl, ?_⟩
  simpa [resultLength, String.append_left_inj, String.append_right_inj] using h

end

def contextWrites (stored : Option (List PipelineTask)) (s : PipelineRunState)
    (parsed : String × String) : List (String × String) :=
  lengthWrites stored parsed.1 ++ resultLengthWrites s parsed.1 parsed.2

def parsedOf (p : Param) : String × String := (parseTaskandResultName p).getD ("", "")

section
variable {stored : Option (List PipelineTask)} {s s' : PipelineRunState} {ps : Params}
  {strings strings' : List (String × String)}

theorem resultLengthWrites_update (s : PipelineRunState) (m n r : String) :
    resultLengthWrites (s.update m ResolvedPipelineTask.cacheResults) n r =
      resultLengthWrites s n r := by
  have hname : ∀ t : ResolvedPipelineTask,
      (if t.name = m then t.cacheResults else t).name = t.name := by
    intro t
    split
    · exact t.cacheResults_name
    · rfl
  have hcache : ∀ t : ResolvedPipelineTask,
      (if t.name = m then t.cacheResults else t).cachedLength r = t.cachedLength r := by
    intro t
    split
    · rw [ResolvedPipelineTask.cachedLength, t.cacheResults_idem]
      rfl
    · rfl
  unfold resultLengthWrites PipelineRunState.update
  rw [filter_map, map_map]
  simp only [Function.comp_def, hname, hcache]

theorem contextLoop_strings (h : contextLoop stored s strings ps = some (s', strings')) :
    strings' = Table.puts strings (ps.flatMap fun p => contextWrites stored s (parsedOf p)) := by
  induction ps generalizing s strings with
  | nil => exact (Prod.mk.inj (Option.some.inj h)).2.symm
  | cons p ps ih =>
    unfold contextLoop at h
    cases hparse : parseTaskandResultName p with
    | none =>
      rw [hparse] at h
      cases h
    | some parsed =>
      obtain ⟨n, r⟩ := parsed
      rw [hparse] at h
      have hrest := ih h
      have hwrites : ∀ parsed, contextWrites stored
          (if n = "" ∨ r = "" then s else s.update n ResolvedPipelineTask.cacheResults) parsed =
            contextWrites stored s parsed := by
        intro parsed
        split
        · rfl
        · rw [contextWrites, resultLengthWrites_update]
          rfl
      have hp : parsedOf p = (n, r) := by rw [parsedOf, hparse]; rfl
      simp only [hwrites] at hrest
      rw [hrest, flatMap_cons, hp, ← puts_append]
      rfl

theorem contextLoop_ne_none :
    contextLoop stored s strings ps ≠ none ↔ ∀ p ∈ ps, parseTaskandResultName p ≠ none := by
  induction ps generalizing s strings with
  | nil => simp [contextLoop]
  | cons p ps ih =>
    unfold contextLoop
    cases hparse : parseTaskandResultName p with
    | none => simp [hparse]
    | some parsed =>
      obtain ⟨n, r⟩ := parsed
      simp [hparse, ih]

end

def ParamValue.texts (v : ParamValue) : List String :=
  match v.type with
  | .string => [v.stringVal]
  | .array => v.arrayVal
  | .object => v.objectVal.map (·.2)

def StartedTask.texts (pt : StartedTask) : List String :=
  pt.params.flatMap fun p => ParamValue.texts p.value

section
variable {p : Param} {e n r : String}

theorem getVarSubstitutionExpressions_eq (p : Param) :
    p.getVarSubstitutionExpressions = (ParamValue.texts p.value).flatMap validateString := by
  unfold Param.getVarSubstitutionExpressions ParamValue.texts
  cases p.value.type <;> simp [flatMap_map]

theorem plain_of_mem_expressions (he : e ∈ p.getVarSubstitutionExpressions) : Plain e := by
  rw [getVarSubstitutionExpressions_eq] at he
  obtain ⟨text, -, he⟩ := mem_flatMap.mp he
  exact (isVariable_of_mem_validateString he).plain

theorem IsAbout.mem (h : IsAbout e n r) : n ∈ splitDots e ∧ (r = "" ∨ r ∈ splitDots e) := by
  rcases h with ⟨a, c, d, hsplit, rfl⟩ | ⟨a, c, d, hsplit⟩ <;> simp [hsplit]

theorem dot_not_mem_splitDots (h : n ∈ splitDots e) : '.' ∉ n.toList := by
  obtain ⟨w, hw, rfl⟩ := mem_map.mp h
  rw [String.toList_ofList]
  exact fun hmem => (Text.mem_of_mem_splitOn _ hw _ hmem).2 rfl

theorem plain_of_mem_splitDots (he : Plain e) (h : n ∈ splitDots e) : Plain n := by
  obtain ⟨w, hw, rfl⟩ := mem_map.mp h
  constructor
  · rw [String.toList_ofList]
    exact fun hmem => he.dollar (Text.mem_of_mem_splitOn _ hw _ hmem).1
  · rw [String.toList_ofList]
    exact fun hmem => he.closing (Text.mem_of_mem_splitOn _ hw _ hmem).1

theorem parsedOf_names (p : Param) : ('.' ∉ (parsedOf p).1.toList ∧ Plain (parsedOf p).1) ∧
      '.' ∉ (parsedOf p).2.toList ∧ Plain (parsedOf p).2 := by
  have hempty : '.' ∉ "".toList ∧ Plain "" := ⟨by decide, by decide, by decide⟩
  unfold parsedOf parseTaskandResultName
  cases hparse : parseExpressions p.getVarSubstitutionExpressions with
  | none => exact ⟨hempty, hempty⟩
  | some parsed =>
    obtain ⟨n, r⟩ := parsed
    obtain ⟨before, e, after, heq, -, habout⟩ | ⟨⟨rfl, rfl⟩, -⟩ :=
      parseExpressions_eq_some_iff.mp hparse
    · have he : e ∈ p.getVarSubstitutionExpressions := by simp [heq]
      have hpiece : ∀ {x}, x ∈ splitDots e → '.' ∉ x.toList ∧ Plain x := fun hx =>
        ⟨dot_not_mem_splitDots hx, plain_of_mem_splitDots (plain_of_mem_expressions he) hx⟩
      obtain ⟨hn, hr⟩ := habout.mem
      refine ⟨hpiece hn, ?_⟩
      rcases hr with rfl | hr
      · exact hempty
      · exact hpiece hr
    · exact ⟨hempty, hempty⟩

theorem parsedOf_eq_iff (hn : n ≠ "") :
    parsedOf p = (n, r) ↔ Reads p.getVarSubstitutionExpressions n r := by
  have hiff : parseExpressions p.getVarSubstitutionExpressions = some (n, r) ↔ _ :=
    parseExpressions_eq_some_iff
  simp only [hn, false_and, or_false] at hiff
  rw [← hiff, parsedOf, parseTaskandResultName]
  cases parseExpressions p.getVarSubstitutionExpressions with
  | none => simp [hn.symm]
  | some parsed => simp

end

section
variable {stored : Option (List PipelineTask)} {s : PipelineRunState} {p : Param}
  {n r w : String}

theorem mem_lengthWrites {k : String} :
    (k, w) ∈ lengthWrites stored n ↔ n ≠ "" ∧ k = matrixLength n ∧
      ∃ task ∈ stored.getD [], task.name = n ∧ w = toString task.matrix.countCombinations := by
  unfold lengthWrites
  split
  · rename_i hn
    simp [hn]
  · simp only [mem_map, mem_filter, decide_eq_true_eq, Prod.mk.injEq]
    grind

theorem mem_resultLengthWrites {k : String} :
    (k, w) ∈ resultLengthWrites s n r ↔ (n ≠ "" ∧ r ≠ "") ∧ k = resultLength n r ∧
      ∃ t ∈ s, t.name = n ∧ w = toString (t.cachedLength r) := by
  unfold resultLengthWrites
  split
  · refine iff_of_false not_mem_nil fun h => ?_
    simp_all
  · simp only [mem_map, mem_filter, decide_eq_true_eq, Prod.mk.injEq]
    grind

theorem mem_contextWrites_matrixLength (hn : '.' ∉ n.toList) (hne : n ≠ "") :
    (matrixLength n, w) ∈ contextWrites stored s (parsedOf p) ↔
      (∃ r, Reads p.getVarSubstitutionExpressions n r) ∧
        ∃ i, (∃ task ∈ stored.getD [], task.name = n ∧ task.matrix.countCombinations = i) ∧
          w = toString i := by
  rw [contextWrites, mem_append, mem_lengthWrites, mem_resultLengthWrites]
  constructor
  · intro h
    rcases h with ⟨-, hk, htask⟩ | ⟨-, hk, -⟩
    · have hname := matrixLength_inj hk
      obtain ⟨task, hmem, htask, hw⟩ := htask
      exact ⟨⟨(parsedOf p).2, (parsedOf_eq_iff hne).mp (by rw [hname])⟩, _,
        ⟨task, hmem, htask.trans hname.symm, rfl⟩, hw⟩
    · exact absurd hk (matrixLength_ne_resultLength hn (parsedOf_names p).1.1)
  · intro ⟨⟨r, hreads⟩, i, ⟨task, hmem, htask, hi⟩, hw⟩
    have hparsed := (parsedOf_eq_iff hne).mpr hreads
    left
    rw [hparsed]
    exact ⟨hne, rfl, task, hmem, htask, hi ▸ hw⟩

theorem mem_contextWrites_resultLength (hn : '.' ∉ n.toList) (hne : n ≠ "") (hr : r ≠ "") :
    (resultLength n r, w) ∈ contextWrites stored s (parsedOf p) ↔
      Reads p.getVarSubstitutionExpressions n r ∧
        ∃ t ∈ s, t.name = n ∧ w = toString (t.cachedLength r) := by
  rw [contextWrites, mem_append, mem_lengthWrites, mem_resultLengthWrites]
  constructor
  · intro h
    rcases h with ⟨-, hk, -⟩ | ⟨-, hk, ht⟩
    · exact absurd hk.symm (matrixLength_ne_resultLength (parsedOf_names p).1.1 hn)
    · obtain ⟨hname, hresult⟩ := resultLength_inj hn (parsedOf_names p).1.1 hk
      rw [← hname, ← hresult] at ht
      exact ⟨(parsedOf_eq_iff hne).mp (by rw [hname, hresult]), ht⟩
  · intro ⟨hreads, ht⟩
    have hparsed := (parsedOf_eq_iff hne).mpr hreads
    right
    rw [hparsed]
    exact ⟨⟨hne, hr⟩, rfl, ht⟩

end

/-! ## When all the lengths are put in -/

def FannedOut (t : ResolvedPipelineTask) : Prop :=
  t.pipelineTask.isMatrixed = true ∧ (t.isSuccessful = true ∨ t.isFailure = true)

def ResolvedPipelineTask.emitted (t : ResolvedPipelineTask) (resultName : String) : Nat :=
  (valuesOf resultName (t.runs.flatMap (·.results))).length

def IsResultName (r : String) : Prop := r ≠ "" ∧ ∀ c ∈ r.toList, isVarChar c = true

def ReplacesLengths (stored : Option (List PipelineTask)) (s : PipelineRunState)
    (pt : StartedTask) : Prop :=
  ∃ s' strings, contextReplacements stored s pt = some (s', strings) ∧
    (pt.replaceStrings strings).texts = pt.texts.map (applyReplacements · strings) ∧
      ∀ text ∈ pt.texts, ∀ t ∈ s, FannedOut t →
        ReplacedBy strings text (matrixLength t.name) (toString t.runs.length) ∧
          ∀ r, IsResultName r →
            ReplacedBy strings text (resultLength t.name r) (toString (t.emitted r))

/-- The resolved tasks: the cache of a task is empty or was made from its TaskRuns, and a custom
task has none. -/
structure WellResolved (stored : Option (List PipelineTask)) (s : PipelineRunState) : Prop where
  names : ∀ t ∈ s, t.name ≠ "" ∧ '.' ∉ t.name.toList ∧ ∀ c ∈ t.name.toList, isVarChar c = true
  nodup : (s.map (·.name)).Nodup
  storedNodup : ((stored.getD []).map (·.name)).Nodup
  cache : ∀ t ∈ s, ∃ t₀ : ResolvedPipelineTask, t₀.resultsCache = [] ∧
    (t = t₀ ∨ t = t₀.cacheResults)
  custom : ∀ t ∈ s, t.customTask = true → t.taskRuns = []

/-- Every variable for a length in the parameters is the one that is read from some parameter,
the matrix in the stored spec has as many combinations as the task has runs, and no custom task
has given a value to a result that is counted. -/
structure ReadsLengths (stored : Option (List PipelineTask)) (s : PipelineRunState)
    (pt : StartedTask) : Prop where
  returns : ∀ p ∈ pt.params, HasLength p → ¬ Stuck p.getVarSubstitutionExpressions
  lengths : ∀ text ∈ pt.texts, ∀ t ∈ s, FannedOut t → Occurs (matrixLength t.name) text →
    (∃ p ∈ pt.params, HasLength p ∧ ∃ r, Reads p.getVarSubstitutionExpressions t.name r) ∧
      ∃ task ∈ stored.getD [], task.name = t.name ∧
        task.matrix.countCombinations = t.runs.length
  results : ∀ text ∈ pt.texts, ∀ t ∈ s, FannedOut t → ∀ r, IsResultName r →
    Occurs (resultLength t.name r) text →
      (∃ p ∈ pt.params, HasLength p ∧ Reads p.getVarSubstitutionExpressions t.name r) ∧
        (t.customTask = true → ∀ run ∈ t.customRuns, r ∉ run.results.map (·.1))

section
variable {strings : List (String × String)} {text k : String}

theorem toString_ne_reference (i : Nat) (k : String) : toString i ≠ "$(" ++ k ++ ")" := by
  intro h
  have hmem : '$' ∈ (toString i).toList := by
    rw [h]
    simp
  exact absurd (Text.isDigit_of_mem_toString hmem) (by decide)

theorem texts_applyReplacements (hkeys : ∀ k ∈ strings.map (·.1), k.toList.getLast? ≠ some ']')
    (v : ParamValue) : ParamValue.texts (v.applyReplacements { strings := strings }) =
      (ParamValue.texts v).map (applyReplacements · strings) := by
  cases ht : v.type with
  | array =>
    simp [ParamValue.texts, ParamValue.applyReplacements, ht, applyArrayReplacements,
      map_eq_flatMap]
  | object => simp [ParamValue.texts, ParamValue.applyReplacements, ht]
  | string =>
    have hstring : ∀ w : ParamValue, v.applyReplacements { strings := strings } = w →
        w.type = .string → w.stringVal = applyReplacements v.stringVal strings →
        ParamValue.texts (v.applyReplacements { strings := strings }) =
          (ParamValue.texts v).map (applyReplacements · strings) := by
      intro w hw htype hval
      rw [hw]
      simp [ParamValue.texts, ht, htype, hval]
    have happly : v.applyReplacements { strings := strings } =
        v.applyOrCorrect ⟨strings, [], []⟩ := by
      simp [ParamValue.applyReplacements, ht]
    by_cases hexact : isExactVariableSubstitution v.stringVal = true
    · rw [ParamValue.applyOrCorrect_whole hexact rfl rfl] at happly
      refine hstring _ happly ht ?_
      rw [Site.apply]
      split
      · rfl
      · rename_i hnone
        obtain ⟨x, hx, hvar, hstrip⟩ := exists_of_isExactVariableSubstitution hexact
        have hlookup : strings.lookup x = none := by
          rcases hstrip with h | h
          · rw [h]
            exact Option.not_isSome_iff_eq_none.mp hnone
          · refine Assoc.lookup_of_not_mem fun hmem => hkeys x hmem ?_
            rw [h, String.toList_append]
            simp
        rw [hx, applyReplacements_self strings hvar.plain, hlookup]
        rfl
    · rw [ParamValue.applyOrCorrect_text (by simpa using hexact)] at happly
      exact hstring _ happly ht rfl

end

section
variable {stored : Option (List PipelineTask)} {s s' : PipelineRunState} {pt : StartedTask}
  {strings : List (String × String)}

theorem contextReplacements_ne_none (stored : Option (List PipelineTask)) (s : PipelineRunState)
    (pt : StartedTask) : contextReplacements stored s pt ≠ none ↔
      ∀ p ∈ pt.params, HasLength p → ¬ Stuck p.getVarSubstitutionExpressions := by
  unfold contextReplacements
  rw [contextLoop_ne_none]
  simp [mem_filterMatrixContextVar, parseTaskandResultName, parseExpressions_eq_none_iff]

theorem mem_keys_contextReplacements (h : contextReplacements stored s pt = some (s', strings))
    {k : String} (hk : k ∈ strings.map (·.1)) : k = "context.pipelineTask.retries" ∨
      ∃ p, k = matrixLength (parsedOf p).1 ∨ k = resultLength (parsedOf p).1 (parsedOf p).2 := by
  rw [contextLoop_strings h, mem_keys_puts, mem_map] at hk
  rcases hk with ⟨e, he, rfl⟩ | hk
  · obtain ⟨p, -, he⟩ := mem_flatMap.mp he
    refine .inr ⟨p, ?_⟩
    rcases mem_append.mp he with he | he
    · exact .inl (mem_lengthWrites.mp he).2.1
    · exact .inr (mem_resultLengthWrites.mp he).2.1
  · exact .inl (mem_singleton.mp hk)

theorem plain_matrixLength {n : String} (hn : Plain n) : Plain (matrixLength n) := by
  constructor
  · simpa [matrixLength] using hn.dollar
  · simpa [matrixLength] using hn.closing

theorem plain_resultLength {n r : String} (hn : Plain n) (hr : Plain r) :
    Plain (resultLength n r) := by
  constructor
  · simpa [resultLength] using ⟨hn.dollar, hr.dollar⟩
  · simpa [resultLength] using ⟨hn.closing, hr.closing⟩

section
variable (h : contextReplacements stored s pt = some (s', strings))
include h

theorem plain_contextReplacements : ∀ k ∈ strings.map (·.1), Plain k := by
  intro k hk
  rcases mem_keys_contextReplacements h hk with rfl | ⟨p, rfl | rfl⟩
  · exact ⟨by decide, by decide⟩
  · exact plain_matrixLength (parsedOf_names p).1.2
  · exact plain_resultLength (parsedOf_names p).1.2 (parsedOf_names p).2.2

theorem getLast_contextReplacements : ∀ k ∈ strings.map (·.1), k.toList.getLast? ≠ some ']' := by
  intro k hk
  rcases mem_keys_contextReplacements h hk with rfl | ⟨p, rfl | rfl⟩
  · decide
  · have hlast : ".matrix.length".toList.getLast? = some 'h' := by decide
    rw [matrixLength, String.toList_append, getLast?_append, hlast]
    simp
  · have hlast : ".length".toList.getLast? = some 'h' := by decide
    rw [resultLength, String.toList_append, getLast?_append, hlast]
    simp

theorem lookup_contextReplacements {k : String} (hk : k ≠ "context.pipelineTask.retries")
    {R : Param → Prop} {V : Nat → Prop}
    (hwrites : ∀ p w, (k, w) ∈ contextWrites stored s (parsedOf p) ↔
      R p ∧ ∃ i, V i ∧ w = toString i) (hone : ∀ i j, V i → V j → i = j) {i : Nat} :
    strings.lookup k = some (toString i) ↔ (∃ p ∈ pt.params, HasLength p ∧ R p) ∧ V i := by
  have hnone : [("context.pipelineTask.retries", toString pt.retries)].lookup k = none := by
    simp [lookup_cons, beq_eq_false_iff_ne.mpr hk]
  rw [contextLoop_strings h, lookup_puts, hnone, Option.or_none, Assoc.lookup_eq_some_iff]
  · simp only [mem_reverse, mem_flatMap, mem_filterMatrixContextVar, hwrites]
    constructor
    · intro ⟨p, ⟨hp, hlength⟩, hreads, j, hj, heq⟩
      exact ⟨⟨p, hp, hlength, hreads⟩, Text.toString_inj heq ▸ hj⟩
    · intro ⟨⟨p, hp, hlength, hreads⟩, hi⟩
      exact ⟨p, ⟨hp, hlength⟩, hreads, i, hi, rfl⟩
  · simp only [mem_reverse, mem_flatMap, hwrites]
    intro u w ⟨_, _, _, i, hi, hu⟩ ⟨_, _, _, j, hj, hw⟩
    rw [hu, hw, hone i j hi hj]

end

theorem retries_not_length (n : String) (rest : String) :
    "tasks." ++ n ++ rest ≠ "context.pipelineTask.retries" := by
  intro h
  have hhead := congrArg (fun x => x.toList.head?) h
  simp at hhead

theorem valuesOf_eq_nil_iff {r : String} {runs : List ChildRun} :
    valuesOf r (runs.flatMap (·.results)) = [] ↔ ∀ run ∈ runs, r ∉ run.results.map (·.1) := by
  simp only [valuesOf, map_eq_nil_iff, filter_eq_nil_iff, mem_flatMap, decide_eq_true_eq, mem_map]
  constructor
  · rintro h run hrun ⟨e, he, heq⟩
    exact h e ⟨run, hrun, he⟩ heq
  · rintro h e ⟨run, hrun, he⟩ heq
    exact h run hrun ⟨e, he, heq⟩

variable {t : ResolvedPipelineTask}

section
variable (hs : WellResolved stored s) (ht : t ∈ s)
include hs ht

theorem WellResolved.lookup_matrixLength
    (h : contextReplacements stored s pt = some (s', strings)) {i : Nat} :
    strings.lookup (matrixLength t.name) = some (toString i) ↔
      (∃ p ∈ pt.params, HasLength p ∧ ∃ r, Reads p.getVarSubstitutionExpressions t.name r) ∧
        ∃ task ∈ stored.getD [], task.name = t.name ∧ task.matrix.countCombinations = i := by
  obtain ⟨hne, hdot, -⟩ := hs.names t ht
  refine lookup_contextReplacements h (retries_not_length _ _)
    (fun p w => mem_contextWrites_matrixLength hdot hne) ?_
  rintro i j ⟨task, htask, hname, rfl⟩ ⟨task', htask', hname', rfl⟩
  rw [inj_on_of_nodup_map hs.storedNodup htask htask' (hname.trans hname'.symm)]

theorem WellResolved.cachedLength (r : String) :
    t.cachedLength r = (valuesOf r (t.taskRuns.flatMap (·.results))).length := by
  have hfresh : ∀ t₀ : ResolvedPipelineTask, t₀.resultsCache = [] →
      t₀.cachedLength r = (valuesOf r (t₀.taskRuns.flatMap (·.results))).length := by
    intro t₀ h₀
    have hperm := (valuesOf_perm (r := r) t₀.perm_cacheResults).length_eq
    rw [ResolvedPipelineTask.cachedLength, ResolvedPipelineTask.lookup_cacheResults h₀, ← hperm]
    split
    · rename_i hnil
      rw [hnil]
      rfl
    · rfl
  obtain ⟨t₀, h₀, rfl | rfl⟩ := hs.cache t ht
  · exact hfresh t h₀
  · have hperm := (valuesOf_perm (r := r) t₀.perm_cacheResults).length_eq
    rw [ResolvedPipelineTask.cachedLength, ResolvedPipelineTask.cacheResults_idem, hperm]
    exact hfresh t₀ h₀

theorem WellResolved.cachedLength_eq_emitted (r : String) : t.cachedLength r = t.emitted r ↔
      (t.customTask = true → ∀ run ∈ t.customRuns, r ∉ run.results.map (·.1)) := by
  rw [hs.cachedLength ht, ResolvedPipelineTask.emitted, ResolvedPipelineTask.runs]
  cases hcustom : t.customTask with
  | false => simp
  | true =>
    have hzero : (valuesOf r (([] : List ChildRun).flatMap (·.results))).length = 0 := rfl
    rw [hs.custom t ht hcustom, ← valuesOf_eq_nil_iff, hzero, if_pos rfl, eq_comm,
      length_eq_zero_iff]
    exact ⟨fun h _ => h, fun h => h rfl⟩

theorem WellResolved.lookup_resultLength
    (h : contextReplacements stored s pt = some (s', strings)) {r : String} (hr : r ≠ "")
    {i : Nat} : strings.lookup (resultLength t.name r) = some (toString i) ↔
      (∃ p ∈ pt.params, HasLength p ∧ Reads p.getVarSubstitutionExpressions t.name r) ∧
        t.cachedLength r = i := by
  obtain ⟨hne, hdot, -⟩ := hs.names t ht
  have hnot : resultLength t.name r ≠ "context.pipelineTask.retries" := by
    rw [resultLength, String.append_assoc, String.append_assoc]
    exact retries_not_length _ _
  refine lookup_contextReplacements h hnot (fun p w => ?_) fun i j hi hj => hi.symm.trans hj
  rw [mem_contextWrites_resultLength hdot hne hr]
  refine and_congr_right fun _ => ⟨?_, fun ⟨i, hi, hw⟩ => ⟨t, ht, rfl, hi ▸ hw⟩⟩
  rintro ⟨t', ht', hname, hw⟩
  obtain rfl := inj_on_of_nodup_map hs.nodup ht' ht hname
  exact ⟨_, rfl, hw⟩

end

/-- The lengths are put in exactly where each variable that stands in the parameters is the one
that is read from some parameter, and the stored matrix and the TaskRuns give the true
numbers. -/
theorem replacesLengths_iff (hs : WellResolved stored s) :
    ReplacesLengths stored s pt ↔ ReadsLengths stored s pt := by
  have hplain : ∀ t ∈ s, Plain t.name := fun t ht => plain_of_isVarChar (hs.names t ht).2.2
  have hresult : ∀ r, IsResultName r → Plain r := fun r hr => plain_of_isVarChar hr.2
  constructor
  · intro ⟨s', strings, hcontext, _, hreplaced⟩
    have hkeys := plain_contextReplacements hcontext
    have hreturns : contextReplacements stored s pt ≠ none := by
      rw [hcontext]
      exact Option.some_ne_none _
    refine ⟨(contextReplacements_ne_none stored s pt).mp hreturns, ?_, ?_⟩
    · intro text htext t ht hfinished hocc
      have hlookup := (replacedBy_iff hkeys (plain_matrixLength (hplain t ht))
        (toString_ne_reference _ _)).mp (hreplaced text htext t ht hfinished).1 hocc
      exact (hs.lookup_matrixLength ht hcontext).mp hlookup
    · intro text htext t ht hfinished r hr hocc
      have hlookup := (replacedBy_iff hkeys
        (plain_resultLength (hplain t ht) (hresult r hr)) (toString_ne_reference _ _)).mp
          ((hreplaced text htext t ht hfinished).2 r hr) hocc
      obtain ⟨hreads, hcount⟩ := (hs.lookup_resultLength ht hcontext hr.1).mp hlookup
      exact ⟨hreads, (hs.cachedLength_eq_emitted ht r).mp hcount⟩
  · intro hreads
    have hreturns := (contextReplacements_ne_none stored s pt).mpr hreads.returns
    obtain ⟨⟨s', strings⟩, hcontext⟩ := Option.ne_none_iff_exists'.mp hreturns
    have hkeys := plain_contextReplacements hcontext
    refine ⟨s', strings, hcontext, ?_, fun text htext t ht hfinished => ⟨?_, fun r hr => ?_⟩⟩
    · simp [StartedTask.texts, StartedTask.replaceStrings, Params.replaceVariables, flatMap_map,
        map_flatMap, texts_applyReplacements (getLast_contextReplacements hcontext)]
    · rw [replacedBy_iff hkeys (plain_matrixLength (hplain t ht)) (toString_ne_reference _ _)]
      intro hocc
      exact (hs.lookup_matrixLength ht hcontext).mpr
        (hreads.lengths text htext t ht hfinished hocc)
    · rw [replacedBy_iff hkeys (plain_resultLength (hplain t ht) (hresult r hr))
        (toString_ne_reference _ _)]
      intro hocc
      obtain ⟨hread, hcustom⟩ := hreads.results text htext t ht hfinished r hr hocc
      exact (hs.lookup_resultLength ht hcontext hr.1).mpr
        ⟨hread, (hs.cachedLength_eq_emitted ht r).mpr hcustom⟩

end

def builtTwice (name : String) : ResolvedPipelineTask where
  pipelineTask :=
    { name := name
      matrix := { params := [⟨"os", { type := .array, arrayVal := ["linux", "mac"] }⟩] } }
  taskRuns := [⟨name ++ "-0", some ⟨.isTrue, "Succeeded", ""⟩, "", [], []⟩,
    ⟨name ++ "-1", some ⟨.isTrue, "Succeeded", ""⟩, "", [], []⟩]

def builtState : PipelineRunState := [builtTwice "build", builtTwice "test"]

def builtSpec : Option (List PipelineTask) := some (builtState.map (·.pipelineTask))

def reporting (value : String) : StartedTask where
  name := "report"
  params := [⟨"runs", { stringVal := value }⟩]

theorem wellResolved_built : WellResolved builtSpec builtState where
  names := by
    have hall : (builtState.all fun t => t.name != "" && !t.name.toList.contains '.' &&
      t.name.toList.all isVarChar) = true := by decide
    intro t ht
    simpa [and_assoc] using all_eq_true.mp hall t ht
  nodup := by decide
  storedNodup := by decide
  cache := fun t ht => ⟨t, (by decide : ∀ t ∈ builtState, t.resultsCache = []) t ht, .inl rfl⟩
  custom := by decide

/-- One variable in one parameter is replaced. -/
theorem runs_of_build_replaced :
    ReplacesLengths builtSpec builtState (reporting "$(tasks.build.matrix.length)") := by
  refine (replacesLengths_iff wellResolved_built).mpr ?_
  have hparse : parseExpressions ["tasks.build.matrix.length"] = some ("build", "") := by decide
  have htexts : (reporting "$(tasks.build.matrix.length)").texts =
      ["$(" ++ matrixLength "build" ++ ")"] := by decide
  have hlength : HasLength ⟨"runs", { stringVal := "$(tasks.build.matrix.length)" }⟩ :=
    ⟨"tasks.build.matrix.length", by decide, by decide⟩
  refine ⟨fun p hp _ => ?_, fun text htext t ht _ hocc => ?_, fun text htext t ht _ r hr hocc => ?_⟩
  · obtain rfl := mem_singleton.mp hp
    rw [← parseExpressions_eq_none_iff]
    decide
  · rw [htexts, mem_singleton] at htext
    subst htext
    have hplain : Plain (matrixLength "build") := ⟨by decide, by decide⟩
    have hname := matrixLength_inj (hplain.eq_of_reference_infix hocc)
    refine ⟨⟨_, mem_cons_self, hlength, "", ?_⟩, ?_⟩
    · rw [hname]
      exact (parseExpressions_eq_some_iff.mp hparse).resolve_right fun h => absurd h.1 (by decide)
    · refine ⟨t.pipelineTask, mem_map_of_mem ht, rfl, ?_⟩
      exact (by decide : ∀ t ∈ builtState,
        t.pipelineTask.matrix.countCombinations = t.runs.length) t ht
  · rw [htexts, mem_singleton] at htext
    subst htext
    have hplain : Plain (matrixLength "build") := ⟨by decide, by decide⟩
    have heq := hplain.eq_of_reference_infix hocc
    exact absurd heq.symm
      (matrixLength_ne_resultLength (by decide) (wellResolved_built.names t ht).2.1)

/-- Of two variables in one parameter the second is left as it is. -/
theorem runs_of_test_kept : WellResolved builtSpec builtState ∧
      ¬ ReplacesLengths builtSpec builtState
        (reporting "$(tasks.build.matrix.length) $(tasks.test.matrix.length)") := by
  refine ⟨wellResolved_built, fun ⟨s', strings, hcontext, _, hreplaced⟩ => ?_⟩
  have htable : contextReplacements builtSpec builtState
      (reporting "$(tasks.build.matrix.length) $(tasks.test.matrix.length)") =
        some (builtState, [("tasks.build.matrix.length", "2"),
          ("context.pipelineTask.retries", "0")]) := by decide +kernel
  obtain ⟨-, rfl⟩ := Prod.mk.inj (Option.some.inj (hcontext.symm.trans htable))
  have htest := (hreplaced _ mem_cons_self (builtTwice "test") (by decide)
    ⟨by decide, .inl (by decide)⟩).1 "$(tasks.build.matrix.length) " "" (by decide)
  revert htest
  decide

end TektonPipeline.Pipeline
