import TektonPipeline.Pipeline.MatrixResults
import TektonPipeline.Pipeline.Schedule
import TektonPipeline.TaskRun.TaskSpec

/-! Results in the spec of an embedded task. The references to them are found and checked like
those of the parameters, and replaced from a table of their own, which is made of the results
of the successful tasks. -/

namespace TektonPipeline.Pipeline
open Api ResultRef Tasks

def resultStrings (taskName : String) (res : String × ResultValue) : List (String × String) :=
  match res.2.type with
  | .string => [(resultKey taskName res.1, res.2.stringVal)]
  | .array => []
  | .object => res.2.objectVal.map fun e => (resultKey taskName (res.1 ++ "." ++ e.1), e.2)

def resultArrays (taskName : String) (res : String × ResultValue) : List (String × List String) :=
  match res.2.type with
  | .array => [(resultKey taskName res.1, res.2.arrayVal)]
  | _ => []

/-- `GetTaskRunsResults` with one entry for a name, as the map has it. -/
def taskRunsResults (s : PipelineRunState) : List (String × List (String × ResultValue)) :=
  Table.puts [] (getTaskRunsResults s).reverse

def resultReplacements (s : PipelineRunState) : Replacements where
  strings := Table.puts [] ((taskRunsResults s).flatMap fun e => e.2.flatMap (resultStrings e.1))
  arrays := Table.puts [] ((taskRunsResults s).flatMap fun e => e.2.flatMap (resultArrays e.1))

def propagateResults (taskSpec : Option TaskSpec) (s : PipelineRunState) : Option TaskSpec :=
  taskSpec.map (TaskSpec.applyReplacements (resultReplacements s))

end TektonPipeline.Pipeline

namespace TektonPipeline.Tasks
open Api List

/-! ## The texts of an embedded task -/

def EnvVar.texts (e : EnvVar) : List String :=
  e.value :: (e.secretKeyRef.toList ++ e.configMapKeyRef.toList).flatMap fun k => [k.key, k.name]

def TaskSpec.containers (ts : TaskSpec) : List (Container × String) :=
  ts.steps.map (fun s => (s.toContainer, s.script)) ++
    ts.sidecars.map fun s => (s.toContainer, s.script)

/-- The texts in which `GetVarSubstitutionExpressions` looks for references. -/
def TaskSpec.texts (ts : TaskSpec) : List String :=
  ts.containers.flatMap fun e =>
    [e.1.name, e.1.image, e.1.imagePullPolicy, e.2, e.1.workingDir] ++
      (e.1.command ++ e.1.args ++ e.1.env.flatMap EnvVar.texts)

def TaskSpec.scalars (ts : TaskSpec) : List String :=
  ts.containers.flatMap fun e => e.2 :: e.1.env.flatMap EnvVar.texts

def TaskSpec.items (ts : TaskSpec) : List String :=
  ts.containers.flatMap fun e => e.1.command ++ e.1.args

section
variable (r : Replacements) (ts : TaskSpec)

theorem EnvVar.texts_applyReplacements (e : EnvVar) :
    (e.applyReplacements r).texts = e.texts.map fun s => Api.applyReplacements s r.strings := by
  obtain ⟨name, value, secret, configMap⟩ := e
  cases secret <;> cases configMap <;> rfl

theorem TaskSpec.containers_applyReplacements :
    (ts.applyReplacements r).containers = ts.containers.map fun e =>
      (applyContainerReplacements r e.1, Api.applyReplacements e.2 r.strings) := by
  simp [containers, applyReplacements, Step.applyReplacements, applyStepReplacements,
    applySidecarReplacements, Function.comp_def]

theorem TaskSpec.scalars_applyReplacements : (ts.applyReplacements r).scalars =
    ts.scalars.map fun s => Api.applyReplacements s r.strings := by
  have henv : ∀ c : Container, (applyContainerReplacements r c).env.flatMap EnvVar.texts =
      (c.env.flatMap EnvVar.texts).map fun s => Api.applyReplacements s r.strings := by
    intro c
    rw [applyContainerReplacements, flatMap_map, map_flatMap]
    exact flatMap_congr fun e _ => e.texts_applyReplacements r
  rw [scalars, containers_applyReplacements, flatMap_map, scalars, map_flatMap]
  exact flatMap_congr fun e _ => by rw [henv, map_cons]

theorem TaskSpec.items_applyReplacements : (ts.applyReplacements r).items =
    ts.items.flatMap fun s => applyArrayReplacements s r.strings r.arrays := by
  rw [items, containers_applyReplacements, flatMap_map, items, flatMap_assoc]
  refine flatMap_congr fun e _ => ?_
  rw [flatMap_append]
  rfl

end

theorem TaskSpec.mem_texts_of_mem_scalars {ts : TaskSpec} {s : String} (h : s ∈ ts.scalars) :
    s ∈ ts.texts := by
  obtain ⟨e, he, hs⟩ := mem_flatMap.mp h
  refine mem_flatMap.mpr ⟨e, he, ?_⟩
  rcases mem_cons.mp hs with rfl | hs
  · simp
  · exact mem_append_right _ (mem_append_right _ hs)

theorem TaskSpec.mem_texts_of_mem_items {ts : TaskSpec} {s : String} (h : s ∈ ts.items) :
    s ∈ ts.texts := by
  obtain ⟨e, he, hs⟩ := mem_flatMap.mp h
  refine mem_flatMap.mpr ⟨e, he, ?_⟩
  exact mem_append_right _ (mem_append_left _ hs)

end TektonPipeline.Tasks

namespace TektonPipeline.Pipeline
open Api ResultRef Tasks List Assoc Table

/-! ## The values that references stand for -/

def ParsedResult.ref (p : ParsedResult) : ResultRef :=
  ⟨p.resourceName, p.resultName, p.arrayIdx, p.objectKey⟩

def ResolvedPipelineTask.produces (t : ResolvedPipelineTask) : Bool :=
  t.isSuccessful || t.isFailure && t.pipelineTask.onError == .continues

structure ResolvesTo (s : PipelineRunState) (ref : ResultRef) (value : ResultValue) : Prop where
  produced : ∃ t, s.task? ref.pipelineTask = some t ∧ t.produces = true
  notMissing : checkMissingResultReference s ref = none
  resolved : ∃ refs, (resolveRef s ref).2 = .ok (⟨value, ref⟩ :: refs)

def textOf (p : ParsedResult) (value : ResultValue) : Option String :=
  match p.resultType, value.type with
  | .string, .string => some value.stringVal
  | .array, .array => p.arrayIdx.bind fun i => value.arrayVal[i]?
  | .object, .object => value.objectVal.lookup p.objectKey
  | _, _ => none

def arrayOf (p : ParsedResult) (value : ResultValue) : Option (List String) :=
  if p.resultType = .array ∧ p.arrayIdx = none ∧ value.type = .array then some value.arrayVal
  else none

variable {task name : String} {value : ResultValue}

theorem textOf_whole {x : String} : textOf ⟨task, name, .string, none, ""⟩ value = some x ↔
      value.type = .string ∧ value.stringVal = x := by
  cases htype : value.type <;> simp [textOf, htype]

theorem textOf_star : textOf ⟨task, name, .array, none, ""⟩ value = none := by
  cases htype : value.type <;> simp [textOf, htype]

theorem textOf_key {k x : String} : textOf ⟨task, name, .object, none, k⟩ value = some x ↔
      value.type = .object ∧ value.objectVal.lookup k = some x := by
  cases htype : value.type <;> simp [textOf, htype]

structure NamesResult (s : PipelineRunState) (text expr : String) (p : ParsedResult)
    (value : ResultValue) : Prop where
  found : expr ∈ validateString text
  parsed : parseTaskExpression expr = some p
  accepted : ResolvesTo s (ParsedResult.ref p) value

/-- Each reference of the task is replaced: in the scripts and the environment by the text it
stands for, in the commands and the arguments by this text too, and by the array where a
starred reference stands on its own. -/
structure Propagates (s : PipelineRunState) (ts : TaskSpec) : Prop where
  scalar : ∀ text ∈ ts.scalars, ∀ expr p value, NamesResult s text expr p value →
    ∀ x ∈ textOf p value, ReplacedBy (resultReplacements s).strings text expr x
  item : ∀ text ∈ ts.items, ∀ expr p value, NamesResult s text expr p value →
    ∀ x ∈ textOf p value,
      applyArrayReplacements text (resultReplacements s).strings (resultReplacements s).arrays =
        [applyReplacements text (resultReplacements s).strings] ∧
      ReplacedBy (resultReplacements s).strings text expr x
  array : ∀ text ∈ ts.items, ∀ expr p value, NamesResult s text expr p value →
    ∀ xs ∈ arrayOf p value, text = "$(" ++ expr ++ ")" →
      applyArrayReplacements text (resultReplacements s).strings (resultReplacements s).arrays = xs

/-! ## How a reference is written -/

/-- What follows `tasks.<task>.results.`, and what is read from it. -/
inductive Spells (task : String) : String → ParsedResult → Prop
  | whole {name : String} (hdot : '.' ∉ name.toList) (hbracket : '[' ∉ name.toList) :
    Spells task name ⟨task, name, .string, none, ""⟩
  | index {name digits : String} (hdot : '.' ∉ name.toList)
      (hdigits : ∀ c ∈ digits.toList, isDigit c = true) :
    Spells task (name ++ ("[" ++ digits ++ "]")) ⟨task, name, .array, some (atoi digits), ""⟩
  | star {name : String} (hdot : '.' ∉ name.toList) (hbracket : '[' ∉ name.toList) :
    Spells task (name ++ "[*]") ⟨task, name, .array, none, ""⟩
  | key {name k : String} (hdot : '.' ∉ name.toList) (hkey : '.' ∉ k.toList) :
    Spells task (name ++ "." ++ k) ⟨task, name, .object, none, k⟩

variable {rest : String}

theorem Spells.resourceName {p : ParsedResult} (h : Spells task rest p) :
    p.resourceName = task := by
  cases h <;> rfl

theorem spells_last {u : String} (task : String) (hv : IsVariable (u ++ "." ++ name).toList)
    (hdot : '.' ∉ name.toList) :
    ∃ p, Spells task name p ∧
      some p = (let (resultName, stringIdx) := parseResultName name
        if stringIdx = "" then some ⟨task, resultName, .string, none, ""⟩
        else if stringIdx = "*" then some ⟨task, resultName, .array, none, ""⟩
        else some ⟨task, resultName, .array, some (atoi stringIdx), ""⟩) := by
  have htext : (u ++ "." ++ name).toList = u.toList ++ '.' :: name.toList := by simp
  rw [htext] at hv
  obtain ⟨-, n, index, hname, hn, hindex⟩ := hv.last_part
  have hbracket := (bracket_not_mem hn).1
  have hndot : '.' ∉ n := fun hmem => hdot (hname ▸ mem_append_left _ hmem)
  rcases hindex with rfl | ⟨w, rfl, ⟨hlen, hdigit⟩ | rfl⟩
  · rw [append_nil] at hname
    subst hname
    rw [parseResultName_name hbracket]
    exact ⟨_, .whole hndot hbracket, rfl⟩
  · obtain rfl : name = String.ofList n ++ ("[" ++ String.ofList w ++ "]") := by
      rw [← String.toList_inj, hname]
      simp
    have hne : String.ofList w ≠ "" := by
      intro heq
      have hnil : w = [] := by simpa using congrArg String.toList heq
      simp [hnil] at hlen
    have hstar : String.ofList w ≠ "*" := by
      intro heq
      have hw : w = ['*'] := by simpa using congrArg String.toList heq
      exact absurd (hdigit '*' (by simp [hw])) (by decide)
    have hb : '[' ∉ (String.ofList n).toList := by rwa [String.toList_ofList]
    have hd : ∀ c ∈ (String.ofList w).toList, isDigit c = true := by rwa [String.toList_ofList]
    rw [parseResultName_index hb hd]
    refine ⟨_, .index (by rwa [String.toList_ofList]) hd, ?_⟩
    simp [hne, hstar]
  · obtain rfl : name = String.ofList n ++ "[*]" := by
      rw [← String.toList_inj, hname]
      simp
    have hb : '[' ∉ (String.ofList n).toList := by rwa [String.toList_ofList]
    rw [parseResultName_star hb]
    exact ⟨_, .star (by rwa [String.toList_ofList]) hb, rfl⟩

theorem spells_of_parse {expr : String} {p : ParsedResult} (hv : IsVariable expr.toList)
    (h : parseTaskExpression expr = some p) :
    ∃ kind task rest, (kind = "tasks" ∨ kind = "finally") ∧
      expr = kind ++ "." ++ task ++ ".results." ++ rest ∧ '.' ∉ task.toList ∧
      Spells task rest p := by
  unfold parseTaskExpression at h
  split at h
  · rename_i hlooks
    rw [parseExpression, hlooks, Bool.true_or, if_pos rfl] at h
    have hkind : ∀ kind task part name rest, splitDots expr = kind :: task :: part :: name :: rest →
        (kind = "tasks" ∨ kind = "finally") ∧ part = "results" := by
      intro kind task part name rest hparts
      simpa [looksLikeResultRef, hparts] using hlooks
    -- the text behind the three leading parts
    have hlead : ∀ kind task part name rest, splitDots expr = kind :: task :: part :: name :: rest →
        ∃ t, expr = kind ++ "." ++ task ++ ".results." ++ t ∧ '.' ∉ task.toList ∧
          splitDots t = name :: rest := by
      intro kind task part name rest hparts
      obtain ⟨t₁, rfl, -, h₁⟩ := exists_of_splitDots_cons hparts
      obtain ⟨t₂, rfl, htask, h₂⟩ := exists_of_splitDots_cons h₁
      obtain ⟨t₃, rfl, -, h₃⟩ := exists_of_splitDots_cons h₂
      obtain ⟨-, rfl⟩ := hkind _ _ _ _ _ hparts
      refine ⟨t₃, ?_, htask, h₃⟩
      rw [← String.toList_inj]
      simp
    split at h
    · rename_i kind task part name hparts
      obtain ⟨t, rfl, htask, ht⟩ := hlead _ _ _ _ _ hparts
      obtain ⟨rfl, hdot⟩ := eq_of_splitDots_singleton ht
      have hlast : kind ++ "." ++ task ++ ".results." ++ t =
          kind ++ "." ++ task ++ ".results" ++ "." ++ t := by
        rw [← String.toList_inj]
        simp
      obtain ⟨q, hq, heq⟩ := spells_last task (hlast ▸ hv) hdot
      obtain rfl : q = p := Option.some.inj (heq.trans h)
      exact ⟨kind, task, t, (hkind _ _ _ _ _ hparts).1, rfl, htask, hq⟩
    · rename_i kind task part name key hparts
      obtain ⟨t, rfl, htask, ht⟩ := hlead _ _ _ _ _ hparts
      obtain ⟨k, rfl, hname, hk⟩ := exists_of_splitDots_cons ht
      obtain ⟨rfl, hkey⟩ := eq_of_splitDots_singleton hk
      obtain rfl := Option.some.inj h
      exact ⟨kind, task, _, (hkind _ _ _ _ _ hparts).1, rfl, htask, .key hname hkey⟩
    · cases h
  · cases h

/-! ## The table -/

/-- Names are unique, those of tasks hold no dot, and those of results are made of the
characters of a variable. -/
structure WellReported (s : PipelineRunState) : Prop where
  names : (s.map (·.name)).Nodup
  tasks : ∀ t ∈ s, '.' ∉ t.name.toList ∧ ∀ c ∈ t.name.toList, isVarChar c = true
  nodup : ∀ t ∈ s, ∀ l, t.results? = some l → (l.map (·.1)).Nodup
  results : ∀ t ∈ s, ∀ l, t.results? = some l → ∀ e ∈ l, ∀ c ∈ e.1.toList, isVarChar c = true
  keys : ∀ t ∈ s, ∀ l, t.results? = some l → ∀ e ∈ l, (e.2.objectVal.map (·.1)).Nodup

def VariableKeys (s : PipelineRunState) : Prop :=
  ∀ t ∈ s, ∀ l, t.results? = some l → ∀ e ∈ l, ∀ f ∈ e.2.objectVal,
    ∀ c ∈ f.1.toList, isVarChar c = true

theorem resultKey_inj {task' name' : String} (ht : '.' ∉ task.toList)
    (ht' : '.' ∉ task'.toList) (h : resultKey task name = resultKey task' name') :
    task = task' ∧ name = name' := by
  have htext : ∀ task name : String, (resultKey task name).toList =
      "tasks.".toList ++ (task.toList ++ '.' :: ("results.".toList ++ name.toList)) := by
    intro task name
    simp [resultKey]
  have hlist := congrArg String.toList h
  rw [htext, htext] at hlist
  obtain ⟨htask, hname⟩ := Text.append_cons_inj_left ht ht' (append_cancel_left hlist)
  exact ⟨String.toList_inj.mp htask, String.toList_inj.mp (append_cancel_left hname)⟩

variable {k : String} {res : String × ResultValue}

theorem keys_resultStrings (h : k ∈ (resultStrings task res).map (·.1)) :
    (res.2.type = .string ∧ k = resultKey task res.1) ∨
      (res.2.type = .object ∧ ∃ e ∈ res.2.objectVal, k = resultKey task (res.1 ++ "." ++ e.1)) := by
  unfold resultStrings at h
  cases htype : res.2.type with
  | string =>
    rw [htype] at h
    exact .inl ⟨rfl, mem_singleton.mp h⟩
  | array =>
    rw [htype] at h
    cases h
  | object =>
    rw [htype, map_map] at h
    obtain ⟨e, he, rfl⟩ := mem_map.mp h
    exact .inr ⟨rfl, e, he, rfl⟩

theorem keys_resultArrays (h : k ∈ (resultArrays task res).map (·.1)) :
    res.2.type = .array ∧ k = resultKey task res.1 := by
  unfold resultArrays at h
  cases htype : res.2.type with
  | array =>
    rw [htype] at h
    exact ⟨rfl, mem_singleton.mp h⟩
  | string =>
    rw [htype] at h
    cases h
  | object =>
    rw [htype] at h
    cases h

theorem mem_getTaskRunsResults {s : PipelineRunState} {e : String × List (String × ResultValue)} :
    e ∈ getTaskRunsResults s ↔ ∃ t ∈ s, t.results? = some e.2 ∧ t.name = e.1 := by
  simp only [getTaskRunsResults, mem_filterMap, mem_reverse, Option.map_eq_some_iff]
  constructor
  · rintro ⟨t, ht, l, hl, he⟩
    exact ⟨t, ht, by rw [hl, ← he], by rw [← he]⟩
  · rintro ⟨t, ht, hl, hname⟩
    exact ⟨t, ht, e.2, hl, by rw [hname]⟩

def KeyedByTask {ν : Type} (writes : String → String × ResultValue → List (String × ν)) : Prop :=
  ∀ task res k, k ∈ (writes task res).map (·.1) → ∃ n, k = resultKey task n

def tableOf {ν : Type} (writes : String → String × ResultValue → List (String × ν))
    (s : PipelineRunState) : List (String × ν) :=
  Table.puts [] ((taskRunsResults s).flatMap fun e => e.2.flatMap (writes e.1))

namespace WellReported
variable {s : PipelineRunState} {t : ResolvedPipelineTask} {l : List (String × ResultValue)}

theorem nodup_getTaskRunsResults (h : WellReported s) :
    ((getTaskRunsResults s).map (·.1)).Nodup := by
  have hsub : List.Sublist ((getTaskRunsResults s).map (·.1)) (s.reverse.map (·.name)) := by
    unfold getTaskRunsResults
    induction s.reverse with
    | nil => exact .slnil
    | cons t s ih =>
      cases hresults : t.results? with
      | none => simpa [hresults] using ih.cons _
      | some l => simpa [hresults] using ih
  refine hsub.nodup ?_
  rw [map_reverse]
  exact nodup_reverse.mpr h.names

theorem taskRunsResults_eq (h : WellReported s) : taskRunsResults s = getTaskRunsResults s :=
  puts_reverse h.nodup_getTaskRunsResults

theorem lookup_getTaskRunsResults (h : WellReported s) (ht : t ∈ s) :
    (getTaskRunsResults s).lookup t.name = t.results? := by
  have hnodup : (s.reverse.map (·.name)).Nodup := by
    rw [map_reverse, nodup_reverse]
    exact h.names
  exact lookup_filterMap hnodup (mem_reverse.mpr ht)

section
variable {ν : Type} {writes : String → String × ResultValue → List (String × ν)}
  (hwrites : KeyedByTask writes)
include hwrites

omit hwrites in
theorem mem_keys_tableOf (h : WellReported s) (hk : k ∈ (tableOf writes s).map (·.1)) :
    ∃ t ∈ s, ∃ l, t.results? = some l ∧ ∃ res ∈ l, k ∈ (writes t.name res).map (·.1) := by
  rw [tableOf, h.taskRunsResults_eq, mem_keys_puts] at hk
  obtain ⟨f, hf, rfl⟩ := mem_map.mp (hk.resolve_right not_mem_nil)
  obtain ⟨e, he, hf⟩ := mem_flatMap.mp hf
  obtain ⟨res, hres, hf⟩ := mem_flatMap.mp hf
  obtain ⟨t, ht, hl, hname⟩ := mem_getTaskRunsResults.mp he
  exact ⟨t, ht, e.2, hl, res, hres, hname ▸ mem_map_of_mem hf⟩

theorem keys_writes (hk : k ∈ (l.flatMap (writes task)).map (·.1)) : ∃ n, k = resultKey task n := by
  obtain ⟨e, he, rfl⟩ := mem_map.mp hk
  obtain ⟨res, -, hmem⟩ := mem_flatMap.mp he
  exact hwrites task res _ (mem_map_of_mem hmem)

theorem lookup_task (h : WellReported s) (ht : t ∈ s) (name : String) :
    (tableOf writes s).lookup (resultKey t.name name) = t.results?.bind fun l =>
      (Table.puts [] (l.flatMap (writes t.name))).lookup (resultKey t.name name) := by
  rw [tableOf, h.taskRunsResults_eq, lookup_puts_flatMap (n := t.name) h.nodup_getTaskRunsResults,
    h.lookup_getTaskRunsResults ht]
  intro b hb hmem
  obtain ⟨t', ht', -, hname⟩ := mem_getTaskRunsResults.mp hb
  obtain ⟨n, hn⟩ := keys_writes hwrites hmem
  rw [← hname] at hn ⊢
  exact (resultKey_inj (h.tasks t ht).1 (h.tasks t' ht').1 hn).1

theorem lookup_other (hk : ∀ task name, k ≠ resultKey task name) :
    (tableOf writes s).lookup k = none := by
  refine lookup_of_not_mem fun hmem => ?_
  rw [tableOf, mem_keys_puts, map_flatMap] at hmem
  obtain ⟨b, -, hmem⟩ := mem_flatMap.mp (hmem.resolve_right not_mem_nil)
  obtain ⟨n, hn⟩ := keys_writes hwrites hmem
  exact hk _ _ hn

end

end WellReported

section
variable {l : List (String × ResultValue)} (htask : '.' ∉ task.toList)
  (hl : (l.map (·.1)).Nodup)
include htask

theorem eq_of_mem_keys_resultStrings
    (h : resultKey task name ∈ (resultStrings task res).map (·.1)) :
    (res.2.type = .string ∧ name = res.1) ∨
      (res.2.type = .object ∧ ∃ e ∈ res.2.objectVal, name = res.1 ++ "." ++ e.1) := by
  rcases keys_resultStrings h with ⟨htype, heq⟩ | ⟨htype, e, he, heq⟩
  · exact .inl ⟨htype, (resultKey_inj htask htask heq).2⟩
  · exact .inr ⟨htype, e, he, (resultKey_inj htask htask heq).2⟩

include hl

theorem lookup_strings_whole (hdot : '.' ∉ name.toList)
    (h : l.lookup name = some value) (htype : value.type = .string) :
    (Table.puts [] (l.flatMap (resultStrings task))).lookup (resultKey task name) =
      some value.stringVal := by
  rw [lookup_puts_flatMap (n := name) hl, h, Option.bind_some]
  · simp [resultStrings, htype, Table.puts, Table.put]
  · intro b hb hk
    rcases eq_of_mem_keys_resultStrings htask hk with ⟨-, heq⟩ | ⟨-, e, -, rfl⟩
    · exact heq
    · exact absurd (by simp) hdot

def arrayResult (l : List (String × ResultValue)) (name : String) : Option (List String) :=
  (l.lookup name).bind fun value => if value.type = .array then some value.arrayVal else none

theorem lookup_arrays :
    (Table.puts [] (l.flatMap (resultArrays task))).lookup (resultKey task name) =
      arrayResult l name := by
  rw [lookup_puts_flatMap (n := name) hl, arrayResult]
  · congr 1
    funext value
    cases htype : value.type <;> simp [resultArrays, htype, Table.puts, Table.put]
  · exact fun b _ hk => (resultKey_inj htask htask (keys_resultArrays hk).2).2

omit htask hl in
theorem keyed_inj {k n m : String} (hdot : '.' ∉ name.toList) (hkey : '.' ∉ k.toList)
    (h : name ++ "." ++ k = n ++ "." ++ m) : n = name ∧ m = k := by
  have htext : ∀ a b : String, (a ++ "." ++ b).toList = a.toList ++ '.' :: b.toList := by
    intro a b
    simp
  have hlist := congrArg String.toList h
  rw [htext, htext] at hlist
  have hn : '.' ∉ n.toList := by
    have hcount := congrArg (List.count '.') hlist
    simp only [count_append, count_cons_self, count_eq_zero_of_not_mem hdot,
      count_eq_zero_of_not_mem hkey] at hcount
    exact count_eq_zero.mp (by omega)
  obtain ⟨hname, hm⟩ := Text.append_cons_inj_left hdot hn hlist
  exact ⟨(String.toList_inj.mp hname).symm, (String.toList_inj.mp hm).symm⟩

def stringResult (l : List (String × ResultValue)) (name : String) : Option String :=
  (l.lookup name).bind fun value => if value.type = .string then some value.stringVal else none

omit hl in
theorem lookup_strings_keyed {post : List (String × ResultValue)} {k : String}
    (hpost : (post.map (·.1)).Nodup) (hname : name ∉ post.map (·.1))
    (hdot : '.' ∉ name.toList) (hkey : '.' ∉ k.toList) :
    (Table.puts [] (post.flatMap (resultStrings task))).lookup
        (resultKey task (name ++ "." ++ k)) = stringResult post (name ++ "." ++ k) := by
  have hother : ∀ b ∈ post,
      resultKey task (name ++ "." ++ k) ∈ (resultStrings task b).map (·.1) →
        b.2.type = .string ∧ name ++ "." ++ k = b.1 := by
    intro b hb hk
    rcases eq_of_mem_keys_resultStrings htask hk with h | ⟨-, e, -, heq⟩
    · exact h
    · exact absurd ((keyed_inj hdot hkey heq).1 ▸ mem_map_of_mem hb) hname
  rw [lookup_puts_flatMap hpost fun b hb hk => (hother b hb hk).2, stringResult]
  cases hlookup : post.lookup (name ++ "." ++ k) with
  | none => rfl
  | some value =>
    rw [Option.bind_some, Option.bind_some]
    cases htype : value.type with
    | string => simp [resultStrings, htype, Table.puts, Table.put]
    | array => simp [resultStrings, htype]
    | object =>
      refine lookup_puts_of_not_mem (fun hk => ?_) []
      rw [(hother _ (mem_of_lookup hlookup) hk).1] at htype
      cases htype

def reportedAfter (name : String) : List (String × ResultValue) → List (String × ResultValue)
  | [] => []
  | res :: l => if res.1 = name then l else reportedAfter name l

omit htask hl in
theorem eq_append_reportedAfter
    (h : l.lookup name = some value) : ∃ pre, l = pre ++ (name, value) :: reportedAfter name l := by
  induction l with
  | nil => cases h
  | cons res l ih =>
    obtain ⟨n, v⟩ := res
    rw [lookup_cons] at h
    unfold reportedAfter
    by_cases hn : n = name
    · subst hn
      rw [beq_self_eq_true] at h
      exact ⟨[], by simpa using h⟩
    · rw [show (name == n) = false by simpa using Ne.symm hn] at h
      obtain ⟨pre, hpre⟩ := ih h
      rw [if_neg hn]
      exact ⟨(n, v) :: pre, congrArg _ hpre⟩

theorem lookup_strings_key {x : String} (h : l.lookup name = some value)
    (hdot : '.' ∉ name.toList) (hkey : '.' ∉ k.toList) (htype : value.type = .object)
    (hkeys : (value.objectVal.map (·.1)).Nodup) (hx : value.objectVal.lookup k = some x) :
    (Table.puts [] (l.flatMap (resultStrings task))).lookup (resultKey task (name ++ "." ++ k)) =
      some ((stringResult (reportedAfter name l) (name ++ "." ++ k)).getD x) := by
  obtain ⟨pre, hsplit⟩ := eq_append_reportedAfter h
  generalize reportedAfter name l = post at hsplit ⊢
  subst hsplit
  rw [map_append, map_cons, nodup_middle, nodup_cons] at hl
  have hpost : (post.map (·.1)).Nodup := (nodup_append.mp hl.2).2.1
  have hname : name ∉ post.map (·.1) := fun h => hl.1 (mem_append_right _ h)
  have hrest := lookup_strings_keyed htask hpost hname hdot hkey
  rw [lookup_puts, lookup_nil, Option.or_none] at hrest
  -- the entry of the object itself
  have hown : (resultStrings task (name, value)).reverse.lookup
      (resultKey task (name ++ "." ++ k)) = some x := by
    simp only [resultStrings, htype]
    refine lookup_of_mem ?_ ?_
    · rw [map_reverse, nodup_reverse, map_map]
      refine (nodup_map_iff_inj_on hkeys.of_map).mpr fun a ha b hb heq => ?_
      have hab := (resultKey_inj htask htask heq).2
      rw [String.append_right_inj] at hab
      exact inj_on_of_nodup_map hkeys ha hb hab
    · exact mem_reverse.mpr (mem_map.mpr ⟨(k, x), mem_of_lookup hx, rfl⟩)
  rw [flatMap_append, flatMap_cons, puts_append, puts_append, lookup_puts, hrest, lookup_puts, hown]
  cases stringResult post (name ++ "." ++ k) <;> rfl

end

/-! ## References that have been resolved -/

def collectsFor (s : PipelineRunState) (ref : ResultRef) : Bool :=
  (s.task? ref.pipelineTask).any fun t =>
    (t.isSuccessful || t.isFailure) && (!t.customTask && t.pipelineTask.isMatrixed)

section
variable {s : PipelineRunState}

theorem resolveRef_state (s : PipelineRunState) (ref : ResultRef) :
    (resolveRef s ref).1 = if collectsFor s ref then
      s.update ref.pipelineTask ResolvedPipelineTask.cacheResults else s := by
  unfold resolveRef collectsFor
  cases s.task? ref.pipelineTask with
  | none => rfl
  | some t =>
    cases hs : t.isSuccessful <;> cases hf : t.isFailure <;>
      cases hm : !t.customTask && t.pipelineTask.isMatrixed <;> simp [hs, hf, hm]

theorem resolveRef_fixed_iff {ref : ResultRef} : (resolveRef s ref).1 = s ↔
    (collectsFor s ref = true → ∀ t ∈ s, t.name = ref.pipelineTask → t.cacheResults = t) := by
  rw [resolveRef_state]
  split
  · rename_i hcollects
    rw [forall_prop_of_true hcollects, PipelineRunState.update]
    nth_rewrite 2 [← map_id s]
    simp only [map_inj_left, id_eq, ite_eq_right_iff]
  · rename_i hcollects
    exact iff_of_true rfl fun h => absurd h hcollects

end

/-! ## Which references are replaced -/

/-- The references that can be looked up: those of a successful task with TaskRuns that begin
with `tasks` and have no index. -/
structure Tabled (s : PipelineRunState) (expr : String) (p : ParsedResult) : Prop where
  kind : (splitDots expr).head? = some "tasks"
  noIndex : p.arrayIdx = none
  task : ∃ t, s.task? p.resourceName = some t ∧ t.customTask = false ∧ t.isSuccessful = true

def resultsOf (s : PipelineRunState) (task : String) : List (String × ResultValue) :=
  ((s.task? task).bind (·.results?)).getD []

def Overwritten (s : PipelineRunState) (p : ParsedResult) (x : String) : Prop :=
  ∃ y, stringResult (reportedAfter p.resultName (resultsOf s p.resourceName))
    (p.resultName ++ "." ++ p.objectKey) = some y ∧ y ≠ x

def NamedArray (s : PipelineRunState) (p : ParsedResult) (x : String) : Prop :=
  ∃ xs, arrayResult (resultsOf s p.resourceName) (p.resultName ++ "." ++ p.objectKey) = some xs ∧
    xs ≠ [x]

structure Placed (s : PipelineRunState) (ts : TaskSpec) : Prop where
  text : ∀ text, text ∈ ts.scalars ∨ text ∈ ts.items → ∀ expr p value,
    NamesResult s text expr p value → ∀ x ∈ textOf p value,
      Tabled s expr p ∧ (p.resultType = .object → ¬ Overwritten s p x) ∨
        ¬ Tabled s expr p ∧ x = "$(" ++ expr ++ ")"
  item : ∀ text ∈ ts.items, ∀ expr p value, NamesResult s text expr p value →
    ∀ x ∈ textOf p value, text = "$(" ++ expr ++ ")" → p.resultType = .object →
      Tabled s expr p → ¬ NamedArray s p x
  array : ∀ text ∈ ts.items, ∀ expr p value, NamesResult s text expr p value →
    ∀ xs ∈ arrayOf p value, text = "$(" ++ expr ++ ")" → Tabled s expr p ∨ xs = [text]

def Resolved (s : PipelineRunState) (ts : TaskSpec) : Prop :=
  ∀ ref ∈ newResultRefs (ts.texts.flatMap validateString), (resolveRef s ref).1 = s

theorem NamesResult.resolved {s : PipelineRunState} {ts : TaskSpec} {text expr : String}
    {p : ParsedResult} {value : ResultValue} (hres : Resolved s ts) (htext : text ∈ ts.texts)
    (h : NamesResult s text expr p value) : (resolveRef s (ParsedResult.ref p)).1 = s := by
  refine hres _ (mem_filterMap.mpr ⟨expr, ?_, ?_⟩)
  · exact mem_flatMap.mpr ⟨text, htext, h.found⟩
  · rw [h.parsed]
    rfl

theorem ResolvedPipelineTask.results?_eq_some {t : ResolvedPipelineTask}
    {l : List (String × ResultValue)} (h : t.results? = some l) :
    t.customTask = false ∧ t.isSuccessful = true := by
  unfold results? at h
  split at h
  · cases h
  · rename_i hnot
    simpa using hnot

theorem ResolvesTo.lookup {s : PipelineRunState} {ref : ResultRef} {value : ResultValue}
    (h : ResolvesTo s ref value) (hfix : (resolveRef s ref).1 = s)
    {t : ResolvedPipelineTask} (ht : s.task? ref.pipelineTask = some t)
    (hcustom : t.customTask = false) (hsucc : t.isSuccessful = true) :
    ∃ l, t.results? = some l ∧ l.lookup ref.result = some value := by
  obtain ⟨refs, hok⟩ := h.resolved
  obtain ⟨hmem, hname⟩ := PipelineRunState.mem_of_task? ht
  unfold resolveRef at hok
  rw [ht] at hok
  cases hm : t.pipelineTask.isMatrixed with
  | true =>
    simp only [hsucc, hcustom, hm, Bool.not_true, Bool.false_and, Bool.false_eq_true, if_false,
      Bool.not_false, Bool.true_and, if_true] at hok
    -- the results have been collected, so collecting them again changes nothing
    have hsame : t.cacheResults = t :=
      resolveRef_fixed_iff.mp hfix (by simp [collectsFor, ht, hsucc, hcustom, hm]) t hmem hname
    rw [hsame, findResultValuesForMatrix] at hok
    cases hcache : t.resultsCache.lookup ref.result with
    | none =>
      rw [hcache] at hok
      cases hok
    | some values =>
      rw [hcache] at hok
      have hvalue : value = { type := .array, arrayVal := values } := by
        cases hruns : t.taskRuns with
        | nil =>
          rw [hruns] at hok
          cases hok
        | cons run runs =>
          rw [hruns] at hok
          exact (congrArg ResolvedResultRef.value (List.cons.inj (Except.ok.inj hok)).1).symm
      have hlookup : (convertResultsMapToTaskRunResults t.resultsCache).lookup ref.result =
          some value := by
        rw [lookup_convertResultsMap, hcache, hvalue]
        rfl
      refine ⟨_, ?_, hlookup⟩
      have hne : (convertResultsMapToTaskRunResults t.resultsCache).isEmpty = false := by
        cases hl : convertResultsMapToTaskRunResults t.resultsCache with
        | nil =>
          rw [hl] at hlookup
          cases hlookup
        | cons e l => rfl
      simp [ResolvedPipelineTask.results?, hcustom, hsucc, hm, hne]
  | false =>
    simp only [hsucc, hcustom, hm, Bool.not_true, Bool.false_and, Bool.false_eq_true, if_false,
      Bool.not_false, Bool.true_and] at hok
    have hruns : t.runs = t.taskRuns := by simp [ResolvedPipelineTask.runs, hcustom]
    rw [hruns] at hok
    cases htr : t.taskRuns with
    | nil =>
      rw [htr] at hok
      cases hok
    | cons run runs =>
      rw [htr, findResult] at hok
      refine ⟨run.results, ?_, ?_⟩
      · simp [ResolvedPipelineTask.results?, hcustom, hsucc, hm, htr]
      · cases hl : run.results.lookup ref.result with
        | none =>
          rw [hl] at hok
          cases hok
        | some v =>
          rw [hl] at hok
          have hv := congrArg ResolvedResultRef.value (List.cons.inj (Except.ok.inj hok)).1
          exact congrArg some hv

section
variable {s : PipelineRunState} {ts : TaskSpec} {text expr x : String} {p : ParsedResult}

theorem WellReported.isVarChar_strings (h : WellReported s) (hkeys : VariableKeys s) :
    ∀ k ∈ (resultReplacements s).strings.map (·.1), ∀ c ∈ k.toList, isVarChar c = true := by
  intro k hk
  obtain ⟨t, ht, l, hl, res, hres, hk⟩ := h.mem_keys_tableOf hk
  have htask := (h.tasks t ht).2
  have hown := h.results t ht _ hl res hres
  rcases keys_resultStrings hk with ⟨-, heq⟩ | ⟨-, entry, hentry, heq⟩
  · rw [heq]
    exact isVarChar_reference htask hown
  · rw [heq]
    refine isVarChar_reference htask ?_
    have hdot : ∀ c ∈ ".".toList, isVarChar c = true := all_eq_true.mp (by decide)
    simp only [String.toList_append, forall_mem_append]
    exact ⟨⟨hown, hdot⟩, hkeys t ht _ hl res hres entry hentry⟩

theorem WellReported.mem_arrays (h : WellReported s) {e : String × List String}
    (he : e ∈ (resultReplacements s).arrays) :
    ∃ t ∈ s, ∃ l, t.results? = some l ∧ ∃ res ∈ l, e.1 = resultKey t.name res.1 := by
  obtain ⟨t, ht, l, hl, res, hres, hk⟩ := h.mem_keys_tableOf (mem_map_of_mem he)
  exact ⟨t, ht, l, hl, res, hres, (keys_resultArrays hk).2⟩

theorem WellReported.isVarChar_arrays (h : WellReported s) :
    ∀ e ∈ (resultReplacements s).arrays, ∀ c ∈ e.1.toList, isVarChar c = true := by
  intro e he
  obtain ⟨t, ht, l, hl, res, hres, heq⟩ := h.mem_arrays he
  rw [heq]
  exact isVarChar_reference (h.tasks t ht).2 (h.results t ht l hl res hres)

theorem NamesResult.spells (h : NamesResult s text expr p value) :
    ∃ kind rest t, (kind = "tasks" ∨ kind = "finally") ∧
      expr = kind ++ "." ++ t.name ++ ".results." ++ rest ∧ Spells t.name rest p ∧
      t ∈ s ∧ s.task? p.resourceName = some t := by
  obtain ⟨kind, task, rest, hkind, hexpr, -, hspells⟩ :=
    spells_of_parse (isVariable_of_mem_validateString h.found) h.parsed
  obtain ⟨t, ht, -⟩ := h.accepted.produced
  obtain ⟨hmem, hname⟩ := PipelineRunState.mem_of_task? ht
  obtain rfl : t.name = task := hname.trans hspells.resourceName
  exact ⟨kind, rest, t, hkind, hexpr, hspells, hmem, ht⟩

theorem head_splitDots {kind : String} (hkind : kind = "tasks" ∨ kind = "finally")
    (task rest : String) :
    (splitDots (kind ++ "." ++ task ++ ".results." ++ rest)).head? = some kind := by
  have hdot : '.' ∉ kind.toList := by rcases hkind with rfl | rfl <;> decide
  have htext : (kind ++ "." ++ task ++ ".results." ++ rest).toList =
      kind.toList ++ '.' :: (task ++ ".results." ++ rest).toList := by simp
  rw [splitDots, htext, Text.splitOn_append hdot, map_cons, head?_cons, String.ofList_toList]

theorem tasks_path (task rest : String) :
    "tasks" ++ "." ++ task ++ ".results." ++ rest = resultKey task rest := by
  rw [← String.toList_inj]
  simp [resultKey]

theorem lookup_of_not_tabled {ν : Type} {writes : String → String × ResultValue → List (String × ν)}
    (hwrites : KeyedByTask writes) (hs : WellReported s) {t : ResolvedPipelineTask} (ht : t ∈ s)
    (htask : s.task? p.resourceName = some t) {kind : String}
    (hkind : kind = "tasks" ∨ kind = "finally") (hindex : p.arrayIdx = none)
    (htabled : ¬ Tabled s (kind ++ "." ++ t.name ++ ".results." ++ rest) p) (name : String) :
    (tableOf writes s).lookup (kind ++ "." ++ t.name ++ ".results." ++ name) = none := by
  have hhead := head_splitDots hkind t.name rest
  rcases hkind with rfl | rfl
  · rw [tasks_path]
    rw [hs.lookup_task hwrites ht]
    cases hl : t.results? with
    | none => rfl
    | some l =>
      exact absurd ⟨hhead, hindex, t, htask, ResolvedPipelineTask.results?_eq_some hl⟩ htabled
  · refine WellReported.lookup_other hwrites fun task n heq => ?_
    have hfirst := congrArg (fun w : String => w.toList.head?) heq
    simp [resultKey] at hfirst

theorem strings_writes : KeyedByTask resultStrings := by
  intro task res k h
  rcases keys_resultStrings h with ⟨-, heq⟩ | ⟨-, e, -, heq⟩
  · exact ⟨_, heq⟩
  · exact ⟨_, heq⟩

theorem arrays_writes : KeyedByTask resultArrays :=
  fun _ _ _ h => ⟨_, (keys_resultArrays h).2⟩

theorem lookup_of_bracket {ν : Type} {table : List (String × ν)}
    (htable : ∀ k ∈ table.map (·.1), ∀ c ∈ k.toList, isVarChar c = true) {k : String}
    (hk : '[' ∈ k.toList) : table.lookup k = none := by
  refine lookup_of_not_mem fun hmem => ?_
  exact (bracket_not_mem (htable k hmem)).1 hk

theorem NamesResult.lookup_of_tabled (hs : WellReported s) (h : NamesResult s text expr p value)
    (hfix : (resolveRef s (ParsedResult.ref p)).1 = s) (htabled : Tabled s expr p) :
    ∃ rest t l, expr = resultKey t.name rest ∧ Spells t.name rest p ∧ t ∈ s ∧
      t.results? = some l ∧ resultsOf s p.resourceName = l ∧ l.lookup p.resultName = some value ∧
      (resultReplacements s).strings.lookup expr =
        (Table.puts [] (l.flatMap (resultStrings t.name))).lookup expr ∧
      ∀ name, (resultReplacements s).arrays.lookup (resultKey t.name name) =
        arrayResult l name := by
  obtain ⟨kind, rest, t, hkind, rfl, hspells, ht, htask⟩ := h.spells
  obtain rfl : kind = "tasks" :=
    Option.some.inj ((head_splitDots hkind t.name _).symm.trans htabled.kind)
  obtain ⟨t', ht', hcustom, hsucc⟩ := htabled.task
  obtain rfl : t = t' := Option.some.inj (htask.symm.trans ht')
  obtain ⟨l, hl, hlookup⟩ := h.accepted.lookup hfix htask hcustom hsucc
  rw [tasks_path]
  refine ⟨rest, t, l, rfl, hspells, ht, hl, ?_, hlookup, ?_, fun name => ?_⟩
  · rw [resultsOf, htask, Option.bind_some, hl, Option.getD_some]
  · exact (hs.lookup_task strings_writes ht rest).trans (by rw [hl, Option.bind_some])
  · rw [← lookup_arrays (hs.tasks t ht).1 (hs.nodup t ht l hl)]
    exact (hs.lookup_task arrays_writes ht name).trans (by rw [hl, Option.bind_some])

theorem Spells.arrayIdx_ne_none {task : String} (h : Spells task rest p)
    (hindex : p.arrayIdx ≠ none) : '[' ∈ rest.toList := by
  cases h with
  | index hdot hdigits => simp
  | whole => exact absurd rfl hindex
  | star => exact absurd rfl hindex
  | key => exact absurd rfl hindex

theorem NamesResult.lookup_none {ν : Type}
    {writes : String → String × ResultValue → List (String × ν)}
    (hwrites : KeyedByTask writes) (hs : WellReported s) (h : NamesResult s text expr p value)
    (htabled : ¬ Tabled s expr p)
    (htable : ∀ e ∈ tableOf writes s, ∀ c ∈ e.1.toList, isVarChar c = true) :
    (tableOf writes s).lookup expr = none := by
  obtain ⟨kind, rest, t, hkind, rfl, hspells, ht, htask⟩ := h.spells
  by_cases hindex : p.arrayIdx = none
  · exact lookup_of_not_tabled hwrites hs ht htask hkind hindex htabled rest
  · refine lookup_of_bracket (forall_mem_map.mpr htable) ?_
    rw [String.toList_append]
    exact mem_append_right _ (hspells.arrayIdx_ne_none hindex)

section
variable (hs : WellReported s) (hkeys : VariableKeys s) (h : NamesResult s text expr p value)
  (hfix : (resolveRef s (ParsedResult.ref p)).1 = s)
include hs hkeys h hfix

theorem NamesResult.replacedBy_iff (hx : textOf p value = some x) :
    ReplacedBy (resultReplacements s).strings text expr x ↔
      Tabled s expr p ∧ (p.resultType = .object → ¬ Overwritten s p x) ∨
        ¬ Tabled s expr p ∧ x = "$(" ++ expr ++ ")" := by
  have htable := hs.isVarChar_strings hkeys
  rw [replacedBy_iff_getD (fun k hk => plain_of_isVarChar (htable k hk))
    (isVariable_of_mem_validateString h.found).plain (occurs_of_mem_validateString h.found)]
  by_cases htabled : Tabled s expr p
  · obtain ⟨rest, t, l, rfl, hspells, ht, hl, hresults, hvalue, hlookup, -⟩ :=
      h.lookup_of_tabled hs hfix htabled
    have htask := (hs.tasks t ht).1
    have hnodup := hs.nodup t ht l hl
    rw [hlookup]
    cases hspells with
    | whole hdot hbracket =>
      obtain ⟨htype, rfl⟩ := textOf_whole.mp hx
      rw [lookup_strings_whole htask hnodup hdot hvalue htype]
      simp [htabled]
    | index => exact absurd htabled.noIndex (by simp)
    | star => simp [textOf_star] at hx
    | @key name k hdot hkey =>
      obtain ⟨htype, hkey'⟩ := textOf_key.mp hx
      have hown := hs.keys t ht l hl _ (mem_of_lookup hvalue)
      rw [lookup_strings_key htask hnodup hvalue hdot hkey htype hown hkey', Option.getD_some]
      simp only [htabled, Overwritten, hresults, true_and, not_true, false_and, or_false,
        forall_const]
      cases stringResult (reportedAfter name l) (name ++ "." ++ k) <;> simp
  · have hnone : (resultReplacements s).strings.lookup expr = none :=
      h.lookup_none strings_writes hs htabled (forall_mem_map.mp htable)
    rw [hnone, Option.getD_none]
    simp only [htabled, false_and, not_false_eq_true, true_and, false_or]
    exact eq_comm

theorem NamesResult.ne_star (hx : textOf p value = some x) {e : String × List String}
    (he : e ∈ (resultReplacements s).arrays) : expr ≠ e.1 ++ "[*]" := by
  intro hexpr
  obtain ⟨t', ht', l', hl', res, hres, heq⟩ := hs.mem_arrays he
  have hstar : resultKey t'.name res.1 ++ "[*]" = resultKey t'.name (res.1 ++ "[*]") :=
    String.append_assoc
  rw [heq, hstar] at hexpr
  obtain ⟨kind, rest, t, hkind, rfl, hspells, ht, htask⟩ := h.spells
  rcases hkind with rfl | rfl
  · have hkey := hexpr
    rw [tasks_path] at hkey
    obtain ⟨hname, hrest⟩ := resultKey_inj (hs.tasks t ht).1 (hs.tasks t' ht').1 hkey
    obtain rfl := inj_on_of_nodup_map hs.names ht ht' hname
    cases hspells with
    | whole hdot hbracket => exact hbracket (by simp [hrest])
    | @index name digits hdot hdigits =>
      -- what stands before the last bracket is a digit, and not the star
      have hlist : (name.toList ++ '[' :: digits.toList) ++ [']'] =
          (res.1.toList ++ ['[', '*']) ++ [']'] := by
        simpa using congrArg String.toList hrest
      have hlast := congrArg List.getLast? (append_cancel_right hlist)
      rw [getLast?_append_of_ne_nil _ (cons_ne_nil _ _)] at hlast
      have hmem := mem_of_getLast? (hlast.trans (by simp : _ = some '*'))
      rw [mem_cons] at hmem
      exact absurd (hdigits '*' (hmem.resolve_left (by decide))) (by decide)
    | star => simp [textOf_star] at hx
    | @key name k hdot hkey =>
      -- the name and the key are reported, and hold no bracket
      obtain ⟨hcustom, hsucc⟩ := ResolvedPipelineTask.results?_eq_some hl'
      obtain ⟨l, hl, hvalue⟩ := h.accepted.lookup hfix htask hcustom hsucc
      have hmem := mem_of_lookup hvalue
      have hk := mem_of_lookup (textOf_key.mp hx).2
      have hown : '[' ∉ name.toList := (bracket_not_mem (hs.results t ht l hl _ hmem)).1
      have hkey' : '[' ∉ k.toList := (bracket_not_mem (hkeys t ht l hl _ hmem _ hk)).1
      have hbracket : '[' ∈ (name ++ "." ++ k).toList := by simp [hrest]
      simp [hown, hkey'] at hbracket
  · have hfirst := congrArg (fun w : String => w.toList.head?) hexpr
    simp [resultKey] at hfirst

theorem NamesResult.item_iff (hx : textOf p value = some x)
    (hrep : ReplacedBy (resultReplacements s).strings text expr x) :
    applyArrayReplacements text (resultReplacements s).strings (resultReplacements s).arrays =
        [applyReplacements text (resultReplacements s).strings] ↔
      (text = "$(" ++ expr ++ ")" → p.resultType = .object → Tabled s expr p →
        ¬ NamedArray s p x) := by
  by_cases htext : text = "$(" ++ expr ++ ")"
  · subst htext
    have hown : applyReplacements ("$(" ++ expr ++ ")") (resultReplacements s).strings = x := by
      have hempty : applyReplacements "" (resultReplacements s).strings = "" := by
        simp [applyReplacements, Text.rewriteAll, Text.scan]
      have hall := hrep "" "" (by simp)
      rwa [hempty, String.empty_append, String.append_empty] at hall
    rw [applyArrayReplacements_whole fun e he => h.ne_star hs hkeys hfix hx he, hown]
    by_cases htabled : Tabled s expr p
    · obtain ⟨rest, t, l, rfl, hspells, ht, hl, hresults, hvalue, -, harrays⟩ :=
        h.lookup_of_tabled hs hfix htabled
      rw [harrays rest]
      cases hspells with
      | whole hdot hbracket =>
        simp [arrayResult, hvalue, (textOf_whole.mp hx).1]
      | index => exact absurd htabled.noIndex (by simp)
      | star => simp [textOf_star] at hx
      | @key name k hdot hkey =>
        simp only [NamedArray, hresults, htabled, forall_const]
        cases arrayResult l (name ++ "." ++ k) <;> simp
    · have hnone : (resultReplacements s).arrays.lookup expr = none :=
        h.lookup_none arrays_writes hs htabled hs.isVarChar_arrays
      simp [hnone, htabled]
  · -- a text that is the reference to an array holds no other reference
    have hocc := occurs_of_mem_validateString h.found
    have hplain := fun e he => plain_of_isVarChar (hs.isVarChar_arrays e he)
    have hne : ∀ k : String, Plain k → text ≠ "$(" ++ k ++ ")" := by
      intro k hk heq
      rw [heq] at hocc htext
      exact htext (by rw [hk.eq_of_reference_infix hocc])
    refine iff_of_true (applyArrayReplacements_of_ne fun e he => ⟨hne _ (hplain e he), ?_⟩)
      fun heq => absurd heq htext
    rw [star_reference]
    refine hne _ ⟨?_, ?_⟩
    · simpa using (hplain e he).dollar
    · simpa using (hplain e he).closing

theorem NamesResult.array_iff {xs : List String} (hxs : arrayOf p value = some xs)
    (htext : text = "$(" ++ expr ++ ")") :
    applyArrayReplacements text (resultReplacements s).strings (resultReplacements s).arrays = xs ↔
      Tabled s expr p ∨ xs = [text] := by
  have hcond : (p.resultType = .array ∧ p.arrayIdx = none ∧ value.type = .array) ∧
      value.arrayVal = xs := by
    simpa [arrayOf] using hxs
  obtain ⟨⟨htype, hindex, harray⟩, rfl⟩ := hcond
  have hfree : ∀ {k : String}, ∀ e ∈ (resultReplacements s).arrays, e.1 ≠ k ++ "[*]" := by
    intro k e he heq
    refine (bracket_not_mem (hs.isVarChar_arrays e he)).1 ?_
    rw [heq]
    simp
  have hself : ∀ k : String, expr = k ++ "[*]" →
      applyReplacements ("$(" ++ expr ++ ")") (resultReplacements s).strings =
        "$(" ++ expr ++ ")" := by
    intro k hk
    rw [applyReplacements_self _ (isVariable_of_mem_validateString h.found).plain,
      lookup_of_bracket (hs.isVarChar_strings hkeys) (by rw [hk]; simp), Option.getD_none]
  subst htext
  by_cases htabled : Tabled s expr p
  · obtain ⟨rest, t, l, rfl, hspells, ht, hl, -, hvalue, -, harrays⟩ :=
      h.lookup_of_tabled hs hfix htabled
    cases hspells with
    | @star name hdot hbracket =>
      have hkey : resultKey t.name (name ++ "[*]") = resultKey t.name name ++ "[*]" :=
        String.append_assoc.symm
      have hlookup : arrayResult l name = some value.arrayVal := by
        simp [arrayResult, hvalue, harray]
      rw [hkey] at htabled ⊢
      simp [applyArrayReplacements_star hfree, harrays, hlookup, htabled]
    | whole => cases htype
    | index => cases hindex
    | key => cases htype
  · obtain ⟨kind, rest, t, hkind, rfl, hspells, ht, htask⟩ := h.spells
    cases hspells with
    | @star name hdot hbracket =>
      have hnone := lookup_of_not_tabled arrays_writes hs ht htask hkind hindex htabled name
      have hkey : kind ++ "." ++ t.name ++ ".results." ++ (name ++ "[*]") =
          kind ++ "." ++ t.name ++ ".results." ++ name ++ "[*]" := String.append_assoc.symm
      have htext := hself _ hkey
      rw [hkey] at htabled htext ⊢
      have harrays : (resultReplacements s).arrays.lookup
          (kind ++ "." ++ t.name ++ ".results." ++ name) = none := hnone
      rw [applyArrayReplacements_star hfree, harrays, Option.getD_none, htext]
      simp only [htabled, false_or]
      exact eq_comm
    | whole => cases htype
    | index => cases hindex
    | key => cases htype

end

theorem propagates_iff (hs : WellReported s) (hkeys : VariableKeys s) (hres : Resolved s ts) :
    Propagates s ts ↔ Placed s ts := by
  have hfix : ∀ {text expr p value}, text ∈ ts.scalars ∨ text ∈ ts.items →
      NamesResult s text expr p value → (resolveRef s (ParsedResult.ref p)).1 = s := by
    intro text expr p value htext h
    rcases htext with htext | htext
    · exact h.resolved hres (TaskSpec.mem_texts_of_mem_scalars htext)
    · exact h.resolved hres (TaskSpec.mem_texts_of_mem_items htext)
  constructor
  · intro hprop
    refine ⟨fun text htext expr p value h x hx => ?_, fun text htext expr p value h x hx => ?_,
      fun text htext expr p value h xs hxs heq => ?_⟩
    · refine (h.replacedBy_iff hs hkeys (hfix htext h) hx).mp ?_
      rcases htext with htext | htext
      · exact hprop.scalar text htext expr p value h x hx
      · exact (hprop.item text htext expr p value h x hx).2
    · obtain ⟨hone, hrep⟩ := hprop.item text htext expr p value h x hx
      exact (h.item_iff hs hkeys (hfix (.inr htext) h) hx hrep).mp hone
    · exact (h.array_iff hs hkeys (hfix (.inr htext) h) hxs heq).mp
        (hprop.array text htext expr p value h xs hxs heq)
  · intro hplaced
    have hrep : ∀ text, text ∈ ts.scalars ∨ text ∈ ts.items → ∀ expr p value,
        NamesResult s text expr p value → ∀ x ∈ textOf p value,
          ReplacedBy (resultReplacements s).strings text expr x := by
      intro text htext expr p value h x hx
      exact (h.replacedBy_iff hs hkeys (hfix htext h) hx).mpr
        (hplaced.text text htext expr p value h x hx)
    refine ⟨fun text htext => hrep text (.inl htext), fun text htext expr p value h x hx => ?_,
      fun text htext expr p value h xs hxs heq => ?_⟩
    · have hone := hrep text (.inr htext) expr p value h x hx
      exact ⟨(h.item_iff hs hkeys (hfix (.inr htext) h) hx hone).mpr
        (hplaced.item text htext expr p value h x hx), hone⟩
    · exact (h.array_iff hs hkeys (hfix (.inr htext) h) hxs heq).mpr
        (hplaced.array text htext expr p value h xs hxs heq)

/-- The task that is started has the texts of the embedded one with the replacements made, and
its references are replaced exactly where they can be looked up. -/
theorem results_propagated_iff (hs : WellReported s) (hkeys : VariableKeys s)
    (hres : Resolved s ts) : (∃ ts', propagateResults (some ts) s = some ts' ∧ ts'.scalars =
        (ts.scalars.map fun text => applyReplacements text (resultReplacements s).strings) ∧
      ts'.items = ts.items.flatMap fun text =>
        applyArrayReplacements text (resultReplacements s).strings (resultReplacements s).arrays) ∧
      (Propagates s ts ↔ Placed s ts) :=
  ⟨⟨_, rfl, ts.scalars_applyReplacements _, ts.items_applyReplacements _⟩,
    propagates_iff hs hkeys hres⟩

/-- Where all that is found can be looked up and no object is read, all is put in place. -/
theorem placed_of_tabled (h : ∀ expr ∈ (ts.scalars ++ ts.items).flatMap validateString,
    ∀ p, parseTaskExpression expr = some p → Tabled s expr p ∧ p.resultType ≠ .object) :
    Placed s ts := by
  have hat : ∀ text, text ∈ ts.scalars ∨ text ∈ ts.items → ∀ expr p value,
      NamesResult s text expr p value → Tabled s expr p ∧ p.resultType ≠ .object :=
    fun text htext expr p value hn =>
      h expr (mem_flatMap.mpr ⟨text, mem_append.mpr htext, hn.found⟩) p hn.parsed
  refine ⟨?_, ?_, ?_⟩
  · intro text htext expr p value hn x _
    obtain ⟨ht, hne⟩ := hat text htext expr p value hn
    exact .inl ⟨ht, fun hobject => absurd hobject hne⟩
  · intro text htext expr p value hn x _ _ hobject
    exact absurd hobject (hat text (.inr htext) expr p value hn).2
  · intro text htext expr p value hn xs _ _
    exact .inl (hat text (.inr htext) expr p value hn).1

end

/-! ## A task that reads a digest, and one that reads the first of the images -/

def reportedImages : List (String × ResultValue) :=
  [("digest", { stringVal := "sha" }), ("images", { type := .array, arrayVal := ["app", "docs"] })]

def imagesReported : PipelineRunState :=
  [{ pipelineTask := { name := "build" }
     taskRuns :=
       [{ name := "run-build"
          succeeded := some { status := .isTrue }
          results := reportedImages }] }]

def pushTask (script : String) : TaskSpec :=
  { steps := [{ args := ["$(tasks.build.results.images[*])"], script := script }] }

theorem results_imagesReported {t : ResolvedPipelineTask} (ht : t ∈ imagesReported)
    {l : List (String × ResultValue)} (hl : t.results? = some l) : l = reportedImages := by
  obtain rfl := mem_singleton.mp ht
  exact (Option.some.inj hl).symm

theorem wellReported_imagesReported : WellReported imagesReported := by
  have hresults : (reportedImages.all fun e => e.1.toList.all isVarChar) = true := by decide
  refine ⟨by decide, ?_, ?_, ?_, ?_⟩
  · intro t ht
    obtain rfl := mem_singleton.mp ht
    exact ⟨by decide, all_eq_true.mp (by decide)⟩
  · intro t ht l hl
    rw [results_imagesReported ht hl]
    decide
  · intro t ht l hl e he
    rw [results_imagesReported ht hl] at he
    exact all_eq_true.mp (all_eq_true.mp hresults e he)
  · intro t ht l hl
    rw [results_imagesReported ht hl]
    decide

theorem variableKeys_imagesReported : VariableKeys imagesReported := by
  intro t ht l hl
  rw [results_imagesReported ht hl]
  decide

theorem digest_propagated :
    Propagates imagesReported (pushTask "push $(tasks.build.results.digest)") := by
  have hfound : ((pushTask "push $(tasks.build.results.digest)").scalars ++
      (pushTask "push $(tasks.build.results.digest)").items).flatMap validateString =
        ["tasks.build.results.digest", "tasks.build.results.images[*]"] := by decide +kernel
  have hdigest : parseTaskExpression "tasks.build.results.digest" =
      some ⟨"build", "digest", .string, none, ""⟩ := by decide +kernel
  have himages : parseTaskExpression "tasks.build.results.images[*]" =
      some ⟨"build", "images", .array, none, ""⟩ := by decide +kernel
  refine (results_propagated_iff wellReported_imagesReported variableKeys_imagesReported ?_).2.mpr
    (placed_of_tabled ?_)
  · have hall : (newResultRefs ((pushTask "push $(tasks.build.results.digest)").texts.flatMap
        validateString)).all (fun ref => (resolveRef imagesReported ref).1 == imagesReported) =
        true := by decide +kernel
    exact fun ref href => eq_of_beq (all_eq_true.mp hall ref href)
  · intro expr hexpr p hp
    simp only [hfound, mem_cons, not_mem_nil, or_false] at hexpr
    rcases hexpr with rfl | rfl
    · obtain rfl := Option.some.inj (hdigest.symm.trans hp)
      exact ⟨⟨by decide, rfl, _, rfl, rfl, by decide⟩, by decide⟩
    · obtain rfl := Option.some.inj (himages.symm.trans hp)
      exact ⟨⟨by decide, rfl, _, rfl, rfl, by decide⟩, by decide⟩

/-- A reference by index is accepted, and stays in the script. -/
theorem first_image_kept : NamesResult imagesReported "push $(tasks.build.results.images[0])"
        "tasks.build.results.images[0]" ⟨"build", "images", .array, some 0, ""⟩
        { type := .array, arrayVal := ["app", "docs"] } ∧
      ¬ Propagates imagesReported (pushTask "push $(tasks.build.results.images[0])") := by
  have hnames : NamesResult imagesReported "push $(tasks.build.results.images[0])"
      "tasks.build.results.images[0]" ⟨"build", "images", .array, some 0, ""⟩
      { type := .array, arrayVal := ["app", "docs"] } :=
    ⟨by decide +kernel, by decide +kernel, ⟨⟨_, rfl, by decide⟩, by decide, [], rfl⟩⟩
  refine ⟨hnames, fun hprop => ?_⟩
  have hrep := hprop.scalar _ (mem_singleton.mpr rfl) _ _ _ hnames "app" rfl "push " "" rfl
  have hkept : applyReplacements "push $(tasks.build.results.images[0])"
      (resultReplacements imagesReported).strings ≠
        applyReplacements "push " (resultReplacements imagesReported).strings ++ "app" ++
          applyReplacements "" (resultReplacements imagesReported).strings := by decide +kernel
  exact hkept hrep

end TektonPipeline.Pipeline
