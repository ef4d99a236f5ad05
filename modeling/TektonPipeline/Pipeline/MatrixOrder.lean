import TektonPipeline.Pipeline.MatrixRuns
import TektonPipeline.Pipeline.MatrixResults
import TektonPipeline.Pipeline.NameLengths
import TektonPipeline.Library.Sorting
import Mathlib.Data.String.Basic

/-! In which order the results of the runs of a matrix are collected: by the names of the runs,
which end in the places of their combinations. -/

namespace TektonPipeline.Pipeline
open Api TaskRunReconciler List

section
variable (pr : PipelineRun) (pt : PipelineTask)

def runNames : List String := getNewRunNames pr pt.name pt.matrix.countCombinations

theorem exists_newRunName (ptName : String) (n i : Nat) :
    ∃ base, newRunName pr ptName n i = base ++ numbered i := by
  unfold newRunName
  dsimp only
  split
  · rename_i hsuffix
    obtain ⟨base, hbase⟩ := isSuffixOf_iff_suffix.mp hsuffix
    refine ⟨String.ofList base, ?_⟩
    rw [← String.toList_inj, String.toList_append, String.toList_ofList, ← hbase]
    rfl
  · exact ⟨_, rfl⟩

theorem nodup_getNewRunNames (ptName : String) (n : Nat) : (getNewRunNames pr ptName n).Nodup := by
  unfold getNewRunNames
  split
  · exact nodup_singleton _
  · refine nodup_range.map_on fun i _ j _ heq => ?_
    obtain ⟨a, ha⟩ := exists_newRunName pr ptName n i
    obtain ⟨b, hb⟩ := exists_newRunName pr ptName n j
    rw [ha, hb] at heq
    exact (append_numbered_inj heq).2

variable {pr} {d : Digest}

theorem newRunName_fits (hchild : pr.childName = childName d) {ptName : String} {n i : Nat}
    (hfits : pr.name.length + ("-" ++ ptName ++ numbered i).length ≤ 63) :
    newRunName pr ptName n i = pr.name ++ ("-" ++ ptName) ++ numbered i := by
  have hname : childName d pr.name ("-" ++ ptName ++ numbered i) =
      pr.name ++ ("-" ++ ptName) ++ numbered i := by
    rw [← String.toList_inj, childName_fits d (by simpa only [String.length_toList] using hfits)]
    simp
  unfold newRunName
  dsimp only
  rw [hchild, ← numbered, hname, if_pos]
  rw [isSuffixOf_iff_suffix, String.toList_append]
  exact suffix_append _ _

theorem append_lt_append {base s t : String} (h : s < t) : base ++ s < base ++ t := by
  rw [String.lt_iff, String.toList_append, String.toList_append]
  exact append_left_lt (String.lt_iff.mp h)

theorem pairwise_numbered (base : String) (n : Nat) :
    ((List.range n).map fun i => base ++ numbered i).Pairwise (· < ·) ↔ n ≤ 10 := by
  constructor
  · intro h
    by_contra hn
    have hlt := pairwise_iff_getElem.mp h 2 10 (by simp; omega) (by simp; omega) (by decide)
    simp only [getElem_map, getElem_range] at hlt
    have hgt : base ++ numbered 10 < base ++ numbered 2 := append_lt_append (by decide)
    exact lt_asymm hlt hgt
  · intro hn
    refine pairwise_map.mpr (pairwise_lt_range.imp_of_mem fun hi hj hlt => ?_)
    have hdigits : ∀ i < 10, ∀ j < 10, i < j → numbered i < numbered j := by decide
    rw [mem_range] at hi hj
    exact append_lt_append (hdigits _ (by omega) _ (by omega) hlt)

theorem pairwise_runNames (hchild : pr.childName = childName d)
    (hfits : pr.name.length + pt.name.length +
      (toString (pt.matrix.countCombinations - 1)).length + 2 ≤ 63) :
    (runNames pr pt).Pairwise (· < ·) ↔ pt.matrix.countCombinations ≤ 10 := by
  unfold runNames getNewRunNames
  split
  · rename_i hone
    exact iff_of_true (pairwise_singleton _ _) (by omega)
  · rename_i hone
    have hnames : (List.range pt.matrix.countCombinations).map
        (newRunName pr pt.name pt.matrix.countCombinations) =
        (List.range pt.matrix.countCombinations).map fun i =>
          pr.name ++ ("-" ++ pt.name) ++ numbered i := by
      refine map_congr_left fun i hi => newRunName_fits hchild ?_
      have hi' := mem_range.mp hi
      have hdigits : (toString i).length ≤ (toString (pt.matrix.countCombinations - 1)).length := by
        simp only [Nat.toString_eq_repr, ← String.length_toList, Nat.toList_repr]
        exact length_toDigits_mono (by omega)
      have hlength : ("-" ++ pt.name ++ numbered i).length =
          1 + pt.name.length + (1 + (toString i).length) := by
        rw [numbered, String.length_append, String.length_append, String.length_append]
        rfl
      omega
    rw [hnames]
    exact pairwise_numbered _ _

end

/-- Each of these runs has emitted the string result `r` once, with the value at its place. -/
def EmitsEach (r : String) (runs : List ChildRun) (values : List String) : Prop :=
  runs.map (fun run => run.results.filter fun e => e.1 = r) =
    values.map fun v => [(r, { stringVal := v })]

variable {c : Cluster} {refs : List ChildReference}

section
variable (pr : PipelineRun) (pt : PipelineTask)

def createdRuns : List RunObject := createRuns (resolved pr pt {} [])

/-- Every run of the task has come to its end and has emitted the string result `r`; the one that
was created for the combination at a place has emitted the value at that place. -/
structure Finished (r : String) (values : List String) (c : Cluster) : Prop where
  distinct : (c.objects.map fun o => (o.customRun, o.run.name)).Nodup
  runs : ∃ objects, (c.objects.filter (isOwn pt)).Perm objects ∧
    objects.map (·.run.name) = (createdRuns pr pt).map (·.run.name) ∧
    (∀ o ∈ objects, o.run.isDone = true) ∧ EmitsEach r (objects.map (·.run)) values

/-- In every order in which the runs are found again, a reference to the result is resolved to an
array with one value for each combination, in the order of the combinations. -/
def InMatrixOrder (r : String) : Prop :=
  ∀ values c refs s, values ≠ [] → Finished pr pt r values c → Recovered c refs →
    PipelineRunState.task? s pt.name = some (resolved pr pt c refs) →
    ∃ found, (resolveRef s ⟨pt.name, r, none, ""⟩).2 = .ok found ∧ found ≠ [] ∧
      ∀ ref ∈ found, ref.value.type = .array ∧
        ref.value.arrayVal.length = pt.matrix.fanOut.length ∧
        ∀ i < pt.matrix.fanOut.length, ref.value.arrayVal[i]? = values[i]?

variable {pr pt}

theorem map_name_createdRuns (hmatrix : pt.isMatrixed = true) :
    (createdRuns pr pt).map (·.run.name) = runNames pr pt := by
  have hnames : (resolved pr pt {} []).runNames = runNames pr pt := by
    have hrefs : Recovered ({} : Cluster) [] := .refl []
    rw [(resolved_fields pr pt {} []).2.2, hmatrix, if_pos rfl,
      getNamesOfRuns_of_no_own hrefs fun o ho => absurd ho not_mem_nil]
    rfl
  unfold createdRuns createRuns
  rw [hnames, map_map]
  exact zipIdx_map_fst 0 _

theorem Cluster.get_of_mem {o : RunObject}
    (hdistinct : (c.objects.map fun o => (o.customRun, o.run.name)).Nodup) (ho : o ∈ c.objects) :
    c.get o.customRun o.run.name = some o.run := by
  unfold Cluster.get
  cases hfind : c.objects.find? fun o' =>
      o'.customRun == o.customRun && o'.run.name == o.run.name with
  | none =>
    have hnone := find?_eq_none.mp hfind o ho
    simp at hnone
  | some o' =>
    have hkey := find?_some hfind
    rw [Bool.and_eq_true, beq_iff_eq, beq_iff_eq] at hkey
    have heq : o' = o := inj_on_of_nodup_map hdistinct (mem_of_find?_eq_some hfind) ho
      (Prod.ext hkey.1 hkey.2)
    rw [heq]
    rfl

theorem resolved_perm (hdistinct : (c.objects.map fun o => (o.customRun, o.run.name)).Nodup)
    (hrefs : Recovered c refs) (hown : c.objects.filter (isOwn pt) ≠ []) :
    (resolved pr pt c refs).runs.Perm ((c.objects.filter (isOwn pt)).map (·.run)) := by
  have hnames : (getRunNamesFromChildRefs refs pt.customTask pt.name).Perm
      ((c.objects.filter (isOwn pt)).map (·.run.name)) := by
    unfold getRunNamesFromChildRefs
    refine ((hrefs.filter _).map _).trans (.of_eq ?_)
    rw [filter_map, map_map]
    rfl
  have hget : ((c.objects.filter (isOwn pt)).map (·.run.name)).filterMap (c.get pt.customTask) =
      (c.objects.filter (isOwn pt)).map (·.run) := by
    rw [filterMap_map, ← filterMap_eq_map]
    refine filterMap_congr fun o ho => ?_
    obtain ⟨hmem, hown⟩ := mem_filter.mp ho
    have hkind : o.customRun = pt.customTask := by
      unfold isOwn at hown
      simpa using (Bool.and_eq_true_iff.mp hown).1
    rw [Function.comp_apply, ← hkind, Cluster.get_of_mem hdistinct hmem]
    rfl
  have hne : getRunNamesFromChildRefs refs pt.customTask pt.name ≠ [] := by
    intro hnil
    rw [hnil] at hnames
    exact hown (map_eq_nil_iff.mp hnames.nil_eq.symm)
  rw [resolved_runs, getNamesOfRuns, if_neg (by rwa [List.isEmpty_iff]), ← hget]
  exact hnames.filterMap _

end

section
variable {r : String} {runs : List ChildRun} {values : List String}

def emitted (r : String) (run : ChildRun) : String := (valuesOf r run.results).headD ""

theorem EmitsEach.length_eq (h : EmitsEach r runs values) : values.length = runs.length := by
  simpa using (congrArg length h).symm

theorem EmitsEach.filter_eq (h : EmitsEach r runs values) {run : ChildRun} (hrun : run ∈ runs) :
    ∃ v, (run.results.filter fun e => e.1 = r) = [(r, { stringVal := v })] := by
  have hmem := mem_map_of_mem (f := fun run => run.results.filter fun e => e.1 = r) hrun
  rw [h] at hmem
  obtain ⟨v, -, hv⟩ := mem_map.mp hmem
  exact ⟨v, hv.symm⟩

theorem valuesOf_eq_emitted (h : EmitsEach r runs values) :
    ∀ run ∈ runs, valuesOf r run.results = [emitted r run] := by
  intro run hrun
  obtain ⟨v, hv⟩ := h.filter_eq hrun
  have hvalues : valuesOf r run.results = [v] := by
    rw [valuesOf, hv]
    rfl
  rw [emitted, hvalues]
  rfl

theorem map_emitted (h : EmitsEach r runs values) : runs.map (emitted r) = values := by
  have hmap : runs.map (emitted r) =
      (runs.map fun run => run.results.filter fun e => e.1 = r).map fun es =>
        (es.map fun e => e.2.stringVal).headD "" := by
    rw [map_map]
    rfl
  rw [hmap, h, map_map]
  exact map_id _

variable {t : ResolvedPipelineTask}

theorem aggregated_eq (hcache : t.resultsCache = []) (hperm : t.taskRuns.Perm runs)
    (hnames : (runs.map (·.name)).Nodup) (h : EmitsEach r runs values) :
    t.aggregated r = (runs.insertionSort fun a b => a.name ≤ b.name).map (emitted r) := by
  have hsort : t.cacheResults.taskRuns = runs.insertionSort fun a b => a.name ≤ b.name := by
    unfold ResolvedPipelineTask.cacheResults
    rw [hcache, isEmpty_nil, if_pos rfl]
    exact Sorting.sort_eq_of_perm hperm hnames
  have hmem : ∀ run ∈ runs.insertionSort fun a b => a.name ≤ b.name, run ∈ runs :=
    fun run hrun => (mem_insertionSort _).mp hrun
  rw [ResolvedPipelineTask.aggregated, hsort, valuesOf_flatMap, map_eq_flatMap]
  exact flatMap_congr fun run hrun => valuesOf_eq_emitted h run (hmem run hrun)

theorem finished_of_done (hne : t.runs ≠ []) (hdone : ∀ run ∈ t.runs, run.isDone = true) :
    t.isSuccessful = true ∨ t.isFailure = true := by
  have hisEmpty : t.runs.isEmpty = false := by simpa using hne
  by_cases hall : t.runs.all (·.isSuccessful) = true
  · exact .inl (by simp [ResolvedPipelineTask.isSuccessful, hisEmpty, hall])
  · obtain ⟨run, hrun, hunsuccessful⟩ : ∃ run ∈ t.runs, run.isSuccessful = false := by
      simpa using hall
    have hfailure : run.isFailure = true := by
      have hstatus := hdone run hrun
      unfold ChildRun.isDone at hstatus
      unfold ChildRun.isSuccessful at hunsuccessful
      unfold ChildRun.isFailure
      cases hcondition : run.succeeded with
      | none => simp [hcondition, isUnknown] at hstatus
      | some condition =>
        rw [hcondition] at hstatus hunsuccessful
        cases hkind : condition.status <;> simp_all [isUnknown, hasStatus]
    have hany : t.runs.any (·.isFailure) = true := any_eq_true.mpr ⟨run, hrun, hfailure⟩
    have hdone' : t.runs.all (·.isDone) = true := all_eq_true.mpr hdone
    exact .inr (by simp [ResolvedPipelineTask.isFailure, hisEmpty, hany, hdone'])

theorem resolveRef_matrix {s : PipelineRunState} (ref : ResultRef)
    (hs : s.task? ref.pipelineTask = some t) (hcustom : t.customTask = false)
    (hmatrix : t.pipelineTask.isMatrixed = true) (hcache : t.resultsCache = [])
    (hdone : ∀ run ∈ t.runs, run.isDone = true) (hvalues : t.aggregated ref.result ≠ []) :
    (resolveRef s ref).2 = .ok (t.cacheResults.taskRuns.map fun _ =>
        ⟨{ type := .array, arrayVal := t.aggregated ref.result }, ref⟩) := by
  have hruns : t.runs ≠ [] := by
    intro hnil
    have htaskRuns : t.taskRuns = [] := by
      unfold ResolvedPipelineTask.runs at hnil
      rwa [hcustom] at hnil
    have hsorted : t.cacheResults.taskRuns = [] :=
      List.Perm.eq_nil (htaskRuns ▸ t.perm_cacheResults)
    rw [ResolvedPipelineTask.aggregated, hsorted] at hvalues
    exact hvalues rfl
  have hfinished := finished_of_done hruns hdone
  have hlookup :
      t.cacheResults.resultsCache.lookup ref.result = some (t.aggregated ref.result) := by
    rw [ResolvedPipelineTask.lookup_cacheResults hcache]
    exact if_neg hvalues
  unfold resolveRef
  rw [hs]
  dsimp only
  rw [if_neg (by
    rw [Bool.and_eq_true, Bool.not_eq_true', Bool.not_eq_true']
    rintro ⟨hs, hf⟩
    rw [hs, hf] at hfinished
    simp at hfinished), if_pos (by rw [hcustom, hmatrix]; rfl)]
  unfold findResultValuesForMatrix
  rw [hlookup]

end

section
variable {pr : PipelineRun} {pt : PipelineTask} {r : String}

theorem Finished.exists_runs {values : List String} (h : Finished pr pt r values c)
    (hmatrix : pt.isMatrixed = true) (hne : values ≠ []) (hrefs : Recovered c refs) :
    ∃ runs, (resolved pr pt c refs).runs.Perm runs ∧ runs.map (·.name) = runNames pr pt ∧
      (∀ run ∈ runs, run.isDone = true) ∧ EmitsEach r runs values := by
  obtain ⟨objects, hperm, hnames, hdone, hresults⟩ := h.runs
  have hown : c.objects.filter (isOwn pt) ≠ [] := by
    intro hnil
    rw [hnil] at hperm
    rw [← hperm.nil_eq, map_nil] at hresults
    exact hne (map_eq_nil_iff.mp hresults.symm)
  refine ⟨objects.map (·.run),
    (resolved_perm h.distinct hrefs hown).trans (hperm.map _), ?_, ?_, ?_⟩
  · rw [map_map, ← map_name_createdRuns hmatrix, ← hnames]
    rfl
  · intro run hrun
    obtain ⟨o, ho, rfl⟩ := mem_map.mp hrun
    exact hdone o ho
  · exact hresults

theorem length_of_names {runs : List ChildRun} (h : runs.map (·.name) = runNames pr pt) :
    runs.length = pt.matrix.countCombinations := by
  rw [← length_map (f := ChildRun.name), h]
  exact length_getNewRunNames _ _

theorem resolved_cache (c : Cluster) (refs : List ChildReference) :
    (resolved pr pt c refs).resultsCache = [] := by
  unfold resolved resolveRuns
  cases pt.customTask <;> rfl

theorem resolveRef_finished {values : List String} {s : PipelineRunState} {runs : List ChildRun}
    (hmatrix : pt.isMatrixed = true) (hcustom : pt.customTask = false) (hne : values ≠ [])
    (hs : s.task? pt.name = some (resolved pr pt c refs))
    (hperm : (resolved pr pt c refs).runs.Perm runs) (hnames : runs.map (·.name) = runNames pr pt)
    (hdone : ∀ run ∈ runs, run.isDone = true) (hresults : EmitsEach r runs values) :
    ∃ found, (resolveRef s ⟨pt.name, r, none, ""⟩).2 = .ok found ∧ found ≠ [] ∧
      ∀ ref ∈ found, ref.value =
        { type := .array
          arrayVal := (runs.insertionSort fun a b => a.name ≤ b.name).map (emitted r) } := by
  obtain ⟨hpt, hkind, -⟩ := resolved_fields pr pt c refs
  have htaskRuns : (resolved pr pt c refs).runs = (resolved pr pt c refs).taskRuns := by
    unfold ResolvedPipelineTask.runs
    rw [hkind, hcustom]
    rfl
  have haggregated := aggregated_eq (resolved_cache c refs) (htaskRuns ▸ hperm)
    (by rw [hnames]; exact nodup_getNewRunNames pr pt.name _) hresults
  have hlength : ((resolved pr pt c refs).aggregated r).length = values.length := by
    rw [haggregated, length_map, length_insertionSort, hresults.length_eq]
  have hpos : 0 < values.length := length_pos_iff.mpr hne
  have hfound := resolveRef_matrix ⟨pt.name, r, none, ""⟩ hs (hkind.trans hcustom)
    (by rw [hpt]; exact hmatrix) (resolved_cache c refs)
    (fun run hrun => hdone run (hperm.mem_iff.mp hrun))
    (length_pos_iff.mp (by rw [hlength]; exact hpos))
  refine ⟨_, hfound, ?_, ?_⟩
  · refine length_pos_iff.mp ?_
    rw [length_map, (resolved pr pt c refs).perm_cacheResults.length_eq, ← htaskRuns,
      hperm.length_eq, ← hresults.length_eq]
    exact hpos
  · intro ref href
    obtain ⟨run, -, rfl⟩ := mem_map.mp href
    dsimp only
    rw [haggregated]

theorem inMatrixOrder_of_ascending (hmatrix : pt.isMatrixed = true)
    (hcustom : pt.customTask = false)
    (hascend : (runNames pr pt).Pairwise (· < ·))
    (hcount : pt.matrix.fanOut.length = pt.matrix.countCombinations) : InMatrixOrder pr pt r := by
  intro values c refs s hne hfinished hrefs hs
  obtain ⟨runs, hperm, hnames, hdone, hresults⟩ := hfinished.exists_runs hmatrix hne hrefs
  obtain ⟨found, hfound, hsome, hvalue⟩ :=
    resolveRef_finished hmatrix hcustom hne hs hperm hnames hdone hresults
  have hsorted : (runs.insertionSort fun a b => a.name ≤ b.name) = runs := by
    refine Sorting.sort_eq_self_iff.mpr (List.Pairwise.of_map ChildRun.name (fun _ _ h => h) ?_)
    rw [hnames]
    exact hascend.imp le_of_lt
  have hlength : values.length = pt.matrix.fanOut.length := by
    rw [hcount, hresults.length_eq, length_of_names hnames]
  refine ⟨found, hfound, hsome, fun ref href => ?_⟩
  rw [hvalue ref href, hsorted, map_emitted hresults]
  exact ⟨rfl, hlength, fun i _ => rfl⟩

variable (pr pt r) in
def placesEmitted : Cluster :=
  { objects := (createdRuns pr pt).zipIdx.map fun e =>
      e.1.finish succeeded [(r, { stringVal := toString e.2 })] }

theorem length_createdRuns (hmatrix : pt.isMatrixed = true) :
    (createdRuns pr pt).length = pt.matrix.countCombinations := by
  rw [← length_map (f := fun o : RunObject => o.run.name), map_name_createdRuns hmatrix]
  exact length_getNewRunNames _ _

theorem placesEmitted_finished (hmatrix : pt.isMatrixed = true) :
    Finished pr pt r ((List.range pt.matrix.countCombinations).map toString)
      (placesEmitted pr pt r) := by
  have hnames : (placesEmitted pr pt r).objects.map (·.run.name) = runNames pr pt := by
    rw [← map_name_createdRuns hmatrix, placesEmitted, map_map]
    conv => rhs; rw [← zipIdx_map_fst 0 (createdRuns pr pt)]
    rw [map_map]
    rfl
  have hown : ∀ o ∈ (placesEmitted pr pt r).objects, isOwn pt o = true := by
    intro o ho
    obtain ⟨e, he, rfl⟩ := mem_map.mp ho
    have hmem : e.1 ∈ createdRuns pr pt := by
      rw [← zipIdx_map_fst 0 (createdRuns pr pt)]
      exact mem_map_of_mem he
    have hcreated : isOwn pt e.1 = true := isOwn_of_mem_createRuns hmem
    exact hcreated
  refine ⟨?_, (placesEmitted pr pt r).objects, ?_, ?_, ?_, ?_⟩
  · refine List.Nodup.of_map Prod.snd ?_
    rw [map_map]
    have hnodup := nodup_getNewRunNames pr pt.name pt.matrix.countCombinations
    rw [← runNames, ← hnames] at hnodup
    exact hnodup
  · rw [filter_eq_self.mpr hown]
  · rw [hnames, map_name_createdRuns hmatrix]
  · intro o ho
    obtain ⟨e, -, rfl⟩ := mem_map.mp ho
    rfl
  · rw [← length_createdRuns hmatrix, range_eq_range', ← zipIdx_map_snd 0 (createdRuns pr pt),
      placesEmitted, map_map, map_map, EmitsEach, map_map, map_map]
    refine map_congr_left fun e _ => ?_
    simp [RunObject.finish]

theorem task?_resolved (c : Cluster) (refs : List ChildReference) :
    PipelineRunState.task? [resolved pr pt c refs] pt.name = some (resolved pr pt c refs) := by
  have hname : (resolved pr pt c refs).name = pt.name := by
    rw [ResolvedPipelineTask.name, (resolved_fields pr pt c refs).1]
  simp [PipelineRunState.task?, hname]

theorem not_inMatrixOrder_of_custom (hmatrix : pt.isMatrixed = true)
    (hcustom : pt.customTask = true)
    (hpos : pt.matrix.countCombinations ≠ 0) : ¬ InMatrixOrder pr pt r := by
  intro horder
  have hfinished : Finished pr pt r _ (placesEmitted pr pt r) := placesEmitted_finished hmatrix
  have hvalues : (List.range pt.matrix.countCombinations).map toString ≠ [] := by simpa using hpos
  obtain ⟨runs, hperm, -, -, hresults⟩ := hfinished.exists_runs hmatrix hvalues (.refl _)
  obtain ⟨found, hfound, hne, hall⟩ :=
    horder _ _ _ _ hvalues hfinished (.refl _) (task?_resolved _ _)
  generalize (placesEmitted pr pt r).objects.map (·.childReference) = refs at hperm hfound
  obtain ⟨-, hkind, -⟩ := resolved_fields pr pt (placesEmitted pr pt r) refs
  obtain ⟨ref, rest, rfl⟩ := exists_cons_of_ne_nil hne
  have htype := (hall ref mem_cons_self).1
  unfold resolveRef at hfound
  rw [task?_resolved] at hfound
  dsimp only at hfound
  split at hfound
  · cases hfound
  rw [if_neg (by rw [hkind, hcustom]; simp)] at hfound
  cases hresult : findResult (resolved pr pt _ refs).runs ⟨pt.name, r, none, ""⟩ with
  | error e =>
    rw [hresult] at hfound
    cases hfound
  | ok value =>
    rw [hresult] at hfound
    obtain ⟨rfl, -⟩ := List.cons.inj (Except.ok.inj hfound)
    cases hruns : (resolved pr pt _ refs).runs with
    | nil =>
      rw [hruns] at hresult
      cases hresult
    | cons run others =>
      have hrun : run ∈ runs := hperm.mem_iff.mp (by rw [hruns]; exact mem_cons_self)
      rw [hruns, findResult] at hresult
      cases hlookup : run.results.lookup r with
      | none => simp [hlookup] at hresult
      | some v =>
        have hv : v = value := by simpa [hlookup] using hresult
        have hfilter : (r, v) ∈ run.results.filter fun e => e.1 = r :=
          mem_filter.mpr ⟨Assoc.mem_of_lookup hlookup, by simp⟩
        obtain ⟨text, htext⟩ := hresults.filter_eq hrun
        rw [htext] at hfilter
        have hstring : v = { stringVal := text } := by simpa using hfilter
        rw [← hv, hstring] at htype
        cases htype

theorem ascending_of_inMatrixOrder (hmatrix : pt.isMatrixed = true)
    (hcustom : pt.customTask = false)
    (hpos : pt.matrix.countCombinations ≠ 0) (horder : InMatrixOrder pr pt r) :
    (runNames pr pt).Pairwise (· < ·) ∧ pt.matrix.fanOut.length = pt.matrix.countCombinations := by
  have hfinished : Finished pr pt r _ (placesEmitted pr pt r) := placesEmitted_finished hmatrix
  have hvalues : (List.range pt.matrix.countCombinations).map toString ≠ [] := by simpa using hpos
  obtain ⟨runs, hperm, hnames, hdone, hresults⟩ := hfinished.exists_runs hmatrix hvalues (.refl _)
  obtain ⟨found, hfound, hne, hall⟩ :=
    horder _ _ _ _ hvalues hfinished (.refl _) (task?_resolved _ _)
  obtain ⟨found', hfound', -, hvalue⟩ :=
    resolveRef_finished hmatrix hcustom hvalues (task?_resolved _ _) hperm hnames hdone hresults
  rw [hfound] at hfound'
  obtain rfl := Except.ok.inj hfound'
  obtain ⟨ref, rest, rfl⟩ := exists_cons_of_ne_nil hne
  obtain ⟨-, hlength, hplaces⟩ := hall ref mem_cons_self
  rw [hvalue ref mem_cons_self] at hlength hplaces
  have hcount := length_of_names hnames
  rw [length_map, length_insertionSort, hcount] at hlength
  refine ⟨?_, hlength.symm⟩
  have hmap : (runs.insertionSort fun a b => a.name ≤ b.name).map (emitted r) =
      runs.map (emitted r) := by
    rw [map_emitted hresults]
    refine ext_getElem? fun i => ?_
    by_cases hi : i < pt.matrix.fanOut.length
    · exact hplaces i hi
    · rw [getElem?_eq_none (by simp; omega), getElem?_eq_none (by simp; omega)]
  have hnodup : (runs.map (emitted r)).Nodup := by
    rw [map_emitted hresults]
    exact nodup_range.map fun _ _ => Text.toString_inj
  have hsorted := Sorting.sort_eq_self_iff.mp
    (Sorting.eq_of_map_eq (perm_insertionSort _ runs) hnodup hmap)
  have hascend : (runs.map (·.name)).Pairwise (· ≤ ·) := pairwise_map.mpr hsorted
  have hdistinct := nodup_getNewRunNames pr pt.name pt.matrix.countCombinations
  rw [hnames] at hascend
  exact (hascend.and hdistinct).imp fun h => lt_of_le_of_ne h.1 h.2

/-- The values come in the order of the combinations exactly if the names of the runs do, and
if as many runs are counted as there are combinations; the results of custom tasks are not
collected. Names that are not shortened are in order up to ten runs. -/
theorem inMatrixOrder_iff (hmatrix : pt.isMatrixed = true) :
    (InMatrixOrder pr pt r ↔ pt.matrix.countCombinations = 0 ∨
      pt.customTask = false ∧ (runNames pr pt).Pairwise (· < ·) ∧
        pt.matrix.fanOut.length = pt.matrix.countCombinations) ∧ ∀ d, pr.childName = childName d →
      pr.name.length + pt.name.length +
        (toString (pt.matrix.countCombinations - 1)).length + 2 ≤ 63 →
      ((runNames pr pt).Pairwise (· < ·) ↔ pt.matrix.countCombinations ≤ 10) := by
  refine ⟨?_, fun d hchild hfits => pairwise_runNames pt hchild hfits⟩
  constructor
  · intro horder
    by_cases hpos : pt.matrix.countCombinations = 0
    · exact .inl hpos
    · cases hcustom : pt.customTask with
      | true => exact absurd horder (not_inMatrixOrder_of_custom hmatrix hcustom hpos)
      | false => exact .inr ⟨rfl, ascending_of_inMatrixOrder hmatrix hcustom hpos horder⟩
  · intro h
    cases h with
    | inl hzero =>
      intro values c refs s hne hfinished hrefs hs
      obtain ⟨runs, -, hnames, -, hresults⟩ := hfinished.exists_runs hmatrix hne hrefs
      have hlength : values.length = 0 := by
        rw [hresults.length_eq, length_of_names hnames, hzero]
      exact absurd (length_eq_zero_iff.mp hlength) hne
    | inr h => exact inMatrixOrder_of_ascending hmatrix h.1 h.2.1 h.2.2

end

theorem platforms_inMatrixOrder :
    platforms.isMatrixed = true ∧ InMatrixOrder (namedRun "release") platforms "digest" := by
  have hmatrix : platforms.isMatrixed = true := by decide
  refine ⟨hmatrix, (inMatrixOrder_iff hmatrix).1.mpr (.inr ⟨rfl, ?_, by decide +kernel⟩)⟩
  exact ((inMatrixOrder_iff (r := "digest") hmatrix).2 sumDigest rfl (by decide +kernel)).mpr
    (by decide +kernel)

/-- A task with eleven combinations. -/
def sites : PipelineTask :=
  { name := "sites"
    matrix :=
      { params :=
          [⟨"site", { type := .array
                      arrayVal := ["a", "b", "c", "d", "e", "f", "g", "h", "i", "j", "k"] }⟩] } }

/-- What the eleventh run has emitted comes third. -/
theorem sites_out_of_order :
    (resolveRef
      [resolved (namedRun "release") sites (placesEmitted (namedRun "release") sites "digest")
        ((placesEmitted (namedRun "release") sites "digest").objects.map (·.childReference))]
      ⟨"sites", "digest", none, ""⟩).2.toOption.bind
        (fun found => found.head?.map (·.value.arrayVal)) =
      some ["0", "1", "10", "2", "3", "4", "5", "6", "7", "8", "9"] ∧
    ¬ InMatrixOrder (namedRun "release") sites "digest" := by
  refine ⟨by decide +kernel, fun horder => ?_⟩
  have hascend := (ascending_of_inMatrixOrder (by decide) rfl (by decide +kernel) horder).1
  have hfew := (pairwise_runNames sites rfl (by decide +kernel)).mp hascend
  revert hfew
  decide +kernel

end TektonPipeline.Pipeline
