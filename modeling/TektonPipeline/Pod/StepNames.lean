import TektonPipeline.Pod.RunDirectories

/-! The names of a step: of its container, of the directories that are made for it, and those
under which its results and artifacts are looked up. -/

namespace TektonPipeline.PodBuild
open List
open Tasks (Container Step TaskSpec)
open PodStatus (getContainerName stepName artifactPathReferencedInStep)

def Pod.initNames (pod : Pod) : List String :=
  (pod.initContainers.head?.map fun c => c.command.drop 4).getD []

/-- The containers of the steps have names of their own that fit, and these are the names that
everything else goes by. -/
structure Pod.StepIdentity (ts : TaskSpec) (pod : Pod) : Prop where
  distinct : ((pod.containers.take ts.steps.length).map (·.name)).Nodup
  short : ∀ c ∈ pod.containers.take ts.steps.length, c.name.length ≤ maxNameLength
  directories : (pod.containers.take ts.steps.length).map (·.name) = pod.initNames
  -- what the results sidecar looks for
  results : ∀ (i : Nat) (s : Step) (c : Container), ts.steps[i]? = some s →
    pod.containers[i]? = some c → s.results ≠ [] →
    (sidecarArguments ts).stepResults.lookup c.name = some (s.results.map (·.name))
  artifacts : ∀ (i : Nat) (s : Step) (c : Container), ts.steps[i]? = some s →
    pod.containers[i]? = some c → artifactPathReferencedInStep s = true →
    c.name ∈ (sidecarArguments ts).artifactProducerSteps
  -- the steps that are found for the status of a container, whose state is then built
  status : ∀ (i : Nat) (s : Step) (c : Container), ts.steps[i]? = some s →
    pod.containers[i]? = some c →
    (ts.steps.filter fun step => getContainerName step.name = c.name) = [s]

theorem length_restrictLength (base : String) : (restrictLength base).length ≤ maxNameLength := by
  have hdrop := length_dropWhile_le (!isAlphaNumeric ·) (base.toList.take maxNameLength).reverse
  simp only [restrictLength, String.length_ofList, length_reverse, length_take] at hdrop ⊢
  omega

theorem restrictLength_of_le {base : String} (hlen : base.length ≤ maxNameLength) {c : Char}
    (hlast : base.toList.getLast? = some c) (hc : isAlphaNumeric c = true) :
    restrictLength base = base := by
  have htake : base.toList.take maxNameLength = base.toList :=
    take_of_length_le (by rw [String.length_toList]; exact hlen)
  have hdrop : base.toList.reverse.dropWhile (!isAlphaNumeric ·) = base.toList.reverse := by
    rw [← head?_reverse] at hlast
    cases hrev : base.toList.reverse with
    | nil => rfl
    | cons d rest =>
      rw [hrev, head?_cons, Option.some.injEq] at hlast
      subst hlast
      simp [hc]
  apply String.toList_inj.mp
  rw [restrictLength, htake, hdrop, String.toList_ofList, reverse_reverse]

theorem restrictLength_ne (base : String) : restrictLength base ≠ "step-" := by
  intro h
  have hlist := congrArg (fun s => s.toList.reverse.head?) h
  simp only [restrictLength, String.toList_ofList, reverse_reverse] at hlist
  have hhead := head?_dropWhile_not (!isAlphaNumeric ·) (base.toList.take maxNameLength).reverse
  rw [hlist] at hhead
  change (!isAlphaNumeric '-') = false at hhead
  revert hhead
  decide

theorem isAlphaNumeric_of_lower {c : Char} (h : isLowerAlphaNumeric c = true) :
    isAlphaNumeric c = true := by
  simp [isAlphaNumeric, h]

theorem validateStepsFrom_names {i : Nat} {names : List String} {steps : List Step}
    (h : validateStepsFrom i names steps = []) (hnamed : ∀ s ∈ steps, s.name ≠ "") :
    (steps.map (·.name)).Nodup ∧ ∀ s ∈ steps, s.name ∉ names ∧ isDNS1123Label s.name = true := by
  induction steps generalizing i names with
  | nil => simp
  | cons s steps ih =>
    have hname := hnamed s mem_cons_self
    rw [validateStepsFrom, append_eq_nil_iff, map_eq_nil_iff, if_neg hname] at h
    obtain ⟨hrest, hfresh⟩ := ih h.2 fun s' hs' => hnamed s' (mem_cons_of_mem _ hs')
    have hstep : s.name ∉ names ∧ isDNS1123Label s.name = true := by
      have hcheck := h.1
      simp only [validateStep, validateStepName, if_neg hname, append_eq_nil_iff] at hcheck
      obtain ⟨⟨-, hnot, hlabel⟩, -⟩ := hcheck
      refine ⟨fun hmem => by simp [hmem] at hnot, ?_⟩
      by_contra hno
      simp [hno] at hlabel
    refine ⟨?_, ?_⟩
    · rw [map_cons, nodup_cons]
      refine ⟨fun hmem => ?_, hrest⟩
      obtain ⟨s', hs', heq⟩ := mem_map.mp hmem
      exact (hfresh s' hs').1 (mem_append_right _ (mem_singleton.mpr heq))
    · intro s' hs'
      rcases mem_cons.mp hs' with rfl | hs'
      · exact hstep
      · exact ⟨fun hmem => (hfresh s' hs').1 (mem_append_left _ hmem), (hfresh s' hs').2⟩

theorem getContainerName_inj {n n' : String} (h : getContainerName n = getContainerName n') :
    n = n' := (String.append_right_inj _).mp h

theorem restrictLength_getContainerName {name : String} (hlabel : isDNS1123Label name = true)
    (hlen : name.length ≤ 58) : restrictLength (getContainerName name) = getContainerName name := by
  simp only [isDNS1123Label, Bool.and_eq_true, Option.any_eq_true] at hlabel
  obtain ⟨-, c, hlast, hc⟩ := hlabel
  refine restrictLength_of_le ?_ (c := c) ?_ (isAlphaNumeric_of_lower hc)
  · have hfive : "step-".length = 5 := by decide
    simp only [getContainerName, String.length_append, hfive, maxNameLength]
    omega
  · rw [getContainerName, String.toList_append, getLast?_append, hlast, Option.some_or]

/-- Names that are not cut, for every step. -/
structure Kept (ts : TaskSpec) : Prop where
  nodup : (ts.steps.map (·.name)).Nodup
  stepName : ∀ s ∈ ts.steps, ∀ i, stepName s.name i = getContainerName s.name
  restricted : ∀ s ∈ ts.steps, restrictLength (getContainerName s.name) = getContainerName s.name

theorem kept_of_short {ts : TaskSpec} (hvalid : validate ts = [])
    (hshort : ∀ s ∈ ts.steps, s.name ≠ "" ∧ s.name.length ≤ 58) : Kept ts := by
  simp only [validate, append_eq_nil_iff, map_eq_nil_iff] at hvalid
  obtain ⟨hnodup, hnames⟩ := validateStepsFrom_names hvalid.1.2 fun s hs => (hshort s hs).1
  exact ⟨hnodup, fun s hs i => by simp [PodStatus.stepName, (hshort s hs).1],
    fun s hs => restrictLength_getContainerName (hnames s hs).2 (hshort s hs).2⟩

theorem map_mapIdx_steps {α : Type} {ts : TaskSpec} {f : Nat → Step → α} {name : α → String}
    (hf : ∀ i, ∀ s ∈ ts.steps, name (f i s) = getContainerName s.name) :
    (ts.steps.mapIdx f).map name = ts.steps.map fun s => getContainerName s.name := by
  apply ext_getElem?
  intro i
  rw [getElem?_map, getElem?_mapIdx, getElem?_map]
  cases hs : ts.steps[i]? with
  | none => rfl
  | some s => simp [hf i s (mem_of_getElem? hs)]

theorem Kept.stepResults {ts : TaskSpec} (h : Kept ts) {s : Step} (hs : s ∈ ts.steps)
    (hresults : s.results ≠ []) :
    (sidecarArguments ts).stepResults.lookup (getContainerName s.name) =
      some (s.results.map (·.name)) := by
  have hzip : ∀ e ∈ ts.steps.zipIdx, e.1 ∈ ts.steps := fun e he =>
    mem_of_getElem? (mem_zipIdx_iff_getElem?.mp he)
  refine Assoc.lookup_ofWrites_of_mem ?_ ?_
  · have hkeys : ((ts.steps.zipIdx.filter fun e => e.1.results ≠ []).map fun e =>
        (PodStatus.stepName e.1.name e.2, e.1.results.map (·.name))).map (·.1) =
        (ts.steps.zipIdx.filter fun e => e.1.results ≠ []).map fun e =>
          getContainerName e.1.name := by
      rw [map_map]
      exact map_congr_left fun e he =>
        h.stepName e.1 (hzip e (mem_of_mem_filter he)) e.2
    rw [hkeys]
    refine List.Nodup.sublist (filter_sublist.map _) ?_
    have hall : (ts.steps.zipIdx.map fun e => getContainerName e.1.name) =
        (ts.steps.map (·.name)).map getContainerName := by
      nth_rewrite 2 [← zipIdx_map_fst 0 ts.steps]
      rw [map_map, map_map]
      rfl
    rw [hall]
    exact h.nodup.map fun _ _ => getContainerName_inj
  · obtain ⟨i, hi⟩ := mem_iff_getElem?.mp hs
    refine mem_map.mpr ⟨(s, i), mem_filter.mpr ⟨mem_zipIdx_iff_getElem?.mpr hi, ?_⟩, ?_⟩
    · simpa using hresults
    · rw [h.stepName s hs i]

theorem Kept.filter {ts : TaskSpec} (h : Kept ts) {s : Step} (hs : s ∈ ts.steps) :
    (ts.steps.filter fun step => getContainerName step.name = getContainerName s.name) = [s] := by
  apply perm_singleton.mp
  rw [perm_ext_iff_of_nodup (h.nodup.of_map.filter _) (nodup_singleton s)]
  intro s'
  simp only [mem_filter, decide_eq_true_eq, mem_singleton]
  constructor
  · rintro ⟨hs', hname⟩
    exact inj_on_of_nodup_map h.nodup hs' hs (getContainerName_inj hname)
  · rintro rfl
    exact ⟨hs, rfl⟩

/-- The names agree exactly where every step has a name that is not cut. -/
theorem stepIdentity_iff (b : BuildContext) (ts : TaskSpec) (pod : Pod) (hvalid : validate ts = [])
    (hbuild : build b ts = .ok pod) :
    pod.StepIdentity ts ↔ ∀ s ∈ ts.steps, s.name ≠ "" ∧ s.name.length ≤ 58 := by
  obtain ⟨creds, hcontainers, hinit⟩ := build_containers hbuild
  have hat : ∀ (i : Nat) (s : Step), ts.steps[i]? = some s →
      pod.containers[i]? = some (stepContainer b creds ts i s) := by
    intro i s hs
    have hi := (List.getElem?_eq_some_iff.mp hs).1
    rw [hcontainers, getElem?_append_left (by simpa using hi), getElem?_mapIdx, hs]
    rfl
  constructor
  · intro hid s hs
    obtain ⟨i, hi⟩ := mem_iff_getElem?.mp hs
    have hfound := hid.status i s _ hi (hat i s hi)
    have hself : getContainerName s.name = restrictLength (stepName s.name i) := by
      have hmem : s ∈ ts.steps.filter fun step =>
          getContainerName step.name = (stepContainer b creds ts i s).name := by
        rw [hfound]
        exact mem_singleton.mpr rfl
      exact of_decide_eq_true (mem_filter.mp hmem).2
    refine ⟨?_, ?_⟩
    · intro hempty
      rw [hempty] at hself
      exact restrictLength_ne _ hself.symm
    · have hlen := length_restrictLength (stepName s.name i)
      have hfive : "step-".length = 5 := by decide
      rw [← hself, getContainerName, String.length_append, hfive, maxNameLength] at hlen
      omega
  · intro hshort
    have hkept := kept_of_short hvalid hshort
    have hname : ∀ i, ∀ s ∈ ts.steps,
        (stepContainer b creds ts i s).name = getContainerName s.name := by
      intro i s hs
      rw [stepContainer, hkept.stepName s hs i, hkept.restricted s hs]
    have htake :
        pod.containers.take ts.steps.length = ts.steps.mapIdx (stepContainer b creds ts) := by
      rw [hcontainers, take_left' (by simp)]
    have hnames : (pod.containers.take ts.steps.length).map (·.name) =
        ts.steps.map fun s => getContainerName s.name := by
      rw [htake, map_mapIdx_steps hname]
    have hcname : ∀ (i : Nat) (s : Step) (c : Container), ts.steps[i]? = some s →
        pod.containers[i]? = some c → c.name = getContainerName s.name := by
      intro i s c hs hc
      rw [hat i s hs, Option.some.injEq] at hc
      rw [← hc, hname i s (mem_of_getElem? hs)]
    refine ⟨?_, ?_, ?_, ?_, ?_, ?_⟩
    · rw [hnames, ← Function.comp_def, ← map_map]
      exact hkept.nodup.map fun _ _ => getContainerName_inj
    · intro c hc
      rw [htake] at hc
      obtain ⟨i, hi, rfl⟩ := mem_mapIdx.mp hc
      exact length_restrictLength _
    · have hinits : (ts.steps.mapIdx fun i s => stepName s.name i).map id =
          ts.steps.map fun s => getContainerName s.name :=
        map_mapIdx_steps fun i s hs => hkept.stepName s hs i
      rw [hnames, ← hinits, map_id, Pod.initNames, hinit]
      rfl
    · intro i s c hs hc hresults
      rw [hcname i s c hs hc]
      exact hkept.stepResults (mem_of_getElem? hs) hresults
    · intro i s c hs hc hreferenced
      rw [hcname i s c hs hc]
      exact mem_map.mpr
        ⟨s, mem_filter.mpr ⟨mem_of_getElem? hs, hreferenced⟩, rfl⟩
    · intro i s c hs hc
      rw [hcname i s c hs hc]
      exact hkept.filter (mem_of_getElem? hs)

def namedSteps (first second : String) : TaskSpec where
  steps := [{ name := first, image := "golang" }, { name := second, image := "golang" }]

theorem namedSteps_identity : ∃ pod, build plainContext (namedSteps "build" "test") = .ok pod ∧
    pod.StepIdentity (namedSteps "build" "test") :=
  ⟨_, rfl, (stepIdentity_iff plainContext (namedSteps "build" "test") _ (by decide) rfl).mpr
    (by decide)⟩

/-- Two names of 59 characters that differ in the last. -/
def longName (last : String) : String :=
  "collect-the-coverage-of-all-integration-tests-for-platform" ++ last

/-- The task is accepted, its containers have the same name, and the directories that are made
for its steps have others. -/
theorem longNames_not_identity : validate (namedSteps (longName "1") (longName "2")) = [] ∧
      ∃ pod, build plainContext (namedSteps (longName "1") (longName "2")) = .ok pod ∧
        pod.containers.map (·.name) = ["step-" ++ longName "", "step-" ++ longName ""] ∧
        pod.initNames = ["step-" ++ longName "1", "step-" ++ longName "2"] ∧
        ¬ pod.StepIdentity (namedSteps (longName "1") (longName "2")) :=
  ⟨by decide +kernel, _, rfl, by decide +kernel, by decide +kernel, fun h =>
    absurd h.distinct (by decide +kernel)⟩

end TektonPipeline.PodBuild
