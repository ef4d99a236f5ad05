import TektonPipeline.Pod.Build

/-! Who can write the run directory of a step, on which the order of the steps rests. -/

namespace TektonPipeline.PodBuild
open Tasks (VolumeMount Container Step Sidecar TaskSpec)
open PodStatus (stepName)
open List

def runPrefix : String := "tekton-internal-run-"

/-- Mounts that may write the run directory of step `i`. -/
def WritesRun (mounts : List VolumeMount) (i : Nat) : Prop :=
  ∃ vm ∈ mounts, vm.name = runVolumeName i ∧ vm.readOnly = false

/-- Only the container of step `i` may write the run directory of the step. -/
structure Pod.OnlyStepWrites (pod : Pod) (i : Nat) : Prop where
  step : ∃ c, pod.containers[i]? = some c ∧ WritesRun c.volumeMounts i
  others : ∀ j c, j ≠ i → pod.containers[j]? = some c → ¬ WritesRun c.volumeMounts i
  init : ∀ c ∈ pod.initContainers, ¬ WritesRun c.volumeMounts i

theorem hasPrefix_append (p s : String) : hasPrefix (p ++ s) p = true := by
  simp [hasPrefix]

variable {p : String}

theorem hasPrefix_append_of_le {s : String} (t : String)
    (hlen : p.toList.length ≤ s.toList.length) :
    hasPrefix (s ++ t) p = hasPrefix s p := by
  rw [Bool.eq_iff_iff]
  simp only [hasPrefix, isPrefixOf_iff_prefix, String.toList_append]
  exact ⟨fun h => prefix_of_prefix_length_le h (prefix_append _ _) hlen,
    fun h => h.trans (prefix_append _ _)⟩

variable {i j : Nat}

theorem runVolumeName_inj (h : runVolumeName i = runVolumeName j) : i = j :=
  Text.toString_inj ((String.append_right_inj _).mp h)

/-- The name of a mount is not that of a run directory. -/
def Elsewhere (vm : VolumeMount) : Prop := hasPrefix vm.name runPrefix = false

theorem Elsewhere.ne {vm : VolumeMount} (h : Elsewhere vm) (i : Nat) :
    vm.name ≠ runVolumeName i := by
  intro heq
  have hpre : hasPrefix vm.name runPrefix = true := by
    rw [heq]
    exact hasPrefix_append _ _
  unfold Elsewhere at h
  rw [h] at hpre
  cases hpre

theorem elsewhere_of_append {vm : VolumeMount} {t : String} (hname : vm.name = p ++ t)
    (hlen : runPrefix.toList.length ≤ p.toList.length) (hp : hasPrefix p runPrefix = false) :
    Elsewhere vm := by
  rw [Elsewhere, hname, hasPrefix_append_of_le t hlen, hp]

theorem elsewhere_implicit : ∀ vm ∈ binROMount :: implicitVolumeMounts, Elsewhere vm := by
  unfold Elsewhere
  decide

theorem elsewhere_credential (c : Credential) : Elsewhere c.volumeMount := by
  have hname : c.volumeMount.name = "tekton-internal-secret-volume-" ++
      (String.ofList ((sanitizedName c.secret).take 27) ++ "-" ++ c.suffix) := by
    apply String.toList_inj.mp
    simp [Credential.volumeMount]
  exact elsewhere_of_append hname (by decide) (by decide)

theorem elsewhere_credsInit (i : Nat) : Elsewhere (credsInitVolumeMount i) :=
  elsewhere_of_append rfl (by decide) (by decide)

theorem elsewhere_implicitMounts (creds : List Credential) :
    ∀ vm ∈ implicitMounts creds, Elsewhere vm := by
  intro vm hvm
  rcases mem_append.mp hvm with himplicit | hcreds
  · exact elsewhere_implicit vm himplicit
  · obtain ⟨c, -, rfl⟩ := mem_map.mp hcreds
    exact elsewhere_credential c

variable {s : Step}

theorem elsewhere_stepMounts (b : BuildContext) (ts : TaskSpec) (i : Nat)
    (hown : ∀ vm ∈ s.volumeMounts, Elsewhere vm) : ∀ vm ∈ stepMounts b ts i s, Elsewhere vm := by
  intro vm hvm
  have hfixed : Elsewhere scriptsVolumeMount ∧ Elsewhere debugScriptsVolumeMount ∧
      Elsewhere downwardMount := by
    unfold Elsewhere
    decide
  have hinfo : Elsewhere (debugInfoVolumeMount i) := by
    have hsame : (debugInfoVolumeMount i).name = (debugInfoVolumeMount 0).name := rfl
    rw [Elsewhere, hsame]
    decide
  unfold stepMounts at hvm
  simp only [mem_append] at hvm
  rcases hvm with (((hmem | hscript) | hdebug) | hdown) | hcreds
  · exact hown vm hmem
  · split at hscript
    · rw [mem_singleton.mp hscript]
      exact hfixed.1
    · cases hscript
  · split at hdebug
    · rcases mem_pair.mp hdebug with rfl | rfl
      · exact hfixed.2.1
      · exact hinfo
    · cases hdebug
  · split at hdown
    · rw [mem_singleton.mp hdown]
      exact hfixed.2.2
    · cases hdown
  · split at hcreds
    · cases hcreds
    · rw [mem_singleton.mp hcreds]
      exact elsewhere_credsInit i

theorem writesRun_append {l l' : List VolumeMount} :
    WritesRun (l ++ l') i ↔ WritesRun l i ∨ WritesRun l' i := by
  simp only [WritesRun, mem_append]
  constructor
  · rintro ⟨vm, hl | hl', h⟩
    · exact .inl ⟨vm, hl, h⟩
    · exact .inr ⟨vm, hl', h⟩
  · rintro (⟨vm, hl, h⟩ | ⟨vm, hl', h⟩)
    · exact ⟨vm, .inl hl, h⟩
    · exact ⟨vm, .inr hl', h⟩

theorem not_writesRun {l : List VolumeMount} (hl : ∀ vm ∈ l, Elsewhere vm) (i : Nat) :
    ¬ WritesRun l i := by
  rintro ⟨vm, hvm, hname, -⟩
  exact (hl vm hvm).ne i hname

variable {b : BuildContext} {creds : List Credential}

theorem writesRun_addImplicit {mounts : List VolumeMount} :
    WritesRun (b.addImplicit creds mounts) i ↔ WritesRun mounts i := by
  rw [BuildContext.addImplicit, writesRun_append, or_iff_left]
  exact not_writesRun (fun vm hvm => elsewhere_implicitMounts creds vm (mem_of_mem_filter hvm)) i

theorem writesRun_runMounts {n : Nat} (hj : j < n) : WritesRun (runMounts n i) j ↔ i = j := by
  constructor
  · rintro ⟨vm, hvm, hname, hro⟩
    obtain ⟨k, -, rfl⟩ := mem_map.mp hvm
    have hk := runVolumeName_inj hname
    have hik : i = k := by simpa [runMount] using hro
    omega
  · rintro rfl
    exact ⟨runMount i false, mem_map.mpr ⟨i, mem_range.mpr hj, by simp⟩, rfl, rfl⟩

theorem writesRun_readOnly (n i : Nat) :
    ¬ WritesRun ((List.range n).map fun j => runMount j true) i := by
  rintro ⟨vm, hvm, -, hro⟩
  obtain ⟨k, -, rfl⟩ := mem_map.mp hvm
  cases hro

theorem not_writesRun_spire (b : BuildContext) (i : Nat) :
    ¬ WritesRun (if b.spireEnabled then [spireMount] else []) i := by
  refine not_writesRun (fun vm hvm => ?_) i
  split at hvm
  · rw [mem_singleton.mp hvm, Elsewhere]
    decide
  · cases hvm

variable {ts : TaskSpec}

theorem stepContainer_writes (hown : ∀ vm ∈ s.volumeMounts, Elsewhere vm)
    (hj : j < ts.steps.length) :
    WritesRun (stepContainer b creds ts i s).volumeMounts j ↔ i = j := by
  unfold stepContainer
  dsimp only
  rw [writesRun_append, or_iff_left (not_writesRun_spire b j), writesRun_addImplicit,
    writesRun_append, or_iff_right (not_writesRun (elsewhere_stepMounts b ts i hown) j),
    writesRun_runMounts hj]

theorem sidecarContainer_writes {s : Sidecar} :
    WritesRun (sidecarContainer b creds ts s).volumeMounts j ↔ WritesRun s.volumeMounts j := by
  have hscript : ¬ WritesRun (if s.script ≠ "" then [scriptsVolumeMount] else []) j := by
    refine not_writesRun (fun vm hvm => ?_) j
    split at hvm
    · rw [mem_singleton.mp hvm, Elsewhere]
      decide
    · cases hvm
  unfold sidecarContainer sidecarMounts
  dsimp only
  split
  · rw [writesRun_addImplicit, writesRun_append, writesRun_append, or_iff_left hscript,
      or_iff_left (writesRun_readOnly _ _)]
  · rw [writesRun_append, or_iff_left hscript]

theorem validateStepsFrom_eq_nil {names : List String} {steps : List Step}
    (h : validateStepsFrom i names steps = []) (hs : s ∈ steps) :
    ∃ names, validateStep names s = [] := by
  induction steps generalizing i names with
  | nil => cases hs
  | cons s' steps ih =>
    rw [validateStepsFrom, append_eq_nil_iff, map_eq_nil_iff] at h
    rcases mem_cons.mp hs with rfl | hrest
    · exact ⟨names, h.1⟩
    · exact ih h.2 hrest

theorem elsewhere_of_validate (h : validate ts = []) (hs : s ∈ ts.steps) :
    ∀ vm ∈ s.volumeMounts, Elsewhere vm := by
  intro vm hvm
  simp only [validate, append_eq_nil_iff, map_eq_nil_iff] at h
  obtain ⟨names, hstep⟩ := validateStepsFrom_eq_nil h.1.2 hs
  simp only [validateStep, append_eq_nil_iff, flatten_eq_nil_iff] at hstep
  obtain ⟨j, hj, rfl⟩ := mem_iff_getElem.mp hvm
  have hmount := hstep.2 _ (mem_mapIdx.mpr ⟨j, hj, rfl⟩)
  rw [map_eq_nil_iff, validateVolumeMount, append_eq_nil_iff] at hmount
  have hinternal : hasPrefix s.volumeMounts[j].name tektonInternal = false := by
    by_contra hnot
    simp [hnot] at hmount
  rw [Elsewhere, Bool.eq_false_iff]
  intro hrun
  rw [Bool.eq_false_iff] at hinternal
  apply hinternal
  simp only [hasPrefix, isPrefixOf_iff_prefix] at hrun ⊢
  exact List.IsPrefix.trans (by decide) hrun

theorem not_writesRun_ownInit (b : BuildContext) (ts : TaskSpec) (i : Nat) :
    ∀ c ∈ ownInitContainers b ts, ¬ WritesRun c.volumeMounts i := by
  have hfixed : Elsewhere binMount ∧ Elsewhere internalStepsMount ∧
      Elsewhere writeScriptsVolumeMount ∧ Elsewhere debugScriptsVolumeMount := by
    unfold Elsewhere
    decide
  have hplaced : ∀ c ∈ (placeScriptsInit b ts).toList, ∀ vm ∈ c.volumeMounts, Elsewhere vm := by
    intro c hc vm hvm
    unfold placeScriptsInit at hc
    split at hc
    · rw [Option.toList_some, mem_singleton] at hc
      subst hc
      rcases mem_append.mp hvm with hpair | hdebug
      · rcases mem_pair.mp hpair with rfl | rfl
        · exact hfixed.2.2.1
        · exact hfixed.1
      · split at hdebug
        · rw [mem_singleton.mp hdebug]
          exact hfixed.2.2.2
        · cases hdebug
    · cases hc
  have hdirs : ∀ c ∈ (workingDirInit b ts).toList, ∀ vm ∈ c.volumeMounts, Elsewhere vm := by
    intro c hc vm hvm
    unfold workingDirInit at hc
    dsimp only at hc
    split at hc
    · rw [Option.toList_some, mem_singleton] at hc
      subst hc
      exact elsewhere_implicit vm (mem_cons_of_mem _ hvm)
    · cases hc
  intro c hc
  obtain ⟨c', hc', rfl⟩ := mem_map.mp hc
  dsimp only
  rw [writesRun_append, or_iff_left (not_writesRun_spire b i)]
  refine not_writesRun (fun vm hvm => ?_) i
  rcases mem_append.mp hc' with hfirst | hdir
  · rcases mem_cons.mp hfirst with rfl | hscripts
    · rcases mem_pair.mp hvm with rfl | rfl
      · exact hfixed.1
      · exact hfixed.2.1
    · exact hplaced c' hscripts vm hvm
  · exact hdirs c' hdir vm hvm

theorem build_containers {pod : Pod} (h : build b ts = .ok pod) : ∃ creds,
      pod.containers = ts.steps.mapIdx (stepContainer b creds ts) ++
        (if b.nativeSidecars then [] else (allSidecars b ts).map (sidecarContainer b creds ts)) ∧
      pod.initContainers = ownInitContainers b ts ++
        if b.nativeSidecars then (allSidecars b ts).map (sidecarContainer b creds ts) else [] := by
  unfold build at h
  split at h
  · cases h
  · rename_i creds _
    split at h
    · cases h
    · dsimp only at h
      split at h
      · cases h
      · obtain rfl := Except.ok.inj h
        exact ⟨creds, rfl, rfl⟩

theorem allSidecars_write : (∃ sc ∈ allSidecars b ts, WritesRun sc.volumeMounts i) ↔
      ∃ sc ∈ ts.sidecars, WritesRun sc.volumeMounts i := by
  unfold allSidecars
  split
  · constructor
    · rintro ⟨sc, hsc, hwrites⟩
      rcases mem_append.mp hsc with hown | hresults
      · exact ⟨sc, hown, hwrites⟩
      · rw [mem_singleton.mp hresults] at hwrites
        obtain ⟨vm, hvm, -⟩ := hwrites
        cases hvm
    · rintro ⟨sc, hsc, hwrites⟩
      exact ⟨sc, mem_append_left _ hsc, hwrites⟩
  · rfl

theorem onlyStepWrites_iff {pod : Pod} (hvalid : validate ts = []) (hbuild : build b ts = .ok pod)
    (hi : i < ts.steps.length) :
    pod.OnlyStepWrites i ↔ ¬ ∃ sc ∈ ts.sidecars, WritesRun sc.volumeMounts i := by
  obtain ⟨creds, hcontainers, hinit⟩ := build_containers hbuild
  have hsteps : ∀ j (hj : j < ts.steps.length),
      WritesRun (stepContainer b creds ts j ts.steps[j]).volumeMounts i ↔ j = i := fun j hj =>
    stepContainer_writes (elsewhere_of_validate hvalid (getElem_mem hj)) hi
  have hsidecars : (∃ c ∈ (allSidecars b ts).map (sidecarContainer b creds ts),
      WritesRun c.volumeMounts i) ↔ ∃ sc ∈ ts.sidecars, WritesRun sc.volumeMounts i := by
    rw [← allSidecars_write (b := b)]
    simp [sidecarContainer_writes]
  rw [← hsidecars]
  constructor
  · rintro ⟨-, hothers, hinits⟩ ⟨c, hc, hwrites⟩
    by_cases hnative : b.nativeSidecars = true
    · exact hinits c (by rw [hinit, if_pos hnative]; exact mem_append_right _ hc) hwrites
    · obtain ⟨k, hk, rfl⟩ := mem_iff_getElem.mp hc
      refine hothers (ts.steps.length + k) _ (by omega) ?_ hwrites
      rw [hcontainers, if_neg hnative, getElem?_append_right (by simp), length_mapIdx,
        Nat.add_sub_cancel_left, getElem?_eq_getElem hk]
  · intro hnone
    refine ⟨?_, fun j c hne hc hwrites => ?_, fun c hc hwrites => ?_⟩
    · refine ⟨stepContainer b creds ts i ts.steps[i], ?_, (hsteps i hi).mpr rfl⟩
      rw [hcontainers, getElem?_append_left (by simpa using hi)]
      simp [hi]
    · rw [hcontainers] at hc
      by_cases hj : j < ts.steps.length
      · rw [getElem?_append_left (by simpa using hj), getElem?_mapIdx, getElem?_eq_getElem hj] at hc
        obtain rfl := Option.some.inj hc
        exact hne ((hsteps j hj).mp hwrites)
      · rw [getElem?_append_right (by simpa using hj)] at hc
        split at hc
        · simp at hc
        · exact hnone ⟨c, mem_of_getElem? hc, hwrites⟩
    · rw [hinit] at hc
      rcases mem_append.mp hc with hown | hnative
      · exact not_writesRun_ownInit b ts i c hown hwrites
      · split at hnative
        · exact hnone ⟨c, hnative, hwrites⟩
        · cases hnative

/-- In the pods that are built of an accepted task each run directory is written by its step
alone exactly when no sidecar mounts one of them without `readOnly`. -/
theorem run_directories_owned_iff (b : BuildContext) (ts : TaskSpec) (pod : Pod)
    (hvalid : validate ts = []) (hbuild : build b ts = .ok pod) :
    (∀ i < ts.steps.length, pod.OnlyStepWrites i) ↔
      ∀ sc ∈ ts.sidecars, ∀ vm ∈ sc.volumeMounts, ∀ i < ts.steps.length,
        vm.name = runVolumeName i → vm.readOnly = true := by
  constructor
  · intro hall sc hsc vm hvm i hi hname
    by_contra hro
    exact (onlyStepWrites_iff hvalid hbuild hi).mp (hall i hi)
      ⟨sc, hsc, vm, hvm, hname, by simpa using hro⟩
  · intro hsidecars i hi
    rw [onlyStepWrites_iff hvalid hbuild hi]
    rintro ⟨sc, hsc, vm, hvm, hname, hro⟩
    rw [hsidecars sc hsc vm hvm i hi hname] at hro
    cases hro

def plainContext : BuildContext := { clean := id }

def watchedTask (readOnly : Bool) : TaskSpec where
  steps := [{ name := "build", image := "golang" }]
  sidecars :=
    [{ name := "watch", image := "busybox"
       volumeMounts := [{ name := "tekton-internal-run-0", mountPath := "/run0",
                          readOnly := readOnly }] }]

theorem watchedTask_owned : ∃ pod, build plainContext (watchedTask true) = .ok pod ∧
    ∀ i < (watchedTask true).steps.length, pod.OnlyStepWrites i :=
  ⟨_, rfl, (run_directories_owned_iff plainContext (watchedTask true) _ (by decide) rfl).mpr
    (by decide)⟩

/-- The task is accepted, and the sidecar can write the run directory of the step. -/
theorem watchedTask_shared : validate (watchedTask false) = [] ∧
    ∃ pod c, build plainContext (watchedTask false) = .ok pod ∧ pod.containers[1]? = some c ∧
      c.name = "sidecar-watch" ∧ WritesRun c.volumeMounts 0 :=
  ⟨by decide, _, _, rfl, rfl, by decide, _, mem_cons_self, by decide, rfl⟩

end TektonPipeline.PodBuild
