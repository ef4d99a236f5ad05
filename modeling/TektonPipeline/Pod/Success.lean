import TektonPipeline.Pod.Crash

/-! What a TaskRun that has succeeded says about the steps of its pod. -/

namespace TektonPipeline.PodStatus
open Tasks (TaskSpec)
open List
open TaskRunReconciler (hasStatus isContainerStep reservedResultsSidecar isUnknown)

/-- Terminated with exit code 0 and not killed out of memory. -/
def ContainerStatus.succeeded (s : ContainerStatus) : Bool :=
  s.state.terminated.any fun t => t.exitCode = 0 && !isOOMKilled t

variable {s : ContainerStatus}

section
variable {statuses : List ContainerStatus} {containers : List String}

theorem find_status (hnames : (statuses.map (·.name)).Nodup) (hs : s ∈ statuses) :
    (statuses.reverse.find? fun s' => s'.name == s.name) = some s := by
  cases hfind : statuses.reverse.find? fun s' => s'.name == s.name with
  | none =>
    have hnone := find?_eq_none.mp hfind s (mem_reverse.mpr hs)
    simp at hnone
  | some s' =>
    have hname : s'.name = s.name := by simpa using find?_some hfind
    have hmem := mem_reverse.mp (mem_of_find?_eq_some hfind)
    rw [inj_on_of_nodup_map hnames hmem hs hname]

theorem mem_sorted (hlen : statuses.length ≤ containers.length) :
    s ∈ sortPodContainerStatuses statuses containers ↔
      ∃ i, i < statuses.length ∧ ∃ c, containers[i]? = some c ∧
        s = (statuses.reverse.find? fun s => s.name == c).getD {} := by
  unfold sortPodContainerStatuses
  rw [mem_mapIdx]
  constructor
  · rintro ⟨i, hi, rfl⟩
    have hc : containers[i]? = some containers[i] := getElem?_eq_getElem (by omega)
    exact ⟨i, hi, _, hc, by rw [hc]⟩
  · rintro ⟨i, hi, c, hc, rfl⟩
    exact ⟨i, hi, by rw [hc]⟩

end

theorem stepEnded_failed (hstep : isContainerStep s.name = true)
    (hended : s.state.terminated.isSome = true) :
    s.stepEnded (fun t => t.exitCode ≠ 0 || isOOMKilled t) = !s.succeeded := by
  obtain ⟨t, ht⟩ := Option.isSome_iff_exists.mp hended
  simp [ContainerStatus.stepEnded, ContainerStatus.succeeded, hstep, ht]

theorem didTaskRunFail_of_completed {pod : Pod} (hphase : pod.phase = .running)
    (h : isPodCompleted pod = true) : didTaskRunFail pod = true := by
  simp only [isPodCompleted, hphase, any_eq_true, Bool.or_eq_true] at h
  rcases h with hfalse | ⟨s, hs, hoom⟩
  · simp at hfalse
  · simp only [didTaskRunFail, any_eq_true, Bool.or_eq_true]
    refine .inr ⟨s, hs, ?_⟩
    simp only [ContainerStatus.stepEnded, Bool.and_eq_true, Option.any_eq_true] at hoom ⊢
    obtain ⟨hstep, t, ht, hkilled⟩ := hoom
    exact ⟨hstep, t, ht, by simp [hkilled]⟩

variable {enabled : Bool} {tr : TaskRun}

/-- In the phase Running a TaskRun succeeds when there is a status, all that are waited for have
terminated and none of a step has failed. -/
theorem updateCondition_isTrue {d : Decoders} {now : Nat} {pod : Pod}
    (hphase : pod.phase = .running) :
    hasStatus .isTrue (updateCondition d enabled now tr pod).succeeded = true ↔
      areContainersCompleted enabled pod = true ∧ didTaskRunFail pod = false := by
  have hoom := didTaskRunFail_of_completed hphase
  unfold updateCondition
  by_cases hfail : didTaskRunFail pod = true
  · by_cases hcompleted : (areContainersCompleted enabled pod || isPodCompleted pod) = true
    · simp [hcompleted, updateCompletedTaskRunStatus, hfail, markStatusFailure, hasStatus]
    · simp [hcompleted, updateIncompleteTaskRunStatus, hphase, markStatusRunning, hasStatus, hfail]
  · have hnot : isPodCompleted pod = false := by
      by_contra h
      exact hfail (hoom (by simpa using h))
    by_cases hcompleted : areContainersCompleted enabled pod = true
    · simp [hcompleted, updateCompletedTaskRunStatus, hfail, markStatusSuccess, hasStatus]
    · simp [hcompleted, hnot, updateIncompleteTaskRunStatus, hphase, markStatusRunning, hasStatus]

theorem isSome_of_succeeded (h : s.succeeded = true) : s.state.terminated.isSome = true := by
  unfold ContainerStatus.succeeded at h
  cases hstate : s.state.terminated with
  | none => simp [hstate] at h
  | some t => rfl

/-- The same for each status: there is one, each one of a step is that of a step that succeeded,
and the sidecar is waited for where its logs are read. -/
theorem succeeds_iff {pod : Pod} (hphase : pod.phase = .running) :
    areContainersCompleted enabled pod = true ∧ didTaskRunFail pod = false ↔
      pod.containerStatuses ≠ [] ∧
        (∀ s ∈ pod.containerStatuses, isContainerStep s.name = true → s.succeeded = true) ∧
        (enabled = true → ∀ s ∈ pod.containerStatuses, s.name = reservedResultsSidecar →
          s.state.terminated.isSome = true) := by
  simp only [areContainersCompleted, didTaskRunFail, hphase, Bool.and_eq_true, all_eq_true,
    Bool.or_eq_false_iff, any_eq_false, Bool.or_eq_true, Bool.not_eq_true',
    isEmpty_eq_false_iff, beq_self_eq_true, true_or, and_true]
  constructor
  · rintro ⟨⟨hne, hall⟩, -, hnone⟩
    refine ⟨hne, fun s hs hstep => ?_, fun henabled s hs hname => ?_⟩
    · have hended : s.state.terminated.isSome = true := by simpa [hstep] using hall s hs
      have hfailed := hnone s hs
      rw [stepEnded_failed hstep hended] at hfailed
      simpa using hfailed
    · simpa [henabled, hname] using hall s hs
  · rintro ⟨hne, hsteps, hsidecar⟩
    refine ⟨⟨hne, fun s hs => ?_⟩, by decide, fun s hs => ?_⟩
    · by_cases hstep : isContainerStep s.name = true
      · exact .inr (isSome_of_succeeded (hsteps s hs hstep))
      · by_cases hname : enabled = true ∧ s.name = reservedResultsSidecar
        · exact .inr (hsidecar hname.1 s hs hname.2)
        · left
          simpa [hstep] using hname
    · by_cases hstep : isContainerStep s.name = true
      · have hok := hsteps s hs hstep
        rw [stepEnded_failed hstep (isSome_of_succeeded hok), hok]
        simp
      · simp [ContainerStatus.stepEnded, hstep]

theorem makeTaskRunStatus_succeeded {d : Decoders} {logs : SidecarLogs} {now : Nat} {pod : Pod}
    {ts : Option TaskSpec} {trs : TaskRunStatus} {errors : List StatusError}
    (h : makeTaskRunStatus d enabled logs now tr pod ts = .ok (trs, errors)) :
    trs.succeeded = (updateCondition d enabled now tr pod.sorted).succeeded := by
  unfold makeTaskRunStatus at h
  dsimp only at h
  split at h
  · cases h
  · rename_i trs' errors' hset
    obtain ⟨rfl, -⟩ := Prod.mk.inj (Except.ok.inj h)
    exact setTaskRunStatusBasedOnStepStatus_succeeded hset

theorem makeTaskRunStatus_ok (d : Decoders) (enabled : Bool) (logs : SidecarLogs) (now : Nat)
    {pod : Pod} (spec : TaskSpec) {stored : TaskSpec} (hstored : tr.status.taskSpec = some stored)
    (hquiet : ∀ s ∈ pod.sorted.containerStatuses, s.hasReadableMessage d = false) :
    ∃ trs errors, makeTaskRunStatus d enabled logs now tr pod (some spec) = .ok (trs, errors) := by
  let updated : TaskRun := { tr with status :=
    { updateCondition d enabled now tr pod.sorted with podName := pod.name, sidecars := [] } }
  have hspec : updated.status.taskSpec = some stored := by
    obtain ⟨c, t, heq⟩ := updateCondition_eq d enabled now tr pod.sorted
    exact (congrArg TaskRunStatus.taskSpec heq).trans hstored
  have hsteps : (pod.sorted.containerStatuses.filter fun s => isContainerStep s.name).any
      (·.hasReadableMessage d) = false := by
    rw [any_eq_false]
    intro s hs
    simpa using hquiet s (mem_of_mem_filter hs)
  obtain ⟨⟨trs, errors⟩, hok⟩ := (setTaskRunStatusBasedOnStepStatus_ok_iff d enabled logs
    (pod.sorted.containerStatuses.filter fun s => isContainerStep s.name) spec hspec).mpr
    (by rw [hsteps, Bool.and_false])
  unfold makeTaskRunStatus
  simp only [updated, Pod.sorted] at hok
  exact ⟨_, _, by simp only [hok]; rfl⟩

def allButOne (c : String) (names : List String) : List ContainerStatus :=
  names.map fun n =>
    { name := n, state := if n = c then { running := some 0 } else { terminated := some {} } }

theorem name_allButOne (c : String) (names : List String) :
    (allButOne c names).map (·.name) = names := by
  simp [allButOne, Function.comp_def]

theorem sorted_allButOne {containers names : List String} (hcontainers : containers.Nodup)
    (hlen : names.length ≤ containers.length) {i : Nat} {c : String} (hc : containers[i]? = some c)
    (hlost : ¬(c ∈ names ∧ i < names.length))
    (hs : s ∈ sortPodContainerStatuses (allButOne c names) containers) :
    s.state = { terminated := some {} } ∨ s = {} := by
  rw [mem_sorted (by simpa [allButOne] using hlen)] at hs
  obtain ⟨j, hj, c', hc', rfl⟩ := hs
  cases hfind : (allButOne c names).reverse.find? fun s => s.name == c' with
  | none => exact .inr rfl
  | some s =>
    left
    have hname : s.name = c' := by simpa using find?_some hfind
    obtain ⟨n, hn, rfl⟩ := mem_map.mp
      (mem_reverse.mp (mem_of_find?_eq_some hfind))
    dsimp only at hname
    subst hname
    have hne : n ≠ c := by
      rintro rfl
      have hi : i < containers.length := (List.getElem?_eq_some_iff.mp hc).1
      have hij : i = j := (getElem?_inj hi hcontainers).mp (hc.trans hc'.symm)
      rw [allButOne, length_map] at hj
      exact hlost ⟨hn, by omega⟩
    simp [hne]

theorem length_sorted (statuses : List ContainerStatus) (containers : List String) :
    (sortPodContainerStatuses statuses containers).length = statuses.length := by
  simp [sortPodContainerStatuses]

/-- A TaskRun that succeeds tells of every step that it succeeded, whatever the states of its
containers are, exactly when no status is reported or every step has one and stands before the
number of statuses in the spec. -/
theorem success_tells_of_steps_iff (d : Decoders) (enabled : Bool) (containers names : List String)
    (hcontainers : containers.Nodup) (hnames : names.Nodup) (hsub : names ⊆ containers) :
    (∀ logs now tr ts (pod : Pod) trs errors, pod.containers = containers →
        pod.phase = .running → pod.containerStatuses.map (·.name) = names →
        makeTaskRunStatus d enabled logs now tr pod ts = .ok (trs, errors) →
        hasStatus .isTrue trs.succeeded = true → ∀ c ∈ containers, isContainerStep c = true →
          ∃ s ∈ pod.containerStatuses, s.name = c ∧ s.succeeded = true) ↔
      (names ≠ [] → ∀ i c, containers[i]? = some c → isContainerStep c = true →
        c ∈ names ∧ i < names.length) := by
  have hlen : names.length ≤ containers.length := (subperm_of_subset hnames hsub).length_le
  constructor
  · intro hall hne i c hc hstep
    by_contra hlost
    let pod : Pod :=
      { name := "pod", containers := containers, phase := .running
        containerStatuses := allButOne c names }
    have hstates : ∀ s ∈ pod.sorted.containerStatuses,
        s.state = { terminated := some {} } ∨ s = {} :=
      fun s hs => sorted_allButOne hcontainers hlen hc hlost hs
    let tr : TaskRun := { name := "", status := { taskSpec := some { steps := [] } } }
    have hquiet : ∀ s ∈ pod.sorted.containerStatuses, s.hasReadableMessage d = false := by
      intro s hs
      rcases hstates s hs with hstate | rfl
      · simp [ContainerStatus.hasReadableMessage, hstate, ContainerStateTerminated.isReadable]
      · rfl
    have hstored : tr.status.taskSpec = some { steps := [] } := rfl
    obtain ⟨trs, errors, hmake⟩ :=
      makeTaskRunStatus_ok d enabled {} 0 { steps := [] } hstored hquiet
    have htrue : hasStatus .isTrue trs.succeeded = true := by
      rw [makeTaskRunStatus_succeeded hmake, updateCondition_isTrue rfl, succeeds_iff rfl]
      refine ⟨?_, fun s hs hstep => ?_, fun _ s hs hname => ?_⟩
      · rw [← length_pos_iff]
        have hpos := length_pos_iff.mpr hne
        simpa [pod, Pod.sorted, length_sorted, allButOne] using hpos
      · rcases hstates s hs with hstate | rfl
        · simp [ContainerStatus.succeeded, hstate, isOOMKilled]
        · exact absurd hstep (by decide)
      · rcases hstates s hs with hstate | rfl
        · simp [hstate]
        · exact absurd hname (by decide)
    obtain ⟨s, hs, hname, hok⟩ := hall {} 0 tr (some { steps := [] }) pod trs errors rfl rfl
      (name_allButOne c names) hmake htrue c (mem_of_getElem? hc) hstep
    obtain ⟨n, -, rfl⟩ := mem_map.mp hs
    dsimp only at hname
    subst hname
    simp [ContainerStatus.succeeded] at hok
  · intro hcond logs now tr ts pod trs errors hcs hphase hns hmake htrue c hc hstep
    have hsorted : pod.sorted.phase = .running := hphase
    rw [makeTaskRunStatus_succeeded hmake, updateCondition_isTrue hsorted, succeeds_iff hsorted]
      at htrue
    obtain ⟨hne, hsteps, -⟩ := htrue
    have hlength : pod.containerStatuses.length = names.length := by
      rw [← hns, length_map]
    have hreported : names ≠ [] := by
      rintro rfl
      apply hne
      rw [← length_eq_zero_iff, Pod.sorted]
      simpa [length_sorted] using hlength
    obtain ⟨i, hi⟩ := mem_iff_getElem?.mp hc
    obtain ⟨hmem, hlt⟩ := hcond hreported i c hi hstep
    rw [← hns] at hmem
    obtain ⟨s, hs, rfl⟩ := mem_map.mp hmem
    refine ⟨s, hs, rfl, hsteps s ?_ hstep⟩
    rw [Pod.sorted, mem_sorted (by rw [hcs, hlength]; exact hlen)]
    refine ⟨i, by omega, s.name, by rw [hcs]; exact hi, ?_⟩
    rw [find_status (by rw [hns]; exact hnames) hs]
    rfl

/-- Two steps, both reported, in the order in which they ended. -/
theorem both_steps_reported : ["step-test", "step-build"] ⊆ ["step-build", "step-test"] ∧
    ∀ logs now tr ts (pod : Pod) trs errors, pod.containers = ["step-build", "step-test"] →
      pod.phase = .running → pod.containerStatuses.map (·.name) = ["step-test", "step-build"] →
      makeTaskRunStatus plainDecoders false logs now tr pod ts = .ok (trs, errors) →
      hasStatus .isTrue trs.succeeded = true →
      ∀ c ∈ ["step-build", "step-test"], isContainerStep c = true →
        ∃ s ∈ pod.containerStatuses, s.name = c ∧ s.succeeded = true := by
  refine ⟨by decide, (success_tells_of_steps_iff plainDecoders false ["step-build", "step-test"]
    ["step-test", "step-build"] (by decide) (by decide) (by decide)).mpr ?_⟩
  intro _ i c hc _
  have hmem := mem_of_getElem? hc
  have hlt := (List.getElem?_eq_some_iff.mp hc).1
  exact ⟨by simpa [or_comm] using hmem, hlt⟩

/-- The second step has not been reported yet. -/
def oneStepReported : Pod where
  name := "build-pod"
  containers := ["step-build", "step-test"]
  phase := .running
  containerStatuses := [{ name := "step-build", state := { terminated := some {} } }]

/-- The TaskRun has succeeded, and nothing is known of the second step. -/
theorem success_without_second_step :
    ∃ trs, makeTaskRunStatus plainDecoders false {} 0 { name := "build" } oneStepReported
        (some { steps := [] }) = .ok (trs, []) ∧
      trs.succeeded = some ⟨.isTrue, "Succeeded", "All Steps have completed executing"⟩ ∧
      "step-test" ∈ oneStepReported.containers ∧ isContainerStep "step-test" = true ∧
      ∀ s ∈ oneStepReported.containerStatuses, s.name ≠ "step-test" :=
  ⟨_, rfl, rfl, by decide, by decide, by decide⟩

end TektonPipeline.PodStatus
