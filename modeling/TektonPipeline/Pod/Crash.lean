import TektonPipeline.Pod.Status

/-! When reading the results of the steps meets artifacts that were never set. -/

namespace TektonPipeline.PodStatus
open Termination
open Tasks (TaskResult TaskSpec)

/-- A message that is not empty and can be parsed. -/
def ContainerStateTerminated.isReadable (d : Decoders) (t : ContainerStateTerminated) : Bool :=
  t.message ≠ [] && (parseMessage d.json t.message).isOk

def ContainerStatus.hasReadableMessage (d : Decoders) (s : ContainerStatus) : Bool :=
  s.state.terminated.any (·.isReadable d)

/-- The TaskRun is done and has no artifacts to merge others into. -/
def TaskRunStatus.lacksArtifacts (trs : TaskRunStatus) : Bool :=
  trs.isDone && trs.artifacts.isNone

/-- What no round of the loop changes. -/
structure SameMerge (trs trs' : TaskRunStatus) : Prop where
  succeeded : trs'.succeeded = trs.succeeded
  artifacts : trs'.artifacts.isNone = trs.artifacts.isNone

theorem SameMerge.lacksArtifacts {trs trs' : TaskRunStatus} (h : SameMerge trs trs') :
    trs'.lacksArtifacts = trs.lacksArtifacts := by
  simp [TaskRunStatus.lacksArtifacts, TaskRunStatus.isDone, h.succeeded, h.artifacts]

section
variable {d : Decoders} {i : StepInputs} {f : FilteredResults} {sas : Artifacts}
  {trs : TaskRunStatus}

theorem addTerminationResults_none (h : trs.artifacts = none) :
    addTerminationResults d i f sas trs = .error .nilPointerDereference := by
  simp [addTerminationResults, TaskRunStatus.mergeArtifacts, h]

variable (d i f sas) in
theorem addTerminationResults_some {a : Artifacts} (h : trs.artifacts = some a) :
    ∃ trs' errors, addTerminationResults d i f sas trs = .ok (trs', errors) ∧
      SameMerge trs trs' := by
  simp only [addTerminationResults, TaskRunStatus.mergeArtifacts, h]
  exact ⟨_, _, rfl, rfl, by simp [h]⟩

theorem readTermination_lacking {t : ContainerStateTerminated} (hlacks : trs.lacksArtifacts = true)
    (hreadable : t.isReadable d = true) :
    readTermination d i sas trs t = .error .nilPointerDereference := by
  simp only [TaskRunStatus.lacksArtifacts, Bool.and_eq_true, Option.isNone_iff_eq_none] at hlacks
  simp only [ContainerStateTerminated.isReadable, Bool.and_eq_true, decide_eq_true_eq] at hreadable
  unfold readTermination
  rw [if_neg (by simpa using hreadable.1)]
  cases hparse : parseMessage d.json t.message with
  | error e => simp [hparse, Except.isOk, Except.toBool] at hreadable
  | ok results => simp [hlacks.1, addTerminationResults_none hlacks.2]

variable (i sas) in
theorem readTermination_ok {t : ContainerStateTerminated}
    (h : (trs.lacksArtifacts && t.isReadable d) = false) :
    ∃ r, readTermination d i sas trs t = .ok r ∧ SameMerge trs r.trs := by
  unfold readTermination
  by_cases hempty : t.message = []
  · rw [if_pos hempty]
    exact ⟨_, rfl, rfl, rfl⟩
  rw [if_neg hempty]
  cases hparse : parseMessage d.json t.message with
  | error e => exact ⟨_, rfl, rfl, rfl⟩
  | ok results =>
    have hlacks : trs.lacksArtifacts = false := by
      simpa [ContainerStateTerminated.isReadable, hempty, hparse, Except.isOk, Except.toBool]
        using h
    by_cases hdone : trs.isDone = true
    · obtain ⟨a, ha⟩ : ∃ a, trs.artifacts = some a := by
        rw [← Option.isSome_iff_exists]
        simpa [TaskRunStatus.lacksArtifacts, hdone, Option.isSome_iff_ne_none] using hlacks
      obtain ⟨trs', errors, hadd, hsame⟩ := addTerminationResults_some d i
        (filterResults d i.specResults i.stepResults results)
        (setStepArtifactsValueFromTerminationMessageRunResult d results sas).1 ha
      simp only [hdone, if_true, hadd]
      exact ⟨_, rfl, hsame⟩
    · simp only [hdone]
      exact ⟨_, rfl, rfl, rfl⟩

end

section
variable {d : Decoders} {specResults : List TaskResult} {ts : TaskSpec} {logs : List RunResult}

theorem sameMerge_results (trs : TaskRunStatus) (results : List TaskRunResult) :
    SameMerge trs (if trs.isDone then { trs with results := trs.results ++ results } else trs) := by
  by_cases hdone : trs.isDone = true
  · rw [if_pos hdone]
    exact ⟨rfl, rfl⟩
  · rw [if_neg hdone]
    exact ⟨rfl, rfl⟩

theorem setStepStatus_lacking {trs : TaskRunStatus} {s : ContainerStatus}
    (hlacks : trs.lacksArtifacts = true) (hreadable : s.hasReadableMessage d = true) :
    setStepStatus d specResults ts logs trs s = .error .nilPointerDereference := by
  unfold ContainerStatus.hasReadableMessage at hreadable
  unfold setStepStatus
  cases hstate : s.state.terminated with
  | none => simp [hstate] at hreadable
  | some t =>
    rw [hstate, Option.any_some] at hreadable
    simp only [readTermination_lacking
      ((sameMerge_results trs _).lacksArtifacts.trans hlacks) hreadable]

variable (specResults ts logs) in
theorem setStepStatus_ok {trs : TaskRunStatus} {s : ContainerStatus}
    (h : (trs.lacksArtifacts && s.hasReadableMessage d) = false) :
    ∃ trs' errors, setStepStatus d specResults ts logs trs s = .ok (trs', errors) ∧
      SameMerge trs trs' := by
  unfold ContainerStatus.hasReadableMessage at h
  unfold setStepStatus
  cases hstate : s.state.terminated with
  | none =>
    have hsame := sameMerge_results trs
    exact ⟨_, _, rfl, (hsame _).succeeded, (hsame _).artifacts⟩
  | some t =>
    rw [hstate, Option.any_some] at h
    dsimp only
    generalize hresults : createTaskResultsFromStepResults _ _ = results
    have hsame := sameMerge_results trs results
    rw [← hsame.lacksArtifacts] at h
    obtain ⟨r, hr, hsame'⟩ := readTermination_ok
      ⟨specResults, (ts.steps.filter fun step => getContainerName step.name = s.name).flatMap
        (·.results), (findStepResultsFetchedByTask s.name specResults).toOption.getD []⟩
      (setStepArtifactsValueFromSidecarLogResult d s.name logs {}).1 h
    rw [hr]
    exact ⟨_, _, rfl, hsame'.succeeded.trans hsame.succeeded,
      hsame'.artifacts.trans hsame.artifacts⟩

variable (d specResults ts logs) in
theorem setStepStatuses_ok_iff (stepStatuses : List ContainerStatus) (trs : TaskRunStatus) :
    (∃ out, setStepStatuses d specResults ts logs stepStatuses trs = .ok out) ↔
      (trs.lacksArtifacts && stepStatuses.any (·.hasReadableMessage d)) = false := by
  induction stepStatuses generalizing trs with
  | nil => simp [setStepStatuses]
  | cons s rest ih =>
    by_cases hround : (trs.lacksArtifacts && s.hasReadableMessage d) = true
    · obtain ⟨hlacks, hreadable⟩ := Bool.and_eq_true_iff.mp hround
      simp [setStepStatuses, setStepStatus_lacking hlacks hreadable, hlacks, hreadable]
    · rw [Bool.not_eq_true] at hround
      obtain ⟨trs', errors, hok, hsame⟩ := setStepStatus_ok specResults ts logs hround
      have hrest := ih trs'
      rw [hsame.lacksArtifacts] at hrest
      have hiff : (∃ out, setStepStatuses d specResults ts logs (s :: rest) trs = .ok out) ↔
          ∃ out, setStepStatuses d specResults ts logs rest trs' = .ok out := by
        simp only [setStepStatuses, hok]
        cases setStepStatuses d specResults ts logs rest trs' <;> simp
      rw [hiff, hrest, List.any_cons, Bool.and_or_distrib_left, hround, Bool.false_or]

end

def artifactsDecodable (d : Decoders) (sidecarLogResults : List RunResult) : Bool :=
  (setTaskRunArtifactsFromRunResult d sidecarLogResults {}).2.isNone

theorem addSidecarResults_lacksArtifacts (d : Decoders) (specResults : List TaskResult)
    (logs : List RunResult) (trs : TaskRunStatus) :
    (addSidecarResults d specResults logs trs).1.lacksArtifacts =
      (trs.lacksArtifacts && !artifactsDecodable d logs) := by
  unfold addSidecarResults artifactsDecodable
  by_cases hdone : trs.isDone = true
  · rw [if_pos hdone]
    rcases hset : setTaskRunArtifactsFromRunResult d logs {} with ⟨tras, _ | err⟩
    · simp [TaskRunStatus.lacksArtifacts]
    · simp [TaskRunStatus.lacksArtifacts, TaskRunStatus.isDone]
  · simp [hdone, TaskRunStatus.lacksArtifacts]

theorem setTaskRunStatusBasedOnStepStatus_ok_iff (d : Decoders) (enabled : Bool)
    (logs : SidecarLogs) (stepStatuses : List ContainerStatus) {tr : TaskRun}
    (spec : TaskSpec) {stored : TaskSpec} (hstored : tr.status.taskSpec = some stored) :
    (∃ out, setTaskRunStatusBasedOnStepStatus d enabled logs stepStatuses tr (some spec) =
        .ok out) ↔ (tr.status.lacksArtifacts &&
        !artifactsDecodable d (readSidecarLogs enabled logs stored spec).results &&
        stepStatuses.any (·.hasReadableMessage d)) = false := by
  have hloop := setStepStatuses_ok_iff d (collectResults tr spec) spec
    (readSidecarLogs enabled logs stored spec).results stepStatuses
    (addSidecarResults d (collectResults tr spec)
      (readSidecarLogs enabled logs stored spec).results tr.status).1
  rw [addSidecarResults_lacksArtifacts] at hloop
  rw [← hloop]
  simp only [setTaskRunStatusBasedOnStepStatus, storedOrGiven, hstored]
  cases setStepStatuses d (collectResults tr spec) spec _ stepStatuses _ <;> simp

theorem setTaskRunStatusBasedOnStepStatus_succeeded {d : Decoders} {enabled : Bool}
    {logs : SidecarLogs} {stepStatuses : List ContainerStatus} {tr : TaskRun}
    {ts : Option TaskSpec} {trs : TaskRunStatus} {errors : List StatusError}
    (h : setTaskRunStatusBasedOnStepStatus d enabled logs stepStatuses tr ts = .ok (trs, errors)) :
    trs.succeeded = tr.status.succeeded := by
  obtain ⟨_, _, _, trs₀, _, -, hunread, hloop⟩ := exists_setStepStatuses h
  have hkept := congrArg TaskRunStatus.succeeded ((setStepStatuses_record hloop).2.trans hunread)
  exact hkept

/-- No content of messages and logs makes the controller crash exactly when there is something
to merge artifacts into by the time a message is read. -/
theorem setTaskRunStatusBasedOnStepStatus_returns_iff (d : Decoders) (enabled : Bool)
    (logs : SidecarLogs) (stepStatuses : List ContainerStatus) (tr : TaskRun)
    (ts : Option TaskSpec) (stored : TaskSpec) (hstored : tr.status.taskSpec = some stored) :
    (∃ out, setTaskRunStatusBasedOnStepStatus d enabled logs stepStatuses tr ts = .ok out) ↔
      ∃ spec, ts = some spec ∧ (tr.status.isDone = true → tr.status.artifacts = none →
          artifactsDecodable d (readSidecarLogs enabled logs stored spec).results = false →
          ∀ s ∈ stepStatuses, s.hasReadableMessage d = false) := by
  cases ts with
  | none => simp [setTaskRunStatusBasedOnStepStatus]
  | some spec =>
    rw [setTaskRunStatusBasedOnStepStatus_ok_iff d enabled logs stepStatuses spec hstored]
    simp only [TaskRunStatus.lacksArtifacts, Option.some.injEq, exists_eq_left',
      Bool.and_eq_false_iff, Option.isNone_eq_false_iff, List.any_eq_false]
    cases tr.status.isDone <;> cases tr.status.artifacts <;>
      cases artifactsDecodable d (readSidecarLogs enabled logs stored spec).results <;> simp

def doneTaskRun (artifacts : Option Artifacts) : TaskRun :=
  { name := "build"
    status :=
      { succeeded := some ⟨.isTrue, "Succeeded", "All Steps have completed executing"⟩
        taskSpec := some { steps := [], results := some [] }
        artifacts := artifacts } }

def writtenStep : ContainerStatus :=
  { name := "step-build", state := { terminated := some { message := [0x5b, 0x5d] } } }

def artifactLogs (value : String) : SidecarLogs :=
  { results := [⟨"provenance", value, "", taskRunArtifactsResultType⟩] }

theorem returns_decodable_artifacts :
    ∃ out, setTaskRunStatusBasedOnStepStatus plainDecoders true (artifactLogs "null") [writtenStep]
      (doneTaskRun none) (some { steps := [] }) = .ok out :=
  (setTaskRunStatusBasedOnStepStatus_returns_iff plainDecoders true (artifactLogs "null")
    [writtenStep] (doneTaskRun none) (some { steps := [] }) { steps := [], results := some [] }
    rfl).mpr ⟨_, rfl, fun _ _ h => absurd h (by decide)⟩

/-- The artifacts that were logged are not decoded, so none are set when the message of the
step is read. -/
theorem crashes_undecodable_artifacts :
    setTaskRunStatusBasedOnStepStatus plainDecoders true (artifactLogs "sha256") [writtenStep]
      (doneTaskRun none) (some { steps := [] }) = .error .nilPointerDereference := by
  rfl

end TektonPipeline.PodStatus
