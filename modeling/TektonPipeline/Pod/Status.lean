import TektonPipeline.Pod.Results
import TektonPipeline.TaskRun.Conditions

/-! The status of a TaskRun, made from the container statuses that the kubelet reports for its
pod. -/

namespace TektonPipeline.PodStatus
open Termination
open Tasks (TaskResult StepResult Step TaskSpec)
open TaskRunReconciler (Condition ConditionStatus PodPhase PodCondition isUnknown
  hasStatus isContainerStep isContainerSidecar reservedResultsSidecar quoted)

structure ContainerStateWaiting where
  reason : String := ""
  message : String := ""
  deriving DecidableEq

structure ContainerStateTerminated where
  exitCode : Int := 0
  reason : String := ""
  message : List UInt8 := []
  startedAt : Nat := 0
  deriving DecidableEq

/-- In the zero state none of the three is set. -/
structure ContainerState where
  waiting : Option ContainerStateWaiting := none
  running : Option Nat := none
  terminated : Option ContainerStateTerminated := none
  deriving DecidableEq

/-- `lastTerminated` is how the container ended before it was started again. -/
structure ContainerStatus where
  name : String := ""
  state : ContainerState := {}
  lastTerminated : Option ContainerStateTerminated := none
  ready : Bool := false
  imageID : String := ""
  deriving DecidableEq

/-- `containers` are the names of the containers of the pod's spec. -/
structure Pod where
  name : String
  containers : List String := []
  phase : PodPhase := .pending
  containerStatuses : List ContainerStatus := []
  initContainerStatuses : List ContainerStatus := []
  conditions : List PodCondition := []
  reason : String := ""
  message : String := ""
  deriving DecidableEq

structure StepState where
  state : ContainerState
  name : String
  container : String
  imageID : String
  results : List TaskRunResult
  terminationReason : String
  inputs : List Artifact
  outputs : List Artifact
  provenance : Option String := none
  deriving DecidableEq

structure SidecarState where
  state : ContainerState
  name : String
  container : String
  imageID : String
  deriving DecidableEq

structure TaskRunStatus where
  succeeded : Option Condition := none
  podName : String := ""
  completionTime : Option Nat := none
  taskSpec : Option TaskSpec := none
  steps : List StepState := []
  sidecars : List SidecarState := []
  results : List TaskRunResult := []
  artifacts : Option Artifacts := none
  deriving DecidableEq

/-- `onError` is the annotation of that name. -/
structure TaskRun where
  name : String
  onError : Option String := none
  taskSpec : Option TaskSpec := none
  status : TaskRunStatus := {}
  deriving DecidableEq

def TaskRunStatus.isDone (trs : TaskRunStatus) : Bool := !isUnknown trs.succeeded

inductive StatusError where
  | text (message : String)
  | termination (e : ParseError)
  | sizeExceeded
  deriving DecidableEq

inductive Panic where
  | nilPointerDereference
  deriving DecidableEq

def trimStepPrefix (name : String) : String :=
  String.ofList (Text.trimPrefix "step-".toList name.toList)

def trimSidecarPrefix (name : String) : String :=
  String.ofList (Text.trimPrefix "sidecar-".toList name.toList)

def stepName (name : String) (i : Nat) : String :=
  if name ≠ "" then getContainerName name else "step-" ++ ("unnamed-" ++ toString i)

/-- The path where a step leaves its artifacts, for names without a slash. -/
def artifactPathReferencedInStep (step : Step) : Bool :=
  let path := "/tekton/steps/" ++ getContainerName step.name ++ "/artifacts/provenance.json"
  let unresolvedPath := "$(step.artifacts.path)"
  (step.script :: step.args ++ step.command ++ step.env.map (·.value)).any fun s =>
    Text.contains path.toList s.toList || Text.contains unresolvedPath.toList s.toList

def artifactsPathReferenced (steps : List Step) : Bool := steps.any artifactPathReferencedInStep

/-- `trs.Artifacts.Merge(another)`: the receiver is read. -/
def TaskRunStatus.mergeArtifacts (trs : TaskRunStatus) (another : Artifacts) :
    Except Panic TaskRunStatus :=
  match trs.artifacts with
  | none => .error .nilPointerDereference
  | some a => .ok { trs with artifacts := some (a.merge another) }

def errorText (e : Option String) : List StatusError := (e.map StatusError.text).toList

def exceptText {α : Type} : Except String α → List StatusError
  | .ok _ => []
  | .error e => [.text e]

structure TerminationRead where
  trs : TaskRunStatus
  terminated : ContainerStateTerminated
  results : List TaskRunResult := []
  artifacts : Artifacts
  terminationReason : String := ""
  errors : List StatusError := []
  deriving DecidableEq

/-- What is known of a step before its termination message is read. -/
structure StepInputs where
  specResults : List TaskResult
  stepResults : List StepResult
  neededStepResults : List (String × String)
  deriving DecidableEq

def addTerminationResults (d : Decoders) (i : StepInputs) (f : FilteredResults) (sas : Artifacts)
    (trs : TaskRunStatus) : Except Panic (TaskRunStatus × List StatusError) :=
  let taskResults := f.taskResults ++
    createTaskResultsFromStepResults i.neededStepResults f.taskRunStepResults
  let (tras, err) := setTaskRunArtifactsFromRunResult d f.filteredResults {}
  match TaskRunStatus.mergeArtifacts { trs with results := trs.results ++ taskResults } tras with
  | .error p => .error p
  | .ok trs =>
    match trs.mergeArtifacts sas with
    | .error p => .error p
    | .ok trs => .ok (trs, errorText err)

def readTermination (d : Decoders) (i : StepInputs) (sas : Artifacts) (trs : TaskRunStatus)
    (terminated : ContainerStateTerminated) : Except Panic TerminationRead :=
  if terminated.message = [] then
    .ok { trs := trs, terminated := terminated, artifacts := sas }
  else
    match parseMessage d.json terminated.message with
    | .error e =>
      .ok { trs := trs, terminated := terminated, artifacts := sas, errors := [.termination e] }
    | .ok results =>
      let (sas, err) := setStepArtifactsValueFromTerminationMessageRunResult d results sas
      let time := extractStartedAtTimeFromResults d results
      let exitCode := extractExitCodeFromResults results
      let f := filterResults d i.specResults i.stepResults results
      match
        if trs.isDone then addTerminationResults d i f sas trs else .ok (trs, []) with
      | .error p => .error p
      | .ok (trs', errs) =>
        let exit := exitCode.toOption.bind id
        .ok
          { trs := trs'
            terminated :=
              { terminated with
                message := createMessageFromResults d f.filteredResults
                startedAt := (time.toOption.bind id).getD terminated.startedAt
                exitCode := exit.getD terminated.exitCode }
            results := if trs.isDone then f.taskRunStepResults else []
            artifacts := sas
            terminationReason := getTerminationReason terminated.reason
              (extractTerminationReasonFromResults results) exit
            errors := errorText err ++ exceptText time ++ exceptText exitCode ++ errs }

/-- The state of a step takes the place of the first one with its name. -/
def putStepState (stepState : StepState) : List StepState → List StepState
  | [] => [stepState]
  | ss :: rest =>
    if ss.name = stepState.name then { stepState with provenance := ss.provenance } :: rest
    else ss :: putStepState stepState rest

def setStepStatus (d : Decoders) (specResults : List TaskResult) (ts : TaskSpec)
    (sidecarLogResults : List RunResult) (trs : TaskRunStatus) (s : ContainerStatus) :
    Except Panic (TaskRunStatus × List StatusError) :=
  let stepResults := (ts.steps.filter fun step => getContainerName step.name = s.name).flatMap
    (·.results)
  let needed := findStepResultsFetchedByTask s.name specResults
  let fromSidecarLogs := getStepResultsFromSidecarLogs s.name sidecarLogResults
  let i : StepInputs := ⟨specResults, stepResults, needed.toOption.getD []⟩
  let stepRunRes := (filterResults d specResults stepResults
    (fromSidecarLogs.toOption.getD [])).taskRunStepResults
  let trs :=
    if trs.isDone then
      { trs with
        results := trs.results ++ createTaskResultsFromStepResults i.neededStepResults stepRunRes }
    else trs
  let taskRunStepResults := if trs.isDone then stepRunRes else []
  let (sas, err) := setStepArtifactsValueFromSidecarLogResult d s.name sidecarLogResults {}
  let errors := exceptText needed ++ exceptText fromSidecarLogs ++ errorText err
  let stepState (state : ContainerState) (results : List TaskRunResult) (reason : String)
      (sas : Artifacts) : StepState :=
    { state := state, name := trimStepPrefix s.name, container := s.name, imageID := s.imageID
      results := taskRunStepResults ++ results, terminationReason := reason
      inputs := sas.inputs, outputs := sas.outputs }
  match s.state.terminated with
  | none => .ok ({ trs with steps := putStepState (stepState s.state [] "" sas) trs.steps }, errors)
  | some terminated =>
    match readTermination d i sas trs terminated with
    | .error p => .error p
    | .ok r =>
      let state := { s.state with terminated := some r.terminated }
      .ok
        ({ r.trs with
           steps := putStepState (stepState state r.results r.terminationReason r.artifacts)
             r.trs.steps },
          errors ++ r.errors)

def setStepStatuses (d : Decoders) (specResults : List TaskResult) (ts : TaskSpec)
    (sidecarLogResults : List RunResult) :
    List ContainerStatus → TaskRunStatus → Except Panic (TaskRunStatus × List StatusError)
  | [], trs => .ok (trs, [])
  | s :: stepStatuses, trs =>
    match setStepStatus d specResults ts sidecarLogResults trs s with
    | .error p => .error p
    | .ok (trs, errors) =>
      match setStepStatuses d specResults ts sidecarLogResults stepStatuses trs with
      | .error p => .error p
      | .ok (trs, errors') => .ok (trs, errors ++ errors')

structure SidecarLogs where
  results : List RunResult := []
  error : Option StatusError := none
  deriving DecidableEq

def readSidecarLogs (sidecarLogsResultsEnabled : Bool) (logs : SidecarLogs) (stored : TaskSpec)
    (ts : TaskSpec) : SidecarLogs :=
  if sidecarLogsResultsEnabled && (stored.results.isSome || artifactsPathReferenced ts.steps) then
    logs
  else {}

/-- Without sidecar logs the stored task is not looked at. -/
def storedOrGiven (sidecarLogsResultsEnabled : Bool) (trs : TaskRunStatus) (ts : TaskSpec) :
    Except Panic TaskSpec :=
  match trs.taskSpec with
  | some stored => .ok stored
  | none => if sidecarLogsResultsEnabled then .error .nilPointerDereference else .ok ts

def addSidecarResults (d : Decoders) (specResults : List TaskResult)
    (sidecarLogResults : List RunResult) (trs : TaskRunStatus) :
    TaskRunStatus × List StatusError :=
  let taskResults := (filterResults d specResults []
    (getTaskResultsFromSidecarLogs sidecarLogResults)).taskResults
  if trs.isDone then
    let trs := { trs with results := trs.results ++ taskResults }
    match setTaskRunArtifactsFromRunResult d sidecarLogResults {} with
    | (_, some err) => (trs, [.text err])
    | (tras, none) => ({ trs with artifacts := some tras }, [])
  else (trs, [])

def collectResults (tr : TaskRun) (ts : TaskSpec) : List TaskResult :=
  ((tr.taskSpec.bind (·.results)).getD []) ++ ts.results.getD []

def setTaskRunStatusBasedOnStepStatus (d : Decoders) (sidecarLogsResultsEnabled : Bool)
    (logs : SidecarLogs) (stepStatuses : List ContainerStatus) (tr : TaskRun)
    (ts : Option TaskSpec) : Except Panic (TaskRunStatus × List StatusError) :=
  match ts with
  | none => .error .nilPointerDereference
  | some ts =>
    let specResults := collectResults tr ts
    match storedOrGiven sidecarLogsResultsEnabled tr.status ts with
    | .error p => .error p
    | .ok stored =>
      let read := readSidecarLogs sidecarLogsResultsEnabled logs stored ts
      let (trs, errors) := addSidecarResults d specResults read.results tr.status
      match setStepStatuses d specResults ts read.results stepStatuses trs with
      | .error p => .error p
      | .ok (trs, errors') => .ok (trs, read.error.toList ++ errors ++ errors')

def isOOMKilled (t : ContainerStateTerminated) : Bool := t.reason = "OOMKilled"

/-- A step container that has terminated as `p` says. -/
def ContainerStatus.stepEnded (p : ContainerStateTerminated → Bool) (s : ContainerStatus) : Bool :=
  isContainerStep s.name && s.state.terminated.any p

def isPodCompleted (pod : Pod) : Bool :=
  pod.phase == .succeeded || pod.phase == .failed ||
    pod.containerStatuses.any (·.stepEnded isOOMKilled)

def didTaskRunFail (pod : Pod) : Bool :=
  pod.phase == .failed ||
    pod.containerStatuses.any (·.stepEnded fun t => t.exitCode ≠ 0 || isOOMKilled t)

def areContainersCompleted (sidecarLogsResultsEnabled : Bool) (pod : Pod) : Bool :=
  !pod.containerStatuses.isEmpty && (pod.phase == .running || pod.phase == .succeeded) &&
    pod.containerStatuses.all fun s =>
      !(isContainerStep s.name ||
        (sidecarLogsResultsEnabled && s.name == reservedResultsSidecar)) ||
        s.state.terminated.isSome

def sidecarsReady (pod : Pod) : Bool :=
  pod.phase == .running && pod.containerStatuses.all fun s =>
    isContainerStep s.name || (s.state.running.isSome && s.ready) || s.state.terminated.isSome

def extractContainerFailureMessage (d : Decoders) (status : ContainerStatus) : Option String :=
  status.state.terminated.bind fun term =>
    let r := (parseMessage d.json term.message).toOption.getD []
    if r.any fun rr => rr.resultType = internalTektonResultType && rr.key = "Reason" &&
        rr.value = "TimeoutExceeded" then
      some (quoted status.name ++ " exited because the step exceeded the specified timeout limit")
    else if term.exitCode ≠ 0 then
      some (quoted status.name ++ " exited with code " ++ toString term.exitCode)
    else none

def getFailureMessage (d : Decoders) (pod : Pod) : String :=
  if pod.reason = "Evicted" then pod.message
  else
    match pod.initContainerStatuses.findSome? (extractContainerFailureMessage d) with
    | some msg => "init container failed, " ++ msg
    | none =>
      match pod.containerStatuses.findSome? (extractContainerFailureMessage d) with
      | some msg => msg
      | none =>
        if pod.message ≠ "" then pod.message
        else if pod.containerStatuses.any (·.stepEnded isOOMKilled) then "OOMKilled"
        else "build failed for unspecified reasons."

def isPodExceedingNodeResources (pod : Pod) : Bool :=
  pod.conditions.any fun c =>
    c.reason == "Unschedulable" && Text.contains "Insufficient".toList c.message.toList

def waitsFor (reasons : List String) (pod : Pod) : Bool :=
  pod.containerStatuses.any fun s => s.state.waiting.any fun w => decide (w.reason ∈ reasons)

def isPodHitConfigError : Pod → Bool := waitsFor ["CreateContainerConfigError"]

def imageErrorReasons : List String :=
  ["ImagePullBackOff", "ImageInspectError", "ErrImagePull", "ErrImageNeverPull",
    "RegistryUnavailable", "InvalidImageName"]

def isPullImageError : Pod → Bool := waitsFor imageErrorReasons

def ContainerStatus.waitingMessage? (s : ContainerStatus) : Option String :=
  s.state.waiting.bind fun w =>
    if w.message = "" then none
    else some ("build step " ++ quoted s.name ++ " is pending with reason " ++ quoted w.message)

def getWaitingMessage (pod : Pod) : String :=
  match pod.containerStatuses.findSome? ContainerStatus.waitingMessage? with
  | some message => message
  | none =>
    match pod.conditions.find? fun c => c.status != .isTrue with
    | some c =>
      "pod status " ++ quoted c.type ++ ":" ++ quoted c.status.text ++ "; message: " ++
        quoted c.message
    | none => if pod.message = "" then "Pending" else pod.message

def notAllFinished : String := "Not all Steps in the Task have finished executing"

def markStatusRunning (trs : TaskRunStatus) (reason message : String) : TaskRunStatus :=
  { trs with succeeded := some ⟨.unknown, reason, message⟩ }

def markStatusFailure (trs : TaskRunStatus) (reason message : String) : TaskRunStatus :=
  { trs with succeeded := some ⟨.isFalse, reason, message⟩ }

def markStatusSuccess (trs : TaskRunStatus) : TaskRunStatus :=
  { trs with succeeded := some ⟨.isTrue, "Succeeded", "All Steps have completed executing"⟩ }

def updateCompletedTaskRunStatus (d : Decoders) (now : Nat) (trs : TaskRunStatus) (pod : Pod)
    (onError : String) : TaskRunStatus :=
  let trs :=
    if didTaskRunFail pod then
      markStatusFailure trs (if onError = "continue" then "FailureIgnored" else "Failed")
        (getFailureMessage d pod)
    else markStatusSuccess trs
  { trs with completionTime := some now }

def updateIncompleteTaskRunStatus (trs : TaskRunStatus) (pod : Pod) : TaskRunStatus :=
  match pod.phase with
  | .running => markStatusRunning trs "Running" notAllFinished
  | .pending =>
    if isPodExceedingNodeResources pod then
      markStatusRunning trs "ExceededNodeResources" "TaskRun Pod exceeded available resources"
    else if isPodHitConfigError pod then
      markStatusFailure trs "CreateContainerConfigError" "Failed to create pod due to config error"
    else if isPullImageError pod then
      markStatusRunning trs "PullImageFailed" (getWaitingMessage pod)
    else markStatusRunning trs "Pending" (getWaitingMessage pod)
  | .succeeded | .failed | .unknown => trs

/-- The statuses by their names, at the places that the containers have in the spec. A
container without a status gets the zero status. -/
def sortPodContainerStatuses (podContainerStatuses : List ContainerStatus)
    (podSpecContainers : List String) : List ContainerStatus :=
  podContainerStatuses.mapIdx fun i s =>
    match podSpecContainers[i]? with
    | none => s
    | some c => (podContainerStatuses.reverse.find? fun s => s.name == c).getD {}

/-- The condition and the times, before the results are read. -/
def updateCondition (d : Decoders) (sidecarLogsResultsEnabled : Bool) (now : Nat) (tr : TaskRun)
    (pod : Pod) : TaskRunStatus :=
  let trs :=
    if isUnknown tr.status.succeeded then markStatusRunning tr.status "Running" notAllFinished
    else tr.status
  if areContainersCompleted sidecarLogsResultsEnabled pod || isPodCompleted pod then
    updateCompletedTaskRunStatus d now trs pod (tr.onError.getD "")
  else updateIncompleteTaskRunStatus trs pod

theorem updateCondition_eq (d : Decoders) (enabled : Bool) (now : Nat) (tr : TaskRun) (pod : Pod) :
    ∃ c t, updateCondition d enabled now tr pod =
      { tr.status with succeeded := c, completionTime := t } := by
  obtain ⟨c, hc⟩ : ∃ c, (if isUnknown tr.status.succeeded then
      markStatusRunning tr.status "Running" notAllFinished else tr.status) =
        { tr.status with succeeded := c } := by
    split
    · exact ⟨_, rfl⟩
    · exact ⟨_, rfl⟩
  unfold updateCondition
  simp only [hc]
  split
  · unfold updateCompletedTaskRunStatus
    dsimp only
    split <;> exact ⟨_, _, rfl⟩
  · unfold updateIncompleteTaskRunStatus
    repeat' split
    all_goals exact ⟨_, _, rfl⟩

def sidecarState (s : ContainerStatus) : SidecarState :=
  ⟨s.state, trimSidecarPrefix s.name, s.name, s.imageID⟩

def makeTaskRunStatus (d : Decoders) (sidecarLogsResultsEnabled : Bool) (logs : SidecarLogs)
    (now : Nat) (tr : TaskRun) (pod : Pod) (ts : Option TaskSpec) :
    Except Panic (TaskRunStatus × List StatusError) :=
  let pod := { pod with
    containerStatuses := sortPodContainerStatuses pod.containerStatuses pod.containers }
  let trs := updateCondition d sidecarLogsResultsEnabled now tr pod
  let trs := { trs with podName := pod.name, sidecars := [] }
  let stepStatuses := pod.containerStatuses.filter fun s => isContainerStep s.name
  let sidecarStatuses :=
    (pod.containerStatuses.filter fun s => !isContainerStep s.name && isContainerSidecar s.name) ++
      pod.initContainerStatuses.filter fun s => isContainerSidecar s.name
  match setTaskRunStatusBasedOnStepStatus d sidecarLogsResultsEnabled logs stepStatuses
      { tr with status := trs } ts with
  | .error p => .error p
  | .ok (trs, errors) =>
    .ok
      ({ trs with
         sidecars := trs.sidecars ++ sidecarStatuses.map sidecarState
         results := removeDuplicateResults trs.results },
        errors)

/-! ## What is read of the containers -/

/-- What a TaskRun has on record of a step or a sidecar that waits. -/
structure ContainerRecord where
  name : String
  imageID : String
  waiting : Option ContainerStateWaiting
  deriving DecidableEq

def StepState.record (ss : StepState) : ContainerRecord := ⟨ss.name, ss.imageID, ss.state.waiting⟩

def SidecarState.record (ss : SidecarState) : ContainerRecord :=
  ⟨ss.name, ss.imageID, ss.state.waiting⟩

def ContainerStatus.stepRecord (s : ContainerStatus) : ContainerRecord :=
  ⟨trimStepPrefix s.name, s.imageID, s.state.waiting⟩

/-- The record of a step takes the place of the first one with its name. -/
def putRecord (r : ContainerRecord) : List ContainerRecord → List ContainerRecord
  | [] => [r]
  | first :: rest => if first.name = r.name then r :: rest else first :: putRecord r rest

/-- The steps on record once the statuses of the containers were read. A step that none of them
is about stays as it was. -/
def recordSteps (stepStatuses : List ContainerStatus) (steps : List ContainerRecord) :
    List ContainerRecord :=
  stepStatuses.foldl (fun l s => putRecord s.stepRecord l) steps

theorem record_putStepState (ss : StepState) (l : List StepState) :
    (putStepState ss l).map (·.record) = putRecord ss.record (l.map (·.record)) := by
  induction l with
  | nil => rfl
  | cons first rest ih =>
    by_cases hname : first.name = ss.name
    · simp [putStepState, putRecord, StepState.record, hname]
    · simpa [putStepState, putRecord, StepState.record, hname] using ih

/-- The status without what is read of the steps. -/
def TaskRunStatus.unread (trs : TaskRunStatus) : TaskRunStatus :=
  { trs with steps := [], results := [], artifacts := none }

section
variable {d : Decoders} {i : StepInputs} {sas : Artifacts} {trs trs' : TaskRunStatus}
  {errors : List StatusError} {s : ContainerStatus}

theorem addTerminationResults_unread {f : FilteredResults}
    (h : addTerminationResults d i f sas trs = .ok (trs', errors)) :
    trs'.steps = trs.steps ∧ trs'.unread = trs.unread := by
  cases hartifacts : trs.artifacts with
  | none => simp [addTerminationResults, TaskRunStatus.mergeArtifacts, hartifacts] at h
  | some a =>
    simp only [addTerminationResults, TaskRunStatus.mergeArtifacts, hartifacts, Except.ok.injEq,
      Prod.mk.injEq] at h
    rw [← h.1]
    exact ⟨rfl, rfl⟩

theorem readTermination_unread {t : ContainerStateTerminated} {read : TerminationRead}
    (h : readTermination d i sas trs t = .ok read) :
    read.trs.steps = trs.steps ∧ read.trs.unread = trs.unread := by
  unfold readTermination at h
  split at h
  · rw [← Except.ok.inj h]
    exact ⟨rfl, rfl⟩
  split at h
  · rw [← Except.ok.inj h]
    exact ⟨rfl, rfl⟩
  dsimp only at h
  split at h
  · cases h
  · rename_i hadd
    rw [← Except.ok.inj h]
    split at hadd
    · exact addTerminationResults_unread hadd
    · rw [(Prod.mk.inj (Except.ok.inj hadd)).1]
      exact ⟨rfl, rfl⟩

variable {specResults : List TaskResult} {ts : TaskSpec} {logs : List RunResult}

/-- One round of the loop: the state of the step is put among the others. Where the container has
ended, it is what its message was read as. -/
theorem setStepStatus_put (h : setStepStatus d specResults ts logs trs s = .ok (trs', errors)) :
    ∃ ss : StepState, ss.container = s.name ∧ ss.record = s.stepRecord ∧
      trs'.steps = putStepState ss trs.steps ∧ trs'.unread = trs.unread ∧
      ∀ t, s.state.terminated = some t → ∃ i sas trs read,
        readTermination d i sas trs t = .ok read ∧
        ss.state.terminated = some read.terminated ∧
        ss.terminationReason = read.terminationReason := by
  have hdone : ∀ results : List TaskRunResult, (if trs.isDone then
      { trs with results := trs.results ++ results } else trs).steps = trs.steps ∧
      (if trs.isDone then
        { trs with results := trs.results ++ results } else trs).unread = trs.unread := by
    intro results
    split <;> exact ⟨rfl, rfl⟩
  unfold setStepStatus at h
  cases hstate : s.state.terminated with
  | none =>
    simp only [hstate, Except.ok.injEq, Prod.mk.injEq] at h
    refine ⟨_, rfl, rfl, by rw [← h.1]; exact congrArg _ (hdone _).1, ?_, by simp⟩
    rw [← h.1]
    exact (hdone _).2
  | some t =>
    simp only [hstate] at h
    split at h
    · cases h
    · rename_i read hread
      obtain ⟨hsteps, hunread⟩ := readTermination_unread hread
      simp only [Except.ok.injEq, Prod.mk.injEq] at h
      refine ⟨_, rfl, rfl, by rw [← h.1, hsteps]; exact congrArg _ (hdone _).1, ?_, ?_⟩
      · rw [← h.1]
        exact hunread.trans (hdone _).2
      · rintro t' ⟨⟩
        exact ⟨_, _, _, read, hread, rfl, rfl⟩

theorem setStepStatuses_cons {rest : List ContainerStatus}
    (h : setStepStatuses d specResults ts logs (s :: rest) trs = .ok (trs', errors)) :
    ∃ trs₁ errors₁ errors₂, setStepStatus d specResults ts logs trs s = .ok (trs₁, errors₁) ∧
      setStepStatuses d specResults ts logs rest trs₁ = .ok (trs', errors₂) := by
  rw [setStepStatuses] at h
  split at h
  · cases h
  · rename_i trs₁ errors₁ hstep
    split at h
    · cases h
    · rename_i trs₂ errors₂ hrest
      refine ⟨trs₁, errors₁, errors₂, hstep, ?_⟩
      rw [hrest, (Prod.mk.inj (Except.ok.inj h)).1]

theorem setStepStatuses_record {stepStatuses : List ContainerStatus}
    (h : setStepStatuses d specResults ts logs stepStatuses trs = .ok (trs', errors)) :
    trs'.steps.map (·.record) = recordSteps stepStatuses (trs.steps.map (·.record)) ∧
      trs'.unread = trs.unread := by
  induction stepStatuses generalizing trs errors with
  | nil =>
    rw [← (Prod.mk.inj (Except.ok.inj h)).1]
    exact ⟨rfl, rfl⟩
  | cons s rest ih =>
    obtain ⟨trs₁, _, _, hstep, hrest⟩ := setStepStatuses_cons h
    obtain ⟨ss, -, hrecord, hput, hunread, -⟩ := setStepStatus_put hstep
    obtain ⟨hsteps, hunread'⟩ := ih hrest
    refine ⟨?_, hunread'.trans hunread⟩
    rw [hsteps, hput, record_putStepState, hrecord]
    rfl

/-- The loop begins with the status that has the results of the sidecar. -/
theorem exists_setStepStatuses {enabled : Bool} {logs : SidecarLogs}
    {stepStatuses : List ContainerStatus} {tr : TaskRun} {ts : Option TaskSpec}
    (h : setTaskRunStatusBasedOnStepStatus d enabled logs stepStatuses tr ts =
      .ok (trs, errors)) : ∃ specResults spec read trs₀ errors', trs₀.steps = tr.status.steps ∧
      trs₀.unread = tr.status.unread ∧
      setStepStatuses d specResults spec read stepStatuses trs₀ = .ok (trs, errors') := by
  have hsidecar : ∀ specResults results,
      (addSidecarResults d specResults results tr.status).1.steps = tr.status.steps ∧
      (addSidecarResults d specResults results tr.status).1.unread = tr.status.unread := by
    intro specResults results
    unfold addSidecarResults
    dsimp only
    split
    · split <;> exact ⟨rfl, rfl⟩
    · exact ⟨rfl, rfl⟩
  unfold setTaskRunStatusBasedOnStepStatus at h
  split at h
  · cases h
  dsimp only at h
  split at h
  · cases h
  split at h
  · cases h
  · rename_i hloop
    rw [← (Prod.mk.inj (Except.ok.inj h)).1]
    exact ⟨_, _, _, _, _, (hsidecar _ _).1, (hsidecar _ _).2, hloop⟩

end

/-- The pod with its statuses in the order of its spec. -/
def Pod.sorted (pod : Pod) : Pod :=
  { pod with containerStatuses := sortPodContainerStatuses pod.containerStatuses pod.containers }

def Pod.stepStatuses (pod : Pod) : List ContainerStatus :=
  pod.sorted.containerStatuses.filter fun s => isContainerStep s.name

def Pod.sidecarStatuses (pod : Pod) : List ContainerStatus :=
  (pod.sorted.containerStatuses.filter fun s =>
      !isContainerStep s.name && isContainerSidecar s.name) ++
    pod.initContainerStatuses.filter fun s => isContainerSidecar s.name

theorem makeTaskRunStatus_record {d : Decoders} {enabled : Bool} {logs : SidecarLogs} {now : Nat}
    {tr : TaskRun} {pod : Pod} {ts : Option TaskSpec} {trs : TaskRunStatus}
    {errors : List StatusError}
    (h : makeTaskRunStatus d enabled logs now tr pod ts = .ok (trs, errors)) :
    trs.steps.map (·.record) = recordSteps pod.stepStatuses (tr.status.steps.map (·.record)) ∧
      trs.sidecars = pod.sidecarStatuses.map sidecarState ∧ trs.podName = pod.name ∧
      trs.taskSpec = tr.status.taskSpec := by
  unfold makeTaskRunStatus at h
  dsimp only at h
  split at h
  · cases h
  · rename_i read _ hset
    obtain ⟨_, _, _, trs₀, _, hsteps, hunread, hloop⟩ := exists_setStepStatuses hset
    obtain ⟨hrecord, hunread'⟩ := setStepStatuses_record hloop
    obtain ⟨c, t, hcondition⟩ := updateCondition_eq d enabled now tr pod.sorted
    rw [Pod.sorted] at hcondition
    have hkept : read.unread = TaskRunStatus.unread { tr.status with
        succeeded := c, completionTime := t, podName := pod.name, sidecars := [] } := by
      rw [hunread', hunread, hcondition]
    have hsidecars : read.sidecars = [] := congrArg TaskRunStatus.sidecars hkept
    have hname : read.podName = pod.name := congrArg TaskRunStatus.podName hkept
    have hspec := congrArg TaskRunStatus.taskSpec hkept
    obtain ⟨rfl, -⟩ := Prod.mk.inj (Except.ok.inj h)
    refine ⟨?_, by simp only [hsidecars, List.nil_append]; rfl, hname, hspec⟩
    rw [hrecord, hsteps, hcondition]
    rfl

end TektonPipeline.PodStatus
