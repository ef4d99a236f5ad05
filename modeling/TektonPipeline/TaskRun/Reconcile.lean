import TektonPipeline.TaskRun.Status

/-! `ReconcileKind` of the TaskRun controller. What the API server, the listers, the
resolvers and the clock answer during one reconcile is a `Cluster`. -/

namespace TektonPipeline.TaskRunReconciler
open Tasks (TaskSpec Step)
open PodStatus (ContainerRecord StepState SidecarState ContainerStatus ContainerStateTerminated
  StatusError trimSidecarPrefix didTaskRunFail sidecarsReady sidecarState recordSteps)

inductive ApiError where
  | notFound
  | alreadyExists
  | concurrentModification
  | quotaConflict
  | exceededQuota
  | validationFailed
  | admissionFailed
  | other (message : String)
  deriving DecidableEq

def ApiError.message : ApiError → String
  | .notFound => "not found"
  | .alreadyExists => "already exists"
  | .concurrentModification =>
    "the object has been modified; please apply your changes to the latest version and try again"
  | .quotaConflict => "resourcequotas conflict"
  | .exceededQuota => "exceeded quota"
  | .validationFailed => "TaskRun validation failed"
  | .admissionFailed => "violates PodSecurity"
  | .other message => message

/-- The error classes `prepare` tells apart when it fetches a task or StepActions. -/
inductive Fetch (α : Type) where
  | inProgress
  | validationFailed (message : String)
  | retryable (message : String)
  | transient (message : String)
  | failed (message : String)
  | fetched (a : α)
  deriving DecidableEq

inductive VerificationResult where
  | skip
  | pass
  | warn (message : String)
  | error (message : String)
  deriving DecidableEq

inductive ReconcileError where
  | permanent (message : String)
  | requeueAfter (seconds : Nat)
  | transient (message : String)
  | status (errors : List StatusError)
  | panicked
  deriving DecidableEq

/-- `errors.Is(err, ErrSizeExceeded)` -/
def ReconcileError.isSizeExceeded : ReconcileError → Bool
  | .status errors => decide (.sizeExceeded ∈ errors)
  | _ => false

inductive SidecarMode where
  | tekton
  | versionUnknown (message : String)
  | kubernetes (native : Bool)
  deriving DecidableEq

/-- The checks of `prepare` behind the verification, each with its error. -/
structure Checks where
  requestResources : Option String := none
  resolvedTask : Option String := none
  enumParam : Option String := none
  paramArrayIndex : Option String := none
  defaultWorkspaces : Option String := none
  bindings : Option String := none
  affinityAssistantBehavior : Option String := none
  onlyOnePVC : Option String := none
  overrides : Option String := none
  deriving DecidableEq

structure Cluster where
  now : Time := 0
  isCancelled : Bool := false
  keepPodOnCancel : Bool := false
  sidecarLogs : Bool := false
  maxResultSize : Nat := 4096
  sidecarMode : SidecarMode := .tekton
  stopSidecars : Except ApiError Pod := .error .notFound
  imagePullBackOffTimeout : Nat := 0
  getPod : Except ApiError Pod := .error .notFound
  terminatePod : Option ApiError := none
  listPolicies : Option String := none
  getTask : Fetch (TaskSpec × Option VerificationResult) := .inProgress
  getStepActions : TaskSpec → Fetch (List Step) := fun ts => .fetched ts.steps
  checks : Checks := {}
  pods : List Pod := []
  podLister : Option String := none
  createPVC : Option String := none
  applySubstitutions : TaskSpec → Except String TaskSpec := .ok
  buildPod : Except ApiError Unit := .ok ()
  createPod : Option ApiError := none
  childName : String → String → String := fun parent suffix => parent ++ suffix
  updateReady : Option String := none
  decoders : PodStatus.Decoders := PodStatus.plainDecoders
  resultsSidecarLogs : Pod → PodStatus.SidecarLogs := fun _ => {}
  validateResults : Option String := none
  updateLabels : Option String := none
  updateStatus : Bool := true

def TaskRun.namespacedName (tr : TaskRun) : String := tr.ns ++ "/" ++ tr.name

def podFailureReasons : List String := ["ImagePullBackOff", "InvalidImageName"]

/-- `some none` ends the check of a pod without a failure. -/
def checkContainers (c : Cluster) (tr : TaskRun) (kind : String) :
    List ContainerRecord → Option (Option String)
  | [] => none
  | s :: rest =>
    match s.waiting with
    | some ⟨reason, message⟩ =>
      let failed := "the " ++ kind ++ " " ++ quoted s.name ++ " in TaskRun " ++ quoted tr.name ++
        " failed to pull the image " ++ quoted s.imageID
      let pulled := failed ++ ". The pod errored with the message: \"" ++ message ++ ".\""
      if reason ∉ podFailureReasons then checkContainers c tr kind rest
      else if reason = "ImagePullBackOff" ∧ c.imagePullBackOffTimeout ≠ 0 then
        match c.getPod with
        | .error e => some (some (failed ++ " and the pod with error: \"" ++ e.message ++ ".\""))
        | .ok pod =>
          if pod.conditions.any fun k =>
              decide (k.type ∈ ["Initialized", "PodReadyToStartContainers"]) &&
                decide (c.now - k.lastTransitionTime < c.imagePullBackOffTimeout) then
            some none
          else some (some pulled)
      else some (some pulled)
    | none => checkContainers c tr kind rest

def TaskRun.stepRecords (tr : TaskRun) : List ContainerRecord := tr.status.steps.map (·.record)

def TaskRun.sidecarRecords (tr : TaskRun) : List ContainerRecord :=
  tr.status.sidecars.map (·.record)

def checkPodFailed (c : Cluster) (tr : TaskRun) : Option String :=
  match checkContainers c tr "step" tr.stepRecords with
  | some r => r
  | none => (checkContainers c tr "sidecar" tr.sidecarRecords).getD none

/-- A step that neither runs nor waits is left as it is. -/
def terminateStep (tr : TaskRun) (reason : String) (ss : StepState) : StepState :=
  let terminated (startedAt : Time) : ContainerStateTerminated :=
    { exitCode := 1, reason := reason, startedAt := startedAt
      message := Text.utf8 ("Step " ++ ss.name ++ " terminated as pod " ++ tr.status.podName ++
        " is terminated") }
  let ss :=
    match ss.state.running with
    | some startedAt =>
      { ss with
        state := { ss.state with terminated := some (terminated startedAt), running := none }
        terminationReason := reason }
    | none => ss
  match ss.state.waiting with
  | some _ =>
    { ss with
      state := { ss.state with
        terminated := some (terminated tr.creationTimestamp), waiting := none }
      terminationReason := reason }
  | none => ss

def failTaskRun (c : Cluster) (tr : TaskRun) (reason message : String) :
    TaskRun × Option ReconcileError :=
  let failed := tr.markResourceFailed c.now reason message
  if failed.status.podName = "" then (failed, none)
  else
    let stopped : TaskRun :=
      { failed with
        status :=
          { failed.status with steps := failed.status.steps.map (terminateStep tr reason) } }
    match c.terminatePod with
    | none => (stopped, none)
    | some .notFound => (stopped, none)
    | some e => (stopped, some (.transient e.message))

def stoppedSidecar (s : ContainerStatus) : SidecarState where
  state :=
    match s.lastTerminated with
    | some last =>
      { terminated := some { last with
          reason := "Completed"
          message := Text.utf8 "Sidecar container successfully stopped by nop image" } }
    | none => s.state
  name := trimSidecarPrefix s.name
  container := s.name
  imageID := s.imageID

def updateStoppedSidecarStatus (pod : Pod) (tr : TaskRun) : TaskRun :=
  { tr with
    status := { tr.status with
      sidecars :=
        (pod.containerStatuses.filter fun s => isContainerSidecar s.name).map stoppedSidecar } }

def hasReason (reasons : List String) (c : Option Condition) : Bool :=
  match c with
  | none => false
  | some c => decide (c.reason ∈ reasons)

def stopSidecars (c : Cluster) (tr : TaskRun) : TaskRun × Option ReconcileError :=
  if tr.status.podName = "" then (tr, none)
  else if hasReason ["TaskRunCancelled", "TaskRunTimeout"] tr.status.succeeded then (tr, none)
  else match c.stopSidecars with
    | .ok pod =>
      if tr.status.sidecars.any fun s => s.state.terminated.isNone then
        (updateStoppedSidecarStatus pod tr, none)
      else (tr, none)
    | .error .notFound => (tr, some (.permanent ApiError.notFound.message))
    | .error .concurrentModification => (tr, some (.requeueAfter 1))
    | .error e => (tr.markResourceFailed c.now "TaskRunStopSidecarFailed" e.message, none)

def conditionMessage (c : Option Condition) : String := (c.map (·.message)).getD ""

def firstError (err : Option ReconcileError) (next : Option String) : Option ReconcileError :=
  match err with
  | some e => some e
  | none => next.map .transient

/-- `reported` is the pod whose status was read. -/
structure Outcome where
  taskRun : TaskRun
  created : Option Pod := none
  reported : Option Pod := none
  err : Option ReconcileError := none
  deriving DecidableEq

/-- The exit every path but one takes: a failed TaskRun with retries left is set up to run
again. -/
def finishReconcileUpdateEmitEvents (c : Cluster) (before : Option Condition) (o : Outcome) :
    Outcome :=
  let tr :=
    if o.taskRun.isFailure ∧ c.isCancelled = false ∧ o.taskRun.isRetriable then
      o.taskRun.retryTaskRun (conditionMessage o.taskRun.status.succeeded)
    else o.taskRun
  let labels := if !isUnknown tr.status.succeeded && !isUnknown before then none else c.updateLabels
  { o with taskRun := tr, err := firstError o.err labels }

/-- A task stored in the status is the source of truth: it is not fetched again and comes
without a verification result. -/
def getTaskData (c : Cluster) (tr : TaskRun) : Fetch (TaskSpec × Option VerificationResult) :=
  match tr.embeddedTaskSpec with
  | some ts => if tr.taskRefName = "" then .fetched (ts, none) else referenced
  | none => referenced
where
  referenced : Fetch (TaskSpec × Option VerificationResult) :=
    match tr.status.taskSpec with
    | some ts => .fetched (ts, none)
    | none => c.getTask

/-- What `prepare` makes of a fetch that gave nothing. -/
def fetchFailure {α : Type} (c : Cluster) (tr : TaskRun) (ongoing awaiting : String) :
    Fetch α → TaskRun × ReconcileError
  | .inProgress =>
    (tr.markResourceOngoing ongoing
      ("TaskRun " ++ tr.namespacedName ++ " awaiting remote " ++ awaiting),
      .transient "resource request in progress")
  | .validationFailed message =>
    (tr.markResourceFailed c.now "TaskValidationFailed" message, .permanent message)
  | .retryable message => (tr, .transient message)
  | .transient message => (tr, .transient message)
  | .failed message =>
    (tr.markResourceFailed c.now "TaskRunResolutionFailed" message, .permanent message)
  | .fetched _ => (tr, .transient "")

def TaskRun.storeTaskSpec (tr : TaskRun) (ts : TaskSpec) : TaskRun :=
  if tr.status.taskSpec.isSome then tr
  else { tr with status := { tr.status with taskSpec := some ts } }

def TaskRun.setTrustedResourcesVerified (tr : TaskRun) (c : Condition) : TaskRun :=
  { tr with status := { tr.status with trustedResourcesVerified := some c } }

def Checks.inOrder (k : Checks) : List (Option String × Option String) :=
  [(some "TaskRunValidationFailed", k.requestResources),
    (some "TaskRunValidationFailed", k.resolvedTask),
    (some "InvalidParamValue", k.enumParam),
    (some "TaskRunValidationFailed", k.paramArrayIndex),
    (some "TaskRunResolutionFailed", k.defaultWorkspaces),
    (some "TaskRunValidationFailed", k.bindings),
    (none, k.affinityAssistantBehavior),
    (some "TaskRunValidationFailed", k.onlyOnePVC),
    (some "TaskRunValidationFailed", k.overrides)]

/-- The first check that fails marks the TaskRun failed, unless it has no reason for it. -/
def runChecks (c : Cluster) (tr : TaskRun) :
    List (Option String × Option String) → TaskRun × Option ReconcileError
  | [] => (tr, none)
  | (_, none) :: rest => runChecks c tr rest
  | (none, some message) :: _ => (tr, some (.permanent message))
  | (some reason, some message) :: _ =>
    (tr.markResourceFailed c.now reason message, some (.permanent message))

def verify (c : Cluster) (tr : TaskRun) : Option VerificationResult →
    TaskRun × Option ReconcileError
  | some (.error message) =>
    ((tr.markResourceFailed c.now "ResourceVerificationFailed"
        message).setTrustedResourcesVerified ⟨.isFalse, "", message⟩,
      some (.permanent message))
  | some (.warn message) => (tr.setTrustedResourcesVerified ⟨.isFalse, "", message⟩, none)
  | some .pass => (tr.setTrustedResourcesVerified ⟨.isTrue, "", ""⟩, none)
  | some .skip => (tr, none)
  | none => (tr, none)

def verifyAndCheck (c : Cluster) (tr : TaskRun) (taskSpec : TaskSpec)
    (vr : Option VerificationResult) : TaskRun × Except ReconcileError TaskSpec :=
  match verify c tr vr with
  | (tr, some e) => (tr, .error e)
  | (tr, none) =>
    match runChecks c tr c.checks.inOrder with
    | (tr, some e) => (tr, .error e)
    | (tr, none) => (tr, .ok taskSpec)

/-- The task is stored before its StepActions are fetched, and both before the verification
result is looked at. -/
def prepare (c : Cluster) (tr : TaskRun) : TaskRun × Except ReconcileError TaskSpec :=
  match c.listPolicies with
  | some message =>
    (tr, .error (.transient ("failed to list VerificationPolicies from namespace " ++ tr.ns ++
      " with error " ++ message)))
  | none =>
    match getTaskData c tr with
    | .fetched (ts, vr) =>
      match c.getStepActions ts with
      | .fetched steps =>
        verifyAndCheck c (tr.storeTaskSpec { ts with steps := steps }) { ts with steps := steps } vr
      | f =>
        let (tr, e) := fetchFailure c (tr.storeTaskSpec ts) "ResolvingStepActionRef" "StepAction" f
        (tr, .error e)
    | f =>
      let (tr, e) := fetchFailure c tr "ResolvingTaskRef" "resource" f
      (tr, .error e)

def getPodByName (c : Cluster) (name : String) : Option Pod :=
  c.pods.find? fun p => p.name == name

def listedPod (c : Cluster) (tr : TaskRun) : Option Pod :=
  (c.pods.filter fun p => p.taskRunLabel == tr.name && (isControlledBy p tr &&
    (!didTaskRunFail p.toPod && !isPodArchived p tr.status))).getLast?

def findPod (c : Cluster) (tr : TaskRun) : Except ReconcileError (Option Pod) :=
  match c.podLister with
  | some message => .error (.transient message)
  | none =>
    if tr.status.podName = "" then .ok (listedPod c tr)
    else .ok (getPodByName c tr.status.podName)

def podNameSuffix (tr : TaskRun) : String :=
  let retries := tr.status.retriesStatus.length
  if retries = 0 then "-pod" else "-pod-retry" ++ toString retries

def builtPod (c : Cluster) (tr : TaskRun) (ts : TaskSpec) : Pod :=
  { name := c.childName tr.name (podNameSuffix tr)
    taskRunLabel := tr.name
    ownerReferences := [⟨tr.uid, true⟩]
    spec := ts }

inductive PodSource where
  | created (pod : Pod)
  | existing (pod : Pod)
  deriving DecidableEq

def PodSource.pod : PodSource → Pod
  | .created pod => pod
  | .existing pod => pod

def createPod (c : Cluster) (tr : TaskRun) (ts : TaskSpec) : Except ApiError PodSource :=
  match c.buildPod with
  | .error e => .error e
  | .ok () =>
    let pod := builtPod c tr ts
    match c.createPod with
    | none => .ok (.created pod)
    | some .alreadyExists =>
      match getPodByName c pod.name with
      | some p => .ok (.existing p)
      | none => .error .alreadyExists
    | some e => .error e

def TaskRun.clearStartTime (tr : TaskRun) : TaskRun :=
  { tr with status := { tr.status with startTime := none } }

def handlePodCreationError (c : Cluster) (tr : TaskRun) (e : ApiError) : TaskRun × ReconcileError :=
  match e with
  | .quotaConflict =>
    (tr.clearStartTime.markResourceOngoing "Pending"
      "tried to create pod, but it failed with ResourceQuotaConflictError", .requeueAfter 1)
  | .exceededQuota =>
    (tr.clearStartTime.markResourceOngoing "ExceededResourceQuota"
      ("TaskRun Pod exceeded available resources: " ++ e.message), .requeueAfter 60)
  | .validationFailed =>
    (tr.markResourceFailed c.now "TaskRunValidationFailed" e.message, .transient e.message)
  | .alreadyExists =>
    (tr.markResourceOngoing "Pending" "tried to create pod, but it already exists",
      .transient e.message)
  | .admissionFailed =>
    (tr.markResourceFailed c.now "PodAdmissionFailed" e.message, .transient e.message)
  | e =>
    let message := "failed to create task run pod " ++ quoted tr.name ++ ": " ++ e.message ++
      ". Maybe " ++
        (if tr.embeddedTaskSpec.isSome then "invalid TaskSpec"
          else "missing or invalid Task " ++ tr.ns ++ "/" ++ tr.taskRefName)
    (tr.markResourceFailed c.now "PodCreationFailed" message, .permanent message)

/-- What `MakeTaskRunStatus` is given of a TaskRun. -/
def TaskRun.forStatus (tr : TaskRun) : PodStatus.TaskRun where
  name := tr.name
  onError := tr.onError
  taskSpec := tr.embeddedTaskSpec
  status := tr.status.toTaskRunStatus

def makeTaskRunStatus (c : Cluster) (tr : TaskRun) (pod : Pod) (taskSpec : TaskSpec) :
    Except PodStatus.Panic (TaskRun × List StatusError) :=
  (PodStatus.makeTaskRunStatus c.decoders c.sidecarLogs (c.resultsSidecarLogs pod) c.now
    tr.forStatus pod.toPod (some taskSpec)).map fun r =>
      ({ tr with status := { tr.status with toTaskRunStatus := r.1 } }, r.2)

/-- The status is made with the task as it was before the substitutions. -/
def report (c : Cluster) (tr : TaskRun) (taskSpec : TaskSpec) (source : PodSource)
    (created : Option Pod) : Outcome :=
  let pod := source.pod
  let ready := if sidecarsReady pod.toPod then c.updateReady else none
  match ready with
  | some message => { taskRun := tr, created := created, err := some (.transient message) }
  | none =>
    let o : Outcome := { taskRun := tr, created := created, reported := some pod }
    match makeTaskRunStatus c tr pod taskSpec with
    | .error _ => { o with err := some .panicked }
    | .ok (tr, e :: errors) => { o with taskRun := tr, err := some (.status (e :: errors)) }
    | .ok (tr, []) =>
      match c.validateResults with
      | some message =>
        { o with
          taskRun := tr.markResourceFailed c.now "TaskRunValidationFailed" message
          err := some (.transient message) }
      | none => { o with taskRun := tr }

def TaskRun.setTaskSpec (tr : TaskRun) (ts : TaskSpec) : TaskRun :=
  { tr with status := { tr.status with taskSpec := some ts } }

def pvcFailure (tr : TaskRun) (message : String) : String :=
  "Failed to create PVC for TaskRun " ++ tr.namespacedName ++ " workspaces correctly: " ++ message

/-- A claim for a workspace is made only where the pod is still to be created. -/
def pvcError (c : Cluster) (tr : TaskRun) (found : Option Pod) : Option String :=
  if found.isNone ∧ tr.hasVolumeClaimTemplate then c.createPVC else none

def createAndReport (c : Cluster) (tr : TaskRun) (taskSpec ts : TaskSpec) : Outcome :=
  match createPod c tr ts with
  | .error e =>
    let (tr, err) := handlePodCreationError c tr e
    { taskRun := tr, err := some err }
  | .ok (.created pod) => report c tr taskSpec (.created pod) (some pod)
  | .ok (.existing pod) => report c tr taskSpec (.existing pod) none

def reconcile (c : Cluster) (tr : TaskRun) (taskSpec : TaskSpec) : Outcome :=
  match findPod c tr with
  | .error e => { taskRun := tr, err := some e }
  | .ok found =>
    match pvcError c tr found with
    | some message =>
      { taskRun := tr.markResourceFailed c.now "CouldntCreateWorkspacePVC" (pvcFailure tr message)
        err := some (.permanent message) }
    | none =>
      match c.applySubstitutions taskSpec with
      | .error message => { taskRun := tr, err := some (.transient message) }
      | .ok ts =>
        match found with
        | some pod => report c (tr.setTaskSpec ts) taskSpec (.existing pod) none
        | none => createAndReport c (tr.setTaskSpec ts) taskSpec ts

def failAndFinish (c : Cluster) (before : Option Condition) (tr : TaskRun)
    (reason message : String) : Outcome :=
  let (tr, err) := failTaskRun c tr reason message
  finishReconcileUpdateEmitEvents c before { taskRun := tr, err := err }

def reconcileDone (c : Cluster) (before : Option Condition) (tr : TaskRun) : Outcome :=
  match c.sidecarMode with
  | .versionUnknown message => { taskRun := tr, err := some (.transient message) }
  | .kubernetes true => finishReconcileUpdateEmitEvents c before { taskRun := tr }
  | _ =>
    match stopSidecars c tr with
    | (tr, some e) => { taskRun := tr, err := some e }
    | (tr, none) => finishReconcileUpdateEmitEvents c before { taskRun := tr }

/-- The pod whose status the TaskRun has got. -/
def Outcome.copied (o : Outcome) : Option Pod :=
  if o.err = some .panicked then none else o.reported

def Outcome.exceedsSize (o : Outcome) : Bool := o.err.any (·.isSizeExceeded)

def failSizeExceeded (c : Cluster) (tr : TaskRun) : TaskRun × Option ReconcileError :=
  failTaskRun c tr "TaskRunResultLargerThanAllowedLimit"
    ("[User error]  TaskRun " ++ quoted (quoted tr.name) ++
      " failed: results exceeded size limit " ++
      toString c.maxResultSize ++ " bytes")

/-- A panic leaves the TaskRun as it is stored. -/
def finishReconciled (c : Cluster) (before : Option Condition) (stored : TaskRun) (o : Outcome) :
    Outcome :=
  if o.err = some .panicked then { o with taskRun := stored }
  else if o.exceedsSize then
    let (failed, err) := failSizeExceeded c o.taskRun
    finishReconcileUpdateEmitEvents c before { o with taskRun := failed, err := err }
  else finishReconcileUpdateEmitEvents c before o

def TaskRun.start (tr : TaskRun) (c : Cluster) : TaskRun :=
  if tr.hasStarted then tr else tr.initializeConditions c.now

def reconcileKind (c : Cluster) (stored : TaskRun) : Outcome :=
  let before := stored.status.succeeded
  let tr := stored.start c
  if tr.isDone then reconcileDone c before tr
  else if c.isCancelled then
    failAndFinish c before tr "TaskRunCancelled"
      ("TaskRun " ++ quoted tr.name ++ " was cancelled. " ++ tr.statusMessage)
  else if tr.hasTimedOut c.now then
    failAndFinish c before tr "TaskRunTimeout"
      ("TaskRun " ++ quoted tr.name ++ " failed to finish within " ++ quoted (toString tr.timeout))
  else match checkPodFailed c tr with
    | some message => failAndFinish c before tr "TaskRunImagePullFailed" message
    | none =>
      match prepare c tr with
      | (tr, .error e) => finishReconcileUpdateEmitEvents c none { taskRun := tr, err := some e }
      | (tr, .ok taskSpec) =>
        finishReconciled c tr.status.succeeded stored (reconcile c tr taskSpec)

/-- What no reconcile but a retry changes: who the TaskRun is, and its archive. -/
def TaskRun.identity (tr : TaskRun) : String × String × Nat × List StatusFields :=
  (tr.name, tr.uid, tr.retries, tr.status.retriesStatus)

/-- The TaskRun without the marks that a failed preparation may leave. -/
def TaskRun.unmarked (tr : TaskRun) : TaskRun :=
  { tr with status := { tr.status with
      succeeded := none, trustedResourcesVerified := none, completionTime := none } }

/-- The TaskRun with what a reconcile keeps of its status, the exit and the task apart. -/
def TaskRun.base (tr : TaskRun) : TaskRun :=
  { tr with status := { taskSpec := tr.status.taskSpec, retriesStatus := tr.status.retriesStatus } }

theorem identity_of_base {tr tr' : TaskRun} (h : tr'.base = tr.base) :
    tr'.identity = tr.identity := by
  have hid := congrArg TaskRun.identity h
  exact hid

theorem base_of_unmarked {tr tr' : TaskRun} (h : tr'.unmarked = tr.unmarked) :
    tr'.base = tr.base := by
  have hbase := congrArg TaskRun.base h
  exact hbase

theorem storeTaskSpec_identity (tr : TaskRun) (ts : TaskSpec) :
    (tr.storeTaskSpec ts).identity = tr.identity := by
  unfold TaskRun.storeTaskSpec
  split <;> rfl

theorem start_base (tr : TaskRun) (c : Cluster) : (tr.start c).base = tr.base := by
  unfold TaskRun.start
  split <;> rfl

section
variable (c : Cluster) (tr : TaskRun) (taskSpec : TaskSpec)

theorem failTaskRun_base (reason message : String) :
    (failTaskRun c tr reason message).1.base = tr.base := by
  unfold failTaskRun
  dsimp only
  split
  · rfl
  · split <;> rfl

theorem stopSidecars_base : (stopSidecars c tr).1.base = tr.base := by
  unfold stopSidecars
  split
  · rfl
  split
  · rfl
  split
  · split <;> rfl
  all_goals rfl

theorem fetchFailure_unmarked {α : Type} (ongoing awaiting : String) (f : Fetch α) :
    (fetchFailure c tr ongoing awaiting f).1.unmarked = tr.unmarked := by
  cases f <;> rfl

theorem runChecks_unmarked (checks : List (Option String × Option String)) :
    (runChecks c tr checks).1.unmarked = tr.unmarked := by
  induction checks with
  | nil => rfl
  | cons check rest ih =>
    obtain ⟨reason, message⟩ := check
    cases message with
    | none => cases reason <;> exact ih
    | some message => cases reason <;> rfl

theorem verifyAndCheck_unmarked (vr : Option VerificationResult) :
    (verifyAndCheck c tr taskSpec vr).1.unmarked = tr.unmarked := by
  have hverify : (verify c tr vr).1.unmarked = tr.unmarked := by
    unfold verify
    split <;> rfl
  unfold verifyAndCheck
  rcases hv : verify c tr vr with ⟨verified, _ | e⟩ <;> rw [hv] at hverify
  · have hchecks := (runChecks_unmarked c verified c.checks.inOrder).trans hverify
    dsimp only
    rcases hk : runChecks c verified c.checks.inOrder with ⟨checked, _ | e⟩ <;>
      rw [hk] at hchecks <;> exact hchecks
  · exact hverify

theorem prepare_identity : (prepare c tr).1.identity = tr.identity := by
  have hmarked {tr tr' : TaskRun} (h : tr'.unmarked = tr.unmarked) : tr'.identity = tr.identity :=
    identity_of_base (base_of_unmarked h)
  unfold prepare
  split
  · rfl
  split
  · split
    · exact (hmarked (verifyAndCheck_unmarked c _ _ _)).trans (storeTaskSpec_identity tr _)
    · exact (hmarked (fetchFailure_unmarked c _ _ _ _)).trans (storeTaskSpec_identity tr _)
  · exact hmarked (fetchFailure_unmarked c tr _ _ _)

/-- The TaskRun once the status of a pod was copied into it. -/
structure Copied (tr : TaskRun) (pod : Pod) (tr' : TaskRun) : Prop where
  base : tr'.base = tr.base
  podName : tr'.status.podName = pod.name
  steps : tr'.stepRecords = recordSteps pod.stepStatuses tr.stepRecords
  sidecars : tr'.sidecarRecords = pod.sidecarStatuses.map fun s => (sidecarState s).record
  startTime : tr'.status.startTime = tr.status.startTime

theorem makeTaskRunStatus_copied {c : Cluster} {tr made : TaskRun} {pod : Pod}
    {taskSpec : TaskSpec} {errors : List StatusError}
    (h : makeTaskRunStatus c tr pod taskSpec = .ok (made, errors)) : Copied tr pod made := by
  unfold makeTaskRunStatus at h
  cases hmake : PodStatus.makeTaskRunStatus c.decoders c.sidecarLogs (c.resultsSidecarLogs pod)
      c.now tr.forStatus pod.toPod (some taskSpec) with
  | error p => simp [hmake, Except.map] at h
  | ok r =>
    obtain ⟨hsteps, hsidecars, hname, hspec⟩ := PodStatus.makeTaskRunStatus_record hmake
    simp only [hmake, Except.map, Except.ok.injEq, Prod.mk.injEq] at h
    rw [← h.1]
    refine ⟨?_, hname, hsteps, ?_, rfl⟩
    · simp only [TaskRun.base, hspec]
      rfl
    · simp [TaskRun.sidecarRecords, hsidecars, Function.comp_def]

theorem report_cases (source : PodSource) (created : Option Pod) :
    ((report c tr taskSpec source created).copied = none ∧
      (report c tr taskSpec source created).taskRun = tr ∧
      (report c tr taskSpec source created).exceedsSize = false) ∨
    ((report c tr taskSpec source created).copied = some source.pod ∧
      Copied tr source.pod (report c tr taskSpec source created).taskRun) := by
  unfold report
  dsimp only
  split
  · exact .inl ⟨rfl, rfl, rfl⟩
  split
  · exact .inl ⟨rfl, rfl, rfl⟩
  · rename_i hmake
    exact .inr ⟨rfl, makeTaskRunStatus_copied hmake⟩
  · rename_i made hmake
    have hcopied := makeTaskRunStatus_copied hmake
    split
    · exact .inr ⟨rfl, hcopied.base, hcopied.podName, hcopied.steps, hcopied.sidecars,
        hcopied.startTime⟩
    · exact .inr ⟨rfl, hcopied⟩

theorem report_base (source : PodSource) (created : Option Pod) :
    (report c tr taskSpec source created).taskRun.base = tr.base := by
  rcases report_cases c tr taskSpec source created with ⟨-, heq, -⟩ | ⟨-, hcopied⟩
  · rw [heq]
  · exact hcopied.base

theorem createAndReport_base (ts : TaskSpec) :
    (createAndReport c tr taskSpec ts).taskRun.base = tr.base := by
  unfold createAndReport
  split
  · rename_i e _
    cases e <;> rfl
  · exact report_base c tr taskSpec _ _
  · exact report_base c tr taskSpec _ _

theorem reconcile_identity : (reconcile c tr taskSpec).taskRun.identity = tr.identity := by
  unfold reconcile
  split
  · rfl
  split
  · rfl
  split
  · rfl
  · rename_i ts _
    split
    · exact (identity_of_base (report_base c (tr.setTaskSpec ts) taskSpec _ _)).trans rfl
    · exact (identity_of_base (createAndReport_base c (tr.setTaskSpec ts) taskSpec ts)).trans rfl

end

/-- The TaskRun the next reconcile finds; where the update of the status fails it is the one
this reconcile found. -/
def nextTaskRun (tr : TaskRun) (c : Cluster) : TaskRun :=
  if c.updateStatus then (reconcileKind c tr).taskRun else tr

/-- What `reconcileKind` hands to `reconcile`, if it gets that far. -/
def preparation (c : Cluster) (stored : TaskRun) : Option (TaskRun × TaskSpec) :=
  let tr := stored.start c
  if tr.isDone ∨ c.isCancelled ∨ tr.hasTimedOut c.now ∨ (checkPodFailed c tr).isSome then none
  else match prepare c tr with
    | (_, .error _) => none
    | (tr, .ok taskSpec) => some (tr, taskSpec)

theorem finishReconciled_pods (c : Cluster) (before : Option Condition) (stored : TaskRun)
    (o : Outcome) : (finishReconciled c before stored o).created = o.created ∧
      (finishReconciled c before stored o).reported = o.reported := by
  unfold finishReconciled
  split
  · exact ⟨rfl, rfl⟩
  split
  · exact ⟨rfl, rfl⟩
  · exact ⟨rfl, rfl⟩

/-- The TaskRun when its sidecars are stopped, if that is tried. -/
def TaskRun.stopped (tr : TaskRun) (c : Cluster) : TaskRun :=
  match c.sidecarMode with
  | .versionUnknown _ => tr
  | .kubernetes true => tr
  | _ => (stopSidecars c tr).1

theorem stopped_base (tr : TaskRun) (c : Cluster) : (tr.stopped c).base = tr.base := by
  unfold TaskRun.stopped
  split
  · rfl
  · rfl
  · exact stopSidecars_base c tr

theorem reconcileDone_cases (c : Cluster) (before : Option Condition) (tr : TaskRun) :
    (∃ e, reconcileDone c before tr = { taskRun := tr.stopped c, err := some e }) ∨
      reconcileDone c before tr =
        finishReconcileUpdateEmitEvents c before { taskRun := tr.stopped c } := by
  unfold reconcileDone TaskRun.stopped
  cases c.sidecarMode with
  | versionUnknown message => exact .inl ⟨_, rfl⟩
  | tekton => rcases stopSidecars c tr with ⟨stopped, _ | e⟩ <;> simp
  | kubernetes native =>
    cases native with
    | true => exact .inr rfl
    | false => rcases stopSidecars c tr with ⟨stopped, _ | e⟩ <;> simp

theorem reconcileDone_pods (c : Cluster) (before : Option Condition) (tr : TaskRun) :
    (reconcileDone c before tr).created = none ∧ (reconcileDone c before tr).reported = none := by
  rcases reconcileDone_cases c before tr with ⟨e, heq⟩ | heq <;> rw [heq] <;> exact ⟨rfl, rfl⟩

/-- The attempt is ended before its task is looked at. -/
abbrev Stopped (c : Cluster) (tr : TaskRun) : Prop :=
  c.isCancelled = true ∨ tr.hasTimedOut c.now = true ∨ (checkPodFailed c tr).isSome = true

section
variable {c : Cluster} {tr : TaskRun}

theorem reconcileKind_of_isDone (h : (tr.start c).isDone = true) :
    reconcileKind c tr = reconcileDone c tr.status.succeeded (tr.start c) := by
  simp [reconcileKind, h]

theorem reconcileKind_of_stopped (hdone : ¬ (tr.start c).isDone = true)
    (hstop : Stopped c (tr.start c)) : ∃ reason message,
      reconcileKind c tr = failAndFinish c tr.status.succeeded (tr.start c) reason message := by
  unfold reconcileKind
  dsimp only
  rw [if_neg hdone]
  by_cases hcancel : c.isCancelled = true
  · rw [if_pos hcancel]
    exact ⟨_, _, rfl⟩
  by_cases htimeout : (tr.start c).hasTimedOut c.now = true
  · rw [if_neg hcancel, if_pos htimeout]
    exact ⟨_, _, rfl⟩
  rw [if_neg hcancel, if_neg htimeout]
  obtain ⟨message, hpod⟩ := Option.isSome_iff_exists.mp
    ((hstop.resolve_left hcancel).resolve_left htimeout)
  rw [hpod]
  exact ⟨_, _, rfl⟩

theorem reconcileKind_of_going (hdone : ¬ (tr.start c).isDone = true)
    (hgo : ¬ Stopped c (tr.start c)) : reconcileKind c tr =
      match prepare c (tr.start c) with
      | (tr, .error e) => finishReconcileUpdateEmitEvents c none { taskRun := tr, err := some e }
      | (prepared, .ok taskSpec) =>
        finishReconciled c prepared.status.succeeded tr (reconcile c prepared taskSpec) := by
  rw [not_or, not_or] at hgo
  obtain ⟨hcancel, htimeout, hpod⟩ := hgo
  have hnone := Option.not_isSome_iff_eq_none.mp hpod
  rcases hprepare : prepare c (tr.start c) with ⟨tr', e | taskSpec⟩ <;>
    simp [reconcileKind, hdone, hcancel, htimeout, hnone, hprepare]

end

theorem reconcileKind_pods (c : Cluster) (stored : TaskRun) : (reconcileKind c stored).created =
        (preparation c stored).bind (fun p => (reconcile c p.1 p.2).created) ∧
      (reconcileKind c stored).reported =
        (preparation c stored).bind (fun p => (reconcile c p.1 p.2).reported) := by
  unfold preparation
  dsimp only
  by_cases hdone : (stored.start c).isDone = true
  · rw [reconcileKind_of_isDone hdone, if_pos (.inl hdone)]
    exact reconcileDone_pods c _ _
  by_cases hstop : Stopped c (stored.start c)
  · obtain ⟨reason, message, heq⟩ := reconcileKind_of_stopped hdone hstop
    rw [heq, if_pos (.inr hstop)]
    exact ⟨rfl, rfl⟩
  rw [reconcileKind_of_going hdone hstop, if_neg (not_or.mpr ⟨hdone, hstop⟩)]
  rcases prepare c (stored.start c) with ⟨tr, e | ts⟩
  · exact ⟨rfl, rfl⟩
  · exact finishReconciled_pods c _ stored _

variable {c : Cluster} {tr tr' : TaskRun}

theorem runChecks_ok {checks : List (Option String × Option String)}
    (h : runChecks c tr checks = (tr', none)) : tr' = tr := by
  induction checks with
  | nil => exact (Prod.mk.inj h).1.symm
  | cons check rest ih =>
    obtain ⟨reason, message⟩ := check
    cases message with
    | none => cases reason <;> exact ih h
    | some message => cases reason <;> simp [runChecks] at h

theorem verify_ok {vr : Option VerificationResult} (h : verify c tr vr = (tr', none)) :
    (∀ message, vr ≠ some (.error message)) ∧
      (tr' = tr ∨ ∃ k, tr' = tr.setTrustedResourcesVerified k) := by
  unfold verify at h
  split at h
  · simp at h
  · exact ⟨by simp, .inr ⟨_, (Prod.mk.inj h).1.symm⟩⟩
  · exact ⟨by simp, .inr ⟨_, (Prod.mk.inj h).1.symm⟩⟩
  · exact ⟨by simp, .inl (Prod.mk.inj h).1.symm⟩
  · exact ⟨by simp, .inl (Prod.mk.inj h).1.symm⟩

theorem prepare_ok {taskSpec : TaskSpec} (h : prepare c tr = (tr', .ok taskSpec)) :
    c.listPolicies = none ∧ ∃ ts vr steps, getTaskData c tr = .fetched (ts, vr) ∧
      c.getStepActions ts = .fetched steps ∧ taskSpec = { ts with steps := steps } ∧
      (∀ message, vr ≠ some (.error message)) ∧
      (tr' = tr.storeTaskSpec taskSpec ∨
        ∃ k, tr' = (tr.storeTaskSpec taskSpec).setTrustedResourcesVerified k) := by
  unfold prepare at h
  split at h
  · simp at h
  rename_i hlist
  split at h
  · rename_i ts vr hdata
    split at h
    · rename_i steps hsteps
      unfold verifyAndCheck at h
      split at h
      · simp at h
      rename_i verified hverify
      split at h
      · simp at h
      rename_i checked hchecks
      obtain ⟨rfl, htask⟩ := Prod.mk.inj h
      obtain rfl := Except.ok.inj htask
      obtain rfl := runChecks_ok hchecks
      obtain ⟨hpass, hkeep⟩ := verify_ok hverify
      exact ⟨hlist, ts, vr, steps, hdata, hsteps, rfl, hpass, hkeep⟩
    · simp at h
  · simp at h

end TektonPipeline.TaskRunReconciler
