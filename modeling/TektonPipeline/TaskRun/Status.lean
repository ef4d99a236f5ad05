import TektonPipeline.Pod.Status

/-! A TaskRun, and the pods of its namespace. -/

namespace TektonPipeline.TaskRunReconciler
open Tasks (TaskSpec)

/-- `templateClaim` is the name of the claim that is made of a template. -/
structure WorkspaceBinding where
  name : String
  claimName : Option String := none
  templateClaim : Option String := none
  deriving DecidableEq

structure OwnerReference where
  uid : String
  controller : Bool
  deriving DecidableEq

/-- `spec` is the task that the pod was built from. -/
structure Pod extends PodStatus.Pod where
  taskRunLabel : String := ""
  ownerReferences : List OwnerReference := []
  spec : TaskSpec := {}
  deriving DecidableEq

structure StatusFields extends PodStatus.TaskRunStatus where
  trustedResourcesVerified : Option Condition := none
  startTime : Option Time := none
  deriving DecidableEq

/-- An archived attempt carries no archive of its own. -/
structure TaskRunStatus extends StatusFields where
  retriesStatus : List StatusFields := []
  deriving DecidableEq

/-- `onError` is the annotation of that name. -/
structure TaskRun where
  ns : String := "default"
  name : String
  uid : String
  creationTimestamp : Time := 0
  retries : Nat := 0
  timeout : Nat := 0
  statusMessage : String := ""
  embeddedTaskSpec : Option TaskSpec := none
  taskRefName : String := ""
  onError : Option String := none
  params : Api.Params := []
  workspaces : List WorkspaceBinding := []
  status : TaskRunStatus := {}
  deriving DecidableEq

def TaskRun.isDone (tr : TaskRun) : Bool := !isUnknown tr.status.succeeded

def TaskRun.isSuccessful (tr : TaskRun) : Bool := hasStatus .isTrue tr.status.succeeded

def TaskRun.isFailure (tr : TaskRun) : Bool := hasStatus .isFalse tr.status.succeeded

def TaskRun.hasStarted (tr : TaskRun) : Bool := tr.status.startTime.isSome

def TaskRun.isRetriable (tr : TaskRun) : Bool := tr.status.retriesStatus.length < tr.retries

def TaskRun.hasVolumeClaimTemplate (tr : TaskRun) : Bool :=
  tr.workspaces.any fun b => b.templateClaim.isSome

def TaskRun.hasTimedOut (tr : TaskRun) (now : Time) : Bool :=
  match tr.status.startTime with
  | none => false
  | some start => tr.timeout ≠ 0 && tr.timeout < now - start

def TaskRun.setSucceeded (tr : TaskRun) (c : Condition) : TaskRun :=
  { tr with status := { tr.status with succeeded := some c } }

def TaskRun.markResourceOngoing (tr : TaskRun) (reason message : String) : TaskRun :=
  tr.setSucceeded ⟨.unknown, reason, message⟩

def TaskRun.markResourceFailed (tr : TaskRun) (now : Time) (reason message : String) : TaskRun :=
  { tr with
    status := { tr.status with
      succeeded := some ⟨.isFalse, reason, message⟩
      completionTime := some now } }

/-- A start before the creation of the TaskRun is moved to its creation. -/
def TaskRun.initializeConditions (tr : TaskRun) (now : Time) : TaskRun :=
  let c := tr.status.succeeded.getD ⟨.unknown, "", ""⟩
  { tr with
    status := { tr.status with
      startTime := some (max now tr.creationTimestamp)
      succeeded := some { c with reason := "Started" } } }

/-- `retryTaskRun`: the status is archived, the stored task is kept. -/
def TaskRun.retryTaskRun (tr : TaskRun) (message : String) : TaskRun :=
  { tr with
    status := { tr.status with
      retriesStatus := tr.status.retriesStatus ++ [tr.status.toStatusFields]
      startTime := none
      completionTime := none
      podName := ""
      results := []
      succeeded := some ⟨.unknown, "ToBeRetried", message⟩ } }

def isControlledBy (pod : Pod) (tr : TaskRun) : Bool :=
  match pod.ownerReferences.find? fun r => r.controller with
  | none => false
  | some r => r.uid == tr.uid

def isPodArchived (pod : Pod) (trs : TaskRunStatus) : Bool :=
  trs.retriesStatus.any fun r => r.podName == pod.name

end TektonPipeline.TaskRunReconciler
