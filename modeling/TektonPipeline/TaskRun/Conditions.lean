/-! Conditions, the phases of a pod and the names of its containers, as the controllers read
them. -/

namespace TektonPipeline.TaskRunReconciler

abbrev Time := Nat

inductive ConditionStatus where
  | isTrue
  | isFalse
  | unknown
  deriving DecidableEq

structure Condition where
  status : ConditionStatus
  reason : String := ""
  message : String := ""
  deriving DecidableEq

inductive PodPhase where
  | pending
  | running
  | succeeded
  | failed
  | unknown
  deriving DecidableEq

structure PodCondition where
  type : String
  status : ConditionStatus
  reason : String := ""
  message : String := ""
  lastTransitionTime : Time := 0
  deriving DecidableEq

/-- `nil` is unknown, as in the condition API. -/
def isUnknown (c : Option Condition) : Bool :=
  match c with
  | none => true
  | some c => c.status == .unknown

def hasStatus (s : ConditionStatus) (c : Option Condition) : Bool :=
  match c with
  | none => false
  | some c => c.status == s

def ConditionStatus.text : ConditionStatus → String
  | .isTrue => "True"
  | .isFalse => "False"
  | .unknown => "Unknown"

def isContainerStep (name : String) : Bool := "step-".toList.isPrefixOf name.toList

def isContainerSidecar (name : String) : Bool := "sidecar-".toList.isPrefixOf name.toList

def reservedResultsSidecar : String := "sidecar-tekton-log-results"

def quoted (s : String) : String := "\"" ++ s ++ "\""

end TektonPipeline.TaskRunReconciler
