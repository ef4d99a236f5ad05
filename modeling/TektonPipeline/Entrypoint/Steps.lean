import TektonPipeline.Entrypoint.Go
import TektonPipeline.Library.Transition

/-! The steps of one pod: the flags `orderContainers` gives to each entrypoint, and the
entrypoints running side by side over one file system. -/

namespace TektonPipeline.Entrypoint
open Api

structure Container where
  name : String
  command : List String := []
  args : List String := []
  deriving DecidableEq

structure StepSpec where
  onError : String := ""
  timeout : Option Int := none
  results : List String := []
  whens : WhenExpressions := []
  deriving DecidableEq

structure TaskSpec where
  steps : List StepSpec
  results : List String := []
  deriving DecidableEq

structure Debug where
  onFailure : Bool := false
  beforeSteps : List String := []
  deriving DecidableEq

def runFile (i : Nat) (name : String) : String :=
  "/tekton/run/" ++ toString i ++ "/" ++ name

def downwardReady : String := "/tekton/downward/ready"

def flagList (names : List String) : List String :=
  if names = [] then [""] else names

def onErrorMessage (onError : String) : String :=
  "task step onError must be either \"continue\" or \"stopAndFail\" but it is set to an " ++
    "invalid value \"" ++ onError ++ "\""

/-- The entrypoint that the flags of container `i` describe. -/
def entrypointOf (taskSpec : Option TaskSpec) (debug : Option Debug)
    (waitForReady : Bool) (i : Nat) (c : Container) : Except String Entrypointer :=
  let spec : StepSpec := (taskSpec.bind fun t => t.steps[i]?).getD {}
  if spec.onError ∈ ["", "continue", "stopAndFail"] then
    .ok
      { command := c.command ++ c.args
        waitFiles :=
          if i = 0 then [if waitForReady then downwardReady else ""]
          else [runFile (i - 1) "out"]
        waitFileContent := i = 0 && waitForReady
        postFile := runFile i "out"
        stepResults := flagList spec.results
        results := flagList ((taskSpec.map (·.results)).getD [])
        timeout := spec.timeout
        breakpointOnFailure := (debug.map (·.onFailure)).getD false
        debugBeforeStep := (debug.map fun d => decide (c.name ∈ d.beforeSteps)).getD false
        onError := spec.onError
        stepMetadataDir := runFile i "status"
        stepWhenExpressions := spec.whens }
  else .error (onErrorMessage spec.onError)

def orderFrom (taskSpec : Option TaskSpec) (debug : Option Debug)
    (waitForReady : Bool) : Nat → List Container → Except String (List Entrypointer)
  | _, [] => .ok []
  | i, c :: cs =>
    match entrypointOf taskSpec debug waitForReady i c with
    | .error message => .error message
    | .ok e =>
      match orderFrom taskSpec debug waitForReady (i + 1) cs with
      | .error message => .error message
      | .ok es => .ok (e :: es)

def orderContainers (steps : List Container) (taskSpec : Option TaskSpec)
    (debug : Option Debug) (waitForReady : Bool) :
    Except String (List Entrypointer) :=
  if steps = [] then .error "no steps specified"
  else orderFrom taskSpec debug waitForReady 0 steps

/-- What the order of the steps rests on: step `i` waits for the post file of step `i - 1`
and writes its own. -/
structure OrderedAt (i : Nat) (e : Entrypointer) : Prop where
  postFile : e.postFile = runFile i "out"
  waitFiles : i ≠ 0 → e.waitFiles = [runFile (i - 1) "out"]
  waitFileContent : i ≠ 0 → e.waitFileContent = false

variable {ready : Bool} {e : Entrypointer} {debug : Option Debug}

theorem orderedAt_of_entrypointOf {taskSpec : Option TaskSpec} {i : Nat} {c : Container}
    (h : entrypointOf taskSpec debug ready i c = .ok e) : OrderedAt i e := by
  unfold entrypointOf at h
  dsimp only at h
  split at h
  · cases h
    exact ⟨rfl, fun hi => by simp [hi], fun hi => by simp [hi]⟩
  · cases h

theorem orderedAt_of_orderFrom {taskSpec : Option TaskSpec} {i k : Nat} {cs : List Container}
    {es : List Entrypointer} (h : orderFrom taskSpec debug ready i cs = .ok es)
    (he : es[k]? = some e) : OrderedAt (i + k) e := by
  induction cs generalizing i k es with
  | nil =>
    cases h
    simp at he
  | cons c cs ih =>
    unfold orderFrom at h
    cases hc : entrypointOf taskSpec debug ready i c with
    | error message => simp [hc] at h
    | ok first =>
      cases hr : orderFrom taskSpec debug ready (i + 1) cs with
      | error message => simp [hc, hr] at h
      | ok rest =>
        simp only [hc, hr, Except.ok.injEq] at h
        subst h
        cases k with
        | zero =>
          simp only [List.getElem?_cons_zero, Option.some.injEq] at he
          subst he
          exact orderedAt_of_entrypointOf hc
        | succ k =>
          have := ih hr (by simpa using he)
          rwa [show i + 1 + k = i + (k + 1) by omega] at this

theorem orderedAt_of_orderContainers {steps : List Container} {taskSpec : Option TaskSpec} {k : Nat}
    {es : List Entrypointer} (h : orderContainers steps taskSpec debug ready = .ok es)
    (he : es[k]? = some e) : OrderedAt k e := by
  unfold orderContainers at h
  split at h
  · cases h
  · simpa using orderedAt_of_orderFrom h he

end TektonPipeline.Entrypoint
