import TektonPipeline.Entrypoint.Substitution
import TektonPipeline.Termination.Message

namespace TektonPipeline.Entrypoint
open Api ResultRef
open Termination (RunResult internalTektonResultType)

structure Entrypointer where
  command : List String := []
  waitFiles : List String := []
  waitFileContent : Bool := false
  postFile : String := ""
  stepResults : List String := []
  results : List String := []
  timeout : Option Int := none
  breakpointOnFailure : Bool := false
  debugBeforeStep : Bool := false
  onError : String := ""
  stepMetadataDir : String := ""
  resultsFromTerminationMessage : Bool := true
  stepWhenExpressions : WhenExpressions := []
  deriving DecidableEq

def continueOnError : String := "continue"

inductive Err where
  | mkdir
  | skipPreviousStepFailed
  | debugBeforeStep
  | contextCanceled
  | contextDeadlineExceeded
  | negativeTimeout
  | exit (code : Int)
  | other (message : String)
  deriving DecidableEq

/-- What evaluating a CEL expression gives: an error, a value that is no boolean, or a
boolean. -/
inductive CelResult where
  | error (message : String)
  | notBool
  | bool (b : Bool)
  deriving DecidableEq

/-- The answers of everything outside the entrypoint: files, results of earlier steps, CEL,
the command. `none` is an operation without error. `artifacts` is the command after the
substitution of artifacts, whose errors are only logged. -/
structure Outcomes where
  mkdirResults : Bool := true
  mkdirArtifacts : Bool := true
  wait : String → Option Err := fun _ => none
  waitBeforeStepDebug : Option Err := none
  now : String := ""
  environ : List (String × String) := []
  loadStepResult : StepResults := fun _ _ => .error "not found"
  artifacts : List String → List String := id
  cel : String → CelResult := fun _ => .bool true
  run : List String → Option Err := fun _ => none
  writeExitCode : Bool := true
  readResults : Option Err := none
  readStepResults : Option Err := none
  readStepArtifacts : Option Err := none
  readTaskArtifacts : Option Err := none
  writeMessage : Bool := true

inductive Action where
  | start (command : List String)
  | writePost (file : String)
  | writeExitCode (content : String)
  deriving DecidableEq

inductive Ending where
  | returned (err : Option Err)
  | panicked
  | exited
  deriving DecidableEq

structure GoResult where
  actions : List Action
  output : List RunResult
  ending : Ending
  deriving DecidableEq

def internalResult (key value : String) : RunResult where
  key := key
  value := value
  resultType := internalTektonResultType

def outputRunResult (terminationReason : String) : RunResult :=
  internalResult "Reason" terminationReason

def Entrypointer.writePostFile (e : Entrypointer) (err : Option Err) : List Action :=
  if e.postFile = "" then []
  else if err.isSome then [.writePost (e.postFile ++ ".err")]
  else [.writePost e.postFile]

def evaluateCEL (cel : String → CelResult) :
    WhenExpressions → List (String × Bool) → Except String (Option (List (String × Bool)))
  | [], m => .ok (some m)
  | we :: wes, m =>
    if we.cel = "" then evaluateCEL cel wes m
    else if m.lookup we.cel = some false then .ok none
    else match cel we.cel with
      | .error message => .error message
      | .notBool =>
        .error ("the CEL expression " ++ we.cel ++ " is not evaluated to a boolean")
      | .bool false => .ok none
      | .bool true => evaluateCEL cel wes ((we.cel, true) :: m)

def allowExec (cel : String → CelResult) (whens : WhenExpressions) : Except String Bool :=
  match evaluateCEL cel whens [] with
  | .error message => .error message
  | .ok none => .ok false
  | .ok (some m) => .ok (whens.allowsExecution m)

def namesFiles : List String → Bool
  | [] => false
  | f :: _ => f != ""

/-- Reading the results and the artifacts, where any error exits the process. -/
def Entrypointer.collect (e : Entrypointer) (o : Outcomes) (err : Option Err) : Ending :=
  if namesFiles e.results ∧ o.readResults.isSome then .exited
  else if namesFiles e.stepResults ∧ o.readStepResults.isSome then .exited
  else if e.resultsFromTerminationMessage ∧
      (o.readStepArtifacts.isSome ∨ o.readTaskArtifacts.isSome) then .exited
  else .returned err

def Outcomes.withExitCode (o : Outcomes) (content : String) (r : GoResult) : GoResult :=
  if o.writeExitCode then { r with actions := r.actions ++ [.writeExitCode content] }
  else { r with ending := .exited }

def Entrypointer.conclude (e : Entrypointer) (o : Outcomes) (actions : List Action)
    (output : List RunResult) (err : Option Err) : GoResult :=
  match err with
  | some .debugBeforeStep => ⟨actions ++ e.writePostFile err, output, e.collect o err⟩
  | some .contextCanceled =>
    o.withExitCode "killed" ⟨actions ++ e.writePostFile err,
      output ++ [outputRunResult "Cancelled"], e.collect o err⟩
  | some .contextDeadlineExceeded =>
    ⟨actions ++ e.writePostFile err, output ++ [outputRunResult "TimeoutExceeded"],
      e.collect o err⟩
  | some (.exit code) =>
    if e.breakpointOnFailure then ⟨actions, output, e.collect o err⟩
    else if e.onError = continueOnError then
      o.withExitCode (toString code) ⟨actions ++ e.writePostFile none,
        output ++ [internalResult "ExitCode" (toString code)], e.collect o err⟩
    else ⟨actions ++ e.writePostFile err, output, e.collect o err⟩
  | some _ =>
    if e.breakpointOnFailure then ⟨actions, output, e.collect o err⟩
    else ⟨actions ++ e.writePostFile err, output, e.collect o err⟩
  | none =>
    o.withExitCode "0" ⟨actions ++ e.writePostFile none, output, e.collect o none⟩

def Entrypointer.errBeforeStart (e : Entrypointer) (o : Outcomes) : Option Err :=
  if (e.timeout.getD 0) < 0 then some .negativeTimeout
  else if e.debugBeforeStep ∧ o.waitBeforeStepDebug.isSome then some .debugBeforeStep
  else none

def Entrypointer.texts (e : Entrypointer) (o : Outcomes) : StepTexts :=
  ⟨o.environ, e.stepWhenExpressions, e.command⟩

def Entrypointer.goCommand (e : Entrypointer) (o : Outcomes) (output : List RunResult)
    (texts : StepTexts) : GoResult :=
  let command := o.artifacts texts.command
  match allowExec o.cel texts.stepWhenExpressions with
  | .error message => e.conclude o [] output (some (.other message))
  | .ok true => e.conclude o [.start command] output (o.run command)
  | .ok false =>
    o.withExitCode "0" ⟨e.writePostFile none, output ++ [outputRunResult "Skipped"],
      .returned none⟩

/-- `Go` once its wait files are there. An error of the substitution is logged and the step
goes on with what was replaced. -/
def Entrypointer.goStep (e : Entrypointer) (o : Outcomes) : GoResult :=
  let output : List RunResult := [internalResult "StartedAt" o.now]
  match e.errBeforeStart o with
  | some err => e.conclude o [] output (some err)
  | none =>
    let (texts, fault) := applyStepResultSubstitutions o.loadStepResult (e.texts o)
    if fault = some .panic then ⟨[], output, .panicked⟩ else e.goCommand o output texts

/-- `Go` when a wait file ends with an error. -/
def Entrypointer.goSkip (e : Entrypointer) (o : Outcomes) (err : Err) : GoResult :=
  ⟨if e.breakpointOnFailure then [] else e.writePostFile (some err),
    internalResult "StartedAt" o.now ::
      if err = .skipPreviousStepFailed then [outputRunResult "Skipped"] else [],
    .returned (some err)⟩

/-- The deferred `WriteMessage`. It runs on a return and on a panic, not on an exit. -/
def Outcomes.deferred (o : Outcomes) (r : GoResult) : GoResult :=
  if o.writeMessage then r else { r with ending := .exited }

def Entrypointer.go (e : Entrypointer) (o : Outcomes) : GoResult :=
  o.deferred <|
    if !o.mkdirResults then ⟨[], [], .returned (some .mkdir)⟩
    else if !o.mkdirArtifacts then ⟨[], [], .returned (some .mkdir)⟩
    else match e.waitFiles.findSome? o.wait with
      | some err => e.goSkip o err
      | none => e.goStep o

def Action.postFile? : Action → Option String
  | .writePost file => some file
  | _ => none

def postWrites (actions : List Action) : List String :=
  actions.filterMap Action.postFile?

/-- Exactly one of the post file and its `.err` sibling is written. -/
def Entrypointer.Signals (e : Entrypointer) (actions : List Action) : Prop :=
  (e.postFile ∈ postWrites actions ∧ e.postFile ++ ".err" ∉ postWrites actions) ∨
    (e.postFile ∉ postWrites actions ∧ e.postFile ++ ".err" ∈ postWrites actions)

instance (e : Entrypointer) (actions : List Action) : Decidable (e.Signals actions) :=
  inferInstanceAs (Decidable (_ ∨ _))

theorem append_err_ne (s : String) : s ++ ".err" ≠ s := by
  intro h
  have := congrArg String.length h
  simp [String.length_append] at this

theorem postWrites_writePostFile (e : Entrypointer) (err : Option Err) (h : e.postFile ≠ "") :
    postWrites (e.writePostFile err) =
      [if err.isSome then e.postFile ++ ".err" else e.postFile] := by
  cases err <;> simp [Entrypointer.writePostFile, h, postWrites, Action.postFile?]

@[simp] theorem postWrites_append (as bs : List Action) :
    postWrites (as ++ bs) = postWrites as ++ postWrites bs :=
  List.filterMap_append

@[simp] theorem postWrites_nil : postWrites [] = [] := rfl

@[simp] theorem postWrites_start (command : List String) : postWrites [.start command] = [] := rfl

@[simp] theorem postWrites_withExitCode (o : Outcomes) (content : String) (r : GoResult) :
    postWrites (o.withExitCode content r).actions = postWrites r.actions := by
  unfold Outcomes.withExitCode
  split <;> simp [postWrites, Action.postFile?]

variable {e : Entrypointer}

theorem Entrypointer.not_signals_of_nil {actions : List Action} (h : postWrites actions = []) :
    ¬ e.Signals actions := by
  simp [Entrypointer.Signals, h]

/-- Where the only post file written is the one `writePostFile` writes, the step has
signalled unless it has no post file to write. -/
theorem Entrypointer.signals_iff_of_writePostFile {actions : List Action} {err : Option Err}
    (h : postWrites actions = postWrites (e.writePostFile err)) :
    e.Signals actions ↔ e.postFile ≠ "" := by
  by_cases hp : e.postFile = ""
  · have hnil : postWrites actions = [] := by
      rw [h]
      simp [Entrypointer.writePostFile, hp, postWrites]
    simp [Entrypointer.not_signals_of_nil hnil, hp]
  · have hne := append_err_ne e.postFile
    rw [postWrites_writePostFile e err hp] at h
    cases err <;> simp [Entrypointer.Signals, h, hp, hne, hne.symm]

theorem Entrypointer.conclude_postWrites (o : Outcomes) (actions : List Action)
    (output : List RunResult) (err : Option Err) (hb : e.breakpointOnFailure = false) :
    ∃ signalled, postWrites (e.conclude o actions output err).actions =
      postWrites actions ++ postWrites (e.writePostFile signalled) := by
  cases err with
  | none => exact ⟨none, by simp [Entrypointer.conclude]⟩
  | some err =>
    cases err with
    | exit code =>
      by_cases hc : e.onError = continueOnError
      · exact ⟨none, by simp [Entrypointer.conclude, hb, hc]⟩
      · exact ⟨some (.exit code), by simp [Entrypointer.conclude, hb, hc]⟩
    | mkdir => exact ⟨some .mkdir, by simp [Entrypointer.conclude, hb]⟩
    | skipPreviousStepFailed =>
      exact ⟨some .skipPreviousStepFailed, by simp [Entrypointer.conclude, hb]⟩
    | debugBeforeStep => exact ⟨some .debugBeforeStep, by simp [Entrypointer.conclude]⟩
    | contextCanceled => exact ⟨some .contextCanceled, by simp [Entrypointer.conclude]⟩
    | contextDeadlineExceeded =>
      exact ⟨some .contextDeadlineExceeded, by simp [Entrypointer.conclude]⟩
    | negativeTimeout => exact ⟨some .negativeTimeout, by simp [Entrypointer.conclude, hb]⟩
    | other message => exact ⟨some (.other message), by simp [Entrypointer.conclude, hb]⟩

/-- Some use of a step result is past the end of its array, and every use before it in the
order of the substitution is replaced. -/
def Entrypointer.Overruns (e : Entrypointer) (o : Outcomes) : Prop :=
  ∃ before u after, (e.texts o).uses = before ++ u :: after ∧
    (∀ w ∈ before, w.fault o.loadStepResult = none) ∧ u.outOfRange o.loadStepResult

theorem Entrypointer.overruns_iff (e : Entrypointer) (o : Outcomes) : e.Overruns o ↔
      (applyStepResultSubstitutions o.loadStepResult (e.texts o)).2 = some .panic := by
  rw [applyStepResultSubstitutions_fault]
  constructor
  · rintro ⟨before, u, after, huses, hbefore, hu⟩
    have hnone : before.findSome? (Use.fault o.loadStepResult) = none :=
      List.findSome?_eq_none_iff.mpr hbefore
    rw [← Use.fault_eq_panic_iff] at hu
    simp [huses, hnone, hu]
  · intro h
    obtain ⟨before, u, after, huses, hu, hbefore⟩ := List.findSome?_eq_some_iff.mp h
    exact ⟨before, u, after, huses, hbefore, (Use.fault_eq_panic_iff _ u).mp hu⟩

theorem Entrypointer.goCommand_postWrites (o : Outcomes) (output : List RunResult)
    (texts : StepTexts) (hb : e.breakpointOnFailure = false) :
    ∃ signalled, postWrites (e.goCommand o output texts).actions =
      postWrites (e.writePostFile signalled) := by
  unfold Entrypointer.goCommand
  cases allowExec o.cel texts.stepWhenExpressions with
  | error message => simpa using Entrypointer.conclude_postWrites o [] _ _ hb
  | ok allowed =>
    cases allowed with
    | true =>
      simpa using Entrypointer.conclude_postWrites o [.start (o.artifacts texts.command)] _ _ hb
    | false => exact ⟨none, by simp⟩

theorem Entrypointer.goStep_postWrites {o : Outcomes} (hb : e.breakpointOnFailure = false)
    (h : e.errBeforeStart o = none → ¬ e.Overruns o) :
    ∃ signalled, postWrites (e.goStep o).actions = postWrites (e.writePostFile signalled) := by
  unfold Entrypointer.goStep
  cases hs : e.errBeforeStart o with
  | some err => simpa using Entrypointer.conclude_postWrites o [] _ _ hb
  | none =>
    have hpanic := mt (e.overruns_iff o).mpr (h hs)
    simpa [hpanic] using Entrypointer.goCommand_postWrites o _ _ hb

theorem Entrypointer.goStep_of_overruns {o : Outcomes} (hs : e.errBeforeStart o = none)
    (h : e.Overruns o) : (e.goStep o).actions = [] := by
  have hpanic := (e.overruns_iff o).mp h
  simp [Entrypointer.goStep, hs, hpanic]

@[simp] theorem Outcomes.deferred_actions (o : Outcomes) (r : GoResult) :
    (o.deferred r).actions = r.actions := by
  unfold Outcomes.deferred
  split <;> rfl

/-- The step has a post file, its metadata directories are made, and it does not run into an
array index that the emitted result does not have. -/
def Entrypointer.CanSignal (e : Entrypointer) (o : Outcomes) : Prop :=
  e.postFile ≠ "" ∧ o.mkdirResults = true ∧ o.mkdirArtifacts = true ∧
    ((∀ f ∈ e.waitFiles, o.wait f = none) → e.errBeforeStart o = none → ¬ e.Overruns o)

/-- Without a breakpoint, the end of `Go` leaves exactly one of the post file and its `.err`
sibling, whatever the outcome of its operations, exactly when `CanSignal` holds. -/
theorem Entrypointer.go_signals_iff (e : Entrypointer) (o : Outcomes)
    (hb : e.breakpointOnFailure = false) : e.Signals (e.go o).actions ↔ e.CanSignal o := by
  unfold Entrypointer.go Entrypointer.CanSignal
  rw [Outcomes.deferred_actions]
  cases hr : o.mkdirResults with
  | false => simp [Entrypointer.Signals]
  | true =>
    cases ha : o.mkdirArtifacts with
    | false => simp [Entrypointer.Signals]
    | true =>
      cases hw : e.waitFiles.findSome? o.wait with
      | some err =>
        have hwait : ¬ ∀ f ∈ e.waitFiles, o.wait f = none := by
          intro hall
          simp [List.findSome?_eq_none_iff.mpr hall] at hw
        have hskip : postWrites (e.goSkip o err).actions =
            postWrites (e.writePostFile (some err)) := by
          simp [Entrypointer.goSkip, hb]
        simpa [hwait] using Entrypointer.signals_iff_of_writePostFile hskip
      | none =>
        rw [imp_iff_right (List.findSome?_eq_none_iff.mp hw)]
        by_cases hok : e.errBeforeStart o = none → ¬ e.Overruns o
        · obtain ⟨signalled, hgo⟩ := Entrypointer.goStep_postWrites hb hok
          have hsig := Entrypointer.signals_iff_of_writePostFile hgo
          simpa using hsig.trans (and_iff_left hok).symm
        · obtain ⟨hs, hover⟩ : e.errBeforeStart o = none ∧ e.Overruns o := by
            simpa using hok
          simp [hs, hover, Entrypointer.Signals, Entrypointer.goStep_of_overruns hs hover]

/-- A step that reads the first element of the array `images` of the step `build`. -/
def indexingStep : Entrypointer :=
  { command := ["deploy", "$(steps.build.results.images[0])"]
    waitFiles := ["/tekton/run/0/out"]
    postFile := "/tekton/run/1/out" }

def emittedImages (images : List String) : Outcomes :=
  { loadStepResult := fun _ _ => .ok { type := .array, arrayVal := images } }

theorem indexingStep_canSignal : indexingStep.CanSignal (emittedImages ["app:1"]) :=
  (indexingStep.go_signals_iff (emittedImages ["app:1"]) rfl).mp (by decide +kernel)

/-- Neither file is written when `build` emitted no image, the index being out of range, and
neither when a metadata directory cannot be made. -/
theorem indexingStep_silent : indexingStep.breakpointOnFailure = false ∧
      (indexingStep.go (emittedImages [])).ending = .panicked ∧
      ¬ indexingStep.Signals (indexingStep.go (emittedImages [])).actions ∧
      (indexingStep.go { mkdirResults := false }).ending = .returned (some .mkdir) ∧
      ¬ indexingStep.Signals (indexingStep.go { mkdirResults := false }).actions := by
  decide +kernel

end TektonPipeline.Entrypoint
