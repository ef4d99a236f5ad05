import TektonPipeline.TaskRun.Ownership
import TektonPipeline.TaskRun.Substitutions

/-! Which task the pods of a TaskRun are built from. A reconcile stores the task with its
substitutions made; the next one takes it from there, if the task is one that the TaskRun refers
to, and makes the substitutions again. -/

namespace TektonPipeline.TaskRunReconciler
open Api
open Tasks (TaskSpec Step Sidecar applyStepReplacements applySidecarReplacements)

/-- The task holds no variable. -/
def Closed (ts : TaskSpec) : Prop := ∀ r, ts.applyReplacements r = ts

section
variable {ts : TaskSpec} (h : Closed ts)
include h

theorem Closed.step {s : Step} (hs : s ∈ ts.steps) (r : Replacements) :
    applyStepReplacements r s = s := by
  have hsteps := (congrArg TaskSpec.steps (h r)).trans (List.map_id _).symm
  have hstep : s.applyReplacements r = s := List.map_inj_left.mp hsteps s hs
  exact congrArg (fun t : Step => { t with params := s.params }) hstep

theorem Closed.sidecar {s : Sidecar} (hs : s ∈ ts.sidecars) (r : Replacements) :
    applySidecarReplacements r s = s :=
  List.map_inj_left.mp ((congrArg TaskSpec.sidecars (h r)).trans (List.map_id _).symm) s hs

theorem Closed.applyToSteps (r : Step → Nat → List (String × String)) : applyToSteps ts r = ts := by
  have hsteps : (ts.steps.zipIdx.map fun e => applyStepReplacements { strings := r e.1 e.2 } e.1) =
      ts.steps := by
    rw [List.map_congr_left fun e he => h.step (List.fst_mem_of_mem_zipIdx he) _]
    exact List.zipIdx_map_fst _ _
  rw [TaskRunReconciler.applyToSteps, hsteps]

theorem Closed.applyMountPaths (bindings : List WorkspaceBinding) :
    applyMountPaths ts bindings = ts := by
  have hfold {β γ : Type} {f : Replacements → β → β} {b : β} (hf : ∀ r, f r b = b)
      (us : List γ) (t : γ → Replacements) : us.foldl (fun b u => f (t u) b) b = b := by
    induction us with
    | nil => rfl
    | cons u us ih => rw [List.foldl_cons, hf, ih]
  have hmount : ∀ d, applyWorkspaceMountPath ts d = ts := by
    intro d
    have hsteps : ts.steps.map (mountInStep d) = ts.steps :=
      (List.map_congr_left fun s hs => hfold (h.step hs) _ _).trans (List.map_id _)
    have hsidecars : ts.sidecars.map (mountInSidecar d) = ts.sidecars :=
      (List.map_congr_left fun s hs => hfold (h.sidecar hs) _ _).trans (List.map_id _)
    rw [applyWorkspaceMountPath, hsteps, hsidecars]
    exact h _
  unfold TaskRunReconciler.applyMountPaths
  induction ts.workspaces with
  | nil => rfl
  | cons d ds ih => rw [List.foldl_cons, hmount, ite_self, ih]

theorem Closed.substituted {tr : TaskRun}
    (hdeclared : ∀ b ∈ tr.workspaces, ∃ d ∈ ts.workspaces, d.name = b.name)
    (volumes : List WorkspaceBinding → List (String × String)) (a : Attempt) :
    applyParamsContextsResultsAndWorkspaces volumes tr a ts = ts := by
  have hbefore : applyParamsContextsAndResults tr a ts = ts := by
    rw [applyParamsContextsAndResults, applyParameters, h, applyContexts, h, applyResults]
    simp only [h.applyToSteps, h _, applyArtifacts, applyStepExitCodePath]
  have hnew : (boundWorkspaces tr ts a.podMissing).filter
      (fun b => !ts.workspaces.any fun d => d.name == b.name) = [] := by
    simpa [boundWorkspaces] using hdeclared
  have hpropagated : propagateWorkspaces ts (boundWorkspaces tr ts a.podMissing) = ts := by
    simp [propagateWorkspaces, hnew]
  rw [applyParamsContextsResultsAndWorkspaces, hbefore, hpropagated, applyWorkspaces,
    h.applyMountPaths]
  exact h _

end

/-- What the resolvers answer for one TaskRun, and how volumes are named. A step that refers to
a StepAction is inlined, depending on the task it is in. -/
structure Resolution where
  task : TaskSpec
  taskName : String
  stepAction : TaskSpec → Step → Step
  volumes : List WorkspaceBinding → List (String × String)

def TaskRun.attempt (tr : TaskRun) : Nat := tr.status.retriesStatus.length

def TaskRun.isEmbedded (tr : TaskRun) : Bool :=
  tr.taskRefName == "" && tr.embeddedTaskSpec.isSome

namespace Resolution
variable (e : Resolution)

def resolve (ts : TaskSpec) : TaskSpec :=
  { ts with steps := ts.steps.map fun s => if s.ref.isSome then e.stepAction ts s else s }

def authored (tr : TaskRun) : TaskSpec :=
  e.resolve (if tr.taskRefName = "" then tr.embeddedTaskSpec.getD e.task else e.task)

/-- `rtr.TaskName`; a task taken from the status goes by the name it was asked for. -/
def nameOf (tr : TaskRun) (stored : Bool) : String :=
  if tr.taskRefName ≠ "" then tr.taskRefName
  else if tr.embeddedTaskSpec.isSome || stored then tr.name
  else e.taskName

/-- The substitutions of attempt `k`, made in a task that was resolved (`stored = false`) or
taken from the status. -/
def substitute (tr : TaskRun) (stored : Bool) (k : Nat) (podMissing : Bool) (ts : TaskSpec) :
    TaskSpec :=
  applyParamsContextsResultsAndWorkspaces e.volumes tr ⟨k, e.nameOf tr stored, podMissing⟩ ts

/-- The substitutions of the attempt, made once in the authored task. -/
def expected (tr : TaskRun) : TaskSpec :=
  e.substitute tr false tr.attempt true (e.authored tr)

/-- The task is what substitutions have made of the authored one, in whichever attempt, and
there is nothing left in it to be replaced. -/
structure Settled (tr : TaskRun) (ts : TaskSpec) : Prop where
  substituted : ∃ stored k podMissing, ts = e.substitute tr stored k podMissing (e.authored tr)
  retryCount : ∀ x ∈ (applyParameters (e.authored tr) tr.params).sites [] [],
    ¬ x.Names "context.task.retry-count"
  noTemplates : ∀ b ∈ tr.workspaces, b.templateClaim = none
  closed : Closed ts
  inlined : e.resolve ts = ts
  declared : ∀ b ∈ tr.workspaces, ∃ d ∈ ts.workspaces, d.name = b.name

/-- What is stored in the status, where it is read again, is the task as it was authored, or
one that is settled. -/
def KeepsAuthored (tr : TaskRun) : Prop :=
  tr.isEmbedded = true ∨ ∀ ts, tr.status.taskSpec = some ts →
    e.nameOf tr true = e.nameOf tr false ∧ (e.resolve ts = e.authored tr ∨ e.Settled tr ts)

end Resolution

/-- A reconcile in which the resolvers answer as `e` says, if they answer, and the
substitutions are those of the code. -/
structure Answers (e : Resolution) (tr : TaskRun) (c : Cluster) : Prop where
  task : ∀ ts vr, c.getTask = .fetched (ts, vr) → ts = e.task
  steps : ∀ ts steps, c.getStepActions ts = .fetched steps → steps = (e.resolve ts).steps
  substituted : ∀ ts ts', c.applySubstitutions ts = .ok ts' →
    ts' = e.substitute tr tr.status.taskSpec.isSome tr.attempt (foundPod c tr).isNone ts

/-! ## The pod that a reconcile creates -/

section
variable {c : Cluster} {tr : TaskRun} {ts taskSpec : TaskSpec} {pod : Pod}

theorem createPod_created (h : createPod c tr ts = .ok (.created pod)) :
    pod = builtPod c tr ts := by
  unfold createPod at h
  split at h
  · simp at h
  dsimp only at h
  split at h
  · simpa using h.symm
  · split at h <;> simp at h
  · simp at h

theorem report_created (c : Cluster) (tr : TaskRun) (taskSpec : TaskSpec) (source : PodSource)
    (created : Option Pod) : (report c tr taskSpec source created).created = created := by
  unfold report
  dsimp only
  split
  · rfl
  split
  · rfl
  · rfl
  · split <;> rfl

theorem reconcile_created (h : (reconcile c tr taskSpec).created = some pod) :
    findPod c tr = .ok none ∧ c.applySubstitutions taskSpec = .ok pod.spec := by
  unfold reconcile at h
  split at h
  · cases h
  rename_i found hfind
  split at h
  · cases h
  split at h
  · cases h
  rename_i ts hts
  split at h
  · simp [report_created] at h
  unfold createAndReport at h
  split at h
  · cases h
  · rename_i pod' hcreate
    rw [report_created, createPod_created hcreate] at h
    rw [← Option.some.inj h]
    exact ⟨hfind, hts⟩
  · simp [report_created] at h

theorem getTaskData_start (c : Cluster) (tr : TaskRun) :
    getTaskData c (tr.start c) = getTaskData c tr := by
  unfold TaskRun.start
  split <;> rfl

theorem preparation_taskSpec {prepared : TaskRun}
    (h : preparation c tr = some (prepared, taskSpec)) :
    ∃ ts vr steps, getTaskData c tr = .fetched (ts, vr) ∧ c.getStepActions ts = .fetched steps ∧
      taskSpec = { ts with steps := steps } := by
  obtain ⟨-, ts, vr, steps, hdata, hsteps, htask, -⟩ := prepare_ok (prepare_of_preparation h)
  exact ⟨ts, vr, steps, getTaskData_start c tr ▸ hdata, hsteps, htask⟩

variable {e : Resolution}

/-- A pod is built from the task that the reconcile got, with its StepActions inlined and the
substitutions made in it. -/
theorem created_spec (ha : Answers e tr c) (h : (reconcileKind c tr).created = some pod) :
    ∃ ts vr, getTaskData c tr = .fetched (ts, vr) ∧
      pod.spec = e.substitute tr tr.status.taskSpec.isSome tr.attempt true (e.resolve ts) := by
  rw [(reconcileKind_pods c tr).1] at h
  obtain ⟨⟨prepared, taskSpec⟩, hp, hcreated⟩ := Option.bind_eq_some_iff.mp h
  obtain ⟨hfind, hts⟩ := reconcile_created hcreated
  have hfound : foundPod c tr = none := by
    rw [← foundPod_of_lookup (preparation_lookup hp)]
    cases hlister : c.podLister with
    | some message => simp [findPod, hlister] at hfind
    | none => exact Except.ok.inj ((findPod_of_lister hlister prepared).symm.trans hfind)
  obtain ⟨ts, vr, steps, hdata, hsteps, rfl⟩ := preparation_taskSpec hp
  have hresolve : { ts with steps := steps } = e.resolve ts := by
    rw [ha.steps ts steps hsteps]
    rfl
  refine ⟨ts, vr, hdata, ?_⟩
  rw [ha.substituted _ _ hts, hresolve, hfound, Option.isNone_none]

theorem getTaskData_of_isEmbedded (h : tr.isEmbedded = true) :
    ∃ ts, getTaskData c tr = .fetched (ts, none) ∧ e.authored tr = e.resolve ts := by
  simp only [TaskRun.isEmbedded, Bool.and_eq_true, beq_iff_eq, Option.isSome_iff_exists] at h
  obtain ⟨hname, ts, hts⟩ := h
  exact ⟨ts, by simp [getTaskData, hts, hname], by simp [Resolution.authored, hname, hts]⟩

theorem getTaskData_of_not_isEmbedded (h : tr.isEmbedded = false) :
    getTaskData c tr = getTaskData.referenced c tr ∧ e.authored tr = e.resolve e.task := by
  unfold TaskRun.isEmbedded at h
  unfold getTaskData Resolution.authored
  cases hts : tr.embeddedTaskSpec with
  | none => simp
  | some ts =>
    have hname : tr.taskRefName ≠ "" := by simpa [hts] using h
    simp [hname]

theorem nameOf_of_isEmbedded (h : tr.isEmbedded = true) (stored : Bool) :
    e.nameOf tr stored = e.nameOf tr false := by
  simp only [TaskRun.isEmbedded, Bool.and_eq_true, beq_iff_eq] at h
  simp [Resolution.nameOf, h.1, h.2]

theorem Resolution.Settled.eq_expected (h : e.Settled tr ts)
    (hname : e.nameOf tr true = e.nameOf tr false) : ts = e.expected tr := by
  obtain ⟨stored, k, podMissing, hts⟩ := h.substituted
  have hnames : e.nameOf tr stored = e.nameOf tr false := by
    cases stored
    · rfl
    · exact hname
  -- the tables of the two attempts differ in the retry count
  have hagree : Agree (getContextReplacements tr ⟨k, e.nameOf tr false, podMissing⟩)
      (getContextReplacements tr ⟨tr.attempt, e.nameOf tr false, true⟩)
      ((applyParameters (e.authored tr) tr.params).sites [] []) :=
    agree_of_agreeOff (Q := (· == "context.task.retry-count"))
      (fun x hx key hkey => beq_false_of_ne fun heq => h.retryCount x hx (heq ▸ hkey)) rfl
  have hbound : boundWorkspaces tr (e.authored tr) podMissing =
      boundWorkspaces tr (e.authored tr) true :=
    List.map_congr_left fun b hb => by simp [h.noTemplates b hb]
  rw [hts, Resolution.expected, Resolution.substitute, Resolution.substitute, hnames]
  simp only [applyParamsContextsResultsAndWorkspaces, applyParamsContextsAndResults, applyContexts,
    (Tasks.TaskSpec.applyReplacements_eq_iff _).mpr hagree, hbound]

end

/-- A cluster in which all is answered as `e` says. -/
def Resolution.serving (e : Resolution) (tr : TaskRun) (pods : List Pod) : Cluster where
  getTask := .fetched (e.task, none)
  getStepActions ts := .fetched (e.resolve ts).steps
  applySubstitutions ts := .ok (e.substitute tr tr.status.taskSpec.isSome tr.attempt
    (foundPod { pods := pods } tr).isNone ts)
  pods := pods

theorem serving_answers (e : Resolution) (tr : TaskRun) (pods : List Pod) :
    Answers e tr (e.serving tr pods) where
  task _ _ h := (Prod.mk.inj (Fetch.fetched.inj h)).1.symm
  steps _ _ h := (Fetch.fetched.inj h).symm
  substituted _ _ h := (Except.ok.inj h).symm

def echo : Resolution where
  task :=
    { steps := [{ name := "echo", script := "echo $(context.task.retry-count)" }]
      workspaces := [{ name := "data" }]
      sidecars := [{ name := "watch", script := "ls $(workspaces.data.path)" }] }
  taskName := "echo"
  stepAction _ s := { s with ref := none }
  volumes bindings := bindings.map fun b => (b.name, "ws-" ++ b.name)

def echoRun : TaskRun :=
  { name := "run", uid := "u1", retries := 1, taskRefName := "echo"
    workspaces := [{ name := "data", templateClaim := some "pvc-1" }] }

/-- Its task uses a parameter only. -/
def greet : Resolution :=
  { echo with task := { steps := [{ name := "greet", script := "echo $(params.who)" }] } }

def greetRun : TaskRun :=
  { name := "run", uid := "u1", retries := 1, taskRefName := "greet"
    params := [⟨"who", { type := .string, stringVal := "you" }⟩] }

/-- The second attempt of a TaskRun, after the pod of the first has failed. -/
def Resolution.retried (e : Resolution) (tr : TaskRun) : TaskRun :=
  let started := nextTaskRun tr (e.serving tr [])
  nextTaskRun started (e.serving started [{ name := "run-pod", phase := .failed }])

def Resolution.retriedPod (e : Resolution) (tr : TaskRun) : Option Pod :=
  (reconcileKind (e.serving (e.retried tr) []) (e.retried tr)).created

def scripts (ts : TaskSpec) : List String := ts.steps.map (·.script) ++ ts.sidecars.map (·.script)

def greeting : TaskSpec := { steps := [{ name := "greet", script := "echo you" }] }

theorem greeting_settled : greet.Settled (greet.retried greetRun) greeting where
  substituted := ⟨false, 0, true, by decide +kernel⟩
  retryCount := by decide +kernel
  noTemplates := by decide +kernel
  closed r := by
    simp [greeting, TaskSpec.applyReplacements, Step.applyReplacements, applyStepReplacements,
      Tasks.applyContainerReplacements, applyReplacements_of_no_dollar, Params.replaceVariables,
      WhenExpressions.replaceVariables]
  inlined := rfl
  declared := by decide +kernel

end TektonPipeline.TaskRunReconciler
