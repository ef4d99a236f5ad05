import TektonPipeline.TaskRun.Finished

/-! Tasks that fail verification. The task is stored in the status before its verification
result is looked at, and a stored task is not verified again. -/

namespace TektonPipeline.TaskRunReconciler
open Tasks (TaskSpec)

def ResolvesUnverified (c : Cluster) (tr : TaskRun) : Prop :=
  (tr.start c).isDone = false ∧ c.isCancelled = false ∧ (tr.start c).hasTimedOut c.now = false ∧
    checkPodFailed c (tr.start c) = none ∧ c.listPolicies = none ∧
    ∃ ts message, getTaskData c (tr.start c) = .fetched (ts, some (.error message))

/-- Whether a fetch is over: it gave something or an error that is not tried again. -/
def Fetch.settled {α : Type} : Fetch α → Bool
  | .fetched _ => true
  | .validationFailed _ => true
  | .failed _ => true
  | _ => false

/-- The reconcile ends the TaskRun for good: no retry is left, and the StepActions of the
task need no further reconcile. -/
def EndsForGood (c : Cluster) (tr : TaskRun) : Prop :=
  tr.isRetriable = false ∧
    ∀ ts vr, getTaskData c (tr.start c) = .fetched (ts, vr) → (c.getStepActions ts).settled = true

def persisted (tr : TaskRun) (c : Cluster) : TaskRun := (reconcileKind c tr).taskRun

variable {c : Cluster} {tr : TaskRun}

theorem fetchFailure_ended {α : Type} {ongoing awaiting : String} {f : Fetch α}
    (hretry : tr.isRetriable = false) (hsettled : f.settled = true) (hf : ∀ a, f ≠ .fetched a) :
    Ended (fetchFailure c tr ongoing awaiting f).1 := by
  refine ⟨?_, (isRetriable_of_identity (identity_of_base
    (base_of_unmarked (fetchFailure_unmarked c tr ongoing awaiting f)))).trans hretry⟩
  cases f with
  | fetched a => exact absurd rfl (hf a)
  | validationFailed message => rfl
  | failed message => rfl
  | inProgress => cases hsettled
  | retryable message => cases hsettled
  | transient message => cases hsettled

theorem verifyAndCheck_ended {ts : TaskSpec} {message : String} (hretry : tr.isRetriable = false) :
    Ended (verifyAndCheck c tr ts (some (.error message))).1 ∧
      ∃ e, (verifyAndCheck c tr ts (some (.error message))).2 = .error e :=
  ⟨⟨rfl, hretry⟩, _, rfl⟩

theorem prepare_unverified (h : ResolvesUnverified c tr) (hend : EndsForGood c tr) :
    Ended (prepare c (tr.start c)).1 ∧ ∃ e, (prepare c (tr.start c)).2 = .error e := by
  obtain ⟨-, -, -, -, hlist, ts, message, hdata⟩ := h
  obtain ⟨hretry, hsettled⟩ := hend
  have hretry' : ∀ stored, ((tr.start c).storeTaskSpec stored).isRetriable = false := fun stored =>
    (isRetriable_of_identity (storeTaskSpec_identity _ stored)).trans
      ((isRetriable_of_identity (identity_of_base (start_base tr c))).trans hretry)
  have hsteps := hsettled ts _ hdata
  unfold prepare
  rw [hlist, hdata]
  dsimp only
  split
  · exact verifyAndCheck_ended (hretry' _)
  · rename_i hf
    exact ⟨fetchFailure_ended (hretry' ts) hsteps hf, _, rfl⟩

theorem reconcileKind_unverified (h : ResolvesUnverified c tr) (hend : EndsForGood c tr) :
    Ended (reconcileKind c tr).taskRun ∧ (reconcileKind c tr).created = none := by
  obtain ⟨hended, e, herr⟩ := prepare_unverified h hend
  obtain ⟨hdone, hcancel, htimeout, hpod, -⟩ := h
  rcases hprepare : prepare c (tr.start c) with ⟨tr', r⟩
  rw [hprepare] at hended herr
  obtain rfl : r = .error e := herr
  have heq : reconcileKind c tr =
      finishReconcileUpdateEmitEvents c none { taskRun := tr', err := some e } := by
    simp [reconcileKind, hdone, hcancel, htimeout, hpod, hprepare]
  rw [heq]
  exact ⟨Ended.of_finish hended, rfl⟩

/-- In every run of reconciles in which a task is found unverified only where that ends the
TaskRun for good, neither that reconcile nor any later one creates a pod. -/
theorem unverified_task_never_runs (tr : TaskRun) (cs : List Cluster) (i j : Nat)
    (e e' : TaskRun × Cluster) (hends : ∀ d ∈ Transition.trace persisted tr cs,
      ResolvesUnverified d.2 d.1 → EndsForGood d.2 d.1)
    (hi : (Transition.trace persisted tr cs)[i]? = some e)
    (hj : (Transition.trace persisted tr cs)[j]? = some e') (hij : i ≤ j)
    (hunverified : ResolvesUnverified e.2 e.1) : (reconcileKind e'.2 e'.1).created = none := by
  have hended := reconcileKind_unverified hunverified
    (hends e (List.mem_of_getElem? hi) hunverified)
  rcases Nat.lt_or_eq_of_le hij with hlt | rfl
  · have hafter : Ended e'.1 :=
      Transition.trace_after Ended hi hended.1 hlt hj fun _ _ _ _ _ h => h.reconcileKind
    exact reconcileKind_created_of_isDone (hafter.start e'.2).1
  · obtain rfl : e = e' := Option.some.inj (hi.symm.trans hj)
    exact hended.2

def unsignedTask : TaskSpec := { steps := [{ name := "install", script := "curl | sh" }] }

def unsigned : Cluster :=
  { getTask := .fetched (unsignedTask, some (.error "no matching signature")) }

def referencing (retries : Nat) : TaskRun :=
  { name := "build", uid := "u1", retries := retries, taskRefName := "remote" }

theorem unsigned_unverified (retries : Nat) : ResolvesUnverified unsigned (referencing retries) :=
  ⟨rfl, rfl, rfl, rfl, rfl, unsignedTask, "no matching signature", rfl⟩

theorem unsigned_never_runs_without_retries :
    (reconcileKind {} (persisted (referencing 0) unsigned)).created = none := by
  refine unverified_task_never_runs (referencing 0) [unsigned, {}] 0 1 (referencing 0, unsigned)
    (persisted (referencing 0) unsigned, {}) ?_ rfl rfl (by omega) (unsigned_unverified 0)
  intro d hd hunverified
  rcases List.mem_cons.mp hd with rfl | hd
  · exact ⟨rfl, fun _ _ _ => rfl⟩
  · obtain rfl : d = (persisted (referencing 0) unsigned, {}) := by
      simpa [Transition.trace] using hd
    have hdone : (persisted (referencing 0) unsigned).isDone = true := by decide +kernel
    have hstarted : (persisted (referencing 0) unsigned).hasStarted = true := by decide +kernel
    have hnot := hunverified.1
    simp [TaskRun.start, hstarted, hdone] at hnot

/-- With a retry left, or with a StepAction still to be fetched, the next reconcile runs the
unverified task from the status. -/
theorem unsigned_runs_from_status :
    (ResolvesUnverified unsigned (referencing 1) ∧
      (reconcileKind {} (persisted (referencing 1) unsigned)).created.map (·.spec) =
        some unsignedTask) ∧
    (ResolvesUnverified { unsigned with getStepActions := fun _ => .inProgress } (referencing 0) ∧
      (reconcileKind {} (persisted (referencing 0)
        { unsigned with getStepActions := fun _ => .inProgress })).created.map (·.spec) =
          some unsignedTask) := by
  refine ⟨⟨unsigned_unverified 1, ?_⟩, unsigned_unverified 0, ?_⟩
  · decide +kernel
  · decide +kernel

end TektonPipeline.TaskRunReconciler
