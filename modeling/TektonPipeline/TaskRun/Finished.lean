import TektonPipeline.TaskRun.Reconcile
import TektonPipeline.Library.Transition

/-! Over any sequence of reconciles: what is left of a TaskRun that has finished, and how its
archive of attempts grows. -/

namespace TektonPipeline.TaskRunReconciler

/-- A reconcile keeps the archive of a TaskRun, or adds one attempt to it while retries are
left. -/
def Archives (tr tr' : TaskRun) : Prop :=
  tr'.identity = tr.identity ∨
    ∃ attempt, tr.status.retriesStatus.length < tr.retries ∧
      tr'.identity = (tr.name, tr.uid, tr.retries, tr.status.retriesStatus ++ [attempt])

theorem finish_cases (c : Cluster) (before : Option Condition) (o : Outcome) :
    (finishReconcileUpdateEmitEvents c before o).taskRun = o.taskRun ∨
      (o.taskRun.isFailure = true ∧ c.isCancelled = false ∧ o.taskRun.isRetriable = true ∧
        (finishReconcileUpdateEmitEvents c before o).taskRun =
          o.taskRun.retryTaskRun (conditionMessage o.taskRun.status.succeeded)) := by
  unfold finishReconcileUpdateEmitEvents
  by_cases h : o.taskRun.isFailure ∧ c.isCancelled = false ∧ o.taskRun.isRetriable
  · exact .inr ⟨h.1, h.2.1, h.2.2, by simp [h]⟩
  · exact .inl (by simp [h])

variable {c : Cluster} {before : Option Condition} {o : Outcome}

theorem finish_of_not_isRetriable (h : o.taskRun.isRetriable = false) :
    (finishReconcileUpdateEmitEvents c before o).taskRun = o.taskRun := by
  rcases finish_cases c before o with heq | ⟨-, -, hretry, -⟩
  · exact heq
  · rw [h] at hretry
    cases hretry

variable {tr tr' : TaskRun}

theorem isRetriable_of_identity (h : tr'.identity = tr.identity) :
    tr'.isRetriable = tr.isRetriable := by
  simp only [TaskRun.identity, Prod.mk.injEq] at h
  obtain ⟨-, -, hretries, harchive⟩ := h
  rw [TaskRun.isRetriable, TaskRun.isRetriable, hretries, harchive]

theorem finish_archives (h : o.taskRun.identity = tr.identity) :
    Archives tr (finishReconcileUpdateEmitEvents c before o).taskRun := by
  rcases finish_cases c before o with heq | ⟨-, -, hretry, heq⟩
  · exact .inl (heq ▸ h)
  · simp only [TaskRun.identity, Prod.mk.injEq] at h
    obtain ⟨hname, huid, hretries, harchive⟩ := h
    refine .inr ⟨o.taskRun.status.toStatusFields, ?_, ?_⟩
    · simpa [TaskRun.isRetriable, hretries, harchive] using hretry
    · rw [heq]
      simp [TaskRun.identity, TaskRun.retryTaskRun, hname, huid, hretries, harchive]

/-- The reconcile left the identity of `tr` alone, but for the exit it took. -/
def Exits (c : Cluster) (tr : TaskRun) (o : Outcome) : Prop :=
  o.taskRun.identity = tr.identity ∨
    ∃ before o', o'.taskRun.identity = tr.identity ∧
      o.taskRun = (finishReconcileUpdateEmitEvents c before o').taskRun

theorem Exits.finish (h : o.taskRun.identity = tr.identity) :
    Exits c tr (finishReconcileUpdateEmitEvents c before o) :=
  .inr ⟨before, o, h, rfl⟩

theorem reconcileDone_exits (before : Option Condition) {start : TaskRun}
    (h : start.identity = tr.identity) : Exits c tr (reconcileDone c before start) := by
  have hstop := (identity_of_base (stopped_base start c)).trans h
  rcases reconcileDone_cases c before start with ⟨e, heq⟩ | heq <;> rw [heq]
  · exact .inl hstop
  · exact Exits.finish hstop

theorem failAndFinish_exits (before : Option Condition) {start : TaskRun} (reason message : String)
    (h : start.identity = tr.identity) : Exits c tr (failAndFinish c before start reason message) :=
  Exits.finish ((identity_of_base (failTaskRun_base c start reason message)).trans h)

theorem reconcileKind_exits (c : Cluster) (tr : TaskRun) : Exits c tr (reconcileKind c tr) := by
  have hstart := identity_of_base (start_base tr c)
  unfold reconcileKind
  dsimp only
  split
  · exact reconcileDone_exits _ hstart
  split
  · exact failAndFinish_exits _ _ _ hstart
  split
  · exact failAndFinish_exits _ _ _ hstart
  split
  · exact failAndFinish_exits _ _ _ hstart
  have hprepare := (prepare_identity c (tr.start c)).trans hstart
  rcases hp : prepare c (tr.start c) with ⟨prepared, e | ts⟩ <;> rw [hp] at hprepare
  · exact Exits.finish hprepare
  · have hreconcile := (reconcile_identity c prepared ts).trans hprepare
    dsimp only
    unfold finishReconciled
    split
    · exact .inl rfl
    split
    · exact Exits.finish ((identity_of_base (failTaskRun_base c _ _ _)).trans hreconcile)
    · exact Exits.finish hreconcile

theorem reconcileKind_archives (c : Cluster) (tr : TaskRun) :
    Archives tr (reconcileKind c tr).taskRun := by
  rcases reconcileKind_exits c tr with h | ⟨before, o, h, heq⟩
  · exact .inl h
  · rw [heq]
    exact finish_archives h

theorem Archives.length_le (h : Archives tr tr') :
    tr.status.retriesStatus.length ≤ tr'.status.retriesStatus.length := by
  rcases h with h | ⟨attempt, -, h⟩
  · simp only [TaskRun.identity, Prod.mk.injEq] at h
    exact Nat.le_of_eq (congrArg List.length h.2.2.2.symm)
  · simp only [TaskRun.identity, Prod.mk.injEq] at h
    rw [h.2.2.2, List.length_append]
    omega

theorem Archives.bounded (h : Archives tr tr') (hle : tr.status.retriesStatus.length ≤ tr.retries) :
    tr'.retries = tr.retries ∧ tr'.status.retriesStatus.length ≤ tr.retries := by
  rcases h with h | ⟨attempt, hlt, h⟩
  · simp only [TaskRun.identity, Prod.mk.injEq] at h
    exact ⟨h.2.2.1, by rw [h.2.2.2]; exact hle⟩
  · simp only [TaskRun.identity, Prod.mk.injEq] at h
    refine ⟨h.2.2.1, ?_⟩
    rw [h.2.2.2, List.length_append, List.length_singleton]
    omega

theorem nextTaskRun_archives (tr : TaskRun) (c : Cluster) : Archives tr (nextTaskRun tr c) := by
  unfold nextTaskRun
  split
  · exact reconcileKind_archives c tr
  · exact .inl rfl

theorem Archives.added (h : Archives tr tr') :
    ∃ added, added.length ≤ min 1 (tr.retries - tr.status.retriesStatus.length) ∧
      tr'.identity = (tr.name, tr.uid, tr.retries, tr.status.retriesStatus ++ added) := by
  rcases h with h | ⟨attempt, hlt, h⟩
  · exact ⟨[], Nat.zero_le _, by rw [h, TaskRun.identity, List.append_nil]⟩
  · refine ⟨[attempt], ?_, h⟩
    rw [List.length_singleton]
    omega

/-- Over any sequence of reconciles the archive is only added to, one attempt at most in each
of them and no more than retries are left. -/
theorem attempts_only_added (tr : TaskRun) (cs : List Cluster) :
    ∃ added, added.length ≤ min cs.length (tr.retries - tr.status.retriesStatus.length) ∧
      (cs.foldl nextTaskRun tr).identity =
        (tr.name, tr.uid, tr.retries, tr.status.retriesStatus ++ added) := by
  induction cs generalizing tr with
  | nil => exact ⟨[], Nat.zero_le _, by simp [TaskRun.identity]⟩
  | cons c cs ih =>
    obtain ⟨first, hfirst, hnext⟩ := (nextTaskRun_archives tr c).added
    obtain ⟨rest, hlength, hrest⟩ := ih (nextTaskRun tr c)
    simp only [TaskRun.identity, Prod.mk.injEq] at hnext
    obtain ⟨hname, huid, hretries, harchive⟩ := hnext
    rw [hname, huid, hretries, harchive, List.append_assoc] at hrest
    rw [hretries, harchive, List.length_append] at hlength
    refine ⟨first ++ rest, ?_, hrest⟩
    rw [List.length_append, List.length_cons]
    omega

/-- Stopping the sidecars of a finished TaskRun is tried and fails for good: the error is
neither that the pod is gone nor a conflict that the next reconcile may get over. -/
def StopSidecarsFails (c : Cluster) (tr : TaskRun) : Prop :=
  (c.sidecarMode = .tekton ∨ c.sidecarMode = .kubernetes false) ∧ tr.status.podName ≠ "" ∧
    hasReason ["TaskRunCancelled", "TaskRunTimeout"] (tr.start c).status.succeeded = false ∧
      ∃ e, c.stopSidecars = .error e ∧ e ≠ .notFound ∧ e ≠ .concurrentModification

theorem isDone_of_isSuccessful (h : tr.isSuccessful = true) : tr.isDone = true := by
  unfold TaskRun.isSuccessful hasStatus at h
  unfold TaskRun.isDone isUnknown
  cases hc : tr.status.succeeded with
  | none => simp [hc] at h
  | some k =>
    rw [hc] at h
    simp_all

theorem not_isFailure_of_isSuccessful (h : tr.isSuccessful = true) : tr.isFailure = false := by
  unfold TaskRun.isSuccessful hasStatus at h
  unfold TaskRun.isFailure hasStatus
  cases hc : tr.status.succeeded with
  | none => rfl
  | some k =>
    rw [hc] at h
    simp_all

theorem start_isSuccessful (c : Cluster) (h : tr.isSuccessful = true) :
    (tr.start c).isSuccessful = true := by
  unfold TaskRun.start
  split
  · exact h
  · unfold TaskRun.isSuccessful hasStatus at h ⊢
    cases hc : tr.status.succeeded with
    | none => simp [hc] at h
    | some k => simpa [TaskRun.initializeConditions, hc] using h

theorem start_podName (tr : TaskRun) (c : Cluster) :
    (tr.start c).status.podName = tr.status.podName := by
  unfold TaskRun.start
  split <;> rfl

theorem finish_isSuccessful (h : o.taskRun.isSuccessful = true) :
    (finishReconcileUpdateEmitEvents c before o).taskRun.isSuccessful = true := by
  rcases finish_cases c before o with heq | ⟨hfail, -⟩
  · rw [heq]
    exact h
  · simp [not_isFailure_of_isSuccessful h] at hfail

theorem stopSidecars_isSuccessful (h : tr.isSuccessful = true)
    (hstop : tr.status.podName ≠ "" →
      hasReason ["TaskRunCancelled", "TaskRunTimeout"] tr.status.succeeded = false →
      ∀ e, c.stopSidecars = .error e → e = .notFound ∨ e = .concurrentModification) :
    (stopSidecars c tr).1.isSuccessful = true := by
  unfold stopSidecars
  split
  · exact h
  split
  · exact h
  rename_i hpod hreason
  split
  · split <;> exact h
  · exact h
  · exact h
  · rename_i e hnotFound hconcurrent he
    rcases hstop hpod (Bool.not_eq_true _ ▸ hreason) e he with rfl | rfl
    · exact absurd rfl hnotFound
    · exact absurd rfl hconcurrent

theorem reconcileKind_isSuccessful (h : tr.isSuccessful = true) (hstop : ¬ StopSidecarsFails c tr) :
    (reconcileKind c tr).taskRun.isSuccessful = true := by
  have hstart := start_isSuccessful c h
  rw [reconcileKind_of_isDone (isDone_of_isSuccessful hstart)]
  have hstopped : ((tr.start c).stopped c).isSuccessful = true := by
    unfold TaskRun.stopped
    split
    · exact hstart
    · exact hstart
    · rename_i hunknown hnative
      refine stopSidecars_isSuccessful hstart fun hpod hreason e he => ?_
      by_contra hne
      rw [not_or] at hne
      refine hstop ⟨?_, start_podName tr c ▸ hpod, hreason, e, he, hne⟩
      cases hmode : c.sidecarMode with
      | tekton => exact .inl rfl
      | versionUnknown message => exact absurd hmode (hunknown message)
      | kubernetes native =>
        cases native with
        | false => exact .inr rfl
        | true => exact absurd hmode hnative
  rcases reconcileDone_cases c _ (tr.start c) with ⟨e, heq⟩ | heq <;> rw [heq]
  · exact hstopped
  · exact finish_isSuccessful hstopped

theorem reconcileKind_created_of_isDone (h : (tr.start c).isDone = true) :
    (reconcileKind c tr).created = none := by
  rw [reconcileKind_of_isDone h]
  exact (reconcileDone_pods c _ _).1

theorem nextTaskRun_isSuccessful (h : tr.isSuccessful = true) (hstop : ¬ StopSidecarsFails c tr) :
    (nextTaskRun tr c).isSuccessful = true := by
  unfold nextTaskRun
  split
  · exact reconcileKind_isSuccessful h hstop
  · exact h

theorem stopSidecars_of_fails (h : StopSidecarsFails c tr) :
    ∃ message, stopSidecars c (tr.start c) =
      ((tr.start c).markResourceFailed c.now "TaskRunStopSidecarFailed" message, none) := by
  obtain ⟨-, hpod, hreason, e, he, hnotFound, hconcurrent⟩ := h
  rw [← start_podName tr c] at hpod
  refine ⟨e.message, ?_⟩
  unfold stopSidecars
  rw [if_neg hpod, if_neg (by simp [hreason]), he]
  cases e <;> simp_all

theorem reconcileKind_of_stopSidecarsFails (hdone : tr.isSuccessful = true)
    (h : StopSidecarsFails c tr) (hretry : tr.isRetriable = false) :
    ∃ message, (reconcileKind c tr).taskRun.status.succeeded =
      some ⟨.isFalse, "TaskRunStopSidecarFailed", message⟩ := by
  obtain ⟨message, hstop⟩ := stopSidecars_of_fails h
  have hfailed : ((tr.start c).markResourceFailed c.now "TaskRunStopSidecarFailed"
      message).isRetriable = false :=
    (isRetriable_of_identity (identity_of_base (start_base tr c))).trans hretry
  refine ⟨message, ?_⟩
  rw [reconcileKind_of_isDone (isDone_of_isSuccessful (start_isSuccessful c hdone))]
  unfold reconcileDone
  rcases h.1 with hmode | hmode <;> rw [hmode, hstop] <;> dsimp only <;>
    rw [finish_of_not_isRetriable hfailed] <;> rfl

/-- The TaskRun is done and no retry is left. -/
def Ended (tr : TaskRun) : Prop := tr.isDone = true ∧ tr.isRetriable = false

theorem Ended.of_finish (h : Ended o.taskRun) :
    Ended (finishReconcileUpdateEmitEvents c before o).taskRun := by
  rw [finish_of_not_isRetriable h.2]
  exact h

theorem Ended.start (c : Cluster) (h : Ended tr) : Ended (tr.start c) := by
  refine ⟨?_, (isRetriable_of_identity (identity_of_base (start_base tr c))).trans h.2⟩
  have hdone := h.1
  unfold TaskRun.start
  split
  · exact hdone
  · unfold TaskRun.isDone isUnknown at hdone ⊢
    cases hc : tr.status.succeeded with
    | none => simp [hc] at hdone
    | some k => simpa [TaskRun.initializeConditions, hc] using hdone

theorem Ended.stopped (h : Ended tr) : Ended (tr.stopped c) := by
  refine ⟨?_, (isRetriable_of_identity (identity_of_base (stopped_base tr c))).trans h.2⟩
  unfold TaskRun.stopped
  split
  · exact h.1
  · exact h.1
  unfold stopSidecars
  split
  · exact h.1
  split
  · exact h.1
  split
  · split <;> exact h.1
  · exact h.1
  · exact h.1
  · rfl

theorem Ended.reconcileKind (h : Ended tr) : Ended (reconcileKind c tr).taskRun := by
  have hstart := h.start c
  rw [reconcileKind_of_isDone hstart.1]
  rcases reconcileDone_cases c _ (tr.start c) with ⟨e, heq⟩ | heq <;> rw [heq]
  · exact hstart.stopped
  · exact Ended.of_finish hstart.stopped

/-- A TaskRun that is done stays so: it has succeeded, or no retry is left. -/
def Rests (tr : TaskRun) : Prop := tr.isSuccessful = true ∨ Ended tr

theorem Rests.isDone (h : Rests tr) (c : Cluster) : (tr.start c).isDone = true := by
  rcases h with hsuccessful | hended
  · exact isDone_of_isSuccessful (start_isSuccessful c hsuccessful)
  · exact (hended.start c).1

theorem ended_of_stopSidecarsFails (hdone : tr.isSuccessful = true) (h : StopSidecarsFails c tr)
    (hretry : tr.isRetriable = false) : Ended (reconcileKind c tr).taskRun := by
  obtain ⟨message, hfailed⟩ := reconcileKind_of_stopSidecarsFails hdone h hretry
  refine ⟨by simp [TaskRun.isDone, hfailed, isUnknown], ?_⟩
  rcases reconcileKind_archives c tr with hid | ⟨attempt, hlt, -⟩
  · exact (isRetriable_of_identity hid).trans hretry
  · simp [TaskRun.isRetriable, hlt] at hretry

theorem Rests.next (h : Rests tr) (hstop : StopSidecarsFails c tr → tr.isRetriable = false) :
    Rests (nextTaskRun tr c) := by
  unfold nextTaskRun
  split
  · rcases h with hsuccessful | hended
    · by_cases hfails : StopSidecarsFails c tr
      · exact .inr (ended_of_stopSidecarsFails hsuccessful hfails (hstop hfails))
      · exact .inl (reconcileKind_isSuccessful hsuccessful hfails)
    · exact .inr hended.reconcileKind
  · exact h

/-- Over any sequence of reconciles: a TaskRun that has succeeded stays so as long as its sidecars
can be stopped, and gets no pod unless they cannot be stopped while a retry is left. Without a
retry it has then failed. The archive of attempts only grows, up to the retries. -/
theorem succeeded_taskRun_stays (tr : TaskRun) (cs : List Cluster) (i j : Nat)
    (e e' : TaskRun × Cluster) (hle : tr.status.retriesStatus.length ≤ tr.retries)
    (hi : (Transition.trace nextTaskRun tr cs)[i]? = some e)
    (hj : (Transition.trace nextTaskRun tr cs)[j]? = some e') (hij : i ≤ j) :
    (e.1.isSuccessful = true →
      (∀ k d, i ≤ k → k ≤ j → (Transition.trace nextTaskRun tr cs)[k]? = some d →
        ¬ StopSidecarsFails d.2 d.1) → (reconcileKind e'.2 e'.1).taskRun.isSuccessful = true) ∧
    (e.1.isSuccessful = true →
      (∀ k d, i ≤ k → k < j → (Transition.trace nextTaskRun tr cs)[k]? = some d →
        StopSidecarsFails d.2 d.1 → d.1.isRetriable = false) →
      (reconcileKind e'.2 e'.1).created = none) ∧
    (e'.1.isSuccessful = true → StopSidecarsFails e'.2 e'.1 → e'.1.isRetriable = false →
      ∃ message, (reconcileKind e'.2 e'.1).taskRun.status.succeeded =
        some ⟨.isFalse, "TaskRunStopSidecarFailed", message⟩) ∧
    e.1.status.retriesStatus.length ≤ e'.1.status.retriesStatus.length ∧
    e'.1.status.retriesStatus.length ≤
      (reconcileKind e'.2 e'.1).taskRun.status.retriesStatus.length ∧
    (reconcileKind e'.2 e'.1).taskRun.status.retriesStatus.length ≤ tr.retries := by
  have harchives := reconcileKind_archives e'.2 e'.1
  -- the archive is bounded from the first reconcile on, so the count starts at the first entry
  have hbounded : e'.1.retries = tr.retries ∧
      e'.1.status.retriesStatus.length ≤ tr.retries := by
    obtain ⟨c, cs, rfl⟩ : ∃ c rest, cs = c :: rest := by
      cases cs with
      | nil => simp [Transition.trace] at hi
      | cons c rest => exact ⟨c, rest, rfl⟩
    refine Transition.trace_from
      (fun s => s.retries = tr.retries ∧ s.status.retriesStatus.length ≤ tr.retries)
      (i := 0) (e := (tr, c)) rfl ⟨rfl, hle⟩ (Nat.zero_le j) hj ?_
    intro k d _ _ _ hd
    have hnext := (nextTaskRun_archives d.1 d.2).bounded (hd.1 ▸ hd.2)
    exact ⟨hnext.1.trans hd.1, hd.1 ▸ hnext.2⟩
  refine ⟨fun hdone hstop => ?_, fun hdone hstop => ?_, fun hdone hstop hretry => ?_, ?_,
    harchives.length_le, ?_⟩
  · have hdone' : e'.1.isSuccessful = true :=
      Transition.trace_from (·.isSuccessful = true) hi hdone hij hj fun k d hk hkj hd hdone =>
        nextTaskRun_isSuccessful hdone (hstop k d hk (Nat.le_of_lt hkj) hd)
    exact reconcileKind_isSuccessful hdone' (hstop j e' hij (Nat.le_refl j) hj)
  · have hrests : Rests e'.1 :=
      Transition.trace_from Rests hi (.inl hdone) hij hj fun k d hk hkj hd hrests =>
        hrests.next (hstop k d hk hkj hd)
    exact reconcileKind_created_of_isDone (hrests.isDone e'.2)
  · exact reconcileKind_of_stopSidecarsFails hdone hstop hretry
  · refine Transition.trace_from
      (fun s => e.1.status.retriesStatus.length ≤ s.status.retriesStatus.length) hi
      (Nat.le_refl _) hij hj ?_
    intro k d _ _ _ hd
    exact Nat.le_trans hd (nextTaskRun_archives d.1 d.2).length_le
  · have hnext := harchives.bounded (hbounded.1 ▸ hbounded.2)
    exact hbounded.1 ▸ hnext.2

def finishedBuild : TaskRun :=
  { name := "build", uid := "u1", retries := 1
    embeddedTaskSpec := some { steps := [{ name := "compile" }] }
    status :=
      { succeeded := some ⟨.isTrue, "Succeeded", "All Steps have completed executing"⟩
        podName := "build-pod"
        startTime := some 0
        completionTime := some 5 } }

def brokenStop : Cluster := { stopSidecars := .error (.other "etcdserver: request timed out") }

def conflicts : Cluster := { stopSidecars := .error .concurrentModification }

theorem not_stopSidecarsFails_of_error {e : ApiError} (he : c.stopSidecars = .error e)
    (hpasses : e = .notFound ∨ e = .concurrentModification) : ¬ StopSidecarsFails c tr := by
  rintro ⟨-, -, -, e', he', hnotFound, hconcurrent⟩
  obtain rfl := Except.error.inj (he.symm.trans he')
  exact hpasses.elim hnotFound hconcurrent

def stoppedLater : TaskRun := nextTaskRun (nextTaskRun finishedBuild conflicts) conflicts

def lastAttempt : TaskRun := { finishedBuild with retries := 0 }

def neverStopped : TaskRun := nextTaskRun (nextTaskRun lastAttempt brokenStop) brokenStop

/-- After two conflicts it has still succeeded. Without a retry it has failed once the sidecars
could not be stopped, and gets no pod either. -/
theorem finishedBuild_stays :
    (reconcileKind {} stoppedLater).taskRun.isSuccessful = true ∧
      (reconcileKind {} stoppedLater).created = none ∧
      neverStopped.isFailure = true ∧ (reconcileKind {} neverStopped).created = none := by
  have h := succeeded_taskRun_stays finishedBuild [conflicts, conflicts, {}] 0 2
    (finishedBuild, conflicts) (stoppedLater, {}) (by decide) rfl rfl (by omega)
  have h' := succeeded_taskRun_stays lastAttempt [brokenStop, brokenStop, {}] 0 2
    (lastAttempt, brokenStop) (neverStopped, {}) (by decide) rfl rfl (by omega)
  have hnone : ∀ (k : Nat) (d : TaskRun × Cluster),
      (Transition.trace nextTaskRun finishedBuild [conflicts, conflicts, {}])[k]? = some d →
        ¬ StopSidecarsFails d.2 d.1 := by
    intro k d hd
    rcases k with _ | _ | _ | k
    · obtain rfl := Option.some.inj hd
      exact not_stopSidecarsFails_of_error rfl (.inr rfl)
    · obtain rfl := Option.some.inj hd
      exact not_stopSidecarsFails_of_error rfl (.inr rfl)
    · obtain rfl := Option.some.inj hd
      exact not_stopSidecarsFails_of_error rfl (.inl rfl)
    · simp [Transition.trace] at hd
  refine ⟨h.1 rfl fun k d _ _ hd => hnone k d hd,
    h.2.1 rfl fun k d _ _ hd hfails => absurd hfails (hnone k d hd), by decide +kernel,
    h'.2.1 rfl ?_⟩
  intro k d _ hk hd _
  obtain rfl | rfl : k = 0 ∨ k = 1 := by omega
  · obtain rfl := Option.some.inj hd
    rfl
  · obtain rfl := Option.some.inj hd
    decide +kernel

/-- The finished TaskRun is set up to run again, and the next reconcile creates a pod. -/
theorem finishedBuild_runs_again : finishedBuild.isSuccessful = true ∧
      (nextTaskRun finishedBuild brokenStop).isSuccessful = false ∧
      (nextTaskRun finishedBuild brokenStop).isDone = false ∧
      ((reconcileKind {} (nextTaskRun finishedBuild brokenStop)).created.map (·.name)) =
        some "build-pod-retry1" := by
  decide +kernel

end TektonPipeline.TaskRunReconciler
