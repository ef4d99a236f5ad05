import TektonPipeline.TaskRun.Finished

/-! What a failed attempt leaves behind for the next one. `retryTaskRun` clears the pod name
and the times but keeps the recorded steps and sidecars, and `checkPodFailed` reads these
before a pod of the new attempt exists. -/

namespace TektonPipeline.TaskRunReconciler
open Tasks (TaskSpec)
open PodStatus (ContainerRecord StepState sidecarState recordSteps)

/-- The container waits for a reason that `checkPodFailed` fails a TaskRun for. -/
def blocked (r : ContainerRecord) : Bool :=
  r.waiting.any fun w => decide (w.reason ∈ podFailureReasons)

def TaskRun.records (tr : TaskRun) : List ContainerRecord := tr.stepRecords ++ tr.sidecarRecords

variable {c : Cluster} {l : List ContainerRecord} {tr : TaskRun}

theorem checkContainers_cons {kind : String} {r : ContainerRecord} (h : blocked r = false) :
    checkContainers c tr kind (r :: l) = checkContainers c tr kind l := by
  rw [checkContainers]
  cases hwaiting : r.waiting with
  | none => rfl
  | some w =>
    have hreason : w.reason ∉ podFailureReasons := by simpa [blocked, hwaiting] using h
    simp [hreason]

theorem checkContainers_of_not_blocked {kind : String} (h : ∀ r ∈ l, blocked r = false) :
    checkContainers c tr kind l = none := by
  induction l with
  | nil => rfl
  | cons r l ih =>
    rw [List.forall_mem_cons] at h
    rw [checkContainers_cons h.1, ih h.2]

theorem checkContainers_of_blocked (hc : c.imagePullBackOffTimeout = 0) (tr : TaskRun)
    (kind : String) {r : ContainerRecord} (hmem : r ∈ l) (h : blocked r = true) :
    ∃ message, checkContainers c tr kind l = some (some message) := by
  induction l with
  | nil => simp at hmem
  | cons first l ih =>
    cases hfirst : blocked first with
    | true =>
      unfold checkContainers
      cases hwaiting : first.waiting with
      | none => simp [blocked, hwaiting] at hfirst
      | some w =>
        have hreason : w.reason ∈ podFailureReasons := by simpa [blocked, hwaiting] using hfirst
        simp [hreason, hc]
    | false =>
      rw [checkContainers_cons hfirst]
      rcases List.mem_cons.mp hmem with rfl | hmem
      · rw [hfirst] at h
        cases h
      · exact ih hmem

theorem checkPodFailed_of_not_blocked (h : ∀ r ∈ tr.records, blocked r = false) :
    checkPodFailed c tr = none := by
  simp only [TaskRun.records, List.mem_append] at h
  unfold checkPodFailed
  rw [checkContainers_of_not_blocked fun r hr => h r (.inl hr),
    checkContainers_of_not_blocked fun r hr => h r (.inr hr)]
  rfl

theorem checkPodFailed_of_blocked (hc : c.imagePullBackOffTimeout = 0) {r : ContainerRecord}
    (hmem : r ∈ tr.records) (h : blocked r = true) : (checkPodFailed c tr).isSome = true := by
  unfold checkPodFailed
  by_cases hsteps : ∃ r' ∈ tr.stepRecords, blocked r' = true
  · obtain ⟨r', hr', hb⟩ := hsteps
    obtain ⟨message, hm⟩ := checkContainers_of_blocked hc tr "step" hr' hb
    rw [hm]
    rfl
  · have hnone : ∀ r' ∈ tr.stepRecords, blocked r' = false := fun r' hr' =>
      Bool.not_eq_true _ ▸ fun hb => hsteps ⟨r', hr', hb⟩
    have hside : r ∈ tr.sidecarRecords :=
      (List.mem_append.mp hmem).resolve_left fun hr => hsteps ⟨r, hr, h⟩
    obtain ⟨message, hm⟩ := checkContainers_of_blocked hc tr "sidecar" hside h
    rw [checkContainers_of_not_blocked hnone, hm]
    rfl

/-- The reconcile goes on with the attempt it found: the pod and the containers on record are
kept, and so is the start unless it is cleared. -/
structure SameAttempt (tr tr' : TaskRun) : Prop where
  podName : tr'.status.podName = tr.status.podName
  steps : tr'.status.steps = tr.status.steps
  sidecars : tr'.status.sidecars = tr.status.sidecars
  startTime : tr'.status.startTime = tr.status.startTime ∨ tr'.status.startTime = none

theorem SameAttempt.refl (tr : TaskRun) : SameAttempt tr tr := ⟨rfl, rfl, rfl, .inl rfl⟩

theorem SameAttempt.trans {a b d : TaskRun} (h : SameAttempt a b) (h' : SameAttempt b d) :
    SameAttempt a d := by
  refine ⟨h'.podName.trans h.podName, h'.steps.trans h.steps, h'.sidecars.trans h.sidecars, ?_⟩
  rcases h'.startTime with hb | hb
  · rw [hb]
    exact h.startTime
  · exact .inr hb

theorem SameAttempt.stepRecords {tr' : TaskRun} (h : SameAttempt tr tr') :
    tr'.stepRecords = tr.stepRecords :=
  congrArg (List.map StepState.record) h.steps

theorem SameAttempt.records {tr' : TaskRun} (h : SameAttempt tr tr') :
    tr'.records = tr.records := by
  rw [TaskRun.records, TaskRun.records, h.stepRecords, TaskRun.sidecarRecords, h.sidecars]
  rfl

theorem storeTaskSpec_sameAttempt (tr : TaskRun) (ts : TaskSpec) :
    SameAttempt tr (tr.storeTaskSpec ts) := by
  unfold TaskRun.storeTaskSpec
  split <;> exact ⟨rfl, rfl, rfl, .inl rfl⟩

theorem SameAttempt.of_unmarked {tr' : TaskRun} (h : tr'.unmarked = tr.unmarked) :
    SameAttempt tr tr' := by
  have hkept {α : Type} (f : TaskRun → α) : f tr'.unmarked = f tr.unmarked := congrArg f h
  exact ⟨hkept (·.status.podName), hkept (·.status.steps), hkept (·.status.sidecars),
    .inl (hkept (·.status.startTime))⟩

theorem prepare_sameAttempt (c : Cluster) (tr : TaskRun) : SameAttempt tr (prepare c tr).1 := by
  unfold prepare
  split
  · exact .refl tr
  split
  · split
    · exact (storeTaskSpec_sameAttempt tr _).trans (.of_unmarked (verifyAndCheck_unmarked c _ _ _))
    · exact (storeTaskSpec_sameAttempt tr _).trans (.of_unmarked (fetchFailure_unmarked c _ _ _ _))
  · exact .of_unmarked (fetchFailure_unmarked c tr _ _ _)

theorem handlePodCreationError_sameAttempt (c : Cluster) (tr : TaskRun) (e : ApiError) :
    SameAttempt tr (handlePodCreationError c tr e).1 := by
  cases e <;> first | exact ⟨rfl, rfl, rfl, .inl rfl⟩ | exact ⟨rfl, rfl, rfl, .inr rfl⟩

/-- A reconcile has read a pod, or leaves the attempt as it was. -/
def Ends (tr : TaskRun) (o : Outcome) : Prop :=
  (o.copied = none ∧ SameAttempt tr o.taskRun ∧ o.exceedsSize = false) ∨
    ∃ pod ts, o.copied = some pod ∧ Copied (tr.setTaskSpec ts) pod o.taskRun

theorem report_ends (c : Cluster) (tr : TaskRun) (taskSpec ts : TaskSpec) (source : PodSource)
    (created : Option Pod) : Ends tr (report c (tr.setTaskSpec ts) taskSpec source created) := by
  rcases report_cases c (tr.setTaskSpec ts) taskSpec source created with
    ⟨hnone, heq, hsize⟩ | ⟨hsome, hcopied⟩
  · refine .inl ⟨hnone, ?_, hsize⟩
    rw [heq]
    exact ⟨rfl, rfl, rfl, .inl rfl⟩
  · exact .inr ⟨source.pod, ts, hsome, hcopied⟩

theorem reconcile_ends (c : Cluster) (tr : TaskRun) (taskSpec : TaskSpec) :
    Ends tr (reconcile c tr taskSpec) := by
  unfold reconcile
  split
  · rename_i hfind
    refine .inl ⟨ite_self none, .refl tr, ?_⟩
    unfold findPod at hfind
    split at hfind
    · rw [← Except.error.inj hfind]
      rfl
    · split at hfind <;> cases hfind
  split
  · exact .inl ⟨rfl, ⟨rfl, rfl, rfl, .inl rfl⟩, rfl⟩
  split
  · exact .inl ⟨rfl, .refl tr, rfl⟩
  rename_i ts _
  split
  · exact report_ends c tr taskSpec ts _ none
  unfold createAndReport
  split
  · rename_i e _
    have hsame := handlePodCreationError_sameAttempt c (tr.setTaskSpec ts) e
    refine .inl ⟨ite_self none,
      ⟨hsame.podName, hsame.steps, hsame.sidecars, hsame.startTime⟩, ?_⟩
    cases e <;> rfl
  · exact report_ends c tr taskSpec ts _ _
  · exact report_ends c tr taskSpec ts _ none

/-- The results that the reconcile reads are larger than allowed. -/
def resultsExceed (c : Cluster) (tr : TaskRun) : Bool :=
  (preparation c tr).any fun p => (reconcile c p.1 p.2).exceedsSize

/-- The containers on record when the reconcile is over. The steps of a pod that is read take the
place of those with their names. Where `failTaskRun` finds a pod it terminates the steps; nothing
terminates the sidecars. -/
def survivors (c : Cluster) (tr : TaskRun) : List ContainerRecord :=
  if (tr.start c).isDone then tr.stepRecords ++ ((tr.start c).stopped c).sidecarRecords
  else match (reconcileKind c tr).copied with
    | some pod =>
      (if resultsExceed c tr ∧ pod.name ≠ "" then []
        else recordSteps pod.stepStatuses tr.stepRecords) ++
      pod.sidecarStatuses.map fun s => (sidecarState s).record
    | none =>
      (if Stopped c (tr.start c) ∧ tr.status.podName ≠ "" then [] else tr.stepRecords) ++
      tr.sidecarRecords

/-- How a reconcile of `tr` leaves the TaskRun, with the containers in `l`. -/
structure Leaves (tr : TaskRun) (l : List ContainerRecord) (o : Outcome) : Prop where
  blocked : o.taskRun.records.filter blocked = l.filter blocked
  podName : o.copied = none →
    o.taskRun.status.podName = tr.status.podName ∨ o.taskRun.status.podName = ""
  startTime : o.taskRun.status.startTime = tr.status.startTime ∨ o.taskRun.status.startTime = none

variable {o : Outcome}

section
variable (c : Cluster) (before : Option Condition) (o : Outcome)

theorem finish_err :
    (finishReconcileUpdateEmitEvents c before o).err = some .panicked ↔ o.err = some .panicked := by
  unfold finishReconcileUpdateEmitEvents firstError
  cases o.err with
  | some e => rfl
  | none => simp

theorem finish_copied : (finishReconcileUpdateEmitEvents c before o).copied = o.copied := by
  unfold Outcome.copied
  simp only [finish_err]
  rfl

end

theorem Leaves.finish (h : Leaves tr l o) (c : Cluster) (before : Option Condition) :
    Leaves tr l (finishReconcileUpdateEmitEvents c before o) := by
  rcases finish_cases c before o with heq | ⟨-, -, -, heq⟩
  · exact ⟨heq ▸ h.blocked, fun hnone => heq ▸ h.podName (finish_copied c before o ▸ hnone),
      heq ▸ h.startTime⟩
  · refine ⟨?_, fun _ => ?_, ?_⟩
    · rw [heq]
      exact h.blocked
    · rw [heq]
      exact .inr rfl
    · rw [heq]
      exact .inr rfl

theorem SameAttempt.leaves (h : SameAttempt tr o.taskRun) : Leaves tr tr.records o :=
  ⟨by rw [h.records], fun _ => .inl h.podName, h.startTime⟩

theorem terminateStep_not_blocked (tr : TaskRun) (reason : String) (ss : StepState) :
    TaskRunReconciler.blocked (terminateStep tr reason ss).record = false := by
  unfold terminateStep
  dsimp only
  split
  · rfl
  · rename_i hwaiting
    simp [TaskRunReconciler.blocked, StepState.record, hwaiting]

theorem failTaskRun_fields (c : Cluster) (tr : TaskRun) (reason message : String) :
    (failTaskRun c tr reason message).1.status.podName = tr.status.podName ∧
      (failTaskRun c tr reason message).1.status.startTime = tr.status.startTime ∧
      (failTaskRun c tr reason message).1.status.sidecars = tr.status.sidecars ∧
      (failTaskRun c tr reason message).1.status.steps =
        if tr.status.podName = "" then tr.status.steps
        else tr.status.steps.map (terminateStep tr reason) := by
  by_cases hpod : tr.status.podName = ""
  · simp [failTaskRun, TaskRun.markResourceFailed, hpod]
  · simp only [failTaskRun, TaskRun.markResourceFailed, hpod, if_false]
    split <;> simp

theorem failTaskRun_leaves (c : Cluster) (tr : TaskRun) (reason message : String)
    (ho : o.taskRun = (failTaskRun c tr reason message).1) :
    Leaves tr ((if tr.status.podName = "" then tr.stepRecords else []) ++ tr.sidecarRecords)
      o := by
  obtain ⟨hpod, hstart, hsidecars, hsteps⟩ := failTaskRun_fields c tr reason message
  refine ⟨?_, fun _ => .inl (ho ▸ hpod), .inl (ho ▸ hstart)⟩
  rw [ho, TaskRun.records, TaskRun.stepRecords, TaskRun.sidecarRecords, hsidecars, hsteps,
    List.filter_append, List.filter_append]
  by_cases hname : tr.status.podName = ""
  · rw [if_pos hname, if_pos hname]
    rfl
  · rw [if_neg hname, if_neg hname]
    simp [terminateStep_not_blocked, TaskRun.sidecarRecords]

theorem start_containers (tr : TaskRun) (c : Cluster) :
    (tr.start c).stepRecords = tr.stepRecords ∧
      (tr.start c).sidecarRecords = tr.sidecarRecords := by
  unfold TaskRun.start
  split <;> exact ⟨rfl, rfl⟩

theorem stopped_fields (tr : TaskRun) (c : Cluster) :
    (tr.stopped c).status.podName = tr.status.podName ∧
      (tr.stopped c).status.startTime = tr.status.startTime ∧
      (tr.stopped c).stepRecords = tr.stepRecords ∧
      (tr.status.podName = "" → (tr.stopped c).sidecarRecords = tr.sidecarRecords) := by
  unfold TaskRun.stopped
  split
  · exact ⟨rfl, rfl, rfl, fun _ => rfl⟩
  · exact ⟨rfl, rfl, rfl, fun _ => rfl⟩
  unfold stopSidecars
  by_cases hpod : tr.status.podName = ""
  · simp [hpod]
  · rw [if_neg hpod]
    split
    · exact ⟨rfl, rfl, rfl, fun _ => rfl⟩
    split
    · split <;> exact ⟨rfl, rfl, rfl, fun h => absurd h hpod⟩
    · exact ⟨rfl, rfl, rfl, fun _ => rfl⟩
    · exact ⟨rfl, rfl, rfl, fun _ => rfl⟩
    · exact ⟨rfl, rfl, rfl, fun _ => rfl⟩

theorem reconcileDone_leaves (c : Cluster) (before : Option Condition) (tr : TaskRun) :
    Leaves (tr.start c) (tr.stepRecords ++ ((tr.start c).stopped c).sidecarRecords)
      (reconcileDone c before (tr.start c)) := by
  obtain ⟨hpod, hstart, hkeep, -⟩ := stopped_fields (tr.start c) c
  have hleft : ∀ o : Outcome, o.taskRun = (tr.start c).stopped c →
      Leaves (tr.start c) (tr.stepRecords ++ ((tr.start c).stopped c).sidecarRecords) o := by
    intro o ho
    refine ⟨?_, fun _ => .inl (ho ▸ hpod), .inl (ho ▸ hstart)⟩
    rw [ho, TaskRun.records, hkeep, (start_containers tr c).1]
  rcases reconcileDone_cases c before (tr.start c) with ⟨e, heq⟩ | heq <;> rw [heq]
  · exact hleft _ rfl
  · exact (hleft { taskRun := (tr.start c).stopped c } rfl).finish c before

theorem failTaskRun_err (c : Cluster) (tr : TaskRun) (reason message : String) :
    (failTaskRun c tr reason message).2 ≠ some .panicked := by
  unfold failTaskRun
  dsimp only
  split
  · simp
  · split <;> simp

theorem finishReconciled_copied (c : Cluster) (before : Option Condition) (stored : TaskRun)
    (o : Outcome) : (finishReconciled c before stored o).copied = o.copied := by
  unfold finishReconciled
  split
  · rfl
  rename_i hpanic
  split
  · rw [finish_copied]
    simp [Outcome.copied, failSizeExceeded, failTaskRun_err, hpanic]
  · exact finish_copied c before o

/-- A TaskRun that is left as it is stored has not been started. -/
theorem stored_leaves (c : Cluster) (ho : o.taskRun = tr) : Leaves (tr.start c) tr.records o := by
  refine ⟨by rw [ho], fun _ => .inl (ho ▸ (start_podName tr c).symm), ?_⟩
  rw [ho]
  unfold TaskRun.start
  split
  · exact .inl rfl
  · rename_i hstarted
    exact .inr (by simpa [TaskRun.hasStarted] using hstarted)

theorem reconcile_leaves (c : Cluster) (before : Option Condition) {stored tr : TaskRun}
    (hsame : SameAttempt (stored.start c) tr) (ts : TaskSpec) :
    Leaves (stored.start c)
      (match (reconcile c tr ts).copied with
        | some pod =>
          (if (reconcile c tr ts).exceedsSize ∧ pod.name ≠ "" then []
            else recordSteps pod.stepStatuses stored.stepRecords) ++
          pod.sidecarStatuses.map fun s => (sidecarState s).record
        | none => stored.records)
      (finishReconciled c before stored (reconcile c tr ts)) := by
  obtain ⟨hsteps, hsidecars⟩ := start_containers stored c
  have hrecords : (stored.start c).records = stored.records := by
    rw [TaskRun.records, hsteps, hsidecars, TaskRun.records]
  unfold finishReconciled
  by_cases hpanic : (reconcile c tr ts).err = some .panicked
  · have hnone : (reconcile c tr ts).copied = none := by simp [Outcome.copied, hpanic]
    rw [if_pos hpanic, hnone]
    exact stored_leaves c rfl
  rw [if_neg hpanic]
  rcases reconcile_ends c tr ts with ⟨hnone, hkept, hsize⟩ | ⟨pod, ts', hsome, hcopied⟩
  · rw [if_neg (by simp [hsize]), hnone, ← hrecords]
    exact (hsame.trans hkept).leaves.finish c before
  rw [hsome]
  have hstart : (reconcile c tr ts).taskRun.status.startTime = (stored.start c).status.startTime ∨
      (reconcile c tr ts).taskRun.status.startTime = none := by
    rw [hcopied.startTime]
    exact hsame.startTime
  have hrecorded : (reconcile c tr ts).taskRun.stepRecords =
      recordSteps pod.stepStatuses stored.stepRecords := by
    rw [hcopied.steps, ← hsteps, ← hsame.stepRecords]
    rfl
  by_cases hsize : (reconcile c tr ts).exceedsSize = true
  · rw [if_pos hsize]
    rcases hf : failSizeExceeded c (reconcile c tr ts).taskRun with ⟨failed, err⟩
    have herr : err ≠ some .panicked := by
      have h : (failSizeExceeded c (reconcile c tr ts).taskRun).2 ≠ some .panicked :=
        failTaskRun_err c _ _ _
      rwa [hf] at h
    have hleft : Leaves (reconcile c tr ts).taskRun _
        { reconcile c tr ts with taskRun := failed, err := err } :=
      failTaskRun_leaves c _ _ _ (congrArg Prod.fst hf).symm
    refine Leaves.finish ⟨hleft.blocked.trans ?_, fun h => ?_, ?_⟩ c before
    · simp [hcopied.podName, hrecorded, hcopied.sidecars, hsize]
    · have hreported : (reconcile c tr ts).reported = some pod := by
        simpa [Outcome.copied, hpanic] using hsome
      simp [Outcome.copied, herr, hreported] at h
    · rcases hleft.startTime with heq | heq
      · rw [heq]
        exact hstart
      · exact .inr heq
  · rw [if_neg hsize]
    refine Leaves.finish ⟨?_, fun h => ?_, hstart⟩ c before
    · simp [TaskRun.records, hrecorded, hcopied.sidecars, hsize]
    · exact absurd (hsome.symm.trans h) (by simp)

theorem copied_of_reported (h : o.reported = none) : o.copied = none := by
  rw [Outcome.copied, h, ite_self]

theorem reconcileKind_leaves (c : Cluster) (tr : TaskRun) :
    Leaves (tr.start c) (survivors c tr) (reconcileKind c tr) := by
  obtain ⟨hsteps, hsidecars⟩ := start_containers tr c
  have hpodName := start_podName tr c
  unfold survivors resultsExceed preparation
  by_cases hdone : (tr.start c).isDone = true
  · rw [if_pos hdone, reconcileKind_of_isDone hdone]
    exact reconcileDone_leaves c _ tr
  rw [if_neg hdone]
  by_cases hstop : Stopped c (tr.start c)
  · obtain ⟨reason, message, heq⟩ := reconcileKind_of_stopped hdone hstop
    have hleft := failTaskRun_leaves c (tr.start c) reason message
      (o := { taskRun := (failTaskRun c (tr.start c) reason message).1
              err := (failTaskRun c (tr.start c) reason message).2 }) rfl
    have hnone : (failAndFinish c tr.status.succeeded (tr.start c) reason message).copied = none :=
      copied_of_reported rfl
    rw [heq, hnone]
    rw [hsteps, hsidecars, hpodName] at hleft
    have hleft := hleft.finish c tr.status.succeeded
    by_cases hpod : tr.status.podName = ""
    · simpa [failAndFinish, hpod] using hleft
    · simpa [failAndFinish, hpod, hstop] using hleft
  · rw [reconcileKind_of_going hdone hstop, if_neg (not_or.mpr ⟨hdone, hstop⟩),
      if_neg fun h => hstop h.1]
    have hsame := prepare_sameAttempt c (tr.start c)
    rcases hprep : prepare c (tr.start c) with ⟨prepared, e | ts⟩ <;> rw [hprep] at hsame
    · have hleft := (SameAttempt.leaves (o := { taskRun := prepared, err := some e }) hsame).finish
        c none
      rw [TaskRun.records, hsteps, hsidecars] at hleft
      rw [copied_of_reported rfl]
      exact hleft
    · have hleft := reconcile_leaves c prepared.status.succeeded hsame ts
      rw [← finishReconciled_copied c prepared.status.succeeded tr] at hleft
      exact hleft

/-- No container of an earlier attempt can fail the TaskRun. -/
structure Fresh (tr : TaskRun) : Prop where
  podName : tr.status.podName = ""
  records : ∀ r ∈ tr.records, blocked r = false

theorem start_fresh (h : Fresh tr) (c : Cluster) : Fresh (tr.start c) := by
  obtain ⟨hsteps, hsidecars⟩ := start_containers tr c
  refine ⟨(start_podName tr c).trans h.podName, ?_⟩
  rw [TaskRun.records, hsteps, hsidecars]
  exact h.records

theorem blocked_of_survivors : (∀ r ∈ (reconcileKind c tr).taskRun.records, blocked r = false) ↔
      ∀ r ∈ survivors c tr, blocked r = false := by
  have hblocked := (reconcileKind_leaves c tr).blocked
  have hempty : ∀ l : List ContainerRecord,
      (∀ r ∈ l, blocked r = false) ↔ l.filter blocked = [] := fun l => by simp
  rw [hempty, hempty, hblocked]

theorem Fresh.reconciled (h : Fresh tr) (hnone : (reconcileKind c tr).copied = none) :
    Fresh (reconcileKind c tr).taskRun := by
  have hfresh := start_fresh h c
  refine ⟨?_, blocked_of_survivors.mpr fun s hs => ?_⟩
  · rcases (reconcileKind_leaves c tr).podName hnone with hpod | hpod
    · exact hpod.trans hfresh.podName
    · exact hpod
  · refine h.records s ?_
    unfold survivors at hs
    by_cases hdone : (tr.start c).isDone = true
    · rw [if_pos hdone, (stopped_fields _ c).2.2.2 hfresh.podName, (start_containers tr c).2] at hs
      exact hs
    · simpa [TaskRun.records, hdone, hnone, h.podName] using hs

theorem Fresh.next (h : Fresh tr)
    (hnone : c.updateStatus = true → (reconcileKind c tr).copied = none) :
    Fresh (nextTaskRun tr c) := by
  unfold nextTaskRun
  split
  · rename_i hupdate
    exact h.reconciled (hnone hupdate)
  · exact h

theorem trace_startTime (hstart : tr.status.startTime = none) {cs : List Cluster} {j : Nat}
    {e : TaskRun × Cluster} (hj : (Transition.trace nextTaskRun tr cs)[j]? = some e) {t : Time}
    (ht : e.1.status.startTime = some t) :
    ∃ k d, k < j ∧ (Transition.trace nextTaskRun tr cs)[k]? = some d ∧ d.2.now ≤ t := by
  induction j generalizing e with
  | zero =>
    cases cs with
    | nil => simp [Transition.trace] at hj
    | cons c cs =>
      obtain rfl : (tr, c) = e := by simpa [Transition.trace] using hj
      rw [hstart] at ht
      cases ht
  | succ j ih =>
    obtain ⟨d, hd, hnext⟩ := Transition.trace_succ hj
    have hkept : d.1.status.startTime = some t →
        ∃ k d, k < j + 1 ∧ (Transition.trace nextTaskRun tr cs)[k]? = some d ∧ d.2.now ≤ t := by
      intro hkept
      obtain ⟨k, d', hk, hd', hle⟩ := ih hd hkept
      exact ⟨k, d', Nat.lt_succ_of_lt hk, hd', hle⟩
    rw [hnext] at ht
    unfold nextTaskRun at ht
    split at ht
    · rcases (reconcileKind_leaves d.2 d.1).startTime with heq | heq
      · rw [heq] at ht
        unfold TaskRun.start at ht
        split at ht
        · exact hkept ht
        · refine ⟨j, d, Nat.lt_succ_self j, hd, ?_⟩
          have hmax : max d.2.now d.1.creationTimestamp = t := by
            simpa [TaskRun.initializeConditions] using ht
          exact hmax ▸ Nat.le_max_left _ _
      · rw [heq] at ht
        cases ht
    · exact hkept ht

def Retries (c : Cluster) (tr : TaskRun) : Prop :=
  tr.status.retriesStatus.length < (reconcileKind c tr).taskRun.status.retriesStatus.length

theorem Retries.reset (h : Retries c tr) : (reconcileKind c tr).taskRun.status.podName = "" ∧
      (reconcileKind c tr).taskRun.status.startTime = none := by
  have hkept : ∀ tr' : TaskRun, tr'.identity = tr.identity →
      tr'.status.retriesStatus.length = tr.status.retriesStatus.length := by
    intro tr' hid
    simp only [TaskRun.identity, Prod.mk.injEq] at hid
    rw [hid.2.2.2]
  unfold Retries at h
  rcases reconcileKind_exits c tr with hid | ⟨before, o, hid, heq⟩
  · have := hkept _ hid
    omega
  · rcases finish_cases c before o with hsame | ⟨-, -, -, hretried⟩
    · rw [heq, hsame, hkept _ hid] at h
      omega
    · rw [heq, hretried]
      exact ⟨rfl, rfl⟩

/-- However many reconciles go by, until one copies the status of a pod none finds a failed
pod, and one that finds the TaskRun timed out comes later than an earlier one of them by more
than the timeout. -/
def StartsAfresh (tr : TaskRun) : Prop :=
  ∀ (cs : List Cluster) (j : Nat) (e : TaskRun × Cluster),
    (Transition.trace nextTaskRun tr cs)[j]? = some e →
    (∀ (k : Nat) (d : TaskRun × Cluster), k < j →
      (Transition.trace nextTaskRun tr cs)[k]? = some d →
      d.2.updateStatus = true → (reconcileKind d.2 d.1).copied = none) →
    checkPodFailed e.2 (e.1.start e.2) = none ∧
      ((e.1.start e.2).hasTimedOut e.2.now = true →
        ∃ (k : Nat) (d : TaskRun × Cluster), k < j ∧
          (Transition.trace nextTaskRun tr cs)[k]? = some d ∧ e.1.timeout < e.2.now - d.2.now)

/-- A retry starts afresh exactly where the failed attempt left no container on record that
waits for its image. -/
theorem retry_startsAfresh_iff (c : Cluster) (tr : TaskRun) (h : Retries c tr) :
    StartsAfresh (reconcileKind c tr).taskRun ↔ ∀ r ∈ survivors c tr, blocked r = false := by
  obtain ⟨hpod, hstart⟩ := h.reset
  constructor
  · intro hfresh
    rw [← blocked_of_survivors]
    intro s hs
    by_contra hblocked
    rw [Bool.not_eq_false] at hblocked
    -- a reconcile without patience for a pull back-off finds the container
    have hnone := (hfresh [{}] 0 ((reconcileKind c tr).taskRun, {}) rfl (by omega)).1
    have hmem : s ∈ ((reconcileKind c tr).taskRun.start {}).records := by
      obtain ⟨hsteps, hsidecars⟩ := start_containers (reconcileKind c tr).taskRun {}
      rw [TaskRun.records, hsteps, hsidecars]
      exact hs
    have hsome := checkPodFailed_of_blocked (c := {}) rfl hmem hblocked
    rw [hnone] at hsome
    cases hsome
  · intro hclean cs j e hj hnone
    have hfresh : Fresh (reconcileKind c tr).taskRun := ⟨hpod, blocked_of_survivors.mpr hclean⟩
    obtain ⟨c₀, rest, rfl⟩ : ∃ c₀ rest, cs = c₀ :: rest := by
      cases cs with
      | nil => simp [Transition.trace] at hj
      | cons c₀ rest => exact ⟨c₀, rest, rfl⟩
    have hfresh_e : Fresh e.1 :=
      Transition.trace_from Fresh (i := 0) (e := ((reconcileKind c tr).taskRun, c₀)) rfl hfresh
        (Nat.zero_le j) hj fun k d _ hk hd hf => hf.next (hnone k d hk hd)
    refine ⟨checkPodFailed_of_not_blocked (start_fresh hfresh_e e.2).records, fun hout => ?_⟩
    by_cases hstarted : e.1.hasStarted = true
    · obtain ⟨t, ht⟩ := Option.isSome_iff_exists.mp hstarted
      obtain ⟨k, d, hk, hd, hle⟩ := trace_startTime hstart hj ht
      refine ⟨k, d, hk, hd, ?_⟩
      have hlate : e.1.timeout < e.2.now - t := by
        simp [TaskRun.start, hstarted, TaskRun.hasTimedOut, ht] at hout
        exact hout.2
      exact Nat.lt_of_lt_of_le hlate (Nat.sub_le_sub_left hle _)
    · -- the attempt has just been started by this very reconcile
      rw [Bool.not_eq_true] at hstarted
      simp [TaskRun.start, hstarted, TaskRun.hasTimedOut, TaskRun.initializeConditions] at hout

def proxiedBuild : TaskRun :=
  { name := "build", uid := "u1", retries := 2
    embeddedTaskSpec := some { steps := [{ name := "compile" }] } }

def pulling (container : String) : Cluster :=
  { pods :=
      [{ name := "build-pod", taskRunLabel := "build", ownerReferences := [⟨"u1", true⟩]
         containers := [container]
         containerStatuses :=
          [{ name := container
             state := { waiting := some ⟨"ImagePullBackOff", "Back-off pulling image"⟩ } }] }] }

def pulled (container : String) : TaskRun := nextTaskRun proxiedBuild (pulling container)

/-- A step is terminated with its pod, so the retry starts afresh. -/
theorem pulled_step_startsAfresh : Retries (pulling "step-compile") (pulled "step-compile") ∧
      StartsAfresh (reconcileKind (pulling "step-compile") (pulled "step-compile")).taskRun := by
  have h : Retries (pulling "step-compile") (pulled "step-compile") := by
    unfold Retries
    decide +kernel
  exact ⟨h, (retry_startsAfresh_iff _ _ h).mpr (by decide +kernel)⟩

/-- The pod is evicted while its image is waited for. -/
def evicting : Cluster :=
  { imagePullBackOffTimeout := 300
    getPod :=
      .ok { name := "build-pod", conditions := [{ type := "Initialized", status := .isTrue }] }
    pods :=
      [{ name := "build-pod", taskRunLabel := "build", ownerReferences := [⟨"u1", true⟩]
         containers := ["step-compile"], phase := .failed, reason := "Evicted" }] }

/-- A sidecar uses up every retry, and no further attempt gets a pod. So does a step that an
evicted pod has no status of. -/
theorem pulled_sidecar_fails_retries :
    let first := nextTaskRun (pulled "sidecar-proxy") (pulling "sidecar-proxy")
    let second := nextTaskRun first {}
    let third := nextTaskRun second {}
    let evicted := nextTaskRun (pulled "step-compile") evicting
    Retries (pulling "sidecar-proxy") (pulled "sidecar-proxy") ∧ ¬ StartsAfresh first ∧
      (reconcileKind {} first).created = none ∧ second.status.retriesStatus.length = 2 ∧
      (reconcileKind {} second).created = none ∧ third.isFailure = true ∧
      Retries evicting (pulled "step-compile") ∧ ¬ StartsAfresh evicted ∧
      (reconcileKind {} evicted).created = none := by
  have hstale : ∀ tr : TaskRun, (checkPodFailed {} (tr.start {})).isSome = true →
      ¬ StartsAfresh tr := by
    intro tr hsome h
    have hnone := (h [{}] 0 _ rfl (by omega)).1
    rw [hnone] at hsome
    cases hsome
  refine ⟨by unfold Retries; decide +kernel, hstale _ (by decide +kernel), ?_⟩
  refine ⟨by decide +kernel, by decide +kernel, by decide +kernel, by decide +kernel, ?_⟩
  exact ⟨by unfold Retries; decide +kernel, hstale _ (by decide +kernel), by decide +kernel⟩

end TektonPipeline.TaskRunReconciler
