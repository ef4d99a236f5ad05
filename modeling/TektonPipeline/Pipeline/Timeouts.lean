import TektonPipeline.Api.FieldError

/-! The timeouts of a PipelineRun and when the controller looks at it again. A duration is a
count of nanoseconds in 64 bits, and one of zero is no timeout. -/

namespace TektonPipeline.Timeouts
open Api

abbrev Duration := Int64

def noTimeoutDuration : Duration := 0

def minute : Duration := 60000000000

structure TimeoutFields where
  pipeline : Option Duration := none
  tasks : Option Duration := none
  finallyTasks : Option Duration := none
  deriving DecidableEq

/-- The configured default, in minutes. -/
structure Defaults where
  defaultTimeoutMinutes : Int64 := 60
  deriving DecidableEq

def Defaults.defaultTimeout (cfg : Defaults) : Duration := cfg.defaultTimeoutMinutes * minute

def setDefaults (cfg : Defaults) (timeouts : Option TimeoutFields) : TimeoutFields :=
  let t := timeouts.getD {}
  { t with pipeline := some (t.pipeline.getD cfg.defaultTimeout) }

def pipelineTimeout (cfg : Defaults) (t : TimeoutFields) : Duration :=
  t.pipeline.getD cfg.defaultTimeout

/-- A timeout that is not given is what the given one leaves of the pipeline's. -/
def remainder (pipeline given : Option Duration) : Option Duration :=
  match pipeline, given with
  | some p, some g =>
    if p = noTimeoutDuration ∨ g = noTimeoutDuration then none else some (p - g)
  | _, _ => none

/-- The timeout of the tasks or of the finally tasks, where `other` is that of the others. -/
def partTimeout (pipeline given other : Option Duration) : Option Duration :=
  match given with
  | some d => some d
  | none => remainder pipeline other

def tasksTimeout (t : TimeoutFields) : Option Duration :=
  partTimeout t.pipeline t.tasks t.finallyTasks

def finallyTimeout (t : TimeoutFields) : Option Duration :=
  partTimeout t.pipeline t.finallyTasks t.tasks

/-! ## Validation -/

section
variable (text : Duration → String)

def validateTimeoutDuration (field : String) (d : Option Duration) : List FieldError :=
  match d with
  | some d =>
    if d < 0 then [errInvalidValue (text d ++ " should be >= 0") ("timeouts." ++ field)] else []
  | none => []

def validatePart (field : String) (d : Option Duration) (timeout : Duration) (errorMsg : String) :
    List FieldError :=
  match d with
  | some d =>
    let unlimited := d = noTimeoutDuration ∧ timeout ≠ noTimeoutDuration
    if (timeout < d ∧ timeout ≠ noTimeoutDuration) ∨ unlimited then
      [errInvalidValue ((text d ++ if unlimited then " (no timeout)" else "") ++ " " ++ errorMsg)
        ("timeouts." ++ field)]
    else []
  | none => []

def validatePipelineTimeout (t : TimeoutFields) (timeout : Duration) (errorMsg : String) :
    List FieldError :=
  validatePart text "tasks" t.tasks timeout errorMsg ++
  validatePart text "finally" t.finallyTasks timeout errorMsg ++
  match t.tasks, t.finallyTasks with
  | some tasks, some finallyTasks =>
    if timeout < tasks + finallyTasks then
      let value := text tasks ++ " + " ++ text finallyTasks ++ " " ++ errorMsg
      [errInvalidValue value "timeouts.tasks", errInvalidValue value "timeouts.finally"]
    else []
  | _, _ => []

/-- The default is compared as so many nanoseconds, not minutes, where no timeout of the
pipeline is given; the webhook fills it in before. -/
def validateTimeouts (cfg : Defaults) (t : TimeoutFields) : List FieldError :=
  validateTimeoutDuration text "tasks" t.tasks ++
  validateTimeoutDuration text "finally" t.finallyTasks ++
  validateTimeoutDuration text "pipeline" t.pipeline ++
  match t.pipeline with
  | some timeout => validatePipelineTimeout text t timeout "should be <= pipeline duration"
  | none => validatePipelineTimeout text t cfg.defaultTimeoutMinutes
      "should be <= default timeout duration"

end

/-! ## Requeueing -/

/-- The wait until a timeout, which is the default where there is no timeout. -/
def waitTime (cfg : Defaults) (timeout elapsed : Duration) : Duration :=
  if timeout = noTimeoutDuration then cfg.defaultTimeout else timeout - elapsed

/-- How long `ReconcileKind` waits, `elapsed` after the start and, where the finally tasks
have started, `finallyElapsed` after that. -/
def requeueAfter (cfg : Defaults) (t : TimeoutFields) (elapsed : Duration)
    (finallyElapsed : Option Duration) : Duration :=
  let pipelineWait := waitTime cfg (pipelineTimeout cfg t) elapsed
  match finallyElapsed, tasksTimeout t, finallyTimeout t with
  | none, some taskTimeout, _ => waitTime cfg taskTimeout elapsed
  | some finallyElapsed, _, some d =>
    let finallyWaitTime := d - finallyElapsed
    if d ≠ noTimeoutDuration ∧ finallyWaitTime < pipelineWait then finallyWaitTime else pipelineWait
  | _, _, _ => pipelineWait

/-- A run is timed out: `HasTimedOut`, `HaveTasksTimedOut` and `HasFinallyTimedOut`. -/
def timedOut (timeout : Option Duration) (runtime : Duration) : Bool :=
  match timeout with
  | some d => d ≠ noTimeoutDuration && d < runtime
  | none => false

/-- How long the tasks or the finally tasks may take, without a bound on the result. A timeout
of zero that is given is none; the others may leave no time at all. -/
def allowance (pipeline given other : Option Duration) : Option Int :=
  match given, pipeline, other with
  | some d, _, _ => if d = noTimeoutDuration then none else some d.toInt
  | none, some p, some g =>
    if p = noTimeoutDuration ∨ g = noTimeoutDuration then none else some (p.toInt - g.toInt)
  | none, _, _ => none

def outstanding (cfg : Defaults) (t : TimeoutFields) (elapsed : Duration)
    (finallyElapsed : Option Duration) : List Int :=
  let timeout := pipelineTimeout cfg t
  (if timeout = noTimeoutDuration then [] else [timeout.toInt - elapsed.toInt]) ++
  match finallyElapsed with
  | none => ((allowance t.pipeline t.tasks t.finallyTasks).map (· - elapsed.toInt)).toList
  | some finallyElapsed =>
    ((allowance t.pipeline t.finallyTasks t.tasks).map (· - finallyElapsed.toInt)).toList

theorem toInt_sub_le {a b : Int64} (ha : 0 ≤ a.toInt) : (a - b).toInt ≤ a.toInt - b.toInt := by
  have ha' := a.toInt_lt
  have hb := b.le_toInt
  have hb' := b.toInt_lt
  rw [Int64.toInt_sub, Int.bmod]
  split <;> omega

theorem toInt_sub_of_le {a b : Int64} (hb : 0 ≤ b.toInt) (hle : b.toInt ≤ a.toInt) :
    (a - b).toInt = a.toInt - b.toInt := by
  have ha' := a.toInt_lt
  rw [Int64.toInt_sub, Int.bmod]
  split <;> omega

/-! ## Accepted timeouts -/

structure Fits (timeout : Duration) (d : Duration) : Prop where
  nonneg : 0 ≤ d.toInt
  le : timeout ≠ noTimeoutDuration → d.toInt ≤ timeout.toInt
  ne : timeout ≠ noTimeoutDuration → d ≠ noTimeoutDuration

section
variable {text : Duration → String} {cfg : Defaults} {t : TimeoutFields} {d timeout : Duration}

theorem lt_zero_iff : d < 0 ↔ d.toInt < 0 := by
  rw [Int64.lt_iff_toInt_lt, Int64.toInt_zero]

theorem validateTimeoutDuration_eq_nil {field : String} {d : Option Duration} :
    validateTimeoutDuration text field d = [] ↔ ∀ k, d = some k → 0 ≤ k.toInt := by
  cases d with
  | none => simp [validateTimeoutDuration]
  | some k => simp [validateTimeoutDuration, lt_zero_iff]

theorem validatePart_eq_nil {field errorMsg : String} {d : Option Duration} :
    validatePart text field d timeout errorMsg = [] ↔ ∀ k, d = some k →
      timeout = noTimeoutDuration ∨ k ≠ noTimeoutDuration ∧ k.toInt ≤ timeout.toInt := by
  cases d with
  | none => simp [validatePart]
  | some k =>
    have hle : ¬ timeout < k ↔ k.toInt ≤ timeout.toInt := by
      rw [Int64.lt_iff_toInt_lt]
      omega
    by_cases hzero : timeout = noTimeoutDuration
    · simp [validatePart, hzero]
    · simp [validatePart, hzero, hle, and_comm]

structure Accepted (t : TimeoutFields) (timeout : Duration) : Prop where
  pipeline : t.pipeline = some timeout
  nonneg : 0 ≤ timeout.toInt
  tasks : ∀ d, t.tasks = some d → Fits timeout d
  finallyTasks : ∀ d, t.finallyTasks = some d → Fits timeout d

theorem accepted_of_validate (hp : t.pipeline = some timeout)
    (h : validateTimeouts text cfg t = []) : Accepted t timeout := by
  simp only [validateTimeouts, hp, validatePipelineTimeout, List.append_eq_nil_iff,
    validateTimeoutDuration_eq_nil, validatePart_eq_nil] at h
  obtain ⟨⟨⟨htasks, hfinally⟩, hpipeline⟩, ⟨hpart, hpart'⟩, -⟩ := h
  have hfits : ∀ d, 0 ≤ d.toInt →
      (timeout = noTimeoutDuration ∨ d ≠ noTimeoutDuration ∧ d.toInt ≤ timeout.toInt) →
      Fits timeout d := fun d hd hor =>
    ⟨hd, fun hne => (hor.resolve_left hne).2, fun hne => (hor.resolve_left hne).1⟩
  exact ⟨hp, hpipeline timeout rfl, fun d hd => hfits d (htasks d hd) (hpart d hd),
    fun d hd => hfits d (hfinally d hd) (hpart' d hd)⟩

theorem toInt_eq_zero_iff : d.toInt = 0 ↔ d = noTimeoutDuration := by
  rw [noTimeoutDuration, ← Int64.toInt_zero, Int64.toInt_inj]

structure LeavesNothing (timeout : Duration) (given other : Option Duration) : Prop where
  given : given = none
  other : other = some timeout
  ne : timeout ≠ noTimeoutDuration

/-- What validation leaves of the timeout of a part: there is none, it is within that of the
pipeline, or it is zero, which is no timeout for the code. -/
inductive Part (timeout : Duration) (given other : Option Duration) :
    Option Duration → Option Int → Prop where
  | unset : ¬LeavesNothing timeout given other → Part timeout given other none none
  | disabled : timeout = noTimeoutDuration → Part timeout given other (some noTimeoutDuration) none
  | limited {k : Duration} : ¬LeavesNothing timeout given other → k ≠ noTimeoutDuration →
      0 ≤ k.toInt → (timeout ≠ noTimeoutDuration → k.toInt ≤ timeout.toInt) →
      Part timeout given other (some k) (some k.toInt)
  | nothing : LeavesNothing timeout given other →
      Part timeout given other (some noTimeoutDuration) (some 0)

variable {given other : Option Duration}

theorem part_of_given (hd : Fits timeout d) : Part timeout (some d) other
    (partTimeout (some timeout) (some d) other) (allowance (some timeout) (some d) other) := by
  by_cases hzero : d = noTimeoutDuration
  · have hpipeline : timeout = noTimeoutDuration := by
      by_contra hne
      exact hd.ne hne hzero
    simpa [partTimeout, allowance, hzero] using Part.disabled hpipeline
  · have hsome : ¬LeavesNothing timeout (some d) other := nofun
    simpa [partTimeout, allowance, hzero] using Part.limited hsome hzero hd.nonneg hd.le

theorem part_of_remainder {g : Duration} (hg : Fits timeout g) : Part timeout none (some g)
    (partTimeout (some timeout) none (some g)) (allowance (some timeout) none (some g)) := by
  by_cases hnone : timeout = noTimeoutDuration ∨ g = noTimeoutDuration
  · have hsome : ¬LeavesNothing timeout none (some g) := fun h =>
      hnone.elim h.ne fun hg => h.ne (Option.some.inj h.other ▸ hg)
    simpa [partTimeout, remainder, allowance, hnone] using Part.unset hsome
  · have hpart : partTimeout (some timeout) none (some g) = some (timeout - g) := if_neg hnone
    have hallowance : allowance (some timeout) none (some g) = some (timeout.toInt - g.toInt) :=
      if_neg hnone
    rw [not_or] at hnone
    have hle := hg.le hnone.1
    have hnonneg := hg.nonneg
    have hsub := toInt_sub_of_le hnonneg hle
    rw [hpart, hallowance]
    by_cases hsame : timeout = g
    · subst hsame
      rw [Int64.sub_self, Int.sub_self]
      exact .nothing ⟨rfl, rfl, hnone.1⟩
    · have hlt : g.toInt ≠ timeout.toInt := fun h => hsame (Int64.toInt_inj.mp h).symm
      have hsome : ¬LeavesNothing timeout none (some g) := fun h =>
        hsame (Option.some.inj h.other).symm
      rw [← hsub]
      exact .limited hsome (by rw [ne_eq, ← toInt_eq_zero_iff]; omega) (by omega) fun _ => by omega

theorem part_of_fits (hgiven : ∀ d, given = some d → Fits timeout d)
    (hother : ∀ d, other = some d → Fits timeout d) : Part timeout given other
      (partTimeout (some timeout) given other) (allowance (some timeout) given other) := by
  cases given with
  | some d => exact part_of_given (hgiven d rfl)
  | none =>
    cases other with
    | some g => exact part_of_remainder (hother g rfl)
    | none => exact .unset nofun

theorem waitTime_le {elapsed : Duration} (h : 0 ≤ timeout.toInt)
    (hne : timeout ≠ noTimeoutDuration) :
    (waitTime cfg timeout elapsed).toInt ≤ timeout.toInt - elapsed.toInt := by
  rw [waitTime, if_neg hne]
  exact toInt_sub_le h

def earlier : Option Duration → Duration → Duration → Duration
  | some k, runtime, wait =>
    if k ≠ noTimeoutDuration ∧ k - runtime < wait then k - runtime else wait
  | none, _, wait => wait

theorem earlier_le {k : Duration} (hk : k ≠ noTimeoutDuration) (runtime wait : Duration) :
    (earlier (some k) runtime wait).toInt ≤ (k - runtime).toInt ∧
      (earlier (some k) runtime wait).toInt ≤ wait.toInt := by
  unfold earlier
  by_cases hlt : k - runtime < wait
  · simp only [if_pos (And.intro hk hlt)]
    exact ⟨Int.le_refl _, Int.le_of_lt (Int64.lt_iff_toInt_lt.mp hlt)⟩
  · simp only [hlt, and_false, if_false]
    exact ⟨Int.not_lt.mp fun h => hlt (Int64.lt_iff_toInt_lt.mpr h), Int.le_refl _⟩

/-- A wait that is right for a part with a timeout of its own, and for the pipeline where it has
none, is right unless the part gets no time. -/
theorem Part.in_time_iff {k : Option Duration} {a : Option Int}
    (hpart : Part timeout given other k a)
    (wait : Option Duration → Duration) {left runtime : Int}
    (hunset : timeout ≠ noTimeoutDuration → (wait none).toInt ≤ left)
    (hlimited : ∀ k : Duration, k ≠ noTimeoutDuration → 0 ≤ k.toInt →
      (timeout ≠ noTimeoutDuration → k.toInt ≤ timeout.toInt) →
      (timeout ≠ noTimeoutDuration → (wait (some k)).toInt ≤ left) ∧
        (wait (some k)).toInt ≤ k.toInt - runtime)
    (hnothing : timeout ≠ noTimeoutDuration →
      (wait (some noTimeoutDuration)).toInt ≤ -runtime →
      (wait (some noTimeoutDuration)).toInt ≤ left) :
    ((timeout ≠ noTimeoutDuration → (wait k).toInt ≤ left) ∧
        ∀ x, a = some x → (wait k).toInt ≤ x - runtime) ↔
      (LeavesNothing timeout given other →
        (wait (some noTimeoutDuration)).toInt ≤ -runtime) := by
  cases hpart with
  | unset hsome =>
    refine iff_of_true ⟨hunset, ?_⟩ fun hall => absurd hall hsome
    intro x hx
    cases hx
  | disabled hnone =>
    refine iff_of_true ⟨fun hne => absurd hnone hne, ?_⟩ fun hall => absurd hnone hall.ne
    intro x hx
    cases hx
  | limited hsome hk hpos hle =>
    refine iff_of_true ⟨(hlimited _ hk hpos hle).1, ?_⟩ fun hall => absurd hall hsome
    intro x hx
    obtain rfl := Option.some.inj hx
    exact (hlimited _ hk hpos hle).2
  | nothing hall =>
    simp only [hall, Option.some.injEq, forall_eq', true_implies, Int.zero_sub]
    exact and_iff_right_of_imp fun hle hne => hnothing hne hle

variable (h : Accepted t timeout)
include h

theorem Accepted.tasksPart : Part timeout t.tasks t.finallyTasks
    (tasksTimeout t) (allowance t.pipeline t.tasks t.finallyTasks) := by
  rw [tasksTimeout, h.pipeline]
  exact part_of_fits h.tasks h.finallyTasks

theorem Accepted.finallyPart : Part timeout t.finallyTasks t.tasks
    (finallyTimeout t) (allowance t.pipeline t.finallyTasks t.tasks) := by
  rw [finallyTimeout, h.pipeline]
  exact part_of_fits h.finallyTasks h.tasks

theorem Accepted.pipelineTimeout_eq : pipelineTimeout cfg t = timeout := by
  rw [pipelineTimeout, h.pipeline, Option.getD_some]

theorem Accepted.forall_outstanding {elapsed : Duration}
    {finallyElapsed : Option Duration} {P : Int → Prop} :
    (∀ left ∈ outstanding cfg t elapsed finallyElapsed, P left) ↔
      (timeout ≠ noTimeoutDuration → P (timeout.toInt - elapsed.toInt)) ∧
      match finallyElapsed with
      | none => ∀ a, allowance t.pipeline t.tasks t.finallyTasks = some a → P (a - elapsed.toInt)
      | some finallyElapsed => ∀ a, allowance t.pipeline t.finallyTasks t.tasks = some a →
          P (a - finallyElapsed.toInt) := by
  simp only [outstanding, h.pipelineTimeout_eq, List.forall_mem_append]
  refine and_congr ?_ ?_
  · by_cases hzero : timeout = noTimeoutDuration
    · simp [hzero]
    · simp [hzero]
  · cases finallyElapsed with
    | none => simp
    | some finallyElapsed => simp

theorem Accepted.requeueAfter_none (elapsed : Duration) : requeueAfter cfg t elapsed none =
      waitTime cfg ((tasksTimeout t).getD timeout) elapsed := by
  unfold requeueAfter
  rw [h.pipelineTimeout_eq]
  cases tasksTimeout t with
  | none => simp only [Option.getD_none]
  | some k => simp only [Option.getD_some]

theorem Accepted.requeueAfter_some (elapsed finallyElapsed : Duration) :
    requeueAfter cfg t elapsed (some finallyElapsed) =
      earlier (finallyTimeout t) finallyElapsed (waitTime cfg timeout elapsed) := by
  unfold requeueAfter
  rw [h.pipelineTimeout_eq]
  cases finallyTimeout t with
  | none => rfl
  | some k => rfl

/-- Before the finally tasks the controller looks again in time, unless they may take all the
time: then the default stands for the wait. -/
theorem Accepted.requeueAfter_tasks (elapsed : Duration) :
    (∀ left ∈ outstanding cfg t elapsed none, (requeueAfter cfg t elapsed none).toInt ≤ left) ↔
      (LeavesNothing timeout t.tasks t.finallyTasks →
        cfg.defaultTimeout.toInt ≤ -elapsed.toInt) := by
  have hnonneg := h.nonneg
  have hwait : cfg.defaultTimeout = waitTime cfg noTimeoutDuration elapsed := (if_pos rfl).symm
  rw [h.forall_outstanding, h.requeueAfter_none, hwait]
  refine h.tasksPart.in_time_iff (fun k => waitTime cfg (k.getD timeout) elapsed)
    (waitTime_le hnonneg) ?_ ?_
  · intro k hk hpos hle
    have hk : (waitTime cfg k elapsed).toInt ≤ k.toInt - elapsed.toInt := waitTime_le hpos hk
    exact ⟨fun hne => Int.le_trans hk (Int.sub_le_sub_right (hle hne) _), hk⟩
  · intro _ hle
    exact Int.le_trans hle (by omega)

/-- Once the finally tasks have started it does too, unless the tasks were to take all the
time: then the wait is for the pipeline alone. -/
theorem Accepted.requeueAfter_finally (elapsed finallyElapsed : Duration) :
    (∀ left ∈ outstanding cfg t elapsed (some finallyElapsed),
      (requeueAfter cfg t elapsed (some finallyElapsed)).toInt ≤ left) ↔
      (LeavesNothing timeout t.finallyTasks t.tasks →
        (timeout - elapsed).toInt ≤ -finallyElapsed.toInt) := by
  have hpipeline : timeout ≠ noTimeoutDuration →
      (waitTime cfg timeout elapsed).toInt ≤ timeout.toInt - elapsed.toInt := waitTime_le h.nonneg
  rw [h.forall_outstanding, h.requeueAfter_some, h.finallyPart.in_time_iff
    (fun k => earlier k finallyElapsed (waitTime cfg timeout elapsed)) hpipeline ?_
    fun hne _ => hpipeline hne]
  · refine forall_congr' fun hall => ?_
    rw [show timeout - elapsed = waitTime cfg timeout elapsed from (if_neg hall.ne).symm]
    rfl
  · intro k hk hpos _
    obtain ⟨hown, hwait⟩ := earlier_le hk finallyElapsed (waitTime cfg timeout elapsed)
    exact ⟨fun hne => Int.le_trans hwait (hpipeline hne), Int.le_trans hown (toInt_sub_le hpos)⟩

end

/-- The controller comes back before every deadline, unless one timeout is the pipeline's and
the other is not given. The tasks that get no time wait for the default, and the finally tasks
that get none for the end of the pipeline. -/
theorem requeue_in_time_iff (text : Duration → String) (cfg : Defaults)
    (timeouts : Option TimeoutFields) (elapsed : Duration) (finallyElapsed : Option Duration)
    (h : validateTimeouts text cfg (setDefaults cfg timeouts) = []) :
    (∀ left ∈ outstanding cfg (setDefaults cfg timeouts) elapsed finallyElapsed,
      (requeueAfter cfg (setDefaults cfg timeouts) elapsed finallyElapsed).toInt ≤ left) ↔
    ∀ timeout, (setDefaults cfg timeouts).pipeline = some timeout →
      match finallyElapsed with
      | none =>
        LeavesNothing timeout (setDefaults cfg timeouts).tasks
          (setDefaults cfg timeouts).finallyTasks →
          cfg.defaultTimeout.toInt ≤ -elapsed.toInt
      | some finallyElapsed =>
        LeavesNothing timeout (setDefaults cfg timeouts).finallyTasks
          (setDefaults cfg timeouts).tasks →
          (timeout - elapsed).toInt ≤ -finallyElapsed.toInt := by
  obtain ⟨timeout, hp⟩ : ∃ timeout, (setDefaults cfg timeouts).pipeline = some timeout := ⟨_, rfl⟩
  have haccepted := accepted_of_validate hp h
  simp only [hp, Option.some.injEq, forall_eq']
  cases finallyElapsed with
  | none => exact haccepted.requeueAfter_tasks elapsed
  | some finallyElapsed => exact haccepted.requeueAfter_finally elapsed finallyElapsed

def halfHour : TimeoutFields where
  pipeline := some (30 * minute)
  finallyTasks := some (30 * minute)

def onlyTasks : TimeoutFields where
  pipeline := some (30 * minute)
  tasks := some (30 * minute)

theorem ten_minutes_in_time :
    validateTimeouts (fun _ => "") {} (setDefaults {} (some { tasks := some (20 * minute) })) = [] ∧
    ∀ left ∈ outstanding {} (setDefaults {} (some { tasks := some (20 * minute) }))
      (10 * minute) none,
      (requeueAfter {} (setDefaults {} (some { tasks := some (20 * minute) })) (10 * minute)
        none).toInt ≤ left := by
  have hok : validateTimeouts (fun _ => "") {}
      (setDefaults {} (some { tasks := some (20 * minute) })) = [] := by decide +kernel
  refine ⟨hok, (requeue_in_time_iff _ {} _ (10 * minute) none hok).mpr ?_⟩
  intro timeout _ hall
  cases hall.given

/-- The run is to end in ten minutes; the controller comes back in an hour. The finally tasks
that get no time are looked at when the pipeline ends. -/
theorem halfHour_overslept :
    (validateTimeouts (fun _ => "") {} (setDefaults {} (some halfHour)) = [] ∧
      outstanding {} (setDefaults {} (some halfHour)) (20 * minute) none =
        [(10 * minute).toInt, -(20 * minute).toInt] ∧
      requeueAfter {} (setDefaults {} (some halfHour)) (20 * minute) none = 60 * minute) ∧
    (validateTimeouts (fun _ => "") {} (setDefaults {} (some onlyTasks)) = [] ∧
      outstanding {} (setDefaults {} (some onlyTasks)) (20 * minute) (some minute) =
        [(10 * minute).toInt, -minute.toInt] ∧
      requeueAfter {} (setDefaults {} (some onlyTasks)) (20 * minute) (some minute) =
        10 * minute) := by
  decide +kernel

end TektonPipeline.Timeouts
