import TektonPipeline.Pipeline.Timeouts
import Mathlib.Algebra.Ring.Int.Defs

/-! What the timeouts of a PipelineRun are worth: which of them validation lets pass, and
whether a timeout that is only implied by two others ends the tasks it is for. -/

namespace TektonPipeline.Timeouts

/-! ## Exact validation -/

def TimeoutFields.parts (t : TimeoutFields) : List Duration :=
  t.tasks.toList ++ t.finallyTasks.toList

def PartsFit (limit : Int) (t : TimeoutFields) : Prop :=
  ∀ d ∈ t.parts, 0 ≤ d.toInt ∧ (limit = 0 ∨ d.toInt ≠ 0 ∧ d.toInt ≤ limit)

/-- The timeout of the pipeline, or the default, without a bound on the result. -/
def effectiveTimeout (cfg : Defaults) (t : TimeoutFields) : Int :=
  match t.pipeline with
  | some p => p.toInt
  | none => cfg.defaultTimeoutMinutes.toInt * 60000000000

@[mk_iff]
structure Admissible (cfg : Defaults) (t : TimeoutFields) : Prop where
  nonneg : 0 ≤ effectiveTimeout cfg t
  fit : PartsFit (effectiveTimeout cfg t) t
  sum : effectiveTimeout cfg t = 0 ∨ ∀ k f, t.tasks = some k → t.finallyTasks = some f →
    k.toInt + f.toInt ≤ effectiveTimeout cfg t

def comparedTimeout (cfg : Defaults) (t : TimeoutFields) : Duration :=
  t.pipeline.getD cfg.defaultTimeoutMinutes

section
variable {text : Duration → String} {cfg : Defaults} {t : TimeoutFields}

theorem forall_parts {P : Duration → Prop} :
    (∀ d ∈ t.parts, P d) ↔ (∀ k, t.tasks = some k → P k) ∧ ∀ f, t.finallyTasks = some f → P f := by
  simp [TimeoutFields.parts, or_imp, forall_and]

theorem validatePipelineTimeout_eq_nil {timeout : Duration} {errorMsg : String} :
    validatePipelineTimeout text t timeout errorMsg = [] ↔ (∀ d ∈ t.parts,
        timeout = noTimeoutDuration ∨ d ≠ noTimeoutDuration ∧ d.toInt ≤ timeout.toInt) ∧
      ∀ k f, t.tasks = some k → t.finallyTasks = some f → (k + f).toInt ≤ timeout.toInt := by
  simp only [validatePipelineTimeout, List.append_eq_nil_iff, validatePart_eq_nil, forall_parts]
  refine and_congr Iff.rfl ?_
  cases t.tasks with
  | none => simp
  | some k =>
    cases t.finallyTasks with
    | none => simp
    | some f => simp [Int64.lt_iff_toInt_lt]

theorem validateTimeouts_eq_nil : validateTimeouts text cfg t = [] ↔
      (∀ p, t.pipeline = some p → 0 ≤ p.toInt) ∧ PartsFit (comparedTimeout cfg t).toInt t ∧
      ∀ k f, t.tasks = some k → t.finallyTasks = some f →
        (k + f).toInt ≤ (comparedTimeout cfg t).toInt := by
  have hcompared : validateTimeouts text cfg t = [] ↔
      (∀ d ∈ t.parts, 0 ≤ d.toInt) ∧ (∀ p, t.pipeline = some p → 0 ≤ p.toInt) ∧
        ∃ errorMsg, validatePipelineTimeout text t (comparedTimeout cfg t) errorMsg = [] := by
    simp only [forall_parts, validateTimeouts, comparedTimeout, List.append_eq_nil_iff,
      validateTimeoutDuration_eq_nil, validatePipelineTimeout_eq_nil, exists_const, and_assoc]
    cases hp : t.pipeline with
    | none => simp [validatePipelineTimeout_eq_nil, forall_parts, and_assoc]
    | some p => simp [validatePipelineTimeout_eq_nil, forall_parts, and_assoc]
  rw [hcompared]
  simp only [validatePipelineTimeout_eq_nil, exists_const, PartsFit, forall_and, ne_eq,
    toInt_eq_zero_iff]
  tauto

/-- The sum is taken in 64 bits. -/
def SumPasses (limit : Int) (t : TimeoutFields) : Prop :=
  ∀ k f, t.tasks = some k → t.finallyTasks = some f →
    k.toInt + f.toInt ≤ limit ∨ Int64.maxValue.toInt < k.toInt + f.toInt

theorem toInt_add_le_iff {k f limit : Duration} (hk : 0 ≤ k.toInt) (hf : 0 ≤ f.toInt)
    (hlimit : 0 ≤ limit.toInt) : (k + f).toInt ≤ limit.toInt ↔
      k.toInt + f.toInt ≤ limit.toInt ∨ Int64.maxValue.toInt < k.toInt + f.toInt := by
  have hmax := Int64.toInt_maxValue
  have hk' := k.toInt_lt
  have hf' := f.toInt_lt
  have hlimit' := limit.toInt_lt
  rw [Int64.toInt_add, Int.bmod, hmax]
  split <;> omega

theorem PartsFit.limit_nonneg {limit : Int} {d : Duration} (h : PartsFit limit t)
    (hd : d ∈ t.parts) : 0 ≤ limit := by
  have := h d hd
  omega

theorem accepted_iff : validateTimeouts text cfg t = [] ↔
      (∀ p, t.pipeline = some p → 0 ≤ p.toInt) ∧ PartsFit (comparedTimeout cfg t).toInt t ∧
      SumPasses (comparedTimeout cfg t).toInt t := by
  rw [validateTimeouts_eq_nil]
  refine and_congr_right fun _ => and_congr_right fun hfit => ?_
  refine forall₂_congr fun k f => forall₂_congr fun hk hf => ?_
  have hparts : k ∈ t.parts ∧ f ∈ t.parts := by simp [TimeoutFields.parts, hk, hf]
  exact toInt_add_le_iff (hfit k hparts.1).1 (hfit f hparts.2).1 (hfit.limit_nonneg hparts.1)

end

/-- Under a pipeline without a timeout the sum of two timeouts is zero or does not fit 64 bits;
under another one it does. -/
def SumHarmless (p : Int) (t : TimeoutFields) : Prop :=
  ∀ k f, t.tasks = some k → t.finallyTasks = some f → PartsFit p t →
    (p = 0 → k.toInt + f.toInt = 0 ∨ Int64.maxValue.toInt < k.toInt + f.toInt) ∧
    (p ≠ 0 → k.toInt + f.toInt ≤ Int64.maxValue.toInt)

def TimeoutFields.total (t : TimeoutFields) : Int := (t.parts.map Int64.toInt).sum

/-- The default that is read as so many nanoseconds: timeouts between it and as many minutes
are refused. A default below zero is not seen where no timeout is compared with it. -/
@[mk_iff]
structure DefaultHarmless (minutes : Int) (t : TimeoutFields) : Prop where
  negative : minutes < 0 → t.parts ≠ []
  zero : minutes = 0 → SumHarmless 0 t
  positive : 0 < minutes → (∀ d ∈ t.parts, 0 < d.toInt) →
    t.total ≤ minutes ∨ minutes * 60000000000 < t.total ∨
      Int64.maxValue.toInt < t.total ∧ ∀ d ∈ t.parts, d.toInt ≤ minutes

section
variable {t : TimeoutFields}

theorem sum_passes_iff {p : Int} (hnonneg : 0 ≤ p) (hmax : p ≤ Int64.maxValue.toInt) :
    (PartsFit p t ∧ SumPasses p t ↔ 0 ≤ p ∧ PartsFit p t ∧ (p = 0 ∨ ∀ k f, t.tasks = some k →
      t.finallyTasks = some f → k.toInt + f.toInt ≤ p)) ↔ SumHarmless p t := by
  rcases t with ⟨pipeline, _ | k, _ | f⟩
  · simp [SumPasses, SumHarmless, hnonneg]
  · simp [SumPasses, SumHarmless, hnonneg]
  · simp [SumPasses, SumHarmless, hnonneg]
  · simp [SumPasses, SumHarmless, PartsFit, TimeoutFields.parts]
    omega

theorem default_passes_iff {minutes : Int} :
    (PartsFit minutes t ∧ SumPasses minutes t ↔ 0 ≤ minutes * 60000000000 ∧
      PartsFit (minutes * 60000000000) t ∧ (minutes * 60000000000 = 0 ∨ ∀ k f, t.tasks = some k →
        t.finallyTasks = some f → k.toInt + f.toInt ≤ minutes * 60000000000)) ↔
    DefaultHarmless minutes t := by
  have hmax := Int64.toInt_maxValue
  rw [defaultHarmless_iff]
  rcases t with ⟨pipeline, _ | k, _ | f⟩
  · simp [SumPasses, SumHarmless, PartsFit, TimeoutFields.parts, TimeoutFields.total]
    omega
  · have hf := f.toInt_le
    simp [SumPasses, SumHarmless, PartsFit, TimeoutFields.parts, TimeoutFields.total]
    omega
  · have hk := k.toInt_le
    simp [SumPasses, SumHarmless, PartsFit, TimeoutFields.parts, TimeoutFields.total]
    omega
  · have hk := k.toInt_le
    have hf := f.toInt_le
    simp [SumPasses, SumHarmless, PartsFit, TimeoutFields.parts, TimeoutFields.total]
    omega

end

/-- Timeouts that are refused although they can be kept are two under a pipeline without a
timeout; such that pass although they cannot be kept have a sum that is too large. Without a
timeout of the pipeline the default is read as so many nanoseconds. -/
theorem validated_exactly_iff (text : Duration → String) (cfg : Defaults) (t : TimeoutFields) :
    (validateTimeouts text cfg t = [] ↔ Admissible cfg t) ↔
    (∀ p, t.pipeline = some p → 0 ≤ p.toInt → SumHarmless p.toInt t) ∧
      (t.pipeline = none → DefaultHarmless cfg.defaultTimeoutMinutes.toInt t) := by
  rw [accepted_iff, admissible_iff, comparedTimeout, effectiveTimeout]
  cases hp : t.pipeline with
  | none =>
    simp only [reduceCtorEq, false_implies, implies_true, true_and, true_implies]
    exact default_passes_iff
  | some p =>
    simp only [Option.getD_some, Option.some.injEq, forall_eq', reduceCtorEq, false_implies,
      and_true]
    by_cases hnonneg : 0 ≤ p.toInt
    · simpa [hnonneg] using sum_passes_iff hnonneg p.toInt_le
    · simp [hnonneg]

def hour : Duration := 60 * minute

def hours : TimeoutFields where
  tasks := some hour
  finallyTasks := some hour

theorem hours_fit {p : Option Duration} {limit : Int} (h : limit = 0 ∨ hour.toInt ≤ limit) :
    PartsFit limit { hours with pipeline := p } := by
  have hpos : 0 < hour.toInt := by decide +kernel
  have hfits : 0 ≤ hour.toInt ∧ (limit = 0 ∨ hour.toInt ≠ 0 ∧ hour.toInt ≤ limit) := by omega
  exact forall_parts.mpr
    ⟨fun k hk => by cases hk; exact hfits, fun f hf => by cases hf; exact hfits⟩

/-- No limit is too short for two hours, and the default of a day is not either. The sum of the
two longest timeouts is not below the longest. -/
theorem hours_not_validated_exactly :
    (Admissible {} { hours with pipeline := some 0 } ∧
      validateTimeouts (fun _ => "") {} { hours with pipeline := some 0 } ≠ []) ∧
    (Admissible { defaultTimeoutMinutes := 1440 } hours ∧
      validateTimeouts (fun _ => "") { defaultTimeoutMinutes := 1440 } hours ≠ []) ∧
    (¬ Admissible {} ⟨some Int64.maxValue, some Int64.maxValue, some Int64.maxValue⟩ ∧
      validateTimeouts (fun _ => "") {}
        ⟨some Int64.maxValue, some Int64.maxValue, some Int64.maxValue⟩ = []) := by
  refine ⟨⟨⟨by decide, hours_fit (.inl (by decide)), .inl (by decide)⟩, by decide +kernel⟩,
    ⟨⟨by decide +kernel, hours_fit (.inr (by decide +kernel)), .inr ?_⟩, by decide +kernel⟩, ?_,
    by decide +kernel⟩
  · intro k f hk hf
    cases hk
    cases hf
    decide +kernel
  · intro h
    rcases h.sum with hzero | hsum
    · exact absurd hzero (by decide +kernel)
    · exact absurd (hsum _ _ rfl rfl) (by decide +kernel)

/-! ## Enforcement -/

/-- Nanoseconds since the zero time. -/
abbrev Time := Int

/-- `Since`: a difference out of range is the longest or the shortest duration. -/
def since (now start : Time) : Duration :=
  Int64.ofInt (max Int64.minValue.toInt (min Int64.maxValue.toInt (now - start)))

structure PipelineRunStatus where
  startTime : Option Time := none
  finallyStartTime : Option Time := none
  deriving DecidableEq

/-- The zero time is no start. -/
def timedOutSince (timeout : Option Duration) (startTime : Option Time) (now : Time) : Bool :=
  match startTime with
  | some start => start ≠ 0 && timedOut timeout (since now start)
  | none => false

def haveTasksTimedOut (t : TimeoutFields) (status : PipelineRunStatus) (now : Time) : Bool :=
  timedOutSince (tasksTimeout t) status.startTime now

def hasFinallyTimedOut (t : TimeoutFields) (status : PipelineRunStatus) (now : Time) : Bool :=
  timedOutSince (finallyTimeout t) status.finallyStartTime now

/-- A part is timed out when more has passed since its start than the other part leaves. -/
def RestEnforced (p given : Duration) (startTime : Option Time) (now : Time) (timedOut : Bool) :
    Prop :=
  ∀ start, startTime = some start → (timedOut = true ↔ p.toInt - given.toInt < now - start)

/-- Where the start is the zero time, or nothing is left, there is still time. -/
def InTime (p given : Duration) (startTime : Option Time) (now : Time) : Prop :=
  ∀ start, startTime = some start → start = 0 ∨ p = given → now - start ≤ p.toInt - given.toInt

theorem lt_since_iff {d : Duration} {now start : Time} (hd : d.toInt < Int64.maxValue.toInt) :
    d < since now start ↔ d.toInt < now - start := by
  have hmax := Int64.toInt_maxValue
  have hmin := Int64.toInt_minValue
  have hd' := d.le_toInt
  rw [Int64.lt_iff_toInt_lt, since, Int64.toInt_ofInt_of_le (by omega) (by omega)]
  omega

theorem restEnforced_iff {p g : Duration} {startTime : Option Time} {now : Time}
    (hp : p ≠ noTimeoutDuration) (hg : Fits p g) :
    RestEnforced p g startTime now (timedOutSince (remainder (some p) (some g)) startTime now) ↔
      InTime p g startTime now := by
  have hne := hg.ne hp
  have hsub := toInt_sub_of_le hg.nonneg (hg.le hp)
  have hpos : g.toInt ≠ 0 := fun h => hne (toInt_eq_zero_iff.mp h)
  have hnonneg := hg.nonneg
  have hmax := p.toInt_le
  have hzero : p - g = noTimeoutDuration ↔ p = g := by
    rw [← toInt_eq_zero_iff, hsub, ← Int64.toInt_inj]
    omega
  have hsince : ∀ start, p - g < since now start ↔ p.toInt - g.toInt < now - start := by
    intro start
    rw [lt_since_iff (by omega), hsub]
  refine forall_congr' fun start => forall_congr' fun hstart => ?_
  subst hstart
  simp only [timedOutSince, remainder, hp, hne, or_self, if_false, timedOut, hzero, hsince,
    Bool.and_eq_true, decide_eq_true_eq, ne_eq, ← and_assoc, ← not_or, and_iff_right_iff_imp,
    ← Int.not_lt]
  exact ⟨fun h hcase hlt => h hlt hcase, fun h hlt hcase => h hcase hlt⟩

/-- An implied timeout is enforced exactly where there is one left: two timeouts that are the
same leave zero, which is no timeout. -/
theorem derived_timeouts_enforced_iff (text : Duration → String) (cfg : Defaults)
    (t : TimeoutFields) {p : Duration} (hvalid : validateTimeouts text cfg t = [])
    (hp : t.pipeline = some p) (hne : p ≠ noTimeoutDuration) (status : PipelineRunStatus)
    (now : Time) : ((∀ f, t.tasks = none → t.finallyTasks = some f →
        RestEnforced p f status.startTime now (haveTasksTimedOut t status now)) ∧
      ∀ k, t.finallyTasks = none → t.tasks = some k →
        RestEnforced p k status.finallyStartTime now (hasFinallyTimedOut t status now)) ↔
    (∀ f, t.tasks = none → t.finallyTasks = some f → InTime p f status.startTime now) ∧
      ∀ k, t.finallyTasks = none → t.tasks = some k → InTime p k status.finallyStartTime now := by
  have haccepted := accepted_of_validate hp hvalid
  refine and_congr (forall_congr' fun f => forall₂_congr fun hnone hf => ?_)
    (forall_congr' fun k => forall₂_congr fun hnone hk => ?_)
  · rw [haveTasksTimedOut, tasksTimeout, hnone, hp, hf]
    exact restEnforced_iff hne (haccepted.finallyTasks f hf)
  · rw [hasFinallyTimedOut, finallyTimeout, hnone, hp, hk]
    exact restEnforced_iff hne (haccepted.tasks k hk)

def mostlyTasks : TimeoutFields where
  pipeline := some hour
  finallyTasks := some (20 * minute)

theorem mostlyTasks_enforced :
    validateTimeouts (fun _ => "") {} mostlyTasks = [] ∧ hour ≠ noTimeoutDuration ∧
      ∀ now, RestEnforced hour (20 * minute) (some 1) now
        (haveTasksTimedOut mostlyTasks { startTime := some 1 } now) := by
  have hvalid : validateTimeouts (fun _ => "") {} mostlyTasks = [] := by decide +kernel
  have hne : hour ≠ noTimeoutDuration := by decide +kernel
  refine ⟨hvalid, hne, fun now => ?_⟩
  refine ((derived_timeouts_enforced_iff _ {} mostlyTasks hvalid rfl hne { startTime := some 1 }
    now).mpr ⟨?_, fun k hnone => by cases hnone⟩).1 _ rfl rfl
  intro f _ hf start hstart hcase
  cases hf
  cases hstart
  exact absurd hcase (by decide +kernel)

/-- The tasks may take none of the half hour and are never ended. -/
theorem halfHour_not_enforced : validateTimeouts (fun _ => "") {} halfHour = [] ∧
      ∀ now : Int, 1 < now → ¬ RestEnforced (30 * minute) (30 * minute) (some 1) now
        (haveTasksTimedOut halfHour { startTime := some 1 } now) := by
  refine ⟨by decide +kernel, fun now hnow h => ?_⟩
  have hzero : tasksTimeout halfHour = some noTimeoutDuration := by decide +kernel
  have hended := (h 1 rfl).mpr (by omega)
  simp [haveTasksTimedOut, hzero, timedOutSince, timedOut] at hended

end TektonPipeline.Timeouts
