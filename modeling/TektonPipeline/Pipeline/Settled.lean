import TektonPipeline.Pipeline.Scheduling

/-! Where every result that can be read has been written into the tasks, skipping is a
function of the facts: the cache and the order in which tasks are looked at make no
difference. -/

namespace TektonPipeline.Pipeline
open Api Stateful List

namespace PipelineRunFacts
variable (f : PipelineRunFacts)

section
variable (reason : String → SkippingReason)

/-- Whether the tasks before a task are done, if `reason` says why they are skipped. -/
def parentsDoneBy (n : String) : Bool :=
  f.isFinalTask n ||
    (f.tasksGraph.prev n).all fun p => (reason p).isSkipped || f.finished p

def parentSkippedBy (n : String) : Bool :=
  (f.tasksGraph.prev n).any fun p => (reason p).isSkipped && reason p != .whenExpressions

def missesResultBy (t : ResolvedPipelineTask) : Bool :=
  match (convertToResultRefs f.state t.pipelineTask).2 with
  | .ok _ => false
  | .error e =>
    (f.state.task? e.pipelineTask).isSome &&
      (decide (t.pipelineTask.onError = .continues ∨ f.isFinalTask t.name = true) ||
        reason e.pipelineTask == .whenExpressions)

def parentReasonBy (t : ResolvedPipelineTask) : SkippingReason :=
  let parentsDone := f.parentsDoneBy reason t.name
  if parentsDone && !t.pipelineTask.when.allowsExecution t.evaluatedCEL then .whenExpressions
  else if f.parentSkippedBy reason t.name then .parentTasks
  else if parentsDone && (t.hasResultReferences && f.missesResultBy reason t) then .missingResults
  else if parentsDone && f.hasTimedOut then .pipelineTimedOut
  else if parentsDone && f.tasksTimedOut t.name then .tasksTimedOut
  else if t.skipBecauseEmptyArrayInMatrixParams then .emptyArrayInMatrixParams
  else .none

def reasonBy (t : ResolvedPipelineTask) : SkippingReason :=
  if f.isFinalTask t.name || t.isScheduled || f.isValidationFailed t then .none
  else if f.isStopping then .stopping
  else if f.isGracefullyCancelled then .gracefullyCancelled
  else if f.isGracefullyStopped then .gracefullyStopped
  else f.parentReasonBy reason t

end

def reasonFuel : Nat → String → SkippingReason
  | 0, _ => .none
  | fuel + 1, n =>
    match f.state.task? n with
    | some t => f.reasonBy (reasonFuel fuel) t
    | none => .none

def reason (n : String) : SkippingReason := f.reasonFuel (f.tasksGraph.nodes.length + 1) n

def done (n : String) : Bool := (f.reason n).isSkipped || f.finished n

end PipelineRunFacts

/-- The results that have been written into the tasks of the graph that have no runs yet refer
to no results themselves, and all refer to tasks before them. -/
structure PlainResults (f : PipelineRunFacts) : Prop where
  written : ∀ t ∈ f.state, f.isFinalTask t.name = false → t.isScheduled = false →
    ∀ refs, (convertToResultRefs f.state t.pipelineTask).2 = .ok refs →
      applyTaskResults t.pipelineTask refs = t.pipelineTask
  refersBack : ∀ t ∈ f.state, f.isFinalTask t.name = false →
    ∀ ref ∈ pipelineTaskResultRefs t.pipelineTask, ref.pipelineTask ∈ f.tasksGraph.prev t.name

/-- The facts of a reconcile, with finally tasks of any form: the tasks of the graph look at none
of these. -/
structure Steady (f : PipelineRunFacts) : Prop extends WellFormed f, PlainResults f where
  nodup : f.names.Nodup
  cache : ∀ n r, f.skipCache.lookup n = some r → r = f.reason n

variable {t : ResolvedPipelineTask} {n : String}

section
variable {f : PipelineRunFacts}

variable {r r' : String → SkippingReason}

theorem missesResultBy_congr
    (h : ∀ ref ∈ pipelineTaskResultRefs t.pipelineTask, r ref.pipelineTask = r' ref.pipelineTask) :
    f.missesResultBy r t = f.missesResultBy r' t := by
  unfold PipelineRunFacts.missesResultBy
  cases he : (convertToResultRefs f.state t.pipelineTask).2 with
  | ok refs => rfl
  | error e =>
    obtain ⟨ref, href, heq⟩ := resolveRefs_error he
    dsimp only
    rw [heq, h ref href]

theorem parentReasonBy_congr (hprev : ∀ p ∈ f.tasksGraph.prev t.name, r p = r' p)
    (hrefs : ∀ ref ∈ pipelineTaskResultRefs t.pipelineTask,
      r ref.pipelineTask = r' ref.pipelineTask) :
    f.parentReasonBy r t = f.parentReasonBy r' t := by
  have hall : f.parentsDoneBy r t.name = f.parentsDoneBy r' t.name := by
    unfold PipelineRunFacts.parentsDoneBy
    rw [Bool.eq_iff_iff, Bool.or_eq_true, Bool.or_eq_true, all_eq_true, all_eq_true]
    exact or_congr_right (forall₂_congr fun p hp => by rw [hprev p hp])
  have hany : f.parentSkippedBy r t.name = f.parentSkippedBy r' t.name := by
    unfold PipelineRunFacts.parentSkippedBy
    rw [Bool.eq_iff_iff, any_eq_true, any_eq_true]
    exact exists_congr fun p => and_congr_right fun hp => by rw [hprev p hp]
  unfold PipelineRunFacts.parentReasonBy
  rw [hall, hany, missesResultBy_congr hrefs]

theorem Steady.reasonBy_congr (h : Steady f) (ht : t ∈ f.state)
    (hprev : ∀ p ∈ f.tasksGraph.prev t.name, r p = r' p) : f.reasonBy r t = f.reasonBy r' t := by
  unfold PipelineRunFacts.reasonBy
  cases hfinal : f.isFinalTask t.name with
  | true => simp
  | false =>
    rw [parentReasonBy_congr hprev fun ref href => hprev _ (h.refersBack t ht hfinal ref href)]

theorem Steady.reasonFuel_stable (h : Steady f) {rank : String → Nat}
    (hrank : ∀ p n, p ∈ f.tasksGraph.prev n → rank p < rank n) {fuel fuel' : Nat}
    (hfuel : rank n < fuel) (hfuel' : rank n < fuel') :
    f.reasonFuel fuel n = f.reasonFuel fuel' n := by
  induction fuel generalizing fuel' n with
  | zero => omega
  | succ fuel ih =>
    cases fuel' with
    | zero => omega
    | succ fuel' =>
      unfold PipelineRunFacts.reasonFuel
      cases ht : f.state.task? n with
      | none => rfl
      | some t =>
        obtain ⟨hmem, rfl⟩ := PipelineRunState.mem_of_task? ht
        refine h.reasonBy_congr hmem fun p hp => ?_
        have hlt := hrank p t.name hp
        exact ih (by omega) (by omega)

theorem Steady.reason_eq (h : Steady f) (ht : t ∈ f.state) :
    f.reason t.name = f.reasonBy f.reason t := by
  obtain ⟨rank, hrank, hbound⟩ := f.tasksGraph.bounded_rank
  have htask : f.state.task? t.name = some t := PipelineRunState.task?_of_mem h.nodup ht
  unfold PipelineRunFacts.reason
  rw [PipelineRunFacts.reasonFuel, htask]
  refine h.reasonBy_congr ht fun p hp => ?_
  have hlt := hrank p t.name hp
  have hle := hbound t.name
  exact h.reasonFuel_stable hrank (by omega) (by omega)

end

variable {b : Bool}

section
variable {f : PipelineRunFacts} {V : String → SkippingReason → Prop} {ρ : String → SkippingReason}

section
variable {P : String → Bool → Prop} {q : String → Bool} {l : List String}
  (hP : ∀ p b, P p b → b = q p)
include hP

theorem allObserved_eq (h : AllObserved P l b) : b = l.all q := by
  cases b with
  | true =>
    symm
    rw [all_eq_true]
    exact fun p hp => (hP p true (h.1 rfl p hp)).symm
  | false =>
    obtain ⟨p, hp, hfalse⟩ := h.2 rfl
    symm
    rw [all_eq_false]
    exact ⟨p, hp, by simp [← hP p false hfalse]⟩

theorem anyObserved_eq (h : AnyObserved P l b) : b = l.any q := by
  cases b with
  | true =>
    obtain ⟨p, hp, htrue⟩ := h.1 rfl
    symm
    rw [any_eq_true]
    exact ⟨p, hp, (hP p true htrue).symm⟩
  | false =>
    symm
    rw [any_eq_false]
    exact fun p hp => by simp [← hP p false (h.2 rfl p hp)]

end

variable (hV : ∀ n r, V n r → r = ρ n)
include hV

theorem doneObserved_eq (h : DoneObserved f V n b) : b = ((ρ n).isSkipped || f.finished n) := by
  obtain ⟨r, hr, rfl⟩ := h
  rw [hV n r hr]

theorem skipObserved_eq (h : SkipObserved V n b) :
    b = ((ρ n).isSkipped && ρ n != .whenExpressions) := by
  obtain ⟨r, hr, rfl⟩ := h
  rw [hV n r hr]

theorem parentsObserved_eq (h : ParentsObserved f V n b) : b = f.parentsDoneBy ρ n := by
  unfold ParentsObserved at h
  unfold PipelineRunFacts.parentsDoneBy
  cases hfinal : f.isFinalTask n with
  | true => simpa [hfinal] using h
  | false =>
    rw [hfinal, if_neg (by simp)] at h
    rw [Bool.false_or]
    exact allObserved_eq (fun p b hp => doneObserved_eq hV hp) h

theorem checked_eq {test : Bool} (h : Checked f V n test b) :
    b = (f.parentsDoneBy ρ n && test) := by
  obtain ⟨parents, hparents, rfl⟩ := h
  rw [parentsObserved_eq hV hparents]

theorem missObserved_eq {e : RefError}
    (he : (convertToResultRefs f.state t.pipelineTask).2 = .error e) (h : MissObserved f V t e b) :
    b = f.missesResultBy ρ t := by
  unfold MissObserved at h
  unfold PipelineRunFacts.missesResultBy
  rw [he]
  dsimp only
  cases hsome : f.state.task? e.pipelineTask with
  | none => simpa [hsome] using h
  | some u =>
    rw [hsome, if_neg (by simp)] at h
    by_cases hfree : t.pipelineTask.onError = .continues ∨ f.isFinalTask t.name = true
    · rw [if_pos hfree] at h
      simp [hfree, h]
    · rw [if_neg hfree] at h
      obtain ⟨r, hr, rfl⟩ := h
      rw [hV _ r hr]
      simp [hfree]

theorem resultsObserved_eq {pt : PipelineTask} (h : ResultsObserved f V t b pt) :
    b = (f.parentsDoneBy ρ t.name && (t.hasResultReferences && f.missesResultBy ρ t)) := by
  cases h with
  | unread parents hparents hunread =>
    rw [parentsObserved_eq hV hparents] at hunread
    rw [← Bool.and_assoc, hunread, Bool.false_and]
  | resolved refs hparents hrefs hok =>
    have hmiss : f.missesResultBy ρ t = false := by
      rw [PipelineRunFacts.missesResultBy, hok]
    rw [hmiss, Bool.and_false, Bool.and_false]
  | missing e hparents hrefs herr hmiss =>
    rw [← parentsObserved_eq hV hparents, ← missObserved_eq hV herr hmiss, hrefs]
    rfl
  | unresolved e hparents hrefs herr hmiss =>
    rw [← missObserved_eq hV herr hmiss, Bool.and_false, Bool.and_false]

theorem parentOutcome_eq {r : SkippingReason}
    (hwritten : ∀ pt, ResultsObserved f V t false pt → pt = t.pipelineTask)
    (h : ParentOutcome f V t r) : r = f.parentReasonBy ρ t := by
  have hskip : ∀ b, AnyObserved (SkipObserved V) (f.tasksGraph.prev t.name) b →
      b = f.parentSkippedBy ρ t.name :=
    fun b hb => anyObserved_eq (fun p b hp => skipObserved_eq hV hp) hb
  unfold PipelineRunFacts.parentReasonBy
  dsimp only
  cases h with
  | whenExpressions hwhen =>
    rw [← checked_eq hV hwhen]
    rfl
  | parentTasks hwhen hparent =>
    rw [← checked_eq hV hwhen, ← hskip _ hparent]
    rfl
  | missingResults pt hwhen hparent hresults =>
    rw [← checked_eq hV hwhen, ← hskip _ hparent, ← resultsObserved_eq hV hresults]
    rfl
  | passed pt hwhen hparent hresults hlast =>
    rw [← checked_eq hV hwhen, ← hskip _ hparent, ← resultsObserved_eq hV hresults]
    obtain rfl := hwritten pt hresults
    cases hlast with
    | pipelineTimedOut hpipeline =>
      rw [← checked_eq hV hpipeline]
      rfl
    | tasksTimedOut hpipeline htasks =>
      rw [← checked_eq hV hpipeline, ← checked_eq hV htasks]
      rfl
    | matrix hpipeline htasks =>
      rw [← checked_eq hV hpipeline, ← checked_eq hV htasks]
      rfl

end

section
variable {f : PipelineRunFacts}

def ownForm (f : PipelineRunFacts) (n : String) (pt : PipelineTask) : Prop :=
  f.isFinalTask n = false → ∃ t ∈ f.state, t.name = n ∧ t.pipelineTask = pt

def ownReason (f : PipelineRunFacts) (n : String) (r : SkippingReason) : Prop := r = f.reason n

theorem Steady.forms (h : Steady f) : Forms f (ownForm f) := by
  refine ⟨fun t ht _ => ⟨t, ht, rfl, rfl⟩, fun n pt refs hstarted hA hrefs hfinal => ?_⟩
  obtain ⟨t, ht, rfl, rfl⟩ := hA hfinal
  have hopen : t.isScheduled = false := by
    simpa [PipelineRunFacts.isStarted, hfinal, PipelineRunState.task?_of_mem h.nodup ht]
      using hstarted
  exact ⟨t, ht, rfl, (h.written t ht hfinal hopen refs hrefs).symm⟩

theorem Steady.receiver (h : Steady f) (ht : Receiver f (ownForm f) t) :
    ∃ t₀ ∈ f.state, t₀.name = t.name ∧ Kept t₀ t ∧
      (f.isFinalTask t.name = false → t.pipelineTask = t₀.pipelineTask) := by
  obtain ⟨t₀, ht₀, hkept, hA⟩ := ht
  obtain ⟨hmem, hname₀⟩ := PipelineRunState.mem_of_task? ht₀
  refine ⟨t₀, hmem, hname₀, hkept, fun hfinal => ?_⟩
  obtain ⟨u, hu, hname, hpt⟩ := hA hfinal
  rw [← hpt, PipelineRunState.eq_of_name h.nodup hu hmem (hname.trans hname₀.symm)]

theorem reasonBy_kept {t₀ : ResolvedPipelineTask} (hkept : Kept t₀ t)
    (hpt : t.pipelineTask = t₀.pipelineTask) (r : String → SkippingReason) :
    f.reasonBy r t = f.reasonBy r t₀ := by
  have hvalid : f.isValidationFailed t = f.isValidationFailed t₀ := by
    unfold PipelineRunFacts.isValidationFailed
    rw [hkept.fields.2.1]
  have hrefs : t.hasResultReferences = t₀.hasResultReferences := by
    unfold ResolvedPipelineTask.hasResultReferences
    rw [hpt]
  have hempty : t.skipBecauseEmptyArrayInMatrixParams = t₀.skipBecauseEmptyArrayInMatrixParams := by
    unfold ResolvedPipelineTask.skipBecauseEmptyArrayInMatrixParams
    rw [hpt]
  have hmiss : f.missesResultBy r t = f.missesResultBy r t₀ := by
    unfold PipelineRunFacts.missesResultBy
    rw [hpt, hkept.name_eq]
  unfold PipelineRunFacts.reasonBy PipelineRunFacts.parentReasonBy
  rw [hkept.name_eq, hkept.isScheduled_eq, hvalid, hrefs, hempty, hmiss, hpt, hkept.fields.2.2.1]

theorem Steady.evaluation (h : Steady f) : Evaluation true f (ownForm f) (ownReason f) := by
  refine ⟨h.nodup, fun _ => h.toWellFormed, h.forms, ?_, ?_⟩
  · intro _ n pt hfinal hA ref href
    obtain ⟨t, ht, rfl, rfl⟩ := hA hfinal
    exact h.refersBack t ht hfinal ref href
  · intro t r ht hr
    obtain ⟨t₀, hmem, hname, hkept, hpt⟩ := h.receiver ht
    unfold ownReason
    cases hfinal : f.isFinalTask t.name with
    | true =>
      unfold SkipOutcome at hr
      rw [hfinal, Bool.true_or, Bool.true_or, if_pos rfl] at hr
      rw [hr, ← hname, h.reason_eq hmem, PipelineRunFacts.reasonBy, hname, hfinal]
      rfl
    | false => ?_
    have hpt := hpt hfinal
    have hwritten : t.isScheduled = false →
        ∀ pt, ResultsObserved f (ownReason f) t false pt → pt = t.pipelineTask := by
      intro hopen pt hpt'
      cases hpt' with
      | unread => rfl
      | unresolved => rfl
      | resolved refs hparents hrefs hok =>
        rw [hpt] at hok ⊢
        exact h.written t₀ hmem (hname ▸ hfinal) (hkept.isScheduled_eq ▸ hopen) refs hok
    have heq : r = f.reasonBy f.reason t := by
      unfold SkipOutcome at hr
      unfold PipelineRunFacts.reasonBy
      split_ifs at hr ⊢ with h₁ h₂ h₃ h₄
      · exact hr
      · exact hr
      · exact hr
      · exact hr
      · simp only [Bool.or_eq_true, not_or, Bool.not_eq_true] at h₁
        exact parentOutcome_eq (fun _ _ hr => hr) (hwritten h₁.1.2) hr
    rw [← hname, h.reason_eq hmem, heq, reasonBy_kept hkept hpt]

theorem Steady.evolved_refl (h : Steady f) : Evolved f (ownForm f) (ownReason f) f :=
  { Pipeline.evolved_refl f with
    state := .refl h.forms.start
    cache := h.cache }

theorem doneObserved_settled (h : DoneObserved f (ownReason f) n b) : b = f.done n :=
  doneObserved_eq (fun _ _ hr => hr) h

theorem Steady.completedOrSkippedDAGTasks (h : Steady f) :
    ∃ done g, completedOrSkippedDAGTasks f = some (done, g) ∧
      Evolved f (ownForm f) (ownReason f) g ∧
      ∀ n, n ∈ done ↔ n ∈ f.tasksGraph.nodes ∧ f.done n = true := by
  obtain ⟨done, g, hrun, hg, hsub, hdone, hopen⟩ :=
    (completedOrSkippedDAGTasks_runs h.evaluation).returns h.evolved_refl
  refine ⟨done, g, hrun, hg, fun n => ⟨fun hn => ?_, fun hn => ?_⟩⟩
  · have hdag := (mem_filter.mp (hsub.mem hn)).2
    exact ⟨by simpa [PipelineRunFacts.isDAGTask] using hdag,
      (doneObserved_settled (hdone n hn)).symm⟩
  · by_contra hnot
    have hfalse := doneObserved_settled (hopen n (h.dag n hn.1)
      (by simp [PipelineRunFacts.isDAGTask, hn.1]) hnot)
    rw [hn.2] at hfalse
    cases hfalse

end

end TektonPipeline.Pipeline
