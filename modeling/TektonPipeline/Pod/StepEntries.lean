import TektonPipeline.Library.Transition
import TektonPipeline.Pod.Build
import TektonPipeline.Pod.StepMetadata

/-! The states of the steps over several reconciles. They are written when StepActions are fetched
and when the statuses of the containers are read, each time under a name that is derived anew. -/

namespace TektonPipeline.PodStatus
open Termination List
open Tasks (Step TaskResult TaskSpec)
open PodBuild (restrictLength)

/-- The first state with a name is updated, and a new one is added if there is none. -/
def putStep (name : String) (update : StepState → StepState) (new : StepState) :
    List StepState → List StepState
  | [] => [new]
  | st :: rest =>
    if st.name = name then update st :: rest else st :: putStep name update new rest

/-- The source goes to the state with the name that was authored; a new state has the name of
the container. -/
def recordSource (name : String) (i : Nat) (source : String) : List StepState → List StepState :=
  putStep name (fun st => { st with provenance := some source })
    { state := {}, name := trimStepPrefix (stepName name i), container := "", imageID := ""
      results := [], terminationReason := "", inputs := [], outputs := []
      provenance := some source }

/-- The source of the StepAction of a step, and the step that is made from it if the parameters
fit. -/
abbrev GetStepAction := Step → Except String (Option String × Except String Step)

def getStepActionsData (getStepAction : GetStepAction) : Nat → List Step →
    List StepState → List StepState × Except String (List Step)
  | _, [], sts => (sts, .ok [])
  | i, s :: steps, sts =>
    match if s.ref.isSome then getStepAction s else .ok (none, .ok s) with
    | .error e => (sts, .error e)
    | .ok (source, step) =>
      let sts := (source.map fun src => recordSource s.name i src sts).getD sts
      match step with
      | .error e => (sts, .error e)
      | .ok s =>
        let (sts, rest) := getStepActionsData getStepAction (i + 1) steps sts
        (sts, rest.map (s :: ·))

inductive Event where
  | fetch (steps : List Step) (getStepAction : GetStepAction)
  | read (d : Decoders) (sidecarLogsResultsEnabled : Bool) (logs : SidecarLogs) (now : Nat)
    (pod : Pod) (ts : Option TaskSpec)
  | retry (message : String)

def TaskRun.next (tr : TaskRun) : Event → Option TaskRun
  | .fetch steps getStepAction =>
    some { tr with status.steps := (getStepActionsData getStepAction 0 steps tr.status.steps).1 }
  | .read d enabled logs now pod ts =>
    (makeTaskRunStatus d enabled logs now tr pod ts).toOption.map fun r => { tr with status := r.1 }
  | .retry message =>
    some { tr with status := { tr.status with
      completionTime := none, podName := "", results := []
      succeeded := some ⟨.unknown, "ToBeRetried", message⟩ } }

/-- A state that was read belongs to the container, one that was not yet to the name under
which it was added. -/
def StepState.standsFor (name : String) (i : Nat) (st : StepState) : Bool :=
  if st.container = "" then st.name = trimStepPrefix (stepName name i)
  else st.container = restrictLength (stepName name i)

/-- A step that refers to a StepAction with a source has a name, which its container has in
full. -/
def Event.Matched (_ : TaskRun) : Event → Prop
  | .fetch steps getStepAction => ∀ i s source step, steps[i]? = some s → s.ref.isSome = true →
      getStepAction s = .ok (some source, step) →
        s.name ≠ "" ∧ restrictLength (stepName s.name i) = stepName s.name i
  | _ => True

def StepState.Fits (st : StepState) : Prop :=
  if st.container = "" then restrictLength ("step-" ++ st.name) = "step-" ++ st.name
  else st.name = trimStepPrefix st.container

structure Entered (l : List StepState) : Prop where
  names : (l.map (·.name)).Nodup
  fits : ∀ st ∈ l, st.Fits

theorem trimStepPrefix_append (w : String) : trimStepPrefix ("step-" ++ w) = w := by
  rw [trimStepPrefix, String.toList_append, Text.trimPrefix_append, String.ofList_toList]

theorem stepName_eq (name : String) (i : Nat) :
    stepName name i = "step-" ++ trimStepPrefix (stepName name i) := by
  unfold stepName getContainerName
  split <;> rw [trimStepPrefix_append]

theorem Entered.oneEach {l : List StepState} (h : Entered l) (name : String) (i : Nat) :
    (l.filter (·.standsFor name i)).length ≤ 1 := by
  have hname : ∀ st ∈ l.filter (·.standsFor name i),
      st.name = trimStepPrefix (restrictLength (stepName name i)) := by
    intro st hst
    obtain ⟨hmem, hstands⟩ := mem_filter.mp hst
    have hfits := h.fits st hmem
    unfold StepState.standsFor at hstands
    unfold StepState.Fits at hfits
    by_cases hc : st.container = ""
    · simp only [hc, if_true, decide_eq_true_eq] at hstands hfits
      rw [hstands, ← stepName_eq] at hfits
      rw [hfits, hstands]
    · simp only [hc, if_false, decide_eq_true_eq] at hstands hfits
      rw [hfits, hstands]
  have hnodup := (filter_sublist (p := (·.standsFor name i)) (l := l)).map StepState.name
    |>.nodup h.names
  generalize l.filter (·.standsFor name i) = found at hname hnodup
  rcases found with _ | ⟨a, _ | ⟨b, rest⟩⟩
  · simp
  · simp
  · rw [map_cons, map_cons, hname a (by simp), hname b (by simp)] at hnodup
    simp at hnodup

section
variable {name : String} {update : StepState → StepState} {new : StepState}

theorem names_putStep (hupdate : ∀ st, st.name = name → (update st).name = name)
    (hnew : new.name = name) (l : List StepState) : (putStep name update new l).map (·.name) =
      if name ∈ l.map (·.name) then l.map (·.name) else l.map (·.name) ++ [name] := by
  induction l with
  | nil => simp [putStep, hnew]
  | cons st l ih =>
    rw [putStep]
    by_cases hst : st.name = name
    · simp [hst, hupdate st hst]
    · rw [if_neg hst, map_cons, ih]
      simp only [map_cons, mem_cons, Ne.symm hst, false_or]
      split <;> rfl

theorem fits_putStep {l : List StepState}
    (hupdate : ∀ st, st.name = name → st.Fits → (update st).Fits)
    (hnew : new.Fits) (h : ∀ st ∈ l, st.Fits) : ∀ st ∈ putStep name update new l, st.Fits := by
  induction l with
  | nil => simpa [putStep] using hnew
  | cons st l ih =>
    rw [forall_mem_cons] at h
    rw [putStep]
    split
    · rename_i hst
      exact forall_mem_cons.mpr ⟨hupdate st hst h.1, h.2⟩
    · exact forall_mem_cons.mpr ⟨h.1, ih h.2⟩

theorem Entered.put {l : List StepState} (h : Entered l)
    (hupdate : ∀ st, st.name = name → (update st).name = name ∧ (st.Fits → (update st).Fits))
    (hnew : new.name = name ∧ new.Fits) : Entered (putStep name update new l) := by
  refine ⟨?_, fits_putStep (fun st hst => (hupdate st hst).2) hnew.2 h.fits⟩
  rw [names_putStep (fun st hst => (hupdate st hst).1) hnew.1]
  split
  · exact h.names
  · rename_i hmem
    exact nodup_append_comm.mp (nodup_cons.mpr ⟨hmem, h.names⟩)

end

theorem putStepState_eq (ss : StepState) (l : List StepState) :
    putStepState ss l =
      putStep ss.name (fun st => { ss with provenance := st.provenance }) ss l := by
  induction l with
  | nil => rfl
  | cons st l ih => rw [putStepState, putStep, ih]

theorem Entered.fetched {getStepAction : GetStepAction} {steps : List Step}
    {i : Nat} {sts : List StepState} (h : Entered sts)
    (hmatched : ∀ j s source step, steps[j]? = some s → s.ref.isSome = true →
      getStepAction s = .ok (some source, step) → s.name ≠ "" ∧
        restrictLength (stepName s.name (i + j)) = stepName s.name (i + j)) :
    Entered (getStepActionsData getStepAction i steps sts).1 := by
  induction steps generalizing i sts with
  | nil => exact h
  | cons s steps ih =>
    rw [getStepActionsData]
    cases hget : if s.ref.isSome then getStepAction s else .ok (none, .ok s) with
    | error e => exact h
    | ok r =>
      obtain ⟨source, step⟩ := r
      have hrecorded :
          Entered ((source.map fun src => recordSource s.name i src sts).getD sts) := by
        cases source with
        | none => exact h
        | some src =>
          have hok : s.ref.isSome = true ∧ getStepAction s = .ok (some src, step) := by
            split at hget
            · rename_i href
              exact ⟨href, hget⟩
            · cases hget
          obtain ⟨hne, hfull⟩ := hmatched 0 s src step rfl hok.1 hok.2
          have hname : stepName s.name (i + 0) = "step-" ++ s.name := by
            simp [stepName, hne, getContainerName]
          rw [hname] at hfull
          have hown : trimStepPrefix (stepName s.name i) = s.name :=
            (congrArg trimStepPrefix hname).trans (trimStepPrefix_append _)
          exact h.put (fun st hst => ⟨hst, id⟩) ⟨hown, by simpa [StepState.Fits, hown] using hfull⟩
      cases step with
      | error e => exact hrecorded
      | ok s' =>
        refine ih hrecorded fun j t src step ht href hok => ?_
        have hlater := hmatched (j + 1) t src step ht href hok
        rwa [Nat.add_comm j 1, ← Nat.add_assoc] at hlater

section
variable {d : Decoders} {specResults : List TaskResult} {ts : TaskSpec} {logs : List RunResult}

theorem Entered.set {stepStatuses : List ContainerStatus}
    (hnames : ∀ s ∈ stepStatuses, s.name ≠ "") {trs trs' : TaskRunStatus}
    {errors : List StatusError} (h : Entered trs.steps)
    (hset : setStepStatuses d specResults ts logs stepStatuses trs = .ok (trs', errors)) :
    Entered trs'.steps := by
  induction stepStatuses generalizing trs errors with
  | nil => rwa [← (Prod.mk.inj (Except.ok.inj hset)).1]
  | cons s rest ih =>
    rw [forall_mem_cons] at hnames
    obtain ⟨trs₁, _, _, hstep, hrest⟩ := setStepStatuses_cons hset
    obtain ⟨ss, hcontainer, hrecord, hput, -⟩ := setStepStatus_put hstep
    have hname : ss.name = trimStepPrefix s.name := congrArg ContainerRecord.name hrecord
    refine ih hnames.2 ?_ hrest
    rw [hput, putStepState_eq]
    have hfits : ss.Fits := by simp [StepState.Fits, hcontainer, hnames.1, hname]
    exact h.put (fun st _ => ⟨rfl, fun _ => hfits⟩) ⟨rfl, hfits⟩

end

theorem Entered.made {d : Decoders} {enabled : Bool} {logs : SidecarLogs} {now : Nat}
    {tr : TaskRun} {pod : Pod} {ts : Option TaskSpec} {made : TaskRunStatus × List StatusError}
    (h : Entered tr.status.steps)
    (hmake : makeTaskRunStatus d enabled logs now tr pod ts = .ok made) : Entered made.1.steps := by
  unfold makeTaskRunStatus at hmake
  dsimp only at hmake
  split at hmake
  · cases hmake
  · rename_i trs errors hset
    obtain ⟨_, _, _, trs₀, _, hsteps, -, hloop⟩ := exists_setStepStatuses hset
    obtain ⟨c, t, hcondition⟩ := updateCondition_eq d enabled now tr { pod with
      containerStatuses := sortPodContainerStatuses pod.containerStatuses pod.containers }
    obtain rfl := Except.ok.inj hmake
    change Entered trs.steps
    refine Entered.set (fun s hs hname => ?_) ?_ hloop
    · have hprefix := (mem_filter.mp hs).2
      rw [hname] at hprefix
      exact absurd hprefix (by decide)
    · rw [hsteps, hcondition]
      exact h

theorem Entered.next {tr tr' : TaskRun} {e : Event} (h : Entered tr.status.steps)
    (hmatched : e.Matched tr) (hnext : tr.next e = some tr') : Entered tr'.status.steps := by
  cases e with
  | fetch steps getStepAction =>
    obtain rfl := Option.some.inj hnext
    exact h.fetched fun j s source step hs href hok => by
      simpa using hmatched j s source step hs href hok
  | retry message =>
    obtain rfl := Option.some.inj hnext
    exact h
  | read d enabled logs now pod ts =>
    obtain ⟨r, hr, rfl⟩ := Option.map_eq_some_iff.mp hnext
    cases hmake : makeTaskRunStatus d enabled logs now tr pod ts with
    | error p => simp [hmake, Except.toOption] at hr
    | ok made =>
      obtain rfl : made = r := by simpa [hmake, Except.toOption] using hr
      exact h.made hmake

theorem steps_oneEach {tr tr' : TaskRun} (hstart : tr.status.steps = []) {events : List Event}
    (hmatched : Transition.Along TaskRun.next (fun tr e => e.Matched tr) tr events)
    (hrun : Transition.run TaskRun.next tr events = some tr') (name : String) (i : Nat) :
    (tr'.status.steps.filter (·.standsFor name i)).length ≤ 1 := by
  have hnil : Entered tr.status.steps := by
    rw [hstart]
    exact ⟨by simp, by simp⟩
  have hend : Entered tr'.status.steps :=
    Transition.run_induction_along (fun h hm hn => Entered.next h hm hn) hnil hmatched hrun
  exact hend.oneEach name i

def remoteStep (name : String) : Step := { name := name, ref := some "git-clone" }

def fetchRemote (name : String) : Event :=
  .fetch [remoteStep name] fun s => .ok (some "git", .ok { s with ref := none })

def clonePod : Pod where
  name := "pod"
  containers := ["step-clone"]
  phase := .running
  containerStatuses := [{ name := "step-clone" }]

def cloneEvents : List Event :=
  [fetchRemote "clone", .read plainDecoders false {} 0 clonePod (some { steps := [] }),
    fetchRemote "clone"]

theorem clone_oneEach :
    ∃ tr', Transition.run TaskRun.next { name := "run" } cloneEvents = some tr' ∧
      (tr'.status.steps.filter (·.standsFor "clone" 0)).length ≤ 1 := by
  have hmatched : ∀ tr, (fetchRemote "clone").Matched tr := by
    intro tr i s source step hs _ _
    cases i with
    | zero =>
      obtain rfl := Option.some.inj hs
      decide +kernel
    | succ i => simp at hs
  have hsome : (Transition.run TaskRun.next { name := "run" } cloneEvents).isSome = true := by
    decide +kernel
  obtain ⟨tr', hrun⟩ := Option.isSome_iff_exists.mp hsome
  refine ⟨tr', hrun, steps_oneEach rfl ?_ hrun "clone" 0⟩
  exact ⟨hmatched _, fun _ _ => ⟨trivial, fun _ _ => ⟨hmatched _, fun _ _ => trivial⟩⟩⟩

/-- A step without a name is looked for under the empty name, and added again. -/
theorem unnamed_step_twice :
    (Transition.run TaskRun.next { name := "run" } [fetchRemote "", fetchRemote ""]).map
      (fun tr => (tr.status.steps.map (·.name),
        (tr.status.steps.filter (·.standsFor "" 0)).length)) =
      some (["unnamed-0", "unnamed-0"], 2) := by
  decide +kernel

end TektonPipeline.PodStatus
