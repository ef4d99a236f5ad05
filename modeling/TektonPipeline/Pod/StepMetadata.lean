import TektonPipeline.Pod.Crash

/-! Where the start time, the exit code and the termination reason of a step come from. The
entrypoint writes them into the message that also holds the results of the step, and entries are
told apart by their keys. -/

namespace TektonPipeline.PodStatus
open Termination Tasks List

/-- The last entry of a message with this key. -/
def lastOf (k : String) (r : List RunResult) : Option RunResult :=
  r.reverse.find? fun rr => rr.key = k

def isInternal (rr : RunResult) : Bool := rr.resultType = internalTektonResultType

section
variable (d : Decoders) (t : ContainerStateTerminated) (r : List RunResult)

def toldStart : Nat :=
  ((lastOf "StartedAt" r).bind fun rr => (d.time rr.value).toOption).getD t.startedAt

def toldExit : Option Int := (lastOf "ExitCode" r).bind fun rr => (parseInt32 rr.value).toOption

def toldReason : String :=
  getTerminationReason t.reason (((lastOf "Reason" r).filter isInternal).elim "" (·.value))
    (toldExit r)

end

structure StepMetadata where
  startedAt : Option Nat
  exitCode : Option Int
  terminationReason : String
  deriving DecidableEq

def StepState.metadata (ss : StepState) : StepMetadata :=
  ⟨ss.state.terminated.map (·.startedAt), ss.state.terminated.map (·.exitCode),
    ss.terminationReason⟩

/-- What entries of a message say, where the container ended as `t` says. -/
def toldBy (d : Decoders) (t : ContainerStateTerminated) (r : List RunResult) : StepMetadata :=
  ⟨some (toldStart d t r), some ((toldExit r).getD t.exitCode), toldReason t r⟩

/-! ## Reading a message -/

section
variable {r : List RunResult} {k : String}

theorem find_sortedLatest : (sortedLatest r).find? (fun rr => rr.key = k) = lastOf k r := by
  have hlookup : lastOf k r = (latest r).lookup k := (lookup_latest r k).symm
  have hlast : ∀ e, lastOf k r = some e ↔ e.key = k ∧ IsLast r e := by
    intro e
    rw [hlookup]
    exact lookup_latest_eq_some
  cases hfind : (sortedLatest r).find? fun rr => rr.key = k with
  | some e =>
    have hkey := find?_some hfind
    have hmem := mem_sortedLatest.mp (mem_of_find?_eq_some hfind)
    exact ((hlast e).mpr ⟨of_decide_eq_true hkey, hmem⟩).symm
  | none =>
    cases hnone : lastOf k r with
    | none => rfl
    | some e =>
      obtain ⟨hkey, hmem⟩ := (hlast e).mp hnone
      exact absurd (decide_eq_true hkey) (find?_eq_none.mp hfind e (mem_sortedLatest.mpr hmem))

theorem lastOf_filter (hk : k ≠ "") : lastOf k (r.filter fun rr => rr != {}) = lastOf k r := by
  rw [lastOf, lastOf, ← filter_reverse, find?_filter]
  congr
  funext rr
  by_cases hkey : rr.key = k
  · have hne : rr ≠ {} := fun h => hk (hkey ▸ h ▸ rfl)
    simp [hkey, hne]
  · simp [hkey]

theorem find_and_of_pairwise {l : List RunResult} (p : RunResult → Bool)
    (hl : (l.map (·.key)).Pairwise (· < ·)) :
    l.find? (fun rr => p rr && rr.key = k) = (l.find? fun rr => rr.key = k).filter p := by
  induction l with
  | nil => rfl
  | cons rr rest ih =>
    rw [map_cons, pairwise_cons] at hl
    by_cases hkey : rr.key = k
    · have hrest : rest.find? (fun rr => p rr && rr.key = k) = none := by
        rw [find?_eq_none]
        intro e he hek
        have hlt := hl.1 e.key (mem_map_of_mem he)
        rw [hkey, of_decide_eq_true (Bool.and_eq_true_iff.mp hek).2] at hlt
        exact lt_irrefl k hlt
      cases hp : p rr with
      | true => simp [hkey, hp, Option.filter]
      | false => rw [find?_cons, find?_cons, hrest]; simp [hkey, hp, Option.filter]
    · simpa [find?_cons, hkey] using ih hl.2

end

variable {s : ContainerStatus} {errors : List StatusError}

section
variable {d : Decoders} {i : StepInputs} {sas : Artifacts} {trs trs' : TaskRunStatus}

structure Decoded (d : Decoders) (s : ContainerStatus) (t : ContainerStateTerminated)
    (r : List RunResult) : Prop where
  terminated : s.state.terminated = some t
  message : t.message ≠ []
  unmarshal : d.json.unmarshal t.message = .ok r

theorem Decoded.parseMessage {t : ContainerStateTerminated} {r : List RunResult}
    (h : Decoded d s t r) : Termination.parseMessage d.json t.message =
      .ok (sortedLatest (r.filter fun rr => rr != {})) := by
  rw [Termination.parseMessage, if_neg h.message, h.unmarshal]

theorem extract_sortedLatest (t : ContainerStateTerminated) (r : List RunResult) :
    let results := sortedLatest (r.filter fun rr => rr != {})
    let exit := (extractExitCodeFromResults results).toOption.bind id
    ((extractStartedAtTimeFromResults d results).toOption.bind id).getD t.startedAt =
        toldStart d t r ∧ exit = toldExit r ∧
      getTerminationReason t.reason (extractTerminationReasonFromResults results) exit =
        toldReason t r := by
  have hlast : ∀ k, k ≠ "" →
      (sortedLatest (r.filter fun rr => rr != {})).find? (fun rr => rr.key = k) = lastOf k r :=
    fun k hk => find_sortedLatest.trans (lastOf_filter hk)
  have hexit :
      (extractExitCodeFromResults (sortedLatest (r.filter fun rr => rr != {}))).toOption.bind
      id = toldExit r := by
    rw [extractExitCodeFromResults, hlast _ (by decide), toldExit]
    cases lastOf "ExitCode" r with
    | none => rfl
    | some rr => cases hd : parseInt32 rr.value <;> simp [hd, Except.toOption]
  refine ⟨?_, hexit, ?_⟩
  · rw [extractStartedAtTimeFromResults, hlast _ (by decide), toldStart]
    cases lastOf "StartedAt" r with
    | none => rfl
    | some rr => cases hd : d.time rr.value <;> simp [hd, Except.toOption]
  · have hreason := find_and_of_pairwise (k := "Reason") isInternal (sorted_sortedLatest
      (r.filter fun rr => rr != {}))
    rw [hlast _ (by decide)] at hreason
    rw [hexit, toldReason, extractTerminationReasonFromResults]
    unfold isInternal at hreason ⊢
    rw [hreason]
    cases Option.filter _ (lastOf "Reason" r) <;> rfl

theorem readTermination_metadata {t : ContainerStateTerminated} {r : List RunResult}
    {read : TerminationRead} (hread : Decoded d s t r)
    (h : readTermination d i sas trs t = .ok read) :
    (⟨some read.terminated.startedAt, some read.terminated.exitCode, read.terminationReason⟩ :
      StepMetadata) = toldBy d t r := by
  obtain ⟨hstart, hexit, hreason⟩ := extract_sortedLatest (d := d) t r
  rw [readTermination, if_neg hread.message, hread.parseMessage] at h
  dsimp only at h
  split at h
  · cases h
  · rw [← Except.ok.inj h, toldBy, ← hstart, ← hexit, ← hreason]

end

section
variable {d : Decoders} {specResults : List TaskResult} {ts : TaskSpec} {logs : List RunResult}

theorem setStepStatus_metadata {trs trs' : TaskRunStatus}
    (h : setStepStatus d specResults ts logs trs s = .ok (trs', errors)) :
    ∃ ss : StepState, ss.name = trimStepPrefix s.name ∧ trs'.steps = putStepState ss trs.steps ∧
      ∀ t r, Decoded d s t r → ss.metadata = toldBy d t r := by
  obtain ⟨ss, -, hrecord, hput, -, hread⟩ := setStepStatus_put h
  refine ⟨ss, congrArg ContainerRecord.name hrecord, hput, fun t r hdecoded => ?_⟩
  obtain ⟨_, _, _, read, hok, hterminated, hreason⟩ := hread t hdecoded.terminated
  rw [← readTermination_metadata hdecoded hok, StepState.metadata, hterminated, hreason]
  rfl

theorem find_putStepState {ss : StepState} {n : String} (l : List StepState) :
    (n = ss.name → ∃ ss', (putStepState ss l).find? (fun ss => ss.name = n) = some ss' ∧
      ss'.metadata = ss.metadata) ∧
    (n ≠ ss.name → (putStepState ss l).find? (fun ss => ss.name = n) =
      l.find? fun ss => ss.name = n) := by
  induction l with
  | nil => simp [putStepState, eq_comm]
  | cons first rest ih =>
    rw [putStepState]
    by_cases hname : first.name = ss.name
    · rw [if_pos hname]
      refine ⟨fun hn => ⟨{ ss with provenance := first.provenance }, by simp [hn], rfl⟩,
        fun hn => ?_⟩
      simp [hname, Ne.symm hn]
    · rw [if_neg hname]
      refine ⟨fun hn => ?_, fun hn => ?_⟩
      · obtain ⟨ss', hfind, hmeta⟩ := ih.1 hn
        exact ⟨ss', by rw [find?_cons_of_neg (by simpa [hn] using hname), hfind], hmeta⟩
      · rw [find?_cons, find?_cons, ih.2 hn]

theorem find_setStepStatuses_other {n : String} {rest : List ContainerStatus}
    (hn : ∀ s ∈ rest, trimStepPrefix s.name ≠ n) {trs trs' : TaskRunStatus}
    (h : setStepStatuses d specResults ts logs rest trs = .ok (trs', errors)) :
    trs'.steps.find? (fun ss => ss.name = n) = trs.steps.find? fun ss => ss.name = n := by
  induction rest generalizing trs errors with
  | nil => rw [(Prod.mk.inj (Except.ok.inj h)).1]
  | cons s rest ih =>
    obtain ⟨trs₁, _, _, hstep, hrest⟩ := setStepStatuses_cons h
    obtain ⟨ss, hname, hput, -⟩ := setStepStatus_metadata hstep
    rw [ih (fun s' hs' => hn s' (mem_cons_of_mem _ hs')) hrest, hput]
    exact (find_putStepState trs.steps).2 (hname ▸ (hn s mem_cons_self).symm)

theorem find_setStepStatuses {before after : List ContainerStatus}
    (hlast : ∀ s' ∈ after, trimStepPrefix s'.name ≠ trimStepPrefix s.name)
    {trs trs' : TaskRunStatus}
    (h : setStepStatuses d specResults ts logs (before ++ s :: after) trs = .ok (trs', errors)) :
    ∃ ss, trs'.steps.find? (fun ss => ss.name = trimStepPrefix s.name) = some ss ∧
      ∀ t r, Decoded d s t r → ss.metadata = toldBy d t r := by
  induction before generalizing trs errors with
  | nil =>
    obtain ⟨trs₁, _, _, hstep, hrest⟩ := setStepStatuses_cons h
    obtain ⟨ss, hname, hput, hmeta⟩ := setStepStatus_metadata hstep
    rw [find_setStepStatuses_other hlast hrest, hput]
    obtain ⟨ss', hfind, hmeta'⟩ := (find_putStepState trs.steps).1 hname.symm
    exact ⟨ss', hfind, fun t r hread => hmeta'.trans (hmeta t r hread)⟩
  | cons s' before ih =>
    obtain ⟨_, _, _, _, hrest⟩ := setStepStatuses_cons h
    exact ih hrest

end

/-! ## Results that stand in the way -/

/-- The last entry with the key is one that the step has emitted. -/
def Shadows (r : List RunResult) (k : String) (e : RunResult) : Prop :=
  lastOf k r = some e ∧ isInternal e = false

section
variable {r : List RunResult} {k : String}

theorem lastOf_internal (h : ∀ e, ¬ Shadows r k e) :
    lastOf k (r.filter isInternal) = lastOf k r := by
  cases hlast : lastOf k r with
  | none =>
    rw [lastOf, find?_eq_none] at hlast ⊢
    intro e he
    exact hlast e (mem_reverse.mpr (mem_filter.mp (mem_reverse.mp he)).1)
  | some e =>
    have hinternal : isInternal e = true := by
      simpa using fun hfalse => h e ⟨hlast, hfalse⟩
    rw [lastOf] at hlast ⊢
    obtain ⟨hkey, before, after, hr, hbefore⟩ := find?_eq_some_iff_append.mp hlast
    rw [← filter_reverse, hr, filter_append, filter_cons_of_pos hinternal, find?_append]
    have hnone : (before.filter isInternal).find? (fun rr => rr.key = k) = none := by
      rw [find?_eq_none]
      intro e' he'
      simpa using hbefore e' (mem_filter.mp he').1
    rw [hnone, Option.none_or]
    exact find?_cons_of_pos hkey

/-- What is read of the last entry is what is read of the last internal one, unless a result
stands in the way that says something else. -/
theorem lastOf_eq_iff {α : Type} (read : Option RunResult → α) :
    read (lastOf k r) = read (lastOf k (r.filter isInternal)) ↔
      ∀ e, Shadows r k e → read (some e) = read (lastOf k (r.filter isInternal)) := by
  by_cases hshadow : ∃ e, Shadows r k e
  · obtain ⟨e, he⟩ := hshadow
    rw [he.1]
    refine ⟨fun h e' he' => ?_, fun h => h e he⟩
    rwa [Option.some.inj (he'.1.symm.trans he.1)]
  · rw [not_exists] at hshadow
    rw [lastOf_internal hshadow]
    exact iff_of_true rfl fun e he => absurd he (hshadow e)

end

/-- The reason that the entrypoint has written. -/
def internalReason (r : List RunResult) : String :=
  (lastOf "Reason" (r.filter isInternal)).elim "" (·.value)

/-- Each result that has the key of an entry of the entrypoint and comes after all of these says
what they say, or makes no difference to the reason: one named `Reason` hides the written one,
and one named `ExitCode` makes up for a reason that is missing. -/
structure Unforged (d : Decoders) (t : ContainerStateTerminated) (r : List RunResult) : Prop where
  start : ∀ e, Shadows r "StartedAt" e →
    (d.time e.value).toOption.getD t.startedAt = toldStart d t (r.filter isInternal)
  exit : ∀ e, Shadows r "ExitCode" e → (parseInt32 e.value).toOption.getD t.exitCode =
    (toldExit (r.filter isInternal)).getD t.exitCode
  hidden : ∀ e, Shadows r "Reason" e → internalReason r ≠ "" →
    internalReason r = if (toldExit r).isSome then "Continued" else t.reason
  continued : ∀ e, Shadows r "ExitCode" e → internalReason r = "" →
    (parseInt32 e.value).toOption.isSome = (toldExit (r.filter isInternal)).isSome ∨
      t.reason = "Continued"

section
variable (d : Decoders) (t : ContainerStateTerminated) (r : List RunResult)

theorem toldStart_eq_iff : toldStart d t r = toldStart d t (r.filter isInternal) ↔
    ∀ e, Shadows r "StartedAt" e →
      (d.time e.value).toOption.getD t.startedAt = toldStart d t (r.filter isInternal) :=
  lastOf_eq_iff fun last => (last.bind fun rr => (d.time rr.value).toOption).getD t.startedAt

theorem toldExit_eq_iff :
    (toldExit r).getD t.exitCode = (toldExit (r.filter isInternal)).getD t.exitCode ↔
      ∀ e, Shadows r "ExitCode" e → (parseInt32 e.value).toOption.getD t.exitCode =
        (toldExit (r.filter isInternal)).getD t.exitCode :=
  lastOf_eq_iff fun last => (last.bind fun rr => (parseInt32 rr.value).toOption).getD t.exitCode

theorem filter_lastOf_internal (k : String) :
    (lastOf k (r.filter isInternal)).filter isInternal = lastOf k (r.filter isInternal) := by
  cases hlast : lastOf k (r.filter isInternal) with
  | none => rfl
  | some e =>
    have hmem := mem_of_find?_eq_some hlast
    rw [Option.filter_some, if_pos (mem_filter.mp (mem_reverse.mp hmem)).2]

theorem toldReason_internal : toldReason t (r.filter isInternal) =
    getTerminationReason t.reason (internalReason r) (toldExit (r.filter isInternal)) := by
  rw [toldReason, filter_lastOf_internal]
  rfl

theorem toldReason_shadowed {e : RunResult} (he : Shadows r "Reason" e) :
    toldReason t r = if (toldExit r).isSome then "Continued" else t.reason := by
  rw [toldReason, he.1, Option.filter_some, if_neg (by simp [he.2])]
  exact if_neg (by simp)

theorem toldReason_unshadowed (h : ∀ e, ¬ Shadows r "Reason" e) :
    toldReason t r = getTerminationReason t.reason (internalReason r) (toldExit r) := by
  rw [toldReason, ← lastOf_internal h, filter_lastOf_internal]
  rfl

/-- Where the entrypoint has written no reason it is made up from the exit code. -/
theorem toldReason_unwritten (h : internalReason r = "") :
    toldReason t r = if (toldExit r).isSome then "Continued" else t.reason := by
  by_cases hshadow : ∃ e, Shadows r "Reason" e
  · obtain ⟨e, he⟩ := hshadow
    exact toldReason_shadowed t r he
  · rw [toldReason_unshadowed t r (not_exists.mp hshadow), h]
    exact if_neg (by simp)

theorem exit_isSome_iff : ((toldExit r).isSome = (toldExit (r.filter isInternal)).isSome ∨
      t.reason = "Continued") ↔ ∀ e, Shadows r "ExitCode" e →
        (parseInt32 e.value).toOption.isSome = (toldExit (r.filter isInternal)).isSome ∨
          t.reason = "Continued" := by
  by_cases hreason : t.reason = "Continued"
  · simp [hreason]
  · simp only [hreason, or_false]
    exact lastOf_eq_iff fun last => (last.bind fun rr => (parseInt32 rr.value).toOption).isSome

theorem toldReason_eq_iff : toldReason t r = toldReason t (r.filter isInternal) ↔
    (∀ e, Shadows r "Reason" e → internalReason r ≠ "" →
      internalReason r = if (toldExit r).isSome then "Continued" else t.reason) ∧
    (∀ e, Shadows r "ExitCode" e → internalReason r = "" →
      (parseInt32 e.value).toOption.isSome = (toldExit (r.filter isInternal)).isSome ∨
        t.reason = "Continued") := by
  rw [toldReason_internal]
  by_cases hwritten : internalReason r = ""
  · have hinternal : getTerminationReason t.reason (internalReason r)
        (toldExit (r.filter isInternal)) =
          if (toldExit (r.filter isInternal)).isSome then "Continued" else t.reason :=
      if_neg (by simp [hwritten])
    rw [toldReason_unwritten t r hwritten, hinternal]
    simp only [hwritten, ne_eq, not_true_eq_false, false_implies, implies_true, true_and,
      forall_const, ← exit_isSome_iff]
    cases (toldExit r).isSome <;> cases (toldExit (r.filter isInternal)).isSome <;>
      simp [eq_comm]
  · have hinternal : getTerminationReason t.reason (internalReason r)
        (toldExit (r.filter isInternal)) = internalReason r := if_pos hwritten
    rw [hinternal]
    simp only [hwritten, ne_eq, not_false_eq_true, forall_const, false_implies, implies_true,
      and_true]
    by_cases hshadow : ∃ e, Shadows r "Reason" e
    · obtain ⟨e, he⟩ := hshadow
      rw [toldReason_shadowed t r he]
      exact ⟨fun h _ _ => h.symm, fun h => (h e he).symm⟩
    · rw [not_exists] at hshadow
      rw [toldReason_unshadowed t r hshadow]
      exact iff_of_true (if_pos hwritten) fun e he => absurd he (hshadow e)

theorem toldBy_eq_iff : toldBy d t r = toldBy d t (r.filter isInternal) ↔ Unforged d t r := by
  simp only [toldBy, StepMetadata.mk.injEq, Option.some.injEq, toldStart_eq_iff, toldExit_eq_iff,
    toldReason_eq_iff]
  exact ⟨fun h => ⟨h.1, h.2.1, h.2.2.1, h.2.2.2⟩, fun h => ⟨h.start, h.exit, h.hidden, h.continued⟩⟩

end

/-- The state of a step is what the entrypoint has written of it exactly if no result of the step
forges it. -/
theorem step_metadata_internal_iff (d : Decoders) (enabled : Bool) (logs : SidecarLogs)
    (before after : List ContainerStatus) (s : ContainerStatus) (tr : TaskRun)
    (ts : Option TaskSpec)
    {t : ContainerStateTerminated} {r : List RunResult} (hread : Decoded d s t r)
    (hlast : ∀ s' ∈ after, trimStepPrefix s'.name ≠ trimStepPrefix s.name)
    {trs : TaskRunStatus} {errors : List StatusError}
    (h : setTaskRunStatusBasedOnStepStatus d enabled logs (before ++ s :: after) tr ts =
      .ok (trs, errors)) :
    ∃ ss, trs.steps.find? (fun ss => ss.name = trimStepPrefix s.name) = some ss ∧
      (ss.metadata = toldBy d t (r.filter isInternal) ↔ Unforged d t r) := by
  obtain ⟨_, _, _, _, _, -, -, hloop⟩ := exists_setStepStatuses h
  obtain ⟨ss, hfind, hmeta⟩ := find_setStepStatuses hlast hloop
  refine ⟨ss, hfind, ?_⟩
  rw [hmeta t r hread]
  exact toldBy_eq_iff d t r

/-- The message of a step that has failed: what the entrypoint writes, and a result. -/
def messageWith (key : String) : List RunResult :=
  [⟨"StartedAt", "2024-03-01T12:30:45.123Z", "", internalTektonResultType⟩,
    ⟨key, "0", "", taskRunResultType⟩]

def failedWith (key : String) : ContainerStateTerminated :=
  { exitCode := 1, reason := "Error", message := encodingJson.marshal (messageWith key) }

def failedStep (key : String) : ContainerStatus :=
  { name := "step-test", state := { terminated := some (failedWith key) } }

def readFailed (key : String) : Except Panic (TaskRunStatus × List StatusError) :=
  setTaskRunStatusBasedOnStepStatus plainDecoders false {} [failedStep key] { name := "test" }
    (some { steps := [] })

theorem exists_of_toOption_map {α β ε : Type} {x : Except ε α} {f : α → β} {b : β}
    (h : x.toOption.map f = some b) : ∃ a, x = .ok a ∧ f a = b := by
  cases x with
  | error e => cases h
  | ok a => exact ⟨a, rfl, Option.some.inj h⟩

theorem digest_harmless :
    ∃ trs errors, readFailed "digest" = .ok (trs, errors) ∧
      ∃ ss, trs.steps.find? (fun ss => ss.name = "test") = some ss ∧
        ss.metadata = ⟨some 63876515445123, some 1, "Error"⟩ := by
  have hread : Decoded plainDecoders (failedStep "digest") (failedWith "digest")
      (messageWith "digest") := ⟨rfl, by decide +kernel, by decide +kernel⟩
  have hlast : ∀ k ∈ ["StartedAt", "ExitCode", "Reason"], ∀ e,
      ¬ Shadows (messageWith "digest") k e := by
    have hinternal : ∀ k ∈ ["StartedAt", "ExitCode", "Reason"],
        (lastOf k (messageWith "digest")).all isInternal = true := by decide +kernel
    intro k hk e he
    have hall := hinternal k hk
    rw [he.1, Option.all_some, he.2] at hall
    cases hall
  have hreturns : (readFailed "digest").toOption.map (fun _ => ()) = some () := by decide +kernel
  obtain ⟨⟨trs, errors⟩, hok, -⟩ := exists_of_toOption_map hreturns
  refine ⟨trs, errors, hok, ?_⟩
  obtain ⟨ss, hfind, hmeta⟩ := step_metadata_internal_iff plainDecoders false {} [] []
    (failedStep "digest") { name := "test" } (some { steps := [] }) hread (by simp) hok
  refine ⟨ss, hfind, (hmeta.mpr ⟨?_, ?_, ?_, ?_⟩).trans (by decide +kernel)⟩
  all_goals exact fun e he => absurd he (hlast _ (by simp) e)

/-- The container has ended with 1, and the state of the step says 0. -/
theorem exitCode_forged :
    ∃ trs errors, readFailed "ExitCode" = .ok (trs, errors) ∧
      trs.steps.map (·.metadata) = [⟨some 63876515445123, some 0, "Continued"⟩] ∧
      toldBy plainDecoders (failedWith "ExitCode") ((messageWith "ExitCode").filter isInternal) =
        ⟨some 63876515445123, some 1, "Error"⟩ := by
  have hstored : (readFailed "ExitCode").toOption.map (fun out => out.1.steps.map (·.metadata)) =
      some [⟨some 63876515445123, some 0, "Continued"⟩] := by decide +kernel
  obtain ⟨⟨trs, errors⟩, hok, hsteps⟩ := exists_of_toOption_map hstored
  exact ⟨trs, errors, hok, hsteps, by decide +kernel⟩

end TektonPipeline.PodStatus
