import Mathlib.Algebra.Ring.Nat
import TektonPipeline.Library.Transition
import TektonPipeline.Pod.SidecarLogs

/-! The results sidecar: a goroutine for each result reads its file and sends what it finds over
a channel, from which `LookForResults` takes one result after the other and writes it. -/

namespace TektonPipeline.SidecarLogResults
open List

inductive File where
  | missing
  | unreadable
  | content (value : String)
  deriving DecidableEq

inductive Reading where
  | fails
  | absent
  | found (r : SidecarLogResult)
  deriving DecidableEq

def reading (found : String → Found) : File → Reading
  | .missing => .absent
  | .unreadable => .fails
  | .content value =>
    let newResult := readResults (found value)
    if newResult.name = "" then .absent else .found newResult

/-- `files` are the files of the task's results and those of the results of each step. -/
def readings (files : Option String → String → File) (resultNames : List String)
    (stepResults : List (String × List String)) : List Reading :=
  (resultNames.map fun f => reading (.task f) (files none f)) ++
    stepResults.flatMap fun e => e.2.map fun f => reading (.step e.1 f) (files (some e.1) f)

inductive Reader where
  | reading (o : Reading)
  | sending (r : SidecarLogResult)
  | done (err : Bool)
  deriving DecidableEq

/-- The goroutine that waits for the readers. It closes the channel before it ends, unless a
reader returned an error. -/
inductive Closer where
  | waiting
  | closed
  | ended (err : Bool)
  deriving DecidableEq

inductive LookErr where
  | writing (r : SidecarLogResult)
  | parsing
  deriving DecidableEq

inductive Looker where
  | receiving
  | encoding (r : SidecarLogResult)
  | waiting
  | returned (err : Option LookErr)
  deriving DecidableEq

structure State where
  readers : List Reader
  closer : Closer := .waiting
  looker : Looker := .receiving
  written : List SidecarLogResult := []
  deriving DecidableEq

def start (os : List Reading) : State := { readers := os.map .reading }

def Reading.next : Reading → Reader
  | .fails => .done true
  | .absent => .done false
  | .found r => .sending r

def Closer.hasClosed (c : Closer) : Prop := c = .closed ∨ c = .ended false

inductive Step (writes : SidecarLogResult → Bool) : State → State → Prop where
  | read (pre post o c l w) : Step writes ⟨pre ++ .reading o :: post, c, l, w⟩
      ⟨pre ++ o.next :: post, c, l, w⟩
  | receive (pre post r c w) : Step writes ⟨pre ++ .sending r :: post, c, .receiving, w⟩
      ⟨pre ++ .done false :: post, c, .encoding r, w⟩
  | encode {r} (rs c w) : writes r = true →
      Step writes ⟨rs, c, .encoding r, w⟩ ⟨rs, c, .receiving, w ++ [r]⟩
  | refuse {r} (rs c w) : writes r = false →
      Step writes ⟨rs, c, .encoding r, w⟩ ⟨rs, c, .returned (some (.writing r)), w⟩
  | fail {rs} (l w) : (∀ x ∈ rs, ∃ err, x = .done err) → .done true ∈ rs →
      Step writes ⟨rs, .waiting, l, w⟩ ⟨rs, .ended true, l, w⟩
  | close {rs} (l w) : (∀ x ∈ rs, x = .done false) →
      Step writes ⟨rs, .waiting, l, w⟩ ⟨rs, .closed, l, w⟩
  | quit (rs l w) : Step writes ⟨rs, .closed, l, w⟩ ⟨rs, .ended false, l, w⟩
  | drained {c} (rs w) : c.hasClosed → Step writes ⟨rs, c, .receiving, w⟩ ⟨rs, c, .waiting, w⟩
  | wait (rs err w) : Step writes ⟨rs, .ended err, .waiting, w⟩
      ⟨rs, .ended err, .returned (if err then some .parsing else none), w⟩

def existing (os : List Reading) : List SidecarLogResult :=
  os.filterMap fun
    | .found r => some r
    | _ => none

section
variable (writes : SidecarLogResult → Bool) (os : List Reading)

/-- A state in which an execution can end: no goroutine can go on. -/
def Final (s : State) : Prop :=
  Relation.ReflTransGen (Step writes) (start os) s ∧ ∀ s', ¬ Step writes s s'

/-- Every execution comes to an end, with `LookForResults` returned, and if no reader fails every
result that exists has been written once. -/
def NeverStuck : Prop :=
  Acc (fun s' s => Step writes s s') (start os) ∧
    (∀ s, Final writes os s → ∃ err, s.looker = .returned err) ∧
    (.fails ∉ os → ∀ s, Final writes os s → s.written.Perm (existing os))

end

def Reader.weight : Reader → Nat
  | .reading _ => 3
  | .sending _ => 2
  | .done _ => 0

def Closer.weight : Closer → Nat
  | .waiting => 2
  | .closed => 1
  | .ended _ => 0

def Looker.weight : Looker → Nat
  | .encoding _ => 3
  | .receiving => 2
  | .waiting => 1
  | .returned _ => 0

def State.weight (s : State) : Nat :=
  (s.readers.map Reader.weight).sum + s.closer.weight + s.looker.weight

section
variable {writes : SidecarLogResult → Bool} {os : List Reading} {s s' : State}

theorem Step.weight_lt (h : Step writes s s') : s'.weight < s.weight := by
  cases h with
  | read pre post o c l w =>
    have hreading : (Reader.reading o).weight = 3 := rfl
    have hnext : o.next.weight < 3 := by cases o <;> simp [Reading.next, Reader.weight]
    simp only [State.weight, map_append, map_cons, sum_append, sum_cons]
    omega
  | _ =>
    simp only [State.weight, map_append, map_cons, sum_append, sum_cons,
      Reader.weight, Closer.weight, Looker.weight]
    omega

theorem acc_step (s : State) : Acc (fun s' s => Step writes s s') s :=
  Subrelation.accessible (fun h => h.weight_lt) (InvImage.accessible _ (Nat.lt_wfRel.wf.apply _))

def Reader.left : Reader → List SidecarLogResult
  | .reading (.found r) => [r]
  | .sending r => [r]
  | _ => []

def Looker.held : Looker → List SidecarLogResult
  | .encoding r => [r]
  | .returned (some (.writing r)) => [r]
  | _ => []

def Reader.failing (x : Reader) : Prop := x = .reading .fails ∨ x = .done true

/-- No result gets lost, and no failure of a reader. -/
structure Inv (writes : SidecarLogResult → Bool) (os : List Reading) (s : State) : Prop where
  results : (s.written ++ (s.looker.held ++ s.readers.flatMap Reader.left)).Perm (existing os)
  writable : ∀ r ∈ s.written, writes r = true
  failing : (∃ x ∈ s.readers, x.failing) ↔ .fails ∈ os
  failed : s.closer = .ended true → .fails ∈ os
  closed : s.closer.hasClosed → ∀ x ∈ s.readers, x = .done false
  waiting : s.looker = .waiting → s.closer.hasClosed
  returned : ∀ err, s.looker = .returned err →
    (∃ r, s.looker.held = [r] ∧ writes r = false) ∨ s.looker.held = [] ∧ s.closer.hasClosed

theorem left_next (o : Reading) : o.next.left = (Reader.reading o).left := by
  cases o <;> rfl

theorem failing_next (o : Reading) : o.next.failing ↔ (Reader.reading o).failing := by
  cases o <;> simp [Reading.next, Reader.failing]

theorem inv_start : Inv writes os (start os) where
  results := by
    induction os with
    | nil => exact .refl _
    | cons o os ih => cases o <;> simpa [start, Looker.held, Reader.left, existing] using ih
  writable := by simp [start]
  failing := by simp [start, Reader.failing]
  failed := by simp [start]
  closed := by simp [start, Closer.hasClosed]
  waiting := by simp [start]
  returned := by simp [start]

theorem Inv.step (hi : Inv writes os s) (h : Step writes s s') : Inv writes os s' := by
  obtain ⟨hresults, hwritable, hfailing, hfailed, hclosed, hwaiting, hreturned⟩ := hi
  cases h with
  | read pre post o c l w =>
    refine ⟨?_, hwritable, ?_, hfailed, fun hc => ?_, hwaiting, hreturned⟩
    · simpa [left_next] using hresults
    · simpa [or_and_right, exists_or, failing_next] using hfailing
    · simpa using hclosed hc (.reading o) (by simp)
  | receive pre post r c w =>
    refine ⟨?_, hwritable, ?_, hfailed, fun hc => ?_, by simp, by simp⟩
    · refine List.Perm.trans ?_ hresults
      simpa [Looker.held, Reader.left] using perm_middle.symm.append_left w
    · simpa [or_and_right, exists_or, Reader.failing] using hfailing
    · simpa using hclosed hc (.sending r) (by simp)
  | encode rs c w hw =>
    refine ⟨?_, ?_, hfailing, hfailed, hclosed, by simp, by simp⟩
    · simpa [Looker.held] using hresults
    · simpa [or_imp, forall_and, hw] using hwritable
  | refuse rs c w hw =>
    exact ⟨hresults, hwritable, hfailing, hfailed, hclosed, by simp, fun _ _ => .inl ⟨_, rfl, hw⟩⟩
  | fail l w hall hfail =>
    refine ⟨hresults, hwritable, hfailing, fun _ => hfailing.mp ⟨_, hfail, .inr rfl⟩, ?_, ?_, ?_⟩
    all_goals simp_all [Closer.hasClosed]
  | close l w hall =>
    refine ⟨hresults, hwritable, hfailing, by simp, fun _ => hall, fun _ => .inl rfl, ?_⟩
    exact fun err herr => (hreturned err herr).imp_right fun h => ⟨h.1, .inl rfl⟩
  | quit rs l w =>
    have hopen : Closer.hasClosed .closed := .inl rfl
    refine ⟨hresults, hwritable, hfailing, by simp, fun _ => hclosed hopen, fun _ => .inr rfl, ?_⟩
    exact fun err herr => (hreturned err herr).imp_right fun h => ⟨h.1, .inr rfl⟩
  | drained rs w hc =>
    exact ⟨hresults, hwritable, hfailing, hfailed, hclosed, fun _ => hc, by simp⟩
  | wait rs err w =>
    have hheld : Looker.held (.returned (if err then some .parsing else none)) = [] := by
      cases err <;> rfl
    refine ⟨?_, hwritable, hfailing, hfailed, hclosed, by simp, fun _ _ => ?_⟩
    · rwa [hheld]
    · exact .inr ⟨hheld, hwaiting rfl⟩

theorem Final.inv (h : Final writes os s) : Inv writes os s := by
  obtain ⟨hrun, -⟩ := h
  induction hrun with
  | refl => exact inv_start
  | tail _ hstep ih => exact ih.step hstep

/-- Nothing but a reader that failed keeps `LookForResults` from returning: the channel is then
never closed. -/
theorem Final.cases (h : Final writes os s) : (∃ err, s.looker = .returned err) ∨
    s.looker = .receiving ∧ s.closer = .ended true ∧ s.readers.flatMap Reader.left = [] := by
  have hi := h.inv
  obtain ⟨-, hstop⟩ := h
  obtain ⟨rs, c, l, w⟩ := s
  have hread : ∀ o, .reading o ∉ rs := by
    intro o ho
    obtain ⟨pre, post, rfl⟩ := append_of_mem ho
    exact hstop _ (.read pre post o c l w)
  cases l with
  | returned err => exact .inl ⟨err, rfl⟩
  | encoding r =>
    cases hw : writes r with
    | true => exact absurd (.encode rs c w hw) (hstop _)
    | false => exact absurd (.refuse rs c w hw) (hstop _)
  | waiting =>
    obtain rfl | rfl := hi.waiting rfl
    · exact absurd (.quit rs _ w) (hstop _)
    · exact absurd (.wait rs false w) (hstop _)
  | receiving =>
    have hsend : ∀ r, .sending r ∉ rs := by
      intro r hr
      obtain ⟨pre, post, rfl⟩ := append_of_mem hr
      exact hstop _ (.receive pre post r c w)
    have hdone : ∀ x ∈ rs, ∃ err, x = .done err := by
      intro x hx
      cases x with
      | reading o => exact absurd hx (hread o)
      | sending r => exact absurd hx (hsend r)
      | done err => exact ⟨err, rfl⟩
    refine .inr ⟨rfl, ?_, ?_⟩
    · cases c with
      | closed => exact absurd (.drained rs w (.inl rfl)) (hstop _)
      | waiting =>
        by_cases hfail : .done true ∈ rs
        · exact absurd (.fail _ w hdone hfail) (hstop _)
        · refine absurd (.close _ w fun x hx => ?_) (hstop _)
          obtain ⟨err, rfl⟩ := hdone x hx
          cases err with
          | true => exact absurd hx hfail
          | false => rfl
      | ended err =>
        cases err with
        | true => rfl
        | false => exact absurd (.drained rs w (.inr rfl)) (hstop _)
    · refine flatMap_eq_nil_iff.mpr fun x hx => ?_
      obtain ⟨err, rfl⟩ := hdone x hx
      rfl

theorem exists_final (writes : SidecarLogResult → Bool) (os : List Reading) :
    ∃ s, Final writes os s := by
  refine Transition.exists_finished (fun _ _ => trivial) (fun s _ => ?_) trivial
    (acc_step (start os))
  by_cases h : ∃ s', Step writes s s'
  · exact .inr h
  · exact .inl fun s' hs' => h ⟨s', hs'⟩

theorem neverStuck_iff : NeverStuck writes os ↔
    (.fails ∈ os ↔ ∃ r ∈ existing os, writes r = false) := by
  have hrefused : ∀ {s}, Inv writes os s → ∀ {r}, s.looker.held = [r] → r ∈ existing os :=
    fun hi r hr => hi.results.mem_iff.mp (by simp [hr])
  have hclosed : ∀ {s}, Inv writes os s → s.closer.hasClosed →
      .fails ∉ os ∧ s.readers.flatMap Reader.left = [] := by
    intro s hi hc
    refine ⟨fun hfails => ?_, flatMap_eq_nil_iff.mpr fun x hx => ?_⟩
    · obtain ⟨x, hx, hfail⟩ := hi.failing.mpr hfails
      rw [hi.closed hc x hx] at hfail
      simp [Reader.failing] at hfail
    · rw [hi.closed hc x hx]
      rfl
  constructor
  · rintro ⟨-, hreturns, hwritten⟩
    obtain ⟨s, hs⟩ := exists_final writes os
    obtain ⟨err, herr⟩ := hreturns s hs
    by_cases hfails : .fails ∈ os
    · refine iff_of_true hfails ?_
      obtain ⟨r, hr, hw⟩ | ⟨-, hc⟩ := hs.inv.returned err herr
      · exact ⟨r, hrefused hs.inv hr, hw⟩
      · exact absurd hfails (hclosed hs.inv hc).1
    · refine iff_of_false hfails ?_
      rintro ⟨r, hr, hw⟩
      have htrue := hs.inv.writable r ((hwritten hfails s hs).mem_iff.mpr hr)
      simp [hw] at htrue
  · intro h
    refine ⟨acc_step _, fun s hs => ?_, fun hfails s hs => ?_⟩
    · refine hs.cases.resolve_right ?_
      rintro ⟨hlooker, hcloser, hleft⟩
      obtain ⟨r, hr, hw⟩ := h.mp (hs.inv.failed hcloser)
      have hmem := hs.inv.results.mem_iff.mpr hr
      have htrue := hs.inv.writable r (by simpa [hlooker, hleft, Looker.held] using hmem)
      simp [hw] at htrue
    · obtain ⟨err, herr⟩ := hs.cases.resolve_right fun hstuck => hfails (hs.inv.failed hstuck.2.1)
      obtain ⟨r, hr, hw⟩ | ⟨hheld, hc⟩ := hs.inv.returned err herr
      · exact absurd (h.mpr ⟨r, hrefused hs.inv hr, hw⟩) hfails
      · have hresults := hs.inv.results
        rwa [hheld, (hclosed hs.inv hc).2, append_nil, append_nil] at hresults

end

/-- `LookForResults` returns in every execution, with all results written, exactly if no file is
unreadable and all results can be written; where a file is unreadable it returns exactly if the
writer refuses a result. -/
theorem lookForResults_neverStuck_iff (writes : SidecarLogResult → Bool)
    (files : Option String → String → File) (resultNames : List String)
    (stepResults : List (String × List String)) :
    NeverStuck writes (readings files resultNames stepResults) ↔
      (.fails ∈ readings files resultNames stepResults ↔
        ∃ r ∈ existing (readings files resultNames stepResults), writes r = false) :=
  neverStuck_iff

theorem unreadable_digest_stuck :
    ¬ NeverStuck (fun _ => true) (readings (fun _ _ => .unreadable) ["digest"] []) := by
  rw [neverStuck_iff]
  simp [readings, reading]

end TektonPipeline.SidecarLogResults
