import TektonPipeline.Entrypoint.Steps

/-! The entrypoints of one pod under every interleaving of their file operations. A move is
one operation of one entrypoint, or a file written by something else. -/

namespace TektonPipeline.Entrypoint
open Api List

/-- Files by path, the latest content first. -/
abbrev Files := List (String × String)

def Files.has (files : Files) (file : String) : Prop := (files.lookup file).isSome

instance (files : Files) (file : String) : Decidable (files.has file) :=
  inferInstanceAs (Decidable (_ = true))

/-- Where an entrypoint stands in `Go`: `poll` is about to look for its first wait file and
`pollErr` for the `.err` sibling of it. -/
inductive Phase where
  | mkdirResults
  | mkdirArtifacts
  | poll (waitFiles : List String)
  | pollErr (waitFiles : List String)
  | perform (actions : List Action)
  | ended
  deriving DecidableEq

/-- `aborted` records that making a metadata directory or writing the post file failed. -/
structure Proc where
  entrypointer : Entrypointer
  phase : Phase := .mkdirResults
  started : Bool := false
  aborted : Bool := false
  deriving DecidableEq

def Proc.abort (p : Proc) : Proc := { p with phase := .ended, aborted := true }

def Proc.goto (p : Proc) (phase : Phase) : Proc := { p with phase := phase }

/-- One file operation, which succeeds or not, or one internal step, under the outcomes `o`
of what is outside the entrypoint. -/
def Proc.next (files : Files) (p : Proc) (ok : Bool) (o : Outcomes) : Option (Proc × Files) :=
  match p.phase with
  | .mkdirResults => some (if ok then p.goto .mkdirArtifacts else p.abort, files)
  | .mkdirArtifacts => some (if ok then p.goto (.poll p.entrypointer.waitFiles) else p.abort, files)
  | .poll [] => some (p.goto (.perform (p.entrypointer.goStep o).actions), files)
  | .poll (f :: fs) =>
    if f = "" then some (p.goto (.poll fs), files)
    else if ok = false then
      some (p.goto (.perform (p.entrypointer.goSkip o (.other ("waiting for " ++ f))).actions),
        files)
    else match files.lookup f with
      | none => some (p.goto (.pollErr (f :: fs)), files)
      | some content =>
        if p.entrypointer.waitFileContent = true ∧ content = "" then
          some (p.goto (.pollErr (f :: fs)), files)
        else some (p.goto (.poll fs), files)
  | .pollErr [] => none
  | .pollErr (f :: fs) =>
    -- A failed look at the `.err` file is not told from a missing one.
    if ok = true ∧ files.has (f ++ ".err") then
      if p.entrypointer.breakpointOnFailure then some (p.goto (.poll fs), files)
      else
        some (p.goto (.perform (p.entrypointer.goSkip o .skipPreviousStepFailed).actions), files)
    else some (p.goto (.poll (f :: fs)), files)
  | .perform [] => some (p.goto .ended, files)
  | .perform (.start _ :: actions) =>
    some ({ p with phase := .perform actions, started := true }, files)
  | .perform (.writePost file :: actions) =>
    some (if ok then (p.goto (.perform actions), (file, "") :: files) else (p.abort, files))
  | .perform (.writeExitCode content :: actions) =>
    some (p.goto (.perform actions),
      (p.entrypointer.stepMetadataDir ++ "/exitCode", content) :: files)
  | .ended => none

structure Pod where
  procs : List Proc
  files : Files
  deriving DecidableEq

inductive Move where
  | entrypoint (i : Nat) (ok : Bool) (o : Outcomes)
  | external (file content : String)

def outFile (i : Nat) : String := runFile i "out"

def errFile (i : Nat) : String := runFile i "out" ++ ".err"

def Pod.mayWrite (pod : Pod) (file : String) : Bool :=
  (List.range pod.procs.length).all fun i => file != outFile i && file != errFile i

def Pod.step (pod : Pod) : Move → Option Pod
  | .entrypoint i ok o =>
    match pod.procs[i]? with
    | none => none
    | some p =>
      match p.next pod.files ok o with
      | none => none
      | some (p', files) => some ⟨pod.procs.set i p', files⟩
  | .external file content =>
    if pod.mayWrite file then some { pod with files := (file, content) :: pod.files } else none

def Pod.init (entrypointers : List Entrypointer) : Pod :=
  ⟨entrypointers.map fun e => { entrypointer := e }, []⟩

theorem append_ne_append {s s' t t' : String} (ht : t.toList ≠ []) (ht' : t'.toList ≠ [])
    (h : t.toList.getLast? ≠ t'.toList.getLast?) : s ++ t ≠ s' ++ t' := by
  intro heq
  have hlast := congrArg (fun r => r.toList.getLast?) heq
  simp only [String.toList_append, getLast?_append_of_ne_nil _ ht,
    getLast?_append_of_ne_nil _ ht'] at hlast
  exact h hlast

variable {i j : Nat}

theorem outFile_inj (h : outFile i = outFile j) : i = j := by
  have hl := congrArg String.toList h
  have hd : Nat.toDigits 10 i = Nat.toDigits 10 j := by
    simpa [outFile, runFile] using hl
  exact Text.toDigits_inj hd

theorem errFile_inj (h : errFile i = errFile j) : i = j := by
  have hl := congrArg String.toList h
  simp only [errFile, String.toList_append, append_cancel_right_eq] at hl
  exact outFile_inj (String.toList_inj.mp hl)

theorem outFile_ne_errFile (i j : Nat) : outFile i ≠ errFile j := by
  unfold outFile errFile runFile
  exact append_ne_append (by decide) (by decide) (by decide)

theorem exitCode_ne_outFile (dir : String) (i : Nat) : dir ++ "/exitCode" ≠ outFile i := by
  unfold outFile runFile
  exact append_ne_append (by decide) (by decide) (by decide)

theorem exitCode_ne_errFile (dir : String) (i : Nat) : dir ++ "/exitCode" ≠ errFile i :=
  append_ne_append (by decide) (by decide) (by decide)

@[simp] theorem Files.has_cons (files : Files) (file content f : String) :
    Files.has ((file, content) :: files) f ↔ f = file ∨ files.has f := by
  unfold Files.has
  by_cases h : f = file
  · simp [h]
  · have hb : (f == file) = false := by simpa using h
    simp [h, lookup_cons, hb]

/-- The step before has written its post file, or there is none. -/
def PrevDone (files : Files) (i : Nat) : Prop := i ≠ 0 → files.has (outFile (i - 1))

structure Fresh (files : Files) (i : Nat) (p : Proc) : Prop where
  started : p.started = false
  aborted : p.aborted = false
  out : ¬ files.has (outFile i)
  err : ¬ files.has (errFile i)

/-- A step on its way to end without having started its command. -/
structure Skipping (files : Files) (i : Nat) (p : Proc) (actions : List Action) : Prop where
  started : p.started = false
  out : ¬ files.has (outFile i)
  err : (¬ files.has (errFile i) ∧ actions = [.writePost (errFile i)]) ∨
    (files.has (errFile i) ∧ actions = [])

structure Running (files : Files) (i : Nat) (actions : List Action) : Prop where
  prev : PrevDone files i
  posts : (¬ files.has (outFile i) ∧ ¬ files.has (errFile i) ∧ (postWrites actions).length ≤ 1 ∧
      ∀ f ∈ postWrites actions, f = outFile i ∨ f = errFile i) ∨
    (¬ (files.has (outFile i) ∧ files.has (errFile i)) ∧ postWrites actions = [])

def Performing (files : Files) (i : Nat) (p : Proc) (actions : List Action) : Prop :=
  p.aborted = false ∧ (Skipping files i p actions ∨ Running files i actions)

structure Aborted (files : Files) (i : Nat) (p : Proc) : Prop where
  aborted : p.aborted = true
  out : ¬ files.has (outFile i)
  err : ¬ files.has (errFile i)
  prev : p.started = true → PrevDone files i

def PhaseInv (files : Files) (i : Nat) (p : Proc) : Prop :=
  match p.phase with
  | .mkdirResults => Fresh files i p
  | .mkdirArtifacts => Fresh files i p
  | .poll waitFiles =>
    Fresh files i p ∧ (waitFiles = p.entrypointer.waitFiles ∨ PrevDone files i)
  | .pollErr waitFiles =>
    Fresh files i p ∧ (waitFiles = p.entrypointer.waitFiles ∨ PrevDone files i)
  | .perform actions => Performing files i p actions
  | .ended => Performing files i p [] ∨ Aborted files i p

variable {files files' : Files} {p : Proc}

theorem PhaseInv.frame (h : PhaseInv files i p)
    (hout : files'.has (outFile i) ↔ files.has (outFile i))
    (herr : files'.has (errFile i) ↔ files.has (errFile i))
    (hprev : PrevDone files i → PrevDone files' i) : PhaseInv files' i p := by
  have hfresh : Fresh files i p → Fresh files' i p := fun f =>
    ⟨f.started, f.aborted, mt hout.mp f.out, mt herr.mp f.err⟩
  have hperform : ∀ actions, Performing files i p actions → Performing files' i p actions := by
    rintro actions ⟨ha, hs | hr⟩
    · exact ⟨ha, .inl ⟨hs.started, mt hout.mp hs.out, by simpa [herr] using hs.err⟩⟩
    · exact ⟨ha, .inr ⟨hprev hr.prev, by simpa [hout, herr] using hr.posts⟩⟩
  unfold PhaseInv at h ⊢
  cases hp : p.phase with
  | mkdirResults => simpa only [hp] using hfresh (by simpa only [hp] using h)
  | mkdirArtifacts => simpa only [hp] using hfresh (by simpa only [hp] using h)
  | poll waitFiles =>
    simp only [hp] at h ⊢
    exact ⟨hfresh h.1, h.2.imp id hprev⟩
  | pollErr waitFiles =>
    simp only [hp] at h ⊢
    exact ⟨hfresh h.1, h.2.imp id hprev⟩
  | perform actions =>
    simp only [hp] at h ⊢
    exact hperform actions h
  | ended =>
    simp only [hp] at h ⊢
    rcases h with h | h
    · exact .inl (hperform _ h)
    · exact .inr ⟨h.aborted, mt hout.mp h.out, mt herr.mp h.err, fun hs => hprev (h.prev hs)⟩

variable {e : Entrypointer}

theorem Entrypointer.goStep_postWrites_le (o : Outcomes) (hb : e.breakpointOnFailure = false) :
    (postWrites (e.goStep o).actions).length ≤ 1 ∧
      ∀ f ∈ postWrites (e.goStep o).actions, f = e.postFile ∨ f = e.postFile ++ ".err" := by
  have hwrite : ∀ err, (postWrites (e.writePostFile err)).length ≤ 1 ∧
      ∀ f ∈ postWrites (e.writePostFile err), f = e.postFile ∨ f = e.postFile ++ ".err" := by
    intro err
    by_cases hp : e.postFile = ""
    · simp [Entrypointer.writePostFile, hp]
    · rw [postWrites_writePostFile e err hp]
      cases err <;> simp
  by_cases hok : e.errBeforeStart o = none → ¬ e.Overruns o
  · obtain ⟨signalled, h⟩ := Entrypointer.goStep_postWrites hb hok
    rw [h]
    exact hwrite signalled
  · obtain ⟨hs, hover⟩ : e.errBeforeStart o = none ∧ e.Overruns o := by simpa using hok
    simp [Entrypointer.goStep_of_overruns hs hover]

theorem outFile_ne_empty (i : Nat) : outFile i ≠ "" := by
  intro h
  have := congrArg String.length h
  simp [outFile, runFile, String.length_append] at this

theorem OrderedAt.goSkip_actions (h : OrderedAt i e) (hb : e.breakpointOnFailure = false)
    (o : Outcomes) (err : Err) : (e.goSkip o err).actions = [.writePost (errFile i)] := by
  have hp : runFile i "out" ≠ "" := outFile_ne_empty i
  simp [Entrypointer.goSkip, hb, Entrypointer.writePostFile, h.postFile, errFile, hp]

/-- The files an operation of step `i` leaves: everything there was, and at most a file that
is no post file of another step. -/
structure OwnWrite (i : Nat) (files files' : Files) : Prop where
  grows : ∀ {f}, files.has f → files'.has f
  out : ∀ {k}, k ≠ i → files'.has (outFile k) → files.has (outFile k)
  err : ∀ {k}, k ≠ i → files'.has (errFile k) → files.has (errFile k)

theorem OwnWrite.refl (i : Nat) (files : Files) : OwnWrite i files files :=
  ⟨id, fun _ h => h, fun _ h => h⟩

variable {file : String}

theorem OwnWrite.cons {content : String} (hout : ∀ k, k ≠ i → outFile k ≠ file)
    (herr : ∀ k, k ≠ i → errFile k ≠ file) : OwnWrite i files ((file, content) :: files) where
  grows h := by simp [h]
  out hk h := by simpa [hout _ hk] using h
  err hk h := by simpa [herr _ hk] using h

variable {fs : List String}

@[simp] theorem phaseInv_goto_poll : PhaseInv files i (p.goto (.poll fs)) ↔
      Fresh files i p ∧ (fs = p.entrypointer.waitFiles ∨ PrevDone files i) :=
  ⟨fun h => ⟨⟨h.1.started, h.1.aborted, h.1.out, h.1.err⟩, h.2⟩,
    fun h => ⟨⟨h.1.started, h.1.aborted, h.1.out, h.1.err⟩, h.2⟩⟩

@[simp] theorem phaseInv_goto_pollErr : PhaseInv files i (p.goto (.pollErr fs)) ↔
      Fresh files i p ∧ (fs = p.entrypointer.waitFiles ∨ PrevDone files i) :=
  ⟨fun h => ⟨⟨h.1.started, h.1.aborted, h.1.out, h.1.err⟩, h.2⟩,
    fun h => ⟨⟨h.1.started, h.1.aborted, h.1.out, h.1.err⟩, h.2⟩⟩

variable {actions : List Action}

theorem phaseInv_goto_perform (h : Performing files i p actions) :
    PhaseInv files i (p.goto (.perform actions)) :=
  ⟨h.1, h.2.imp (fun hs => ⟨hs.started, hs.out, hs.err⟩) id⟩

theorem Fresh.abort (h : Fresh files i p) : PhaseInv files i p.abort :=
  .inr ⟨rfl, h.out, h.err, fun hs => by simp [Proc.abort, h.started] at hs⟩

theorem waitFile_eq {f : String} (hord : OrderedAt i e) (hi : i ≠ 0)
    (hwait : f :: fs = e.waitFiles ∨ PrevDone files i) :
    f = outFile (i - 1) ∨ PrevDone files i := by
  rcases hwait with hw | hw
  · rw [hord.waitFiles hi] at hw
    exact .inl (List.cons.inj hw).1
  · exact .inr hw

variable {ok : Bool} {o : Outcomes} {p' : Proc}

section
variable (hord : OrderedAt i p.entrypointer)
  (hb : p.entrypointer.breakpointOnFailure = false)
include hord hb

theorem Fresh.skip (h : Fresh files i p) (o : Outcomes) (err : Err) :
    PhaseInv files i (p.goto (.perform (p.entrypointer.goSkip o err).actions)) :=
  phaseInv_goto_perform ⟨h.aborted, .inl ⟨h.started, h.out,
    .inl ⟨h.err, hord.goSkip_actions hb o err⟩⟩⟩

theorem Fresh.go (h : Fresh files i p) (hprev : PrevDone files i) (o : Outcomes) :
    PhaseInv files i (p.goto (.perform (p.entrypointer.goStep o).actions)) := by
  obtain ⟨hlen, hmem⟩ := Entrypointer.goStep_postWrites_le o hb
  rw [hord.postFile] at hmem
  exact phaseInv_goto_perform ⟨h.aborted, .inr ⟨hprev, .inl ⟨h.out, h.err, hlen, hmem⟩⟩⟩

theorem phaseInv_next_poll (hp : p.phase = .poll fs) (hinv : PhaseInv files i p)
    (h : p.next files ok o = some (p', files')) :
    PhaseInv files' i p' ∧ files' = files ∧ p'.entrypointer = p.entrypointer := by
  simp only [PhaseInv, hp] at hinv
  obtain ⟨hfresh, hwait⟩ := hinv
  cases fs with
  | nil =>
    simp only [Proc.next, hp, Option.some.injEq, Prod.mk.injEq] at h
    obtain ⟨rfl, rfl⟩ := h
    refine ⟨hfresh.go hord hb ?_ o, rfl, rfl⟩
    intro hi
    rcases hwait with hw | hw
    · simp [hord.waitFiles hi] at hw
    · exact hw hi
  | cons f fs =>
    simp only [Proc.next, hp] at h
    split at h
    · rename_i hempty
      cases h
      refine ⟨phaseInv_goto_poll.mpr ⟨hfresh, .inr fun hi => ?_⟩, rfl, rfl⟩
      rcases waitFile_eq hord hi hwait with hf | hf
      · exact absurd (hf.symm.trans hempty) (outFile_ne_empty _)
      · exact hf hi
    split at h
    · cases h
      exact ⟨hfresh.skip hord hb o _, rfl, rfl⟩
    split at h
    · cases h
      exact ⟨phaseInv_goto_pollErr.mpr ⟨hfresh, hwait⟩, rfl, rfl⟩
    rename_i content hcontent
    split at h
    · cases h
      exact ⟨phaseInv_goto_pollErr.mpr ⟨hfresh, hwait⟩, rfl, rfl⟩
    cases h
    refine ⟨phaseInv_goto_poll.mpr ⟨hfresh, .inr fun hi => ?_⟩, rfl, rfl⟩
    rcases waitFile_eq hord hi hwait with hf | hf
    · rw [← hf]
      simp [Files.has, hcontent]
    · exact hf hi

theorem phaseInv_next_pollErr (hp : p.phase = .pollErr fs) (hinv : PhaseInv files i p)
    (h : p.next files ok o = some (p', files')) :
    PhaseInv files' i p' ∧ files' = files ∧ p'.entrypointer = p.entrypointer := by
  simp only [PhaseInv, hp] at hinv
  obtain ⟨hfresh, hwait⟩ := hinv
  cases fs with
  | nil => simp [Proc.next, hp] at h
  | cons f fs =>
    simp only [Proc.next, hp, hb] at h
    split at h
    · cases h
      exact ⟨hfresh.skip hord hb o _, rfl, rfl⟩
    · cases h
      exact ⟨phaseInv_goto_poll.mpr ⟨hfresh, hwait⟩, rfl, rfl⟩

end

theorem OwnWrite.post (h : file = outFile i ∨ file = errFile i) :
    OwnWrite i files ((file, "") :: files) := by
  rcases h with rfl | rfl
  · exact .cons (fun k hk h => hk (outFile_inj h)) (fun k _ h => outFile_ne_errFile _ _ h.symm)
  · exact .cons (fun k _ h => outFile_ne_errFile _ _ h) (fun k hk h => hk (errFile_inj h))

theorem OwnWrite.exitCode (i : Nat) (files : Files) (dir content : String) :
    OwnWrite i files ((dir ++ "/exitCode", content) :: files) :=
  .cons (fun k _ h => exitCode_ne_outFile dir k h.symm)
    (fun k _ h => exitCode_ne_errFile dir k h.symm)

theorem OwnWrite.prevDone {k : Nat} (h : OwnWrite i files files') (hk : PrevDone files k) :
    PrevDone files' k :=
  fun h0 => h.grows (hk h0)

theorem Performing.post (h : Performing files i p (.writePost file :: actions)) :
    (file = outFile i ∨ file = errFile i) ∧ ¬ files.has (outFile i) ∧
      ¬ files.has (errFile i) ∧ postWrites actions = [] := by
  obtain ⟨-, hs | hr⟩ := h
  · rcases hs.err with ⟨herr, heq⟩ | ⟨-, heq⟩
    · cases heq
      exact ⟨.inr rfl, hs.out, herr, rfl⟩
    · cases heq
  · rcases hr.posts with ⟨hout, herr, hlen, hmem⟩ | ⟨-, heq⟩
    · have hw : postWrites (.writePost file :: actions) = file :: postWrites actions := rfl
      rw [hw] at hlen hmem
      have hnil : postWrites actions = [] :=
        eq_nil_of_length_eq_zero (by simpa using hlen)
      exact ⟨hmem file (by simp), hout, herr, hnil⟩
    · cases heq

theorem phaseInv_next_post (hp : p.phase = .perform (.writePost file :: actions))
    (hinv : Performing files i p (.writePost file :: actions))
    (h : p.next files ok o = some (p', files')) :
    PhaseInv files' i p' ∧ OwnWrite i files files' ∧ p'.entrypointer = p.entrypointer := by
  obtain ⟨hfile, hout, herr, hnil⟩ := hinv.post
  cases ok with
  | false =>
    simp only [Proc.next, hp, Option.some.injEq, Bool.false_eq_true, if_false, Prod.mk.injEq] at h
    obtain ⟨rfl, rfl⟩ := h
    refine ⟨.inr ⟨rfl, hout, herr, fun hs => ?_⟩, .refl i _, rfl⟩
    obtain ⟨-, hskip | hrun⟩ := hinv
    · simp [Proc.abort, hskip.started] at hs
    · exact hrun.prev
  | true =>
    simp only [Proc.next, hp, Option.some.injEq, if_true, Prod.mk.injEq] at h
    obtain ⟨rfl, rfl⟩ := h
    have hown : OwnWrite i files ((file, "") :: files) := .post hfile
    refine ⟨phaseInv_goto_perform ⟨hinv.1, ?_⟩, hown, rfl⟩
    have hne := outFile_ne_errFile i i
    rcases hinv.2 with hskip | hrun
    · rcases hskip.err with ⟨-, heq⟩ | ⟨-, heq⟩
      · cases heq
        exact .inl ⟨hskip.started, by simpa [hne] using hout, .inr ⟨by simp, rfl⟩⟩
      · cases heq
    · refine .inr ⟨hown.prevDone hrun.prev, .inr ⟨?_, hnil⟩⟩
      rcases hfile with rfl | rfl
      · simp [hne.symm, herr]
      · simp [hne, hout]

theorem phaseInv_next_perform (hp : p.phase = .perform actions) (hinv : PhaseInv files i p)
    (h : p.next files ok o = some (p', files')) :
    PhaseInv files' i p' ∧ OwnWrite i files files' ∧ p'.entrypointer = p.entrypointer := by
  simp only [PhaseInv, hp] at hinv
  cases actions with
  | nil =>
    simp only [Proc.next, hp, Option.some.injEq, Prod.mk.injEq] at h
    obtain ⟨rfl, rfl⟩ := h
    exact ⟨.inl ⟨hinv.1, hinv.2.imp (fun hs => ⟨hs.started, hs.out, hs.err⟩) id⟩, .refl i _, rfl⟩
  | cons action actions =>
    cases action with
    | writePost file => exact phaseInv_next_post hp hinv h
    | start command =>
      simp only [Proc.next, hp, Option.some.injEq, Prod.mk.injEq] at h
      obtain ⟨rfl, rfl⟩ := h
      obtain ⟨ha, hs | hr⟩ := hinv
      · rcases hs.err with ⟨-, heq⟩ | ⟨-, heq⟩ <;> cases heq
      · exact ⟨⟨ha, .inr ⟨hr.prev, hr.posts⟩⟩, .refl i _, rfl⟩
    | writeExitCode content =>
      simp only [Proc.next, hp, Option.some.injEq, Prod.mk.injEq] at h
      obtain ⟨rfl, rfl⟩ := h
      obtain ⟨ha, hs | hr⟩ := hinv
      · rcases hs.err with ⟨-, heq⟩ | ⟨-, heq⟩ <;> cases heq
      · have hown := OwnWrite.exitCode i files p.entrypointer.stepMetadataDir content
        have hperform : PhaseInv files i (p.goto (.perform actions)) :=
          phaseInv_goto_perform ⟨ha, .inr ⟨hr.prev, hr.posts⟩⟩
        have ho := (exitCode_ne_outFile p.entrypointer.stepMetadataDir i).symm
        have he := (exitCode_ne_errFile p.entrypointer.stepMetadataDir i).symm
        exact ⟨hperform.frame (by simp [ho]) (by simp [he]) hown.prevDone, hown, rfl⟩

theorem PhaseInv.next (hord : OrderedAt i p.entrypointer)
    (hb : p.entrypointer.breakpointOnFailure = false) (hinv : PhaseInv files i p)
    (h : p.next files ok o = some (p', files')) :
    PhaseInv files' i p' ∧ OwnWrite i files files' ∧ p'.entrypointer = p.entrypointer := by
  cases hp : p.phase with
  | mkdirResults =>
    simp only [PhaseInv, hp] at hinv
    cases ok <;> simp [Proc.next, hp] at h <;> obtain ⟨rfl, rfl⟩ := h
    · exact ⟨hinv.abort, .refl i _, rfl⟩
    · exact ⟨⟨hinv.started, hinv.aborted, hinv.out, hinv.err⟩, .refl i _, rfl⟩
  | mkdirArtifacts =>
    simp only [PhaseInv, hp] at hinv
    cases ok <;> simp [Proc.next, hp] at h <;> obtain ⟨rfl, rfl⟩ := h
    · exact ⟨hinv.abort, .refl i _, rfl⟩
    · exact ⟨phaseInv_goto_poll.mpr ⟨hinv, .inl rfl⟩, .refl i _, rfl⟩
  | poll fs =>
    obtain ⟨hinv', rfl, he⟩ := phaseInv_next_poll hord hb hp hinv h
    exact ⟨hinv', .refl i _, he⟩
  | pollErr fs =>
    obtain ⟨hinv', rfl, he⟩ := phaseInv_next_pollErr hord hb hp hinv h
    exact ⟨hinv', .refl i _, he⟩
  | perform actions => exact phaseInv_next_perform hp hinv h
  | ended => simp [Proc.next, hp] at h

def PodInv (pod : Pod) : Prop :=
  ∀ i p, pod.procs[i]? = some p →
    OrderedAt i p.entrypointer ∧ p.entrypointer.breakpointOnFailure = false ∧
      PhaseInv pod.files i p

variable {steps : List Container} {taskSpec : Option TaskSpec} {debug : Option Debug}
  {ready : Bool} {es : List Entrypointer}

theorem podInv_init (h : orderContainers steps taskSpec debug ready = .ok es)
    (hb : ∀ e ∈ es, e.breakpointOnFailure = false) : PodInv (Pod.init es) := by
  intro i p hp
  simp only [Pod.init, getElem?_map, Option.map_eq_some_iff] at hp
  obtain ⟨e, he, rfl⟩ := hp
  exact ⟨orderedAt_of_orderContainers h he, hb e (mem_of_getElem? he),
    rfl, rfl, by simp [Files.has, Pod.init], by simp [Files.has, Pod.init]⟩

theorem podInv_step {pod pod' : Pod} {m : Move} (hinv : PodInv pod)
    (h : pod.step m = some pod') : PodInv pod' := by
  cases m with
  | external file content =>
    simp only [Pod.step] at h
    split at h
    · rename_i hmay
      cases h
      intro i p hp
      obtain ⟨hord, hb, hphase⟩ := hinv i p hp
      obtain ⟨hi, -⟩ := List.getElem?_eq_some_iff.mp hp
      have hfile : ¬ file = outFile i ∧ ¬ file = errFile i := by
        simpa [Pod.mayWrite] using all_eq_true.mp hmay i (by simpa using hi)
      refine ⟨hord, hb, hphase.frame ?_ ?_ ?_⟩
      · simp [Ne.symm hfile.1]
      · simp [Ne.symm hfile.2]
      · intro hprev hi0
        simp [hprev hi0]
    · cases h
  | entrypoint i ok o =>
    simp only [Pod.step] at h
    cases hi : pod.procs[i]? with
    | none => simp [hi] at h
    | some p =>
      cases hn : p.next pod.files ok o with
      | none => simp [hi, hn] at h
      | some r =>
        obtain ⟨p', files⟩ := r
        simp only [hi, hn, Option.some.injEq] at h
        subst h
        obtain ⟨hord, hb, hphase⟩ := hinv i p hi
        obtain ⟨hphase', hown, he⟩ := hphase.next hord hb hn
        intro k q hq
        by_cases hk : k = i
        · subst hk
          obtain ⟨hlt, -⟩ := List.getElem?_eq_some_iff.mp hi
          simp only [getElem?_set_self hlt, Option.some.injEq] at hq
          subst hq
          exact ⟨he ▸ hord, he ▸ hb, hphase'⟩
        · rw [getElem?_set_ne (Ne.symm hk)] at hq
          obtain ⟨hord, hb, hphase⟩ := hinv k q hq
          exact ⟨hord, hb, hphase.frame ⟨hown.out hk, hown.grows⟩ ⟨hown.err hk, hown.grows⟩
            hown.prevDone⟩

variable {moves : List Move} {pod : Pod}

theorem podInv_run (h : orderContainers steps taskSpec debug ready = .ok es)
    (hb : ∀ e ∈ es, e.breakpointOnFailure = false)
    (hrun : Transition.run Pod.step (Pod.init es) moves = some pod) : PodInv pod :=
  Transition.run_induction podInv_step (podInv_init h hb) hrun

theorem PhaseInv.cases (h : PhaseInv files i p) : Fresh files i p ∨
    (∃ actions, Performing files i p actions) ∨ p.phase = .ended ∧ Aborted files i p := by
  unfold PhaseInv at h
  split at h
  · exact .inl h
  · exact .inl h
  · exact .inl h.1
  · exact .inl h.1
  · exact .inr (.inl ⟨_, h⟩)
  · rename_i hended
    exact .inr (h.imp (fun h => ⟨_, h⟩) fun h => ⟨hended, h⟩)

theorem PhaseInv.prevDone_of_started (h : PhaseInv files i p) (hs : p.started = true) :
    PrevDone files i := by
  rcases h.cases with hfresh | ⟨_, -, hskip | hrun⟩ | ⟨-, ha⟩
  · simp [hfresh.started] at hs
  · simp [hskip.started] at hs
  · exact hrun.prev
  · exact ha.prev hs

theorem PhaseInv.of_out (h : PhaseInv files i p) (hout : files.has (outFile i)) :
    PrevDone files i ∧ ¬ files.has (errFile i) := by
  rcases h.cases with hfresh | ⟨_, -, hskip | hrun⟩ | ⟨-, ha⟩
  · exact absurd hout hfresh.out
  · exact absurd hout hskip.out
  · rcases hrun.posts with ⟨hno, -⟩ | ⟨hno, -⟩
    · exact absurd hout hno
    · exact ⟨hrun.prev, fun he => hno ⟨hout, he⟩⟩
  · exact absurd hout ha.out

/-- A step that ended although the step before it was never done wrote its `.err` file,
unless it could not. -/
theorem PhaseInv.err_of_ended (h : PhaseInv files i p) (hended : p.phase = .ended)
    (hprev : ¬ PrevDone files i) (ha : p.aborted = false) : files.has (errFile i) := by
  simp only [PhaseInv, hended] at h
  rcases h with ⟨-, hskip | hrun⟩ | h
  · rcases hskip.err with ⟨-, heq⟩ | ⟨herr, -⟩
    · cases heq
    · exact herr
  · exact absurd hrun.prev hprev
  · simp [h.aborted] at ha

theorem PhaseInv.of_aborted (h : PhaseInv files i p) (ha : p.aborted = true) :
    p.phase = .ended ∧ ¬ files.has (errFile i) := by
  rcases h.cases with hfresh | ⟨_, hno, -⟩ | ⟨hended, h⟩
  · simp [hfresh.aborted] at ha
  · simp [hno] at ha
  · exact ⟨hended, h.err⟩

theorem PodInv.out_of_le (h : PodInv pod) (hi : i < pod.procs.length) (hij : j ≤ i)
    (hout : pod.files.has (outFile i)) : pod.files.has (outFile j) := by
  induction i with
  | zero =>
    obtain rfl : j = 0 := by omega
    exact hout
  | succ i ih =>
    by_cases hj : j = i + 1
    · exact hj ▸ hout
    · obtain ⟨-, -, hphase⟩ := h (i + 1) pod.procs[i + 1] (getElem?_eq_getElem hi)
      have hprev := (hphase.of_out hout).1 (by omega)
      exact ih (by omega) (by omega) (by simpa using hprev)

theorem PodInv.not_prevDone (h : PodInv pod) (hi : i < pod.procs.length) (hij : j < i)
    (herr : pod.files.has (errFile j)) : ¬ PrevDone pod.files i := by
  intro hprev
  have hout := h.out_of_le (i := i - 1) (by omega) (show j ≤ i - 1 by omega) (hprev (by omega))
  have hj : j < pod.procs.length := by omega
  obtain ⟨-, -, hphase⟩ := h j pod.procs[j] (getElem?_eq_getElem hj)
  exact (hphase.of_out hout).2 herr

/-- The command of a step is started only behind the post file of the step before it; and
behind an `.err` file no command is started and every step that has ended left its own. -/
structure Pod.StepsInOrder (pod : Pod) : Prop where
  afterPrevious : ∀ i p, pod.procs[i + 1]? = some p → p.started = true →
    pod.files.has (outFile i)
  noneAfterErr : ∀ j i p, j < i → pod.procs[i]? = some p → pod.files.has (errFile j) →
    p.started = false
  errAfterErr : ∀ j i p, j < i → pod.procs[i]? = some p → pod.files.has (errFile j) →
    p.phase = .ended → pod.files.has (errFile i)

/-- No step behind one that wrote its `.err` file failed to make a metadata directory or to
write its post file. -/
def Pod.NoLaterAbort (pod : Pod) : Prop :=
  ∀ j i p, j < i → pod.procs[i]? = some p → pod.files.has (errFile j) → p.aborted = false

/-- In every state of every interleaving the steps are in order exactly when no later step
has been kept from writing its files. -/
theorem stepsInOrder_iff_noLaterAbort (h : orderContainers steps taskSpec debug ready = .ok es)
    (hb : ∀ e ∈ es, e.breakpointOnFailure = false)
    (hrun : Transition.run Pod.step (Pod.init es) moves = some pod) :
    pod.StepsInOrder ↔ pod.NoLaterAbort := by
  have hinv := podInv_run h hb hrun
  constructor
  · intro horder j i p hij hp herr
    by_contra ha
    obtain ⟨-, -, hphase⟩ := hinv i p hp
    obtain ⟨hended, hno⟩ := hphase.of_aborted (by simpa using ha)
    exact hno (horder.errAfterErr j i p hij hp herr hended)
  · intro hnone
    refine ⟨?_, ?_, ?_⟩
    · intro i p hp hs
      obtain ⟨-, -, hphase⟩ := hinv (i + 1) p hp
      simpa using hphase.prevDone_of_started hs (by omega)
    · intro j i p hij hp herr
      obtain ⟨-, -, hphase⟩ := hinv i p hp
      obtain ⟨hi, -⟩ := List.getElem?_eq_some_iff.mp hp
      by_contra hs
      exact hinv.not_prevDone hi hij herr (hphase.prevDone_of_started (by simpa using hs))
    · intro j i p hij hp herr hended
      obtain ⟨-, -, hphase⟩ := hinv i p hp
      obtain ⟨hi, -⟩ := List.getElem?_eq_some_iff.mp hp
      exact hphase.err_of_ended hended (hinv.not_prevDone hi hij herr)
        (hnone j i p hij hp herr)

def buildAndTest : List Container :=
  [{ name := "build", command := ["make"] }, { name := "test", command := ["make", "test"] }]

def buildAndTestSteps : List Entrypointer :=
  (orderContainers buildAndTest none none false).toOption.getD []

/-- The command of the first step ends with exit code 1. -/
def failedBuild : List Move :=
  List.replicate 6 (.entrypoint 0 true { run := fun _ => some (.exit 1) })

def podAfter (moves : List Move) : Pod :=
  (Transition.run Pod.step (Pod.init buildAndTestSteps) moves).getD ⟨[], []⟩

def skippedTest : List Move := failedBuild ++ List.replicate 6 (.entrypoint 1 true {})

/-- The second step finds the `.err` file, writes its own and ends. -/
theorem skippedTest_inOrder :
    (podAfter skippedTest).files.has (errFile 1) ∧ (podAfter skippedTest).StepsInOrder := by
  have horder : orderContainers buildAndTest none none false = .ok buildAndTestSteps := by
    decide +kernel
  have hbreak : ∀ e ∈ buildAndTestSteps, e.breakpointOnFailure = false := by decide +kernel
  have hrun : Transition.run Pod.step (Pod.init buildAndTestSteps) skippedTest =
      some (podAfter skippedTest) := by decide +kernel
  have hnone : ∀ p ∈ (podAfter skippedTest).procs, p.aborted = false := by decide +kernel
  refine ⟨by decide +kernel, (stepsInOrder_iff_noLaterAbort horder hbreak hrun).mpr ?_⟩
  intro j i p _ hp _
  exact hnone p (mem_of_getElem? hp)

def strandedTest : List Move := failedBuild ++ [.entrypoint 1 false {}]

/-- The second step cannot make its metadata directory and ends without a file. -/
theorem strandedTest_not_inOrder :
    Transition.run Pod.step (Pod.init buildAndTestSteps) strandedTest =
      some (podAfter strandedTest) ∧ ¬ (podAfter strandedTest).StepsInOrder := by
  refine ⟨by decide +kernel, fun h => ?_⟩
  have hp : (podAfter strandedTest).procs[1]? = some
      { entrypointer := buildAndTestSteps.getD 1 {}, phase := .ended, aborted := true } := by
    decide +kernel
  have herr := h.errAfterErr 0 1 _ (by omega) hp (by decide +kernel) rfl
  revert herr
  decide +kernel

/-- The command has been started, and neither post file has been written. -/
def Pod.Running (pod : Pod) (i : Nat) : Prop :=
  pod.procs[i]?.any (·.started) = true ∧
    ¬ pod.files.has (outFile i) ∧ ¬ pod.files.has (errFile i)

theorem PodInv.not_running (h : PodInv pod) (hij : i < j) (hj : pod.Running j) :
    ¬ pod.Running i := by
  obtain ⟨p, hp, hs⟩ := (Option.any_eq_true _ _).mp hj.1
  obtain ⟨hlt, -⟩ := List.getElem?_eq_some_iff.mp hp
  obtain ⟨-, -, hphase⟩ := h j p hp
  have hprev := hphase.prevDone_of_started hs (by omega)
  exact fun hi => hi.2.1 (h.out_of_le (by omega) (by omega) hprev)

/-- Under every interleaving one step runs at a time, whatever fails. -/
theorem never_two_running (h : orderContainers steps taskSpec debug ready = .ok es)
    (hb : ∀ e ∈ es, e.breakpointOnFailure = false)
    (hrun : Transition.run Pod.step (Pod.init es) moves = some pod) (hi : pod.Running i)
    (hj : pod.Running j) : i = j := by
  have hinv := podInv_run h hb hrun
  rcases Nat.lt_trichotomy i j with hij | heq | hji
  · exact absurd hi (hinv.not_running hij hj)
  · exact heq
  · exact absurd hj (hinv.not_running hji hi)

def runningBuild : Pod := podAfter (failedBuild.take 5)

theorem runningBuild_alone : runningBuild.Running 0 ∧ ¬ runningBuild.Running 1 := by
  have horder : orderContainers buildAndTest none none false = .ok buildAndTestSteps := by
    decide +kernel
  have hrun : Transition.run Pod.step (Pod.init buildAndTestSteps) (failedBuild.take 5) =
      some runningBuild := by decide +kernel
  have hbuild : runningBuild.Running 0 := by
    unfold Pod.Running
    decide +kernel
  refine ⟨hbuild, fun htest => ?_⟩
  cases never_two_running horder (by decide +kernel) hrun hbuild htest

end TektonPipeline.Entrypoint
