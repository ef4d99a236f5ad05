import TektonPipeline.Pipeline.AffinityAssistants

/-! What is removed when a PipelineRun is done: its affinity assistants, and the claims that
these made from its templates. The API server answers every request, with NotFound where there
is no such object. -/

namespace TektonPipeline.Workspaces
open List

structure Claim where
  finalizers : List String
  deleting : Bool := false
  deriving DecidableEq

/-- The objects of a namespace, by name. -/
structure Stored where
  statefulSets : String → Bool
  claims : String → Option Claim

/-- The cleanup takes no notice of a NotFound here. -/
def Stored.deleteStatefulSet (st : Stored) (name : String) : Stored :=
  { st with statefulSets := Function.update st.statefulSets name false }

/-- A claim that is being deleted is gone as soon as it has no finalizers. -/
def Stored.updateClaim (st : Stored) (name : String) (claim : Claim) : Stored :=
  let left := if claim.deleting ∧ claim.finalizers = [] then none else some claim
  { st with claims := Function.update st.claims name left }

def pvcProtection : String := "kubernetes.io/pvc-protection"

def purgeFinalizerAndDeletePVCForWorkspace (pvcName : String) (st : Stored) :
    Option String × Stored :=
  match st.claims pvcName with
  | none => (some s!"failed to get the PVC {pvcName}: not found", st)
  | some p =>
    let finalizers := p.finalizers.filter (· ≠ pvcProtection)
    let deleted := st.updateClaim pvcName { p with deleting := true }
    match deleted.claims pvcName with
    | none => (some s!"failed to patch the PVC {pvcName}: not found", deleted)
    | some p => (none, deleted.updateClaim pvcName { p with finalizers })

section
variable (sha256 : String → String)

/-- The claims that the assistant's StatefulSet makes from templates. -/
def PipelineRun.templateClaims (pr : PipelineRun) : List String :=
  pr.workspaces.filterMap fun w => w.volumeClaimTemplate.map fun template =>
    getPersistentVolumeClaimNameWithAffinityAssistant sha256 "" pr.name template w pr.uid

def purgeNext (r : List String × Stored) (pvcName : String) : List String × Stored :=
  let purged := purgeFinalizerAndDeletePVCForWorkspace pvcName r.2
  (r.1 ++ purged.1.toList, purged.2)

/-- The errors that are put together, none for nil, and what is left. -/
def cleanupAffinityAssistantsAndPVCs (cfg : FeatureFlags) (pr : PipelineRun) (st : Stored) :
    List String × Stored :=
  match getAffinityAssistantBehavior cfg with
  | .error err => ([err], st)
  | .ok .perWorkspace =>
    ([], (pr.workspaces.filter (·.claims)).foldl
      (fun st w => st.deleteStatefulSet (getAffinityAssistantName sha256 w.name pr.name)) st)
  | .ok .perPipelineRun | .ok .perPipelineRunWithIsolation =>
    (pr.templateClaims sha256).foldl purgeNext
      ([], st.deleteStatefulSet (getAffinityAssistantName sha256 "" pr.name))
  | .ok .disabled => ([], st)

end

/-! ## Claims that are there -/

def Stored.Keeps (st : Stored) (name : String) (p : String → Prop) : Prop :=
  ∃ claim, st.claims name = some claim ∧ ∃ f ∈ claim.finalizers, p f

theorem keeps_updateClaim {st : Stored} {name n : String} {claim : Claim} {p : String → Prop} :
    (st.updateClaim name claim).Keeps n p ↔
      if n = name then ∃ f ∈ claim.finalizers, p f else st.Keeps n p := by
  unfold Stored.updateClaim Stored.Keeps
  by_cases hn : n = name
  · subst hn
    by_cases hgone : claim.deleting ∧ claim.finalizers = [] <;> simp [hgone]
  · simp [hn]

/-- Only a claim with a finalizer is still there to be patched, and it stays exactly if it has
another one than that for the protection of claims. -/
theorem purge_cases (st : Stored) (name : String) :
    (∃ st', purgeFinalizerAndDeletePVCForWorkspace name st = (none, st') ∧
      st.Keeps name (fun _ => True) ∧ ∀ n p, st'.Keeps n p ↔
        if n = name then st.Keeps n fun f => f ≠ pvcProtection ∧ p f else st.Keeps n p) ∨
    (∃ err st', purgeFinalizerAndDeletePVCForWorkspace name st = (some err, st') ∧
      ¬ st.Keeps name fun _ => True) := by
  unfold purgeFinalizerAndDeletePVCForWorkspace
  cases hclaim : st.claims name with
  | none => exact .inr ⟨_, _, rfl, by simp [Stored.Keeps, hclaim]⟩
  | some claim =>
    by_cases hnil : claim.finalizers = []
    · have hgone : (st.updateClaim name { claim with deleting := true }).claims name = none := by
        simp [Stored.updateClaim, hnil]
      simp only [hgone]
      exact .inr ⟨_, _, rfl, by simp [Stored.Keeps, hclaim, hnil]⟩
    · have hthere : (st.updateClaim name { claim with deleting := true }).claims name =
          some { claim with deleting := true } := by simp [Stored.updateClaim, hnil]
      simp only [hthere]
      refine .inl ⟨_, rfl, ?_, fun n p => ?_⟩
      · simpa [Stored.Keeps, hclaim] using exists_mem_of_ne_nil _ hnil
      · rw [keeps_updateClaim, keeps_updateClaim]
        by_cases hn : n = name
        · simp [hn, Stored.Keeps, hclaim, and_assoc]
        · simp [hn]

theorem purgeAll_errors (names errs : List String) (st : Stored) :
    (names.foldl purgeNext (errs, st)).1 = [] ↔ errs = [] ∧
      (∀ n ∈ names, st.Keeps n fun _ => True) ∧
      names.Pairwise fun m n => m = n → st.Keeps n (· ≠ pvcProtection) := by
  induction names generalizing errs st with
  | nil => simp
  | cons name names ih =>
    rw [foldl_cons, forall_mem_cons, pairwise_cons]
    rcases purge_cases st name with ⟨st', hpurge, hkept, hkeeps⟩ | ⟨err, st', hpurge, hlost⟩
    · rw [purgeNext, hpurge, ih]
      have htrue : ∀ n, st'.Keeps n (fun _ => True) ↔ st.Keeps n (fun _ => True) ∧
          (name = n → st.Keeps n (· ≠ pvcProtection)) := by
        intro n
        rw [hkeeps]
        by_cases hn : n = name
        · simp [hn, hkept]
        · simp [hn, Ne.symm hn]
      have hother : ∀ n, st'.Keeps n (· ≠ pvcProtection) ↔ st.Keeps n (· ≠ pvcProtection) := by
        intro n
        rw [hkeeps]
        simp
      simp only [htrue, hother, Option.toList_none, append_nil, hkept, true_and,
        forall₂_and, and_assoc]
    · rw [purgeNext, hpurge, ih]
      simp [hlost]

/-- For one PipelineRun the assistant makes the claims, and each has to be there with a finalizer;
one that is purged twice with another finalizer than that for the protection of claims. -/
theorem cleanup_returns_nil_iff (sha256 : String → String) (cfg : FeatureFlags) (pr : PipelineRun)
    (st : Stored) : (cleanupAffinityAssistantsAndPVCs sha256 cfg pr st).1 = [] ↔
      ∃ mode, getAffinityAssistantBehavior cfg = .ok mode ∧
        (mode = .perPipelineRun ∨ mode = .perPipelineRunWithIsolation →
          (∀ n ∈ pr.templateClaims sha256, st.Keeps n fun _ => True) ∧
          (pr.templateClaims sha256).Pairwise fun m n => m = n →
            st.Keeps n (· ≠ pvcProtection)) := by
  unfold cleanupAffinityAssistantsAndPVCs
  cases getAffinityAssistantBehavior cfg with
  | error err => simp
  | ok mode => cases mode <;> simp [purgeAll_errors, Stored.deleteStatefulSet, Stored.Keeps]

def templated : PipelineRun where
  name := "nightly"
  workspaces := [{ name := "source", volumeClaimTemplate := some "data" }]

def perRun : FeatureFlags := { disableAffinityAssistant := true, coschedule := "pipelineruns" }

/-- The claim was never made; or a first cleanup has removed it and there is a second. -/
theorem templated_not_nil :
    (cleanupAffinityAssistantsAndPVCs id perRun templated ⟨fun _ => true, fun _ => none⟩).1 ≠ [] ∧
    ∀ r, r = cleanupAffinityAssistantsAndPVCs id perRun templated
        ⟨fun _ => true, fun _ => some { finalizers := [pvcProtection] }⟩ →
      r.1 = [] ∧ (cleanupAffinityAssistantsAndPVCs id perRun templated r.2).1 ≠ [] := by
  refine ⟨by decide +kernel, ?_⟩
  rintro r rfl
  exact ⟨by decide +kernel, by decide +kernel⟩

end TektonPipeline.Workspaces
