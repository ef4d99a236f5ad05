import TektonPipeline.TaskRun.Reconcile

/-! Whose pod a TaskRun reports. Only the search by label looks at the owner of a pod; a pod
looked up by its name is taken as it is. -/

namespace TektonPipeline.TaskRunReconciler
open Tasks (TaskSpec)
open PodStatus (sidecarsReady)

/-- The pod a reconcile starts from, where the lister answers. -/
def foundPod (c : Cluster) (tr : TaskRun) : Option Pod :=
  if tr.status.podName = "" then listedPod c tr else getPodByName c tr.status.podName

def GetsToPod (c : Cluster) (stored : TaskRun) : Prop :=
  ∃ tr ts, preparation c stored = some (tr, ts) ∧ c.podLister = none ∧
    ∃ applied, c.applySubstitutions ts = .ok applied

/-- A pod with ready sidecars is told to start first, which may fail. -/
def Reportable (c : Cluster) (pod : Pod) : Prop :=
  sidecarsReady pod.toPod = true → c.updateReady = none

/-- No pod was found, and the one that is then created is there already. -/
def AlreadyExists (c : Cluster) (tr : TaskRun) : Prop :=
  foundPod c tr = none ∧ pvcError c tr none = none ∧ c.buildPod = .ok () ∧
    c.createPod = some .alreadyExists

def NamesOwnPods (c : Cluster) (tr : TaskRun) : Prop :=
  (tr.status.podName ≠ "" → ∀ pod, getPodByName c tr.status.podName = some pod →
      Reportable c pod → isControlledBy pod tr = true) ∧
    (AlreadyExists c tr →
      ∀ pod, getPodByName c (c.childName tr.name (podNameSuffix tr)) = some pod →
      Reportable c pod → isControlledBy pod tr = true)

def TaskRun.lookup (tr : TaskRun) : String × String × String × Bool × List StatusFields :=
  (tr.name, tr.uid, tr.status.podName, tr.hasVolumeClaimTemplate, tr.status.retriesStatus)

theorem start_lookup (tr : TaskRun) (c : Cluster) : (tr.start c).lookup = tr.lookup := by
  unfold TaskRun.start
  split <;> rfl

theorem storeTaskSpec_lookup (tr : TaskRun) (ts : TaskSpec) :
    (tr.storeTaskSpec ts).lookup = tr.lookup := by
  unfold TaskRun.storeTaskSpec
  split <;> rfl

variable {c : Cluster} {tr : TaskRun} {taskSpec ts : TaskSpec} {pod : Pod}

theorem prepare_of_preparation {stored : TaskRun} (h : preparation c stored = some (tr, ts)) :
    prepare c (stored.start c) = (tr, .ok ts) := by
  unfold preparation at h
  dsimp only at h
  split at h
  · cases h
  split at h
  · cases h
  rename_i hprepare
  obtain ⟨rfl, rfl⟩ := Prod.mk.inj (Option.some.inj h)
  exact hprepare

theorem preparation_lookup {stored : TaskRun}
    (h : preparation c stored = some (tr, ts)) : tr.lookup = stored.lookup := by
  obtain ⟨-, -, -, -, -, -, -, -, hkeep⟩ := prepare_ok (prepare_of_preparation h)
  rw [← start_lookup stored c, ← storeTaskSpec_lookup (stored.start c) ts]
  rcases hkeep with hkeep | ⟨k, hkeep⟩
  · rw [hkeep]
  · rw [hkeep]
    rfl

theorem report_reported {source : PodSource} {created : Option Pod} :
    (report c tr taskSpec source created).reported = some pod ↔
      source.pod = pod ∧ Reportable c source.pod := by
  unfold report Reportable
  dsimp only
  by_cases hready : sidecarsReady source.pod.toPod = true
  · cases hupdate : c.updateReady with
    | some message => simp [hready]
    | none =>
      simp only [hready, if_true]
      split
      · simp
      · simp
      · split <;> simp
  · simp only [hready, Bool.false_eq_true, if_false]
    split
    · simp
    · simp
    · split <;> simp

theorem createAndReport_reported : (createAndReport c tr taskSpec ts).reported = some pod ↔
      c.buildPod = .ok () ∧ Reportable c pod ∧
        ((c.createPod = none ∧ pod = builtPod c tr ts) ∨ (c.createPod = some .alreadyExists ∧
            getPodByName c (c.childName tr.name (podNameSuffix tr)) = some pod)) := by
  unfold createAndReport createPod
  cases hbuild : c.buildPod with
  | error e => simp
  | ok _ =>
    cases hcreate : c.createPod with
    | none =>
      simp only [report_reported, PodSource.pod]
      constructor
      · rintro ⟨rfl, hready⟩
        exact ⟨trivial, hready, .inl ⟨trivial, rfl⟩⟩
      · rintro ⟨-, hready, ⟨-, rfl⟩ | ⟨h, -⟩⟩
        · exact ⟨rfl, hready⟩
        · cases h
    | some e =>
      by_cases he : e = .alreadyExists
      · subst he
        cases hget : getPodByName c (builtPod c tr ts).name with
        | none =>
          have hname : getPodByName c (c.childName tr.name (podNameSuffix tr)) = none := hget
          simp [hget, hname]
        | some p =>
          have hname : getPodByName c (c.childName tr.name (podNameSuffix tr)) = some p := hget
          simp only [hget, hname, report_reported, PodSource.pod]
          constructor
          · rintro ⟨rfl, hready⟩
            exact ⟨trivial, hready, .inr ⟨trivial, rfl⟩⟩
          · rintro ⟨-, hready, ⟨h, -⟩ | ⟨-, h⟩⟩
            · cases h
            · obtain rfl := Option.some.inj h
              exact ⟨rfl, hready⟩
      · cases e <;> simp_all

theorem findPod_of_lister (h : c.podLister = none) (tr : TaskRun) :
    findPod c tr = .ok (foundPod c tr) := by
  unfold findPod foundPod
  rw [h]
  dsimp only
  split <;> rfl

theorem reconcile_reported : (reconcile c tr taskSpec).reported = some pod ↔
      c.podLister = none ∧ ∃ ts, c.applySubstitutions taskSpec = .ok ts ∧ Reportable c pod ∧
        (foundPod c tr = some pod ∨
          (foundPod c tr = none ∧ pvcError c tr none = none ∧ c.buildPod = .ok () ∧
            ((c.createPod = none ∧ pod = builtPod c (tr.setTaskSpec ts) ts) ∨
              (c.createPod = some .alreadyExists ∧
                getPodByName c (c.childName tr.name (podNameSuffix tr)) = some pod)))) := by
  cases hlister : c.podLister with
  | some message => simp [reconcile, findPod, hlister]
  | none =>
    unfold reconcile
    rw [findPod_of_lister hlister]
    cases hfound : foundPod c tr with
    | some p =>
      have hpvc : pvcError c tr (some p) = none := by simp [pvcError]
      cases happly : c.applySubstitutions taskSpec with
      | error message => simp [hpvc]
      | ok ts =>
        simp only [hpvc, report_reported, PodSource.pod]
        constructor
        · rintro ⟨rfl, hready⟩
          exact ⟨trivial, ts, rfl, hready, .inl rfl⟩
        · rintro ⟨-, ts', -, hready, h | ⟨h, -⟩⟩
          · obtain rfl := Option.some.inj h
            exact ⟨rfl, hready⟩
          · cases h
    | none =>
      dsimp only
      cases hpvc : pvcError c tr none with
      | some message => simp
      | none =>
        cases happly : c.applySubstitutions taskSpec with
        | error message => simp
        | ok ts =>
          simp only [createAndReport_reported]
          constructor
          · rintro ⟨hbuild, hready, hsource⟩
            exact ⟨trivial, ts, rfl, hready, .inr ⟨trivial, trivial, hbuild, hsource⟩⟩
          · rintro ⟨-, ts', hts, hready, h | ⟨-, -, hbuild, hsource⟩⟩
            · cases h
            · obtain rfl := Except.ok.inj hts
              exact ⟨hbuild, hready, hsource⟩

theorem listedPod_isControlledBy (h : listedPod c tr = some pod) :
    isControlledBy pod tr = true := by
  have hmem := List.mem_of_getLast? h
  simp only [List.mem_filter, Bool.and_eq_true] at hmem
  exact hmem.2.2.1

theorem builtPod_isControlledBy (c : Cluster) (tr : TaskRun) (ts : TaskSpec) :
    isControlledBy (builtPod c tr ts) tr = true := by
  simp [isControlledBy, builtPod]

theorem reconcile_reported_isControlledBy_iff (hlister : c.podLister = none)
    (happly : ∃ ts, c.applySubstitutions taskSpec = .ok ts) :
    (∀ pod, (reconcile c tr taskSpec).reported = some pod → isControlledBy pod tr = true) ↔
      NamesOwnPods c tr := by
  obtain ⟨ts, hts⟩ := happly
  constructor
  · intro h
    refine ⟨fun hname pod hget hready => ?_, fun hexists pod hget hready => ?_⟩
    · refine h pod (reconcile_reported.mpr ⟨hlister, ts, hts, hready, .inl ?_⟩)
      rw [foundPod, if_neg hname, hget]
    · obtain ⟨hfound, hpvc, hbuild, hcreate⟩ := hexists
      exact h pod (reconcile_reported.mpr ⟨hlister, ts, hts, hready,
        .inr ⟨hfound, hpvc, hbuild, .inr ⟨hcreate, hget⟩⟩⟩)
  · rintro ⟨hstored, hexists⟩ pod hreported
    obtain ⟨-, ts', -, hready, hfound | ⟨hfound, hpvc, hbuild, hsource⟩⟩ :=
      reconcile_reported.mp hreported
    · by_cases hname : tr.status.podName = ""
      · rw [foundPod, if_pos hname] at hfound
        exact listedPod_isControlledBy hfound
      · rw [foundPod, if_neg hname] at hfound
        exact hstored hname pod hfound hready
    · rcases hsource with ⟨-, rfl⟩ | ⟨hcreate, hget⟩
      · exact builtPod_isControlledBy c (tr.setTaskSpec ts') ts'
      · exact hexists ⟨hfound, hpvc, hbuild, hcreate⟩ pod hget hready

theorem isControlledBy_of_lookup {tr' : TaskRun} (h : tr'.lookup = tr.lookup) (pod : Pod) :
    isControlledBy pod tr' = isControlledBy pod tr := by
  simp only [TaskRun.lookup, Prod.mk.injEq] at h
  simp only [isControlledBy, h.2.1]

theorem foundPod_of_lookup {tr' : TaskRun} (h : tr'.lookup = tr.lookup) :
    foundPod c tr' = foundPod c tr := by
  have hcontrolled := isControlledBy_of_lookup h
  simp only [TaskRun.lookup, Prod.mk.injEq] at h
  obtain ⟨hname, -, hpod, -, harchive⟩ := h
  simp only [foundPod, listedPod, isPodArchived, hcontrolled, hname, hpod, harchive]

theorem namesOwnPods_of_lookup {tr' : TaskRun} (h : tr'.lookup = tr.lookup) :
    NamesOwnPods c tr' ↔ NamesOwnPods c tr := by
  have hcontrolled := isControlledBy_of_lookup h
  have hfound := foundPod_of_lookup (c := c) h
  simp only [TaskRun.lookup, Prod.mk.injEq] at h
  obtain ⟨hname, -, hpod, hvolume, harchive⟩ := h
  have hsuffix : podNameSuffix tr' = podNameSuffix tr := by simp only [podNameSuffix, harchive]
  simp only [NamesOwnPods, AlreadyExists, pvcError, hcontrolled, hfound, hname, hpod, hvolume,
    hsuffix]

/-- A reconcile reports only pods of its TaskRun exactly when, if it gets to the pod at all,
the names it looks pods up by belong to pods of the TaskRun. -/
theorem reconcileKind_reports_own_iff (c : Cluster) (stored : TaskRun) :
    (∀ pod, (reconcileKind c stored).reported = some pod → isControlledBy pod stored = true) ↔
      (GetsToPod c stored → NamesOwnPods c stored) := by
  rw [(reconcileKind_pods c stored).2]
  cases hprep : preparation c stored with
  | none =>
    refine iff_of_true (by simp) ?_
    rintro ⟨tr, ts, h, -⟩
    rw [hprep] at h
    cases h
  | some p =>
    obtain ⟨tr, ts⟩ := p
    have hlookup := preparation_lookup hprep
    simp only [Option.bind_some, ← isControlledBy_of_lookup hlookup,
      ← namesOwnPods_of_lookup hlookup]
    constructor
    · rintro h ⟨tr', ts', hprep', hlister, happly⟩
      obtain ⟨rfl, rfl⟩ := Prod.mk.inj (Option.some.inj (hprep.symm.trans hprep'))
      exact (reconcile_reported_isControlledBy_iff hlister happly).mp h
    · intro h pod hreported
      obtain ⟨hlister, applied, happly, -⟩ := reconcile_reported.mp hreported
      have hown := h ⟨tr, ts, hprep, hlister, applied, happly⟩
      exact (reconcile_reported_isControlledBy_iff hlister ⟨applied, happly⟩).mpr hown pod hreported

def newBuild : TaskRun :=
  { name := "build", uid := "u2", embeddedTaskSpec := some { steps := [{ name := "compile" }] } }

/-- The pod of a deleted TaskRun of the same name, done and not yet collected. -/
def leftoverPod : Pod :=
  { name := "build-pod"
    taskRunLabel := "build"
    ownerReferences := [⟨"u1", true⟩]
    phase := .succeeded }

def leftover : Cluster := { pods := [leftoverPod], createPod := some .alreadyExists }

theorem newBuild_reports_leftoverPod :
    (reconcileKind leftover newBuild).reported = some leftoverPod ∧
      isControlledBy leftoverPod newBuild = false ∧
      (reconcileKind leftover newBuild).taskRun.isSuccessful = true := by
  decide +kernel

end TektonPipeline.TaskRunReconciler
