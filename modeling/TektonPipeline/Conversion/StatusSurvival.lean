import TektonPipeline.Conversion.SpecSurvival

/-! A v1 TaskRun or PipelineRun converted to v1beta1 and back: when its status is the same. -/

namespace TektonPipeline.Conversion
open V1Beta1

variable {α τ : Type}

def V1.PipelineRunStatus.AllPlain (prs : V1.PipelineRunStatus α) : Prop :=
  prs.Plain ∧ ∀ ps ∈ prs.pipelineSpec, ps.AllPlain

variable {c : Codec α τ}

theorem pipelineRunStatus_plain_iff (c : Codec α τ) (prs : V1.PipelineRunStatus α) :
    (pipelineRunStatus c).Plain prs ↔ prs.AllPlain := by
  simp only [pipelineRunStatus, Trip.along, Trip.option, pipelineSpec_plain_iff,
    V1.PipelineRunStatus.AllPlain]

def V1.PipelineRun.StatusSurvives (c : Codec α τ) (p : V1.PipelineRun α τ) : Prop :=
  ∃ q p', PipelineRun.convertFrom c p = .ok q ∧ q.convertTo c = .ok p' ∧ p'.status = p.status

theorem pipelineRun_status_survives_iff (c : Codec α τ) (p : V1.PipelineRun α τ) :
    p.StatusSurvives c ↔ Readable c .pipelineRunResources p.objectMeta.annotations ∧
      p.status.AllPlain ∧ Returned (shelf c p.objectMeta.annotations) p.status.embedded ∧
      Accepted (DeprecationShelf.without (shelf c p.objectMeta.annotations) p.status.embedded)
        p.spec.embedded := by
  simp only [V1.PipelineRun.StatusSurvives, exists_and_left, PipelineRun.convertFrom_gives_iff,
    PipelineRun.convertTo_gives_iff]
  refine (((pipelineRunStatus c).pair (pipelineRunSpec c)).round_trip_iff
    (P := fun r => r.1 = p.status)).trans ?_
  refine (exists₂_congr fun v a₁ => and_congr_right fun _ => Trip.pair_fst_back_iff ..).trans ?_
  simp only [pipelineRunStatus_plain_iff]
  exact deserialize_then_iff fun s => p.status.AllPlain ∧ Returned s p.status.embedded ∧
    Accepted (DeprecationShelf.without s p.status.embedded) p.spec.embedded

/-! A TaskRun. Its resources are read before its status and between its status and its spec. -/

abbrev TaskRun.Converted (c : Codec α τ) (p : V1.TaskRun α τ) (status : TaskRunStatus α)
    (spec : TaskRunSpec α) (resources cloudEvents resourcesResult resourcesStatus : Option α)
    (annotations : Annotations τ) : Prop :=
  ∃ a₁ a₂ a₃ a₄ a₅,
    deserialize c .taskRunResources p.objectMeta.annotations = .ok (resources, a₁) ∧
    deserialize c .cloudEvents a₁ = .ok (cloudEvents, a₂) ∧
    deserialize c .resourcesResult a₂ = .ok (resourcesResult, a₃) ∧
    (taskRunStatus c p.objectMeta.name).convertFrom p.status a₃ = .ok (status, a₄) ∧
    deserialize c .resourcesStatus a₄ = .ok (resourcesStatus, a₅) ∧
    (taskRunSpec c p.objectMeta.name).convertFrom p.spec a₅ = .ok (spec, annotations)

theorem TaskRun.convertFrom_gives_iff (c : Codec α τ) (p : V1.TaskRun α τ)
    {P : TaskRun α τ → Prop} : (∃ q, TaskRun.convertFrom c p = .ok q ∧ P q) ↔
      ∃ status spec resources cloudEvents resourcesResult resourcesStatus annotations,
        TaskRun.Converted c p status spec resources cloudEvents resourcesResult resourcesStatus
          annotations ∧
        P { objectMeta := { p.objectMeta with annotations }
            spec := { spec with resources }
            status := { status with cloudEvents, resourcesResult }.withResources
              resourcesStatus } := by
  refine written_gives_iff.trans ?_
  simp only [Follows.gives_bind_iff, Follows.gives_pure_iff]
  constructor
  · rintro ⟨resources, a₁, h₁, cloudEvents, a₂, h₂, resourcesResult, a₃, h₃, status, a₄, h₄,
      resourcesStatus, a₅, h₅, spec, a₆, h₆, hP⟩
    exact ⟨status, spec, resources, cloudEvents, resourcesResult, resourcesStatus, a₆,
      ⟨a₁, a₂, a₃, a₄, a₅, h₁, h₂, h₃, h₄, h₅, h₆⟩, hP⟩
  · rintro ⟨status, spec, resources, cloudEvents, resourcesResult, resourcesStatus, a₆,
      ⟨a₁, a₂, a₃, a₄, a₅, h₁, h₂, h₃, h₄, h₅, h₆⟩, hP⟩
    exact ⟨resources, a₁, h₁, cloudEvents, a₂, h₂, resourcesResult, a₃, h₃, status, a₄, h₄,
      resourcesStatus, a₅, h₅, spec, a₆, h₆, hP⟩

theorem TaskRun.convertTo_gives_iff (c : Codec α τ) (q : TaskRun α τ)
    {P : V1.TaskRun α τ → Prop} : (∃ p, q.convertTo c = .ok p ∧ P p) ↔ ∃ u₁ a₁,
      serialize c .taskRunResources q.spec.resources q.objectMeta.annotations = .ok (u₁, a₁) ∧
      ∃ u₂ a₂, serialize c .cloudEvents q.status.cloudEvents a₁ = .ok (u₂, a₂) ∧
      ∃ u₃ a₃, serialize c .resourcesResult q.status.resourcesResult a₂ = .ok (u₃, a₃) ∧
      ∃ u₄ a₄, serialize c .resourcesStatus (q.status.taskSpec.bind (·.resources)) a₃ =
        .ok (u₄, a₄) ∧
      ∃ r a₅, ((taskRunStatus c q.objectMeta.name).pair (taskRunSpec c q.objectMeta.name)).convertTo
          (q.status, q.spec) a₄ = .ok (r, a₅) ∧
        P { objectMeta := { q.objectMeta with annotations := a₅ }
            spec := r.2
            status := r.1 } := by
  refine written_gives_iff.trans ?_
  simp only [Trip.pair, Follows.gives_bind_iff, Follows.gives_pure_iff]
  rfl

/-- What is written before the status always can be. -/
theorem TaskRun.exists_written (c : Codec α τ) (q : TaskRun α τ) :
    ∃ a, shelf c a = shelf c q.objectMeta.annotations ∧ ∀ P : V1.TaskRun α τ → Prop,
      (∃ p, q.convertTo c = .ok p ∧ P p) ↔ ∃ r a',
        ((taskRunStatus c q.objectMeta.name).pair (taskRunSpec c q.objectMeta.name)).convertTo
          (q.status, q.spec) a = .ok (r, a') ∧
        P { objectMeta := { q.objectMeta with annotations := a' }
            spec := r.2
            status := r.1 } := by
  obtain ⟨a₁, h₁, hs₁⟩ := serialize_eq_ok c .taskRunResources q.spec.resources
    q.objectMeta.annotations
  obtain ⟨a₂, h₂, hs₂⟩ := serialize_eq_ok c .cloudEvents q.status.cloudEvents a₁
  obtain ⟨a₃, h₃, hs₃⟩ := serialize_eq_ok c .resourcesResult q.status.resourcesResult a₂
  obtain ⟨a₄, h₄, hs₄⟩ := serialize_eq_ok c .resourcesStatus
    (q.status.taskSpec.bind (·.resources)) a₃
  refine ⟨a₄, by rw [hs₄, hs₃, hs₂, hs₁], fun P => (TaskRun.convertTo_gives_iff c q).trans ?_⟩
  simp [h₁, h₂, h₃, h₄]

theorem taskSpec_isSome_of_convertFrom {name : String}
    {source : V1.TaskRunStatus α} {status : TaskRunStatus α} {a a' : Annotations τ}
    (h : TaskRunStatus.convertFrom c name source a = .ok (status, a')) :
    status.taskSpec.isSome = source.taskSpec.isSome := by
  cases source with
  | mk _ _ _ _ _ retriesStatus _ _ _ taskSpec _ _ =>
    rw [TaskRunStatus.convertFrom] at h
    obtain ⟨retries, a₁, -, h⟩ := Follows.bind_eq_ok_iff.mp h
    obtain ⟨ts, a₂, hts, h⟩ := Follows.bind_eq_ok_iff.mp h
    obtain ⟨rfl, -⟩ := Follows.pure_eq_ok_iff.mp h
    cases taskSpec with
    | none =>
      obtain ⟨rfl, -⟩ := Follows.pure_eq_ok_iff.mp hts
      rfl
    | some source =>
      obtain ⟨b, a₃, -, hts⟩ := Follows.bind_eq_ok_iff.mp hts
      obtain ⟨rfl, -⟩ := Follows.pure_eq_ok_iff.mp hts
      rfl

theorem toV1_withResources {status : TaskRunStatus α} {v : Option α}
    (h : v = none ∨ status.taskSpec.isSome = true) (cloudEvents resourcesResult : Option α)
    (c : Codec α τ) (name : String) :
    let trs := { status with cloudEvents, resourcesResult }.withResources v
    trs.toV1 = status.toV1 ∧ trs.convertTo c name = status.convertTo c name := by
  cases status with
  | mk _ _ _ _ _ _ _ _ _ _ taskSpec _ _ =>
    cases v with
    | none => exact ⟨rfl, rfl⟩
    | some r =>
      cases taskSpec with
      | none => simp at h
      | some ts => exact ⟨rfl, rfl⟩

theorem taskSpec_isSome_withResources (status : TaskRunStatus α) (r : α) :
    (status.withResources (some r)).toV1.taskSpec.isSome = true := by
  cases status
  rfl

theorem lookup_resourcesStatus {p : V1.TaskRun α τ} {v₁ v₂ v₃ : Option α}
    {status : TaskRunStatus α} {a₁ a₂ a₃ a₄ : Annotations τ}
    (h₁ : deserialize c .taskRunResources p.objectMeta.annotations = .ok (v₁, a₁))
    (h₂ : deserialize c .cloudEvents a₁ = .ok (v₂, a₂))
    (h₃ : deserialize c .resourcesResult a₂ = .ok (v₃, a₃))
    (h₄ : (taskRunStatus c p.objectMeta.name).convertFrom p.status a₃ = .ok (status, a₄)) :
    a₄.lookup Kept.resourcesStatus.key =
      p.objectMeta.annotations.lookup Kept.resourcesStatus.key := by
  have hframe := congrFun (Trip.shelf_of_convertFrom _ h₄).2.2 Kept.resourcesStatus.key
  rw [otherAnnotations_key, otherAnnotations_key] at hframe
  rw [hframe, lookup_of_deserialize h₃ (by decide), lookup_of_deserialize h₂ (by decide),
    lookup_of_deserialize h₁ (by decide)]

theorem shelf_of_deserializes {k₁ k₂ k₃ : Kept} {v₁ v₂ v₃ : Option α}
    {a a₁ a₂ a₃ : Annotations τ} (h₁ : deserialize c k₁ a = .ok (v₁, a₁))
    (h₂ : deserialize c k₂ a₁ = .ok (v₂, a₂)) (h₃ : deserialize c k₃ a₂ = .ok (v₃, a₃)) :
    shelf c a₃ = shelf c a := by
  rw [shelf_of_deserialize h₃, shelf_of_deserialize h₂, shelf_of_deserialize h₁]

def V1.TaskRun.ResourcesReadable (c : Codec α τ) (p : V1.TaskRun α τ) : Prop :=
  ∀ k ∈ [Kept.taskRunResources, .cloudEvents, .resourcesResult, .resourcesStatus],
    Readable c k p.objectMeta.annotations

/-- There are no resources for the spec of a status that has no spec. -/
def V1.TaskRun.NoStraySpec (c : Codec α τ) (p : V1.TaskRun α τ) : Prop :=
  p.status.taskSpec = none →
    ∀ str ∈ p.objectMeta.annotations.lookup Kept.resourcesStatus.key,
      c.unmarshal .resourcesStatus str = .ok none

theorem readable_congr {k : Kept} {a a' : Annotations τ}
    (h : a'.lookup k.key = a.lookup k.key) : Readable c k a' ↔ Readable c k a := by
  rw [Readable, Readable, h]

theorem V1.TaskRun.resourcesReadable_iff {p : V1.TaskRun α τ} :
    p.ResourcesReadable c ↔ ∃ v₁ a₁ v₂ a₂ v₃ a₃,
      deserialize c .taskRunResources p.objectMeta.annotations = .ok (v₁, a₁) ∧
      deserialize c .cloudEvents a₁ = .ok (v₂, a₂) ∧
      deserialize c .resourcesResult a₂ = .ok (v₃, a₃) ∧
      Readable c .resourcesStatus p.objectMeta.annotations := by
  simp only [ResourcesReadable, List.forall_mem_cons, List.not_mem_nil, false_implies,
    implies_true, and_true]
  constructor
  · rintro ⟨hr₁, hr₂, hr₃, hr₄⟩
    obtain ⟨v₁, a₁, h₁⟩ := deserialize_returns hr₁
    obtain ⟨v₂, a₂, h₂⟩ := deserialize_returns
      ((readable_congr (lookup_of_deserialize h₁ (by decide))).mpr hr₂)
    obtain ⟨v₃, a₃, h₃⟩ := deserialize_returns
      ((readable_congr ((lookup_of_deserialize h₂ (by decide)).trans
        (lookup_of_deserialize h₁ (by decide)))).mpr hr₃)
    exact ⟨v₁, a₁, v₂, a₂, v₃, a₃, h₁, h₂, h₃, hr₄⟩
  · rintro ⟨v₁, a₁, v₂, a₂, v₃, a₃, h₁, h₂, h₃, hr₄⟩
    refine ⟨readable_of_deserialize h₁, ?_, ?_, hr₄⟩
    · exact (readable_congr (lookup_of_deserialize h₁ (by decide))).mp
        (readable_of_deserialize h₂)
    · exact (readable_congr ((lookup_of_deserialize h₂ (by decide)).trans
        (lookup_of_deserialize h₁ (by decide)))).mp (readable_of_deserialize h₃)

def V1.TaskRunSpec.embedded (name : String) (trs : V1.TaskRunSpec α) :
    List (String × V1.TaskSpec α) :=
  trs.taskSpec.elim [] fun ts => [(name, ts)]

def V1.TaskRun.StatusSurvives (c : Codec α τ) (p : V1.TaskRun α τ) : Prop :=
  ∃ q p', TaskRun.convertFrom c p = .ok q ∧ q.convertTo c = .ok p' ∧ p'.status = p.status

theorem taskRun_status_survives_iff (c : Codec α τ) (p : V1.TaskRun α τ) :
    p.StatusSurvives c ↔ p.ResourcesReadable c ∧ p.NoStraySpec c ∧ p.status.AllPlain ∧
      Returned (shelf c p.objectMeta.annotations) (p.status.embedded p.objectMeta.name) ∧
      Accepted (DeprecationShelf.without (shelf c p.objectMeta.annotations)
        (p.status.embedded p.objectMeta.name)) (p.spec.embedded p.objectMeta.name) := by
  constructor
  · rintro ⟨q, p', hfrom, hto, hsame⟩
    obtain ⟨status, spec, v₁, v₂, v₃, v₄, a₆, ⟨a₁, a₂, a₃, a₄, a₅, h₁, h₂, h₃, h₄, h₅, h₆⟩, rfl⟩ :=
      (TaskRun.convertFrom_gives_iff c p (P := (q = ·))).mp ⟨q, hfrom, rfl⟩
    obtain ⟨a, -, hwritten⟩ := TaskRun.exists_written c _
    obtain ⟨r, a', hpair, hsame⟩ := (hwritten (·.status = p.status)).mp ⟨p', hto, hsame⟩
    obtain ⟨-, -, -, rfl⟩ := Follows.Follows.of_ok (Trip.parks _ _) hpair
    have hsome := taskSpec_isSome_of_convertFrom h₄
    have hfits : v₄ = none ∨ status.taskSpec.isSome = true := by
      cases v₄ with
      | none => exact .inl rfl
      | some r =>
        right
        rw [hsome, ← hsame]
        exact taskSpec_isSome_withResources _ r
    have hback : status.toV1 = p.status :=
      (toV1_withResources hfits v₂ v₃ c p.objectMeta.name).1.symm.trans hsame
    have hshelf := shelf_of_deserializes h₁ h₂ h₃
    have hlookup := lookup_resourcesStatus h₁ h₂ h₃ h₄
    have hstatus := (Trip.convertFrom_back_iff _ p.status a₃).mp ⟨status, a₄, h₄, hback⟩
    have hspec := (Trip.convertFrom_returns_iff _ p.spec a₅).mp ⟨spec, a₆, h₆⟩
    rw [hshelf] at hstatus
    rw [shelf_of_deserialize h₅, Trip.accepted_after_iff _ h₄, hshelf] at hspec
    refine ⟨V1.TaskRun.resourcesReadable_iff.mpr ⟨v₁, a₁, v₂, a₂, v₃, a₃, h₁, h₂, h₃,
      (readable_congr hlookup).mp (readable_of_deserialize h₅)⟩, ?_, hstatus.1, hstatus.2, hspec⟩
    intro hnone str hstr
    have hv₄ : v₄ = none := by simpa [hsome, hnone] using hfits
    rw [deserialize_eq_ok_iff, hlookup, Option.mem_def.mp hstr, hv₄] at h₅
    exact h₅.1
  · rintro ⟨hread, hstray, hplain, hstatus, hspec⟩
    obtain ⟨v₁, a₁, v₂, a₂, v₃, a₃, h₁, h₂, h₃, hr₄⟩ := V1.TaskRun.resourcesReadable_iff.mp hread
    rw [← shelf_of_deserializes h₁ h₂ h₃] at hstatus hspec
    obtain ⟨status, a₄, h₄, hback⟩ :=
      ((taskRunStatus c p.objectMeta.name).convertFrom_back_iff p.status a₃).mpr ⟨hplain, hstatus⟩
    have hlookup := lookup_resourcesStatus h₁ h₂ h₃ h₄
    obtain ⟨v₄, a₅, h₅⟩ := deserialize_returns ((readable_congr hlookup).mpr hr₄)
    have haccepted : Accepted (shelf c a₅) (p.spec.embedded p.objectMeta.name) := by
      rw [shelf_of_deserialize h₅, Trip.accepted_after_iff _ h₄]
      exact hspec
    obtain ⟨spec, a₆, h₆⟩ :=
      ((taskRunSpec c p.objectMeta.name).convertFrom_returns_iff p.spec a₅).mpr haccepted
    have hfits : v₄ = none ∨ status.taskSpec.isSome = true := by
      rw [taskSpec_isSome_of_convertFrom h₄]
      cases hts : p.status.taskSpec with
      | some ts => exact .inr rfl
      | none =>
        left
        rw [deserialize_eq_ok_iff, hlookup] at h₅
        cases hstr : p.objectMeta.annotations.lookup Kept.resourcesStatus.key with
        | none =>
          rw [hstr] at h₅
          exact h₅.1
        | some str =>
          rw [hstr] at h₅
          exact Except.ok.inj (h₅.1.symm.trans (hstray hts str hstr))
    simp only [V1.TaskRun.StatusSurvives, exists_and_left]
    refine (TaskRun.convertFrom_gives_iff c p).mpr ⟨status, spec, v₁, v₂, v₃, v₄, a₆,
      ⟨a₁, a₂, a₃, a₄, a₅, h₁, h₂, h₃, h₄, h₅, h₆⟩, ?_⟩
    refine (TaskRun.exists_written c _).elim fun a ha => (ha.2 _).mpr ?_
    obtain ⟨a', hpair⟩ := Trip.pair_convertTo_returns _ _ h₄ (shelf_of_deserialize h₅) h₆ ha.1
    refine ⟨(status.toV1, spec.toV1), a', ?_, hback⟩
    have hto := (toV1_withResources hfits v₂ v₃ c p.objectMeta.name).2
    obtain ⟨x, b', hx, hpair⟩ := Follows.bind_eq_ok_iff.mp hpair
    exact Follows.bind_eq_ok_iff.mpr ⟨x, b', (congrFun hto a).trans hx, hpair⟩

/-- The statuses of v1 TaskRuns and PipelineRuns that survive a trip through v1beta1. -/
theorem statuses_survive_iff (c : Codec α τ) : (∀ p : V1.TaskRun α τ, p.StatusSurvives c ↔
      p.ResourcesReadable c ∧ p.NoStraySpec c ∧ p.status.AllPlain ∧
        Returned (shelf c p.objectMeta.annotations) (p.status.embedded p.objectMeta.name) ∧
        Accepted (DeprecationShelf.without (shelf c p.objectMeta.annotations)
          (p.status.embedded p.objectMeta.name)) (p.spec.embedded p.objectMeta.name)) ∧
    ∀ p : V1.PipelineRun α τ, p.StatusSurvives c ↔
      Readable c .pipelineRunResources p.objectMeta.annotations ∧ p.status.AllPlain ∧
        Returned (shelf c p.objectMeta.annotations) p.status.embedded ∧
        Accepted (DeprecationShelf.without (shelf c p.objectMeta.annotations) p.status.embedded)
          p.spec.embedded :=
  ⟨taskRun_status_survives_iff c, pipelineRun_status_survives_iff c⟩

/-- A TaskRun whose step `push` put out an image as a build output. -/
def pushed : V1.TaskRun Unit (Text Unit) :=
  { objectMeta := { name := "push-run" }
    spec := { taskRef := some { name := "push" } }
    status :=
      { steps :=
          [{ name := "push"
             container := "step-push"
             outputs :=
               [{ name := "image"
                  values := [{ digest := [("sha256", "4d2c")], uri := "registry/app" }]
                  buildOutput := true }] }] } }

theorem pushed_not_survives : ¬ pushed.StatusSurvives (Codec.ofText Unit) := by
  intro h
  have hplain : pushed.status.AllPlain := ((taskRun_status_survives_iff _ _).mp h).2.2.1
  have hstep := hplain.1.1 _ List.mem_cons_self
  exact absurd (hstep.2.2.1 _ List.mem_cons_self) (by decide)

end TektonPipeline.Conversion
