import TektonPipeline.Conversion.Deprecations

/-! The four kinds of v1beta1 objects converted to v1 and back: when the deprecated fields of
all their task specs are the same. -/

namespace TektonPipeline.Conversion
open V1Beta1 List

variable {α τ : Type}

/-! The task specs of the objects, in the order in which they are converted. -/

namespace V1Beta1

def PipelineTask.embedded (pt : PipelineTask α) : List (String × TaskSpec α) :=
  pt.taskSpec.elim [] fun et => [(pt.name, et.taskSpec)]

def PipelineSpec.embedded (ps : PipelineSpec α) : List (String × TaskSpec α) :=
  ps.tasks.flatMap PipelineTask.embedded ++ ps.finallyTasks.flatMap PipelineTask.embedded

mutual
def PipelineSpec.everySpec : PipelineSpec α → List (TaskSpec α)
  | { tasks, finallyTasks, .. } => everySpecOf tasks ++ everySpecOf finallyTasks

def PipelineTask.everySpec : PipelineTask α → List (TaskSpec α)
  | { taskSpec, pipelineSpec, .. } =>
    (taskSpec.elim [] fun et => [et.taskSpec]) ++
      match pipelineSpec with
      | none => []
      | some ps => ps.everySpec

def everySpecOf : List (PipelineTask α) → List (TaskSpec α)
  | [] => []
  | pt :: tasks => pt.everySpec ++ everySpecOf tasks
end

def PipelineSpec.nested (ps : PipelineSpec α) : List (TaskSpec α) :=
  (ps.tasks ++ ps.finallyTasks).flatMap fun pt => pt.pipelineSpec.elim [] PipelineSpec.everySpec

end V1Beta1

variable {c : Codec α τ} {a a' : Annotations τ}

section
variable {k : Kept} {value : Option α}

section
variable (h : serialize c k value a = .ok ((), a'))
include h

theorem readable_serialize_iff : Readable c k a' ↔ (value.isSome = true ∨ Readable c k a) := by
  cases value with
  | none =>
    obtain ⟨-, rfl⟩ := Prod.mk.inj (Except.ok.inj h)
    simp
  | some v =>
    obtain ⟨-, rfl⟩ := Prod.mk.inj (Except.ok.inj h)
    simp [Readable, lookup_annotate, c.unmarshal_marshal k v]

theorem lookup_serialize {key : String} (hkey : key ≠ k.key) : a'.lookup key = a.lookup key := by
  cases value with
  | none =>
    obtain ⟨-, rfl⟩ := Prod.mk.inj (Except.ok.inj h)
    rfl
  | some v =>
    obtain ⟨-, rfl⟩ := Prod.mk.inj (Except.ok.inj h)
    rw [lookup_annotate, if_neg hkey]

theorem shelf_serialize : shelf c a' = shelf c a := by
  obtain ⟨b, hb, hshelf⟩ := serialize_eq_ok c k value a
  obtain ⟨-, rfl⟩ := Prod.mk.inj (Except.ok.inj (hb.symm.trans h))
  exact hshelf

end

theorem readable_convertTo_iff {X X' : Type} (t : Trip c X X') {q : X'} {x : X}
    (h : t.convertTo q a = .ok (x, a')) : Readable c k a' ↔ Readable c k a := by
  have hframe := congrFun (t.shelf_of_convertTo h).2.2 k.key
  rw [otherAnnotations_key, otherAnnotations_key] at hframe
  exact readable_congr hframe

end

/-- Something is kept in an annotation of its own, the value is converted to v1, and both ways
are gone back. -/
def Trip.BackWith {c : Codec α τ} {X X' : Type} (t : Trip c X X') (k : Kept) (value : Option α)
    (q₀ : X') (a : Annotations τ) (P : X' → Prop) : Prop :=
  ∃ a₁ x a₂ v a₃ q a₄, serialize c k value a = .ok ((), a₁) ∧ t.convertTo q₀ a₁ = .ok (x, a₂) ∧
    deserialize c k a₂ = .ok (v, a₃) ∧ t.convertFrom x a₃ = .ok (q, a₄) ∧ P q

theorem Trip.backWith_iff {X X' : Type} (t : Trip c X X') (k : Kept)
    (value : Option α) (q₀ : X') (a : Annotations τ) :
    t.BackWith k value q₀ a (fun q => t.deprecations q = t.deprecations q₀) ↔
      (value.isSome = true ∨ Readable c k a) ∧ Parkable (shelf c a) (t.embedded' q₀) := by
  constructor
  · rintro ⟨a₁, x, a₂, v, a₃, q, a₄, hser, hto, hdes, hfrom, hsame⟩
    refine ⟨?_, ?_⟩
    · rw [← readable_serialize_iff hser, ← readable_convertTo_iff t hto]
      exact readable_of_deserialize hdes
    · rw [← shelf_serialize hser]
      exact t.parkable hto (shelf_of_deserialize hdes) hfrom hsame
  · rintro ⟨hread, hpark⟩
    obtain ⟨a₁, hser, hshelf⟩ := serialize_eq_ok c k value a
    rw [← hshelf] at hpark
    obtain ⟨a₂, hto, hback⟩ := t.kept hpark
    rw [← readable_serialize_iff hser, ← readable_convertTo_iff t hto] at hread
    obtain ⟨v, a₃, hdes⟩ := deserialize_returns hread
    obtain ⟨q, a₄, hfrom, hsame⟩ := hback a₃ (shelf_of_deserialize hdes)
    exact ⟨a₁, _, a₂, v, a₃, q, a₄, hser, hto, hdes, hfrom, hsame⟩

/-! Tasks and Pipelines have a spec only. -/

theorem Task.convertFrom_gives_iff (c : Codec α τ) (p : V1.Task α τ) {P : Task α τ → Prop} :
    (∃ q, Task.convertFrom c p = .ok q ∧ P q) ↔ ∃ v a₁,
      deserialize c .taskResources p.objectMeta.annotations = .ok (v, a₁) ∧ ∃ spec a₂,
      (taskSpec c p.objectMeta.name).convertFrom p.spec a₁ = .ok (spec, a₂) ∧
        P { objectMeta := { p.objectMeta with annotations := a₂ }
            spec := { spec with resources := v } } := by
  refine written_gives_iff.trans ?_
  simp only [Follows.gives_bind_iff, Follows.gives_pure_iff]
  rfl

theorem Task.convertTo_gives_iff (c : Codec α τ) (q : Task α τ) {P : V1.Task α τ → Prop} :
    (∃ p, q.convertTo c = .ok p ∧ P p) ↔ ∃ u a₁,
      serialize c .taskResources q.spec.resources q.objectMeta.annotations = .ok (u, a₁) ∧
      ∃ spec a₂, (taskSpec c q.objectMeta.name).convertTo q.spec a₁ = .ok (spec, a₂) ∧
        P { objectMeta := { q.objectMeta with annotations := a₂ }, spec } :=
  written_gives_iff.trans Follows.gives_bind_iff

def V1Beta1.Task.DeprecatedKept (c : Codec α τ) (q : Task α τ) : Prop :=
  ∃ p q', q.convertTo c = .ok p ∧ Task.convertFrom c p = .ok q' ∧
    q'.spec.deprecation = q.spec.deprecation

theorem task_deprecated_kept_iff (c : Codec α τ) (q : Task α τ) : q.DeprecatedKept c ↔
      (q.spec.resources.isSome = true ∨ Readable c .taskResources q.objectMeta.annotations) ∧
      Parkable (shelf c q.objectMeta.annotations) [(q.objectMeta.name, q.spec)] := by
  refine Iff.trans ?_ ((taskSpec c q.objectMeta.name).backWith_iff .taskResources
    q.spec.resources q.spec q.objectMeta.annotations)
  simp only [Task.DeprecatedKept, exists_and_left, Task.convertTo_gives_iff,
    Task.convertFrom_gives_iff]
  constructor
  · rintro ⟨⟨⟩, a₁, hser, spec, a₂, hspec, v, a₃, hdes, spec', a₄, hspec', hsame⟩
    exact ⟨a₁, spec, a₂, v, a₃, spec', a₄, hser, hspec, hdes, hspec', singleton_inj.mpr hsame⟩
  · rintro ⟨a₁, spec, a₂, v, a₃, spec', a₄, hser, hspec, hdes, hspec', hsame⟩
    exact ⟨(), a₁, hser, spec, a₂, hspec, v, a₃, hdes, spec', a₄, hspec', singleton_inj.mp hsame⟩

/-- A Pipeline's own task specs have the same deprecated fields, and so have those of the
pipelines inside its tasks. -/
def V1Beta1.PipelineSpec.SameDeprecated (new old : PipelineSpec α) : Prop :=
  (new.embedded.map fun e => e.2.deprecation) = (old.embedded.map fun e => e.2.deprecation) ∧
    new.nested.map TaskSpec.deprecation = old.nested.map TaskSpec.deprecation

theorem convertEach_forall {A B : Type} {f : A → Convert τ B} {P : B → Prop}
    (h : ∀ x a y a', f x a = .ok (y, a') → P y) {l : List A} {ys : List B}
    (hrun : convertEach f l a = .ok (ys, a')) : ∀ y ∈ ys, P y := by
  induction l generalizing ys a a' with
  | nil =>
    obtain ⟨rfl, -⟩ := Follows.pure_eq_ok_iff.mp hrun
    simp
  | cons x l ih =>
    obtain ⟨y, a₁, hy, hrun⟩ := Follows.bind_eq_ok_iff.mp hrun
    obtain ⟨ys', a₂, hys, hrun⟩ := Follows.bind_eq_ok_iff.mp hrun
    obtain ⟨rfl, -⟩ := Follows.pure_eq_ok_iff.mp hrun
    rw [forall_mem_cons]
    exact ⟨h x a y a₁ hy, ih hys⟩

theorem nested_of_convertFrom {ps : V1.PipelineSpec α} {spec : PipelineSpec α}
    (h : PipelineSpec.convertFrom c ps a = .ok (spec, a')) :
    spec.nested = [] := by
  have htask : ∀ (pt : V1.PipelineTask α) a pt' a',
      PipelineTask.convertFrom c pt a = .ok (pt', a') → pt'.pipelineSpec = none := by
    intro pt a pt' a' hrun
    obtain ⟨ts, a₁, -, hrun⟩ := Follows.bind_eq_ok_iff.mp hrun
    obtain ⟨rfl, -⟩ := Follows.pure_eq_ok_iff.mp hrun
    rfl
  obtain ⟨tasks, a₁, htasks, h⟩ := Follows.bind_eq_ok_iff.mp h
  obtain ⟨finallyTasks, a₂, hfinally, h⟩ := Follows.bind_eq_ok_iff.mp h
  obtain ⟨rfl, -⟩ := Follows.pure_eq_ok_iff.mp h
  refine flatMap_eq_nil_iff.mpr fun pt hpt => ?_
  obtain hpt | hpt := mem_append.mp hpt
  · rw [convertEach_forall htask htasks pt hpt]
    rfl
  · rw [convertEach_forall htask hfinally pt hpt]
    rfl

theorem sameDeprecated_iff {ps : V1.PipelineSpec α} {new : PipelineSpec α}
    (h : PipelineSpec.convertFrom c ps a = .ok (new, a'))
    (old : PipelineSpec α) : new.SameDeprecated old ↔
      (pipelineSpec c).deprecations new = (pipelineSpec c).deprecations old ∧ old.nested = [] := by
  rw [PipelineSpec.SameDeprecated, nested_of_convertFrom h, map_nil, eq_comm (a := []),
    map_eq_nil_iff]
  rfl

def V1Beta1.Pipeline.DeprecatedKept (c : Codec α τ) (q : Pipeline α τ) : Prop :=
  ∃ p q', q.convertTo c = .ok p ∧ Pipeline.convertFrom c p = .ok q' ∧
    q'.spec.SameDeprecated q.spec

theorem pipeline_deprecated_kept_iff (c : Codec α τ) (q : Pipeline α τ) : q.DeprecatedKept c ↔
      (q.spec.resources.isSome = true ∨ Readable c .pipelineResources q.objectMeta.annotations) ∧
      Parkable (shelf c q.objectMeta.annotations) q.spec.embedded ∧ q.spec.nested = [] := by
  rw [← and_assoc]
  refine Iff.trans ?_ (and_congr_left' ((pipelineSpec c).backWith_iff .pipelineResources
    q.spec.resources q.spec q.objectMeta.annotations))
  simp only [Pipeline.DeprecatedKept, exists_and_left, Pipeline.convertTo_gives_iff,
    Pipeline.convertFrom_gives_iff]
  constructor
  · rintro ⟨⟨⟩, a₁, hser, spec, a₂, hspec, v, a₃, hdes, spec', a₄, hspec', hsame⟩
    obtain ⟨hsame, hnested⟩ := (sameDeprecated_iff hspec' q.spec).mp hsame
    exact ⟨⟨a₁, spec, a₂, v, a₃, spec', a₄, hser, hspec, hdes, hspec', hsame⟩, hnested⟩
  · rintro ⟨⟨a₁, spec, a₂, v, a₃, spec', a₄, hser, hspec, hdes, hspec', hsame⟩, hnested⟩
    exact ⟨(), a₁, hser, spec, a₂, hspec, v, a₃, hdes, spec', a₄, hspec',
      (sameDeprecated_iff hspec' q.spec).mpr ⟨hsame, hnested⟩⟩

/-! A PipelineRun has the pipeline in its spec or in its status or both. -/

theorem option_sameDeprecated_iff {old new : Option (PipelineSpec α)}
    (h : (pipelineSpec c).option.convertFrom (old.map PipelineSpec.toV1) a = .ok (new, a')) :
    Option.Rel PipelineSpec.SameDeprecated new old ↔
      (pipelineSpec c).option.deprecations new = (pipelineSpec c).option.deprecations old ∧
        ∀ ps ∈ old, ps.nested = [] := by
  cases old with
  | none =>
    obtain ⟨rfl, -⟩ := Follows.pure_eq_ok_iff.mp h
    simp
  | some ps =>
    obtain ⟨spec, a₁, hspec, h⟩ := Follows.bind_eq_ok_iff.mp h
    obtain ⟨rfl, -⟩ := Follows.pure_eq_ok_iff.mp h
    simpa [Trip.deprecations, Trip.option] using sameDeprecated_iff hspec ps

theorem pipelineRunStatus_convertFrom {source : V1.PipelineRunStatus α}
    {status : PipelineRunStatus α}
    (h : (pipelineRunStatus c).convertFrom source a = .ok (status, a')) :
    (pipelineSpec c).option.convertFrom source.pipelineSpec a = .ok (status.pipelineSpec, a') := by
  obtain ⟨ps, a₁, hps, h⟩ := Follows.bind_eq_ok_iff.mp h
  obtain ⟨rfl, rfl⟩ := Follows.pure_eq_ok_iff.mp h
  exact hps

theorem pipelineRunSpec_convertFrom {source : V1.PipelineRunSpec α} {spec : PipelineRunSpec α}
    (h : (pipelineRunSpec c).convertFrom source a = .ok (spec, a')) :
    (pipelineSpec c).option.convertFrom source.pipelineSpec a = .ok (spec.pipelineSpec, a') := by
  obtain ⟨ps, a₁, hps, h⟩ := Follows.bind_eq_ok_iff.mp h
  obtain ⟨rfl, rfl⟩ := Follows.pure_eq_ok_iff.mp h
  exact hps

/-- Converted to v1 and back, the pipelines of the PipelineRun have the same deprecated
fields. -/
def V1Beta1.PipelineRun.DeprecatedKept (c : Codec α τ) (q : PipelineRun α τ) : Prop :=
  ∃ p q', q.convertTo c = .ok p ∧ PipelineRun.convertFrom c p = .ok q' ∧
    Option.Rel PipelineSpec.SameDeprecated q'.status.pipelineSpec q.status.pipelineSpec ∧
    Option.Rel PipelineSpec.SameDeprecated q'.spec.pipelineSpec q.spec.pipelineSpec

/-- The task specs of the status come before those of the spec. -/
def V1Beta1.PipelineRun.embedded (q : PipelineRun α τ) : List (String × TaskSpec α) :=
  q.status.pipelineSpec.elim [] PipelineSpec.embedded ++
    q.spec.pipelineSpec.elim [] PipelineSpec.embedded

def V1Beta1.PipelineRun.NothingNested (q : PipelineRun α τ) : Prop :=
  (∀ ps ∈ q.status.pipelineSpec, ps.nested = []) ∧ ∀ ps ∈ q.spec.pipelineSpec, ps.nested = []

theorem pipelineRun_deprecated_kept_iff (c : Codec α τ) (q : PipelineRun α τ) : q.DeprecatedKept c ↔
      (q.spec.resources.isSome = true ∨ Readable c .pipelineRunResources q.objectMeta.annotations) ∧
      Parkable (shelf c q.objectMeta.annotations) q.embedded ∧ q.NothingNested := by
  rw [← and_assoc]
  refine Iff.trans ?_
    (and_congr_left' (((pipelineRunStatus c).pair (pipelineRunSpec c)).backWith_iff
    .pipelineRunResources q.spec.resources (q.status, q.spec) q.objectMeta.annotations))
  simp only [PipelineRun.DeprecatedKept, exists_and_left, PipelineRun.convertTo_gives_iff,
    PipelineRun.convertFrom_gives_iff]
  constructor
  · rintro ⟨⟨⟩, a₁, hser, r, a₂, hpair, v, a₃, hdes, r', a₄, hback, hsame₁, hsame₂⟩
    obtain ⟨rfl, -⟩ := Trip.shelf_of_convertTo _ hpair
    obtain ⟨a₅, hstatus, hspec⟩ := (Trip.pair_convertFrom_eq_ok_iff _ _).mp hback
    obtain ⟨hsame₁, hnested₁⟩ :=
      (option_sameDeprecated_iff (pipelineRunStatus_convertFrom hstatus)).mp hsame₁
    obtain ⟨hsame₂, hnested₂⟩ :=
      (option_sameDeprecated_iff (pipelineRunSpec_convertFrom hspec)).mp hsame₂
    exact ⟨⟨a₁, _, a₂, v, a₃, r', a₄, hser, hpair, hdes, hback,
      (Trip.pair_deprecations_iff _ _ hstatus).mpr ⟨hsame₁, hsame₂⟩⟩, hnested₁, hnested₂⟩
  · rintro ⟨⟨a₁, r, a₂, v, a₃, r', a₄, hser, hpair, hdes, hback, hsame⟩, hnested₁, hnested₂⟩
    obtain ⟨rfl, -⟩ := Trip.shelf_of_convertTo _ hpair
    obtain ⟨a₅, hstatus, hspec⟩ := (Trip.pair_convertFrom_eq_ok_iff _ _).mp hback
    obtain ⟨hsame₁, hsame₂⟩ := (Trip.pair_deprecations_iff _ _ hstatus).mp hsame
    exact ⟨(), a₁, hser, _, a₂, hpair, v, a₃, hdes, r', a₄, hback,
      (option_sameDeprecated_iff (pipelineRunStatus_convertFrom hstatus)).mpr ⟨hsame₁, hnested₁⟩,
      (option_sameDeprecated_iff (pipelineRunSpec_convertFrom hspec)).mpr ⟨hsame₂, hnested₂⟩⟩

/-! A TaskRun. What it has in annotations beside deprecated fields is written before its status
and its spec are converted. -/

theorem readable_serialize_of_ne {k k' : Kept} {value : Option α}
    (h : serialize c k value a = .ok ((), a')) (hne : k'.key ≠ k.key) :
    Readable c k' a' ↔ Readable c k' a :=
  readable_congr (lookup_serialize h hne)

def V1Beta1.TaskRun.resources (q : TaskRun α τ) : List (Kept × Option α) :=
  [(.taskRunResources, q.spec.resources), (.cloudEvents, q.status.cloudEvents),
    (.resourcesResult, q.status.resourcesResult),
    (.resourcesStatus, q.status.taskSpec.bind (·.resources))]

/-- Each value is there, and then written over what the annotation was, or else what the
annotation was can be read. -/
def V1Beta1.TaskRun.ResourcesReadable (c : Codec α τ) (q : TaskRun α τ) : Prop :=
  ∀ r ∈ q.resources, r.2.isSome = true ∨ Readable c r.1 q.objectMeta.annotations

theorem resourcesReadable_of_convertTo {q : TaskRun α τ} {p : V1.TaskRun α τ}
    (h : q.convertTo c = .ok p) : p.ResourcesReadable c ↔ q.ResourcesReadable c := by
  obtain ⟨⟨⟩, a₁, h₁, ⟨⟩, a₂, h₂, ⟨⟩, a₃, h₃, ⟨⟩, a₄, h₄, r, a₅, hpair, rfl⟩ :=
    (TaskRun.convertTo_gives_iff c q (P := (p = ·))).mp ⟨p, h, rfl⟩
  have hresources := readable_serialize_iff h₁
  have hevents := readable_serialize_iff h₂
  have hresult := readable_serialize_iff h₃
  have hstatus := readable_serialize_iff h₄
  rw [← readable_serialize_of_ne h₂ (by decide), ← readable_serialize_of_ne h₃ (by decide),
    ← readable_serialize_of_ne h₄ (by decide)] at hresources
  rw [← readable_serialize_of_ne h₃ (by decide), ← readable_serialize_of_ne h₄ (by decide),
    readable_serialize_of_ne h₁ (by decide)] at hevents
  rw [← readable_serialize_of_ne h₄ (by decide), readable_serialize_of_ne h₂ (by decide),
    readable_serialize_of_ne h₁ (by decide)] at hresult
  rw [readable_serialize_of_ne h₃ (by decide), readable_serialize_of_ne h₂ (by decide),
    readable_serialize_of_ne h₁ (by decide)] at hstatus
  simp [V1.TaskRun.ResourcesReadable, TaskRun.ResourcesReadable, TaskRun.resources,
    readable_convertTo_iff _ hpair, hresources, hevents, hresult, hstatus]

/-- The task specs of the status, those of its retries first, come before that of the spec. -/
def V1Beta1.TaskRun.embedded (q : TaskRun α τ) : List (String × TaskSpec α) :=
  q.status.embedded q.objectMeta.name ++
    q.spec.taskSpec.elim [] fun ts => [(q.objectMeta.name, ts)]

/-- The retries, the status and the spec have the same deprecated fields. A status that had no
task spec may have got one. -/
def V1Beta1.TaskRun.SameDeprecated (new old : TaskRun α τ) : Prop :=
  ((retriesEmbedded new.objectMeta.name new.status.retriesStatus).map fun e =>
      e.2.deprecation) =
    ((retriesEmbedded old.objectMeta.name old.status.retriesStatus).map fun e =>
      e.2.deprecation) ∧
  (∀ ts ∈ old.status.taskSpec, new.status.taskSpec.map TaskSpec.deprecation =
    some ts.deprecation) ∧
  new.spec.taskSpec.map TaskSpec.deprecation = old.spec.taskSpec.map TaskSpec.deprecation

def V1Beta1.TaskRun.DeprecatedKept (c : Codec α τ) (q : TaskRun α τ) : Prop :=
  ∃ p q', q.convertTo c = .ok p ∧ TaskRun.convertFrom c p = .ok q' ∧ q'.SameDeprecated q

theorem deprecations_option (o : Option (TaskSpec α)) (name : String) :
    ((o.elim [] fun ts => [(name, ts)]).map fun e => e.2.deprecation) =
      (o.map TaskSpec.deprecation).toList := by
  cases o <;> rfl

theorem taskRunStatus_deprecations (c : Codec α τ) (name : String) (trs : TaskRunStatus α) :
    (taskRunStatus c name).deprecations trs =
      ((retriesEmbedded name trs.retriesStatus).map fun e => e.2.deprecation) ++
        (trs.taskSpec.map TaskSpec.deprecation).toList := by
  cases trs
  rw [← deprecations_option _ name, ← map_append]
  rfl

theorem deprecation_withResources {trs : TaskRunStatus α} {ts : TaskSpec α}
    (h : trs.taskSpec = some ts) (cloudEvents resourcesResult v : Option α) :
    ({ trs with cloudEvents, resourcesResult }.withResources v).taskSpec.map
      TaskSpec.deprecation = some ts.deprecation := by
  cases trs
  subst h
  cases v <;> rfl

theorem retriesStatus_withResources (trs : TaskRunStatus α)
    (cloudEvents resourcesResult v : Option α) :
    ({ trs with cloudEvents, resourcesResult }.withResources v).retriesStatus =
      trs.retriesStatus := by
  cases trs
  cases v <;> rfl

theorem taskRunStatus_same_iff {name : String} {new old : TaskRunStatus α}
    (hsome : new.taskSpec.isSome = old.taskSpec.isSome)
    (cloudEvents resourcesResult v : Option α) :
    (taskRunStatus c name).deprecations new = (taskRunStatus c name).deprecations old ↔
      let trs := { new with cloudEvents, resourcesResult }.withResources v
      ((retriesEmbedded name trs.retriesStatus).map fun e => e.2.deprecation) =
          ((retriesEmbedded name old.retriesStatus).map fun e => e.2.deprecation) ∧
        ∀ ts ∈ old.taskSpec, trs.taskSpec.map TaskSpec.deprecation = some ts.deprecation := by
  simp only [taskRunStatus_deprecations, retriesStatus_withResources]
  cases hold : old.taskSpec with
  | none =>
    have hnew : new.taskSpec = none := by simpa [hold] using hsome
    simp [hnew]
  | some ts =>
    obtain ⟨ts', hnew⟩ : ∃ ts', new.taskSpec = some ts' := by
      rwa [hold, Option.isSome_some, Option.isSome_iff_exists] at hsome
    simp only [deprecation_withResources hnew, Option.mem_def, Option.some.injEq, forall_eq']
    rw [hnew, Option.map_some, Option.map_some, Option.toList_some, Option.toList_some]
    constructor
    · intro h
      obtain ⟨hretries, hspec⟩ := append_inj' h rfl
      exact ⟨hretries, head_eq_of_cons_eq hspec⟩
    · rintro ⟨hretries, hspec⟩
      rw [hretries, hspec]

theorem taskRunSpec_same_iff {name : String} {new old : TaskRunSpec α} :
    (taskRunSpec c name).deprecations new = (taskRunSpec c name).deprecations old ↔
      new.taskSpec.map TaskSpec.deprecation = old.taskSpec.map TaskSpec.deprecation := by
  have hlist : ∀ trs, (taskRunSpec c name).deprecations trs =
      (trs.taskSpec.map TaskSpec.deprecation).toList :=
    fun trs => deprecations_option trs.taskSpec name
  rw [hlist, hlist]
  cases new.taskSpec <;> cases old.taskSpec <;> simp

theorem taskSpec_isSome_toV1 (trs : TaskRunStatus α) :
    trs.toV1.taskSpec.isSome = trs.taskSpec.isSome := by
  cases trs
  exact Option.isSome_map

theorem taskRun_deprecated_kept_iff (c : Codec α τ) (q : TaskRun α τ) :
    q.DeprecatedKept c ↔ q.ResourcesReadable c ∧
      Parkable (shelf c q.objectMeta.annotations) q.embedded := by
  obtain ⟨b, hb, hwritten⟩ := TaskRun.exists_written c q
  constructor
  · rintro ⟨p, q', hto, hfrom, hretries, hstatus, hspec⟩
    rw [← resourcesReadable_of_convertTo hto]
    obtain ⟨r, b₅, hpair, rfl⟩ := (hwritten (p = ·)).mp ⟨p, hto, rfl⟩
    obtain ⟨status, spec, v₁, v₂, v₃, v₄, a₆, ⟨a₁, a₂, a₃, a₄, a₅, h₁, h₂, h₃, h₄, h₅, h₆⟩, rfl⟩ :=
      (TaskRun.convertFrom_gives_iff c _ (P := (q' = ·))).mp ⟨q', hfrom, rfl⟩
    obtain ⟨rfl, -⟩ := Trip.shelf_of_convertTo _ hpair
    have hsome := (taskSpec_isSome_of_convertFrom h₄).trans (taskSpec_isSome_toV1 q.status)
    have hshelf := shelf_of_deserializes h₁ h₂ h₃
    have hlookup := lookup_resourcesStatus h₁ h₂ h₃ h₄
    refine ⟨V1.TaskRun.resourcesReadable_iff.mpr ⟨v₁, a₁, v₂, a₂, v₃, a₃, h₁, h₂, h₃,
      (readable_congr hlookup).mp (readable_of_deserialize h₅)⟩, ?_⟩
    rw [← hb]
    exact Trip.pair_parkable _ _ hpair hshelf h₄ (shelf_of_deserialize h₅) h₆
      ((taskRunStatus_same_iff hsome v₂ v₃ v₄).mpr ⟨hretries, hstatus⟩)
      (taskRunSpec_same_iff.mpr hspec)
  · rintro ⟨hread, hpark⟩
    rw [← hb] at hpark
    obtain ⟨b', hpair, hback⟩ :
        ∃ b', ((taskRunStatus c q.objectMeta.name).pair
          (taskRunSpec c q.objectMeta.name)).convertTo (q.status, q.spec) b = _ ∧ _ :=
      Trip.pair_kept _ _ hpark
    obtain ⟨p, hto, rfl⟩ := (hwritten (· = _)).mpr ⟨_, b', hpair, rfl⟩
    obtain ⟨v₁, a₁, v₂, a₂, v₃, a₃, h₁, h₂, h₃, hr₄⟩ :=
      V1.TaskRun.resourcesReadable_iff.mp ((resourcesReadable_of_convertTo hto).mpr hread)
    obtain ⟨status, a₄, h₄, hback⟩ := hback a₃ (shelf_of_deserializes h₁ h₂ h₃)
    have hlookup := lookup_resourcesStatus h₁ h₂ h₃ h₄
    obtain ⟨v₄, a₅, h₅⟩ := deserialize_returns ((readable_congr hlookup).mpr hr₄)
    obtain ⟨spec, a₆, h₆, hstatus, hspec⟩ := hback a₅ (shelf_of_deserialize h₅)
    have hsome := (taskSpec_isSome_of_convertFrom h₄).trans (taskSpec_isSome_toV1 q.status)
    obtain ⟨hretries, hstatus⟩ := (taskRunStatus_same_iff hsome v₂ v₃ v₄).mp hstatus
    exact ⟨_, exists_and_left.mpr ⟨hto, (TaskRun.convertFrom_gives_iff c _).mpr ⟨status, spec, v₁,
      v₂, v₃, v₄, a₆, ⟨a₁, a₂, a₃, a₄, a₅, h₁, h₂, h₃, h₄, h₅, h₆⟩, hretries, hstatus,
      taskRunSpec_same_iff.mp hspec⟩⟩⟩

theorem deprecated_fields_kept_iff (c : Codec α τ) : (∀ q : Task α τ, q.DeprecatedKept c ↔
      (q.spec.resources.isSome = true ∨ Readable c .taskResources q.objectMeta.annotations) ∧
        Parkable (shelf c q.objectMeta.annotations) [(q.objectMeta.name, q.spec)]) ∧
    (∀ q : TaskRun α τ, q.DeprecatedKept c ↔ q.ResourcesReadable c ∧
      Parkable (shelf c q.objectMeta.annotations) q.embedded) ∧
    (∀ q : Pipeline α τ, q.DeprecatedKept c ↔ (q.spec.resources.isSome = true ∨
        Readable c .pipelineResources q.objectMeta.annotations) ∧
      Parkable (shelf c q.objectMeta.annotations) q.spec.embedded ∧ q.spec.nested = []) ∧
    ∀ q : PipelineRun α τ, q.DeprecatedKept c ↔ (q.spec.resources.isSome = true ∨
        Readable c .pipelineRunResources q.objectMeta.annotations) ∧
      Parkable (shelf c q.objectMeta.annotations) q.embedded ∧ q.NothingNested :=
  ⟨task_deprecated_kept_iff c, taskRun_deprecated_kept_iff c, pipeline_deprecated_kept_iff c,
    pipelineRun_deprecated_kept_iff c⟩

def interactive : TaskSpec Unit :=
  { steps := [{ name := "shell", deprecatedTTY := true }] }

def interactiveRun : TaskRun Unit (Text Unit) :=
  { objectMeta := { name := "run" }
    spec := { taskSpec := some interactive }
    status := { taskSpec := some interactive } }

theorem interactiveRun_not_kept : ¬ interactiveRun.DeprecatedKept (Codec.ofText Unit) := by
  intro h
  have hlater := ((taskRun_deprecated_kept_iff _ _).mp h).2.later
  have hblank : interactive.Blank := (pairwise_cons.mp hlater).1 _ mem_cons_self rfl
  exact absurd (hblank.1 _ mem_cons_self) (by simp)

end TektonPipeline.Conversion
