import TektonPipeline.Conversion.RoundTrip

/-! A v1 Pipeline or PipelineRun converted to v1beta1 and back: when its spec is the same. -/

namespace TektonPipeline.Conversion
open V1Beta1

variable {α τ : Type}

/-! The task specs of a pipeline, by the names of their tasks. -/

def V1.PipelineTask.embedded (pt : V1.PipelineTask α) : List (String × V1.TaskSpec α) :=
  pt.taskSpec.elim [] fun et => [(pt.name, et.taskSpec)]

def V1.PipelineSpec.embedded (ps : V1.PipelineSpec α) : List (String × V1.TaskSpec α) :=
  ps.tasks.flatMap V1.PipelineTask.embedded ++ ps.finallyTasks.flatMap V1.PipelineTask.embedded

def V1.PipelineRunSpec.embedded (prs : V1.PipelineRunSpec α) : List (String × V1.TaskSpec α) :=
  prs.pipelineSpec.elim [] V1.PipelineSpec.embedded

def V1.PipelineRunStatus.embedded (prs : V1.PipelineRunStatus α) : List (String × V1.TaskSpec α) :=
  prs.pipelineSpec.elim [] V1.PipelineSpec.embedded

def V1.PipelineSpec.AllPlain (ps : V1.PipelineSpec α) : Prop :=
  ps.Plain ∧ (∀ t ∈ ps.tasks, t.Plain) ∧ ∀ t ∈ ps.finallyTasks, t.Plain

def V1.PipelineRunSpec.AllPlain (prs : V1.PipelineRunSpec α) : Prop :=
  prs.Plain ∧ ∀ ps ∈ prs.pipelineSpec, ps.AllPlain

theorem pipelineSpec_plain_iff (c : Codec α τ) (ps : V1.PipelineSpec α) :
    (pipelineSpec c).Plain ps ↔ ps.AllPlain := by
  simp [pipelineSpec, pipelineTask, embeddedTask, taskSpec, Trip.pair, Trip.list, Trip.along,
    Trip.option, V1.PipelineSpec.AllPlain]

theorem pipelineRunSpec_plain_iff (c : Codec α τ) (prs : V1.PipelineRunSpec α) :
    (pipelineRunSpec c).Plain prs ↔ prs.AllPlain := by
  simp only [pipelineRunSpec, Trip.along, Trip.option, pipelineSpec_plain_iff,
    V1.PipelineRunSpec.AllPlain]

theorem written_gives_iff {A B : Type} {m : Convert τ A} {f : A × Annotations τ → B}
    {a : Annotations τ} {P : B → Prop} :
    (∃ b, (m.run a >>= fun r => pure (f r) : Except String B) = .ok b ∧ P b) ↔
      ∃ x a', m a = .ok (x, a') ∧ P (f (x, a')) := by
  rw [StateT.run]
  cases m a with
  | error e => simp [Bind.bind, Except.bind]
  | ok r =>
    obtain ⟨x, a'⟩ := r
    simp [Bind.bind, Except.bind, pure, Except.pure]

theorem deserialize_then_iff {c : Codec α τ} {k : Kept} {a : Annotations τ}
    (Q : DeprecationShelf α → Prop) :
    (∃ v a₁, deserialize c k a = .ok (v, a₁) ∧ Q (shelf c a₁)) ↔
      Readable c k a ∧ Q (shelf c a) := by
  constructor
  · rintro ⟨v, a₁, hres, hQ⟩
    exact ⟨readable_of_deserialize hres, shelf_of_deserialize hres ▸ hQ⟩
  · rintro ⟨hread, hQ⟩
    obtain ⟨v, a₁, hres⟩ := deserialize_returns hread
    exact ⟨v, a₁, hres, (shelf_of_deserialize hres).symm ▸ hQ⟩

/-- What a value became goes back to v1 after the resources found before it. -/
theorem Trip.round_trip_iff {c : Codec α τ} {X X' : Type} (t : Trip c X X') {k : Kept} {x : X}
    {a : Annotations τ} {P : X → Prop} :
    (∃ v a₁, deserialize c k a = .ok (v, a₁) ∧ ∃ q a₂, t.convertFrom x a₁ = .ok (q, a₂) ∧
      ∃ u a₃, serialize c k v a₂ = .ok (u, a₃) ∧ ∃ x' a₄, t.convertTo q a₃ = .ok (x', a₄) ∧ P x') ↔
      ∃ v a₁, deserialize c k a = .ok (v, a₁) ∧
        ∃ q a₂, t.convertFrom x a₁ = .ok (q, a₂) ∧ P (t.toV1 q) := by
  refine exists₂_congr fun v a₁ => and_congr_right fun _ =>
    exists₂_congr fun q a₂ => and_congr_right fun hfrom => ?_
  obtain ⟨a₃, hser, hshelf⟩ := serialize_eq_ok c k v a₂
  obtain ⟨a₄, hto⟩ := t.convertTo_returns hfrom hshelf
  simp [hser, hto]

section
variable (c : Codec α τ) (p : V1.Pipeline α τ)

theorem Pipeline.convertFrom_gives_iff {P : Pipeline α τ → Prop} :
    (∃ q, Pipeline.convertFrom c p = .ok q ∧ P q) ↔ ∃ v a₁,
      deserialize c .pipelineResources p.objectMeta.annotations = .ok (v, a₁) ∧ ∃ spec a₂,
      (pipelineSpec c).convertFrom p.spec a₁ = .ok (spec, a₂) ∧
        P { objectMeta := { p.objectMeta with annotations := a₂ }
            spec := { spec with resources := v } } := by
  refine written_gives_iff.trans ?_
  simp only [Follows.gives_bind_iff, Follows.gives_pure_iff]
  rfl

theorem Pipeline.convertTo_gives_iff (q : Pipeline α τ) {P : V1.Pipeline α τ → Prop} :
    (∃ p, q.convertTo c = .ok p ∧ P p) ↔ ∃ u a₁,
      serialize c .pipelineResources q.spec.resources q.objectMeta.annotations = .ok (u, a₁) ∧
      ∃ spec a₂, (pipelineSpec c).convertTo q.spec a₁ = .ok (spec, a₂) ∧
        P { objectMeta := { q.objectMeta with annotations := a₂ }, spec } :=
  written_gives_iff.trans Follows.gives_bind_iff

def V1.Pipeline.SpecSurvives : Prop :=
  ∃ q p', Pipeline.convertFrom c p = .ok q ∧ q.convertTo c = .ok p' ∧ p'.spec = p.spec

theorem pipeline_spec_survives_iff :
    p.SpecSurvives c ↔ Readable c .pipelineResources p.objectMeta.annotations ∧
      p.spec.AllPlain ∧ Returned (shelf c p.objectMeta.annotations) p.spec.embedded := by
  simp only [V1.Pipeline.SpecSurvives, exists_and_left, Pipeline.convertFrom_gives_iff,
    Pipeline.convertTo_gives_iff]
  refine (pipelineSpec c).round_trip_iff.trans ?_
  simp only [Trip.convertFrom_back_iff, pipelineSpec_plain_iff]
  exact deserialize_then_iff fun s => p.spec.AllPlain ∧ Returned s p.spec.embedded

end

section
variable (c : Codec α τ) (p : V1.PipelineRun α τ)

theorem PipelineRun.convertFrom_gives_iff {P : PipelineRun α τ → Prop} :
    (∃ q, PipelineRun.convertFrom c p = .ok q ∧ P q) ↔ ∃ v a₁,
      deserialize c .pipelineRunResources p.objectMeta.annotations = .ok (v, a₁) ∧ ∃ r a₂,
      ((pipelineRunStatus c).pair (pipelineRunSpec c)).convertFrom (p.status, p.spec) a₁ =
          .ok (r, a₂) ∧
        P { objectMeta := { p.objectMeta with annotations := a₂ }
            spec := { r.2 with resources := v }
            status := r.1 } := by
  refine written_gives_iff.trans ?_
  simp only [Trip.pair, Follows.gives_bind_iff, Follows.gives_pure_iff]
  rfl

theorem PipelineRun.convertTo_gives_iff (q : PipelineRun α τ) {P : V1.PipelineRun α τ → Prop} :
    (∃ p, q.convertTo c = .ok p ∧ P p) ↔ ∃ u a₁,
      serialize c .pipelineRunResources q.spec.resources q.objectMeta.annotations =
        .ok (u, a₁) ∧ ∃ r a₂,
      ((pipelineRunStatus c).pair (pipelineRunSpec c)).convertTo (q.status, q.spec) a₁ =
          .ok (r, a₂) ∧
        P { objectMeta := { q.objectMeta with annotations := a₂ }, spec := r.2, status := r.1 } :=
  written_gives_iff.trans Follows.gives_bind_iff

def V1.PipelineRun.SpecSurvives : Prop :=
  ∃ q p', PipelineRun.convertFrom c p = .ok q ∧ q.convertTo c = .ok p' ∧ p'.spec = p.spec

theorem pipelineRun_spec_survives_iff :
    p.SpecSurvives c ↔ Readable c .pipelineRunResources p.objectMeta.annotations ∧
      p.spec.AllPlain ∧ Accepted (shelf c p.objectMeta.annotations) p.status.embedded ∧
      Returned (DeprecationShelf.without (shelf c p.objectMeta.annotations) p.status.embedded)
        p.spec.embedded := by
  simp only [V1.PipelineRun.SpecSurvives, exists_and_left, PipelineRun.convertFrom_gives_iff,
    PipelineRun.convertTo_gives_iff]
  refine (((pipelineRunStatus c).pair (pipelineRunSpec c)).round_trip_iff
    (P := fun r => r.2 = p.spec)).trans ?_
  refine (exists₂_congr fun v a₁ => and_congr_right fun _ => Trip.pair_snd_back_iff ..).trans ?_
  simp only [pipelineRunSpec_plain_iff]
  exact deserialize_then_iff fun s => p.spec.AllPlain ∧ Accepted s p.status.embedded ∧
    Returned (DeprecationShelf.without s p.status.embedded) p.spec.embedded

end

/-- The specs of v1 Pipelines and PipelineRuns that survive a trip through v1beta1. -/
theorem specs_survive_iff (c : Codec α τ) : (∀ p : V1.Pipeline α τ, p.SpecSurvives c ↔
      Readable c .pipelineResources p.objectMeta.annotations ∧ p.spec.AllPlain ∧
        Returned (shelf c p.objectMeta.annotations) p.spec.embedded) ∧
    ∀ p : V1.PipelineRun α τ, p.SpecSurvives c ↔
      Readable c .pipelineRunResources p.objectMeta.annotations ∧ p.spec.AllPlain ∧
        Accepted (shelf c p.objectMeta.annotations) p.status.embedded ∧
        Returned (DeprecationShelf.without (shelf c p.objectMeta.annotations) p.status.embedded)
          p.spec.embedded :=
  ⟨pipeline_spec_survives_iff c, pipelineRun_spec_survives_iff c⟩

/-- A run of the pipeline `build` whose runs of the task `compile` get an annotation. -/
def annotatedRun : V1.PipelineRun Unit (Text Unit) :=
  { objectMeta := { name := "build-run" }
    spec :=
      { pipelineRef := some { name := "build" }
        taskRunSpecs :=
          [{ pipelineTaskName := "compile"
             metadata := some { annotations := [("team", "web")] } }] } }

theorem annotatedRun_not_survives : ¬ annotatedRun.SpecSurvives (Codec.ofText Unit) := by
  intro h
  have hplain := ((pipelineRun_spec_survives_iff _ _).mp h).2.1
  have hmetadata := hplain.1.2.2 _ List.mem_cons_self _ rfl
  exact absurd hmetadata (by decide)

end TektonPipeline.Conversion
