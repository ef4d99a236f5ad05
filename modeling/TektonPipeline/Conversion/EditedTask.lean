import TektonPipeline.Conversion.DeprecationSurvival

/-! A v1beta1 Task that is stored as v1, edited there and read back. The deprecated fields of its
steps wait in an annotation in the order that the steps had. -/

namespace TektonPipeline.Conversion
open V1Beta1

variable {α τ : Type}

/-- A step after an edit, with the place it had before unless it is new. -/
structure EditedStep (α : Type) where
  origin : Option Nat
  step : V1.Step α

def V1.Task.editSteps (p : V1.Task α τ) (edit : List (EditedStep α)) : V1.Task α τ :=
  { p with spec := { p.spec with steps := edit.map (·.step) } }

/-- A step has no deprecated fields, or those that it had in the v1beta1 Task. -/
def V1Beta1.Task.OwnFields (q : Task α τ) (e : EditedStep α) (d : Deprecated α) : Prop :=
  d = {} ∨ ∃ s, e.origin.bind (q.spec.steps[·]?) = some s ∧ d = s.toDeprecated

def V1Beta1.Task.ReadsEdited (c : Codec α τ) (q : Task α τ) (p : V1.Task α τ)
    (edit : List (EditedStep α)) : Prop :=
  ∃ q', Task.convertFrom c (p.editSteps edit) = .ok q' ∧
    List.Forall₂ q.OwnFields edit (q'.spec.steps.map (·.toDeprecated))

theorem Task.convertFrom_steps_iff {c : Codec α τ} {p : V1.Task α τ}
    {e : Option (TaskDeprecation α)} (hread : (shelf c p.objectMeta.annotations).readable = true)
    (hheld : (shelf c p.objectMeta.annotations).held p.objectMeta.name = e)
    (P : List (Step α) → Prop) :
    (∃ q, Task.convertFrom c p = .ok q ∧ P q.spec.steps) ↔
      Readable c .taskResources p.objectMeta.annotations ∧
        ∃ spec, restored e p.spec = some spec ∧ P spec.steps := by
  obtain ⟨s, hs⟩ : ∃ s, Shelf.take p.objectMeta.name (shelf c p.objectMeta.annotations) =
      some (e, s) := ⟨_, by rw [Shelf.take, if_pos hread, hheld]⟩
  have htake : ∀ a, shelf c a = shelf c p.objectMeta.annotations →
      Shelf.takeAll restored [(p.objectMeta.name, p.spec)] (shelf c a) =
        (restored e p.spec).map fun spec => ([spec], s) := by
    intro a ha
    rw [ha, Shelf.takeAll, hs]
    cases h : restored e p.spec <;> simp [h, Shelf.takeAll]
  refine (Task.convertFrom_gives_iff c p).trans ⟨?_, ?_⟩
  · rintro ⟨v, a₁, hres, spec, a₂, hspec, hP⟩
    obtain ⟨specs, hrun, -, hreached⟩ :=
      Follows.Follows.of_ok ((taskSpec c p.objectMeta.name).restores p.spec) hspec
    obtain ⟨spec', hrestored, heq⟩ :=
      Option.map_eq_some_iff.mp ((htake a₁ (shelf_of_deserialize hres)).symm.trans hrun)
    obtain rfl : spec = spec' := by
      simpa [taskSpec, ← (Prod.mk.inj heq).1] using hreached.specs
    exact ⟨readable_of_deserialize hres, spec, hrestored, hP⟩
  · rintro ⟨hres, spec, hrestored, hP⟩
    obtain ⟨v, a₁, hdes⟩ := deserialize_returns hres
    have hrun := htake a₁ (shelf_of_deserialize hdes)
    rw [hrestored] at hrun
    obtain ⟨spec', a₂, hspec, -, -, hreached⟩ :=
      Follows.Follows.returns ((taskSpec c p.objectMeta.name).restores p.spec) hrun
    obtain rfl : spec' = spec := by simpa [taskSpec] using hreached.specs
    exact ⟨v, a₁, hdes, spec', a₂, hspec, hP⟩

/-- The fields come back in the order in which they were parked, to as many steps. -/
theorem restored_steps_iff {td : TaskDeprecation α} {source : V1.TaskSpec α} {A : Type} {l : List A}
    {R : A → Deprecated α → Prop} (hl : l.length = source.steps.length) :
    (∃ spec, restored (some td) source = some spec ∧
      List.Forall₂ R l (spec.steps.map (·.toDeprecated))) ↔
        List.Forall₂ R l td.deprecatedSteps := by
  have hsteps : (TaskSpec.stepsFrom source).steps.length = source.steps.length := by
    simp [TaskSpec.stepsFrom]
  by_cases h : source.steps.length = td.deprecatedSteps.length
  · have hfields := map_toDeprecated_zipWith _ _ (hsteps.trans h)
    simp only [restored, restoreWith, TaskDeprecation.restore, hsteps, h, ne_eq,
      not_true_eq_false, if_false, Option.map_some, Option.some.injEq, exists_eq_left',
      TaskSpec.fieldsFrom, hfields]
  · refine iff_of_false ?_ fun hall => h (hl ▸ hall.length_eq)
    simp [restored, restoreWith, TaskDeprecation.restore, hsteps, h]

/-- There have to be as many steps as before, and a step in the place of one that had deprecated
fields has to have had the same. -/
theorem edited_task_reads_iff (c : Codec α τ) (q : Task α τ) (p : V1.Task α τ)
    (hto : q.convertTo c = .ok p) (hset : q.spec.hasDeprecatedFields = true)
    (edit : List (EditedStep α)) : q.ReadsEdited c p edit ↔
      (q.spec.resources.isSome = true ∨ Readable c .taskResources q.objectMeta.annotations) ∧
      List.Forall₂ q.OwnFields edit (q.spec.steps.map (·.toDeprecated)) := by
  obtain ⟨⟨⟩, a₁, hser, spec, a₂, hspec, hp⟩ :=
    (Task.convertTo_gives_iff c q (P := (p = ·))).mp ⟨p, hto, rfl⟩
  obtain ⟨-, hput, -⟩ := (taskSpec c q.objectMeta.name).shelf_of_convertTo hspec
  obtain ⟨⟨hread, -⟩, hshelf⟩ := (Shelf.putAll_eq_some_iff ..).mp hput
  have hread' : (shelf c p.objectMeta.annotations).readable = true := by
    simpa [hp, hshelf, taskSpec] using hread
  have hheld : (shelf c p.objectMeta.annotations).held p.objectMeta.name =
      some q.spec.deprecation := by
    simp [hp, hshelf, Shelf.leave, taskSpec, retrieveTaskDeprecation_eq, hset]
  refine (Task.convertFrom_steps_iff (p := p.editSteps edit) hread' hheld fun steps =>
    List.Forall₂ q.OwnFields edit (steps.map (·.toDeprecated))).trans ?_
  rw [restored_steps_iff (by simp [V1.Task.editSteps]), ← readable_serialize_iff hser,
    ← readable_convertTo_iff _ hspec, V1.Task.editSteps, hp]
  rfl

/-- One of two steps is removed, or the two change places. -/
def shells : Task Unit (Text Unit) :=
  { objectMeta := { name := "shells" }
    spec := { steps := [{ name := "one", image := "bash", deprecatedTTY := true },
        { name := "two", image := "bash" }] } }

def editedShells (origins : List Nat) : List (EditedStep Unit) :=
  origins.map fun i =>
    { origin := some i, step := { name := if i = 0 then "one" else "two", image := "bash" } }

/-- The first step gets another image, and a new step comes in the place of the second. -/
def renewedShells : List (EditedStep Unit) :=
  [{ origin := some 0, step := { name := "one", image := "zsh" } },
    { origin := none, step := { name := "three", image := "bash" } }]

theorem shells_read : ∃ p, shells.convertTo (Codec.ofText Unit) = .ok p ∧
    shells.ReadsEdited (Codec.ofText Unit) p renewedShells :=
  ⟨_, rfl, (edited_task_reads_iff _ _ _ rfl rfl _).mpr
    ⟨.inr (by simp [Readable, shells]), .cons (.inr ⟨_, rfl, rfl⟩) (.cons (.inl rfl) .nil)⟩⟩

theorem shells_not_read : ∃ p, shells.convertTo (Codec.ofText Unit) = .ok p ∧
    ¬ shells.ReadsEdited (Codec.ofText Unit) p (editedShells [1]) ∧
    ¬ shells.ReadsEdited (Codec.ofText Unit) p (editedShells [1, 0]) := by
  refine ⟨_, rfl, ?_, ?_⟩
  · rintro ⟨q, hq, -⟩
    cases hq
  · rintro ⟨q, hq, hown⟩
    obtain rfl := Except.ok.inj hq
    rcases (List.forall₂_cons.mp hown).1 with hnone | ⟨s, hs, hsame⟩
    · cases hnone
    · obtain rfl := Option.some.inj hs
      cases hsame

end TektonPipeline.Conversion
