import TektonPipeline.Conversion.StatusSurvival

/-! A v1beta1 object converted to v1 and back: when the deprecated fields of its task specs are
the same. -/

namespace TektonPipeline.Conversion
open V1Beta1

variable {α τ : Type}

def V1Beta1.TaskSpec.deprecation (ts : TaskSpec α) : TaskDeprecation α :=
  { deprecatedSteps := ts.steps.map (·.toDeprecated)
    deprecatedStepTemplate := ts.stepTemplate.map (·.toDeprecatedTemplate) }

def V1Beta1.TaskSpec.Blank (ts : TaskSpec α) : Prop :=
  (∀ s ∈ ts.steps, s.toDeprecated = {}) ∧ ∀ t ∈ ts.stepTemplate, t.toDeprecatedTemplate = {}

def V1Beta1.TaskSpec.Gets (ts : TaskSpec α) : Option (TaskDeprecation α) → Prop
  | none => ts.Blank
  | some td => ts.steps.map (·.toDeprecated) = td.deprecatedSteps ∧
      ts.stepTemplate.map (·.toDeprecatedTemplate) =
        match td.deprecatedStepTemplate with
        | none => ts.stepTemplate.map fun _ => {}
        | some d => some d

theorem map_eq_map_const_iff {A B : Type} (f : A → B) (b : B) (l : List A) :
    l.map (fun _ => b) = l.map f ↔ ∀ x ∈ l, f x = b := by
  rw [List.map_inj_left]
  exact forall₂_congr fun _ _ => eq_comm

theorem option_map_eq_map_const_iff {A B : Type} (f : A → B) (b : B) (o : Option A) :
    o.map (fun _ => b) = o.map f ↔ ∀ x ∈ o, f x = b := by
  cases o <;> simp [eq_comm]

theorem map_toDeprecated_zipWith (l : List (Step α)) (ds : List (Deprecated α))
    (h : l.length = ds.length) :
    (List.zipWith (fun (s : Step α) d => { s with toDeprecated := d }) l ds).map
      (·.toDeprecated) = ds := by
  rw [← List.map_uncurry_zip_eq_zipWith, List.map_map]
  exact List.map_snd_zip (Nat.le_of_eq h.symm)

theorem stepsFrom_toV1_steps (ts : TaskSpec α) :
    (TaskSpec.stepsFrom ts.toV1).steps.map (·.toDeprecated) = ts.steps.map fun _ => {} := by
  simp [TaskSpec.stepsFrom, TaskSpec.toV1, Function.comp_def, Step.convertFrom]

theorem stepsFrom_toV1_template (ts : TaskSpec α) :
    (TaskSpec.stepsFrom ts.toV1).stepTemplate.map (·.toDeprecatedTemplate) =
      ts.stepTemplate.map fun _ => {} := by
  simp [TaskSpec.stepsFrom, TaskSpec.toV1, Function.comp_def, StepTemplate.convertFrom]

theorem restored_deprecation_iff (e : Option (TaskDeprecation α)) (ts : TaskSpec α) :
    (∃ b, restored e ts.toV1 = some b ∧ b.deprecation = ts.deprecation) ↔ ts.Gets e := by
  cases e with
  | none =>
    have hblank : (TaskSpec.fieldsFrom ts.toV1 (TaskSpec.stepsFrom ts.toV1)).deprecation =
        ts.deprecation ↔ ts.Blank := by
      simp only [TaskSpec.deprecation, TaskDeprecation.mk.injEq, TaskSpec.fieldsFrom,
        stepsFrom_toV1_steps, stepsFrom_toV1_template, map_eq_map_const_iff,
        option_map_eq_map_const_iff, TaskSpec.Blank]
    simpa [restored, restoreWith, TaskSpec.Gets] using hblank
  | some td =>
    have hlength : (TaskSpec.stepsFrom ts.toV1).steps.length = ts.steps.length := by
      simp [TaskSpec.stepsFrom, TaskSpec.toV1]
    by_cases h : ts.steps.length = td.deprecatedSteps.length
    · have hsteps := map_toDeprecated_zipWith _ _ (hlength.trans h)
      have htemplate := stepsFrom_toV1_template ts
      simp only [restored, restoreWith, TaskDeprecation.restore, hlength, h, ne_eq,
        not_true_eq_false, if_false, Option.map_some, Option.some.injEq, exists_eq_left',
        TaskSpec.deprecation, TaskDeprecation.mk.injEq, TaskSpec.fieldsFrom, hsteps, TaskSpec.Gets]
      cases td.deprecatedStepTemplate with
      | none => simp only [htemplate, eq_comm]
      | some d => simp [eq_comm]
    · have hfails : restored (some td) ts.toV1 = none := by
        simp [restored, restoreWith, TaskDeprecation.restore, hlength, h]
      have hsteps : ts.steps.map (·.toDeprecated) ≠ td.deprecatedSteps := fun heq =>
        h (by simpa using congrArg List.length heq)
      simp [hfails, TaskSpec.Gets, hsteps]

theorem hasDeprecatedFields_of_blank {ts : TaskSpec α} (h : ts.Blank) :
    ts.hasDeprecatedFields = false := by
  have hsteps : ts.steps.any (fun s => s.toDeprecated.isSet) = false := by
    rw [List.any_eq_false]
    intro s hs
    simp [h.1 s hs, Deprecated.isSet]
  rw [TaskSpec.hasDeprecatedFields, hsteps, Bool.false_or]
  cases ht : ts.stepTemplate with
  | none => rfl
  | some t => simp [h.2 t ht]

theorem gets_deprecation (ts : TaskSpec α) : ts.Gets (some ts.deprecation) := by
  refine ⟨rfl, ?_⟩
  cases ht : ts.stepTemplate <;> simp [TaskSpec.deprecation, ht]

theorem retrieveTaskDeprecation_eq (ts : TaskSpec α) :
    retrieveTaskDeprecation ts = if ts.hasDeprecatedFields then some ts.deprecation else none :=
  rfl

/-- The specs get their deprecated fields back: the annotation can be read, and written if
there is something to keep; of specs with one name only the first has deprecated fields; and
one whose fields are not kept gets the same from what the annotation held before. -/
structure Parkable (s : DeprecationShelf α) (l : List (String × TaskSpec α)) : Prop where
  readable : l ≠ [] → s.readable = true
  writable : ∀ x ∈ l, x.2.hasDeprecatedFields = true → s.writable = true
  later : l.Pairwise fun x y => x.1 = y.1 → y.2.Blank
  first : ∀ l₁ x l₂, l = l₁ ++ x :: l₂ → x.1 ∉ l₁.map Prod.fst →
    x.2.hasDeprecatedFields = false → x.2.Gets (s.held x.1)

theorem parkable_iff (s : DeprecationShelf α) (l : List (String × TaskSpec α)) :
    (∃ s₁ specs s₂, Shelf.putAll retrieveTaskDeprecation l s = some s₁ ∧
      Shelf.takeAll restored (l.map fun e => (e.1, e.2.toV1)) s₁ = some (specs, s₂) ∧
      specs.map TaskSpec.deprecation = l.map fun e => e.2.deprecation) ↔ Parkable s l := by
  have hsame : ∀ specs : List (TaskSpec α),
      (specs.map TaskSpec.deprecation = l.map fun e => e.2.deprecation) ↔
        List.Forall₂ (fun x b => TaskSpec.deprecation b = x.2.deprecation) l specs := by
    intro specs
    rw [eq_comm, ← List.forall₂_eq_eq_eq, List.forall₂_map_left_iff, List.forall₂_map_right_iff]
    simp only [eq_comm]
  have hentry : ∀ x : String × TaskSpec α,
      x.2.Gets ((retrieveTaskDeprecation x.2).or (s.held x.1)) ↔
        (x.2.hasDeprecatedFields = false → x.2.Gets (s.held x.1)) := by
    intro x
    rw [retrieveTaskDeprecation_eq]
    cases x.2.hasDeprecatedFields with
    | false => simp
    | true => simpa using gets_deprecation x.2
  have htake := Shelf.takeAll_iff (fun e ts => restored e (TaskSpec.toV1 ts))
    (fun ts b => b.deprecation = ts.deprecation) l
    { s with held := Shelf.leave retrieveTaskDeprecation l s.held }
  simp only [restored_deprecation_iff] at htake
  rw [Shelf.suits_leave_iff (P := TaskSpec.Gets) fun ts (h : ts.Blank) => by
    simp [retrieveTaskDeprecation_eq, hasDeprecatedFields_of_blank h]] at htake
  simp only [hentry] at htake
  simp only [Shelf.putAll_eq_some_iff, Shelf.takeAll_map, hsame]
  constructor
  · rintro ⟨s₁, specs, s₂, ⟨⟨hread, hwrite⟩, rfl⟩, hrun, hall⟩
    obtain ⟨-, hlater, hfirst⟩ := htake.mp ⟨specs, s₂, hrun, hall⟩
    refine ⟨hread, fun x hx hset => hwrite x hx ?_, hlater, hfirst⟩
    simp [retrieveTaskDeprecation_eq, hset]
  · rintro ⟨hread, hwrite, hlater, hfirst⟩
    obtain ⟨specs, s₂, hrun, hall⟩ := htake.mpr ⟨hread, hlater, hfirst⟩
    refine ⟨_, specs, s₂, ⟨⟨hread, fun x hx hset => hwrite x hx ?_⟩, rfl⟩, hrun, hall⟩
    cases h : x.2.hasDeprecatedFields with
    | true => rfl
    | false => simp [retrieveTaskDeprecation_eq, h] at hset

namespace Trip
variable {c : Codec α τ} {X X' Y Y' : Type} (t : Trip c X X') (u : Trip c Y Y')

def deprecations (q : X') : List (TaskDeprecation α) :=
  (t.embedded' q).map fun e => e.2.deprecation

variable {q : X'}

theorem deprecations_of_reached {p : X} {specs : List (TaskSpec α)}
    (h : Reached t.toV1 t.embedded t.embedded' t.Plain p specs q) :
    t.deprecations q = specs.map TaskSpec.deprecation := by
  rw [← h.specs, List.map_map]
  rfl

variable {x : X}

variable {a a' : Annotations τ}

theorem convertTo_eq_ok_iff : (∃ a', t.convertTo q a = .ok (x, a')) ↔
      x = t.toV1 q ∧
        ∃ s, Shelf.putAll retrieveTaskDeprecation (t.embedded' q) (shelf c a) = some s := by
  constructor
  · rintro ⟨a', h⟩
    obtain ⟨⟨⟩, hput, -, hx⟩ := Follows.Follows.of_ok (t.parks q) h
    obtain ⟨s, hs, -⟩ := Option.map_eq_some_iff.mp hput
    exact ⟨hx, s, hs⟩
  · rintro ⟨rfl, s, hs⟩
    obtain ⟨x, a', h, -, -, rfl⟩ := Follows.Follows.returns (t.parks q) (s := a) (b := ()) (v := s)
      (by rw [hs]; rfl)
    exact ⟨a', h⟩

theorem shelf_of_convertTo (h : t.convertTo q a = .ok (x, a')) :
    x = t.toV1 q ∧
      Shelf.putAll retrieveTaskDeprecation (t.embedded' q) (shelf c a) = some (shelf c a') ∧
      otherAnnotations a' = otherAnnotations a := by
  obtain ⟨⟨⟩, hput, hframe, hx⟩ := Follows.Follows.of_ok (t.parks q) h
  obtain ⟨s, hs, heq⟩ := Option.map_eq_some_iff.mp hput
  obtain ⟨-, rfl⟩ := Prod.mk.inj heq
  exact ⟨hx, hs, hframe⟩

variable {q₀ : X'}

theorem parkable {a₁ a₂ a₃ : Annotations τ} (hto : t.convertTo q₀ a = .ok (x, a₁))
    (hbefore : shelf c a₂ = shelf c a₁) (hx : t.convertFrom x a₂ = .ok (q, a₃))
    (hsame : t.deprecations q = t.deprecations q₀) : Parkable (shelf c a) (t.embedded' q₀) := by
  obtain ⟨rfl, hput, -⟩ := t.shelf_of_convertTo hto
  obtain ⟨specs, htake, -, hreached⟩ := Follows.Follows.of_ok (t.restores _) hx
  rw [hbefore, t.embedded_toV1] at htake
  rw [t.deprecations_of_reached hreached] at hsame
  exact (parkable_iff _ _).mp ⟨_, specs, _, hput, htake, hsame⟩

theorem kept (h : Parkable (shelf c a) (t.embedded' q₀)) :
    ∃ a₁, t.convertTo q₀ a = .ok (t.toV1 q₀, a₁) ∧
      ∀ a₂, shelf c a₂ = shelf c a₁ → ∃ q a₃, t.convertFrom (t.toV1 q₀) a₂ = .ok (q, a₃) ∧
        t.deprecations q = t.deprecations q₀ := by
  obtain ⟨s₁, specs, s₂, hput, htake, hsame⟩ := (parkable_iff _ _).mpr h
  obtain ⟨a₁, hto⟩ := t.convertTo_eq_ok_iff.mpr ⟨rfl, s₁, hput⟩
  obtain ⟨-, hput', -⟩ := t.shelf_of_convertTo hto
  obtain rfl := Option.some.inj (hput.symm.trans hput')
  refine ⟨a₁, hto, fun a₂ h₂ => ?_⟩
  rw [← t.embedded_toV1, ← h₂] at htake
  obtain ⟨q, a₃, hx, -, -, hreached⟩ := Follows.Follows.returns (t.restores _) htake
  exact ⟨q, a₃, hx, (t.deprecations_of_reached hreached).trans hsame⟩

theorem length_deprecations (h : t.convertFrom (t.toV1 q₀) a = .ok (q, a')) :
    (t.deprecations q).length = (t.deprecations q₀).length := by
  obtain ⟨specs, -, -, hreached⟩ := Follows.Follows.of_ok (t.restores _) h
  have hnames := congrArg List.length hreached.names
  rw [t.embedded_toV1] at hnames
  simpa [deprecations] using hnames

variable {r₀ : Y'}

theorem pair_deprecations_iff {r : Y'}
    (h : t.convertFrom (t.toV1 q₀) a = .ok (q, a')) :
    (t.pair u).deprecations (q, r) = (t.pair u).deprecations (q₀, r₀) ↔
      t.deprecations q = t.deprecations q₀ ∧ u.deprecations r = u.deprecations r₀ := by
  have hpair : ∀ q r, (t.pair u).deprecations (q, r) = t.deprecations q ++ u.deprecations r :=
    fun q r => List.map_append
  rw [hpair, hpair]
  constructor
  · exact fun heq => List.append_inj heq (t.length_deprecations h)
  · rintro ⟨hq, hr⟩
    rw [hq, hr]

theorem pair_parkable {r : Y'} {y : Y} {a₁ a₂ a₃ a₄ a₅ : Annotations τ}
    (hto : (t.pair u).convertTo (q₀, r₀) a = .ok ((x, y), a₁)) (hbefore : shelf c a₂ = shelf c a₁)
    (hx : t.convertFrom x a₂ = .ok (q, a₃)) (hbetween : shelf c a₄ = shelf c a₃)
    (hy : u.convertFrom y a₄ = .ok (r, a₅)) (hq : t.deprecations q = t.deprecations q₀)
    (hr : u.deprecations r = u.deprecations r₀) :
    Parkable (shelf c a) ((t.pair u).embedded' (q₀, r₀)) := by
  obtain ⟨heq, hput, -⟩ := (t.pair u).shelf_of_convertTo hto
  obtain rfl : x = t.toV1 q₀ := congrArg Prod.fst heq
  obtain rfl : y = u.toV1 r₀ := congrArg Prod.snd heq
  obtain ⟨specs₁, htake₁, -, hreached₁⟩ := Follows.Follows.of_ok (t.restores _) hx
  obtain ⟨specs₂, htake₂, -, hreached₂⟩ := Follows.Follows.of_ok (u.restores _) hy
  rw [hbefore] at htake₁
  rw [hbetween] at htake₂
  have hsame := (pair_deprecations_iff t u hx).mpr ⟨hq, hr⟩
  rw [(t.pair u).deprecations_of_reached (hreached₁.pair hreached₂)] at hsame
  refine (parkable_iff _ _).mp ⟨_, specs₁ ++ specs₂, shelf c a₅, hput, ?_, hsame⟩
  rw [← (t.pair u).embedded_toV1]
  change Shelf.takeAll restored (t.embedded (t.toV1 q₀) ++ u.embedded (u.toV1 r₀)) _ = _
  rw [Shelf.takeAll_append, htake₁, Option.bind_some, htake₂]
  rfl

theorem pair_kept (h : Parkable (shelf c a) ((t.pair u).embedded' (q₀, r₀))) :
    ∃ a₁, (t.pair u).convertTo (q₀, r₀) a = .ok ((t.toV1 q₀, u.toV1 r₀), a₁) ∧
      ∀ a₂, shelf c a₂ = shelf c a₁ → ∃ q a₃, t.convertFrom (t.toV1 q₀) a₂ = .ok (q, a₃) ∧
        ∀ a₄, shelf c a₄ = shelf c a₃ → ∃ r a₅, u.convertFrom (u.toV1 r₀) a₄ = .ok (r, a₅) ∧
          t.deprecations q = t.deprecations q₀ ∧ u.deprecations r = u.deprecations r₀ := by
  obtain ⟨s₁, specs, s₂, hput, htake, hsame⟩ := (parkable_iff _ _).mpr h
  obtain ⟨a₁, hto⟩ := (t.pair u).convertTo_eq_ok_iff.mpr ⟨rfl, s₁, hput⟩
  obtain ⟨-, hput', -⟩ := (t.pair u).shelf_of_convertTo hto
  obtain rfl := Option.some.inj (hput.symm.trans hput')
  rw [← (t.pair u).embedded_toV1] at htake
  change Shelf.takeAll restored (t.embedded (t.toV1 q₀) ++ u.embedded (u.toV1 r₀)) _ = _ at htake
  rw [Shelf.takeAll_append] at htake
  obtain ⟨⟨specs₁, s₃⟩, htake₁, htake⟩ := Option.bind_eq_some_iff.mp htake
  obtain ⟨⟨specs₂, s₄⟩, htake₂, heq⟩ := Option.map_eq_some_iff.mp htake
  obtain ⟨rfl, rfl⟩ := Prod.mk.inj heq
  refine ⟨a₁, hto, fun a₂ h₂ => ?_⟩
  rw [← h₂] at htake₁
  obtain ⟨q, a₃, hx, hs₃, -, hreached₁⟩ := Follows.Follows.returns (t.restores _) htake₁
  refine ⟨q, a₃, hx, fun a₄ h₄ => ?_⟩
  rw [← hs₃, ← h₄] at htake₂
  obtain ⟨r, a₅, hy, -, -, hreached₂⟩ := Follows.Follows.returns (u.restores _) htake₂
  exact ⟨r, a₅, hy, (pair_deprecations_iff t u hx).mp
    (((t.pair u).deprecations_of_reached (hreached₁.pair hreached₂)).trans hsame)⟩

end Trip

end TektonPipeline.Conversion
