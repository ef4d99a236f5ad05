import TektonPipeline.Conversion.StatusTrips

/-! Trips from v1 to v1beta1 and back, and what the annotations an object comes with have to do
with them. -/

namespace TektonPipeline.Conversion
open V1Beta1

variable {α τ : Type}

def Readable (c : Codec α τ) (k : Kept) (annotations : Annotations τ) : Prop :=
  ∀ str ∈ annotations.lookup k.key, ∃ v, c.unmarshal k str = .ok v

theorem shelf_annotate_key (c : Codec α τ) (k : Kept) (v : τ) (annotations : Annotations τ) :
    shelf c (annotate k.key v annotations) = shelf c annotations := by
  simp [shelf, storedDeprecations, lookup_annotate, k.key_ne.symm]

theorem shelf_removeKey_key (c : Codec α τ) (k : Kept) (annotations : Annotations τ) :
    shelf c (removeKey k.key annotations) = shelf c annotations := by
  simp [shelf, storedDeprecations, lookup_removeKey, k.key_ne.symm]

theorem otherAnnotations_key (k : Kept) (annotations : Annotations τ) :
    otherAnnotations annotations k.key = annotations.lookup k.key := by
  simp [otherAnnotations, k.key_ne]

theorem deserialize_eq_ok_iff (c : Codec α τ) (k : Kept) (annotations annotations' : Annotations τ)
    (v : Option α) :
    deserialize c k annotations = .ok (v, annotations') ↔
      match annotations.lookup k.key with
      | none => v = none ∧ annotations' = annotations
      | some str => c.unmarshal k str = .ok v ∧ annotations' = removeKey k.key annotations := by
  rw [deserialize]
  cases annotations.lookup k.key with
  | none => simp [eq_comm]
  | some str =>
    cases h : c.unmarshal k str with
    | error err => simp [h]
    | ok v' => simp [h, eq_comm]

variable {k : Kept}

theorem deserialize_returns {c : Codec α τ} {annotations : Annotations τ}
    (h : Readable c k annotations) :
    ∃ v annotations', deserialize c k annotations = .ok (v, annotations') := by
  cases hlookup : annotations.lookup k.key with
  | none => exact ⟨none, annotations, (deserialize_eq_ok_iff ..).mpr (by simp [hlookup])⟩
  | some str =>
    obtain ⟨v, hv⟩ := h str (by simp [hlookup])
    exact ⟨v, removeKey k.key annotations, (deserialize_eq_ok_iff ..).mpr (by simp [hlookup, hv])⟩

section
variable {c : Codec α τ} {annotations annotations' : Annotations τ} {v : Option α}
  (h : deserialize c k annotations = .ok (v, annotations'))
include h

theorem readable_of_deserialize : Readable c k annotations := by
  intro str hstr
  rw [deserialize_eq_ok_iff, Option.mem_def.mp hstr] at h
  exact ⟨v, h.1⟩

theorem annotations_of_deserialize :
    annotations' = annotations ∨ annotations' = removeKey k.key annotations := by
  rw [deserialize_eq_ok_iff] at h
  split at h
  · exact .inl h.2
  · exact .inr h.2

theorem lookup_of_deserialize {key : String} (hkey : key ≠ k.key) :
    annotations'.lookup key = annotations.lookup key := by
  rcases annotations_of_deserialize h with rfl | rfl
  · rfl
  · rw [lookup_removeKey, if_neg hkey]

theorem shelf_of_deserialize : shelf c annotations' = shelf c annotations := by
  rcases annotations_of_deserialize h with rfl | rfl
  · rfl
  · rw [shelf_removeKey_key]

end

theorem serialize_eq_ok (c : Codec α τ) (k : Kept) (value : Option α)
    (annotations : Annotations τ) :
    ∃ annotations', serialize c k value annotations = .ok ((), annotations') ∧
      shelf c annotations' = shelf c annotations := by
  cases value with
  | none => exact ⟨annotations, rfl, rfl⟩
  | some v => exact ⟨_, rfl, shelf_annotate_key c k _ annotations⟩

/-- Every step's parameters and every parameter and result have types, and no sidecar has a
restart policy. -/
def V1.TaskSpec.Plain (ts : V1.TaskSpec α) : Prop :=
  (∀ s ∈ ts.steps, s.Typed) ∧ (∀ s ∈ ts.sidecars, s.restartPolicy = none) ∧
    (∀ r ∈ ts.results, ∀ v ∈ r.value, v.Typed) ∧ ∀ p ∈ ts.params, p.Typed

def StepsFit (ts : V1.TaskSpec α) (e : Option (TaskDeprecation α)) : Prop :=
  ∀ td ∈ e, ts.steps.length = td.deprecatedSteps.length

/-- The entry found has no step template for a spec without one. -/
def TemplateFits (ts : V1.TaskSpec α) (e : Option (TaskDeprecation α)) : Prop :=
  ∀ td ∈ e, td.deprecatedStepTemplate.isSome = true → ts.stepTemplate.isSome = true

theorem restored_isSome_iff (e : Option (TaskDeprecation α)) (ts : V1.TaskSpec α) :
    (∃ b, restored e ts = some b) ↔ StepsFit ts e := by
  cases e with
  | none => simp [restored, restoreWith, StepsFit]
  | some td =>
    by_cases h : ts.steps.length = td.deprecatedSteps.length <;>
      simp [restored, restoreWith, TaskDeprecation.restore, TaskSpec.stepsFrom, StepsFit, h]

theorem map_zipWith_deprecated (l : List (Step α)) (ds : List (Deprecated α))
    (h : l.length = ds.length) :
    (List.zipWith (fun (s : Step α) d => { s with toDeprecated := d }) l ds).map
      Step.convertTo = l.map Step.convertTo := by
  rw [← List.map_uncurry_zip_eq_zipWith, List.map_map]
  nth_rewrite 2 [← List.map_fst_zip (Nat.le_of_eq h)]
  rw [List.map_map]
  rfl

theorem toV1_fieldsFrom_iff (ts : V1.TaskSpec α) (u : TaskSpec α) :
    (TaskSpec.fieldsFrom ts u).toV1 = ts ↔
      (u.steps.map Step.convertTo = ts.steps ∧ u.volumes = ts.volumes ∧
        u.stepTemplate.map StepTemplate.convertTo = ts.stepTemplate) ∧
      (∀ s ∈ ts.sidecars, s.restartPolicy = none) ∧
      (∀ r ∈ ts.results, ∀ v ∈ r.value, v.Typed) ∧ ∀ p ∈ ts.params, p.Typed := by
  obtain ⟨params, displayName, description, steps, volumes, stepTemplate, sidecars, workspaces,
    results⟩ := ts
  have hworkspaces : (workspaces.map WorkspaceDeclaration.convertFrom).map
      WorkspaceDeclaration.convertTo = workspaces := map_map_eq_self (fun _ => rfl) _
  simp only [TaskSpec.fieldsFrom, TaskSpec.toV1, V1.TaskSpec.mk.injEq, hworkspaces,
    map_map_eq_self_iff Sidecar.convertTo_convertFrom_iff,
    map_map_eq_self_iff TaskResult.convertTo_convertFrom_iff,
    map_map_eq_self_iff ParamSpec.convertTo_convertFrom_iff]
  grind

theorem toV1_restored_iff {e : Option (TaskDeprecation α)} {ts : V1.TaskSpec α}
    {b : TaskSpec α} (h : restored e ts = some b) : b.toV1 = ts ↔ ts.Plain ∧ TemplateFits ts e := by
  obtain ⟨u, hu, rfl⟩ := Option.map_eq_some_iff.mp h
  rw [toV1_fieldsFrom_iff, V1.TaskSpec.Plain]
  have hsteps : ((TaskSpec.stepsFrom ts).steps.map Step.convertTo = ts.steps) ↔
      ∀ s ∈ ts.steps, s.Typed :=
    map_map_eq_self_iff Step.convertTo_convertFrom_iff ts.steps
  have hvolumes : (TaskSpec.stepsFrom ts).volumes = ts.volumes := rfl
  have htemplate : (TaskSpec.stepsFrom ts).stepTemplate.map StepTemplate.convertTo =
      ts.stepTemplate := option_map_map_eq_self StepTemplate.convertTo_convertFrom _
  cases e with
  | none =>
    obtain rfl := Option.some.inj hu
    simp [hsteps, hvolumes, htemplate, TemplateFits]
  | some td =>
    rw [restoreWith, TaskDeprecation.restore] at hu
    split at hu
    · cases hu
    · rename_i hlength
      rw [ne_eq, not_not] at hlength
      obtain rfl := Option.some.inj hu
      simp only [map_zipWith_deprecated _ _ hlength, hsteps]
      cases htd : td.deprecatedStepTemplate with
      | none => simp [hvolumes, htemplate, TemplateFits, htd]
      | some d =>
        cases ht : ts.stepTemplate with
        | none => simp [TemplateFits, htd, ht]
        | some t =>
          have hback : ({ StepTemplate.convertFrom t with toDeprecatedTemplate := d } :
              StepTemplate α).convertTo = t := rfl
          simp [TaskSpec.stepsFrom, TemplateFits, ht, hback]

theorem restored_back_iff (e : Option (TaskDeprecation α)) (ts : V1.TaskSpec α) :
    (∃ b, restored e ts = some b ∧ b.toV1 = ts) ↔ ts.Plain ∧ StepsFit ts e ∧ TemplateFits ts e := by
  constructor
  · rintro ⟨b, hb, hback⟩
    obtain ⟨hplain, htemplate⟩ := (toV1_restored_iff hb).mp hback
    exact ⟨hplain, (restored_isSome_iff e ts).mp ⟨b, hb⟩, htemplate⟩
  · rintro ⟨hplain, hsteps, htemplate⟩
    obtain ⟨b, hb⟩ := (restored_isSome_iff e ts).mpr hsteps
    exact ⟨b, hb, (toV1_restored_iff hb).mpr ⟨hplain, htemplate⟩⟩

theorem retrieveTaskDeprecation_of_restored_none {ts : V1.TaskSpec α} {b : TaskSpec α}
    (h : restored none ts = some b) : retrieveTaskDeprecation b = none := by
  obtain rfl := Option.some.inj h
  have hsteps : ∀ s : V1.Step α, (Step.convertFrom s).toDeprecated.isSet = false := by
    intro s
    simp [Step.convertFrom, Deprecated.isSet]
  have hnone : (TaskSpec.fieldsFrom ts (TaskSpec.stepsFrom ts)).hasDeprecatedFields = false := by
    cases ht : ts.stepTemplate <;>
      simp [TaskSpec.hasDeprecatedFields, TaskSpec.fieldsFrom, TaskSpec.stepsFrom, hsteps, ht,
        StepTemplate.convertFrom]
  simp [retrieveTaskDeprecation, hnone]

abbrev DeprecationShelf (α : Type) := Shelf.Shelf String (TaskDeprecation α)

/-- The specs can be converted: the annotation can be read, and each finds an entry with as
many steps as it has, or none. -/
def Accepted (s : DeprecationShelf α) (l : List (String × V1.TaskSpec α)) : Prop :=
  (l ≠ [] → s.readable = true) ∧ Shelf.Suits StepsFit l s.held

def Returned (s : DeprecationShelf α) (l : List (String × V1.TaskSpec α)) : Prop :=
  (l ≠ [] → s.readable = true) ∧
    Shelf.Suits (fun ts e => ts.Plain ∧ StepsFit ts e ∧ TemplateFits ts e) l s.held

def DeprecationShelf.without (s : DeprecationShelf α) (l : List (String × V1.TaskSpec α)) :
    DeprecationShelf α :=
  { s with held := Shelf.clear l s.held }

theorem accepted_iff (s : DeprecationShelf α) (l : List (String × V1.TaskSpec α)) :
    (∃ specs s', Shelf.takeAll restored l s = some (specs, s')) ↔ Accepted s l := by
  rw [Shelf.takeAll_returns_iff, Accepted]
  simp only [restored_isSome_iff]

theorem map_toV1_iff {l : List (String × V1.TaskSpec α)} {l' : List (String × TaskSpec α)}
    (hnames : l'.map Prod.fst = l.map Prod.fst) : (l'.map fun e => (e.1, e.2.toV1)) = l ↔
      List.Forall₂ (fun x b => TaskSpec.toV1 b = x.2) l (l'.map Prod.snd) := by
  induction l generalizing l' with
  | nil =>
    obtain rfl : l' = [] := by simpa using hnames
    simp
  | cons x l ih =>
    cases l' with
    | nil => simp at hnames
    | cons y l' =>
      simp only [List.map_cons, List.cons.injEq] at hnames
      obtain ⟨hname, hnames⟩ := hnames
      simp only [List.map_cons, List.cons.injEq, List.forall₂_cons, ih hnames]
      grind

namespace Trip
variable {c : Codec α τ} {X X' : Type} (t : Trip c X X')

theorem convertFrom_returns_iff (p : X) (a : Annotations τ) :
    (∃ q a', t.convertFrom p a = .ok (q, a')) ↔ Accepted (shelf c a) (t.embedded p) := by
  rw [← accepted_iff]
  constructor
  · rintro ⟨q, a', h⟩
    obtain ⟨specs, htake, -⟩ := Follows.Follows.of_ok (t.restores p) h
    exact ⟨specs, _, htake⟩
  · rintro ⟨specs, s', htake⟩
    obtain ⟨q, a', h, -⟩ := Follows.Follows.returns (t.restores p) htake
    exact ⟨q, a', h⟩

theorem convertFrom_back_iff (p : X) (a : Annotations τ) :
    (∃ q a', t.convertFrom p a = .ok (q, a') ∧ t.toV1 q = p) ↔
      t.Plain p ∧ Returned (shelf c a) (t.embedded p) := by
  have h := Shelf.takeAll_iff restored (fun ts b => TaskSpec.toV1 b = ts) (t.embedded p)
    (shelf c a)
  simp only [restored_back_iff] at h
  rw [Returned, ← h]
  constructor
  · rintro ⟨q, a', hq, hback⟩
    obtain ⟨specs, htake, -, hreached⟩ := Follows.Follows.of_ok (t.restores p) hq
    obtain ⟨hplain, hsame⟩ := hreached.back.mp hback
    rw [map_toV1_iff hreached.names, hreached.specs] at hsame
    exact ⟨hplain, specs, _, htake, hsame⟩
  · rintro ⟨hplain, specs, s', htake, hsame⟩
    obtain ⟨q, a', hq, -, -, hreached⟩ := Follows.Follows.returns (t.restores p) htake
    rw [← hreached.specs, ← map_toV1_iff hreached.names] at hsame
    exact ⟨q, a', hq, hreached.back.mpr ⟨hplain, hsame⟩⟩

variable {p : X} {q : X'}

theorem convertTo_returns_of_reached {specs : List (TaskSpec α)} {s s' : DeprecationShelf α}
    {a : Annotations τ} (htake : Shelf.takeAll restored (t.embedded p) s = some (specs, s'))
    (hreached : Reached t.toV1 t.embedded t.embedded' t.Plain p specs q) (hshelf : shelf c a = s') :
    ∃ a', t.convertTo q a = .ok (t.toV1 q, a') := by
  have htaken := Shelf.takeAll_taken htake
  have haccepted := (accepted_iff _ _).mp ⟨specs, _, htake⟩
  -- Entries are written back only where something was found, so the annotation is no nil map.
  have hput : Shelf.putAll retrieveTaskDeprecation (t.embedded' q) (shelf c a) =
      some { shelf c a with
        held := Shelf.leave retrieveTaskDeprecation (t.embedded' q) (shelf c a).held } := by
    rw [Shelf.putAll_eq_some_iff]
    refine ⟨⟨fun hne => ?_, fun x hx hentry => ?_⟩, rfl⟩
    · rw [hshelf, htaken.readable]
      apply haccepted.1
      intro hnil
      have hnames := hreached.names
      rw [hnil] at hnames
      exact hne (by simpa using hnames)
    · rw [hshelf]
      rcases htaken.found with hwrite | hfound
      · exact hwrite
      · have hmem : x.2 ∈ specs := by
          rw [← hreached.specs]
          exact List.mem_map.mpr ⟨x, hx, rfl⟩
        obtain ⟨ts, hts⟩ := hfound x.2 hmem
        simp [retrieveTaskDeprecation_of_restored_none hts] at hentry
  have hparks : Parks c (t.convertTo q) (t.toV1 q) (t.embedded' q) := t.parks q
  obtain ⟨x, a', hx, -, -, rfl⟩ := Follows.Follows.returns hparks (s := a) (b := ())
    (v := { shelf c a with
      held := Shelf.leave retrieveTaskDeprecation (t.embedded' q) (shelf c a).held })
    (by simp [hput])
  exact ⟨a', hx⟩

theorem convertTo_returns {a a' a'' : Annotations τ} (h : t.convertFrom p a = .ok (q, a'))
    (hshelf : shelf c a'' = shelf c a') : ∃ a₃, t.convertTo q a'' = .ok (t.toV1 q, a₃) := by
  obtain ⟨specs, htake, -, hreached⟩ := Follows.Follows.of_ok (t.restores p) h
  exact t.convertTo_returns_of_reached htake hreached hshelf

theorem shelf_of_convertFrom {a a' : Annotations τ} (h : t.convertFrom p a = .ok (q, a')) :
    (shelf c a').readable = (shelf c a).readable ∧
      (shelf c a').held = Shelf.clear (t.embedded p) (shelf c a).held ∧
      otherAnnotations a' = otherAnnotations a := by
  obtain ⟨specs, htake, hframe, -⟩ := Follows.Follows.of_ok (t.restores p) h
  have htaken := Shelf.takeAll_taken htake
  exact ⟨htaken.readable, htaken.held, hframe⟩

section
variable {Y Y' : Type} (u : Trip c Y Y')

variable {x : X}

theorem pair_convertFrom_eq_ok_iff {y : Y} {q : X' × Y'} {a a' : Annotations τ} :
    (t.pair u).convertFrom (x, y) a = .ok (q, a') ↔
      ∃ a₁, t.convertFrom x a = .ok (q.1, a₁) ∧ u.convertFrom y a₁ = .ok (q.2, a') := by
  constructor
  · intro h
    obtain ⟨q₁, a₁, hx, h⟩ := Follows.bind_eq_ok_iff.mp h
    obtain ⟨q₂, a₂, hy, h⟩ := Follows.bind_eq_ok_iff.mp h
    obtain ⟨rfl, rfl⟩ := Follows.pure_eq_ok_iff.mp h
    exact ⟨a₁, hx, hy⟩
  · rintro ⟨a₁, hx, hy⟩
    exact Follows.bind_eq_ok_iff.mpr ⟨q.1, a₁, hx, Follows.bind_eq_ok_iff.mpr ⟨q.2, a', hy, rfl⟩⟩

theorem accepted_after_iff {a a₁ : Annotations τ} (h : t.convertFrom x a = .ok (q, a₁))
    (l : List (String × V1.TaskSpec α)) : Accepted (shelf c a₁) l ↔
      Accepted (DeprecationShelf.without (shelf c a) (t.embedded x)) l := by
  obtain ⟨hread, hheld, -⟩ := t.shelf_of_convertFrom h
  simp only [Accepted, DeprecationShelf.without, hread, hheld]

theorem returned_after_iff {a a₁ : Annotations τ} (h : t.convertFrom x a = .ok (q, a₁))
    (l : List (String × V1.TaskSpec α)) : Returned (shelf c a₁) l ↔
      Returned (DeprecationShelf.without (shelf c a) (t.embedded x)) l := by
  obtain ⟨hread, hheld, -⟩ := t.shelf_of_convertFrom h
  simp only [Returned, DeprecationShelf.without, hread, hheld]

theorem pair_snd_back_iff (x : X) (y : Y) (a : Annotations τ) :
    (∃ q a', (t.pair u).convertFrom (x, y) a = .ok (q, a') ∧ u.toV1 q.2 = y) ↔
      u.Plain y ∧ Accepted (shelf c a) (t.embedded x) ∧
        Returned (DeprecationShelf.without (shelf c a) (t.embedded x)) (u.embedded y) := by
  rw [← t.convertFrom_returns_iff]
  constructor
  · rintro ⟨q, a', h, hback⟩
    obtain ⟨a₁, hx, hy⟩ := (t.pair_convertFrom_eq_ok_iff u).mp h
    obtain ⟨hplain, hsecond⟩ := (u.convertFrom_back_iff y a₁).mp ⟨q.2, a', hy, hback⟩
    rw [t.returned_after_iff hx] at hsecond
    exact ⟨hplain, ⟨q.1, a₁, hx⟩, hsecond⟩
  · rintro ⟨hplain, ⟨q₁, a₁, hx⟩, hsecond⟩
    rw [← t.returned_after_iff hx] at hsecond
    obtain ⟨q₂, a', hy, hback⟩ := (u.convertFrom_back_iff y a₁).mpr ⟨hplain, hsecond⟩
    exact ⟨(q₁, q₂), a', (t.pair_convertFrom_eq_ok_iff u).mpr ⟨a₁, hx, hy⟩, hback⟩

theorem pair_fst_back_iff (x : X) (y : Y) (a : Annotations τ) :
    (∃ q a', (t.pair u).convertFrom (x, y) a = .ok (q, a') ∧ t.toV1 q.1 = x) ↔
      t.Plain x ∧ Returned (shelf c a) (t.embedded x) ∧
        Accepted (DeprecationShelf.without (shelf c a) (t.embedded x)) (u.embedded y) := by
  rw [← and_assoc, ← t.convertFrom_back_iff]
  constructor
  · rintro ⟨q, a', h, hback⟩
    obtain ⟨a₁, hx, hy⟩ := (t.pair_convertFrom_eq_ok_iff u).mp h
    have hsecond := (u.convertFrom_returns_iff y a₁).mp ⟨q.2, a', hy⟩
    rw [t.accepted_after_iff hx] at hsecond
    exact ⟨⟨q.1, a₁, hx, hback⟩, hsecond⟩
  · rintro ⟨⟨q₁, a₁, hx, hback⟩, hsecond⟩
    rw [← t.accepted_after_iff hx, ← u.convertFrom_returns_iff] at hsecond
    obtain ⟨q₂, a', hy⟩ := hsecond
    exact ⟨(q₁, q₂), a', (t.pair_convertFrom_eq_ok_iff u).mpr ⟨a₁, hx, hy⟩, hback⟩

theorem pair_convertTo_returns {y : Y} {q' : Y'} {a a₁ a₂ a₃ a₄ : Annotations τ}
    (hx : t.convertFrom x a = .ok (q, a₁)) (hbetween : shelf c a₂ = shelf c a₁)
    (hy : u.convertFrom y a₂ = .ok (q', a₃)) (hshelf : shelf c a₄ = shelf c a₃) :
    ∃ a', (t.pair u).convertTo (q, q') a₄ = .ok ((t.toV1 q, u.toV1 q'), a') := by
  obtain ⟨specs₁, htake₁, -, hreached₁⟩ := Follows.Follows.of_ok (t.restores x) hx
  obtain ⟨specs₂, htake₂, -, hreached₂⟩ := Follows.Follows.of_ok (u.restores y) hy
  rw [hbetween] at htake₂
  have htake : Shelf.takeAll restored ((t.pair u).embedded (x, y)) (shelf c a) =
      some (specs₁ ++ specs₂, shelf c a₃) := by
    change Shelf.takeAll restored (t.embedded x ++ u.embedded y) (shelf c a) = _
    rw [Shelf.takeAll_append, htake₁, Option.bind_some, htake₂]
    rfl
  exact (t.pair u).convertTo_returns_of_reached htake (hreached₁.pair hreached₂) hshelf

end

end Trip

end TektonPipeline.Conversion
