import TektonPipeline.Conversion.Statuses

/-! What the conversions of a type do to the annotations, in terms of the task specs inside
it: one way each of them leaves its deprecated fields, the other way each takes what it finds
under its name. -/

namespace TektonPipeline.Conversion
open V1Beta1

variable {α τ : Type}

/-- What a v1 task spec becomes when it finds the entry `e`. -/
def restored (e : Option (TaskDeprecation α)) (source : V1.TaskSpec α) : Option (TaskSpec α) :=
  (restoreWith e (TaskSpec.stepsFrom source)).map (TaskSpec.fieldsFrom source)

section
variable {A B : Type} (c : Codec α τ)

/-- The conversion gives `a`, or fails, as the specs of `l` leave their deprecated fields. -/
def Parks (m : Convert τ A) (a : A) (l : List (String × TaskSpec α)) : Prop :=
  Follows.Follows (shelf c) otherAnnotations m
    (fun s => (Shelf.putAll retrieveTaskDeprecation l s).map ((), ·)) fun _ b => b = a

/-- The conversion gives something that `P` relates to what the specs of `l` become when each
takes the fields under its name, or fails. -/
def Restores (m : Convert τ A) (l : List (String × V1.TaskSpec α))
    (P : List (TaskSpec α) → A → Prop) : Prop :=
  Follows.Follows (shelf c) otherAnnotations m (Shelf.takeAll restored l) P

variable {c} {m : Convert τ A} {k : A → Convert τ B} {a : A} {b : B}

theorem Parks.pure (a : A) : Parks c (pure a) a [] := Follows.Follows.pure rfl

theorem Parks.bind {l₁ l₂ : List (String × TaskSpec α)} (hm : Parks c m a l₁)
    (hk : Parks c (k a) b l₂) : Parks c (m >>= k) b (l₁ ++ l₂) := by
  refine (Follows.Follows.bind hm fun _ _ ha => ha ▸ hk).congr fun v => ?_
  rw [Shelf.putAll_append]
  cases Shelf.putAll retrieveTaskDeprecation l₁ v <;> rfl

theorem Parks.map {l : List (String × TaskSpec α)} (f : A → B) (hm : Parks c m a l) :
    Parks c (m >>= fun a => Pure.pure (f a)) (f a) l :=
  Follows.Follows.map hm fun _ _ ha => ha ▸ rfl

theorem Restores.pure {P : List (TaskSpec α) → A → Prop} (h : P [] a) :
    Restores c (pure a) [] P := Follows.Follows.pure h

theorem Restores.bind {l₁ l₂ : List (String × V1.TaskSpec α)}
    {P : List (TaskSpec α) → A → Prop} {Q : List (TaskSpec α) → B → Prop} (hm : Restores c m l₁ P)
    (hk : ∀ a specs₁, P specs₁ a → Restores c (k a) l₂ fun specs₂ => Q (specs₁ ++ specs₂)) :
    Restores c (m >>= k) (l₁ ++ l₂) Q := by
  refine (Follows.Follows.bind hm fun a specs₁ hP => (hk a specs₁ hP).relabel).congr fun v => ?_
  rw [Shelf.takeAll_append]

theorem Restores.map {l : List (String × V1.TaskSpec α)} {P : List (TaskSpec α) → A → Prop}
    {Q : List (TaskSpec α) → B → Prop} {f : A → B} (hm : Restores c m l P)
    (h : ∀ a specs, P specs a → Q specs (f a)) : Restores c (m >>= fun a => Pure.pure (f a)) l Q :=
  Follows.Follows.map hm h

end

/-- `q` is what became of `p` when its task specs became `specs`, and it becomes `p` again if
`p` is plain and its specs become what they were. -/
structure Reached {X X' : Type} (toV1 : X' → X) (embedded : X → List (String × V1.TaskSpec α))
    (embedded' : X' → List (String × TaskSpec α)) (Plain : X → Prop) (p : X)
    (specs : List (TaskSpec α)) (q : X') : Prop where
  names : (embedded' q).map Prod.fst = (embedded p).map Prod.fst
  specs : (embedded' q).map Prod.snd = specs
  back : toV1 q = p ↔
    Plain p ∧ ((embedded' q).map fun e => (e.1, e.2.toV1)) = embedded p

theorem Reached.pair {X X' Y Y' : Type} {toV1 : X' → X} {toV1' : Y' → Y}
    {emb : X → List (String × V1.TaskSpec α)} {emb' : X' → List (String × TaskSpec α)}
    {emb₂ : Y → List (String × V1.TaskSpec α)} {emb₂' : Y' → List (String × TaskSpec α)}
    {Plain : X → Prop} {Plain' : Y → Prop} {x : X} {y : Y} {q : X'} {q' : Y'}
    {specs₁ specs₂ : List (TaskSpec α)} (hq : Reached toV1 emb emb' Plain x specs₁ q)
    (hq' : Reached toV1' emb₂ emb₂' Plain' y specs₂ q') :
    Reached (fun z : X' × Y' => (toV1 z.1, toV1' z.2)) (fun z => emb z.1 ++ emb₂ z.2)
      (fun z => emb' z.1 ++ emb₂' z.2) (fun z => Plain z.1 ∧ Plain' z.2) (x, y)
      (specs₁ ++ specs₂) (q, q') where
  names := by rw [List.map_append, List.map_append, hq.names, hq'.names]
  specs := by rw [List.map_append, hq.specs, hq'.specs]
  back := by
    have hlength : ((emb' q).map fun e => (e.1, e.2.toV1)).length = (emb x).length := by
      simpa using congrArg List.length hq.names
    rw [Prod.mk.injEq, hq.back, hq'.back, List.map_append]
    constructor
    · rintro ⟨⟨hx, hsame⟩, hy, hsame'⟩
      exact ⟨⟨hx, hy⟩, by rw [hsame, hsame']⟩
    · rintro ⟨⟨hx, hy⟩, hsame⟩
      obtain ⟨h₁, h₂⟩ := List.append_inj hsame hlength
      exact ⟨⟨hx, h₁⟩, hy, h₂⟩

structure Trip (c : Codec α τ) (X X' : Type) where
  convertTo : X' → Convert τ X
  convertFrom : X → Convert τ X'
  toV1 : X' → X
  embedded : X → List (String × V1.TaskSpec α)
  embedded' : X' → List (String × TaskSpec α)
  Plain : X → Prop
  embedded_toV1 : ∀ q, embedded (toV1 q) = (embedded' q).map fun e => (e.1, e.2.toV1)
  parks : ∀ q, Parks c (convertTo q) (toV1 q) (embedded' q)
  restores : ∀ p, Restores c (convertFrom p) (embedded p) (Reached toV1 embedded embedded' Plain p)

namespace Trip
variable {c : Codec α τ} {X X' Y Y' : Type}

def pair (t : Trip c X X') (u : Trip c Y Y') : Trip c (X × Y) (X' × Y') where
  convertTo z := do
    let x ← t.convertTo z.1
    let y ← u.convertTo z.2
    return (x, y)
  convertFrom z := do
    let x ← t.convertFrom z.1
    let y ← u.convertFrom z.2
    return (x, y)
  toV1 z := (t.toV1 z.1, u.toV1 z.2)
  embedded z := t.embedded z.1 ++ u.embedded z.2
  embedded' z := t.embedded' z.1 ++ u.embedded' z.2
  Plain z := t.Plain z.1 ∧ u.Plain z.2
  embedded_toV1 q := by simp [t.embedded_toV1, u.embedded_toV1]
  parks q := (t.parks q.1).bind ((u.parks q.2).map _)
  restores p := (t.restores p.1).bind fun q specs₁ hq =>
    (u.restores p.2).map fun q' specs₂ hq' => hq.pair hq'

/-- The same conversions seen through a way to take a value of each version apart and put it
together, where `idx` chooses among conversions. `Plain` says of the v1 value what its parts do
not. -/
def along {ι : Type} (t : ι → Trip c X X') (idx : Y → ι) (idx' : Y' → ι) (parts : Y → X)
    (parts' : Y' → X') (whole : Y' → X → Y) (whole' : Y → X' → Y') (Plain : Y → Prop)
    (idx_whole : ∀ q x, idx (whole q x) = idx' q)
    (idx_whole' : ∀ p q, idx' (whole' p q) = idx p)
    (parts_whole : ∀ q x, parts (whole q x) = x)
    (parts_whole' : ∀ p q, parts' (whole' p q) = q)
    (back : ∀ p q, whole (whole' p q) ((t (idx p)).toV1 q) = p ↔
      Plain p ∧ (t (idx p)).toV1 q = parts p) :
    Trip c Y Y' where
  convertTo q := do
    let x ← (t (idx' q)).convertTo (parts' q)
    return whole q x
  convertFrom p := do
    let q ← (t (idx p)).convertFrom (parts p)
    return whole' p q
  toV1 q := whole q ((t (idx' q)).toV1 (parts' q))
  embedded p := (t (idx p)).embedded (parts p)
  embedded' q := (t (idx' q)).embedded' (parts' q)
  Plain p := Plain p ∧ (t (idx p)).Plain (parts p)
  embedded_toV1 q := by rw [idx_whole, parts_whole, (t (idx' q)).embedded_toV1]
  parks q := ((t (idx' q)).parks (parts' q)).map (whole q)
  restores p := ((t (idx p)).restores (parts p)).map fun q specs hq =>
    { names := by rw [idx_whole', parts_whole', hq.names]
      specs := by rw [idx_whole', parts_whole', hq.specs]
      back := by rw [idx_whole', parts_whole', back, hq.back, and_assoc] }

def option (t : Trip c X X') : Trip c (Option X) (Option X') where
  convertTo := convertOption t.convertTo
  convertFrom := convertOption t.convertFrom
  toV1 := Option.map t.toV1
  embedded o := o.elim [] t.embedded
  embedded' o := o.elim [] t.embedded'
  Plain o := ∀ x ∈ o, t.Plain x
  embedded_toV1 o := by cases o <;> simp [t.embedded_toV1]
  parks o :=
    match o with
    | none => .pure none
    | some x => (t.parks x).map some
  restores o :=
    match o with
    | none => .pure { names := rfl, specs := rfl, back := by simp }
    | some x => (t.restores x).map fun q specs hq =>
      { names := hq.names, specs := hq.specs, back := by simpa using hq.back }

theorem reached_cons (t : Trip c X X') {x : X} {q : X'} {l : List X} {qs : List X'}
    {specs₁ specs₂ : List (TaskSpec α)}
    (hq : Reached t.toV1 t.embedded t.embedded' t.Plain x specs₁ q)
    (hqs : Reached (List.map t.toV1) (List.flatMap t.embedded) (List.flatMap t.embedded')
      (fun l => ∀ x ∈ l, t.Plain x) l specs₂ qs) :
    Reached (List.map t.toV1) (List.flatMap t.embedded) (List.flatMap t.embedded')
      (fun l => ∀ x ∈ l, t.Plain x) (x :: l) (specs₁ ++ specs₂) (q :: qs) where
  names := by simpa using (hq.pair hqs).names
  specs := by simpa using (hq.pair hqs).specs
  back := by simpa using (hq.pair hqs).back

def list (t : Trip c X X') : Trip c (List X) (List X') where
  convertTo := convertEach t.convertTo
  convertFrom := convertEach t.convertFrom
  toV1 := List.map t.toV1
  embedded := List.flatMap t.embedded
  embedded' := List.flatMap t.embedded'
  Plain l := ∀ x ∈ l, t.Plain x
  embedded_toV1 l := by simp [List.flatMap_map, List.map_flatMap, t.embedded_toV1]
  parks l := by
    induction l with
    | nil => exact .pure []
    | cons q l ih => exact (t.parks q).bind (ih.map _)
  restores l := by
    induction l with
    | nil => exact .pure { names := rfl, specs := rfl, back := by simp }
    | cons x l ih =>
      exact (t.restores x).bind fun q specs₁ hq => ih.map fun qs specs₂ hqs =>
        reached_cons t hq hqs

end Trip

end TektonPipeline.Conversion
