import Mathlib.Data.List.Forall2

/-! A store in which entries are left under keys and from which they are taken, each once,
and what the takers find when several share a key. -/

namespace TektonPipeline.Shelf
open List

structure Shelf (κ ε : Type) where
  readable : Bool
  writable : Bool
  held : κ → Option ε

variable {κ ε α β : Type} [DecidableEq κ]

def take (k : κ) (s : Shelf κ ε) : Option (Option ε × Shelf κ ε) :=
  if s.readable then
    some (s.held k, { s with
      held := Function.update s.held k none
      writable := s.writable || (s.held k).isSome })
  else none

def put (k : κ) (e : Option ε) (s : Shelf κ ε) : Option (Shelf κ ε) :=
  if s.readable then
    match e with
    | none => some s
    | some e =>
      if s.writable then some { s with held := Function.update s.held k (some e) } else none
  else none

/-- Each item in turn takes what its key has, and becomes what `f` makes of both. -/
def takeAll (f : Option ε → α → Option β) :
    List (κ × α) → Shelf κ ε → Option (List β × Shelf κ ε)
  | [], s => some ([], s)
  | x :: l, s =>
    (take x.1 s).bind fun r => (f r.1 x.2).bind fun b =>
      (takeAll f l r.2).map fun rest => (b :: rest.1, rest.2)

def putAll (entry : α → Option ε) : List (κ × α) → Shelf κ ε → Option (Shelf κ ε)
  | [], s => some s
  | x :: l, s => (put x.1 (entry x.2) s).bind (putAll entry l)

theorem takeAll_append (f : Option ε → α → Option β) (l₁ l₂ : List (κ × α)) (s : Shelf κ ε) :
    takeAll f (l₁ ++ l₂) s = (takeAll f l₁ s).bind fun r =>
      (takeAll f l₂ r.2).map fun r' => (r.1 ++ r'.1, r'.2) := by
  induction l₁ generalizing s with
  | nil => simp [takeAll]
  | cons x l₁ ih =>
    simp only [cons_append, takeAll, ih]
    cases take x.1 s with
    | none => rfl
    | some r =>
      simp only [Option.bind_some]
      cases f r.1 x.2 with
      | none => rfl
      | some b =>
        cases takeAll f l₁ r.2 with
        | none => rfl
        | some r' => simp [Function.comp_def]

theorem takeAll_map {γ : Type} (f : Option ε → α → Option β) (g : γ → α) (l : List (κ × γ))
    (s : Shelf κ ε) :
    takeAll f (l.map fun x => (x.1, g x.2)) s = takeAll (fun e c => f e (g c)) l s := by
  induction l generalizing s with
  | nil => rfl
  | cons x l ih => simp [takeAll, ih]

theorem putAll_append (entry : α → Option ε) (l₁ l₂ : List (κ × α)) (s : Shelf κ ε) :
    putAll entry (l₁ ++ l₂) s = (putAll entry l₁ s).bind (putAll entry l₂) := by
  induction l₁ generalizing s with
  | nil => rfl
  | cons x l₁ ih =>
    simp only [cons_append, putAll]
    cases put x.1 (entry x.2) s with
    | none => rfl
    | some s' => simp [ih]

/-- Each item finds an entry, or none, that suits it. -/
def Suits (P : α → Option ε → Prop) : List (κ × α) → (κ → Option ε) → Prop
  | [], _ => True
  | x :: l, held => P x.2 (held x.1) ∧ Suits P l (Function.update held x.1 none)

theorem takeAll_iff (f : Option ε → α → Option β) (R : α → β → Prop) (l : List (κ × α))
    (s : Shelf κ ε) :
    (∃ bs s', takeAll f l s = some (bs, s') ∧ List.Forall₂ (fun x b => R x.2 b) l bs) ↔
      (l ≠ [] → s.readable = true) ∧ Suits (fun a e => ∃ b, f e a = some b ∧ R a b) l s.held := by
  induction l generalizing s with
  | nil => simp [takeAll, Suits]
  | cons x l ih =>
    cases hread : s.readable with
    | false => simp [takeAll, take, hread]
    | true =>
      have htail := ih { s with
        held := Function.update s.held x.1 none
        writable := s.writable || (s.held x.1).isSome }
      simp only [hread, implies_true, true_and] at htail
      simp only [takeAll, take, hread, if_true, Option.bind_some, ne_eq, implies_true, true_and,
        Suits, ← htail]
      constructor
      · rintro ⟨bs, s', h, hall⟩
        obtain ⟨b, hb, h⟩ := Option.bind_eq_some_iff.mp h
        obtain ⟨rest, hrest, heq⟩ := Option.map_eq_some_iff.mp h
        obtain ⟨rfl, rfl⟩ := Prod.mk.inj heq
        cases hall with
        | cons hR hall => exact ⟨⟨b, hb, hR⟩, rest.1, rest.2, hrest, hall⟩
      · rintro ⟨⟨b, hb, hR⟩, bs, s', hrest, hall⟩
        exact ⟨b :: bs, s', by simp [hb, hrest], .cons hR hall⟩

def clear : List (κ × α) → (κ → Option ε) → κ → Option ε
  | [], held => held
  | x :: l, held => clear l (Function.update held x.1 none)

/-- All items have taken: the shelf can be written after it unless nobody found anything. -/
structure Taken (f : Option ε → α → Option β) (l : List (κ × α)) (s : Shelf κ ε) (bs : List β)
    (s' : Shelf κ ε) : Prop where
  made : List.Forall₂ (fun x b => ∃ e, f e x.2 = some b) l bs
  held : s'.held = clear l s.held
  readable : s'.readable = s.readable
  writable : s.writable = true → s'.writable = true
  found : s'.writable = true ∨ ∀ b ∈ bs, ∃ a, f none a = some b

theorem takeAll_taken {f : Option ε → α → Option β} {l : List (κ × α)} {s s' : Shelf κ ε}
    {bs : List β} (h : takeAll f l s = some (bs, s')) : Taken f l s bs s' := by
  induction l generalizing s bs with
  | nil =>
    obtain ⟨rfl, rfl⟩ := Prod.mk.inj (Option.some.inj h)
    exact ⟨.nil, rfl, rfl, id, .inr (by simp)⟩
  | cons x l ih =>
    obtain ⟨r, htake, h⟩ := Option.bind_eq_some_iff.mp h
    obtain ⟨b, hb, h⟩ := Option.bind_eq_some_iff.mp h
    obtain ⟨rest, hrest, heq⟩ := Option.map_eq_some_iff.mp h
    obtain ⟨rfl, rfl⟩ := Prod.mk.inj heq
    cases hread : s.readable with
    | false => simp [take, hread] at htake
    | true =>
      simp only [take, hread, if_true, Option.some.injEq] at htake
      subst htake
      obtain ⟨hmade, hheld, hsame, hmono, hor⟩ := ih hrest
      refine ⟨.cons ⟨_, hb⟩ hmade, hheld, hsame.trans hread.symm,
        fun hw => hmono (by simp [hw]), ?_⟩
      cases hheld : s.held x.1 with
      | some e => exact .inl (hmono (by simp [hheld]))
      | none =>
        rw [hheld] at hb
        exact hor.imp id fun hall => forall_mem_cons.mpr ⟨⟨x.2, hb⟩, hall⟩

theorem takeAll_returns_iff (f : Option ε → α → Option β) (l : List (κ × α)) (s : Shelf κ ε) :
    (∃ bs s', takeAll f l s = some (bs, s')) ↔
      (l ≠ [] → s.readable = true) ∧ Suits (fun a e => ∃ b, f e a = some b) l s.held := by
  have h := takeAll_iff f (fun _ _ => True) l s
  simp only [and_true] at h
  rw [← h]
  constructor
  · rintro ⟨bs, s', hs⟩
    exact ⟨bs, s', hs, (takeAll_taken hs).made.imp fun _ _ _ => trivial⟩
  · rintro ⟨bs, s', hs, -⟩
    exact ⟨bs, s', hs⟩

def leave (entry : α → Option ε) : List (κ × α) → (κ → Option ε) → κ → Option ε
  | [], held => held
  | x :: l, held =>
    leave entry l (match entry x.2 with
      | none => held
      | some e => Function.update held x.1 (some e))

theorem putAll_eq_some_iff (entry : α → Option ε) (l : List (κ × α)) (s s' : Shelf κ ε) :
    putAll entry l s = some s' ↔
      ((l ≠ [] → s.readable = true) ∧ ∀ x ∈ l, (entry x.2).isSome → s.writable = true) ∧
        s' = { s with held := leave entry l s.held } := by
  induction l generalizing s with
  | nil => simpa [putAll, leave] using eq_comm
  | cons x l ih =>
    cases hread : s.readable with
    | false => simp [putAll, put, hread]
    | true =>
      cases he : entry x.2 with
      | none => simp [putAll, put, hread, he, ih, leave]
      | some e =>
        cases hw : s.writable <;> simp [putAll, put, hread, he, hw, ih, leave]

theorem leave_append (entry : α → Option ε) (l₁ l₂ : List (κ × α)) (held : κ → Option ε) :
    leave entry (l₁ ++ l₂) held = leave entry l₂ (leave entry l₁ held) := by
  induction l₁ generalizing held with
  | nil => rfl
  | cons x l₁ ih => simp [leave, ih]

/-- What a key holds does not change where no item of that key has an entry. -/
theorem leave_of_none {entry : α → Option ε} {l : List (κ × α)} {k : κ}
    (h : ∀ x ∈ l, x.1 = k → entry x.2 = none) (held : κ → Option ε) :
    leave entry l held k = held k := by
  induction l generalizing held with
  | nil => rfl
  | cons x l ih =>
    rw [leave, ih fun y hy => h y (mem_cons_of_mem x hy)]
    cases he : entry x.2 with
    | none => rfl
    | some e =>
      have hne : k ≠ x.1 := by
        rintro rfl
        simp [h x mem_cons_self rfl] at he
      exact Function.update_of_ne hne _ _

/-- The items that share a key with one before them find nothing. -/
theorem suits_iff (P : α → Option ε → Prop) (l : List (κ × α)) (held : κ → Option ε) :
    Suits P l held ↔ l.Pairwise (fun x y => x.1 = y.1 → P y.2 none) ∧
      ∀ l₁ x l₂, l = l₁ ++ x :: l₂ → x.1 ∉ l₁.map Prod.fst → P x.2 (held x.1) := by
  induction l generalizing held with
  | nil => simp [Suits]
  | cons y l ih =>
    rw [Suits, ih, pairwise_cons]
    constructor
    · rintro ⟨hy, hpair, hfirst⟩
      refine ⟨⟨fun x hx heq => ?_, hpair⟩, fun l₁ x l₂ hl hnot => ?_⟩
      · obtain ⟨l₁, l₂, rfl⟩ := append_of_mem hx
        by_cases hbefore : x.1 ∈ l₁.map Prod.fst
        · obtain ⟨z, hz, hkey⟩ := mem_map.mp hbefore
          exact (pairwise_append.mp hpair).2.2 z hz x mem_cons_self hkey
        · have hx := hfirst l₁ x l₂ rfl hbefore
          rwa [← heq, Function.update_self] at hx
      · cases l₁ with
        | nil =>
          obtain ⟨rfl, -⟩ := List.cons.inj hl
          exact hy
        | cons z l₁ =>
          obtain ⟨rfl, htail⟩ := List.cons.inj hl
          rw [map_cons, mem_cons, not_or] at hnot
          have hx := hfirst l₁ x l₂ htail hnot.2
          rwa [Function.update_of_ne hnot.1] at hx
    · rintro ⟨⟨hlater, hpair⟩, hfirst⟩
      refine ⟨hfirst [] y l rfl (by simp), hpair, fun l₁ x l₂ hl hnot => ?_⟩
      by_cases heq : x.1 = y.1
      · rw [heq, Function.update_self]
        exact hlater x (by simp [hl]) heq.symm
      · rw [Function.update_of_ne heq]
        exact hfirst (y :: l₁) x l₂ (by rw [hl, cons_append]) (by simp [heq, hnot])

/-- Items that leave their entries and then take in the same order: of those that share a key
only the first can get its own back. -/
theorem suits_leave_iff {P : α → Option ε → Prop} {entry : α → Option ε}
    (hnone : ∀ a, P a none → entry a = none) (l : List (κ × α)) (held : κ → Option ε) :
    Suits P l (leave entry l held) ↔ l.Pairwise (fun x y => x.1 = y.1 → P y.2 none) ∧
      ∀ l₁ x l₂, l = l₁ ++ x :: l₂ → x.1 ∉ l₁.map Prod.fst → P x.2 ((entry x.2).or (held x.1)) := by
  rw [suits_iff]
  refine and_congr_right fun hpair => forall₄_congr fun l₁ x l₂ hl => forall_congr' fun hnot => ?_
  subst hl
  have hlater : ∀ y ∈ l₂, y.1 = x.1 → entry y.2 = none := fun y hy hkey =>
    hnone y.2 ((pairwise_cons.mp (pairwise_append.mp hpair).2.1).1 y hy hkey.symm)
  have hbefore : leave entry l₁ held x.1 = held x.1 :=
    leave_of_none (fun y hy hkey => absurd (mem_map.mpr ⟨y, hy, hkey⟩) hnot) held
  rw [leave_append, leave, leave_of_none hlater]
  cases he : entry x.2 with
  | none => simp [hbefore]
  | some e => simp

end TektonPipeline.Shelf
