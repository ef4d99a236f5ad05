import Mathlib.Data.List.Basic

/-! Computations over a state that may fail to return, and rules for what holds when they
do return. -/

namespace TektonPipeline.Stateful
open List

variable {σ α β γ : Type}

abbrev Eval (σ α : Type) := StateT σ Option α

/-- The computation does not return. -/
def stuck : Eval σ α := fun _ => none

def anyOf (p : β → Eval σ Bool) : List β → Eval σ Bool
  | [] => pure false
  | b :: bs => do
    if ← p b then return true
    anyOf p bs

def allOf (p : β → Eval σ Bool) : List β → Eval σ Bool
  | [] => pure true
  | b :: bs => do
    if ← p b then allOf p bs
    else return false

def filterOf (p : β → Eval σ Bool) : List β → Eval σ (List β)
  | [] => pure []
  | b :: bs => do
    let keep ← p b
    let rest ← filterOf p bs
    return if keep then b :: rest else rest

def mapOf (p : β → Eval σ γ) : List β → Eval σ (List γ)
  | [] => pure []
  | b :: bs => do
    let c ← p b
    let cs ← mapOf p bs
    return c :: cs

/-- Started where `P` holds, `Q` holds of what the computation returns and of the state it
leaves; a `total` one returns. -/
def Runs (total : Bool) (P : σ → Prop) (m : Eval σ α) (Q : α → σ → Prop) : Prop :=
  ∀ s, P s →
    match m s with
    | some r => Q r.1 r.2
    | none => total = false

section
variable {total : Bool} {P : σ → Prop} {m : Eval σ α} {Q : α → σ → Prop}

theorem Runs.returns (h : Runs true P m Q) {s : σ} (hs : P s) :
    ∃ a s', m s = some (a, s') ∧ Q a s' := by
  have hrun := h s hs
  cases hm : m s with
  | none => simp [hm] at hrun
  | some r =>
    rw [hm] at hrun
    exact ⟨r.1, r.2, rfl, hrun⟩

theorem Runs.bind {R : α → σ → Prop} {k : α → Eval σ β} {T : β → σ → Prop}
    (hm : Runs total P m R) (hk : ∀ a, Runs total (R a) (k a) T) : Runs total P (m >>= k) T := by
  intro s hs
  have hrun := hm s hs
  change match (m s).bind (fun p => k p.1 p.2) with
    | some r => T r.1 r.2
    | none => total = false
  cases h : m s with
  | none =>
    rw [h] at hrun
    exact hrun
  | some r =>
    rw [h] at hrun
    exact hk r.1 r.2 hrun

end

/-- Where `I` holds the computation keeps it, and `Q` holds of what it returns. -/
def Keeps (total : Bool) (I : σ → Prop) (m : Eval σ α) (Q : α → Prop) : Prop :=
  Runs total I m fun a s => I s ∧ Q a

section
variable {total : Bool} {I : σ → Prop} {m m' : Eval σ α} {Q Q' : α → Prop} {T : β → Prop}

theorem Keeps.result (h : Keeps total I m Q) {s s' : σ} {a : α} (hs : I s)
    (hm : m s = some (a, s')) : I s' ∧ Q a := by
  have hrun := h s hs
  rw [hm] at hrun
  exact hrun

theorem Keeps.stuck : Keeps false I (stuck : Eval σ α) Q := fun _ _ => rfl

theorem Keeps.pure {a : α} (h : Q a) : Keeps total I (pure a) Q := fun _ hs => ⟨hs, h⟩

theorem Keeps.bind {k : α → Eval σ β} (hm : Keeps total I m Q)
    (hk : ∀ a, Q a → Keeps total I (k a) T) : Keeps total I (m >>= k) T :=
  Runs.bind hm fun a s hs => hk a hs.2 s hs.1

theorem Keeps.get_bind {k : σ → Eval σ β} (hk : ∀ s, I s → Keeps total I (k s) T) :
    Keeps total I (get >>= k) T :=
  fun s hs => hk s hs s hs

theorem Keeps.modify {f : σ → σ} {T : PUnit → Prop} (hf : ∀ s, I s → I (f s)) (hT : T ⟨⟩) :
    Keeps total I (modify f) T :=
  fun s hs => ⟨hf s hs, hT⟩

theorem Keeps.imp (h : Keeps total I m Q) (hQ : ∀ a, Q a → Q' a) : Keeps total I m Q' := by
  intro s hs
  have hrun := h s hs
  cases hm : m s with
  | none =>
    rw [hm] at hrun
    exact hrun
  | some r =>
    rw [hm] at hrun
    exact ⟨hrun.1, hQ r.1 hrun.2⟩

theorem Keeps.ite {c : Prop} [Decidable c] (h : c → Keeps total I m Q)
    (h' : ¬ c → Keeps total I m' Q) : Keeps total I (if c then m else m') Q := by
  by_cases hc : c
  · rw [if_pos hc]
    exact h hc
  · rw [if_neg hc]
    exact h' hc

/-- A check and what depends on it. -/
theorem Keeps.bind_ite {m : Eval σ Bool} {R : Bool → Prop} {k k' : Eval σ β}
    (hm : Keeps total I m R) (hk : R true → Keeps total I k T)
    (hk' : R false → Keeps total I k' T) :
    Keeps total I (m >>= fun b => if b = true then k else k') T := by
  refine hm.bind fun b hb => ?_
  cases b with
  | true => exact hk hb
  | false => exact hk' hb

end

/-- Each check of a loop that found all of them true was made after the ones before it. -/
theorem allOf_eq_true {p : β → Eval σ Bool} {l : List β} {s s' : σ}
    (h : allOf p l s = some (true, s')) {l₁ l₂ : List β} {b : β} (hl : l = l₁ ++ b :: l₂) :
    ∃ s₁ s₂, allOf p l₁ s = some (true, s₁) ∧ p b s₁ = some (true, s₂) := by
  induction l₁ generalizing l s with
  | nil =>
    subst hl
    change (p b s).bind _ = _ at h
    cases hp : p b s with
    | none => simp [hp] at h
    | some r =>
      obtain ⟨r, s₂⟩ := r
      rw [hp] at h
      cases r with
      | true => exact ⟨s, s₂, rfl, hp⟩
      | false => cases h
  | cons c l₁ ih =>
    subst hl
    change (p c s).bind _ = _ at h
    cases hp : p c s with
    | none => simp [hp] at h
    | some r =>
      obtain ⟨r, s₀⟩ := r
      rw [hp] at h
      cases r with
      | false => cases h
      | true =>
        obtain ⟨s₁, s₂, hall, hb⟩ := ih h rfl
        refine ⟨s₁, s₂, ?_, hb⟩
        change (p c s).bind _ = _
        rw [hp]
        exact hall

section
variable {total : Bool} {I : σ → Prop} {p : β → Eval σ Bool} {V : β → Bool → Prop} {l : List β}

section
variable (hp : ∀ b ∈ l, Keeps total I (p b) (V b))
include hp

theorem Keeps.anyOf : Keeps total I (anyOf p l) fun r =>
    (r = true → ∃ b ∈ l, V b true) ∧ (r = false → ∀ b ∈ l, V b false) := by
  induction l with
  | nil => exact .pure ⟨by simp, by simp⟩
  | cons b l ih =>
    simp only [exists_mem_cons_iff, forall_mem_cons] at hp ⊢
    refine hp.1.bind_ite (fun hv => .pure ⟨fun _ => .inl hv, by simp⟩) fun hv => ?_
    exact (ih hp.2).imp fun r hr => ⟨fun h => .inr (hr.1 h), fun h => ⟨hv, hr.2 h⟩⟩

theorem Keeps.allOf : Keeps total I (allOf p l) fun r =>
    (r = true → ∀ b ∈ l, V b true) ∧ (r = false → ∃ b ∈ l, V b false) := by
  induction l with
  | nil => exact .pure ⟨by simp, by simp⟩
  | cons b l ih =>
    simp only [exists_mem_cons_iff, forall_mem_cons] at hp ⊢
    refine hp.1.bind_ite (fun hv => ?_) fun hv => .pure ⟨by simp, fun _ => .inl hv⟩
    exact (ih hp.2).imp fun r hr => ⟨fun h => ⟨hv, hr.1 h⟩, fun h => .inr (hr.2 h)⟩

theorem Keeps.filterOf : Keeps total I (filterOf p l) fun r =>
      r.Sublist l ∧ (∀ b ∈ r, V b true) ∧ ∀ b ∈ l, b ∉ r → V b false := by
  induction l with
  | nil => exact .pure ⟨.slnil, by simp, by simp⟩
  | cons b l ih =>
    rw [forall_mem_cons] at hp
    refine hp.1.bind fun keep hv => (ih hp.2).bind fun r hr => .pure ?_
    obtain ⟨hsub, hyes, hno⟩ := hr
    cases keep with
    | true =>
      refine ⟨hsub.cons_cons b, forall_mem_cons.mpr ⟨hv, hyes⟩, fun c hc hnot => ?_⟩
      rw [if_pos rfl, mem_cons, not_or] at hnot
      exact hno c ((mem_cons.mp hc).resolve_left hnot.1) hnot.2
    | false => exact ⟨hsub.cons b, hyes, forall_mem_cons.mpr ⟨fun _ => hv, hno⟩⟩

end

theorem Keeps.mapOf {q : β → Eval σ γ} {W : β → γ → Prop}
    (hq : ∀ b ∈ l, Keeps total I (q b) (W b)) :
    Keeps total I (mapOf q l) fun cs => ∀ b ∈ l, ∃ c ∈ cs, W b c := by
  induction l with
  | nil => exact .pure (by simp)
  | cons b l ih =>
    rw [forall_mem_cons] at hq
    refine hq.1.bind fun c hw => (ih hq.2).bind fun cs hcs => .pure ?_
    simp only [exists_mem_cons_iff, forall_mem_cons]
    exact ⟨.inl hw, fun b' hb' => .inr (hcs b' hb')⟩

end

/-- Where `I` holds the computation returns `a`, and `I` still holds. -/
def Returns (I : σ → Prop) (m : Eval σ α) (a : α) : Prop := Runs true I m fun r s => I s ∧ r = a

section
variable {I : σ → Prop} {m m' : Eval σ α} {a : α} {b : γ}

theorem Returns.eval (h : Returns I m a) {s : σ} (hs : I s) : ∃ s', m s = some (a, s') ∧ I s' := by
  obtain ⟨r, s', hm, hs', rfl⟩ := Runs.returns h hs
  exact ⟨s', hm, hs'⟩

theorem Returns.pure (a : α) : Returns I (pure a) a := Keeps.pure rfl

theorem Returns.bind {k : α → Eval σ γ} (hm : Returns I m a) (hk : Returns I (k a) b) :
    Returns I (m >>= k) b :=
  Keeps.bind hm fun _ heq => heq ▸ hk

theorem Returns.get_bind {k : σ → Eval σ γ} (hk : ∀ s, I s → Returns I (k s) b) :
    Returns I (get >>= k) b :=
  Keeps.get_bind hk

end

end TektonPipeline.Stateful
