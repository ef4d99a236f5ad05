import Mathlib.Data.List.Basic

/-! A computation on a concrete state that follows one on a view of that state: it fails where
that fails, and leaves a state with the view that leaves. -/

namespace TektonPipeline.Follows

variable {σ ρ φ ε α β γ δ : Type}

/-- `frame` is the part of the state that has to stay as it was. -/
def Follows (view : σ → ρ) (frame : σ → φ) (m : StateT σ (Except ε) α)
    (r : ρ → Option (β × ρ)) (P : β → α → Prop) : Prop :=
  ∀ s, match r (view s) with
    | some (b, v) => ∃ a s', m s = .ok (a, s') ∧ view s' = v ∧ frame s' = frame s ∧ P b a
    | none => ∃ e, m s = .error e

theorem bind_eq_ok_iff {m : StateT σ (Except ε) α} {k : α → StateT σ (Except ε) β} {s : σ}
    {r : β × σ} : (m >>= k) s = .ok r ↔ ∃ a s', m s = .ok (a, s') ∧ k a s' = .ok r := by
  change (m s >>= fun x => k x.1 x.2) = .ok r ↔ _
  cases h : m s with
  | error e => simp [Bind.bind, Except.bind]
  | ok x =>
    obtain ⟨a, s'⟩ := x
    constructor
    · intro hk
      exact ⟨a, s', rfl, hk⟩
    · rintro ⟨a, s', heq, hk⟩
      obtain ⟨rfl, rfl⟩ := Prod.mk.inj (Except.ok.inj heq)
      exact hk

theorem pure_eq_ok_iff {a b : α} {s s' : σ} :
    (pure a : StateT σ (Except ε) α) s = .ok (b, s') ↔ b = a ∧ s' = s := by
  change Except.ok (a, s) = Except.ok (b, s') ↔ _
  rw [Except.ok.injEq, Prod.mk.injEq, eq_comm, @eq_comm _ s]

theorem gives_bind_iff {m : StateT σ (Except ε) α} {k : α → StateT σ (Except ε) β} {s : σ}
    {P : β → σ → Prop} : (∃ b s', (m >>= k) s = .ok (b, s') ∧ P b s') ↔
      ∃ a s₁, m s = .ok (a, s₁) ∧ ∃ b s', k a s₁ = .ok (b, s') ∧ P b s' := by
  simp only [bind_eq_ok_iff]
  constructor
  · rintro ⟨b, s', ⟨a, s₁, hm, hk⟩, hP⟩
    exact ⟨a, s₁, hm, b, s', hk, hP⟩
  · rintro ⟨a, s₁, hm, b, s', hk, hP⟩
    exact ⟨b, s', ⟨a, s₁, hm, hk⟩, hP⟩

theorem gives_pure_iff {a : α} {s : σ} {P : α → σ → Prop} :
    (∃ b s', (pure a : StateT σ (Except ε) α) s = .ok (b, s') ∧ P b s') ↔ P a s := by
  simp [pure_eq_ok_iff]

variable {view : σ → ρ} {frame : σ → φ} {m : StateT σ (Except ε) α} {r : ρ → Option (β × ρ)}
  {P : β → α → Prop}

theorem Follows.pure {a : α} {b : β} (h : P b a) :
    Follows view frame (pure a : StateT σ (Except ε) α) (fun v => some (b, v)) P :=
  fun s => ⟨a, s, rfl, rfl, rfl, h⟩

theorem Follows.bind {k : α → StateT σ (Except ε) γ} {r' : β → ρ → Option (δ × ρ)}
    {Q : δ → γ → Prop} (hm : Follows view frame m r P)
    (hk : ∀ a b, P b a → Follows view frame (k a) (r' b) Q) :
    Follows view frame (m >>= k) (fun v => (r v).bind fun x => r' x.1 x.2) Q := by
  intro s
  have hrun := hm s
  change match (r (view s)).bind fun x => r' x.1 x.2 with
    | some (d, v) => ∃ c s', (m s >>= fun x => k x.1 x.2) = .ok (c, s') ∧
        view s' = v ∧ frame s' = frame s ∧ Q d c
    | none => ∃ e, (m s >>= fun x => k x.1 x.2) = .error e
  cases hr : r (view s) with
  | none =>
    rw [hr] at hrun
    obtain ⟨e, he⟩ := hrun
    exact ⟨e, by rw [he]; rfl⟩
  | some x =>
    obtain ⟨b, v⟩ := x
    rw [hr] at hrun
    obtain ⟨a, s', hms, rfl, hframe, hP⟩ := hrun
    have hnext := hk a b hP s'
    simp only [Option.bind_some, hms]
    cases hr' : r' b (view s') with
    | none =>
      rw [hr'] at hnext
      exact hnext
    | some y =>
      rw [hr'] at hnext
      obtain ⟨c, s'', hks, hview, hframe', hQ⟩ := hnext
      exact ⟨c, s'', hks, hview, hframe'.trans hframe, hQ⟩

theorem Follows.congr {r' : ρ → Option (β × ρ)} (hm : Follows view frame m r P)
    (h : ∀ v, r' v = r v) : Follows view frame m r' P := by
  rw [funext h]
  exact hm

/-- The same result, handed on as another value. -/
theorem Follows.map {f : α → γ} {Q : β → γ → Prop} (hm : Follows view frame m r P)
    (h : ∀ a b, P b a → Q b (f a)) : Follows view frame (m >>= fun a => Pure.pure (f a)) r Q :=
  (hm.bind fun a b hP => .pure (h a b hP)).congr fun v => (Option.bind_fun_some (r v)).symm

theorem Follows.weaken {Q : β → α → Prop} (hm : Follows view frame m r P)
    (h : ∀ a b, P b a → Q b a) : Follows view frame m r Q := by
  rw [← bind_pure m]
  exact hm.map h

/-- The computation followed may give its result under another name. -/
theorem Follows.relabel {g : β → γ} {Q : γ → α → Prop}
    (hm : Follows view frame m r fun b => Q (g b)) :
    Follows view frame m (fun v => (r v).map fun x => (g x.1, x.2)) Q := by
  rw [← bind_pure m]
  exact (hm.bind fun a b hQ => .pure hQ).congr fun v => Option.map_eq_bind ..

theorem Follows.of_ok (hm : Follows view frame m r P) {s s' : σ} {a : α} (h : m s = .ok (a, s')) :
    ∃ b, r (view s) = some (b, view s') ∧ frame s' = frame s ∧ P b a := by
  have hrun := hm s
  cases hr : r (view s) with
  | none =>
    rw [hr] at hrun
    obtain ⟨e, he⟩ := hrun
    rw [h] at he
    cases he
  | some x =>
    rw [hr] at hrun
    obtain ⟨a', s'', hms, hview, hframe, hP⟩ := hrun
    obtain ⟨rfl, rfl⟩ := Prod.mk.inj (Except.ok.inj (h.symm.trans hms))
    exact ⟨x.1, by rw [hview], hframe, hP⟩

theorem Follows.returns (hm : Follows view frame m r P) {s : σ} {b : β} {v : ρ}
    (h : r (view s) = some (b, v)) :
    ∃ a s', m s = .ok (a, s') ∧ view s' = v ∧ frame s' = frame s ∧ P b a := by
  have hrun := hm s
  rwa [h] at hrun

end TektonPipeline.Follows
