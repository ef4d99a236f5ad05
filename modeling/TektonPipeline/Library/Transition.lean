import Mathlib.Logic.Relation

namespace TektonPipeline.Transition

variable {σ ι : Type}

/-- The state after a list of moves, if every one of them is possible where it is made. -/
def run (step : σ → ι → Option σ) : σ → List ι → Option σ
  | s, [] => some s
  | s, m :: ms =>
    match step s m with
    | none => none
    | some s' => run step s' ms

/-- A condition met by every move of a run in the state where it is made. -/
def Along (step : σ → ι → Option σ) (cond : σ → ι → Prop) : σ → List ι → Prop
  | _, [] => True
  | s, m :: ms => cond s m ∧ ∀ s', step s m = some s' → Along step cond s' ms

theorem run_induction_along {step : σ → ι → Option σ} {cond : σ → ι → Prop}
    {inv : σ → Prop} (hstep : ∀ {s m s'}, inv s → cond s m → step s m = some s' → inv s') :
    ∀ {ms s t}, inv s → Along step cond s ms → run step s ms = some t → inv t := by
  intro ms
  induction ms with
  | nil =>
    intro s t hs _ h
    cases h
    exact hs
  | cons m ms ih =>
    intro s t hs halong h
    cases hm : step s m with
    | none => simp [run, hm] at h
    | some s' =>
      obtain ⟨hcond, hrest⟩ := halong
      exact ih (hstep hs hcond hm) (hrest s' hm) (by simpa [run, hm] using h)

theorem along_true (step : σ → ι → Option σ) (s : σ) (ms : List ι) :
    Along step (fun _ _ => True) s ms := by
  induction ms generalizing s with
  | nil => trivial
  | cons m ms ih => exact ⟨trivial, fun s' _ => ih s'⟩

/-- What holds at the start and survives every move holds after every run. -/
theorem run_induction {step : σ → ι → Option σ} {inv : σ → Prop}
    (hstep : ∀ {s m s'}, inv s → step s m = some s' → inv s')
    {ms : List ι} {s t : σ} (hs : inv s) (h : run step s ms = some t) : inv t :=
  run_induction_along (fun hi _ hm => hstep hi hm) hs (along_true step s ms) h

def trace (next : σ → ι → σ) : σ → List ι → List (σ × ι)
  | _, [] => []
  | s, m :: ms => (s, m) :: trace next (next s m) ms

section
variable {next : σ → ι → σ} {s : σ} {ms : List ι} {i j : Nat} {e e' : σ × ι}

theorem trace_succ {k : Nat} (h : (trace next s ms)[k + 1]? = some e') :
    ∃ e, (trace next s ms)[k]? = some e ∧ e'.1 = next e.1 e.2 := by
  induction ms generalizing s k with
  | nil => simp [trace] at h
  | cons m ms ih =>
    cases k with
    | zero =>
      refine ⟨(s, m), rfl, ?_⟩
      cases ms with
      | nil => simp [trace] at h
      | cons m' ms =>
        simp only [trace, List.getElem?_cons_succ, List.getElem?_cons_zero, Option.some.injEq] at h
        rw [← h]
    | succ k => exact ih (by simpa [trace] using h)

/-- What holds at one move of a run and is kept by the moves from there on holds at all of
these. -/
theorem trace_from (inv : σ → Prop) (hi : (trace next s ms)[i]? = some e) (hinv : inv e.1)
    (hij : i ≤ j) (hj : (trace next s ms)[j]? = some e')
    (hstep : ∀ k d, i ≤ k → k < j → (trace next s ms)[k]? = some d →
      inv d.1 → inv (next d.1 d.2)) : inv e'.1 := by
  induction j generalizing e' with
  | zero =>
    obtain rfl : i = 0 := by omega
    have heq : e = e' := Option.some.inj (hi.symm.trans hj)
    exact heq ▸ hinv
  | succ j ih =>
    rcases Nat.lt_or_eq_of_le hij with hlt | rfl
    · obtain ⟨d, hd, hnext⟩ := trace_succ hj
      rw [hnext]
      refine hstep j d (by omega) (by omega) hd ?_
      exact ih (by omega) hd fun k d hk hkj => hstep k d hk (by omega)
    · have heq : e = e' := Option.some.inj (hi.symm.trans hj)
      exact heq ▸ hinv

/-- What one move of a run brings about and the moves behind it keep holds at all of
these. -/
theorem trace_after (inv : σ → Prop) (hi : (trace next s ms)[i]? = some e)
    (hinv : inv (next e.1 e.2)) (hij : i < j) (hj : (trace next s ms)[j]? = some e')
    (hstep : ∀ k d, i < k → k < j → (trace next s ms)[k]? = some d →
      inv d.1 → inv (next d.1 d.2)) : inv e'.1 := by
  obtain ⟨d, hd⟩ : ∃ d, (trace next s ms)[i + 1]? = some d := by
    obtain ⟨hlt, -⟩ := List.getElem?_eq_some_iff.mp hj
    exact ⟨_, List.getElem?_eq_getElem (Nat.lt_of_le_of_lt hij hlt)⟩
  obtain ⟨d', hd', hnext⟩ := trace_succ hd
  obtain rfl : e = d' := Option.some.inj (hi.symm.trans hd')
  exact trace_from inv hd (hnext ▸ hinv) hij hj hstep

end

section
variable {τ : Type} {step : σ → σ → Prop} {step' : τ → τ → Prop} {related : σ → τ → Prop}

/-- Steps that each match a step of a system without endless runs have no endless run. -/
theorem acc_of_simulated
    (hsim : ∀ {s t s'}, related s t → step s s' → ∃ t', step' t t' ∧ related s' t') {s : σ} {t : τ}
    (hst : related s t) (hacc : Acc (fun t' t => step' t t') t) :
    Acc (fun s' s => step s s') s := by
  induction hacc generalizing s with
  | intro t _ ih =>
    refine Acc.intro s fun s' hstep => ?_
    obtain ⟨t', hstep', hst'⟩ := hsim hst hstep
    exact ih t' hstep' hst'

/-- A system without endless runs, in which every state that is not finished can make a step,
gets to a finished one. -/
theorem exists_finished {finished : σ → Prop} {inv : σ → Prop}
    (hinv : ∀ {s s'}, inv s → step s s' → inv s')
    (hprogress : ∀ s, inv s → finished s ∨ ∃ s', step s s') {s : σ} (hs : inv s)
    (hacc : Acc (fun s' s => step s s') s) : ∃ t, Relation.ReflTransGen step s t ∧ finished t := by
  induction hacc with
  | intro s _ ih =>
    rcases hprogress s hs with hfinished | ⟨s', hstep⟩
    · exact ⟨s, .refl, hfinished⟩
    · obtain ⟨t, hrun, hfinished⟩ := ih s' hstep (hinv hs hstep)
      exact ⟨t, .head hstep hrun, hfinished⟩

end

section
variable {ε : Type} {step : σ → ε → Option σ} {inv : List ε → σ → Prop}
  {allowed : List ε → ε → Prop}

/-- A run whose steps may fail gets to its end exactly if each event is allowed after the ones
before it. -/
theorem isSome_foldlM_iff
    (hallowed : ∀ {pre s e}, inv pre s → ((step s e).isSome = true ↔ allowed pre e))
    (hinv : ∀ {pre s e s'}, inv pre s → step s e = some s' → inv (pre ++ [e]) s')
    {pre : List ε} {s : σ} (h : inv pre s) (es : List ε) : (es.foldlM step s).isSome = true ↔
      ∀ pre' e post, es = pre' ++ e :: post → allowed (pre ++ pre') e := by
  induction es generalizing pre s with
  | nil => simp
  | cons e es ih =>
    rw [List.foldlM_cons]
    cases hstep : step s e with
    | none =>
      refine iff_of_false (by simp) fun hall => ?_
      have hsome := (hallowed h).mpr (List.append_nil pre ▸ hall [] e es rfl)
      simp [hstep] at hsome
    | some s' =>
      have hfirst : allowed pre e := (hallowed h).mp (by simp [hstep])
      rw [Option.bind_eq_bind, Option.bind_some, ih (hinv h hstep)]
      constructor
      · intro hall pre' e' post hes
        cases pre' with
        | nil =>
          obtain ⟨rfl, -⟩ := List.cons.inj hes
          rwa [List.append_nil]
        | cons d pre' =>
          obtain ⟨rfl, hrest⟩ := List.cons.inj hes
          simpa using hall pre' e' post hrest
      · intro hall pre' e' post hes
        simpa using hall (e :: pre') e' post (by rw [hes]; rfl)

end

end TektonPipeline.Transition
