import Mathlib.Data.Finset.Prod
import Mathlib.Order.WellFounded

/-! Kahn's algorithm with any order of work. An edge is taken out when its source is worked
on, and a target left without edges becomes ready. Whatever the order, what stays are the
edges whose source lies on or behind a cycle. -/

namespace TektonPipeline.Kahn
open Relation

variable {α : Type} [DecidableEq α]

def Edge (edges : Finset (α × α)) (a b : α) : Prop := (a, b) ∈ edges

def Acyclic (edges : Finset (α × α)) : Prop := ∀ a, ¬ TransGen (Edge edges) a a

structure State (α : Type) where
  pending : Finset (α × α)
  ready : Finset α
  current : Option α := none

/-- No edge that is still there leads to `a`. -/
def Free (pending : Finset (α × α)) (a : α) : Prop := ∀ e ∈ pending, e.2 ≠ a

instance (pending : Finset (α × α)) (a : α) : Decidable (Free pending a) :=
  inferInstanceAs (Decidable (∀ e ∈ pending, e.2 ≠ a))

inductive Step : State α → State α → Prop
  | take {s : State α} {p : α} (hcurrent : s.current = none) (hp : p ∈ s.ready) :
      Step s { s with ready := s.ready.erase p, current := some p }
  | relax {s : State α} {p c : α} (hcurrent : s.current = some p) (hc : (p, c) ∈ s.pending) :
      Step s { s with
        pending := s.pending.erase (p, c)
        ready := if Free (s.pending.erase (p, c)) c then insert c s.ready else s.ready }
  | leave {s : State α} {p : α} (hcurrent : s.current = some p)
      (hnone : ∀ c, (p, c) ∉ s.pending) : Step s { s with current := none }

def State.Finished (s : State α) : Prop := s.current = none ∧ s.ready = ∅

def start (edges : Finset (α × α)) : State α where
  pending := edges
  ready := (edges.image (·.1)).filter (Free edges)

/-- An edge weighs more than the entry it may put into the work set, and that more than the
node being worked on. -/
def State.weight (s : State α) : Nat :=
  3 * s.pending.card + 2 * s.ready.card + if s.current.isSome then 1 else 0

theorem Step.weight_lt {s s' : State α} (h : Step s s') : s'.weight < s.weight := by
  cases h with
  | take hcurrent hp =>
    have hcard := Finset.card_erase_add_one hp
    simp [State.weight, hcurrent]
    omega
  | @relax p c hcurrent hc =>
    have hcard := Finset.card_erase_add_one hc
    have hready : (if Free (s.pending.erase (p, c)) c then insert c s.ready
        else s.ready).card ≤ s.ready.card + 1 := by
      split
      · exact Finset.card_insert_le _ _
      · omega
    simp only [State.weight]
    omega
  | leave hcurrent hnone =>
    simp [State.weight, hcurrent]

/-- Every order of work comes to an end. -/
theorem step_wellFounded : WellFounded fun s' s : State α => Step s s' :=
  Subrelation.wf (fun h => h.weight_lt) (measure State.weight).wf

/-- What was taken out or is worked on is not behind a cycle, and a node nothing leads to any
more is worked on until nothing leads from it. -/
structure Sound (edges : Finset (α × α)) (s : State α) : Prop where
  sub : s.pending ⊆ edges
  removed : ∀ e ∈ edges, e ∉ s.pending → Acc (Edge edges) e.1
  active : ∀ p, p ∈ s.ready ∨ s.current = some p → Acc (Edge edges) p
  waiting : ∀ e ∈ s.pending, Free s.pending e.1 → e.1 ∈ s.ready ∨ s.current = some e.1

variable {edges : Finset (α × α)} {s s' : State α}

omit [DecidableEq α] in
theorem acc_of_free (hremoved : ∀ e ∈ edges, e ∉ s.pending → Acc (Edge edges) e.1) {a : α}
    (hfree : Free s.pending a) : Acc (Edge edges) a := by
  refine Acc.intro a fun d hd => ?_
  exact hremoved (d, a) hd fun hmem => hfree (d, a) hmem rfl

theorem start_sound : Sound edges (start edges) where
  sub := Finset.Subset.refl edges
  removed := fun e he hnot => absurd he hnot
  active := by
    rintro p (hp | hp)
    · exact acc_of_free (s := start edges) (fun e he hnot => absurd he hnot)
        (Finset.mem_filter.mp hp).2
    · cases hp
  waiting := fun e he hfree =>
    .inl (Finset.mem_filter.mpr ⟨Finset.mem_image_of_mem _ he, hfree⟩)

theorem Sound.relax (h : Sound edges s) {p c : α} (hcurrent : s.current = some p) :
    Sound edges { s with
      pending := s.pending.erase (p, c)
      ready := if Free (s.pending.erase (p, c)) c then insert c s.ready else s.ready } := by
  have hremoved : ∀ e ∈ edges, e ∉ s.pending.erase (p, c) → Acc (Edge edges) e.1 := by
    intro e he hnot
    by_cases heq : e = (p, c)
    · rw [heq]
      exact h.active p (.inr hcurrent)
    · exact h.removed e he fun hmem => hnot (Finset.mem_erase.mpr ⟨heq, hmem⟩)
  refine ⟨(Finset.erase_subset _ _).trans h.sub, hremoved, ?_, ?_⟩
  · rintro q (hq | hq)
    · dsimp only at hq
      split at hq
      · rename_i hfree
        rcases Finset.mem_insert.mp hq with rfl | hq
        · exact acc_of_free (s := { s with pending := s.pending.erase (p, q) }) hremoved hfree
        · exact h.active q (.inl hq)
      · exact h.active q (.inl hq)
    · exact h.active q (.inr hq)
  · intro e he hfree
    dsimp only at he hfree ⊢
    by_cases hbefore : Free s.pending e.1
    · rcases h.waiting e (Finset.mem_of_mem_erase he) hbefore with hready | hcur
      · left
        split
        · exact Finset.mem_insert_of_mem hready
        · exact hready
      · exact .inr hcur
    · -- only the edge taken out led there
      have heq : e.1 = c := by
        by_contra hne
        refine hbefore fun d hd hto => hfree d (Finset.mem_erase.mpr ⟨?_, hd⟩) hto
        rintro rfl
        exact hne hto.symm
      rw [heq] at hfree ⊢
      rw [if_pos hfree]
      exact .inl (Finset.mem_insert_self _ _)

theorem Sound.step (h : Sound edges s) (hstep : Step s s') : Sound edges s' := by
  cases hstep with
  | @take p hcurrent hp =>
    refine ⟨h.sub, h.removed, ?_, ?_⟩
    · rintro q (hq | hq)
      · exact h.active q (.inl (Finset.mem_of_mem_erase hq))
      · obtain rfl := Option.some.inj hq
        exact h.active p (.inl hp)
    · intro e he hfree
      rcases h.waiting e he hfree with hready | hcur
      · by_cases heq : e.1 = p
        · exact .inr (by rw [heq])
        · exact .inl (Finset.mem_erase.mpr ⟨heq, hready⟩)
      · rw [hcurrent] at hcur
        cases hcur
  | relax hcurrent hc => exact h.relax hcurrent
  | @leave p hcurrent hnone =>
    refine ⟨h.sub, h.removed, ?_, ?_⟩
    · rintro q (hq | hq)
      · exact h.active q (.inl hq)
      · cases hq
    · intro e he hfree
      rcases h.waiting e he hfree with hready | hcur
      · exact .inl hready
      · obtain rfl := Option.some.inj (hcurrent.symm.trans hcur)
        exact absurd he (hnone e.2)

/-- At the end exactly the edges from tasks on or behind a cycle are left. -/
theorem Sound.mem_pending (h : Sound edges s) (hfinished : s.Finished) {e : α × α} :
    e ∈ s.pending ↔ e ∈ edges ∧ ¬ Acc (Edge edges) e.1 := by
  have hidle : ∀ e ∈ s.pending, ¬ Free s.pending e.1 := by
    intro e he hfree
    rcases h.waiting e he hfree with hready | hcur
    · simp [hfinished.2] at hready
    · simp [hfinished.1] at hcur
  have hgone : ∀ a, Acc (Edge edges) a → ∀ e ∈ s.pending, e.1 ≠ a := by
    intro a hacc
    induction hacc with
    | intro a _ ih =>
      rintro e he rfl
      -- every edge to it has an accessible source, so none is left
      refine hidle e he fun d hd hto => ih d.1 ?_ d hd rfl
      have hd' := h.sub hd
      rwa [← hto]
  constructor
  · intro he
    exact ⟨h.sub he, fun hacc => hgone e.1 hacc e he rfl⟩
  · rintro ⟨he, hnot⟩
    by_contra hgone'
    exact hnot (h.removed e he hgone')

/-- Without a cycle nodes rank by the number of sources from which they can be reached. -/
theorem exists_rank (h : Acyclic edges) :
    ∃ rank : α → Nat, ∀ a b, Edge edges a b → rank a < rank b := by
  classical
  refine ⟨fun b => ((edges.image (·.1)).filter fun d => TransGen (Edge edges) d b).card,
    fun a b hab => Finset.card_lt_card (Finset.ssubset_iff_subset_ne.mpr ⟨fun d hd => ?_, ?_⟩)⟩
  · obtain ⟨hd, hreach⟩ := Finset.mem_filter.mp hd
    exact Finset.mem_filter.mpr ⟨hd, hreach.tail hab⟩
  · intro heq
    have ha : a ∈ (edges.image (·.1)).filter fun d => TransGen (Edge edges) d b :=
      Finset.mem_filter.mpr ⟨Finset.mem_image_of_mem _ hab, .single hab⟩
    rw [← heq] at ha
    exact h a (Finset.mem_filter.mp ha).2

theorem acc_of_acyclic (h : Acyclic edges) (b : α) : Acc (Edge edges) b := by
  obtain ⟨rank, hrank⟩ := exists_rank h
  exact (Subrelation.wf (fun {a b} hab => hrank a b hab) (measure rank).wf).apply b

omit [DecidableEq α] in
theorem acyclic_of_acc (h : ∀ e ∈ edges, Acc (Edge edges) e.1) : Acyclic edges := by
  have hacc : ∀ a, Acc (Edge edges) a := fun a => Acc.intro a fun d hd => h (d, a) hd
  intro a ha
  exact (WellFounded.transGen ⟨hacc⟩).irrefl.irrefl a ha

end TektonPipeline.Kahn
