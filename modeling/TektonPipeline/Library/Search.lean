import Mathlib.Data.List.Basic

/-! Depth-first search with one set of visited nodes. A node that does not let the search
pass is reported and not looked behind. -/

namespace TektonPipeline.Search
open List

variable {α β : Type}

inductive Reached (next : α → List α) (pass : α → Bool) (roots : List α) : α → Prop
  | root {a : α} (h : a ∈ roots) : Reached next pass roots a
  | step {a b : α} (ha : Reached next pass roots a) (hpass : pass a = true)
      (hb : b ∈ next a) : Reached next pass roots b

theorem Reached.mono {next : α → List α} {pass : α → Bool} {roots roots' : List α} {a : α}
    (h : Reached next pass roots a) (hsub : ∀ b ∈ roots, Reached next pass roots' b) :
    Reached next pass roots' a := by
  induction h with
  | root h => exact hsub _ h
  | step _ hpass hb ih => exact .step ih hpass hb

def visitEach (v : α → List α → List β × List α) : List α → List α → List β × List α
  | [], visited => ([], visited)
  | b :: bs, visited =>
    let r := v b visited
    let r' := visitEach v bs r.2
    (r.1 ++ r'.1, r'.2)

theorem length_filter_lt {p q : α → Bool} {l : List α} {a : α} (h : ∀ b, p b = true → q b = true)
    (ha : a ∈ l) (hq : q a = true) (hp : p a = false) :
    (l.filter p).length < (l.filter q).length := by
  have heq : l.filter p = (l.filter q).filter p := by
    rw [filter_filter]
    refine filter_congr fun b _ => ?_
    cases hb : p b with
    | false => rfl
    | true => simp [h b hb]
  rw [heq, length_filter_lt_length_iff_exists]
  exact ⟨a, mem_filter.mpr ⟨ha, hq⟩, by simp [hp]⟩

/-- A rank can be taken no larger than the number of nodes. -/
theorem exists_bounded_rank {rank : α → Nat} {edge : α → α → Prop} {nodes : List α}
    (hnodes : ∀ a b, edge a b → a ∈ nodes) (hrank : ∀ a b, edge a b → rank a < rank b) :
    ∃ rank' : α → Nat, (∀ a b, edge a b → rank' a < rank' b) ∧ ∀ a, rank' a ≤ nodes.length := by
  refine ⟨fun b => (nodes.filter fun a => decide (rank a < rank b)).length, ?_, ?_⟩
  · intro a b hab
    have hlt := hrank a b hab
    refine length_filter_lt (a := a) (fun c hc => ?_) (hnodes a b hab) (by simpa using hlt)
      (by simp)
    simp only [decide_eq_true_eq] at hc ⊢
    omega
  · intro a
    exact length_filter_le _ _

section
variable (next : α → List α) (pass : α → Bool) (report : α → List β)

def visit [DecidableEq α] : Nat → α → List α → List β × List α
  | 0, _, visited => ([], visited)
  | fuel + 1, a, visited =>
    if a ∈ visited then ([], visited)
    else if pass a then visitEach (visit fuel) (next a) (a :: visited)
    else (report a, a :: visited)

/-- What a search from `start` makes of the nodes visited before it. -/
structure Searched (start visited : List α) (r : List β × List α) : Prop where
  grows : ∀ a ∈ visited, a ∈ r.2
  starts : ∀ a ∈ start, a ∈ r.2
  sound : ∀ a ∈ r.2, a ∉ visited → Reached next pass start a
  closed : ∀ a ∈ r.2, a ∉ visited → pass a = true → ∀ b ∈ next a, b ∈ r.2
  reports : ∀ c, c ∈ r.1 ↔ ∃ a ∈ r.2, a ∉ visited ∧ pass a = false ∧ c ∈ report a

variable {next pass report} {a : α} {start visited : List α} {r : List β × List α}

theorem Searched.skip (h : ∀ a ∈ start, a ∈ visited) :
    Searched next pass report start visited ([], visited) where
  grows _ ha := ha
  starts := h
  sound _ ha hnot := absurd ha hnot
  closed _ ha hnot := absurd ha hnot
  reports c := by
    refine iff_of_false (by simp) ?_
    rintro ⟨a, ha, hnot, -⟩
    exact hnot ha

/-- One search after the other. -/
theorem Searched.append {r' : List β × List α} (h : Searched next pass report [a] visited r)
    (h' : Searched next pass report start r.2 r') :
    Searched next pass report (a :: start) visited (r.1 ++ r'.1, r'.2) where
  grows b hb := h'.grows b (h.grows b hb)
  starts b hb := by
    rcases mem_cons.mp hb with rfl | hb
    · exact h'.grows b (h.starts b (mem_singleton_self b))
    · exact h'.starts b hb
  sound b hb hnot := by
    by_cases hr : b ∈ r.2
    · refine (h.sound b hr hnot).mono fun c hc => .root ?_
      simp [mem_singleton.mp hc]
    · exact (h'.sound b hb hr).mono fun c hc => .root (mem_cons_of_mem a hc)
  closed b hb hnot hpass c hc := by
    by_cases hr : b ∈ r.2
    · exact h'.grows c (h.closed b hr hnot hpass c hc)
    · exact h'.closed b hb hr hpass c hc
  reports c := by
    rw [mem_append, h.reports, h'.reports]
    constructor
    · rintro (⟨b, hb, hnot, hrest⟩ | ⟨b, hb, hnot, hrest⟩)
      · exact ⟨b, h'.grows b hb, hnot, hrest⟩
      · exact ⟨b, hb, fun hv => hnot (h.grows b hv), hrest⟩
    · rintro ⟨b, hb, hnot, hrest⟩
      by_cases hr : b ∈ r.2
      · exact .inl ⟨b, hr, hnot, hrest⟩
      · exact .inr ⟨b, hb, hr, hrest⟩

theorem visitEach_searched {v : α → List α → List β × List α}
    (hv : ∀ a ∈ start, ∀ before, (∀ b ∈ visited, b ∈ before) →
      Searched next pass report [a] before (v a before)) :
    Searched next pass report start visited (visitEach v start visited) := by
  induction start generalizing visited with
  | nil => exact .skip (by simp)
  | cons a start ih =>
    have ha := hv a mem_cons_self visited fun _ h => h
    refine ha.append (ih fun b hb before hbefore => ?_)
    exact hv b (mem_cons_of_mem a hb) before fun c hc => hbefore c (ha.grows c hc)

/-- A node that lets the search pass is searched by what is behind it. -/
theorem Searched.behind (hnot : a ∉ visited) (hpass : pass a = true)
    (h : Searched next pass report (next a) (a :: visited) r) :
    Searched next pass report [a] visited r where
  grows b hb := h.grows b (mem_cons_of_mem a hb)
  starts b hb := h.grows b (by simp [mem_singleton.mp hb])
  sound b hb hnotb := by
    have hroot : Reached next pass [a] a := .root (mem_singleton_self a)
    by_cases heq : b = a
    · exact heq ▸ hroot
    · exact (h.sound b hb (by simp [heq, hnotb])).mono fun c hc => .step hroot hpass hc
  closed b hb hnotb hpassb c hc := by
    by_cases heq : b = a
    · subst heq
      exact h.starts c hc
    · exact h.closed b hb (by simp [heq, hnotb]) hpassb c hc
  reports c := by
    rw [h.reports]
    constructor
    · rintro ⟨b, hb, hnotb, hrest⟩
      exact ⟨b, hb, fun hv => hnotb (mem_cons_of_mem a hv), hrest⟩
    · rintro ⟨b, hb, hnotb, hpassb, hrest⟩
      refine ⟨b, hb, ?_, hpassb, hrest⟩
      intro hmem
      rcases mem_cons.mp hmem with rfl | hmem
      · rw [hpass] at hpassb
        cases hpassb
      · exact hnotb hmem

theorem Searched.stop (hnot : a ∉ visited) (hpass : pass a = false) :
    Searched next pass report [a] visited (report a, a :: visited) where
  grows b hb := mem_cons_of_mem a hb
  starts b hb := by simp [mem_singleton.mp hb]
  sound b hb hnotb := by
    rcases mem_cons.mp hb with rfl | hb
    · exact .root (mem_singleton_self b)
    · exact absurd hb hnotb
  closed b hb hnotb hpassb := by
    rcases mem_cons.mp hb with rfl | hb
    · rw [hpass] at hpassb
      cases hpassb
    · exact absurd hb hnotb
  reports c := by
    constructor
    · intro hc
      exact ⟨a, mem_cons_self, hnot, hpass, hc⟩
    · rintro ⟨b, hb, hnotb, -, hc⟩
      rcases mem_cons.mp hb with rfl | hb
      · exact hc
      · exact absurd hb hnotb

/-- Fuel for one more node than is left to visit is enough. -/
theorem visit_searched [DecidableEq α] {nodes : List α}
    (hnext : ∀ a ∈ nodes, ∀ b ∈ next a, b ∈ nodes)
    (fuel : Nat) (a : α) (visited : List α) (ha : a ∈ nodes)
    (hfuel : (nodes.filter fun b => decide (b ∉ visited)).length < fuel) :
    Searched next pass report [a] visited (visit next pass report fuel a visited) := by
  induction fuel generalizing a visited with
  | zero => omega
  | succ fuel ih =>
    unfold visit
    split
    · rename_i hmem
      exact .skip fun b hb => by simpa [mem_singleton.mp hb] using hmem
    · rename_i hnot
      split
      · rename_i hpass
        refine .behind hnot hpass (visitEach_searched fun b hb before hbefore => ?_)
        have hlt : (nodes.filter fun b => decide (b ∉ before)).length <
            (nodes.filter fun b => decide (b ∉ visited)).length := by
          refine length_filter_lt (a := a) (fun c hc => ?_) ha (by simpa using hnot) ?_
          · simp only [decide_eq_true_eq] at hc ⊢
            exact fun hv => hc (hbefore c (mem_cons_of_mem a hv))
          · simpa using hbefore a mem_cons_self
        exact ih b before (hnext a ha b hb) (by omega)
      · rename_i hpass
        exact .stop hnot (by simpa using hpass)

/-- A search from nothing visits what is reached. -/
theorem Searched.mem_iff (h : Searched next pass report start [] r) :
    a ∈ r.2 ↔ Reached next pass start a := by
  constructor
  · intro ha
    exact h.sound a ha not_mem_nil
  · intro ha
    induction ha with
    | root hroot => exact h.starts _ hroot
    | step _ hpass hb ih => exact h.closed _ ih not_mem_nil hpass _ hb

end

end TektonPipeline.Search
