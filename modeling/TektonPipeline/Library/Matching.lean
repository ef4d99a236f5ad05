import TektonPipeline.Library.Text
import Mathlib.Data.List.TakeWhile

/-! Which texts a matcher accepts, and what a scan finds in a text. -/

namespace TektonPipeline.Text
open List

variable {m m₁ m₂ : List Char → Option Nat} {L L₁ L₂ : List Char → Prop}

/-- What `m` matches at the start of a text is in the language `L`. -/
def Accepts (m : List Char → Option Nat) (L : List Char → Prop) : Prop :=
  ∀ s n, m s = some n → n ≤ s.length ∧ L (s.take n)

theorem Accepts.literal (old : List Char) : Accepts (literal old) (· = old) := by
  intro s n h
  unfold Text.literal at h
  by_cases hold : old.isPrefixOf s = true
  · rw [if_pos hold] at h
    obtain ⟨t, rfl⟩ := isPrefixOf_iff_prefix.mp hold
    cases h
    simp
  · simp [hold] at h

theorem Accepts.many (least : Nat) (p : Char → Bool) :
    Accepts (many least p) fun w => least ≤ w.length ∧ ∀ c ∈ w, p c = true := by
  intro s n h
  simp only [Text.many] at h
  split at h
  · rename_i hleast
    cases h
    have htake : s.take (s.takeWhile p).length = s.takeWhile p :=
      (prefix_iff_eq_take.mp (List.takeWhile_prefix p)).symm
    rw [htake]
    exact ⟨(List.takeWhile_prefix p).length_le, hleast, fun c hc => mem_takeWhile_imp hc⟩
  · cases h

theorem Accepts.andThen (h₁ : Accepts m₁ L₁) (h₂ : Accepts m₂ L₂) :
    Accepts (andThen m₁ m₂) fun w => ∃ u v, w = u ++ v ∧ L₁ u ∧ L₂ v := by
  intro s n h
  unfold Text.andThen at h
  cases hm₁ : m₁ s with
  | none => simp [hm₁] at h
  | some i =>
    cases hm₂ : m₂ (s.drop i) with
    | none => simp [hm₁, hm₂] at h
    | some j =>
      obtain rfl : i + j = n := by simpa [hm₁, hm₂] using h
      obtain ⟨hi, hu⟩ := h₁ s i hm₁
      obtain ⟨hj, hv⟩ := h₂ (s.drop i) j hm₂
      rw [length_drop] at hj
      exact ⟨by omega, s.take i, (s.drop i).take j, take_add, hu, hv⟩

theorem Accepts.orElse (h₁ : Accepts m₁ L₁) (h₂ : Accepts m₂ L₂) :
    Accepts (orElse m₁ m₂) fun w => L₁ w ∨ L₂ w := by
  intro s n h
  unfold Text.orElse at h
  cases hm₁ : m₁ s with
  | none =>
    rw [hm₁] at h
    exact ⟨(h₂ s n h).1, .inr (h₂ s n h).2⟩
  | some i =>
    rw [hm₁] at h
    obtain rfl : i = n := Option.some.inj h
    exact ⟨(h₁ s i hm₁).1, .inl (h₁ s i hm₁).2⟩

theorem Accepts.optional (hm : Accepts m L) : Accepts (optional m) fun w => w = [] ∨ L w := by
  intro s n h
  simp only [Text.optional] at h
  cases hms : m s with
  | none =>
    obtain rfl : 0 = n := by simpa [hms] using h
    simp
  | some i =>
    obtain rfl : i = n := by simpa [hms] using h
    exact ⟨(hm s i hms).1, .inr (hm s i hms).2⟩

theorem Accepts.mono (hm : Accepts m L₁) (h : ∀ w, L₁ w → L₂ w) : Accepts m L₂ :=
  fun s n hn => ⟨(hm s n hn).1, h _ (hm s n hn).2⟩

/-- No match has this character in it. -/
def Avoids (c : Char) (m : List Char → Option Nat) : Prop := Accepts m (c ∉ ·)

variable {c : Char}

theorem Avoids.literal (old : List Char) (h : c ∉ old) : Avoids c (literal old) :=
  (Accepts.literal old).mono fun _ hw => hw ▸ h

theorem Avoids.many (least : Nat) (p : Char → Bool) (hp : p c = false) :
    Avoids c (many least p) := by
  refine (Accepts.many least p).mono fun w hw hc => ?_
  have htrue := hw.2 c hc
  rw [hp] at htrue
  cases htrue

theorem Avoids.andThen (h₁ : Avoids c m₁) (h₂ : Avoids c m₂) : Avoids c (andThen m₁ m₂) := by
  refine (Accepts.andThen h₁ h₂).mono fun w hw => ?_
  obtain ⟨u, v, rfl, hu, hv⟩ := hw
  rw [mem_append, not_or]
  exact ⟨hu, hv⟩

theorem Avoids.orElse (h₁ : Avoids c m₁) (h₂ : Avoids c m₂) : Avoids c (orElse m₁ m₂) :=
  (Accepts.orElse h₁ h₂).mono fun _ hw => hw.elim id id

theorem Accepts.mem_findAll (hm : Accepts m L) {s w : List Char} (hw : w ∈ findAll m s) : L w := by
  obtain ⟨c, t, n, -, hn, rfl⟩ := exists_of_mem_findAll hw
  exact (hm _ _ hn).2

variable {rest u : List Char} {n : Nat}

section
variable {α : Type} {emit : List Char → List α} {pass : Char → List α}

theorem andThen_of_none {m₁ m₂ : List Char → Option Nat} {s : List Char} (h : m₁ s = none) :
    andThen m₁ m₂ s = none := by
  rw [Text.andThen, h]
  rfl

/-- Of `w ++ rest` the matcher takes `w`. -/
abbrev Reads (m : List Char → Option Nat) (w rest : List Char) : Prop :=
  m (w ++ rest) = some w.length

theorem Reads.literal (old rest : List Char) : Reads (literal old) old rest := by
  simp [Reads, Text.literal]

theorem Reads.andThen {v : List Char} (h₁ : Reads m₁ u (v ++ rest)) (h₂ : Reads m₂ v rest) :
    Reads (andThen m₁ m₂) (u ++ v) rest := by
  unfold Reads at *
  rw [append_assoc, Text.andThen, h₁, Option.bind_some, drop_left, h₂, length_append]
  rfl

theorem Reads.inl (h : Reads m₁ u rest) : Reads (orElse m₁ m₂) u rest := by
  unfold Reads at *
  rw [Text.orElse, h]

theorem Reads.inr (h₁ : m₁ (u ++ rest) = none) (h₂ : Reads m₂ u rest) :
    Reads (orElse m₁ m₂) u rest := by
  unfold Reads at *
  rw [Text.orElse, h₁, h₂]

theorem takeWhile_append_stop {p : Char → Bool} {w : List Char} (hw : ∀ c ∈ w, p c = true)
    (hrest : ∀ c, rest.head? = some c → p c = false) : (w ++ rest).takeWhile p = w := by
  rw [takeWhile_append_of_pos hw]
  cases rest with
  | nil => simp
  | cons c rest => simp [hrest c rfl]

theorem Reads.many {least : Nat} {p : Char → Bool} {w : List Char} (hw : ∀ c ∈ w, p c = true)
    (hleast : least ≤ w.length) (hrest : ∀ c, rest.head? = some c → p c = false) :
    Reads (many least p) w rest := by
  simp [Reads, Text.many, takeWhile_append_stop hw hrest, hleast]

theorem Reads.lazyUntil {d : Char} {w : List Char} (pat : List Char)
    (hw : ∀ c ∈ w, c ≠ d ∧ c ≠ '\n') (rest : List Char) :
    Reads (lazyUntil (d :: pat)) (w ++ d :: pat) rest := by
  unfold Reads
  induction w with
  | nil => simp [Text.lazyUntil]
  | cons c w ih =>
    obtain ⟨hc, hline⟩ := hw c mem_cons_self
    rw [cons_append, cons_append, Text.lazyUntil, if_neg, if_neg hline,
      ih fun a ha => hw a (.tail c ha)]
    · simp
    · simp [hc.symm]

theorem scan_drop (k : Nat) (s : List Char) :
    scan m emit pass k s = scan m emit pass 0 (s.drop k) := by
  induction s generalizing k with
  | nil => simp [scan]
  | cons c cs ih =>
    cases k with
    | zero => rfl
    | succ k =>
      rw [scan, drop_succ_cons]
      exact ih k

/-- A match at the start is handed on and the scan goes on behind it. -/
theorem Reads.scan (h : Reads m u rest) (hu : u ≠ []) (emit : List Char → List α)
    (pass : Char → List α) :
    scan m emit pass 0 (u ++ rest) = emit u ++ scan m emit pass 0 rest := by
  obtain ⟨c, w, rfl⟩ := exists_cons_of_ne_nil hu
  unfold Reads at h
  rw [cons_append] at h ⊢
  rw [Text.scan, h]
  dsimp only
  rw [scan_drop]
  simp

/-- At no character of a text does the matcher find anything. -/
def Passes (m : List Char → Option Nat) : List Char → List Char → Prop
  | [], _ => True
  | c :: w, rest => m (c :: (w ++ rest)) = none ∧ Passes m w rest

theorem Passes.of_not_mem {d : Char} (h : ∀ c t, c ≠ d → m (c :: t) = none) (hu : d ∉ u)
    (rest : List Char) : Passes m u rest := by
  induction u with
  | nil => trivial
  | cons c u ih =>
    rw [mem_cons, not_or] at hu
    exact ⟨h c _ (Ne.symm hu.1), ih hu.2⟩

theorem Passes.append {v : List Char} (hu : Passes m u (v ++ rest)) (hv : Passes m v rest) :
    Passes m (u ++ v) rest := by
  induction u with
  | nil => exact hv
  | cons c u ih => exact ⟨by simpa using hu.1, ih hu.2⟩

/-- A text is passed up to where `m` first matches. -/
theorem Passes.scan (h : Passes m u rest) (emit : List Char → List α) (pass : Char → List α) :
    scan m emit pass 0 (u ++ rest) = u.flatMap pass ++ scan m emit pass 0 rest := by
  induction u with
  | nil => simp
  | cons c u ih =>
    rw [cons_append, Text.scan, h.1, ih h.2]
    simp

end

section
variable {m : List Char → Option Nat} {f g : List Char → List Char} {s : List Char}

/-- Nothing is found only where nothing matches. -/
theorem none_of_findAll_nil (h : findAll m s = []) {t : List Char} (ht : (c :: t) <:+ s) :
    m (c :: t) = none := by
  unfold findAll at h
  induction s with
  | nil => simp at ht
  | cons a s ih =>
    cases ha : m (a :: s) with
    | some n => simp [scan, ha] at h
    | none =>
      simp only [scan, ha, nil_append] at h
      rcases suffix_cons_iff.mp ht with heq | hs
      · rw [heq, ha]
      · exact ih h hs

theorem rewriteAll_of_none (h : ∀ t, t <:+ s → m t = none) : rewriteAll m f s = s := by
  unfold rewriteAll
  induction s with
  | nil => rfl
  | cons c s ih =>
    simp [scan, h _ (suffix_refl _), ih fun t ht => h t (ht.trans (suffix_cons c s))]

theorem scan_congr {α : Type} {m m' : List Char → Option Nat} {f g : List Char → List α}
    {pass : Char → List α} {s : List Char} (k : Nat) (hm : ∀ t, t <:+ s → m t = m' t)
    (hf : ∀ t n, t <:+ s → m t = some n → f (t.take n) = g (t.take n)) :
    scan m f pass k s = scan m' g pass k s := by
  induction s generalizing k with
  | nil => simp [scan]
  | cons c s ih =>
    have hs := fun k => ih k (fun t ht => hm t (ht.trans (suffix_cons c s)))
      fun t n ht => hf t n (ht.trans (suffix_cons c s))
    cases k with
    | succ k => exact hs k
    | zero =>
      rw [scan, scan, ← hm _ (suffix_refl _)]
      cases hc : m (c :: s) with
      | none => simp [hs]
      | some n => simp only [hf _ n (suffix_refl _) hc, hs]

theorem length_scan_le (k : Nat) (h : ∀ t n, t <:+ s → m t = some n →
    (f (t.take n)).length ≤ (g (t.take n)).length) :
    (scan m f (fun c => [c]) k s).length ≤ (scan m g (fun c => [c]) k s).length := by
  induction s generalizing k with
  | nil => simp [scan]
  | cons c s ih =>
    have hs := fun k => ih k fun t n ht => h t n (ht.trans (suffix_cons c s))
    cases k with
    | succ k => simpa [scan] using hs k
    | zero =>
      cases hc : m (c :: s) with
      | none => simpa [scan, hc] using hs 0
      | some n =>
        have := h _ n (suffix_refl _) hc
        have := hs (n - 1)
        simp [scan, hc]
        omega

/-- Where every match is rewritten to more, one match makes the whole text longer. The first
match counts, wherever the one that is known stands. -/
theorem length_rewriteAll_lt (h : ∀ t n, t <:+ s → m t = some n →
      (f (t.take n)).length < (g (t.take n)).length)
    (hs : ∃ c t, (c :: t) <:+ s ∧ (m (c :: t)).isSome) :
    (rewriteAll m f s).length < (rewriteAll m g s).length := by
  unfold rewriteAll
  induction s with
  | nil => simp at hs
  | cons a s ih =>
    have htail : ∀ t n, t <:+ s → m t = some n →
        (f (t.take n)).length < (g (t.take n)).length :=
      fun t n ht => h t n (ht.trans (suffix_cons a s))
    cases ha : m (a :: s) with
    | some n =>
      have := h _ n (suffix_refl _) ha
      have := length_scan_le (n - 1) fun t n ht hm => Nat.le_of_lt (htail t n ht hm)
      simp [scan, ha]
      omega
    | none =>
      obtain ⟨c, t, ht, hm⟩ := hs
      rcases suffix_cons_iff.mp ht with heq | hs
      · simp [heq, ha] at hm
      · simpa [scan, ha] using ih htail ⟨c, t, hs, hm⟩

end

def Persists (m : List Char → Option Nat) : Prop :=
  ∀ w rest, (m w).isSome → (m (w ++ rest)).isSome

theorem literal_append_of_some {old w : List Char} (h : literal old w = some n) (rest : List Char) :
    literal old (w ++ rest) = some n ∧ n ≤ w.length := by
  unfold literal at h ⊢
  split at h
  · rename_i hw
    obtain ⟨v, rfl⟩ := isPrefixOf_iff_prefix.mp hw
    simp at h
    subst h
    simp [append_assoc]
  · simp at h

theorem Persists.literal_andThen (old : List Char) {m : List Char → Option Nat}
    (hm : Persists m) : Persists (andThen (literal old) m) := by
  intro w rest h
  cases hl : literal old w with
  | none => simp [andThen, hl] at h
  | some n =>
    obtain ⟨hr, hn⟩ := literal_append_of_some hl rest
    have h := hm (w.drop n) rest (by simpa [andThen, hl] using h)
    rw [← drop_append_of_le_length hn] at h
    simpa [andThen, hr] using h

theorem Persists.orElse {m₁ m₂ : List Char → Option Nat} (h₁ : Persists m₁)
    (h₂ : Persists m₂) : Persists (orElse m₁ m₂) := by
  intro w rest h
  cases hr : m₁ (w ++ rest) with
  | some n => simp [Text.orElse, hr]
  | none =>
    have hw : m₁ w = none := by
      have := h₁ w rest
      simpa [hr] using this
    have h := h₂ w rest (by simpa [Text.orElse, hw] using h)
    simpa [Text.orElse, hr] using h

theorem Persists.lazyUntil (pat : List Char) : Persists (lazyUntil pat) := by
  intro w rest h
  induction w with
  | nil => simp [Text.lazyUntil] at h
  | cons c w ih =>
    rw [cons_append, Text.lazyUntil]
    split
    · rfl
    · rename_i hr
      have hp : pat.isPrefixOf (c :: w) = false := by
        cases hp : pat.isPrefixOf (c :: w) with
        | false => rfl
        | true =>
          have := (List.isPrefixOf_iff_prefix.mp hp).trans (prefix_append _ rest)
          exact absurd (List.isPrefixOf_iff_prefix.mpr this) hr
      rw [Text.lazyUntil, hp] at h
      split
      · simp_all
      · rename_i hc
        simp [hc] at h ⊢
        exact ih h

theorem findAll_whole {w : List Char} (hw : w ≠ []) (h : m w = some w.length) :
    findAll m w = [w] := by
  have hreads : Reads m w [] := by rwa [Reads, append_nil]
  simpa [findAll, scan] using hreads.scan hw (fun w => [w]) (fun _ => [])

theorem trimPrefix_append (p s : List Char) : trimPrefix p (p ++ s) = s := by
  simp [trimPrefix]

theorem trimSuffix_append (p s : List Char) : trimSuffix p (s ++ p) = s := by
  simp [trimSuffix, isSuffixOf_iff_suffix]

theorem trimSuffix_singleton (c : Char) (u : List Char) :
    trimSuffix [c] u = u ∨ u = trimSuffix [c] u ++ [c] := by
  unfold trimSuffix
  split
  · rename_i hsuffix
    obtain ⟨x, rfl⟩ := isSuffixOf_iff_suffix.mp hsuffix
    exact .inr (by simp)
  · exact .inl rfl

section
variable {sep : Char} {w : List Char}

theorem splitOn_of_not_mem (h : sep ∉ w) : splitOn sep w = [w] := by
  induction w with
  | nil => rfl
  | cons c w ih =>
    rw [mem_cons, not_or] at h
    rw [splitOn, if_neg (Ne.symm h.1), ih h.2]

theorem splitOn_append (h : sep ∉ w) (s : List Char) :
    splitOn sep (w ++ sep :: s) = w :: splitOn sep s := by
  induction w with
  | nil => simp [splitOn]
  | cons c w ih =>
    rw [mem_cons, not_or] at h
    rw [cons_append, splitOn, if_neg (Ne.symm h.1), ih h.2]

theorem splitOn_ne_nil (s : List Char) : splitOn sep s ≠ [] := by
  cases s with
  | nil => simp [splitOn]
  | cons c s =>
    rw [splitOn]
    split
    · simp
    · split <;> simp

theorem splitOn_cons_of_ne (h : c ≠ sep) (s : List Char) :
    ∃ x xs, splitOn sep (c :: s) = (c :: x) :: xs := by
  have hne : splitOn sep s ≠ [] := splitOn_ne_nil s
  obtain ⟨x, xs, hs⟩ := exists_cons_of_ne_nil hne
  exact ⟨x, xs, by rw [splitOn, if_neg h, hs]⟩

/-- The first piece is what stands in front. -/
theorem prefix_of_splitOn {s x : List Char} {xs : List (List Char)}
    (h : splitOn sep s = x :: xs) : x <+: s := by
  induction s generalizing x xs with
  | nil =>
    obtain ⟨rfl, -⟩ := List.cons.inj h
    exact nil_prefix
  | cons c s ih =>
    rw [splitOn] at h
    split at h
    · obtain ⟨rfl, -⟩ := List.cons.inj h
      exact nil_prefix
    · cases hs : splitOn sep s with
      | nil => exact absurd hs (splitOn_ne_nil s)
      | cons v vs =>
        rw [hs] at h
        obtain ⟨rfl, -⟩ := List.cons.inj h
        exact cons_prefix_cons.mpr ⟨rfl, ih hs⟩

/-- The pieces of two texts one behind the other: the last piece of the first goes on with the
first piece of the second. -/
theorem splitOn_append_eq (sep : Char) (u t : List Char) : ∃ ws w x xs, splitOn sep u = ws ++ [w] ∧
    splitOn sep t = x :: xs ∧ splitOn sep (u ++ t) = ws ++ (w ++ x) :: xs := by
  induction u with
  | nil =>
    have hne : splitOn sep t ≠ [] := splitOn_ne_nil t
    obtain ⟨x, xs, ht⟩ := exists_cons_of_ne_nil hne
    exact ⟨[], [], x, xs, rfl, ht, ht⟩
  | cons c u ih =>
    obtain ⟨ws, w, x, xs, hu, ht, hut⟩ := ih
    rw [cons_append, splitOn, splitOn, hu, hut]
    by_cases hc : c = sep
    · exact ⟨[] :: ws, w, x, xs, by simp [hc], ht, by simp [hc]⟩
    · cases ws with
      | nil => exact ⟨[], c :: w, x, xs, by simp [hc], ht, by simp [hc]⟩
      | cons v ws => exact ⟨(c :: v) :: ws, w, x, xs, by simp [hc], ht, by simp [hc]⟩

theorem splitOn_append_sep (u t : List Char) :
    splitOn sep (u ++ sep :: t) = splitOn sep u ++ splitOn sep t := by
  obtain ⟨ws, w, x, xs, hu, ht, hut⟩ := splitOn_append_eq sep u (sep :: t)
  rw [splitOn, if_pos rfl] at ht
  obtain ⟨rfl, rfl⟩ := List.cons.inj ht
  rw [hut, hu]
  simp

/-- A piece has no character that the text does not have, and never the separator. -/
theorem mem_of_mem_splitOn {s : List Char} : ∀ w ∈ splitOn sep s, ∀ c ∈ w, c ∈ s ∧ c ≠ sep := by
  induction s with
  | nil => simp [splitOn]
  | cons d s ih =>
    have hlater : ∀ w ∈ splitOn sep s, ∀ c ∈ w, c ∈ d :: s ∧ c ≠ sep :=
      fun w hw c hc => (ih w hw c hc).imp_left (mem_cons_of_mem d)
    rw [splitOn]
    split
    · exact forall_mem_cons.mpr ⟨by simp, hlater⟩
    · rename_i hd
      cases hs : splitOn sep s with
      | nil => exact absurd hs (splitOn_ne_nil s)
      | cons v vs =>
        rw [hs, forall_mem_cons] at hlater
        refine forall_mem_cons.mpr ⟨?_, hlater.2⟩
        exact forall_mem_cons.mpr ⟨⟨mem_cons_self, hd⟩, hlater.1⟩

theorem not_mem_of_splitOn {s : List Char} (h : splitOn sep s = [w]) : sep ∉ s := by
  intro hmem
  obtain ⟨u, v, rfl, hu⟩ := eq_append_cons_of_mem hmem
  rw [splitOn_append hu] at h
  exact splitOn_ne_nil v (List.cons.inj h).2

theorem eq_of_splitOn_singleton {s : List Char} (h : splitOn sep s = [w]) : s = w := by
  rw [splitOn_of_not_mem (not_mem_of_splitOn h)] at h
  exact (List.cons.inj h).1

/-- What stands in front of the first separator, and the rest. -/
theorem exists_of_splitOn_cons {s x : List Char} {xs : List (List Char)}
    (h : splitOn sep s = w :: x :: xs) :
    ∃ t, s = w ++ sep :: t ∧ sep ∉ w ∧ splitOn sep t = x :: xs := by
  by_cases hmem : sep ∈ s
  · obtain ⟨u, t, rfl, hu⟩ := eq_append_cons_of_mem hmem
    rw [splitOn_append hu] at h
    obtain ⟨rfl, hrest⟩ := List.cons.inj h
    exact ⟨t, rfl, hu, hrest⟩
  · rw [splitOn_of_not_mem hmem] at h
    exact absurd (List.cons.inj h).2 (cons_ne_nil x xs).symm

/-- A text is split at its first separator in one way. -/
theorem append_cons_inj_left {u' v v' : List Char} (hu : sep ∉ u) (hu' : sep ∉ u')
    (h : u ++ sep :: v = u' ++ sep :: v') : u = u' ∧ v = v' := by
  have hsplit := congrArg (splitOn sep) h
  rw [splitOn_append hu, splitOn_append hu'] at hsplit
  obtain rfl := (List.cons.inj hsplit).1
  exact ⟨rfl, (List.cons.inj (append_cancel_left h)).2⟩

/-- Two texts are split at the last of their separators. -/
theorem append_cons_inj {u' v v' : List Char} (hv : sep ∉ v) (hv' : sep ∉ v')
    (h : u ++ sep :: v = u' ++ sep :: v') : u = u' ∧ v = v' := by
  have hrev : v.reverse ++ sep :: u.reverse = v'.reverse ++ sep :: u'.reverse := by
    simpa using congrArg reverse h
  obtain ⟨hv, hu⟩ := append_cons_inj_left (by simpa using hv) (by simpa using hv') hrev
  exact ⟨reverse_injective hu, reverse_injective hv⟩

end

section
variable {sep : Char} {m : List Char → Option Nat} {f : List Char → List Char}

structure StopsAt (sep : Char) (m : List Char → Option Nat) : Prop where
  nil : m [] = none
  append : ∀ a b, m (a ++ sep :: b) = m a
  within : ∀ a n, m a = some n → n ≤ a.length

/-- A text whose matches do not depend on what follows is rewritten for itself. -/
theorem scan_append_of_local {a : List Char} {k : Nat}
    (hm : ∀ w, w <:+ a → w ≠ [] → m (w ++ rest) = m w)
    (hwithin : ∀ w n, m w = some n → n ≤ w.length) (hk : k ≤ a.length) :
    scan m f (fun c => [c]) k (a ++ rest) =
      scan m f (fun c => [c]) k a ++ scan m f (fun c => [c]) 0 rest := by
  induction a generalizing k with
  | nil =>
    obtain rfl : k = 0 := Nat.le_zero.mp hk
    simp [scan]
  | cons c a ih =>
    have ih' := fun {k} => @ih k fun w hw => hm w (hw.trans (suffix_cons c a))
    cases k with
    | succ k => exact ih' (Nat.le_of_succ_le_succ hk)
    | zero =>
      have hsame := hm (c :: a) (suffix_refl _) (cons_ne_nil c a)
      rw [cons_append] at hsame
      rw [cons_append, scan, scan, hsame]
      cases hc : m (c :: a) with
      | none => simp [ih' (Nat.zero_le _)]
      | some n =>
        have hn := hwithin _ n hc
        have htake : (c :: (a ++ rest)).take n = (c :: a).take n := by
          rw [← cons_append, take_append_of_le_length hn]
        rw [length_cons] at hn
        simp [htake, ih' (show n - 1 ≤ a.length by omega)]

theorem StopsAt.scan_append_sep (h : StopsAt sep m) {a b : List Char} {k : Nat}
    (hk : k ≤ a.length) : scan m f (fun c => [c]) k (a ++ sep :: b) =
      scan m f (fun c => [c]) k a ++ sep :: scan m f (fun c => [c]) 0 b := by
  have hsep : m (sep :: b) = none := by rw [← h.nil, ← h.append [] b, nil_append]
  rw [scan_append_of_local (fun w _ _ => h.append w b) h.within hk]
  simp [scan, hsep]

/-- The parts of a text are rewritten each for itself. -/
theorem StopsAt.rewriteAll_append_sep (h : StopsAt sep m) (a b : List Char) :
    rewriteAll m f (a ++ sep :: b) = rewriteAll m f a ++ sep :: rewriteAll m f b :=
  h.scan_append_sep (Nat.zero_le _)

end

/-- What is found stands in the text. -/
theorem infix_of_mem_findAll {m : List Char → Option Nat} {s w : List Char}
    (h : w ∈ findAll m s) : w <:+: s := by
  obtain ⟨c, t, n, hsuffix, -, rfl⟩ := exists_of_mem_findAll h
  exact (List.take_prefix n (c :: t)).isInfix.trans hsuffix.isInfix

/-- A match that starts with a character which stands nowhere else in a match is found,
whatever is in front of it. -/
theorem mem_findAll_of_starts {m : List Char → Option Nat} {w : List Char}
    (hm : ∀ t n, m t = some n → c ∉ (t.take n).tail)
    (hw : m (c :: (w ++ rest)) = some (w.length + 1)) (u : List Char) :
    c :: w ∈ findAll m (u ++ c :: (w ++ rest)) := by
  suffices h : ∀ k, k ≤ u.length →
      c :: w ∈ scan m (fun w => [w]) (fun _ => []) k (u ++ c :: (w ++ rest)) from
    h 0 (Nat.zero_le _)
  induction u with
  | nil =>
    intro k hk
    obtain rfl : k = 0 := Nat.le_zero.mp hk
    rw [nil_append, scan, hw]
    simp
  | cons d u ih =>
    intro k hk
    cases k with
    | succ k => exact ih k (Nat.le_of_succ_le_succ hk)
    | zero =>
      rw [cons_append, scan]
      cases hd : m (d :: (u ++ c :: (w ++ rest))) with
      | none => exact ih 0 (Nat.zero_le _)
      | some n =>
        refine mem_append_right _ (ih (n - 1) ?_)
        -- a longer match would hold the character inside
        by_contra hlong
        refine hm _ n hd ?_
        obtain ⟨j, rfl⟩ : ∃ j, n = j + 1 := ⟨n - 1, by omega⟩
        rw [take_succ_cons, tail_cons, mem_take_iff_getElem]
        refine ⟨u.length, ?_, ?_⟩
        · simp
          omega
        · simp

end TektonPipeline.Text
