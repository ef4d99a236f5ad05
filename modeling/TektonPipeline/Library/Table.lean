import TektonPipeline.Library.Assoc

/-! A map that is written key by key. The latest write stands in front, and what it overwrites
is gone. -/

namespace TektonPipeline.Table
open List Assoc

variable {κ ν : Type} [DecidableEq κ]

def put (m : List (κ × ν)) (k : κ) (v : ν) : List (κ × ν) :=
  (k, v) :: m.filter fun e => e.1 ≠ k

def puts (m l : List (κ × ν)) : List (κ × ν) :=
  l.foldl (fun m e => put m e.1 e.2) m

/-- A key is given another value where it has one. -/
def overwrite (m : List (κ × ν)) (k : κ) (v : ν) : List (κ × ν) :=
  if (m.lookup k).isSome then put m k v else m

@[simp] theorem puts_nil (m : List (κ × ν)) : puts m [] = m := rfl

@[simp] theorem puts_cons (m : List (κ × ν)) (e : κ × ν) (l : List (κ × ν)) :
    puts m (e :: l) = puts (put m e.1 e.2) l := rfl

theorem puts_append (m l l' : List (κ × ν)) : puts m (l ++ l') = puts (puts m l) l' := by
  simp [puts]

theorem lookup_put (m : List (κ × ν)) (k : κ) (v : ν) (k' : κ) :
    (put m k v).lookup k' = if k' = k then some v else m.lookup k' := by
  unfold put
  rw [lookup_cons]
  split
  · rename_i h
    rw [if_pos (beq_iff_eq.mp h)]
  · rename_i h
    have hne : k' ≠ k := beq_eq_false_iff_ne.mp h
    rw [if_neg hne]
    exact lookup_filter (p := fun a => decide (a ≠ k)) (by simpa using hne) m

/-- The last write of a key counts. -/
theorem lookup_puts (m l : List (κ × ν)) (k : κ) :
    (puts m l).lookup k = (l.reverse.lookup k).or (m.lookup k) := by
  induction l generalizing m with
  | nil => rfl
  | cons e l ih =>
    obtain ⟨k', v⟩ := e
    rw [puts_cons, ih, lookup_put, reverse_cons, List.lookup_append]
    by_cases hk : k = k'
    · subst hk
      cases l.reverse.lookup k <;> simp
    · have hne : (k == k') = false := by simpa using hk
      cases l.reverse.lookup k <;> simp [hk, hne, lookup_cons]

@[simp] theorem isSome_lookup_overwrite (m : List (κ × ν)) (k : κ) (v : ν) (k' : κ) :
    ((overwrite m k v).lookup k').isSome = (m.lookup k').isSome := by
  unfold overwrite
  split
  · rename_i hk
    rw [lookup_put]
    split
    · rename_i heq
      rw [heq, hk]
      rfl
    · rfl
  · rfl

theorem lookup_overwrite_of_ne {k k' : κ} (h : k' ≠ k) (m : List (κ × ν)) (v : ν) :
    (overwrite m k v).lookup k' = m.lookup k' := by
  unfold overwrite
  split
  · rw [lookup_put, if_neg h]
  · rfl

theorem lookup_puts_of_not_mem {l : List (κ × ν)} {k : κ} (h : k ∉ l.map (·.1))
    (m : List (κ × ν)) : (puts m l).lookup k = m.lookup k := by
  have hnone : l.reverse.lookup k = none := by
    refine lookup_of_not_mem ?_
    rwa [map_reverse, mem_reverse]
  rw [lookup_puts, hnone]
  rfl

theorem isSome_lookup_puts (m l : List (κ × ν)) (k : κ) :
    ((puts m l).lookup k).isSome = ((l.reverse.lookup k).isSome || (m.lookup k).isSome) := by
  rw [lookup_puts]
  cases l.reverse.lookup k <;> simp

theorem mem_keys_puts {m l : List (κ × ν)} {k : κ} :
    k ∈ (puts m l).map (·.1) ↔ k ∈ l.map (·.1) ∨ k ∈ m.map (·.1) := by
  rw [← lookup_isSome, isSome_lookup_puts, Bool.or_eq_true, lookup_isSome, lookup_isSome,
    map_reverse, mem_reverse]

section
variable {P : κ → Bool}

theorem filter_put (m : List (κ × ν)) (k : κ) (v : ν) : (put m k v).filter (fun e => P e.1) =
      if P k then put (m.filter fun e => P e.1) k v else m.filter fun e => P e.1 := by
  have hswap : (m.filter fun e => e.1 ≠ k).filter (fun e => P e.1) =
      (m.filter fun e => P e.1).filter fun e => e.1 ≠ k := by
    rw [filter_filter, filter_filter]
    exact filter_congr fun e _ => Bool.and_comm _ _
  unfold put
  rw [filter_cons, hswap]
  split
  · rfl
  · rename_i hk
    -- a key that is not kept is not left in the filtered map
    refine filter_eq_self.mpr fun e he => ?_
    have hPe := (mem_filter.mp he).2
    simpa using fun heq : e.1 = k => hk (heq ▸ hPe)

theorem filter_puts (m l : List (κ × ν)) : (puts m l).filter (fun e => P e.1) =
      puts (m.filter fun e => P e.1) (l.filter fun e => P e.1) := by
  induction l generalizing m with
  | nil => rfl
  | cons e l ih =>
    rw [puts_cons, ih, filter_put, filter_cons]
    split
    · rfl
    · rfl

end

theorem puts_eq (m l : List (κ × ν)) :
    puts m l = puts [] l ++ m.filter fun e => e.1 ∉ l.map (·.1) := by
  induction l generalizing m with
  | nil => simp
  | cons e l ih =>
    have hone : put m e.1 e.2 = put [] e.1 e.2 ++ m.filter fun a => a.1 ≠ e.1 := by
      simp [put]
    rw [puts_cons, puts_cons, ih, ih (put [] e.1 e.2), append_assoc, hone,
      filter_append, filter_filter]
    refine congrArg _ (congrArg _ (filter_congr fun a _ => ?_))
    rw [← Bool.decide_and]
    refine decide_eq_decide.mpr ?_
    rw [map_cons, mem_cons, not_or]
    exact and_comm

/-- A key that is written for one name only. -/
theorem lookup_puts_flatMap {ι α : Type} [DecidableEq ι] {l : List (ι × α)}
    {f : ι × α → List (κ × ν)} {n : ι} {k : κ} (hl : (l.map (·.1)).Nodup)
    (hk : ∀ b ∈ l, k ∈ (f b).map (·.1) → n = b.1) : (puts [] (l.flatMap f)).lookup k =
      (l.lookup n).bind fun v => (puts [] (f (n, v))).lookup k := by
  simp only [lookup_puts, lookup_nil, Option.or_none]
  induction l with
  | nil => rfl
  | cons e l ih =>
    rw [map_cons, nodup_cons] at hl
    rw [forall_mem_cons] at hk
    rw [flatMap_cons, reverse_append, List.lookup_append, ih hl.2 hk.2, lookup_cons]
    by_cases hn : n = e.1
    · rw [hn, lookup_of_not_mem hl.1, beq_self_eq_true]
      rfl
    · have hnone : (f e).reverse.lookup k = none := by
        refine lookup_of_not_mem fun hmem => hn (hk.1 ?_)
        rwa [map_reverse, mem_reverse] at hmem
      rw [hnone, Option.or_none, beq_false_of_ne hn]

theorem nodup_puts (l : List (κ × ν)) : ((puts [] l).map (·.1)).Nodup := by
  have hput : ∀ (m : List (κ × ν)) k v, (m.map (·.1)).Nodup → ((put m k v).map (·.1)).Nodup := by
    intro m k v hm
    refine nodup_cons.mpr ⟨?_, (filter_sublist.map _).nodup hm⟩
    simp
  suffices h : ∀ m : List (κ × ν), (m.map (·.1)).Nodup → ((puts m l).map (·.1)).Nodup from
    h [] nodup_nil
  induction l with
  | nil => exact fun m hm => hm
  | cons e l ih => exact fun m hm => ih _ (hput m e.1 e.2 hm)

theorem puts_reverse {m : List (κ × ν)} (hm : (m.map (·.1)).Nodup) : puts [] m.reverse = m := by
  induction m with
  | nil => rfl
  | cons e m ih =>
    rw [map_cons, nodup_cons] at hm
    have hself : m.filter (fun a => a.1 ≠ e.1) = m := by
      refine filter_eq_self.mpr fun a ha => ?_
      simpa using fun heq : a.1 = e.1 => hm.1 (heq ▸ mem_map_of_mem ha)
    rw [reverse_cons, puts_append, ih hm.2, puts_cons, puts_nil, put, hself]

/-- The entries of one map are written into another, in the order in which they were written
themselves. -/
theorem puts_reverse_puts (m l : List (κ × ν)) : puts m (puts [] l).reverse = puts m l := by
  rw [puts_eq, puts_reverse (nodup_puts l), puts_eq m l]
  refine congrArg _ (filter_congr fun e _ => decide_eq_decide.mpr (not_congr ?_))
  rw [map_reverse, mem_reverse, mem_keys_puts]
  simp

section
variable {Q Q' : κ → Bool} {m m' : List (κ × ν)} {k : κ} {v : ν}

/-- Two maps have the same entries, in the same order, outside of a set of keys. -/
def AgreeOff (Q : κ → Bool) (m m' : List (κ × ν)) : Prop :=
  (m.filter fun e => !Q e.1) = m'.filter fun e => !Q e.1

omit [DecidableEq κ] in
theorem agreeOff_none : AgreeOff (fun _ => false) m m' ↔ m = m' := by
  simp [AgreeOff]

/-- A key of the set is written. -/
theorem agreeOff_put_self (hk : Q k = true) : AgreeOff Q (Table.put m k v) m := by
  have hput := filter_put (P := fun a => !Q a) m k v
  have hdrop : (!Q k) = false := by rw [hk]; rfl
  rw [hdrop] at hput
  exact hput

section
variable (h : AgreeOff Q m m')
include h

omit [DecidableEq κ] in
theorem AgreeOff.symm : AgreeOff Q m' m := Eq.symm h

omit [DecidableEq κ] in
theorem AgreeOff.trans {m'' : List (κ × ν)} (h' : AgreeOff Q m' m'') :
    AgreeOff Q m m'' := Eq.trans h h'

omit [DecidableEq κ] in
theorem AgreeOff.mono (hQ : ∀ k, Q k = true → Q' k = true) : AgreeOff Q' m m' := by
  have hsplit : ∀ l : List (κ × ν), (l.filter fun e => !Q' e.1) =
      (l.filter fun e => !Q e.1).filter fun e => !Q' e.1 := by
    intro l
    rw [filter_filter]
    refine filter_congr fun e _ => ?_
    cases hq : Q e.1 with
    | true => simp [hQ _ hq]
    | false => simp
  unfold AgreeOff
  rw [hsplit m, hsplit m', h]

theorem AgreeOff.lookup (hk : Q k = false) : m.lookup k = m'.lookup k := by
  have hkeep : (!Q k) = true := by rw [hk]; rfl
  have hm := lookup_filter (p := fun a => !Q a) hkeep m
  have hm' := lookup_filter (p := fun a => !Q a) hkeep m'
  rw [← hm, ← hm']
  exact congrArg (List.lookup k) h

theorem AgreeOff.put (k : κ) (v : ν) : AgreeOff Q (put m k v) (put m' k v) := by
  unfold AgreeOff at h ⊢
  have hm := filter_put (P := fun a => !Q a) m k v
  have hm' := filter_put (P := fun a => !Q a) m' k v
  rw [hm, hm', h]

/-- The same value is written in both, and the key leaves the set. -/
theorem AgreeOff.put_diff (k : κ) (v : ν) :
    AgreeOff (fun a => Q a && a ≠ k) (Table.put m k v) (Table.put m' k v) := by
  have hrest : ∀ l : List (κ × ν), (Table.put l k v).filter (fun e => !(Q e.1 && e.1 ≠ k)) =
      (k, v) :: (l.filter fun e => !Q e.1).filter fun e => e.1 ≠ k := by
    intro l
    unfold Table.put
    rw [filter_cons, if_pos (by simp), filter_filter, filter_filter]
    refine congrArg _ (filter_congr fun e _ => ?_)
    by_cases he : e.1 = k <;> simp [he]
  unfold AgreeOff
  rw [hrest, hrest, h]

theorem AgreeOff.puts_diff (l : List (κ × ν)) :
    AgreeOff (fun a => Q a && a ∉ l.map (·.1)) (Table.puts m l) (Table.puts m' l) := by
  induction l generalizing m m' Q with
  | nil => simpa using h
  | cons e l ih =>
    refine (ih (h.put_diff e.1 e.2)).mono fun a ha => ?_
    simp only [Bool.and_eq_true, decide_eq_true_eq] at ha
    simp [ha.1.1, ha.1.2, by simpa using ha.2]

/-- A key that neither of them has leaves the set. -/
theorem AgreeOff.diff_of_absent (hm : m.lookup k = none)
    (hm' : m'.lookup k = none) : AgreeOff (fun a => Q a && a ≠ k) m m' := by
  have hrest : ∀ l : List (κ × ν), l.lookup k = none →
      (l.filter fun e => !(Q e.1 && e.1 ≠ k)) = l.filter fun e => !Q e.1 := by
    intro l hl
    refine filter_congr fun e he => ?_
    have hne : e.1 ≠ k := by
      rintro rfl
      simpa using lookup_eq_none_iff.mp hl e he
    simp [hne]
  unfold AgreeOff
  rw [hrest m hm, hrest m' hm', h]

theorem AgreeOff.overwrite (k : κ) (v : ν) : AgreeOff Q (overwrite m k v) (overwrite m' k v) := by
  cases hk : Q k with
  | false =>
    unfold Table.overwrite
    rw [h.lookup hk]
    split
    · exact h.put k v
    · exact h
  | true =>
    have hself : ∀ l : List (κ × ν), AgreeOff Q (Table.overwrite l k v) l := by
      intro l
      unfold Table.overwrite
      split
      · exact agreeOff_put_self hk
      · exact rfl
    exact (hself m).trans (h.trans (hself m').symm)

theorem AgreeOff.overwrite_diff (hk : (m.lookup k).isSome = (m'.lookup k).isSome) (v : ν) :
    AgreeOff (fun a => Q a && a ≠ k) (Table.overwrite m k v) (Table.overwrite m' k v) := by
  unfold Table.overwrite
  rw [← hk]
  split
  · exact h.put_diff k v
  · rename_i hm
    have hm' := hm
    rw [hk] at hm'
    exact h.diff_of_absent (Option.not_isSome_iff_eq_none.mp hm)
      (Option.not_isSome_iff_eq_none.mp hm')

end

/-- Writes that differ do so at keys of the set. -/
theorem agreeOff_puts_flatMap {α : Type} {l : List α} {f g : α → List (κ × ν)}
    (h : ∀ a ∈ l, f a = g a ∨ (∀ e ∈ f a, Q e.1 = true) ∧ ∀ e ∈ g a, Q e.1 = true)
    (m : List (κ × ν)) : AgreeOff Q (Table.puts m (l.flatMap f)) (Table.puts m (l.flatMap g)) := by
  have hnone : ∀ w : List (κ × ν), (∀ e ∈ w, Q e.1 = true) →
      (w.filter fun e => !Q e.1) = [] := by
    intro w hw
    rw [filter_eq_nil_iff]
    intro e he
    simp [hw e he]
  have hfilter : ((l.flatMap f).filter fun e => !Q e.1) =
      (l.flatMap g).filter fun e => !Q e.1 := by
    rw [filter_flatMap, filter_flatMap]
    refine flatMap_congr fun a ha => ?_
    rcases h a ha with heq | ⟨hf, hg⟩
    · rw [heq]
    · rw [hnone _ hf, hnone _ hg]
  have hf := filter_puts (P := fun a => !Q a) m (l.flatMap f)
  have hg := filter_puts (P := fun a => !Q a) m (l.flatMap g)
  unfold AgreeOff
  rw [hf, hg, hfilter]

/-- Writes to keys of the set differ, and nothing else does. -/
theorem agreeOff_puts {w w' : List (κ × ν)} (hw : ∀ e ∈ w, Q e.1 = true)
    (hw' : ∀ e ∈ w', Q e.1 = true) (m before after : List (κ × ν)) :
    AgreeOff Q (Table.puts m (before ++ w ++ after)) (Table.puts m (before ++ w' ++ after)) := by
  have hwrites : ∀ a ∈ [(before, before), (w, w'), (after, after)],
      a.1 = a.2 ∨ (∀ e ∈ a.1, Q e.1 = true) ∧ ∀ e ∈ a.2, Q e.1 = true := by
    intro a ha
    simp only [mem_cons, not_mem_nil, or_false] at ha
    rcases ha with rfl | rfl | rfl
    · exact .inl rfl
    · exact .inr ⟨hw, hw'⟩
    · exact .inl rfl
  simpa using agreeOff_puts_flatMap hwrites m

end

end TektonPipeline.Table
