import Mathlib.Data.List.Induction
import Mathlib.Data.List.Nodup

namespace TektonPipeline.Assoc
open List

variable {κ ν : Type} [BEq κ] [LawfulBEq κ]

section
variable {l : List (κ × ν)} {k : κ} {v : ν}

theorem mem_of_lookup (h : l.lookup k = some v) : (k, v) ∈ l := by
  obtain ⟨l₁, l₂, rfl, -⟩ := List.lookup_eq_some_iff.mp h
  simp

theorem lookup_isSome : (l.lookup k).isSome = true ↔ k ∈ l.map (·.1) := by
  simp [lookup_isSome_iff]

theorem lookup_of_not_mem (h : k ∉ l.map (·.1)) : l.lookup k = none :=
  Option.not_isSome_iff_eq_none.mp (mt lookup_isSome.mp h)

/-- All the entries for a key have one value. -/
theorem lookup_of_const (hv : ∀ w, (k, w) ∈ l → w = v) (hk : k ∈ l.map (·.1)) :
    l.lookup k = some v := by
  obtain ⟨w, hw⟩ := Option.isSome_iff_exists.mp (lookup_isSome.mpr hk)
  rw [hw]
  exact congrArg some (hv w (mem_of_lookup hw))

theorem lookup_of_mem (hkeys : (l.map (·.1)).Nodup) (h : (k, v) ∈ l) : l.lookup k = some v :=
  lookup_of_const (fun _ hw => (Prod.mk.inj (inj_on_of_nodup_map hkeys hw h rfl)).2)
    (mem_map_of_mem h)

theorem lookup_eq_some_iff (hl : ∀ u w, (k, u) ∈ l → (k, w) ∈ l → u = w) :
    l.lookup k = some v ↔ (k, v) ∈ l := by
  constructor
  · exact mem_of_lookup
  · intro h
    exact lookup_of_const (fun w hw => hl w v hw h) (mem_map_of_mem h)

end

/-- The entry that an element of a list with distinct keys has. -/
theorem lookup_filterMap {α : Type} {key : α → κ} {value : α → Option ν} {l : List α} {a : α}
    (hkeys : (l.map key).Nodup) (ha : a ∈ l) :
    (l.filterMap fun a => (value a).map fun v => (key a, v)).lookup (key a) = value a := by
  have hmem : ∀ v, (key a, v) ∈ l.filterMap (fun a => (value a).map fun v => (key a, v)) ↔
      value a = some v := by
    intro v
    simp only [mem_filterMap, Option.map_eq_some_iff, Prod.mk.injEq]
    constructor
    · rintro ⟨b, hb, w, hw, hkey, rfl⟩
      rwa [← inj_on_of_nodup_map hkeys hb ha hkey]
    · intro hv
      exact ⟨a, ha, v, hv, rfl, rfl⟩
  refine Option.ext fun v => ?_
  rw [lookup_eq_some_iff, hmem]
  intro u w hu hw
  exact Option.some.inj (((hmem u).mp hu).symm.trans ((hmem w).mp hw))

theorem any_lookup {l : List (κ × ν)} (hkeys : (l.map (·.1)).Nodup) (k : κ) (P : ν → Bool) :
    (l.lookup k).any P = l.any fun e => e.1 == k && P e.2 := by
  rw [Bool.eq_iff_iff, Option.any_eq_true, any_eq_true]
  constructor
  · rintro ⟨v, hv, hP⟩
    exact ⟨(k, v), mem_of_lookup hv, by simpa using hP⟩
  · rintro ⟨⟨k', v⟩, he, hP⟩
    rw [Bool.and_eq_true, beq_iff_eq] at hP
    exact ⟨v, lookup_of_mem hkeys (hP.1 ▸ he), hP.2⟩

theorem lookup_filter {p : κ → Bool} {k : κ} (hk : p k = true) (l : List (κ × ν)) :
    (l.filter fun e => p e.1).lookup k = l.lookup k := by
  induction l with
  | nil => rfl
  | cons e l ih =>
    rw [filter_cons]
    by_cases he : k = e.1
    · obtain ⟨k', v⟩ := e
      subst he
      rw [if_pos hk, lookup_cons_self, lookup_cons_self]
    · have hne : (k == e.1) = false := by simpa using he
      split
      · rw [lookup_cons, lookup_cons, hne, ih]
      · rw [lookup_cons, hne, ih]

theorem lookup_filter_ne [DecidableEq κ] (l : List (κ × ν)) (k k' : κ) :
    (l.filter fun e => e.1 != k).lookup k' = if k' = k then none else l.lookup k' := by
  split
  · exact lookup_of_not_mem (by simp_all)
  · rename_i hk
    exact lookup_filter (p := (· != k)) (by simpa using hk) l

theorem lookup_map {μ : Type} (f : κ → ν → μ) (l : List (κ × ν)) (k : κ) :
    (l.map fun e => (e.1, f e.1 e.2)).lookup k = (l.lookup k).map (f k) := by
  induction l with
  | nil => rfl
  | cons e l ih =>
    rw [map_cons, lookup_cons, lookup_cons, ih]
    split
    · rename_i heq
      rw [beq_iff_eq.mp heq]
      rfl
    · rfl

variable [DecidableEq κ]

/-- The entry of a key is changed where there is one, and added at the end otherwise. -/
def upsert (l : List (κ × ν)) (k : κ) (f : ν → ν) (v : ν) : List (κ × ν) :=
  if l.any fun e => e.1 == k then l.map fun e => if e.1 = k then (e.1, f e.2) else e
  else l ++ [(k, v)]

section
variable {l : List (κ × ν)} {k : κ} {f : ν → ν} {v w : ν}

theorem upsert_of_mem (h : k ∈ l.map (·.1)) :
    upsert l k f v = l.map fun e => (e.1, if e.1 = k then f e.2 else e.2) := by
  obtain ⟨e, he, rfl⟩ := mem_map.mp h
  rw [upsert, if_pos (any_eq_true.mpr ⟨e, he, beq_self_eq_true e.1⟩)]
  refine map_congr_left fun a _ => ?_
  split <;> rfl

theorem upsert_of_not_mem (h : k ∉ l.map (·.1)) : upsert l k f v = l ++ [(k, v)] := by
  refine if_neg fun hany => h ?_
  obtain ⟨e, he, heq⟩ := any_eq_true.mp hany
  exact mem_map.mpr ⟨e, he, beq_iff_eq.mp heq⟩

theorem lookup_upsert (l : List (κ × ν)) (k : κ) (f : ν → ν) (v : ν) (k' : κ) :
    (upsert l k f v).lookup k' =
      if k' = k then some (((l.lookup k).map f).getD v) else l.lookup k' := by
  by_cases hk : k ∈ l.map (·.1)
  · obtain ⟨x, hx⟩ := Option.isSome_iff_exists.mp (lookup_isSome.mpr hk)
    rw [upsert_of_mem hk, lookup_map fun a x => if a = k then f x else x]
    by_cases hk' : k' = k
    · simp [hk', hx]
    · simp [hk']
  · rw [upsert_of_not_mem hk, List.lookup_append]
    by_cases hk' : k' = k
    · simp [hk', lookup_of_not_mem hk]
    · simp [hk', lookup_cons, beq_false_of_ne hk']

theorem nodup_upsert (hl : (l.map (·.1)).Nodup) : ((upsert l k f v).map (·.1)).Nodup := by
  by_cases hk : k ∈ l.map (·.1)
  · rw [upsert_of_mem hk, map_map]
    exact hl
  · rw [upsert_of_not_mem hk, map_append]
    simpa using Nodup.concat hk hl

/-- An entry that has its value already is not changed. -/
theorem upsert_of_lookup (hl : (l.map (·.1)).Nodup) (hk : l.lookup k = some v) (hv : f v = v) :
    upsert l k f w = l := by
  have hmem := mem_of_lookup hk
  rw [upsert_of_mem (mem_map_of_mem hmem)]
  refine (map_congr_left fun e he => ?_).trans (map_id l)
  split
  · rename_i heq
    rw [inj_on_of_nodup_map hl he hmem heq, hv]
    rfl
  · rfl

end

section
variable {α : Type} {key : α → κ} {f : α → ν → ν} {new : α → ν}
  {m : List (κ × ν)} {l : List α}

theorem nodup_foldl_upsert (hm : (m.map (·.1)).Nodup) :
    ((l.foldl (fun m a => upsert m (key a) (f a) (new a)) m).map (·.1)).Nodup := by
  induction l generalizing m with
  | nil => exact hm
  | cons a l ih => exact ih (nodup_upsert hm)

/-- What holds at a key after the writes held there before them, or one of them brought it. -/
theorem exists_lookup_foldl_upsert {P : ν → Prop} {Q : α → Prop} {k : κ}
    (hf : ∀ a, key a = k → ∀ v, P (f a v) ↔ P v ∨ Q a)
    (hnew : ∀ a, key a = k → (P (new a) ↔ Q a)) :
    (∃ v, (l.foldl (fun m a => upsert m (key a) (f a) (new a)) m).lookup k = some v ∧ P v) ↔
      (∃ v, m.lookup k = some v ∧ P v) ∨ ∃ a ∈ l, key a = k ∧ Q a := by
  induction l generalizing m with
  | nil => simp
  | cons a l ih =>
    rw [foldl_cons, ih, lookup_upsert]
    by_cases hk : k = key a
    · subst hk
      cases m.lookup (key a) <;> simp [hf, hnew, or_assoc]
    · simp [hk, Ne.symm hk]

theorem foldl_upsert_eq_self (hm : (m.map (·.1)).Nodup)
    (h : ∀ a ∈ l, ∃ v, m.lookup (key a) = some v ∧ f a v = v) :
    l.foldl (fun m a => upsert m (key a) (f a) (new a)) m = m := by
  induction l with
  | nil => rfl
  | cons a l ih =>
    rw [forall_mem_cons] at h
    obtain ⟨v, hk, hv⟩ := h.1
    rw [foldl_cons, upsert_of_lookup hm hk hv, ih h.2]

end

def ofWrites (l : List (κ × ν)) : List (κ × ν) :=
  l.foldl (fun m e => upsert m e.1 (fun _ => e.2) e.2) []

omit [LawfulBEq κ] in
theorem ofWrites_append (l : List (κ × ν)) (e : κ × ν) :
    ofWrites (l ++ [e]) = upsert (ofWrites l) e.1 (fun _ => e.2) e.2 := by
  simp [ofWrites]

/-- The last write of a key counts. -/
theorem lookup_ofWrites (l : List (κ × ν)) (k : κ) :
    (ofWrites l).lookup k = l.reverse.lookup k := by
  induction l using List.reverseRecOn with
  | nil => rfl
  | append_singleton l e ih =>
    rw [ofWrites_append, lookup_upsert, ih, reverse_append, reverse_singleton,
      singleton_append, lookup_cons]
    by_cases hk : k = e.1
    · subst hk
      cases (ofWrites l).lookup e.1 <;> simp
    · have hne : (k == e.1) = false := by simpa using hk
      simp [hk, hne]

/-- Values that are written under keys of their own. -/
theorem lookup_ofWrites_key {α : Type} (key : α → κ) (value : α → ν) (l : List α)
    (k : κ) : (ofWrites (l.map fun a => (key a, value a))).lookup k =
      (l.reverse.find? fun a => key a == k).map value := by
  rw [lookup_ofWrites, ← map_reverse]
  induction l.reverse with
  | nil => rfl
  | cons a rest ih =>
    rw [map_cons, lookup_cons, find?_cons, ih, BEq.comm]
    split <;> rfl

theorem nodup_ofWrites (l : List (κ × ν)) : ((ofWrites l).map (·.1)).Nodup :=
  nodup_foldl_upsert nodup_nil

variable {l : List (κ × ν)} {k : κ} {v : ν}

theorem ofWrites_of_nodup (hl : (l.map (·.1)).Nodup) : ofWrites l = l := by
  induction l using List.reverseRecOn with
  | nil => rfl
  | append_singleton l e ih =>
    rw [map_append, map_singleton] at hl
    have hnew : e.1 ∉ l.map (·.1) := fun hmem =>
      (nodup_append.mp hl).2.2 _ hmem _ (mem_singleton_self _) rfl
    rw [ofWrites_append, ih hl.of_append_left, upsert_of_not_mem hnew]

/-- An entry of the map is a write that no later one of its key follows. -/
theorem mem_ofWrites_iff :
    (k, v) ∈ ofWrites l ↔ ∃ pre post, l = pre ++ (k, v) :: post ∧ ∀ e ∈ post, e.1 ≠ k := by
  have hlookup : (k, v) ∈ ofWrites l ↔ l.reverse.lookup k = some v := by
    rw [← lookup_ofWrites]
    exact ⟨lookup_of_mem (nodup_ofWrites l), mem_of_lookup⟩
  rw [hlookup, List.lookup_eq_some_iff]
  constructor
  · rintro ⟨post, pre, hl, hpost⟩
    refine ⟨pre.reverse, post.reverse, ?_, fun e he heq => ?_⟩
    · rw [← reverse_reverse l, hl]
      simp
    · simpa [heq] using hpost e (mem_reverse.mp he)
  · rintro ⟨pre, post, rfl, hpost⟩
    refine ⟨post.reverse, pre.reverse, by simp, fun e he => ?_⟩
    simpa using Ne.symm (hpost e (mem_reverse.mp he))

theorem lookup_ofWrites_of_mem (hkeys : (l.map (·.1)).Nodup) (h : (k, v) ∈ l) : (ofWrites l).lookup
    k = some v := by
  rw [lookup_ofWrites]
  refine lookup_of_mem ?_ (mem_reverse.mpr h)
  rw [map_reverse]
  exact nodup_reverse.mpr hkeys

def group (m : List (κ × List ν)) (l : List (κ × ν)) : List (κ × List ν) :=
  l.foldl (fun m e => upsert m e.1 (· ++ [e.2]) [e.2]) m

def valuesAt (k : κ) (l : List (κ × ν)) : List ν :=
  (l.filter fun e => e.1 = k).map (·.2)

omit [BEq κ] [LawfulBEq κ] in
theorem mem_valuesAt : v ∈ valuesAt k l ↔ (k, v) ∈ l := by
  simp [valuesAt]

omit [LawfulBEq κ] in
theorem group_append (m : List (κ × List ν)) (l l' : List (κ × ν)) :
    group m (l ++ l') = group (group m l) l' := by
  simp [group]

omit [LawfulBEq κ] in
theorem foldl_group {α : Type} (entries : α → List (κ × ν)) (as : List α) (m : List (κ × List ν)) :
    as.foldl (fun m a => group m (entries a)) m = group m (as.flatMap entries) := by
  induction as generalizing m with
  | nil => rfl
  | cons a as ih => rw [foldl_cons, ih, flatMap_cons, group_append]

theorem lookup_group (m : List (κ × List ν)) (l : List (κ × ν)) (k : κ) :
    (group m l).lookup k = if valuesAt k l = [] then m.lookup k
      else some ((m.lookup k).getD [] ++ valuesAt k l) := by
  induction l generalizing m with
  | nil => simp [group, valuesAt]
  | cons e l ih =>
    have hstep : group m (e :: l) = group (upsert m e.1 (· ++ [e.2]) [e.2]) l := rfl
    rw [hstep, ih, lookup_upsert]
    by_cases he : e.1 = k
    · subst he
      have hcons : valuesAt e.1 (e :: l) = e.2 :: valuesAt e.1 l := by simp [valuesAt]
      rw [hcons]
      cases hlook : m.lookup e.1 with
      | none => by_cases hrest : valuesAt e.1 l = [] <;> simp [hrest]
      | some values => by_cases hrest : valuesAt e.1 l = [] <;> simp [hrest]
    · have hcons : valuesAt k (e :: l) = valuesAt k l := by simp [valuesAt, he]
      have hne : ¬ k = e.1 := fun heq => he heq.symm
      rw [hcons]
      simp [hne]

theorem nodup_group {m : List (κ × List ν)} (hm : (m.map (·.1)).Nodup)
    (l : List (κ × ν)) : ((group m l).map (·.1)).Nodup :=
  nodup_foldl_upsert hm

end TektonPipeline.Assoc
