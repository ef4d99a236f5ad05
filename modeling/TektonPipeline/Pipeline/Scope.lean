import TektonPipeline.Pipeline.ParameterKeys

/-! The tables in the scope of a task: what the task's parameters leave of the pipeline's
entries, and how far two sets of tables can still differ there. -/

namespace TektonPipeline.Parameters
open Api List Table

/-- Two sets of tables that differ, in the strings, at the keys of `Q` and `K`, and otherwise
at those of `Q` alone, where they have the same keys. -/
structure Related (Q K : String → Bool) (r r' : Replacements) : Prop where
  strings : Table.AgreeOff (fun k => Q k || K k) r.strings r'.strings
  arrays : Table.AgreeOff Q r.arrays r'.arrays
  objects : Table.AgreeOff Q r.objects r'.objects
  sameStrings : ∀ k, Q k = true → (r.strings.lookup k).isSome = (r'.strings.lookup k).isSome
  sameArrays : ∀ k, Q k = true → (r.arrays.lookup k).isSome = (r'.arrays.lookup k).isSome
  sameObjects : ∀ k, Q k = true → (r.objects.lookup k).isSome = (r'.objects.lookup k).isSome

section
variable {Q Q' K K' : String → Bool} {r r' : Replacements}

theorem Related.isSome_arrays (h : Related Q K r r') (k : String) :
    (r.arrays.lookup k).isSome = (r'.arrays.lookup k).isSome := by
  cases hk : Q k with
  | true => exact h.sameArrays k hk
  | false => rw [h.arrays.lookup hk]

theorem Related.isSome_objects (h : Related Q K r r') (k : String) :
    (r.objects.lookup k).isSome = (r'.objects.lookup k).isSome := by
  cases hk : Q k with
  | true => exact h.sameObjects k hk
  | false => rw [h.objects.lookup hk]

def rewritten (r : Replacements) (par : Param) (checkName k : String) : Bool :=
  (r.objects.lookup checkName).isSome &&
    decide (k ∈ (objectKeyWrites par.name par.value.objectVal).map (·.1))

theorem Related.scopeKey (h : Related Q K r r') (par : Param) (c : String) :
    Related (fun k => Q k && k ≠ c) (fun k => K k && !rewritten r par c k)
      (scopeKey par r c) (scopeKey par r' c) := by
  have hobjects := h.isSome_objects c
  have hstrings : Table.AgreeOff (fun k => (Q k && k ≠ c) || K k)
      (Table.overwrite r.strings c par.value.stringVal)
      (Table.overwrite r'.strings c par.value.stringVal) := by
    cases hc : Q c with
    | true =>
      have hdiff := h.strings.overwrite_diff (h.sameStrings c hc) par.value.stringVal
      refine hdiff.mono fun k hk => ?_
      simp only [Bool.and_eq_true, Bool.or_eq_true] at hk ⊢
      exact hk.1.imp_left fun hQ => ⟨hQ, hk.2⟩
    | false =>
      refine (h.strings.overwrite c par.value.stringVal).mono fun k hk => ?_
      simp only [Bool.and_eq_true, Bool.or_eq_true, decide_eq_true_eq] at hk ⊢
      refine hk.imp_left fun hQ => ⟨hQ, fun heq => ?_⟩
      rw [heq, hc] at hQ
      cases hQ
  constructor
  · unfold Parameters.scopeKey rewritten
    rw [← hobjects]
    cases (r.objects.lookup c).isSome with
    | false => simpa using hstrings
    | true =>
      refine (hstrings.puts_diff (objectKeyWrites par.name par.value.objectVal)).mono
        fun k hk => ?_
      simp only [Bool.and_eq_true, Bool.or_eq_true, decide_eq_true_eq, Bool.not_eq_true',
        Bool.true_and, decide_eq_false_iff_not] at hk ⊢
      exact hk.1.imp_right fun hK => ⟨hK, hk.2⟩
  · exact h.arrays.overwrite_diff (h.isSome_arrays c) _
  · exact h.objects.overwrite_diff hobjects _
  · intro k hk
    have hQ : Q k = true := (Bool.and_eq_true _ _ ▸ hk).1
    have hsame := h.sameStrings k hQ
    unfold Parameters.scopeKey
    rw [← hobjects]
    cases (r.objects.lookup c).isSome with
    | false => simpa using hsame
    | true => simp [isSome_lookup_puts, hsame]
  · intro k hk
    simpa [Parameters.scopeKey] using h.isSome_arrays k
  · intro k hk
    simpa [Parameters.scopeKey] using h.isSome_objects k

theorem Related.congr (h : Related Q K r r') (hQ : ∀ k, Q k = Q' k) (hK : ∀ k, K k = K' k) :
    Related Q' K' r r' := by
  obtain rfl : Q = Q' := funext hQ
  obtain rfl : K = K' := funext hK
  exact h

@[simp] theorem isSome_objects_scopeKey (par : Param) (r : Replacements) (c k : String) :
    ((Parameters.scopeKey par r c).objects.lookup k).isSome = (r.objects.lookup k).isSome := by
  simp [Parameters.scopeKey]

theorem isSome_objects_foldl (par : Param) (l : List String) (r : Replacements) (k : String) :
    ((l.foldl (Parameters.scopeKey par) r).objects.lookup k).isSome =
      (r.objects.lookup k).isSome := by
  induction l generalizing r with
  | nil => rfl
  | cons c l ih => rw [foldl_cons, ih, isSome_objects_scopeKey]

theorem Related.foldl_scopeKey (h : Related Q K r r') (par : Param) (l : List String) :
    Related (fun k => Q k && k ∉ l) (fun k => K k && !l.any fun c => rewritten r par c k)
      (l.foldl (Parameters.scopeKey par) r) (l.foldl (Parameters.scopeKey par) r') := by
  induction l generalizing Q K r r' with
  | nil => simpa using h
  | cons c l ih =>
    have hrewritten : ∀ c' k, rewritten (Parameters.scopeKey par r c) par c' k =
        rewritten r par c' k := by
      intro c' k
      simp [rewritten]
    have hrest := ih (h.scopeKey par c)
    simp only [hrewritten] at hrest
    refine hrest.congr (fun k => ?_) fun k => ?_
    · rw [Bool.eq_iff_iff]
      simp [and_assoc]
    · rw [Bool.and_assoc, any_cons, Bool.not_or]

def rewrittenBy (r : Replacements) (ps : Params) (k : String) : Bool :=
  ps.any fun par => (paramPatterns par.name).any fun c => rewritten r par c k

theorem Related.scopeParams (h : Related Q K r r') (ps : Params) :
    Related (fun k => Q k && ps.all fun par => k ∉ paramPatterns par.name)
      (fun k => K k && !rewrittenBy r ps k) (scopeParams r ps) (scopeParams r' ps) := by
  induction ps generalizing Q K r r' with
  | nil => exact h.congr (by simp) (by simp [rewrittenBy])
  | cons par ps ih =>
    have hrewritten : ∀ k, rewrittenBy (scopeParam r par) ps k = rewrittenBy r ps k := by
      intro k
      simp only [rewrittenBy, rewritten, scopeParam, isSome_objects_foldl]
    have hrest := ih (h.foldl_scopeKey par (paramPatterns par.name))
    refine hrest.congr (fun k => ?_) fun k => ?_
    · rw [Bool.and_assoc, all_cons]
    · have hcons : rewrittenBy r (par :: ps) k =
          (((paramPatterns par.name).any fun c => rewritten r par c k) || rewrittenBy r ps k) :=
        any_cons
      rw [← scopeParam, hrewritten, hcons, Bool.not_or, Bool.and_assoc]

end

section
variable {r : Replacements} {ps : Params} {k : String}

theorem scopeKey_lookup (par : Param) {c : String} (hc : k ≠ c)
    (hk : k ∉ (objectKeyWrites par.name par.value.objectVal).map (·.1)) :
    (scopeKey par r c).strings.lookup k = r.strings.lookup k := by
  unfold scopeKey
  dsimp only
  split
  · rw [lookup_puts_of_not_mem hk, lookup_overwrite_of_ne hc]
  · exact lookup_overwrite_of_ne hc _ _

theorem scopeParams_lookup (hk : ∀ par ∈ ps, k ∉ paramPatterns par.name ∧
      k ∉ (objectKeyWrites par.name par.value.objectVal).map (·.1)) :
    (scopeParams r ps).strings.lookup k = r.strings.lookup k := by
  have hparam : ∀ (par : Param) (l : List String) (r : Replacements), k ∉ l →
      k ∉ (objectKeyWrites par.name par.value.objectVal).map (·.1) →
        (l.foldl (scopeKey par) r).strings.lookup k = r.strings.lookup k := by
    intro par l r hl hkeys
    induction l generalizing r with
    | nil => rfl
    | cons c l ih =>
      rw [mem_cons, not_or] at hl
      rw [foldl_cons, ih _ hl.2, scopeKey_lookup par hl.1 hkeys]
  induction ps generalizing r with
  | nil => rfl
  | cons par ps ih =>
    obtain ⟨hpattern, hkeys⟩ := hk par mem_cons_self
    have hrest := ih (r := scopeParam r par) fun q hq => hk q (mem_cons_of_mem par hq)
    exact hrest.trans (hparam par _ r hpattern hkeys)

theorem mem_keys_scopeParams :
    (k ∈ r.strings.map (·.1) → k ∈ (scopeParams r ps).strings.map (·.1)) ∧
    (k ∈ (scopeParams r ps).strings.map (·.1) → k ∈ r.strings.map (·.1) ∨
      ∃ par ∈ ps, k ∈ (objectKeyWrites par.name par.value.objectVal).map (·.1)) := by
  have hkey : ∀ (par : Param) (r : Replacements) (c : String),
      (k ∈ r.strings.map (·.1) → k ∈ (scopeKey par r c).strings.map (·.1)) ∧
      (k ∈ (scopeKey par r c).strings.map (·.1) → k ∈ r.strings.map (·.1) ∨
        k ∈ (objectKeyWrites par.name par.value.objectVal).map (·.1)) := by
    intro par r c
    have hover : k ∈ (Table.overwrite r.strings c par.value.stringVal).map (·.1) ↔
        k ∈ r.strings.map (·.1) := by
      rw [← Assoc.lookup_isSome, ← Assoc.lookup_isSome, isSome_lookup_overwrite]
    unfold scopeKey
    dsimp only
    split
    · rw [mem_keys_puts, hover]
      exact ⟨.inr, Or.symm⟩
    · rw [hover]
      exact ⟨id, .inl⟩
  have hparam : ∀ (par : Param) (l : List String) (r : Replacements),
      (k ∈ r.strings.map (·.1) → k ∈ (l.foldl (scopeKey par) r).strings.map (·.1)) ∧
      (k ∈ (l.foldl (scopeKey par) r).strings.map (·.1) → k ∈ r.strings.map (·.1) ∨
        k ∈ (objectKeyWrites par.name par.value.objectVal).map (·.1)) := by
    intro par l r
    induction l generalizing r with
    | nil => exact ⟨id, .inl⟩
    | cons c l ih =>
      obtain ⟨hkeep, hfrom⟩ := hkey par r c
      exact ⟨fun h => (ih _).1 (hkeep h), fun h => ((ih _).2 h).elim hfrom .inr⟩
  induction ps generalizing r with
  | nil => exact ⟨id, .inl⟩
  | cons par ps ih =>
    obtain ⟨hkeep, hfrom⟩ := hparam par (paramPatterns par.name) r
    refine ⟨fun h => ih.1 (hkeep h), fun h => ?_⟩
    rw [exists_mem_cons_iff, ← or_assoc]
    exact (ih.2 h).imp_left hfrom

theorem plain_scopeParams (hr : ∀ k ∈ r.strings.map (·.1), Plain k)
    (hps : ∀ q ∈ ps, PlainParam q) : ∀ k ∈ (scopeParams r ps).strings.map (·.1), Plain k := by
  intro k hk
  rcases mem_keys_scopeParams.2 hk with h | ⟨par, hpar, h⟩
  · exact hr k h
  · obtain ⟨e, he, rfl⟩ := mem_objectKeyWrites.mp h
    exact plain_key (hps par hpar).1 ((hps par hpar).2 e he)

end

end TektonPipeline.Parameters
