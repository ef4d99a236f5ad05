import Mathlib.Data.List.Find
import TektonPipeline.Library.Assoc
import TektonPipeline.Library.Matching
import TektonPipeline.Api.Params

/-! What one pass of string replacements does to a text: nothing, where none of the keys is
written in it, and the length of the result, where one is. -/

namespace TektonPipeline.Api
open List

def reference (key : String) : List Char := ("$(" ++ key ++ ")").toList

def Occurs (key s : String) : Prop := reference key <:+: s.toList

instance (key s : String) : Decidable (Occurs key s) :=
  inferInstanceAs (Decidable (reference key <:+: s.toList))

variable {k' : String}

theorem reference_injective {k : String} (h : reference k = reference k') : k = k' := by
  have h' : ("$(" ++ k ++ ")") = ("$(" ++ k' ++ ")") := String.toList_inj.mp h
  simpa [String.append_left_inj, String.append_right_inj] using h'

theorem reference_ne_nil (k : String) : reference k ≠ [] := by
  simp [reference]

section
variable {r r' : List (String × String)} {s : String}

def matchKey (keys : List String) (t : List Char) : Option Nat :=
  (keys.find? fun k => (reference k).isPrefixOf t).map fun k => (reference k).length

def replacement (r : List (String × String)) (w : List Char) : List Char :=
  ((r.map fun e => (reference e.1, e.2.toList)).lookup w).getD w

theorem applyReplacements_eq (s : String) (r : List (String × String)) : applyReplacements s r =
      String.ofList (Text.rewriteAll (matchKey (r.map (·.1))) (replacement r) s.toList) := by
  have hm : (fun t => ((r.map fun e => (reference e.1, e.2.toList)).find?
      fun e => e.1.isPrefixOf t).map fun e => e.1.length) = matchKey (r.map (·.1)) := by
    funext t
    simp [matchKey, find?_map, Function.comp_def, Option.map_map]
  unfold applyReplacements
  rw [← hm]
  rfl

theorem replacement_eq (r : List (String × String)) (k : String) :
    replacement r (reference k) = ((r.lookup k).map String.toList).getD (reference k) := by
  unfold replacement
  induction r with
  | nil => rfl
  | cons e r ih =>
    obtain ⟨k', v⟩ := e
    rw [map_cons, lookup_cons, lookup_cons]
    by_cases hk : k = k'
    · subst hk
      simp
    · have hr : (reference k == reference k') = false := by
        simpa using fun heq => hk (reference_injective heq)
      rw [hr, show (k == k') = false by simpa using hk]
      exact ih

theorem replacement_reference {k v : String} (h : r.lookup k = some v) :
    replacement r (reference k) = v.toList := by
  rw [replacement_eq, h]
  rfl

variable {keys : List String} {t : List Char} {n : Nat}

theorem exists_of_matchKey (h : matchKey keys t = some n) :
    ∃ k ∈ keys, t.take n = reference k ∧ reference k <+: t := by
  unfold matchKey at h
  obtain ⟨k, hk, rfl⟩ := Option.map_eq_some_iff.mp h
  have hstart : (reference k).isPrefixOf t = true := by simpa using find?_some hk
  have hpre := isPrefixOf_iff_prefix.mp hstart
  exact ⟨k, mem_of_find?_eq_some hk, (prefix_iff_eq_take.mp hpre).symm, hpre⟩

theorem matchKey_within (h : matchKey keys t = some n) : n ≤ t.length := by
  obtain ⟨k, hk, rfl⟩ := Option.map_eq_some_iff.mp h
  have hstart : (reference k).isPrefixOf t = true := by simpa using find?_some hk
  exact (List.isPrefixOf_iff_prefix.mp hstart).length_le

theorem matchKey_isSome {k : String} (hk : k ∈ keys) (ht : reference k <+: t) :
    (matchKey keys t).isSome := by
  unfold matchKey
  rw [Option.isSome_map, find?_isSome]
  exact ⟨k, hk, isPrefixOf_iff_prefix.mpr ht⟩

theorem occurs_of_matchKey (ht : t <:+ s.toList) (h : matchKey keys t = some n) :
    ∃ k ∈ keys, t.take n = reference k ∧ Occurs k s := by
  obtain ⟨k, hk, htake, hpre⟩ := exists_of_matchKey h
  exact ⟨k, hk, htake, hpre.isInfix.trans ht.isInfix⟩

theorem applyReplacements_of_absent (h : ∀ k ∈ r.map (·.1), ¬ Occurs k s) :
    applyReplacements s r = s := by
  rw [applyReplacements_eq, Text.rewriteAll_of_none, String.ofList_toList]
  intro t ht
  cases hm : matchKey (r.map (·.1)) t with
  | none => rfl
  | some n =>
    obtain ⟨k, hk, -, hocc⟩ := occurs_of_matchKey ht hm
    exact absurd hocc (h k hk)

theorem applyReplacements_of_no_dollar (h : '$' ∉ s.toList) (r : List (String × String)) :
    applyReplacements s r = s :=
  applyReplacements_of_absent fun _ _ hk => h (hk.subset (by simp [reference]))

theorem prefix_append_sep {c : Char} {w : List Char} (hw : c ∉ w) (a b : List Char) :
    w <+: a ++ c :: b ↔ w <+: a := by
  refine ⟨fun h => ?_, fun h => h.trans (prefix_append _ _)⟩
  rcases prefix_or_prefix_of_prefix h (prefix_append a _) with h | ⟨t, rfl⟩
  · exact h
  · rw [prefix_append_right_inj] at h
    cases t with
    | nil => simp
    | cons d t =>
      obtain rfl : d = c := (cons_prefix_cons.mp h).1
      exact absurd (mem_append_right _ mem_cons_self) hw

theorem matchKey_stopsAt {sep : Char} (h : ∀ k ∈ keys, sep ∉ reference k) :
    Text.StopsAt sep (matchKey keys) := by
  refine ⟨?_, fun a b => ?_, fun a n hn => ?_⟩
  · cases hm : matchKey keys [] with
    | none => rfl
    | some n =>
      obtain ⟨k, -, -, hpre⟩ := exists_of_matchKey hm
      exact absurd (prefix_nil.mp hpre) (reference_ne_nil k)
  · unfold matchKey
    refine congrArg _ (find?_congr fun k hk => ?_)
    rw [Bool.eq_iff_iff, isPrefixOf_iff_prefix, isPrefixOf_iff_prefix]
    exact prefix_append_sep (h k hk) a b
  · exact matchKey_within hn

theorem rewriteAll_of_no_dollar {f : List Char → List Char} (h : '$' ∉ t) :
    Text.rewriteAll (matchKey keys) f t = t := by
  refine Text.rewriteAll_of_none fun u hu => ?_
  cases hm : matchKey keys u with
  | none => rfl
  | some n =>
    obtain ⟨k, -, -, hpre⟩ := exists_of_matchKey hm
    have hmem : '$' ∈ reference k := by simp [reference]
    exact absurd (hu.subset (hpre.subset hmem)) h

theorem length_applyReplacements_lt (hkeys : r.map (·.1) = r'.map (·.1))
    (hlt : ∀ k ∈ r.map (·.1), Occurs k s → ∃ v v', r.lookup k = some v ∧
      r'.lookup k = some v' ∧ v.length < v'.length) (hocc : ∃ k ∈ r.map (·.1), Occurs k s) :
    (applyReplacements s r).length < (applyReplacements s r').length := by
  rw [applyReplacements_eq, applyReplacements_eq, ← hkeys, String.length_ofList,
    String.length_ofList]
  refine Text.length_rewriteAll_lt ?_ ?_
  · intro t n ht hm
    obtain ⟨k, hk, htake, hk'⟩ := occurs_of_matchKey ht hm
    obtain ⟨v, v', hv, hv', hlen⟩ := hlt k hk hk'
    simpa [htake, replacement_reference hv, replacement_reference hv', String.length_toList]
      using hlen
  · obtain ⟨k, hk, hk'⟩ := hocc
    obtain ⟨u, v, huv⟩ := hk'
    have hne : reference k ++ v ≠ [] := by simp [reference_ne_nil]
    obtain ⟨c, t, hct⟩ := exists_cons_of_ne_nil hne
    refine ⟨c, t, ⟨u, ?_⟩, ?_⟩
    · rw [← hct, ← append_assoc, huv]
    · rw [← hct]
      exact matchKey_isSome hk (prefix_append _ _)

theorem applyReplacements_filter {P : String → Bool} (h : ∀ k, Occurs k s → P k = true) :
    applyReplacements s (r.filter fun e => P e.1) = applyReplacements s r := by
  have hP : ∀ {k t}, t <:+ s.toList → reference k <+: t → P k = true :=
    fun ht hk => h _ (hk.isInfix.trans ht.isInfix)
  have hkeys : (r.filter fun e => P e.1).map (·.1) = (r.map (·.1)).filter P := by
    rw [filter_map]
    rfl
  have hmatch : ∀ t, t <:+ s.toList →
      matchKey ((r.map (·.1)).filter P) t = matchKey (r.map (·.1)) t := by
    intro t ht
    unfold matchKey
    rw [find?_filter]
    refine congrArg _ (find?_congr fun k _ => ?_)
    cases hk : (reference k).isPrefixOf t with
    | false => simp
    | true => simp [hP ht (List.isPrefixOf_iff_prefix.mp hk)]
  have hlookup : ∀ k, P k = true →
      replacement (r.filter fun e => P e.1) (reference k) = replacement r (reference k) := by
    intro k hk
    rw [replacement_eq, replacement_eq, Assoc.lookup_filter hk]
  rw [applyReplacements_eq, applyReplacements_eq, hkeys]
  unfold Text.rewriteAll
  refine congrArg String.ofList (Text.scan_congr 0 hmatch fun t n ht hn => ?_)
  obtain ⟨k, -, htake, hpre⟩ := exists_of_matchKey hn
  rw [htake]
  exact hlookup k (hP ht hpre)

end

structure Plain (k : String) : Prop where
  dollar : '$' ∉ k.toList
  closing : ')' ∉ k.toList

theorem reference_eq (k : String) : reference k = '$' :: '(' :: (k.toList ++ [')']) := by
  simp [reference]

theorem Plain.not_mem_tail {k : String} (hk : Plain k) : '$' ∉ '(' :: (k.toList ++ [')']) := by
  simpa using hk.dollar

section
variable {keys : List String} {f : List Char → List Char} {k : String}

variable {v : List Char}

theorem Plain.eq_of_reference_prefix (hk : Plain k) (hk' : Plain k')
    (h : reference k' <+: reference k ++ v) : k' = k := by
  rw [reference_eq, reference_eq, cons_append, cons_append, cons_prefix_cons,
    cons_prefix_cons, append_assoc] at h
  obtain ⟨t, ht⟩ := h.2.2
  have hsplit := congrArg (Text.splitOn ')') ht
  rw [append_assoc, singleton_append, singleton_append,
    Text.splitOn_append hk'.closing, Text.splitOn_append hk.closing] at hsplit
  exact String.toList_inj.mp (List.cons.inj hsplit).1

theorem matchKey_append_dollar (hkeys : ∀ k ∈ keys, Plain k) {w : List Char} (hw : w ≠ [])
    (rest : List Char) : matchKey keys (w ++ '$' :: rest) = matchKey keys w := by
  unfold matchKey
  refine congrArg _ (find?_congr fun k hk => ?_)
  obtain ⟨c, w, rfl⟩ := exists_cons_of_ne_nil hw
  rw [Bool.eq_iff_iff, isPrefixOf_iff_prefix, isPrefixOf_iff_prefix, reference_eq,
    cons_append, cons_prefix_cons, cons_prefix_cons, prefix_append_sep (hkeys k hk).not_mem_tail]

theorem matchKey_reference (hkeys : ∀ k' ∈ keys, reference k' <+: reference k ++ v → k' = k) :
    matchKey keys (reference k ++ v) = if k ∈ keys then some (reference k).length else none := by
  split
  · rename_i hmem
    obtain ⟨n, hn⟩ := Option.isSome_iff_exists.mp
      (matchKey_isSome hmem (prefix_append (reference k) v))
    obtain ⟨k', hk', rfl⟩ := Option.map_eq_some_iff.mp hn
    have hpre : (reference k').isPrefixOf (reference k ++ v) = true := by
      simpa using find?_some hk'
    have heq := hkeys k' (mem_of_find?_eq_some hk') (List.isPrefixOf_iff_prefix.mp hpre)
    rw [hn, heq]
  · rename_i hmem
    cases hn : matchKey keys (reference k ++ v) with
    | none => rfl
    | some n =>
      obtain ⟨k', hk', -, hpre⟩ := exists_of_matchKey hn
      exact absurd (hkeys k' hk' hpre ▸ hk') hmem

theorem matchKey_of_ne_dollar {c : Char} (hc : c ≠ '$') (t : List Char) :
    matchKey keys (c :: t) = none := by
  cases hm : matchKey keys (c :: t) with
  | none => rfl
  | some n =>
    obtain ⟨k, -, -, hpre⟩ := exists_of_matchKey hm
    rw [reference_eq, cons_prefix_cons] at hpre
    exact absurd hpre.1.symm hc

theorem rewriteAll_reference (hkeys : ∀ k' ∈ keys, reference k' <+: reference k ++ v → k' = k)
    (hk : Plain k) : Text.rewriteAll (matchKey keys) f (reference k ++ v) =
      (if k ∈ keys then f (reference k) else reference k) ++
        Text.rewriteAll (matchKey keys) f v := by
  have hm := matchKey_reference hkeys
  unfold Text.rewriteAll
  split
  · rename_i hmem
    rw [if_pos hmem] at hm
    exact Text.Reads.scan hm (reference_ne_nil k) _ _
  · rename_i hmem
    rw [if_neg hmem] at hm
    -- the first character is not matched, and no other one of the reference is a dollar sign
    have hpass : Text.Passes (matchKey keys) (reference k) v := by
      have htail := hk.not_mem_tail
      rw [reference_eq] at hm ⊢
      exact ⟨hm, .of_not_mem (fun c t hc => matchKey_of_ne_dollar hc t) htail v⟩
    rw [hpass.scan]
    simp

theorem replacement_toList (r : List (String × String)) (k : String) :
    (if k ∈ r.map (·.1) then replacement r (reference k) else reference k) =
      ((r.lookup k).getD ("$(" ++ k ++ ")")).toList := by
  rw [replacement_eq]
  cases hl : r.lookup k with
  | some w => simp [Assoc.lookup_isSome.mp (Option.isSome_of_eq_some hl)]
  | none => simp [reference]

theorem Plain.eq_of_reference_infix (hk : Plain k) (h : reference k' <:+: reference k) :
    k' = k := by
  obtain ⟨u, v, huv⟩ := h
  rw [reference_eq k, append_assoc] at huv
  cases u with
  | nil =>
    rw [nil_append, reference_eq k', cons_append, cons_append] at huv
    have hpre : k'.toList ++ [')'] <+: k.toList ++ [')'] :=
      ⟨v, (List.cons.inj (List.cons.inj huv).2).2⟩
    -- a shorter key would put a closing bracket into the longer one
    rcases prefix_concat_iff.mp hpre with heq | hin
    · exact String.toList_inj.mp (append_cancel_right heq)
    · exact absurd (hin.subset (by simp)) hk.closing
  | cons c u =>
    rw [cons_append] at huv
    refine absurd ?_ hk.not_mem_tail
    rw [← (List.cons.inj huv).2, reference_eq k']
    simp

theorem applyReplacements_self (r : List (String × String)) (hk : Plain k) :
    applyReplacements ("$(" ++ k ++ ")") r = (r.lookup k).getD ("$(" ++ k ++ ")") := by
  have hkeys : ∀ k' ∈ r.map (·.1), reference k' <+: reference k ++ [] → k' = k := by
    intro k' _ hpre
    rw [append_nil] at hpre
    exact hk.eq_of_reference_infix hpre.isInfix
  have htext : ("$(" ++ k ++ ")").toList = reference k ++ [] := by
    rw [append_nil]
    rfl
  rw [applyReplacements_eq, htext, rewriteAll_reference hkeys hk, replacement_toList]
  simp [Text.rewriteAll, Text.scan]

theorem Occurs.exists_append {s : String} (h : Occurs k s) :
    ∃ u v : String, s = u ++ ("$(" ++ k ++ ")") ++ v := by
  obtain ⟨u, v, huv⟩ := h
  refine ⟨String.ofList u, String.ofList v, ?_⟩
  rw [← String.toList_inj, ← huv]
  simp [reference]

def ReplacedBy (strings : List (String × String)) (text key value : String) : Prop :=
  ∀ u v, text = u ++ ("$(" ++ key ++ ")") ++ v →
    applyReplacements text strings =
      applyReplacements u strings ++ value ++ applyReplacements v strings

variable {r : List (String × String)} {text value : String} (hr : ∀ k ∈ r.map (·.1), Plain k)
  (hk : Plain k)
include hr hk

theorem applyReplacements_split (u v : String) :
    applyReplacements (u ++ ("$(" ++ k ++ ")") ++ v) r =
      applyReplacements u r ++ (r.lookup k).getD ("$(" ++ k ++ ")") ++ applyReplacements v r := by
  have hkeys : ∀ k' ∈ r.map (·.1), reference k' <+: reference k ++ v.toList → k' = k :=
    fun k' hk' => hk.eq_of_reference_prefix (hr k' hk')
  have hlocal : Text.rewriteAll (matchKey (r.map (·.1))) (replacement r)
      (u.toList ++ (reference k ++ v.toList)) =
        Text.rewriteAll (matchKey (r.map (·.1))) (replacement r) u.toList ++
          Text.rewriteAll (matchKey (r.map (·.1))) (replacement r) (reference k ++ v.toList) := by
    refine Text.scan_append_of_local (fun w _ hw => ?_) (fun _ _ => matchKey_within)
      (Nat.zero_le _)
    rw [reference_eq, cons_append]
    exact matchKey_append_dollar hr hw _
  rw [applyReplacements_eq, applyReplacements_eq, applyReplacements_eq]
  have htext : (u ++ ("$(" ++ k ++ ")") ++ v).toList = u.toList ++ (reference k ++ v.toList) := by
    simp [reference]
  rw [htext, hlocal, rewriteAll_reference hkeys hk, replacement_toList, String.ofList_append,
    String.ofList_append, String.ofList_toList]
  exact String.append_assoc.symm

theorem replacedBy_of_lookup (h : Occurs k text → r.lookup k = some value) :
    ReplacedBy r text k value := by
  intro u v huv
  have hocc : Occurs k text := by
    rw [huv]
    exact ⟨u.toList, v.toList, by simp [reference]⟩
  rw [huv, applyReplacements_split hr hk, h hocc]
  rfl

theorem replacedBy_iff (hvalue : value ≠ "$(" ++ k ++ ")") :
    ReplacedBy r text k value ↔ (Occurs k text → r.lookup k = some value) := by
  refine ⟨fun h hocc => ?_, replacedBy_of_lookup hr hk⟩
  obtain ⟨u, v, huv⟩ := hocc.exists_append
  have heq := h u v huv
  rw [huv, applyReplacements_split hr hk, String.append_left_inj, String.append_right_inj] at heq
  cases hlookup : r.lookup k with
  | none =>
    rw [hlookup] at heq
    exact absurd heq.symm hvalue
  | some w =>
    rw [hlookup] at heq
    exact congrArg some heq

theorem replacedBy_iff_getD (hocc : Occurs k text) :
    ReplacedBy r text k value ↔ (r.lookup k).getD ("$(" ++ k ++ ")") = value := by
  constructor
  · intro h
    obtain ⟨u, v, huv⟩ := hocc.exists_append
    have heq := h u v huv
    rwa [huv, applyReplacements_split hr hk, String.append_left_inj, String.append_right_inj]
      at heq
  · intro h u v huv
    rw [huv, applyReplacements_split hr hk, h]

theorem length_le_applyReplacements {w : String} (hs : Occurs k text) (hw : r.lookup k = some w) :
    w.length ≤ (applyReplacements text r).length := by
  obtain ⟨u, v, rfl⟩ := hs.exists_append
  rw [applyReplacements_split hr hk, hw, Option.getD_some, String.length_append,
    String.length_append]
  omega

end

end TektonPipeline.Api
