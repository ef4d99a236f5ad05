import TektonPipeline.Pipeline.Parameters

/-! The keys of the tables of parameters, for names without dots: which parameter a key is made
from can be read off the key. -/

namespace TektonPipeline.Parameters
open Api ResultRef List Text

def isNameChar (c : Char) : Bool := isVarChar c && c != '.'

def IsName (name : String) : Prop := ∀ c ∈ name.toList, isNameChar c = true

def ownerOf (k : List Char) : List Char :=
  if "params.".toList.isPrefixOf k then (k.drop 7).takeWhile fun c => c != '.' && c != '['
  else (k.drop 8).takeWhile fun c => c != '"' && c != '\''

theorem IsName.not_stop {name : String} (h : IsName name) {c : Char} (hc : c ∈ name.toList) :
    (c != '.' && c != '[') = true ∧ (c != '"' && c != '\'') = true := by
  have hstop : ∀ d ∈ ['.', '[', '"', '\''], (!isNameChar d) = true :=
    all_eq_true.mp (by decide)
  have hne : ∀ d ∈ ['.', '[', '"', '\''], c ≠ d := by
    intro d hd heq
    have hname := hstop d hd
    rw [← heq, h c hc] at hname
    cases hname
  simp [hne]

theorem IsName.ownerOf_dot {name : String} (h : IsName name) {rest : List Char}
    (hrest : ∀ c, rest.head? = some c → c = '.' ∨ c = '[') :
    ownerOf ("params.".toList ++ (name.toList ++ rest)) = name.toList := by
  unfold ownerOf
  rw [if_pos (by simp)]
  refine Text.takeWhile_append_stop (fun c hc => (h.not_stop hc).1) fun c hc => ?_
  rcases hrest c hc with rfl | rfl <;> decide

theorem IsName.ownerOf_bracket {name : String} (h : IsName name) {q : Char}
    (hq : q = '"' ∨ q = '\'') (rest : List Char) :
    ownerOf ("params[".toList ++ (q :: (name.toList ++ q :: rest))) = name.toList := by
  unfold ownerOf
  rw [if_neg (by simp)]
  refine Text.takeWhile_append_stop (fun c hc => (h.not_stop hc).2) fun c hc => ?_
  obtain rfl : q = c := by simpa using hc
  rcases hq with rfl | rfl <;> decide

theorem exists_of_mem_paramPatterns {name pattern : String} (h : pattern ∈ paramPatterns name) :
    pattern.toList = "params.".toList ++ name.toList ∨ ∃ q, (q = '"' ∨ q = '\'') ∧
        pattern.toList = "params[".toList ++ (q :: (name.toList ++ [q, ']'])) := by
  simp only [paramPatterns, mem_cons, not_mem_nil, or_false] at h
  rcases h with rfl | rfl | rfl
  · exact .inl (by simp)
  · exact .inr ⟨'"', .inl rfl, by simp⟩
  · exact .inr ⟨'\'', .inr rfl, by simp⟩

section
variable {name pattern : String}

theorem IsName.ownerOf_pattern (h : IsName name) (hp : pattern ∈ paramPatterns name) :
    ownerOf pattern.toList = name.toList := by
  rcases exists_of_mem_paramPatterns hp with heq | ⟨q, hq, heq⟩
  · rw [heq, ← append_nil name.toList, h.ownerOf_dot (by simp)]
    simp
  · rw [heq]
    exact h.ownerOf_bracket hq _

theorem toList_indexed (pattern : String) (i : Nat) :
    (indexed pattern i).toList = pattern.toList ++ '[' :: ((toString i).toList ++ [']']) := by
  simp [indexed]

theorem IsName.ownerOf_indexed (h : IsName name) (hp : pattern ∈ paramPatterns name) (i : Nat) :
    ownerOf (indexed pattern i).toList = name.toList := by
  rw [toList_indexed]
  rcases exists_of_mem_paramPatterns hp with heq | ⟨q, hq, heq⟩
  · rw [heq, append_assoc]
    exact h.ownerOf_dot fun c hc => .inr (by simpa using hc.symm)
  · rw [heq]
    have hassoc : "params[".toList ++ (q :: (name.toList ++ [q, ']'])) ++
        '[' :: ((toString i).toList ++ [']']) = "params[".toList ++ (q :: (name.toList ++
          q :: ']' :: '[' :: ((toString i).toList ++ [']']))) := by
      simp
    rw [hassoc]
    exact h.ownerOf_bracket hq _

theorem toList_objectIndividualVariable (name key : String) :
    (objectIndividualVariable name key).toList =
      "params.".toList ++ (name.toList ++ '.' :: key.toList) := by
  simp [objectIndividualVariable]

theorem IsName.ownerOf_key (h : IsName name) (key : String) :
    ownerOf (objectIndividualVariable name key).toList = name.toList := by
  rw [toList_objectIndividualVariable]
  exact h.ownerOf_dot fun c hc => .inl (by simpa using hc.symm)

theorem mem_objectKeyWrites {o : List (String × String)} {k : String} :
    k ∈ (objectKeyWrites name o).map (·.1) ↔ ∃ e ∈ o, k = objectIndividualVariable name e.1 := by
  simp [objectKeyWrites, eq_comm]

theorem cases_of_mem_stringWrites {q : Param} {k : String} (hk : k ∈ (stringWrites q).map (·.1)) :
    (q.value.type = .string ∧ k ∈ paramPatterns q.name) ∨
      (q.value.type = .array ∧ ∃ pattern ∈ paramPatterns q.name, ∃ i, k = indexed pattern i) ∨
      (q.value.type = .object ∧ ∃ e ∈ q.value.objectVal,
        k = objectIndividualVariable q.name e.1) := by
  unfold stringWrites at hk
  cases ht : q.value.type with
  | string =>
    simp only [ht, map_map, mem_map, Function.comp_apply, exists_eq_right] at hk
    exact .inl ⟨rfl, hk⟩
  | array =>
    simp only [ht, map_flatMap, map_map, mem_flatMap, mem_map, Function.comp_apply] at hk
    obtain ⟨pattern, hp, e, -, rfl⟩ := hk
    exact .inr (.inl ⟨rfl, pattern, hp, e.2, rfl⟩)
  | object =>
    simp only [ht] at hk
    exact .inr (.inr ⟨rfl, mem_objectKeyWrites.mp hk⟩)

theorem ownerOf_stringWrites {q : Param} (h : IsName q.name) {k : String}
    (hk : k ∈ (stringWrites q).map (·.1)) : ownerOf k.toList = q.name.toList := by
  rcases cases_of_mem_stringWrites hk with ⟨-, hp⟩ | ⟨-, pattern, hp, i, rfl⟩ | ⟨-, e, -, rfl⟩
  · exact h.ownerOf_pattern hp
  · exact h.ownerOf_indexed hp i
  · exact h.ownerOf_key e.1

end

section
variable {name pattern : String}

theorem plain_iff {k : String} : Plain k ↔ ∀ c ∈ k.toList, c ≠ '$' ∧ c ≠ ')' := by
  constructor
  · intro h c hc
    exact ⟨fun heq => h.dollar (heq ▸ hc), fun heq => h.closing (heq ▸ hc)⟩
  · intro h
    exact ⟨fun hc => (h _ hc).1 rfl, fun hc => (h _ hc).2 rfl⟩

theorem plain_append {s t : String} : Plain (s ++ t) ↔ Plain s ∧ Plain t := by
  simp only [plain_iff, String.toList_append, forall_mem_append]

theorem IsName.plain (h : IsName name) : Plain name :=
  plain_of_isVarChar fun c hc => (Bool.and_eq_true _ _ ▸ h c hc).1

theorem plain_pattern (h : Plain name) (hp : pattern ∈ paramPatterns name) : Plain pattern := by
  simp only [paramPatterns, mem_cons, not_mem_nil, or_false] at hp
  rcases hp with rfl | rfl | rfl
  · exact plain_append.mpr ⟨⟨by decide, by decide⟩, h⟩
  · exact plain_append.mpr ⟨plain_append.mpr ⟨⟨by decide, by decide⟩, h⟩, ⟨by decide, by decide⟩⟩
  · exact plain_append.mpr ⟨plain_append.mpr ⟨⟨by decide, by decide⟩, h⟩, ⟨by decide, by decide⟩⟩

theorem plain_toString (i : Nat) : Plain (toString i) := by
  refine plain_iff.mpr fun c hc => ?_
  have hdigit := isDigit_of_mem_toString hc
  constructor <;> rintro rfl <;> revert hdigit <;> decide

theorem plain_indexed (h : Plain name) (hp : pattern ∈ paramPatterns name) (i : Nat) :
    Plain (indexed pattern i) := by
  unfold indexed
  refine plain_append.mpr ⟨plain_append.mpr ⟨plain_append.mpr ⟨plain_pattern h hp, ?_⟩,
    plain_toString i⟩, ?_⟩ <;> exact ⟨by decide, by decide⟩

theorem plain_key (h : Plain name) {key : String} (hkey : Plain key) :
    Plain (objectIndividualVariable name key) := by
  unfold objectIndividualVariable
  refine plain_append.mpr ⟨plain_append.mpr ⟨plain_append.mpr ⟨?_, h⟩, ?_⟩, hkey⟩ <;>
    exact ⟨by decide, by decide⟩

theorem plain_of_mem_stringWrites {q : Param} (h : Plain q.name)
    (hkeys : ∀ e ∈ q.value.objectVal, Plain e.1) {k : String}
    (hk : k ∈ (stringWrites q).map (·.1)) : Plain k := by
  rcases cases_of_mem_stringWrites hk with ⟨-, hp⟩ | ⟨-, pattern, hp, i, rfl⟩ | ⟨-, e, he, rfl⟩
  · exact plain_pattern h hp
  · exact plain_indexed h hp i
  · exact plain_key h (hkeys e he)

def PlainParam (q : Param) : Prop := Plain q.name ∧ ∀ e ∈ q.value.objectVal, Plain e.1

theorem plain_replacementsOf {ps : Params} (h : ∀ q ∈ ps, PlainParam q) :
    ∀ k ∈ (replacementsOf ps).strings.map (·.1), Plain k := by
  intro k hk
  rw [replacementsOf, Table.mem_keys_puts, map_flatMap, mem_flatMap] at hk
  rcases hk with ⟨q, hq, hkq⟩ | hk
  · exact plain_of_mem_stringWrites (h q hq).1 (h q hq).2 hkq
  · exact absurd hk not_mem_nil

end

def Spelled (q : Param) : Prop :=
  (∀ c ∈ q.name.toList, isVarChar c = true) ∧
    ∀ e ∈ q.value.objectVal, ∀ c ∈ e.1.toList, isVarChar c = true

section
variable {x pattern : String} {q : Param}

theorem Spelled.plainParam (h : Spelled q) : PlainParam q :=
  ⟨plain_of_isVarChar h.1, fun e he => plain_of_isVarChar (h.2 e he)⟩

theorem indexed_inj {pattern' : String} {i j : Nat}
    (h : indexed pattern i = indexed pattern' j) : pattern = pattern' ∧ i = j := by
  have hbracket : ∀ n : Nat, '[' ∉ (toString n).toList ++ [']'] := by
    intro n hmem
    rcases mem_append.mp hmem with hmem | hmem
    · exact absurd (isDigit_of_mem_toString hmem) (by decide)
    · revert hmem
      decide
  have hlist := congrArg String.toList h
  rw [toList_indexed, toList_indexed] at hlist
  obtain ⟨hpattern, hindex⟩ := append_cons_inj (hbracket i) (hbracket j) hlist
  exact ⟨String.toList_inj.mp hpattern,
    toString_inj (String.toList_inj.mp (append_cancel_right hindex))⟩

theorem paramPatterns_inj {y : String} (hx : pattern ∈ paramPatterns x)
    (hy : pattern ∈ paramPatterns y) : x = y := by
  simp only [paramPatterns, mem_cons, not_mem_nil, or_false] at hx hy
  rcases hx with rfl | rfl | rfl <;> rcases hy with h | h | h <;>
    simp_all [← String.toList_inj]

theorem isDigit_before_end (pattern : String) (i : Nat) :
    ∃ u d, d.isDigit = true ∧ (indexed pattern i).toList = u ++ [d, ']'] := by
  have hne : (toString i).toList ≠ [] := by
    rw [Nat.toString_eq_ofList_toDigits, String.toList_ofList]
    exact Nat.toDigits_ne_nil
  refine ⟨pattern.toList ++ '[' :: (toString i).toList.dropLast, (toString i).toList.getLast hne,
    isDigit_of_mem_toString (getLast_mem hne), ?_⟩
  rw [toList_indexed]
  conv_lhs => rw [← dropLast_append_getLast hne]
  simp

theorem indexed_ne_of_isVarChar {key : String} (hkey : ∀ c ∈ key.toList, isVarChar c = true)
    (u : String) (i : Nat) : indexed pattern i ≠ u ++ "." ++ key := by
  intro h
  obtain ⟨v, d, -, hv⟩ := isDigit_before_end pattern i
  rw [h] at hv
  have hlast := congrArg List.getLast? hv
  simp only [String.toList_append, getLast?_append] at hlast
  cases hk : key.toList.getLast? with
  | none => simp [hk] at hlast
  | some c =>
    obtain rfl : c = ']' := by simpa [hk] using hlast
    exact absurd (hkey _ (mem_of_getLast? hk)) (by decide)

theorem indexed_not_mem_paramPatterns (hx : ∀ c ∈ x.toList, isVarChar c = true)
    (pattern : String) (i : Nat) : indexed pattern i ∉ paramPatterns x := by
  intro hmem
  obtain ⟨u, d, hdigit, hu⟩ := isDigit_before_end pattern i
  have hquote : ∀ v : List Char, ∀ c, (indexed pattern i).toList = v ++ [c, ']'] → c = d := by
    intro v c hv
    have hboth := hu.symm.trans hv
    exact (List.cons.inj (append_inj_right' hboth rfl)).1.symm
  simp only [paramPatterns, mem_cons, not_mem_nil, or_false] at hmem
  rcases hmem with h | h | h
  · exact indexed_ne_of_isVarChar hx "params" i (by rw [h]; rfl)
  · have hd := hquote ("params[\"" ++ x).toList '"' (by rw [h]; simp)
    rw [← hd] at hdigit
    exact absurd hdigit (by decide)
  · have hd := hquote ("params['" ++ x).toList '\'' (by rw [h]; simp)
    rw [← hd] at hdigit
    exact absurd hdigit (by decide)

theorem Spelled.indexed_not_mem_objectKeyWrites (h : Spelled q) (pattern : String) (i : Nat) :
    indexed pattern i ∉ (objectKeyWrites q.name q.value.objectVal).map (·.1) := by
  intro hmem
  obtain ⟨e, he, heq⟩ := mem_objectKeyWrites.mp hmem
  exact indexed_ne_of_isVarChar (h.2 e he) ("params." ++ q.name) i heq

theorem Spelled.of_mem_stringWrites (h : Spelled q) (hp : pattern ∈ paramPatterns x) {i : Nat}
    {w : String} (hw : (indexed pattern i, w) ∈ stringWrites q) :
    q.name = x ∧ q.value.type = .array ∧ q.value.arrayVal[i]? = some w := by
  unfold stringWrites at hw
  cases ht : q.value.type with
  | string =>
    simp only [ht, mem_map] at hw
    obtain ⟨p, hp', heq⟩ := hw
    rw [(Prod.mk.inj heq).1] at hp'
    exact absurd hp' (indexed_not_mem_paramPatterns h.1 pattern i)
  | object =>
    simp only [ht] at hw
    exact absurd (mem_map_of_mem hw) (h.indexed_not_mem_objectKeyWrites pattern i)
  | array =>
    simp only [ht, mem_flatMap, mem_map] at hw
    obtain ⟨pattern', hp', e, he, heq⟩ := hw
    obtain ⟨hkey, rfl⟩ := Prod.mk.inj heq
    obtain ⟨rfl, rfl⟩ := indexed_inj hkey
    exact ⟨paramPatterns_inj hp' hp, rfl, mk_mem_zipIdx_iff_getElem?.mp he⟩

end

end TektonPipeline.Parameters
