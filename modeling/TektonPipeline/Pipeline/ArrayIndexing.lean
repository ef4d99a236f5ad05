import TektonPipeline.Pipeline.ParameterKeys

/-! `ValidateParamArrayIndex` of a pipeline: the references with an index that are found in the
tasks, and the lengths they are checked against. -/

namespace TektonPipeline.Parameters
open Api ResultRef List

/-- `[_a-zA-Z0-9.-\/]`, in which `.-\/` is a range and the dash no member. -/
def isBracketChar (c : Char) : Bool :=
  c == '_' || ('a' ≤ c && c ≤ 'z') || ('A' ≤ c && c ≤ 'Z') || isDigit c || c == '.' || c == '/'

/-- `\['[_a-zA-Z0-9.-\/]+'\]`, with one of the two quotation marks. -/
def bracketName (quote : Char) : List Char → Option Nat :=
  Text.andThen (Text.literal ['[', quote]) <|
    Text.andThen (Text.many 1 isBracketChar) (Text.literal [quote, ']'])

def nameNotation : List Char → Option Nat :=
  Text.orElse (Text.andThen (Text.literal ".".toList) (Text.many 1 isVarChar)) <|
    Text.orElse (bracketName '\'') (bracketName '"')

/-- `\$\(params(\.[_a-zA-Z0-9.-]+|\['…'\]|\["…"\])\[[0-9]+\]\)` -/
def paramIndexing : List Char → Option Nat :=
  Text.andThen (Text.literal "$(params".toList) <|
    Text.andThen nameNotation <|
      Text.andThen (Text.literal "[".toList) <|
        Text.andThen (Text.many 1 isDigit) (Text.literal "])".toList)

/-- `\[[0-9]+\]` -/
def intIndex : List Char → Option Nat :=
  Text.andThen (Text.literal "[".toList) <|
    Text.andThen (Text.many 1 isDigit) (Text.literal "]".toList)

def extractIndexString (s : String) : String :=
  String.ofList ((Text.findAll intIndex s.toList).head?.getD [])

def extractIndex (s : String) : Nat :=
  atoi (String.ofList (Text.trimSuffix "]".toList (Text.trimPrefix "[".toList s.toList)))

def extractArrayIndexingParamRefs (paramReference : String) : List String :=
  ((Text.findAll paramIndexing paramReference.toList).map String.ofList).filter
    fun val => extractIndexString val != ""

def extractValues (ps : Params) : List String :=
  ps.flatMap fun p => p.value.stringVal :: (p.value.arrayVal ++ p.value.objectVal.map (·.2))

/-- The texts of a task that are looked through; of a finally task not its workspaces. -/
def PipelineTask.indexedTexts (final : Bool) (t : PipelineTask) : List String :=
  extractValues t.params ++ (if t.isMatrixed then extractValues t.matrix.params else []) ++
    (if final then [] else t.workspaces.map (·.subPath)) ++
    t.when.flatMap fun we => we.input :: we.values

def PipelineSpec.indexedTexts (p : PipelineSpec) : List String :=
  p.tasks.flatMap (PipelineTask.indexedTexts false) ++
    p.finalTasks.flatMap (PipelineTask.indexedTexts true)

/-- The order of the set is not used. -/
def PipelineSpec.getIndexingReferencesToArrayParams (p : PipelineSpec) : List String :=
  p.indexedTexts.flatMap extractArrayIndexingParamRefs

def extractParamArrayLengths (ps : Params) : List (String × Nat) :=
  Table.puts [] ((ps.filter fun p => p.value.type = .array).map
    fun p => (p.name, p.value.arrayVal.length))

def arrayParamLengths (declared : List ParamSpec) (given : Params) : List (String × Nat) :=
  Table.puts (extractParamArrayLengths (defaults declared)) (extractParamArrayLengths given).reverse

/-- A reference past the end of its array; `none` where the name is read from an empty list. -/
def isOutOfBound (lengths : List (String × Nat)) (val : String) : Option Bool :=
  (extractVariablesFromString (trimArrayIndex val) "params").vars.head?.map fun paramName =>
    (lengths.lookup paramName).any fun paramLength =>
      paramLength ≤ extractIndex (extractIndexString val)

def outofBoundParams (lengths : List (String × Nat)) : List String → Option (List String)
  | [] => some []
  | val :: refs => do
    let out ← isOutOfBound lengths val
    let rest ← outofBoundParams lengths refs
    return if out then val :: rest else rest

def validateOutOfBoundArrayParams (declared : List ParamSpec) (given : Params)
    (arrayIndexingReferences : List String) : Option (Option String) :=
  (outofBoundParams (arrayParamLengths declared given) arrayIndexingReferences).map fun params =>
    if params.isEmpty then none
    else some ("non-existent param references:[" ++
      " ".intercalate (params.dedup.insertionSort (· ≤ ·)) ++ "]")

def validateParamArrayIndex (p : PipelineSpec) (given : Params) : Option (Option String) :=
  validateOutOfBoundArrayParams p.params given p.getIndexingReferencesToArrayParams

theorem outofBoundParams_nil {lengths : List (String × Nat)} {refs : List String}
    (h : outofBoundParams lengths refs = some []) {val : String} (hval : val ∈ refs) :
    isOutOfBound lengths val = some false := by
  induction refs with
  | nil => exact absurd hval not_mem_nil
  | cons ref refs ih =>
    simp only [outofBoundParams, Option.bind_eq_bind, Option.bind_eq_some_iff, Option.pure_def,
      Option.some.injEq] at h
    obtain ⟨out, hout, rest, hrest, heq⟩ := h
    cases out with
    | true => simp at heq
    | false =>
      obtain rfl : rest = [] := by simpa using heq
      rcases mem_cons.mp hval with rfl | hval
      · exact hout
      · exact ih hrest hval

theorem isOutOfBound_of_valid {p : PipelineSpec} {given : Params}
    (h : validateParamArrayIndex p given = some none) {val : String}
    (hval : val ∈ p.getIndexingReferencesToArrayParams) :
    isOutOfBound (arrayParamLengths p.params given) val = some false := by
  obtain ⟨params, hparams, hnone⟩ := Option.map_eq_some_iff.mp h
  have hempty : params = [] := by
    by_contra hne
    simp [hne] at hnone
  rw [hempty] at hparams
  exact outofBoundParams_nil hparams hval

def Recognised (x pattern : String) : Prop :=
  x ≠ "" ∧
    ((pattern = "params." ++ x ∧ IsName x) ∨
      (pattern ∈ ["params[\"" ++ x ++ "\"]", "params['" ++ x ++ "']"] ∧
        ∀ c ∈ x.toList, isBracketChar c = true))

section
variable {x pattern : String}

theorem dollar_not_mem_tail {t : List Char} {n : Nat} (h : paramIndexing t = some n) :
    '$' ∉ (t.take n).tail := by
  have hbracket : ∀ quote, '$' ≠ quote → Text.Avoids '$' (bracketName quote) := by
    intro quote hquote
    exact (Text.Avoids.literal _ (by simp [hquote])).andThen
      ((Text.Avoids.many 1 isBracketChar (by decide)).andThen
        (Text.Avoids.literal _ (by simp [hquote])))
  have hname : Text.Avoids '$' _ := (Text.Avoids.literal ".".toList (by decide)).andThen
    (Text.Avoids.many 1 isVarChar (by decide))
  have hindex : Text.Avoids '$' _ := (Text.Avoids.literal "[".toList (by decide)).andThen
    ((Text.Avoids.many 1 isDigit (by decide)).andThen
      (Text.Avoids.literal "])".toList (by decide)))
  have hrest := (hname.orElse
    ((hbracket '\'' (by decide)).orElse (hbracket '"' (by decide)))).andThen hindex
  obtain ⟨-, u, v, huv, hu, hv⟩ :=
    ((Text.Accepts.literal "$(params".toList).andThen hrest) t n h
  rw [huv, hu]
  simpa using hv

def indexEnd (i : Nat) : List Char := '[' :: ((toString i).toList ++ "])".toList)

theorem isDigit_toString (i : Nat) : ∀ c ∈ (toString i).toList, isDigit c = true := by
  intro c hc
  have h := Text.isDigit_of_mem_toString hc
  simpa [Char.isDigit, isDigit, Char.le_def] using h

theorem toString_ne_nil (i : Nat) : 1 ≤ (toString i).toList.length := by
  rw [Nat.toString_eq_ofList_toDigits, String.toList_ofList]
  exact length_pos_iff.mpr Nat.toDigits_ne_nil

theorem digits_reads (i : Nat) (rest : List Char) :
    Text.Reads (Text.many 1 isDigit) (toString i).toList (']' :: rest) := by
  refine .many (isDigit_toString i) (toString_ne_nil i) fun c hc => ?_
  obtain rfl : ']' = c := by simpa using hc
  decide

theorem Recognised.exists_middle (h : Recognised x pattern) :
    (pattern.toList = "params".toList ++ '.' :: x.toList ∧ IsName x) ∨ ∃ q, (q = '"' ∨ q = '\'') ∧
        pattern.toList = "params".toList ++ (['[', q] ++ (x.toList ++ [q, ']'])) ∧
          ∀ c ∈ x.toList, isBracketChar c = true := by
  rcases h.2 with ⟨rfl, hname⟩ | ⟨hmem, hchars⟩
  · exact .inl ⟨by simp, hname⟩
  · rw [mem_cons, mem_singleton] at hmem
    rcases hmem with rfl | rfl
    · exact .inr ⟨'"', .inl rfl, by simp, hchars⟩
    · exact .inr ⟨'\'', .inr rfl, by simp, hchars⟩

theorem Recognised.length_pos (h : Recognised x pattern) : 1 ≤ x.toList.length := by
  rw [String.length_toList]
  exact Nat.one_le_iff_ne_zero.mpr fun h0 => h.1 (String.length_eq_zero_iff.mp h0)

theorem bracketName_reads {q : Char} (hq : isBracketChar q = false)
    (hx : ∀ c ∈ x.toList, isBracketChar c = true) (hlen : 1 ≤ x.toList.length) (rest : List Char) :
    Text.Reads (bracketName q) (['[', q] ++ (x.toList ++ [q, ']'])) rest := by
  refine (Text.Reads.literal _ _).andThen (.andThen (.many hx hlen fun c hc => ?_) (.literal _ _))
  obtain rfl : q = c := by simpa using hc
  exact hq

theorem bracketName_other {q b : Char} (hne : q ≠ b) (rest : List Char) :
    bracketName q (['[', b] ++ rest) = none :=
  Text.andThen_of_none (by simp [Text.literal, hne])

theorem nameNotation_dot (hx : IsName x) (hlen : 1 ≤ x.toList.length) (i : Nat)
    (rest : List Char) : Text.Reads nameNotation ('.' :: x.toList) (indexEnd i ++ rest) := by
  have hvar : ∀ c ∈ x.toList, isVarChar c = true :=
    fun c hc => (Bool.and_eq_true _ _ ▸ hx c hc).1
  refine .inl ((Text.Reads.literal ".".toList _).andThen (.many hvar hlen fun c hc => ?_))
  obtain rfl : '[' = c := by simpa [indexEnd] using hc
  decide

theorem nameNotation_bracket {q : Char} (hq : q = '"' ∨ q = '\'')
    (hx : ∀ c ∈ x.toList, isBracketChar c = true) (hlen : 1 ≤ x.toList.length)
    (rest : List Char) : Text.Reads nameNotation (['[', q] ++ (x.toList ++ [q, ']'])) rest := by
  refine .inr (Text.andThen_of_none (by simp [Text.literal])) ?_
  rcases hq with rfl | rfl
  · refine .inr ?_ (bracketName_reads (by decide) hx hlen rest)
    exact bracketName_other (by decide) _
  · exact .inl (bracketName_reads (by decide) hx hlen rest)

theorem paramIndexing_reference (h : Recognised x pattern) (i : Nat) (rest : List Char) :
    Text.Reads paramIndexing ("$(".toList ++ (pattern.toList ++ indexEnd i)) rest := by
  have hrest : ∀ mid : List Char, pattern.toList = "params".toList ++ mid →
      Text.Reads nameNotation mid (indexEnd i ++ rest) →
      Text.Reads paramIndexing ("$(".toList ++ (pattern.toList ++ indexEnd i)) rest := by
    intro mid hmid hmatch
    have hindex : Text.Reads _ (indexEnd i) rest := (Text.Reads.literal "[".toList _).andThen
      ((digits_reads i (')' :: rest)).andThen (.literal "])".toList rest))
    rw [hmid]
    exact (Text.Reads.literal "$(params".toList _).andThen (hmatch.andThen hindex)
  rcases h.exists_middle with ⟨hpattern, hname⟩ | ⟨q, hq, hpattern, hchars⟩
  · exact hrest _ hpattern (nameNotation_dot hname h.length_pos i rest)
  · exact hrest _ hpattern (nameNotation_bracket hq hchars h.length_pos _)

/-- A matcher that wants a bracket finds nothing in front of the index, where the one bracket
there is has a quotation mark behind it. -/
theorem passes_before_index (h : Recognised x pattern) {m : List Char → Option Nat}
    (hother : ∀ c t, c ≠ '[' → m (c :: t) = none)
    (hquote : ∀ q t, q = '"' ∨ q = '\'' → m ('[' :: q :: t) = none) (rest : List Char) :
    Text.Passes m ("$(".toList ++ pattern.toList) rest := by
  rcases h.exists_middle with ⟨hpattern, hname⟩ | ⟨q, hq, hpattern, hchars⟩
  · have hx : '[' ∉ x.toList := fun hin => absurd (hname _ hin) (by decide)
    exact .of_not_mem hother (by simp [hpattern, hx]) rest
  · -- the only bracket stands right behind `$(params`
    have hx : '[' ∉ x.toList := fun hin => absurd (hchars _ hin) (by decide)
    have hq' : q ≠ '[' := by
      rcases hq with rfl | rfl <;> decide
    have hbehind : '[' ∉ q :: (x.toList ++ [q, ']']) := by simp [hx, hq'.symm]
    rw [hpattern, ← append_assoc]
    exact (Text.Passes.of_not_mem hother (by decide) _).append
      ⟨hquote q _ hq, .of_not_mem hother hbehind rest⟩

theorem reference_indexed (pattern : String) (i : Nat) : ("$(" ++ indexed pattern i ++ ")").toList =
      "$(".toList ++ (pattern.toList ++ indexEnd i) := by
  simp [indexed, indexEnd]

theorem intIndex_other (c : Char) (t : List Char) (hc : c ≠ '[') : intIndex (c :: t) = none :=
  Text.andThen_of_none (by simp [Text.literal, hc.symm])

theorem intIndex_quote (q : Char) (t : List Char) (hq : q = '"' ∨ q = '\'') :
    intIndex ('[' :: q :: t) = none := by
  rcases hq with rfl | rfl <;>
    simp [intIndex, Text.andThen, Text.literal, Text.many, isDigit]

theorem arrayIndexing_quote (q : Char) (t : List Char) (hq : q = '"' ∨ q = '\'') :
    arrayIndexing ('[' :: q :: t) = none := by
  rcases hq with rfl | rfl <;>
    simp [arrayIndexing, Text.andThen, Text.literal, Text.many, Text.optional, isDigit]

def indexText (i : Nat) : List Char := '[' :: ((toString i).toList ++ [']'])

theorem intIndex_reads (i : Nat) (rest : List Char) : Text.Reads intIndex (indexText i) rest :=
  (Text.Reads.literal "[".toList _).andThen
    ((digits_reads i rest).andThen (.literal "]".toList rest))

theorem scan_reference {α : Type} (emit : List Char → List α) (pass : Char → List α)
    (h : Recognised x pattern) (i : Nat) {m : List Char → Option Nat}
    (hother : ∀ c t, c ≠ '[' → m (c :: t) = none)
    (hquote : ∀ q t, q = '"' ∨ q = '\'' → m ('[' :: q :: t) = none)
    (hindex : ∀ rest, Text.Reads m (indexText i) rest) :
    Text.scan m emit pass 0 ("$(".toList ++ (pattern.toList ++ indexEnd i)) =
      ("$(".toList ++ pattern.toList).flatMap pass ++ (emit (indexText i) ++ pass ')') := by
  have htext : "$(".toList ++ (pattern.toList ++ indexEnd i) =
      ("$(".toList ++ pattern.toList) ++ (indexText i ++ [')']) := by
    simp [indexEnd, indexText]
  rw [htext, (passes_before_index h hother hquote _).scan,
    (hindex [')']).scan (by simp [indexText])]
  simp [Text.scan, hother ')' [] (by decide)]

theorem extractIndexString_reference (h : Recognised x pattern) (i : Nat) :
    extractIndexString ("$(" ++ indexed pattern i ++ ")") = String.ofList (indexText i) := by
  have hscan := scan_reference (fun w => [w]) (fun _ => []) h i intIndex_other intIndex_quote
    (intIndex_reads i)
  have hpass : ("$(".toList ++ pattern.toList).flatMap (fun _ => ([] : List (List Char))) = [] :=
    flatMap_eq_nil_iff.mpr fun _ _ => rfl
  rw [extractIndexString, Text.findAll, reference_indexed, hscan, hpass]
  rfl

theorem trimArrayIndex_reference (h : Recognised x pattern) (i : Nat) :
    trimArrayIndex ("$(" ++ indexed pattern i ++ ")") = "$(" ++ pattern ++ ")" := by
  have hscan := scan_reference (fun _ => []) (fun c => [c]) h i arrayIndexing_other
    arrayIndexing_quote (arrayIndexing_digits (isDigit_toString i))
  rw [trimArrayIndex, Text.rewriteAll, reference_indexed, hscan, ← String.toList_inj]
  simp

theorem extractIndex_indexText (i : Nat) :
    extractIndex (String.ofList (indexText i)) = min i (2 ^ 63 - 1) := by
  have hdigits : Text.trimSuffix "]".toList (Text.trimPrefix "[".toList (indexText i)) =
      (toString i).toList := by
    have htext : indexText i = "[".toList ++ ((toString i).toList ++ "]".toList) := by
      simp [indexText]
    rw [htext, Text.trimPrefix_append, Text.trimSuffix_append]
  have hnumber : (toString i).toList ≠ [] ∧ (toString i).toList.all isDigit = true :=
    ⟨length_pos_iff.mp (toString_ne_nil i), all_eq_true.mpr (isDigit_toString i)⟩
  rw [extractIndex, String.toList_ofList (l := indexText i), hdigits, atoi, String.ofList_toList,
    if_pos hnumber, Nat.toString_eq_ofList_toDigits, String.toList_ofList,
    Nat.ofDigitChars_toDigits (by decide) (by decide)]

theorem braceMatching_dot (hx : IsName x) : Text.Reads (braceMatching "params")
    ("$(params".toList ++ (".".toList ++ (x.toList ++ ")".toList))) [] := by
  have hw : ∀ c ∈ x.toList, c ≠ ')' ∧ c ≠ '\n' := by
    intro c hc
    constructor <;> rintro rfl <;> exact absurd (hx _ hc) (by decide)
  exact (Text.Reads.literal _ _).andThen
    (.inl ((Text.Reads.literal _ _).andThen (.lazyUntil [] hw [])))

theorem braceMatching_bracket {q : Char} (hq : q = '"' ∨ q = '\'')
    (hx : ∀ c ∈ x.toList, isBracketChar c = true) : Text.Reads (braceMatching "params")
      ("$(params".toList ++ (['[', q] ++ (x.toList ++ [q, ']', ')']))) [] := by
  have hw : ∀ c ∈ x.toList, c ≠ q ∧ c ≠ '\n' := by
    intro c hc
    constructor
    · rintro rfl
      rcases hq with rfl | rfl <;> exact absurd (hx _ hc) (by decide)
    · rintro rfl
      exact absurd (hx _ hc) (by decide)
  have hself := (Text.Reads.literal ['[', q] _).andThen (.lazyUntil [']', ')'] hw [])
  refine (Text.Reads.literal _ _).andThen
    (.inr (Text.andThen_of_none (by simp [Text.literal])) ?_)
  rcases hq with rfl | rfl
  · exact .inl hself
  · exact .inr (Text.andThen_of_none (by simp [Text.literal])) hself

theorem matchGroups_dot (x : String) :
    matchGroups "params" ("$(params".toList ++ (".".toList ++ (x.toList ++ ")".toList))) =
      { var1 := x } := by
  have hlength : ("$(" ++ "params").length = "$(params".toList.length := by decide
  rw [matchGroups, hlength, drop_left]
  simp

theorem matchGroups_bracket (x : String) {q : Char} (hq : q = '"' ∨ q = '\'') :
    matchGroups "params" ("$(params".toList ++ (['[', q] ++ (x.toList ++ [q, ']', ')']))) =
      if q = '"' then { var2 := x } else { var3 := x } := by
  have hlength : ("$(" ++ "params").length = "$(params".toList.length := by decide
  rw [matchGroups, hlength, drop_left]
  rcases hq with rfl | rfl
  · simp
  · simp

theorem vars_of_findAll {s word name : String} {w : List Char}
    (hfound : Text.findAll (braceMatching word) s.toList = [w])
    (hname : MatchGroups.captured? (matchGroups word w) = some name) :
    (extractVariablesFromString s word).vars = [name] := by
  unfold extractVariablesFromString
  rw [hfound]
  simp [fillVariables, hname]

theorem extractVariables_reference (h : Recognised x pattern) :
    (extractVariablesFromString ("$(" ++ pattern ++ ")") "params").vars = [x] := by
  have hne : ("$(" ++ pattern ++ ")").toList ≠ [] := by simp
  rcases h.exists_middle with ⟨hpattern, hname⟩ | ⟨q, hq, hpattern, hchars⟩
  · have htext : ("$(" ++ pattern ++ ")").toList =
        "$(params".toList ++ (".".toList ++ (x.toList ++ ")".toList)) := by
      simp [hpattern]
    refine vars_of_findAll (Text.findAll_whole hne ?_) ?_
    · rw [htext]
      simpa [Text.Reads] using braceMatching_dot hname
    · have hdot : '.' ∉ x.toList := fun hin => absurd (hname _ hin) (by decide)
      rw [htext, matchGroups_dot]
      simp [MatchGroups.captured?, hdot, h.1]
  · have htext : ("$(" ++ pattern ++ ")").toList =
        "$(params".toList ++ (['[', q] ++ (x.toList ++ [q, ']', ')'])) := by
      simp [hpattern]
    refine vars_of_findAll (Text.findAll_whole hne ?_) ?_
    · rw [htext]
      simpa [Text.Reads] using braceMatching_bracket hq hchars
    · rw [htext, matchGroups_bracket x hq]
      rcases hq with rfl | rfl
      · simp [MatchGroups.captured?, h.1]
      · simp [MatchGroups.captured?]

theorem isOutOfBound_reference (h : Recognised x pattern) (i : Nat)
    (lengths : List (String × Nat)) : isOutOfBound lengths ("$(" ++ indexed pattern i ++ ")") =
      some ((lengths.lookup x).any fun n => decide (n ≤ min i (2 ^ 63 - 1))) := by
  rw [isOutOfBound, trimArrayIndex_reference h, extractVariables_reference h,
    extractIndexString_reference h, extractIndex_indexText]
  rfl

theorem mem_extractArrayIndexingParamRefs (h : Recognised x pattern) {i : Nat} {s : String}
    (hs : Occurs (indexed pattern i) s) :
    "$(" ++ indexed pattern i ++ ")" ∈ extractArrayIndexingParamRefs s := by
  refine mem_filter.mpr ⟨mem_map.mpr ⟨_, ?_, String.ofList_toList⟩, ?_⟩
  · obtain ⟨u, v, huv⟩ := hs
    have hcons : ("$(" ++ indexed pattern i ++ ")").toList =
        '$' :: ('(' :: (pattern.toList ++ indexEnd i)) := by
      rw [reference_indexed]
      rfl
    rw [reference, hcons, append_assoc, cons_append] at huv
    rw [hcons, ← huv]
    refine Text.mem_findAll_of_starts (fun t n => dollar_not_mem_tail) ?_ u
    have hmatch := paramIndexing_reference h i v
    simpa [Text.Reads] using hmatch
  · rw [extractIndexString_reference h]
    simp [indexText]

end

def Gives (given : Params) (x : String) : Prop :=
  ∃ q ∈ given, q.name = x ∧ q.value.type = .array

theorem lookup_arrayParamLengths (declared : List ParamSpec) {given : Params} {x : String}
    (hx : Gives given x) : ∃ q ∈ given, q.name = x ∧ q.value.type = .array ∧
      (arrayParamLengths declared given).lookup x = some q.value.arrayVal.length := by
  let lengths := (given.filter fun p => p.value.type = .array).map
    fun p => (p.name, p.value.arrayVal.length)
  have hmem : x ∈ lengths.reverse.map (·.1) := by
    obtain ⟨q, hq, rfl, htype⟩ := hx
    have hkept : q ∈ given.filter fun p => p.value.type = .array :=
      mem_filter.mpr ⟨hq, decide_eq_true htype⟩
    rw [map_reverse, mem_reverse, map_map]
    exact mem_map.mpr ⟨q, hkept, rfl⟩
  obtain ⟨n, hn⟩ := Option.isSome_iff_exists.mp (Assoc.lookup_isSome.mpr hmem)
  obtain ⟨q, hq, heq⟩ := mem_map.mp (mem_reverse.mp (Assoc.mem_of_lookup hn))
  obtain ⟨hgiven, htype⟩ := mem_filter.mp hq
  obtain ⟨hname, hlength⟩ := Prod.mk.inj heq
  refine ⟨q, hgiven, hname, of_decide_eq_true htype, ?_⟩
  rw [arrayParamLengths, extractParamArrayLengths, extractParamArrayLengths,
    Table.puts_reverse_puts, Table.lookup_puts, hn, hlength]
  rfl

/-- In the texts that are looked through, an index in a notation the check reads is below the
length of an array that the run gives. -/
theorem index_lt_of_valid {p : PipelineSpec} {given : Params} {x pattern s : String}
    {i : Nat} (hvalid : validateParamArrayIndex p given = some none) (hx : Gives given x)
    (hlen : ∀ q ∈ given, q.value.arrayVal.length < 2 ^ 63) (hpattern : Recognised x pattern)
    (hs : s ∈ p.indexedTexts) (hocc : Occurs (indexed pattern i) s) :
    ∃ q ∈ given, q.name = x ∧ q.value.type = .array ∧ i < q.value.arrayVal.length := by
  have hmem : "$(" ++ indexed pattern i ++ ")" ∈ p.getIndexingReferencesToArrayParams :=
    mem_flatMap.mpr ⟨s, hs, mem_extractArrayIndexingParamRefs hpattern hocc⟩
  have hbound := isOutOfBound_of_valid hvalid hmem
  obtain ⟨q, hq, hname, htype, hlookup⟩ := lookup_arrayParamLengths p.params hx
  rw [isOutOfBound_reference hpattern, hlookup] at hbound
  have hlt : ¬ q.value.arrayVal.length ≤ min i (2 ^ 63 - 1) := by simpa using hbound
  have hsize := hlen q hq
  exact ⟨q, hq, hname, htype, by omega⟩

end TektonPipeline.Parameters
