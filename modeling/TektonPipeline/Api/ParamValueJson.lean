import TektonPipeline.Api.Params

/-! The JSON of parameter values. Its type is told by the first character, and what is no string,
no list of strings and no map of strings is kept as its own text. -/

namespace TektonPipeline.ParamJson
open Api

section
variable (M : Type)

/-- What is used of `encoding/json`, for maps `M` of strings: the text that it writes, behind its
first character, and what it reads. A string that is read may be left as it was, which is what
`null` does; lists and maps are only read from texts that open one, so that they are not nil. -/
structure Codec where
  quoted : String → List Char
  elements : List String → List Char
  members : M → List Char
  unmarshalString : List Char → String → Option String
  unmarshalArray : List Char → Option (List String)
  unmarshalObject : List Char → Option M

/-- A value; a nil slice and a nil map are `none`, and so is an empty type. -/
structure ParamValue where
  type : Option ParamType := none
  stringVal : String := ""
  arrayVal : Option (List String) := none
  objectVal : Option M := none

end

variable {M : Type} (j : Codec M)

namespace Codec

def marshalString (s : String) : List Char := '"' :: j.quoted s

def marshalArray : Option (List String) → List Char
  | none => "null".toList
  | some l => '[' :: j.elements l

def marshalObject : Option M → List Char
  | none => "null".toList
  | some m => '{' :: j.members m

structure RoundTrips : Prop where
  string : ∀ s old, j.unmarshalString (j.marshalString s) old = some s
  array : ∀ l, j.unmarshalArray (j.marshalArray (some l)) = some l
  object : ∀ m, j.unmarshalObject (j.marshalObject (some m)) = some m

end Codec

namespace ParamValue

/-- By default the value is a string, or else the text itself. -/
def unmarshalString (v : ParamValue M) (value : List Char) : ParamValue M :=
  { v with
    type := some .string
    stringVal := (j.unmarshalString value v.stringVal).getD (String.ofList value) }

def unmarshalJSON (v : ParamValue M) (value : List Char) : ParamValue M :=
  match value with
  | [] => { v with type := some .string }
  | first :: _ =>
    match if first = '[' then j.unmarshalArray value else none with
    | some a => { v with type := some .array, arrayVal := some a }
    | none =>
      match if first = '{' then j.unmarshalObject value else none with
      | some m => { v with type := some .object, objectVal := some m }
      | none => v.unmarshalString j value

def marshalJSON (v : ParamValue M) : Except String (List Char) :=
  match v.type with
  | some .string => .ok (j.marshalString v.stringVal)
  | some .array => .ok (j.marshalArray v.arrayVal)
  | some .object => .ok (j.marshalObject v.objectVal)
  | none => .error "impossible ParamValues.Type: \"\""

/-- The value of one type, without what belongs to another. -/
inductive IsPure : ParamValue M → Prop where
  | string (s : String) : IsPure { type := some .string, stringVal := s }
  | array (a : List String) : IsPure { type := some .array, arrayVal := some a }
  | object (m : M) : IsPure { type := some .object, objectVal := some m }

theorem isPure_unmarshalJSON (value : List Char) :
    IsPure (unmarshalJSON j ({} : ParamValue M) value) := by
  unfold unmarshalJSON
  split
  · exact .string ""
  · split
    · exact .array _
    · split
      · exact .object _
      · exact .string _

theorem IsPure.unmarshal_marshal {j : Codec M} (hj : j.RoundTrips) {v : ParamValue M}
    (hv : IsPure v) : ∃ text, marshalJSON j v = .ok text ∧ unmarshalJSON j {} text = v := by
  cases hv with
  | string s =>
    have hs := hj.string s ""
    rw [Codec.marshalString] at hs
    exact ⟨_, rfl, by simp [unmarshalJSON, Codec.marshalString, unmarshalString, hs]⟩
  | array a =>
    have ha := hj.array a
    rw [Codec.marshalArray] at ha
    exact ⟨_, rfl, by simp [unmarshalJSON, Codec.marshalArray, ha]⟩
  | object m =>
    have hm := hj.object m
    rw [Codec.marshalObject] at hm
    exact ⟨_, rfl, by simp [unmarshalJSON, Codec.marshalObject, hm]⟩

end ParamValue

/-- Whatever text a value is read from, it is read again from what is written of it; and so is
every value that holds its own field only. -/
theorem paramValue_json_stable {j : Codec M} (hj : j.RoundTrips) : (∀ value, ∃ text,
      ParamValue.marshalJSON j (ParamValue.unmarshalJSON j {} value) = .ok text ∧
      ParamValue.unmarshalJSON j {} text = ParamValue.unmarshalJSON j {} value) ∧
    ∀ v : ParamValue M, v.IsPure → ∃ text, ParamValue.marshalJSON j v = .ok text ∧
      ParamValue.unmarshalJSON j {} text = v :=
  ⟨fun value => (ParamValue.isPure_unmarshalJSON j value).unmarshal_marshal hj,
    fun _ hv => hv.unmarshal_marshal hj⟩

/-! A codec that writes a backslash in front of every character of a string. -/

def escaped (s : String) : List Char := s.toList.flatMap fun c => ['\\', c]

def commaEnded (l : List String) : List Char := l.flatMap fun s => escaped s ++ [',']

def readCommaEnded : List Char → List Char → Option (List String)
  | [], _ => some []
  | '\\' :: c :: rest, read => readCommaEnded rest (read ++ [c])
  | ',' :: rest, read => (readCommaEnded rest []).map (String.ofList read :: ·)
  | _, _ => none

theorem readCommaEnded_escaped (cs rest read : List Char) :
    readCommaEnded ((cs.flatMap fun c => ['\\', c]) ++ ',' :: rest) read =
      (readCommaEnded rest []).map (String.ofList (read ++ cs) :: ·) := by
  induction cs generalizing read with
  | nil => simp [readCommaEnded]
  | cons c cs ih => simp [readCommaEnded, ih]

theorem readCommaEnded_commaEnded (l : List String) :
    readCommaEnded (commaEnded l) [] = some l := by
  induction l with
  | nil => rfl
  | cons s l ih =>
    have hs := readCommaEnded_escaped s.toList (commaEnded l) []
    rw [ih] at hs
    simpa [commaEnded, escaped] using hs

def escapedCodec : Codec (String × String) where
  quoted s := commaEnded [s]
  elements l := commaEnded l
  members m := commaEnded [m.1, m.2]
  unmarshalString value _ :=
    match readCommaEnded value.tail [] with
    | some [s] => if value.head? = some '"' then some s else none
    | _ => none
  unmarshalArray value := readCommaEnded value.tail []
  unmarshalObject value :=
    match readCommaEnded value.tail [] with
    | some [k, v] => some (k, v)
    | _ => none

theorem escapedCodec_roundTrips : escapedCodec.RoundTrips where
  string s old := by simp [escapedCodec, Codec.marshalString, readCommaEnded_commaEnded]
  array l := by simp [escapedCodec, Codec.marshalArray, readCommaEnded_commaEnded]
  object m := by simp [escapedCodec, Codec.marshalObject, readCommaEnded_commaEnded]

/-- A list of numbers is kept as its text. -/
theorem numbers_stable : escapedCodec.RoundTrips ∧ ∃ text, ParamValue.marshalJSON escapedCodec
        (ParamValue.unmarshalJSON escapedCodec {} "[1, 2]".toList) = .ok text ∧
      ParamValue.unmarshalJSON escapedCodec {} text =
        ParamValue.unmarshalJSON escapedCodec {} "[1, 2]".toList :=
  ⟨escapedCodec_roundTrips, (paramValue_json_stable escapedCodec_roundTrips).1 "[1, 2]".toList⟩

end TektonPipeline.ParamJson
