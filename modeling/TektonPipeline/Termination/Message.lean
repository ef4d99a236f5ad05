import TektonPipeline.Library.Assoc
import TektonPipeline.Library.Json
import Mathlib.Data.List.Sort
import Mathlib.Data.String.Basic

/-! The termination message of a step: lists of results written one after the other, and what
is read of them. -/

namespace TektonPipeline.Termination
open List Assoc

structure RunResult where
  key : String := ""
  value : String := ""
  resourceName : String := ""
  resultType : Int := 0
  deriving DecidableEq

def taskRunResultType : Int := 1

def internalTektonResultType : Int := 3

def stepResultType : Int := 4

def stepArtifactsResultType : Int := 5

def taskRunArtifactsResultType : Int := 6

def unknownResultType : Int := 10

/-- The encoding of results: what stands between the braces of one, and what is written for an
empty slice, `null` or `[]`. -/
structure Json where
  fields : RunResult → List UInt8
  emptySlice : List UInt8
  emptySlice_length : emptySlice.length ≤ 4
  unmarshal : List UInt8 → Except String (List RunResult)

/-- The results after the first, each behind a comma. -/
def Json.elements (j : Json) (l : List RunResult) : List UInt8 :=
  l.flatMap fun rr => 0x2c :: 0x7b :: j.fields rr ++ [0x7d]

def Json.marshal (j : Json) : List RunResult → List UInt8
  | [] => j.emptySlice
  | rr :: rest => 0x5b :: 0x7b :: j.fields rr ++ [0x7d] ++ j.elements rest ++ [0x5d]

theorem Json.length_marshal_append (j : Json) (l l' : List RunResult) :
    (j.marshal l).length ≤ (j.marshal (l ++ l')).length := by
  cases l with
  | nil =>
    have hempty := j.emptySlice_length
    cases l' with
    | nil => exact le_refl _
    | cons rr rest =>
      simp only [marshal, nil_append, length_append, length_cons, length_nil]
      omega
  | cons rr rest =>
    simp only [marshal, elements, cons_append, flatMap_append, length_append, length_cons]
    omega

/-- A number, or a name as older entrypoints have written it. -/
def unmarshalResultType : Option JsonText.Scalar → Int
  | none => 0
  | some (.number n) => n
  | some (.text "StepResult") => stepResultType
  | some (.text "TaskRunResult") => taskRunResultType
  | some (.text "InternalTektonResult") => internalTektonResultType
  | some (.text "StepArtifactsResult") => stepArtifactsResultType
  | some (.text "TaskRunArtifactsResult") => taskRunArtifactsResultType
  | some (.text _) => unknownResultType

def RunResult.toFields (rr : RunResult) : JsonText.Fields :=
  [("key", .text rr.key), ("value", .text rr.value)] ++
    (if rr.resourceName = "" then [] else [("resourceName", .text rr.resourceName)]) ++
    if rr.resultType = 0 then [] else [("type", .number rr.resultType)]

def RunResult.ofFields (fields : JsonText.Fields) : Option RunResult := do
  some { key := ← fields.text "key"
         value := ← fields.text "value"
         resourceName := ← fields.text "resourceName"
         resultType := unmarshalResultType (fields.reverse.lookup "type") }

/-- `encoding/json`, for flat objects of strings and whole numbers. -/
def encodingJson : Json where
  fields rr := Text.utf8 (String.ofList (JsonText.writeFields rr.toFields))
  emptySlice := Text.utf8 "null"
  emptySlice_length := by decide
  unmarshal msg :=
    match (JsonText.decode JsonText.readObjects msg).bind (·.mapM RunResult.ofFields) with
    | some l => .ok l
    | none => .error "invalid character"

theorem Json.eq_nil_of_marshal (j : Json) {l : List RunResult} (h : j.marshal l = []) : l = [] := by
  cases l with
  | nil => rfl
  | cons rr rest => simp [marshal] at h

def maxContainerTerminationMessageLength : Nat := 1024 * 4

inductive WriteError where
  | tooLong
  deriving DecidableEq

def WriteError.message : WriteError → String
  | .tooLong => "Termination message is above max allowed size 4096, caused by large task result."

/-- `none` is no file. The file is not truncated when it is written. -/
def writeMessage (j : Json) (file : Option (List UInt8)) (pro : List RunResult) :
    Except WriteError (Option (List UInt8)) :=
  let fileContents := file.getD []
  let pro :=
    match file with
    | none => pro
    | some fileContents =>
      match j.unmarshal fileContents with
      | .ok existingEntries => existingEntries ++ pro
      | .error _ => pro
  let jsonOutput := j.marshal pro
  if maxContainerTerminationMessageLength < jsonOutput.length then .error .tooLong
  else .ok (some (jsonOutput ++ fileContents.drop jsonOutput.length))

def writeMessages (j : Json) : List (List RunResult) → Option (List UInt8) →
    Except WriteError (Option (List UInt8))
  | [], file => .ok file
  | pro :: rest, file =>
    match writeMessage j file pro with
    | .error e => .error e
    | .ok file => writeMessages j rest file

structure ParseError where
  reason : String
  msg : List UInt8
  deriving DecidableEq

/-- Of several results with one key the last. -/
def latest (r : List RunResult) : List (String × RunResult) :=
  Assoc.ofWrites (r.map fun rr => (rr.key, rr))

/-- The map's values in the order of their keys. -/
def sortedLatest (r : List RunResult) : List RunResult :=
  ((latest r).map (·.2)).insertionSort fun a b => a.key ≤ b.key

def parseMessage (j : Json) (msg : List UInt8) : Except ParseError (List RunResult) :=
  if msg = [] then .ok []
  else
    match j.unmarshal msg with
    | .error e => .error ⟨"parsing message json: " ++ e, msg⟩
    | .ok r =>
      .ok (sortedLatest (r.filter fun rr => rr != {}))

/-- The result is the last one with its key. -/
def IsLast (r : List RunResult) (e : RunResult) : Prop :=
  ∃ l₁ l₂, r = l₁ ++ e :: l₂ ∧ ∀ e' ∈ l₂, e'.key ≠ e.key

section
variable {r : List RunResult}

theorem lookup_latest (r : List RunResult) (k : String) :
    (latest r).lookup k = r.reverse.find? fun rr => rr.key == k :=
  (lookup_ofWrites_key _ _ r k).trans Option.map_id'

theorem lookup_latest_eq_some {k : String} {e : RunResult} :
    (latest r).lookup k = some e ↔ e.key = k ∧ IsLast r e := by
  rw [lookup_latest, find?_eq_some_iff_append]
  constructor
  · rintro ⟨hkey, before, after, hr, hbefore⟩
    have hk : e.key = k := by simpa using hkey
    subst hk
    refine ⟨rfl, after.reverse, before.reverse, ?_, fun e' he' => ?_⟩
    · have hrev := congrArg List.reverse hr
      simpa using hrev
    · simpa using hbefore e' (mem_reverse.mp he')
  · rintro ⟨rfl, l₁, l₂, rfl, hlast⟩
    refine ⟨by simp, l₂.reverse, l₁.reverse, by simp, fun e' he' => ?_⟩
    simpa using hlast e' (mem_reverse.mp he')

theorem nodup_latest (r : List RunResult) : ((latest r).map (·.1)).Nodup :=
  nodup_ofWrites _

theorem key_of_mem_latest {k : String} {e : RunResult} (h : (k, e) ∈ latest r) : e.key = k :=
  (lookup_latest_eq_some.mp (lookup_of_mem (nodup_latest r) h)).1

theorem mem_latest {e : RunResult} : e ∈ (latest r).map (·.2) ↔ IsLast r e := by
  constructor
  · intro h
    obtain ⟨⟨k, e'⟩, hmem, rfl⟩ := mem_map.mp h
    exact (lookup_latest_eq_some.mp (lookup_of_mem (nodup_latest r) hmem)).2
  · intro h
    exact mem_map.mpr ⟨(e.key, e), mem_of_lookup (lookup_latest_eq_some.mpr ⟨rfl, h⟩), rfl⟩

theorem nodup_keys_latest (r : List RunResult) : (((latest r).map (·.2)).map (·.key)).Nodup := by
  have hkeys : ((latest r).map (·.2)).map (·.key) = (latest r).map (·.1) := by
    rw [map_map]
    exact map_congr_left fun e he => key_of_mem_latest he
  rw [hkeys]
  exact nodup_latest r

theorem mem_sortedLatest {e : RunResult} : e ∈ sortedLatest r ↔ IsLast r e := by
  rw [sortedLatest, (perm_insertionSort _ _).mem_iff, mem_latest]

theorem sorted_sortedLatest (r : List RunResult) :
    ((sortedLatest r).map (·.key)).Pairwise (· < ·) := by
  have hsorted : (sortedLatest r).Pairwise fun a b => a.key ≤ b.key :=
    pairwise_insertionSort _ _
  have hnodup : ((sortedLatest r).map (·.key)).Nodup :=
    ((perm_insertionSort _ _).map _).nodup_iff.mpr (nodup_keys_latest r)
  rw [pairwise_map]
  exact (hsorted.and (pairwise_map.mp hnodup)).imp fun h => lt_of_le_of_ne h.1 h.2

end

section
variable {j : Json} {lists : List (List RunResult)}

/-- What has been written so far can be read again. -/
def RoundTrips (j : Json) (lists : List (List RunResult)) : Prop :=
  ∀ k, j.unmarshal (j.marshal (lists.take k).flatten) = .ok (lists.take k).flatten

theorem writeMessage_written {l pro : List RunResult} (hread : j.unmarshal (j.marshal l) = .ok l) :
    writeMessage j (some (j.marshal l)) pro =
      if maxContainerTerminationMessageLength < (j.marshal (l ++ pro)).length then .error .tooLong
      else .ok (some (j.marshal (l ++ pro))) := by
  simp [writeMessage, hread, drop_of_length_le (j.length_marshal_append l pro)]

theorem writeMessages_written {l : List RunResult} {file : Option (List UInt8)}
    (hread : ∀ k, j.unmarshal (j.marshal (l ++ (lists.take k).flatten)) =
      .ok (l ++ (lists.take k).flatten))
    (h : writeMessages j lists (some (j.marshal l)) = .ok file) :
    file = some (j.marshal (l ++ lists.flatten)) := by
  induction lists generalizing l with
  | nil => simpa [writeMessages] using h.symm
  | cons pro rest ih =>
    have hnow := hread 0
    rw [take_zero, flatten_nil, append_nil] at hnow
    rw [writeMessages, writeMessage_written hnow] at h
    split at h
    · cases h
    · rename_i written hwritten
      split at hwritten
      · cases hwritten
      · obtain rfl := Except.ok.inj hwritten
        rw [ih (fun k => by simpa using hread (k + 1)) h]
        simp

theorem writeMessages_file (hjson : RoundTrips j lists) {file : Option (List UInt8)}
    (h : writeMessages j lists none = .ok file) :
    file = if lists = [] then none else some (j.marshal lists.flatten) := by
  cases lists with
  | nil => exact (Except.ok.inj h).symm
  | cons pro rest =>
    rw [writeMessages, writeMessage] at h
    split at h
    · cases h
    · rename_i written hwritten
      split at hwritten
      · cases hwritten
      · obtain rfl := Except.ok.inj hwritten
        rw [Option.getD_none, drop_nil, append_nil] at h
        exact writeMessages_written (fun k => by simpa using hjson (k + 1)) h

end

/-- What is read of a message are the last results of each key, in the order of the keys.
Results of one key replace each other whatever their types are. -/
theorem parseMessage_of_written (j : Json) (lists : List (List RunResult))
    (hjson : RoundTrips j lists) {file : Option (List UInt8)}
    (hwritten : writeMessages j lists none = .ok file) :
    ∃ results, parseMessage j (file.getD []) = .ok results ∧
      (results.map (·.key)).Pairwise (· < ·) ∧
      ∀ e, e ∈ results ↔ IsLast (lists.flatten.filter fun rr => rr != {}) e := by
  have hfile := writeMessages_file hjson hwritten
  have hread : parseMessage j (file.getD []) =
      .ok (sortedLatest (lists.flatten.filter fun rr => rr != {})) := by
    by_cases hnone : lists = []
    · subst hnone
      rw [if_pos rfl] at hfile
      subst hfile
      rfl
    · rw [if_neg hnone] at hfile
      subst hfile
      have hall := hjson lists.length
      rw [take_length] at hall
      by_cases hnil : j.marshal lists.flatten = []
      · rw [Option.getD_some, hnil, j.eq_nil_of_marshal hnil]
        rfl
      · simp [parseMessage, hnil, hall, sortedLatest]
  exact ⟨_, hread, sorted_sortedLatest _, fun e => mem_sortedLatest⟩

def taskDigest : RunResult := ⟨"digest", "sha256:task", "", taskRunResultType⟩

def stepDigest : RunResult := ⟨"digest", "sha256:step", "", stepResultType⟩

theorem digests_roundTrip : RoundTrips encodingJson [[taskDigest], [stepDigest]] := by
  intro k
  match k with
  | 0 => decide +kernel
  | 1 => decide +kernel
  | k + 2 =>
    have htake : [[taskDigest], [stepDigest]].take (k + 2) = [[taskDigest], [stepDigest]] :=
      take_of_length_le (by simp)
    rw [htake]
    decide +kernel

def digestMessage : List UInt8 := encodingJson.marshal [taskDigest, stepDigest]

theorem writeMessages_digests :
    writeMessages encodingJson [[taskDigest], [stepDigest]] none = .ok (some digestMessage) := by
  decide +kernel

theorem parseMessage_digests : ∃ results, parseMessage encodingJson digestMessage = .ok results ∧
      (results.map (·.key)).Pairwise (· < ·) ∧ ∀ e, e ∈ results ↔
        IsLast ([[taskDigest], [stepDigest]].flatten.filter fun rr => rr != {}) e :=
  parseMessage_of_written encodingJson [[taskDigest], [stepDigest]] digests_roundTrip
    writeMessages_digests

/-- Both results are written, and only the second one is read. -/
theorem taskDigest_lost : RoundTrips encodingJson [[taskDigest], [stepDigest]] ∧
      writeMessages encodingJson [[taskDigest], [stepDigest]] none = .ok (some digestMessage) ∧
      parseMessage encodingJson digestMessage = .ok [stepDigest] :=
  ⟨digests_roundTrip, writeMessages_digests, by decide +kernel⟩

end TektonPipeline.Termination
