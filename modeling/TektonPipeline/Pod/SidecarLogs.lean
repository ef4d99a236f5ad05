import Mathlib.Data.List.TakeWhile
import TektonPipeline.Termination.Message

/-! The log of the results sidecar: each result is written to a line of its own, and the lines
are read back through a buffer that is as large as a result may be. -/

namespace TektonPipeline.SidecarLogResults
open Termination List

inductive SidecarLogResultType where
  | task
  | step
  | stepArtifact
  | taskArtifact
  | other (text : String)
  deriving DecidableEq

structure SidecarLogResult where
  name : String
  value : String
  type : SidecarLogResultType
  deriving DecidableEq

def newline : UInt8 := 10

/-- `encoding/json`. The error of `unmarshal` comes with the name that was read before it. -/
structure Codec where
  marshal : SidecarLogResult → List UInt8
  unmarshal : List UInt8 → Except (String × String) SidecarLogResult

/-- What is documented of it: a result is read back from what is written of it, which has no
line end in it and ends in a closing brace. -/
structure Codec.Keeps (c : Codec) (r : SidecarLogResult) : Prop where
  unmarshal_marshal : c.unmarshal (c.marshal r) = .ok r
  oneLine : newline ∉ c.marshal r
  closed : (c.marshal r).getLast? = some 125

def SidecarLogResultType.text : SidecarLogResultType → String
  | .task => "task"
  | .step => "step"
  | .stepArtifact => "stepArtifact"
  | .taskArtifact => "taskArtifact"
  | .other text => text

def SidecarLogResultType.ofText : String → SidecarLogResultType
  | "task" => .task
  | "step" => .step
  | "stepArtifact" => .stepArtifact
  | "taskArtifact" => .taskArtifact
  | text => .other text

def SidecarLogResult.ofFields (fields : JsonText.Fields) : Option SidecarLogResult := do
  some { name := ← fields.text "name"
         value := ← fields.text "value"
         type := .ofText (← fields.text "type") }

def encodingJson : Codec where
  marshal r := Text.utf8 ("\x7b" ++ String.ofList (JsonText.writeFields
    [("name", .text r.name), ("value", .text r.value), ("type", .text r.type.text)]) ++ "\x7d")
  unmarshal line :=
    match (JsonText.decode JsonText.readObject line).bind SidecarLogResult.ofFields with
    | some r => .ok r
    | none => .error ("", "invalid character")

/-- A result that was found by the sidecar. -/
inductive Found where
  | task (resultFile value : String)
  | step (stepName resultFile value : String)
  deriving DecidableEq

def createSidecarResultName (stepName resultName : String) : String :=
  stepName ++ "." ++ resultName

def readResults : Found → SidecarLogResult
  | .task resultFile value => ⟨resultFile, value, .task⟩
  | .step stepName resultFile value =>
    ⟨createSidecarResultName stepName resultFile, value, .step⟩

def Codec.encode (c : Codec) (r : SidecarLogResult) : List UInt8 := c.marshal r ++ [newline]

def dropCR (line : List UInt8) : List UInt8 :=
  if line.getLast? = some 13 then line.dropLast else line

/-- The lines of a `bufio.Scanner`, and whether it stopped because its buffer of `max` bytes was
full before the end of a line was in it. `line` is what is in the buffer. -/
def scan (max : Nat) (line : List UInt8) : List UInt8 → List (List UInt8) × Bool
  | [] =>
    if max ≤ line.length then ([], true) else (if line = [] then [] else [dropCR line], false)
  | b :: rest =>
    if max ≤ line.length then ([], true)
    else if b = newline then
      let (lines, tooLong) := scan max [] rest
      (dropCR line :: lines, tooLong)
    else scan max (line ++ [b]) rest

inductive Err where
  | sizeExceeded
  | other (message : String)
  deriving DecidableEq

def resultTypeOf : SidecarLogResultType → Except Err Int
  | .task => .ok taskRunResultType
  | .step => .ok stepResultType
  | .stepArtifact => .ok stepArtifactsResultType
  | .taskArtifact => .ok taskRunArtifactsResultType
  | .other text => .error (.other ("invalid sidecar result type " ++ text ++
      ". Must be task or step or stepArtifact"))

/-- The error of a line that is too long wraps `ErrSizeExceeded`. -/
def parseResults (c : Codec) (maxResultLimit : Nat) (resultBytes : List UInt8) :
    Except Err RunResult :=
  match c.unmarshal resultBytes with
  | .error (name, e) => .error (.other ("invalid result \"" ++ name ++ "\": " ++ e))
  | .ok res =>
    if maxResultLimit < resultBytes.length then .error .sizeExceeded
    else (resultTypeOf res.type).map fun t =>
      { key := res.name, value := res.value, resultType := t }

inductive Outcome where
  | panic
  | returned (results : List RunResult) (err : Option Err)
  deriving DecidableEq

/-- A buffer cannot be made with a negative size. -/
def extractResultsFromLogs (c : Codec) (logs : List UInt8) (sidecarLogResults : List RunResult)
    (maxResultLimit : Int) : Outcome :=
  if maxResultLimit < 0 then .panic
  else
    let (lines, tooLong) := scan maxResultLimit.toNat [] logs
    match lines.mapM (parseResults c maxResultLimit.toNat) with
    | .error err => .returned [] (some err)
    | .ok results =>
      .returned (sidecarLogResults ++ results) (if tooLong then some .sizeExceeded else none)

def Found.runResult : Found → RunResult
  | .task resultFile value =>
    { key := resultFile, value := value, resultType := taskRunResultType }
  | .step stepName resultFile value =>
    { key := createSidecarResultName stepName resultFile, value := value
      resultType := stepResultType }

section
variable (c : Codec) {found : List Found}

def Codec.line (f : Found) : List UInt8 := c.marshal (readResults f)

def Codec.log (found : List Found) : List UInt8 := found.flatMap fun f => c.encode (readResults f)

/-- The results are read back, or the limit is said to be exceeded where a line is longer. -/
def RoundTrips (found : List Found) (maxResultLimit : Int) : Prop :=
  if ∀ f ∈ found, ((c.line f).length : Int) ≤ maxResultLimit then
    extractResultsFromLogs c (c.log found) [] maxResultLimit =
      .returned (found.map Found.runResult) none
  else ∃ results, extractResultsFromLogs c (c.log found) [] maxResultLimit =
    .returned results (some .sizeExceeded)

theorem scan_append (max : Nat) {w : List UInt8} (hw : newline ∉ w) (line rest : List UInt8) :
    scan max line (w ++ newline :: rest) = if line.length + w.length < max then
        (dropCR (line ++ w) :: (scan max [] rest).1, (scan max [] rest).2) else ([], true) := by
  induction w generalizing line with
  | nil =>
    rw [nil_append, scan, append_nil, length_nil, Nat.add_zero]
    by_cases h : max ≤ line.length
    · rw [if_pos h, if_neg (by omega)]
    · rw [if_neg h, if_pos rfl, if_pos (by omega)]
  | cons b w ih =>
    rw [mem_cons, not_or] at hw
    rw [cons_append, scan, if_neg (Ne.symm hw.1), ih hw.2, append_assoc, singleton_append]
    simp only [length_append, length_cons, length_nil]
    by_cases h : max ≤ line.length
    · rw [if_pos h, if_neg (by omega)]
    · rw [if_neg h]
      congr 2
      omega

def Codec.fits (max : Nat) (f : Found) : Bool := (c.line f).length < max

/-- The lines come back up to the first that fills the buffer. Without a buffer not even the end
of the log can be found. -/
theorem scan_log (hjson : ∀ f ∈ found, c.Keeps (readResults f)) (max : Nat) :
    scan max [] (c.log found) =
    ((found.takeWhile (c.fits max)).map c.line, max = 0 || !found.all (c.fits max)) := by
  induction found with
  | nil =>
    rw [Codec.log, flatMap_nil, scan]
    by_cases h : max = 0 <;> simp [h]
  | cons f found ih =>
    have hlog : c.log (f :: found) = c.line f ++ newline :: c.log found := by
      simp [Codec.log, Codec.encode, Codec.line]
    rw [forall_mem_cons] at hjson
    have hline : newline ∉ c.line f := hjson.1.oneLine
    have hdrop : dropCR (c.line f) = c.line f := by
      rw [dropCR, Codec.line, hjson.1.closed, if_neg (by decide)]
    rw [hlog, scan_append max hline, ih hjson.2, nil_append, hdrop, length_nil, Nat.zero_add]
    by_cases h : (c.line f).length < max
    · simp [Codec.fits, h]
    · simp [Codec.fits, h]

theorem parseResults_line {max : Nat} {f : Found} (hjson : c.Keeps (readResults f))
    (h : c.fits max f = true) : parseResults c max (c.line f) = .ok f.runResult := by
  have hlt : ¬ max < (c.marshal (readResults f)).length := by
    have hfits : (c.line f).length < max := by simpa [Codec.fits] using h
    exact Nat.not_lt.mpr (Nat.le_of_lt hfits)
  rw [parseResults, Codec.line, hjson.unmarshal_marshal]
  dsimp only
  rw [if_neg hlt]
  cases f <;> rfl

theorem extractResultsFromLogs_log (hjson : ∀ f ∈ found, c.Keeps (readResults f)) (max : Nat) :
    extractResultsFromLogs c (c.log found) [] max =
      .returned ((found.takeWhile (c.fits max)).map Found.runResult)
        (if max = 0 || !found.all (c.fits max) then some .sizeExceeded else none) := by
  have hparsed : ((found.takeWhile (c.fits max)).map c.line).mapM (parseResults c max) =
      .ok ((found.takeWhile (c.fits max)).map Found.runResult) := by
    have hall : ∀ f ∈ found.takeWhile (c.fits max), parseResults c max (c.line f) =
        .ok f.runResult := fun f hf =>
      parseResults_line c (hjson f ((List.takeWhile_prefix _).subset hf)) (mem_takeWhile_imp hf)
    generalize found.takeWhile (c.fits max) = l at hall
    induction l with
    | nil => rfl
    | cons f l ih =>
      rw [forall_mem_cons] at hall
      rw [map_cons, mapM_cons, hall.1, ih hall.2]
      rfl
  rw [extractResultsFromLogs, if_neg (by omega), Int.toNat_natCast, scan_log c hjson]
  dsimp only
  rw [hparsed]
  simp

/-- The round trip fails exactly where there is no buffer to find the end of an empty log with,
and where the longest line has as many bytes as the limit: the line end needs one more. -/
theorem roundTrips_iff (hjson : ∀ f ∈ found, c.Keeps (readResults f)) (maxResultLimit : Int) :
    RoundTrips c found maxResultLimit ↔ (0 < maxResultLimit ∨ maxResultLimit = 0 ∧ found ≠ []) ∧
        ((∀ f ∈ found, ((c.line f).length : Int) ≠ maxResultLimit) ∨
          ∃ f ∈ found, maxResultLimit < (c.line f).length) := by
  by_cases hneg : maxResultLimit < 0
  · have hpanic : extractResultsFromLogs c (c.log found) [] maxResultLimit = .panic := by
      rw [extractResultsFromLogs, if_pos hneg]
    refine iff_of_false (fun h => ?_) (fun h => by omega)
    rw [RoundTrips, hpanic] at h
    split at h <;> simp at h
  obtain ⟨n, rfl⟩ := Int.eq_ofNat_of_zero_le (Int.not_lt.mp hneg)
  rw [RoundTrips, extractResultsFromLogs_log c hjson]
  split
  · rename_i hle
    have hall : found.all (c.fits n) = true ↔ ∀ f ∈ found, ((c.line f).length : Int) ≠ n := by
      simp only [all_eq_true, Codec.fits, decide_eq_true_eq]
      exact forall₂_congr fun f hf => by
        have := hle f hf
        omega
    constructor
    · intro h
      obtain ⟨-, herr⟩ := Outcome.returned.inj h
      obtain ⟨hn, hfits⟩ : n ≠ 0 ∧ found.all (c.fits n) = true := by simpa using herr
      exact ⟨by omega, .inl (hall.mp hfits)⟩
    · rintro ⟨hpos, hne | ⟨f, hf, hlong⟩⟩
      · have hfits := hall.mpr hne
        have hn : n ≠ 0 := by
          rintro rfl
          obtain ⟨f, hf⟩ := exists_mem_of_ne_nil found (by simpa using hpos)
          have := hle f hf
          have := hne f hf
          omega
        rw [takeWhile_eq_self_iff.mpr (all_eq_true.mp hfits)]
        simp [hn, hfits]
      · have := hle f hf
        omega
  · rename_i hlong
    obtain ⟨f, hf, hlong⟩ : ∃ f ∈ found, (n : Int) < (c.line f).length := by simpa using hlong
    have hfits : found.all (c.fits n) = false := by
      rw [all_eq_false]
      refine ⟨f, hf, ?_⟩
      simp only [Codec.fits, decide_eq_true_eq]
      omega
    have hne := ne_nil_of_mem hf
    refine iff_of_true ⟨(found.takeWhile (c.fits n)).map Found.runResult, by simp [hfits]⟩
      ⟨?_, .inr ⟨f, hf, hlong⟩⟩
    simp only [hne, ne_eq, not_false_eq_true, and_true]
    omega

end

def digest : Found := .task "digest" "sha256:1"

theorem digest_keeps : ∀ f ∈ [digest], encodingJson.Keeps (readResults f) := by
  intro f hf
  obtain rfl := mem_singleton.mp hf
  exact ⟨by decide +kernel, by decide +kernel, by decide +kernel⟩

example : encodingJson.log [digest] =
    Text.utf8 "\x7b\"name\":\"digest\",\"value\":\"sha256:1\",\"type\":\"task\"\x7d\n" := by
  decide +kernel

theorem length_digest : (encodingJson.line digest).length = 50 := by decide +kernel

theorem digest_roundTrips : (∀ f ∈ [digest], encodingJson.Keeps (readResults f)) ∧
    RoundTrips encodingJson [digest] 51 := by
  refine ⟨digest_keeps, (roundTrips_iff encodingJson digest_keeps 51).mpr ⟨by decide, .inl ?_⟩⟩
  rw [forall_mem_singleton, length_digest]
  decide

/-- The line is too long for a limit of 50, and an empty log for a limit of none. -/
theorem digest_exceeds_limit :
    extractResultsFromLogs encodingJson (encodingJson.log [digest]) [] 50 =
        .returned [] (some .sizeExceeded) ∧
      ¬ RoundTrips encodingJson [digest] 50 ∧ ¬ RoundTrips encodingJson [] 0 := by
  have hread : extractResultsFromLogs encodingJson (encodingJson.log [digest]) [] 50 =
      .returned [] (some .sizeExceeded) := by decide +kernel
  have hempty : extractResultsFromLogs encodingJson (encodingJson.log []) [] 0 =
      .returned [] (some .sizeExceeded) := by decide +kernel
  refine ⟨hread, fun h => ?_, fun h => ?_⟩
  · rw [RoundTrips, if_pos (by simp [length_digest]), hread] at h
    cases h
  · rw [RoundTrips, if_pos (by simp), hempty] at h
    cases h

end TektonPipeline.SidecarLogResults
