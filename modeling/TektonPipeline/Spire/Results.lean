import TektonPipeline.Termination.Message
import Mathlib.Data.String.Basic

/-! The results of a TaskRun, as the entrypoint signs them and the controller verifies
them. -/

namespace TektonPipeline.Spire
open List Assoc
open Termination (RunResult taskRunResultType)

def taskResult (key value : String) : RunResult where
  key := key
  value := value
  resultType := taskRunResultType

/-- An object in the order of its keys. -/
structure Entries where
  list : List (String × String)
  sorted : (list.map (·.1)).Pairwise (· < ·)
  deriving DecidableEq

inductive TypedValue where
  | string (value : String)
  | array (values : List String)
  | object (entries : Entries)
  deriving DecidableEq

def TypedValue.text : TypedValue → String
  | .string value => value
  | .array values => String.intercalate "," values
  | .object entries => String.intercalate "," (entries.list.flatMap fun e => [e.1, e.2])

def keySVID : String := "SVID"

def keySignatureSuffix : String := ".sig"

def keyResultManifest : String := "RESULT_MANIFEST"

def isSignature (key : String) : Bool := keySignatureSuffix.toList.isSuffixOf key.toList

structure Uri where
  host : String
  path : String
  deriving DecidableEq

structure Cert where
  publicKey : String
  uris : List Uri
  deriving DecidableEq

structure TaskRunName where
  inNamespace : String
  name : String
  deriving DecidableEq

/-- What the controller is given: how the JSON of a value is read (it is never an error), how
an SVID is parsed, which certificates the fetched bundle trusts, and the check of a signature,
with its error. -/
structure Controller where
  unmarshal : String → TypedValue
  setup : Option String := none
  parseSVID : String → Except String Cert
  trustBundle : Except String (Cert → Bool)
  verifySignature : (publicKey signature value : String) → Option String
  trustDomain : String

section
variable (sc : Controller)

def Controller.getResultValue (r : RunResult) : String := (sc.unmarshal r.value).text

/-- The results by their keys; of several with one key the last comes first. -/
def resultMap (prs : List RunResult) : List (String × RunResult) :=
  ((prs.filter fun r => decide (r.resultType = taskRunResultType)).map fun r => (r.key, r)).reverse

def Controller.getSVID (results : List (String × RunResult)) : Except String Cert :=
  match results.lookup keySVID with
  | none => .error "no SVID found"
  | some svid => sc.parseSVID (sc.getResultValue svid)

def Controller.verifyManifest (results : List (String × RunResult)) : Option String :=
  match results.lookup keyResultManifest with
  | none => some "no manifest found in results"
  | some manifest =>
    let manifestValue := sc.getResultValue manifest
    ((List.splitOn ',' manifestValue.toList).map String.ofList).findSome? fun key =>
      if key ≠ "" ∧ results.lookup key = none then
        some ("no result found for " ++ key ++ " but is part of the manifest " ++ manifestValue)
      else none

def getFullPath (tr : TaskRunName) : String :=
  "/ns/" ++ tr.inNamespace ++ "/taskrun/" ++ tr.name

def verifyCertURI (cert : Cert) (tr : TaskRunName) (trustDomain : String) : Option String :=
  match cert.uris with
  | [] => some ("cert uri missing for taskrun: " ++ tr.name)
  | [uri] =>
    if uri.host ≠ trustDomain then
      some ("cert uri: " ++ uri.host ++ " does not match trust domain: " ++ trustDomain)
    else if uri.path ≠ getFullPath tr then
      some ("cert uri: " ++ uri.path ++ " does not match taskrun: " ++ getFullPath tr)
    else none
  | _ => some ("cert contains more than one URI for taskrun: " ++ tr.name)

def verifyCertificateTrust (cert : Cert) (trusted : Cert → Bool) : Option String :=
  if trusted cert then none else some "cert cannot be verified by provided roots"

def Controller.verifyResult (publicKey key : String) (results : List (String × RunResult)) :
    Option String :=
  match results.lookup (key ++ keySignatureSuffix), results.lookup key with
  | none, _ => some ("no signature found for " ++ key)
  | some signature, some r =>
    sc.verifySignature publicKey (sc.getResultValue signature) (sc.getResultValue r)
  | some signature, none =>
    sc.verifySignature publicKey (sc.getResultValue signature) (sc.unmarshal "").text

/-- The keys come in the order of a map; signatures and the SVID are passed over. -/
def Controller.verifyResults (publicKey : String) (results : List (String × RunResult)) :
    Option String :=
  (results.map (·.1)).findSome? fun key =>
    if isSignature key then none
    else if key = keySVID then none
    else sc.verifyResult publicKey key results

/-- `VerifyTaskRunResults`; `none` is no error. -/
def Controller.verifyTaskRunResults (prs : List RunResult) (tr : TaskRunName) : Option String :=
  match sc.setup with
  | some e => some e
  | none =>
    let results := resultMap prs
    match sc.getSVID results with
    | .error e => some e
    | .ok cert =>
      match sc.trustBundle with
      | .error e => some e
      | .ok trusted =>
        (sc.verifyManifest results).or <| (verifyCertURI cert tr sc.trustDomain).or <|
          (verifyCertificateTrust cert trusted).or <| sc.verifyResults cert.publicKey results

end

def getManifest (results : List RunResult) : String :=
  String.intercalate "," <| (results.filter fun r =>
    !(isSignature r.key || r.key == keySVID ||
      decide (r.resultType ≠ taskRunResultType))).map (·.key)

/-- What the entrypoint is given: the certificates of its SVID and the signature of a text by
the key of the SVID. -/
structure Workload where
  unmarshal : String → TypedValue
  setup : Option String := none
  certificates : Except String (List String)
  signWithKey : String → Except String String

def Workload.signValues (w : Workload) : List RunResult → Except String (List RunResult)
  | [] => .ok []
  | r :: rs =>
    if r.resultType = taskRunResultType then do
      let s ← w.signWithKey (w.unmarshal r.value).text
      let signed ← w.signValues rs
      return taskResult (r.key ++ keySignatureSuffix) s :: signed
    else w.signValues rs

def Workload.sign (w : Workload) (results : List RunResult) : Except String (List RunResult) :=
  match w.setup with
  | some e => .error e
  | none => do
    match ← w.certificates with
    | [] => .error "returned workload svid does not have certificates"
    | cert :: _ =>
      let signed ← w.signValues results
      let manifestSig ← w.signWithKey (getManifest results)
      return taskResult keySVID cert :: signed ++
        [taskResult keyResultManifest (getManifest results),
          taskResult (keyResultManifest ++ keySignatureSuffix) manifestSig]

/-- The texts that one call of `sign` signs. -/
def signedTexts (unmarshal : String → TypedValue) (results : List RunResult) : List String :=
  ((results.filter fun r => decide (r.resultType = taskRunResultType)).map fun r =>
    (unmarshal r.value).text) ++ [getManifest results]

section
variable {w : Workload} {results signed : List RunResult}

theorem isSignature_append (key : String) : isSignature (key ++ keySignatureSuffix) = true := by
  rw [isSignature, isSuffixOf_iff_suffix, String.toList_append]
  exact suffix_append _ _

theorem exists_ok_of_bind {α β : Type} {m : Except String α} {k : α → Except String β} {b : β}
    (h : (m >>= k) = .ok b) : ∃ a, m = .ok a ∧ k a = .ok b := by
  cases m with
  | error e => cases h
  | ok a => exact ⟨a, rfl, h⟩

theorem Workload.signValues_signs (h : w.signValues results = .ok signed) :
    (∀ r ∈ signed, isSignature r.key = true) ∧
      ((results.filter fun r => decide (r.resultType = taskRunResultType)).map fun r =>
        (w.unmarshal r.value).text).mapM w.signWithKey = .ok (signed.map (·.value)) := by
  induction results generalizing signed with
  | nil =>
    obtain rfl := Except.ok.inj h
    exact ⟨by simp, rfl⟩
  | cons r rs ih =>
    rw [signValues] at h
    by_cases htype : r.resultType = taskRunResultType
    · rw [if_pos htype] at h
      obtain ⟨s, hs, h⟩ := exists_ok_of_bind h
      obtain ⟨signed', hrs, h⟩ := exists_ok_of_bind h
      obtain rfl := Except.ok.inj h
      obtain ⟨hkeys, htexts⟩ := ih hrs
      refine ⟨forall_mem_cons.mpr ⟨isSignature_append _, hkeys⟩, ?_⟩
      rw [filter_cons_of_pos (by simpa using htype), map_cons, mapM_cons, hs, htexts]
      rfl
    · rw [if_neg htype] at h
      rw [filter_cons_of_neg (by simpa using htype)]
      exact ih h

/-- `sign` signs the texts of the results and the manifest, and nothing else. -/
theorem Workload.sign_signs (h : w.sign results = .ok signed) :
    (signedTexts w.unmarshal results).mapM w.signWithKey =
      .ok ((signed.filter fun r => isSignature r.key).map (·.value)) := by
  unfold Workload.sign at h
  split at h
  · cases h
  obtain ⟨certs, -, h⟩ := exists_ok_of_bind h
  cases certs with
  | nil => cases h
  | cons cert certs =>
    obtain ⟨values, hvalues, h⟩ := exists_ok_of_bind h
    obtain ⟨s, hs, h⟩ := exists_ok_of_bind h
    obtain rfl := Except.ok.inj h
    obtain ⟨hkeys, htexts⟩ := w.signValues_signs hvalues
    have hplain : isSignature keySVID = false ∧ isSignature keyResultManifest = false := by decide
    have hlast : isSignature (keyResultManifest ++ keySignatureSuffix) = true :=
      isSignature_append _
    have hvalues : values.filter (fun r => isSignature r.key) = values :=
      filter_eq_self.mpr hkeys
    simp only [cons_append, filter_cons, taskResult, hplain, filter_append, hvalues, hlast,
      filter_nil, Bool.false_eq_true, if_false, if_true, signedTexts, mapM_append, htexts,
      mapM_cons, hs, map_append]
    rfl

end

/-! ## What an accepted list of results says -/

def isResult (key : String) : Bool :=
  !(isSignature key || key == keySVID || key == keyResultManifest)

def valueOf (unmarshal : String → TypedValue) (prs : List RunResult) (key : String) :
    Option TypedValue :=
  if isResult key then ((resultMap prs).lookup key).map fun r => unmarshal r.value else none

/-- No key that a certificate for the TaskRun holds has signed anything but these texts. -/
def Unforgeable (sc : Controller) (tr : TaskRunName) (texts : List String) : Prop :=
  ∀ cert trusted, sc.trustBundle = .ok trusted → trusted cert = true →
    verifyCertURI cert tr sc.trustDomain = none →
    ∀ signature value, sc.verifySignature cert.publicKey signature value = none → value ∈ texts

section
variable {sc : Controller} {prs : List RunResult} {tr : TaskRunName} {texts : List String}

structure Accepted (sc : Controller) (prs : List RunResult) (texts : List String) : Prop where
  manifest : sc.verifyManifest (resultMap prs) = none
  signed : ∀ key r, isSignature key = false → key ≠ keySVID →
    (resultMap prs).lookup key = some r → sc.getResultValue r ∈ texts

theorem accepted_of_verify (h : sc.verifyTaskRunResults prs tr = none)
    (hunforgeable : Unforgeable sc tr texts) : Accepted sc prs texts := by
  unfold Controller.verifyTaskRunResults at h
  cases hsetup : sc.setup with
  | some e => simp [hsetup] at h
  | none =>
    cases hcert : sc.getSVID (resultMap prs) with
    | error e => simp [hsetup, hcert] at h
    | ok cert =>
      cases htrust : sc.trustBundle with
      | error e => simp [hsetup, hcert, htrust] at h
      | ok trusted =>
        simp only [hsetup, hcert, htrust, Option.or_eq_none_iff] at h
        obtain ⟨hmanifest, huri, htrusted, hresults⟩ := h
        refine ⟨hmanifest, fun key r hsig hsvid hlook => ?_⟩
        have hkey : key ∈ (resultMap prs).map (·.1) :=
          mem_map.mpr ⟨(key, r), mem_of_lookup hlook, rfl⟩
        have hone := findSome?_eq_none_iff.mp hresults key hkey
        rw [if_neg (by simp [hsig]), if_neg hsvid, Controller.verifyResult, hlook] at hone
        cases hsignature : (resultMap prs).lookup (key ++ keySignatureSuffix) with
        | none => simp [hsignature] at hone
        | some signature =>
          rw [hsignature] at hone
          have htrue : trusted cert = true := by
            by_contra hnot
            simp [verifyCertificateTrust, hnot] at htrusted
          exact hunforgeable cert trusted htrust htrue huri _ _ hone

theorem Accepted.listed (h : Accepted sc prs texts) {manifest : RunResult}
    (hmanifest : (resultMap prs).lookup keyResultManifest = some manifest) {key : String}
    (hkey : key.toList ∈ List.splitOn ',' (sc.getResultValue manifest).toList) (hne : key ≠ "") :
    ((resultMap prs).lookup key).isSome = true := by
  have hnone := h.manifest
  simp only [Controller.verifyManifest, hmanifest, findSome?_eq_none_iff] at hnone
  have hone := hnone key (mem_map.mpr ⟨key.toList, hkey, String.ofList_toList⟩)
  cases hlook : (resultMap prs).lookup key with
  | some r => rfl
  | none => simp [hne, hlook] at hone

end

/-- The names of the results of a task hold no comma. -/
def Named (results : List RunResult) : Prop :=
  ∀ r ∈ results, r.resultType = taskRunResultType → r.key ≠ "" ∧ ',' ∉ r.key.toList

theorem mem_splitOn_getManifest {results : List RunResult} (hnamed : Named results)
    {r : RunResult} (hr : r ∈ results) (htype : r.resultType = taskRunResultType)
    (hkey : isSignature r.key = false ∧ r.key ≠ keySVID) :
    r.key.toList ∈ List.splitOn ',' (getManifest results).toList := by
  let listed := results.filter fun r =>
    !(isSignature r.key || r.key == keySVID || decide (r.resultType ≠ taskRunResultType))
  have hmem : r ∈ listed := mem_filter.mpr ⟨hr, by simp [hkey.1, hkey.2, htype]⟩
  have hcomma : ∀ l ∈ (listed.map (·.key)).map String.toList, ',' ∉ l := by
    intro l hl
    simp only [map_map, mem_map, Function.comp_apply] at hl
    obtain ⟨r', hr', rfl⟩ := hl
    obtain ⟨hin, htest⟩ := mem_filter.mp hr'
    simp only [Bool.not_eq_true', Bool.or_eq_false_iff, decide_eq_false_iff_not, not_not] at htest
    exact (hnamed r' hin htest.2).2
  have hne : (listed.map (·.key)).map String.toList ≠ [] := by
    intro hnil
    rw [map_eq_nil_iff, map_eq_nil_iff] at hnil
    rw [hnil] at hmem
    cases hmem
  have htext : (getManifest results).toList =
      [','].intercalate ((listed.map (·.key)).map String.toList) := String.toList_intercalate
  rw [htext, splitOn_intercalate ',' hcomma hne]
  exact mem_map.mpr ⟨r.key, mem_map.mpr ⟨r, hmem, rfl⟩, rfl⟩

theorem exists_of_valueOf {unmarshal : String → TypedValue} {prs : List RunResult}
    {key : String} {v : TypedValue} (h : valueOf unmarshal prs key = some v) :
    isResult key = true ∧ ∃ r ∈ prs, r.key = key ∧ r.resultType = taskRunResultType ∧
      (resultMap prs).lookup key = some r ∧ unmarshal r.value = v := by
  unfold valueOf at h
  by_cases hkey : isResult key = true
  · rw [if_pos hkey] at h
    obtain ⟨r, hlook, rfl⟩ := Option.map_eq_some_iff.mp h
    have hmem := mem_of_lookup hlook
    rw [resultMap, mem_reverse, mem_map] at hmem
    obtain ⟨r', hr', heq⟩ := hmem
    obtain ⟨rfl, rfl⟩ := Prod.mk.inj heq
    obtain ⟨hin, htype⟩ := mem_filter.mp hr'
    exact ⟨hkey, r', hin, rfl, by simpa using htype, hlook, rfl⟩
  · simp [hkey] at h

theorem isResult_iff {key : String} : isResult key = true ↔
      isSignature key = false ∧ key ≠ keySVID ∧ key ≠ keyResultManifest := by
  simp [isResult, and_assoc]

/-- Nothing was done to the results that the signatures do not show: the manifest is the one
that was signed or nothing is missing, no name was added, no result has the text that was
signed for another result or for the manifest, and none has its own text in another type or
cut in another way. -/
structure Unaltered (unmarshal : String → TypedValue) (results prs : List RunResult) : Prop where
  complete : (∃ manifest, (resultMap prs).lookup keyResultManifest = some manifest ∧
      (unmarshal manifest.value).text = getManifest results) ∨
    ∀ key v, valueOf unmarshal results key = some v → (valueOf unmarshal prs key).isSome = true
  noneAdded : ∀ key v, valueOf unmarshal prs key = some v →
    (valueOf unmarshal results key).isSome = true
  noneMoved : ∀ key v v', valueOf unmarshal results key = some v →
    valueOf unmarshal prs key = some v' →
    ¬ (v'.text ∈ signedTexts unmarshal results ∧ v'.text ≠ v.text)
  noneReshaped : ∀ key v v', valueOf unmarshal results key = some v →
    valueOf unmarshal prs key = some v' → v'.text = v.text → v' = v

theorem Accepted.isSome_valueOf {sc : Controller} {results prs : List RunResult}
    {texts : List String} (h : Accepted sc prs texts) (hnamed : Named results)
    {manifest : RunResult} (hmanifest : (resultMap prs).lookup keyResultManifest = some manifest)
    (hgenuine : (sc.unmarshal manifest.value).text = getManifest results) {key : String}
    {v : TypedValue} (hv : valueOf sc.unmarshal results key = some v) :
    (valueOf sc.unmarshal prs key).isSome = true := by
  obtain ⟨hkey, r, hr, rfl, htype, -, -⟩ := exists_of_valueOf hv
  obtain ⟨hsig, hsvid, -⟩ := isResult_iff.mp hkey
  have hlisted := mem_splitOn_getManifest hnamed hr htype ⟨hsig, hsvid⟩
  rw [← hgenuine] at hlisted
  have hsome := h.listed hmanifest hlisted (hnamed r hr htype).1
  simpa [valueOf, hkey] using hsome

/-- A list of results that is accepted gives every name the value that was signed for it
exactly if the results were not altered in one of the ways that go unnoticed. -/
theorem verified_results_eq_iff {sc : Controller} {results prs : List RunResult}
    {tr : TaskRunName} (hnamed : Named results)
    (hunforgeable : Unforgeable sc tr (signedTexts sc.unmarshal results))
    (haccepted : sc.verifyTaskRunResults prs tr = none) :
    valueOf sc.unmarshal prs = valueOf sc.unmarshal results ↔
      Unaltered sc.unmarshal results prs := by
  have h := accepted_of_verify haccepted hunforgeable
  constructor
  · intro heq
    refine ⟨.inr fun key v hv => ?_, fun key v hv => ?_, fun key v v' hv hv' hmoved => ?_,
      fun key v v' hv hv' _ => ?_⟩
    · rw [heq, hv]
      rfl
    · rw [← heq, hv]
      rfl
    · rw [heq, hv] at hv'
      exact hmoved.2 (congrArg TypedValue.text (Option.some.inj hv').symm)
    · rw [heq, hv] at hv'
      exact (Option.some.inj hv').symm
  · intro hunaltered
    funext key
    cases hv : valueOf sc.unmarshal results key with
    | none =>
      cases hv' : valueOf sc.unmarshal prs key with
      | none => rfl
      | some v' =>
        have hsome := hunaltered.noneAdded key v' hv'
        simp [hv] at hsome
    | some v =>
      have hsome : (valueOf sc.unmarshal prs key).isSome = true := by
        rcases hunaltered.complete with ⟨manifest, hmanifest, hgenuine⟩ | hcomplete
        · exact h.isSome_valueOf hnamed hmanifest hgenuine hv
        · exact hcomplete key v hv
      obtain ⟨v', hv'⟩ := Option.isSome_iff_exists.mp hsome
      obtain ⟨hkey, r, -, -, -, hlook, hr⟩ := exists_of_valueOf hv'
      obtain ⟨hsig, hsvid, -⟩ := isResult_iff.mp hkey
      -- the text of the value was signed, for this result or for something else
      have hsigned := h.signed key r hsig hsvid hlook
      rw [Controller.getResultValue, hr] at hsigned
      have htext : v'.text = v.text := by
        by_contra hne
        exact hunaltered.noneMoved key v v' hv hv' ⟨hsigned, hne⟩
      rw [hv', hunaltered.noneReshaped key v v' hv hv' htext]

theorem valueOf_append {unmarshal : String → TypedValue} {results others : List RunResult}
    (h : ∀ r ∈ others, isResult r.key = false) :
    valueOf unmarshal (results ++ others) = valueOf unmarshal results := by
  funext key
  unfold valueOf
  by_cases hkey : isResult key = true
  · have hnone : (resultMap others).lookup key = none := by
      refine lookup_of_not_mem fun hmem => ?_
      simp only [resultMap, map_reverse, map_map, mem_reverse, mem_map, Function.comp_apply] at hmem
      obtain ⟨r, hr, rfl⟩ := hmem
      rw [h r (mem_filter.mp hr).1] at hkey
      cases hkey
    have happend : resultMap (results ++ others) = resultMap others ++ resultMap results := by
      simp [resultMap]
    rw [happend, List.lookup_append, hnone, Option.none_or]
  · simp [hkey]

def buildResults : List RunResult :=
  [taskResult "image" "app", taskResult "digest" "sha", taskResult "tags" "[\"a\",\"b\"]",
    taskResult "note" ""]

def readValue (s : String) : TypedValue :=
  if s = "[\"a\",\"b\"]" then .array ["a", "b"] else .string s

/-- Signatures of the texts that were signed for the build, and of no others. -/
def buildController : Controller where
  unmarshal := readValue
  parseSVID := fun _ => .ok ⟨"key", [⟨"example.org", "/ns/ci/taskrun/build"⟩]⟩
  trustBundle := .ok fun _ => true
  verifySignature := fun _ signature value =>
    if signature = "signed " ++ value ∧ value ∈ signedTexts readValue buildResults then none
    else some "invalid signature"
  trustDomain := "example.org"

def buildRun : TaskRunName := ⟨"ci", "build"⟩

theorem buildController_unforgeable :
    Unforgeable buildController buildRun (signedTexts readValue buildResults) := by
  intro cert trusted _ _ _ signature value h
  by_contra hnot
  simp [buildController, hnot] at h

def signatureOf (key text : String) : RunResult :=
  taskResult (key ++ ".sig") ("signed " ++ text)

def buildSigned : List RunResult :=
  [taskResult "SVID" "pem", signatureOf "image" "app", signatureOf "digest" "sha",
    signatureOf "tags" "a,b", signatureOf "note" "",
    taskResult "RESULT_MANIFEST" "image,digest,tags,note",
    signatureOf "RESULT_MANIFEST" "image,digest,tags,note"]

def buildWorkload : Workload where
  unmarshal := readValue
  certificates := .ok ["pem"]
  signWithKey := fun text => .ok ("signed " ++ text)

example : buildWorkload.sign buildResults = .ok buildSigned := by decide +kernel

theorem buildResults_unaltered :
    buildController.verifyTaskRunResults (buildResults ++ buildSigned) buildRun = none ∧
      Unaltered readValue buildResults (buildResults ++ buildSigned) := by
  have haccepted : buildController.verifyTaskRunResults (buildResults ++ buildSigned) buildRun =
      none := by decide +kernel
  have hnamed : Named buildResults := by
    unfold Named
    decide +kernel
  exact ⟨haccepted, (verified_results_eq_iff hnamed buildController_unforgeable haccepted).mp
    (valueOf_append (by decide +kernel))⟩

/-- Two results exchanged, a result added, an array made a string, and all results dropped
under the text of the empty one as the manifest. -/
theorem buildResults_altered :
    let exchanged := [taskResult "image" "sha", taskResult "digest" "app",
      signatureOf "image" "sha", signatureOf "digest" "app"]
    let added := [taskResult "signer" "app", signatureOf "signer" "app"]
    let reshaped := [taskResult "tags" "a,b"]
    let dropped := [taskResult "SVID" "pem", taskResult "RESULT_MANIFEST" "",
      signatureOf "RESULT_MANIFEST" ""]
    (∀ prs ∈ [buildResults ++ buildSigned ++ exchanged, buildResults ++ buildSigned ++ added,
        buildResults ++ buildSigned ++ reshaped, dropped],
      buildController.verifyTaskRunResults prs buildRun = none) ∧
    valueOf readValue (buildResults ++ buildSigned ++ exchanged) "image" = some (.string "sha") ∧
    valueOf readValue (buildResults ++ buildSigned ++ added) "signer" = some (.string "app") ∧
    valueOf readValue (buildResults ++ buildSigned ++ reshaped) "tags" = some (.string "a,b") ∧
    valueOf readValue dropped "image" = none := by
  decide +kernel

end TektonPipeline.Spire
