import TektonPipeline.Spire.Results

/-! The status of a TaskRun, as the controller signs it between reconciles and verifies it
afterwards. -/

namespace TektonPipeline.Spire

def taskRunStatusHashKey : String := "tekton.dev/status-hash"

def taskRunStatusHashSigKey : String := "tekton.dev/status-hash-sig"

def controllerSvidKey : String := "tekton.dev/controller-svid"

def verifiedAnnotation : String := "tekton.dev/spire-verified"

structure TaskRunStatus (F : Type) where
  annotations : List (String × String) := []
  taskRunStatusFields : F

section
variable {F : Type} (sc : Controller)

/-- `hashTaskrunStatusInternal`: a SHA256 of the JSON of the fields, which may not be there. -/
abbrev StatusHash (F : Type) := F → Except String String

def checkSpireVerifiedFlag (status : TaskRunStatus F) : Bool :=
  (status.annotations.lookup verifiedAnnotation).isNone

def Controller.verifyAnnotation (publicKey : String) (annotations : List (String × String)) :
    Option String :=
  match annotations.lookup taskRunStatusHashSigKey with
  | none => some ("no signature found for " ++ taskRunStatusHashSigKey)
  | some signature =>
    match annotations.lookup taskRunStatusHashKey with
    | none => some ("no annotation status hash found for " ++ taskRunStatusHashKey)
    | some hash => sc.verifySignature publicKey signature hash

def checkStatusInternalAnnotation (hashTaskrunStatusInternal : StatusHash F)
    (status : TaskRunStatus F) : Option String :=
  match status.annotations.lookup taskRunStatusHashKey with
  | none => some ("no annotation status hash found for " ++ taskRunStatusHashKey)
  | some hash =>
    match hashTaskrunStatusInternal status.taskRunStatusFields with
    | .error e => some e
    | .ok current =>
      if hash ≠ current then
        some ("current status hash and stored annotation hash does not match! Annotation Hash: " ++
          hash ++ ", Current Status Hash: " ++ current)
      else none

/-- `none` is no error. -/
def Controller.verifyStatusInternalAnnotation (hashTaskrunStatusInternal : StatusHash F)
    (status : TaskRunStatus F) : Option String :=
  match sc.setup with
  | some e => some e
  | none =>
    if !checkSpireVerifiedFlag status then
      some "annotation tekton.dev/not-verified = yes failed spire verification"
    else
      match sc.trustBundle with
      | .error e => some e
      | .ok trusted =>
        match status.annotations.lookup controllerSvidKey with
        | none => some "No SVID found"
        | some svid =>
          match sc.parseSVID svid with
          | .error e => some e
          | .ok cert =>
            (verifyCertificateTrust cert trusted).or <|
              (sc.verifyAnnotation cert.publicKey status.annotations).or <|
                checkStatusInternalAnnotation hashTaskrunStatusInternal status

end

/-- What the controller is given to sign: the certificates of its SVID, in PEM, and the
signature of a text by the key of the SVID. -/
structure Signer where
  setup : Option String := none
  fetchControllerSVID : Except String (List String)
  signWithKey : String → Except String String

def annotate (annotations : List (String × String)) (key value : String) : List (String × String) :=
  Assoc.upsert annotations key (fun _ => value) value

def Signer.appendStatusInternalAnnotation {F : Type} (w : Signer)
    (hashTaskrunStatusInternal : StatusHash F) (status : TaskRunStatus F) :
    Except String (TaskRunStatus F) :=
  match w.setup with
  | some e => .error e
  | none => do
    let currentHash ← hashTaskrunStatusInternal status.taskRunStatusFields
    let certificates ← w.fetchControllerSVID
    let sig ← w.signWithKey currentHash
    match certificates with
    | [] => .error "returned controller svid does not have certificates"
    | p :: _ =>
      return { status with
        annotations := annotate (annotate (annotate status.annotations
          controllerSvidKey p) taskRunStatusHashKey currentHash)
          taskRunStatusHashSigKey sig }

/-! ## Who has signed an accepted status -/

abbrev Identity := List Uri

structure Signing where
  signer : Identity
  signature : String
  text : String
  deriving DecidableEq

/-- Signatures are not forged, and no SVID is held by two workloads: what is verified with the
key of an SVID was signed by the workload it is issued for, and by no other. -/
def SoundDomain (sc : Controller) (log : List Signing) : Prop :=
  ∀ cert trusted, sc.trustBundle = .ok trusted → trusted cert = true →
    ∀ signature text, sc.verifySignature cert.publicKey signature text = none →
      ∀ i : Identity, ⟨i, signature, text⟩ ∈ log ↔ i = cert.uris

def Signer.identity (w : Signer) (sc : Controller) : Option Identity :=
  match w.fetchControllerSVID with
  | .ok (p :: _) =>
    match sc.parseSVID p with
    | .ok cert => some cert.uris
    | .error _ => none
  | _ => none

section
variable {F : Type} {sc : Controller} {w : Signer} {log : List Signing}
  {hashTaskrunStatusInternal : StatusHash F} {status : TaskRunStatus F} {controller : Identity}

/-- The hash of the fields as they are now was signed by this workload and by no other. -/
def SignedOnlyBy (log : List Signing) (hashTaskrunStatusInternal : StatusHash F)
    (status : TaskRunStatus F) (signer : Identity) : Prop :=
  ∃ signature current,
    status.annotations.lookup taskRunStatusHashSigKey = some signature ∧
      hashTaskrunStatusInternal status.taskRunStatusFields = .ok current ∧
      ∀ i : Identity, ⟨i, signature, current⟩ ∈ log ↔ i = signer

def IssuedFor (sc : Controller) (status : TaskRunStatus F) (signer : Identity) : Prop :=
  ∃ svid cert, status.annotations.lookup controllerSvidKey = some svid ∧
    sc.parseSVID svid = .ok cert ∧ cert.uris = signer

theorem checkStatusInternalAnnotation_eq_none
    (h : checkStatusInternalAnnotation hashTaskrunStatusInternal status = none) :
    ∃ hash, status.annotations.lookup taskRunStatusHashKey = some hash ∧
      hashTaskrunStatusInternal status.taskRunStatusFields = .ok hash := by
  unfold checkStatusInternalAnnotation at h
  cases hhash : status.annotations.lookup taskRunStatusHashKey with
  | none => simp [hhash] at h
  | some hash =>
    cases hcurrent : hashTaskrunStatusInternal status.taskRunStatusFields with
    | error e => simp [hhash, hcurrent] at h
    | ok current =>
      have heq : hash = current := by simpa [hhash, hcurrent] using h
      exact ⟨hash, rfl, by rw [heq]⟩

theorem verifyAnnotation_eq_none {publicKey : String} {annotations : List (String × String)}
    (h : sc.verifyAnnotation publicKey annotations = none) :
    ∃ signature hash, annotations.lookup taskRunStatusHashSigKey = some signature ∧
      annotations.lookup taskRunStatusHashKey = some hash ∧
      sc.verifySignature publicKey signature hash = none := by
  unfold Controller.verifyAnnotation at h
  cases hsig : annotations.lookup taskRunStatusHashSigKey with
  | none => simp [hsig] at h
  | some signature =>
    cases hhash : annotations.lookup taskRunStatusHashKey with
    | none => simp [hsig, hhash] at h
    | some hash => exact ⟨signature, hash, rfl, rfl, by simpa [hsig, hhash] using h⟩

theorem verifyStatusInternalAnnotation_eq_none
    (h : sc.verifyStatusInternalAnnotation hashTaskrunStatusInternal status = none) :
    ∃ trusted svid cert signature current, sc.trustBundle = .ok trusted ∧
      status.annotations.lookup controllerSvidKey = some svid ∧
      sc.parseSVID svid = .ok cert ∧ trusted cert = true ∧
      status.annotations.lookup taskRunStatusHashSigKey = some signature ∧
      hashTaskrunStatusInternal status.taskRunStatusFields = .ok current ∧
      sc.verifySignature cert.publicKey signature current = none := by
  unfold Controller.verifyStatusInternalAnnotation at h
  cases hsetup : sc.setup with
  | some e => simp [hsetup] at h
  | none =>
    cases hflag : checkSpireVerifiedFlag status with
    | false => simp [hsetup, hflag] at h
    | true =>
      cases htrust : sc.trustBundle with
      | error e => simp [hsetup, hflag, htrust] at h
      | ok trusted =>
        cases hsvid : status.annotations.lookup controllerSvidKey with
        | none => simp [hsetup, hflag, htrust, hsvid] at h
        | some svid =>
          cases hcert : sc.parseSVID svid with
          | error e => simp [hsetup, hflag, htrust, hsvid, hcert] at h
          | ok cert =>
            simp only [hsetup, hflag, htrust, hsvid, hcert, Bool.not_true, Bool.false_eq_true,
              if_false, Option.or_eq_none_iff] at h
            obtain ⟨htrusted, hannotation, hstatus⟩ := h
            obtain ⟨signature, hash, hsig, hhash, hverified⟩ := verifyAnnotation_eq_none hannotation
            obtain ⟨hash', hhash', hcurrent⟩ := checkStatusInternalAnnotation_eq_none hstatus
            obtain rfl := Option.some.inj (hhash.symm.trans hhash')
            have htrue : trusted cert = true := by
              by_contra hnot
              simp [verifyCertificateTrust, hnot] at htrusted
            exact ⟨trusted, svid, cert, signature, hash, rfl, rfl, hcert, htrue, hsig, hcurrent,
              hverified⟩

theorem lookup_annotate (annotations : List (String × String)) (key value key' : String) :
    (annotate annotations key value).lookup key' =
      if key' = key then some value else annotations.lookup key' := by
  unfold annotate
  rw [Assoc.lookup_upsert]
  cases annotations.lookup key <;> rfl

theorem Signer.issuedFor_append {status' : TaskRunStatus F}
    (hcontroller : w.identity sc = some controller)
    (h : w.appendStatusInternalAnnotation hashTaskrunStatusInternal status = .ok status') :
    IssuedFor sc status' controller := by
  unfold Signer.appendStatusInternalAnnotation at h
  unfold Signer.identity at hcontroller
  cases hsetup : w.setup with
  | some e => simp [hsetup] at h
  | none =>
    rw [hsetup] at h
    cases hhash : hashTaskrunStatusInternal status.taskRunStatusFields with
    | error e =>
      rw [hhash] at h
      cases h
    | ok currentHash =>
      rcases hfetch : w.fetchControllerSVID with e | _ | ⟨p, certificates⟩
      · simp [hfetch] at hcontroller
      · simp [hfetch] at hcontroller
      · cases hsig : w.signWithKey currentHash with
        | error e => simp [hhash, hfetch, hsig, bind, Except.bind] at h
        | ok sig =>
          simp only [hhash, hfetch, hsig, bind, Except.bind] at h
          obtain rfl := Except.ok.inj h
          rw [hfetch] at hcontroller
          cases hcert : sc.parseSVID p with
          | error e => simp [hcert] at hcontroller
          | ok cert =>
            refine ⟨p, cert, ?_, hcert, by simpa [hcert] using hcontroller⟩
            simp [lookup_annotate, controllerSvidKey, taskRunStatusHashKey,
              taskRunStatusHashSigKey]

/-- The hash of an accepted status was signed by the workload that the SVID kept with it is
issued for. This is the controller where the controller has put the SVID there, but nothing
checks that it has. -/
theorem verified_status_signed_by_controller_iff (hdomain : SoundDomain sc log)
    (hcontroller : w.identity sc = some controller) :
    (sc.verifyStatusInternalAnnotation hashTaskrunStatusInternal status = none →
      (SignedOnlyBy log hashTaskrunStatusInternal status controller ↔
        IssuedFor sc status controller)) ∧
    ∀ status', w.appendStatusInternalAnnotation hashTaskrunStatusInternal status = .ok status' →
      IssuedFor sc status' controller := by
  refine ⟨fun haccepted => ?_, fun status' h => w.issuedFor_append hcontroller h⟩
  obtain ⟨trusted, svid, cert, signature, current, htrust, hsvid, hcert, htrusted, hsig, hcurrent,
    hverified⟩ := verifyStatusInternalAnnotation_eq_none haccepted
  have hsigned := hdomain cert trusted htrust htrusted signature current hverified
  constructor
  · rintro ⟨signature', current', hsig', hcurrent', hby⟩
    obtain rfl := Option.some.inj (hsig.symm.trans hsig')
    obtain rfl := Except.ok.inj (hcurrent.symm.trans hcurrent')
    exact ⟨svid, cert, hsvid, hcert, (hby cert.uris).mp ((hsigned cert.uris).mpr rfl)⟩
  · rintro ⟨svid', cert', hsvid', hcert', rfl⟩
    obtain rfl := Option.some.inj (hsvid.symm.trans hsvid')
    obtain rfl := Except.ok.inj (hcert.symm.trans hcert')
    exact ⟨signature, current, hsig, hcurrent, hsigned⟩

end

def controllerIdentity : Identity := [⟨"example.org", "/ns/tekton-pipelines/sa/controller"⟩]

def podIdentity : Identity := [⟨"example.org", "/ns/ci/taskrun/build"⟩]

def clusterController : Controller where
  unmarshal := .string
  parseSVID := fun svid =>
    if svid = "controller pem" then .ok ⟨"controller key", controllerIdentity⟩
    else if svid = "pod pem" then .ok ⟨"pod key", podIdentity⟩
    else .error "invalid SVID"
  trustBundle := .ok fun cert =>
    cert = ⟨"controller key", controllerIdentity⟩ ∨ cert = ⟨"pod key", podIdentity⟩
  verifySignature := fun publicKey signature value =>
    if (publicKey = "controller key" ∧ signature = "by controller" ∧ value = "hash of succeeded") ∨
        (publicKey = "pod key" ∧ signature = "by pod" ∧ value = "hash of forged") then none
    else some "invalid signature"
  trustDomain := "example.org"

def clusterSigner : Signer where
  fetchControllerSVID := .ok ["controller pem"]
  signWithKey := fun _ => .ok "by controller"

def clusterLog : List Signing :=
  [⟨controllerIdentity, "by controller", "hash of succeeded"⟩,
    ⟨podIdentity, "by pod", "hash of forged"⟩]

def hashText : StatusHash String := fun fields => .ok ("hash of " ++ fields)

def annotated (svid signature fields : String) : TaskRunStatus String where
  annotations := [(controllerSvidKey, svid),
    (taskRunStatusHashKey, "hash of " ++ fields), (taskRunStatusHashSigKey, signature)]
  taskRunStatusFields := fields

theorem clusterController_sound : SoundDomain clusterController clusterLog := by
  intro cert trusted htrust htrusted signature text hverified i
  obtain rfl := Except.ok.inj htrust
  have hcases : cert = ⟨"controller key", controllerIdentity⟩ ∨ cert = ⟨"pod key", podIdentity⟩ :=
    of_decide_eq_true htrusted
  rcases hcases with rfl | rfl
  · have hboth : signature = "by controller" ∧ text = "hash of succeeded" := by
      by_contra hnot
      simp [clusterController, hnot] at hverified
    obtain ⟨rfl, rfl⟩ := hboth
    simp [clusterLog]
  · have hboth : signature = "by pod" ∧ text = "hash of forged" := by
      by_contra hnot
      simp [clusterController, hnot] at hverified
    obtain ⟨rfl, rfl⟩ := hboth
    simp [clusterLog]

theorem annotated_by_controller_signed :
    SignedOnlyBy clusterLog hashText (annotated "controller pem" "by controller" "succeeded")
      controllerIdentity :=
  ((verified_status_signed_by_controller_iff (w := clusterSigner) clusterController_sound rfl).1
    (by decide +kernel)).mpr ⟨_, _, rfl, rfl, rfl⟩

/-- A pod writes a status of its own, signs it and puts its own SVID beside it. -/
theorem annotated_by_pod_accepted : clusterController.verifyStatusInternalAnnotation hashText
        (annotated "pod pem" "by pod" "forged") = none ∧
      clusterSigner.identity clusterController = some controllerIdentity ∧
      SoundDomain clusterController clusterLog ∧
      ¬ SignedOnlyBy clusterLog hashText (annotated "pod pem" "by pod" "forged")
        controllerIdentity := by
  refine ⟨by decide +kernel, by decide +kernel, clusterController_sound, ?_⟩
  rintro ⟨signature, current, hsig, hcurrent, hby⟩
  have hlook : (annotated "pod pem" "by pod" "forged").annotations.lookup
      taskRunStatusHashSigKey = some "by pod" := by decide +kernel
  obtain rfl := Option.some.inj (hlook.symm.trans hsig)
  obtain rfl := Except.ok.inj hcurrent
  have hsigned := (hby controllerIdentity).mpr rfl
  revert hsigned
  decide +kernel

end TektonPipeline.Spire
