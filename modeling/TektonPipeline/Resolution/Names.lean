import Mathlib.Data.List.Sort
import Mathlib.Data.String.Basic
import TektonPipeline.Library.Json
import TektonPipeline.Spire.Results

/-! The names of resolution requests, and which request answers a reference. -/

namespace TektonPipeline.Resolution
open List Assoc JsonText
open Spire (TypedValue)

/-- `nameHasher` with its sum written in hexadecimal. -/
structure NameHasher where
  sum : String → String
  length : ∀ m, (sum m).length = 32
  size : ∀ m, (sum m).utf8ByteSize = 32
  noSpace : ∀ m, ' ' ∉ (sum m).toList

structure ResolutionRequestSpec where
  params : List (String × TypedValue) := []
  url : String := ""
  nodup : (params.map (·.1)).Nodup

section
variable (h : NameHasher) (marshalJSON : TypedValue → String)

def hashedText : TypedValue → String
  | .string value => value
  | value => marshalJSON value

def sortedParams (params : List (String × TypedValue)) : List (String × TypedValue) :=
  params.insertionSort fun a b => a.1 ≤ b.1

def hashedMessage (base : String) (spec : ResolutionRequestSpec) : String :=
  base ++ String.join ((sortedParams spec.params).map fun p => p.1 ++ hashedText marshalJSON p.2) ++
    spec.url

/-- What comes before the last space of the first 63 bytes. -/
def beforeLastSpace : List Char → Nat → Option (List Char)
  | [], _ => none
  | c :: cs, offset =>
    if 63 ≤ offset then none
    else
      match beforeLastSpace cs (offset + c.utf8Size) with
      | some before => some (c :: before)
      | none => if c = ' ' then some [] else none

/-- `none` is a panic: a slice up to index -1. -/
def generateDeterministicNameFromSpec (pre base : String) (spec? : Option ResolutionRequestSpec) :
    Option String :=
  match spec? with
  | none => some (pre ++ "-" ++ h.sum base)
  | some spec =>
    let name := pre ++ "-" ++ h.sum (hashedMessage marshalJSON base spec)
    if name.utf8ByteSize < 63 then some name
    else (beforeLastSpace name.toList 0).map String.ofList

structure Owner where
  name : String
  inNamespace : String
  deriving DecidableEq

structure ResolverPayload where
  name : String := ""
  inNamespace : String := ""
  resolutionSpec : Option ResolutionRequestSpec := none

structure Reference where
  resolverName : String
  owner : Owner
  payload : ResolverPayload

def Reference.spec (r : Reference) : ResolutionRequestSpec :=
  r.payload.resolutionSpec.getD { params := [], nodup := nodup_nil }

def Reference.inNamespace (r : Reference) : String :=
  let inNamespace := if r.payload.name = "" then r.owner.inNamespace else r.payload.inNamespace
  if inNamespace = "" then "default" else inNamespace

def Reference.base (r : Reference) : String :=
  r.inNamespace ++ "/" ++ if r.payload.name = "" then r.owner.name else r.payload.name

/-- `GetNameAndNamespace`, as `buildRequest` calls it. -/
def getNameAndNamespace (r : Reference) : Option (String × String) :=
  (generateDeterministicNameFromSpec h marshalJSON r.resolverName r.base (some r.spec)).map
    fun name => (r.inNamespace, name)

end

inductive RequestStatus where
  | unknown
  | succeeded (data : String)
  | failed (message : String)
  deriving DecidableEq

structure ResolutionRequest where
  resolverName : String
  spec : ResolutionRequestSpec
  status : RequestStatus := .unknown

abbrev Requests := List ((String × String) × ResolutionRequest)

inductive Answer where
  | requestInProgress
  | resolved (data : String)
  | resolutionFailed (message : String)
  deriving DecidableEq

/-- `CRDRequester.Submit` of a request for a reference under its name. -/
def submit (store : Requests) (r : Reference) (key : String × String) : Answer × Requests :=
  match store.lookup key with
  | none =>
    (.requestInProgress, store ++ [(key, { resolverName := r.resolverName, spec := r.spec })])
  | some rr =>
    match rr.status with
    | .unknown => (.requestInProgress, store)
    | .succeeded data => (.resolved data, store)
    | .failed message => (.resolutionFailed message, store)

/-- The requests there may be once some references have been submitted, in any order and any
number of times; a resolver may give any of them a status in between. -/
inductive Submitted (h : NameHasher) (marshalJSON : TypedValue → String)
    (references : List Reference) : Requests → Prop
  | nil : Submitted h marshalJSON references []
  | submit {store : Requests} {r : Reference} {key : String × String}
      (hstore : Submitted h marshalJSON references store) (hr : r ∈ references)
      (hkey : getNameAndNamespace h marshalJSON r = some key) :
      Submitted h marshalJSON references (submit store r key).2
  | resolve {store : Requests} (hstore : Submitted h marshalJSON references store)
      (key : String × String) (status : RequestStatus) :
      Submitted h marshalJSON references
        (store.map fun e => if e.1 = key then (e.1, { e.2 with status := status }) else e)

/-! ## When two references have the same name -/

def SameRequest (base base' : String) (spec spec' : ResolutionRequestSpec) : Prop :=
  base = base' ∧ (∀ n, spec.params.lookup n = spec'.params.lookup n) ∧ spec.url = spec'.url

def SameKind : TypedValue → TypedValue → Prop
  | .string _, .string _ => True
  | .array _, .array _ => True
  | .object _, .object _ => True
  | _, _ => False

section
variable {h : NameHasher} {marshalJSON : TypedValue → String}

/-- The hash tells the two messages apart, and the encoding the values in them. -/
structure NoCollision (h : NameHasher) (marshalJSON : TypedValue → String) (base base' : String)
    (spec spec' : ResolutionRequestSpec) : Prop where
  sum :
    h.sum (hashedMessage marshalJSON base spec) = h.sum (hashedMessage marshalJSON base' spec') →
    hashedMessage marshalJSON base spec = hashedMessage marshalJSON base' spec'
  json : ∀ p ∈ spec.params, ∀ q ∈ spec'.params, marshalJSON p.2 = marshalJSON q.2 → p.2 = q.2

structure CutAlike (marshalJSON : TypedValue → String) (base base' : String)
    (spec spec' : ResolutionRequestSpec) : Prop where
  base : base.length = base'.length
  params : List.Forall₂ (fun p q => p.1.length = q.1.length ∧ SameKind p.2 q.2 ∧
      (hashedText marshalJSON p.2).length = (hashedText marshalJSON q.2).length)
    (sortedParams spec.params) (sortedParams spec'.params)

theorem toList_hashedMessage (base : String) (spec : ResolutionRequestSpec) :
    (hashedMessage marshalJSON base spec).toList =
      base.toList ++ ((sortedParams spec.params).flatMap fun p =>
        p.1.toList ++ (hashedText marshalJSON p.2).toList) ++ spec.url.toList := by
  have hjoin : ∀ l : List String, (String.join l).toList = l.flatMap String.toList := by
    intro l
    induction l with
    | nil => rfl
    | cons s l ih => rw [String.join_cons, String.toList_append, ih, flatMap_cons]
  unfold hashedMessage
  rw [String.toList_append, String.toList_append, hjoin, flatMap_map]
  simp

theorem eq_of_hashedText {v w : TypedValue} (hjson : marshalJSON v = marshalJSON w → v = w)
    (hkind : SameKind v w) (heq : hashedText marshalJSON v = hashedText marshalJSON w) : v = w := by
  cases v <;> cases w <;> simp only [SameKind] at hkind
  · exact congrArg TypedValue.string heq
  · exact hjson heq
  · exact hjson heq

variable {ps qs : List (String × TypedValue)}

theorem params_eq_of_cut {u v : List Char}
    (hjson : ∀ p ∈ ps, ∀ q ∈ qs, marshalJSON p.2 = marshalJSON q.2 → p.2 = q.2)
    (hcut : List.Forall₂ (fun p q => p.1.length = q.1.length ∧ SameKind p.2 q.2 ∧
      (hashedText marshalJSON p.2).length = (hashedText marshalJSON q.2).length) ps qs)
    (heq : (ps.flatMap fun p => p.1.toList ++ (hashedText marshalJSON p.2).toList) ++ u =
      (qs.flatMap fun p => p.1.toList ++ (hashedText marshalJSON p.2).toList) ++ v) :
    ps = qs ∧ u = v := by
  induction hcut with
  | nil => exact ⟨rfl, heq⟩
  | @cons p q ps qs hpq _ ih =>
    obtain ⟨hname, hkind, htext⟩ := hpq
    simp only [flatMap_cons, append_assoc] at heq
    obtain ⟨hname', heq⟩ := append_inj heq (by simpa [String.length_toList] using hname)
    obtain ⟨htext', heq⟩ := append_inj heq (by simpa [String.length_toList] using htext)
    obtain ⟨rfl, rfl⟩ := ih (fun p hp q hq => hjson p (mem_cons_of_mem _ hp) q
      (mem_cons_of_mem _ hq)) heq
    have hvalue : p.2 = q.2 := eq_of_hashedText (hjson p mem_cons_self q mem_cons_self) hkind
      (String.toList_inj.mp htext')
    exact ⟨by rw [Prod.ext (String.toList_inj.mp hname') hvalue], rfl⟩

theorem mem_sortedParams {params : List (String × TypedValue)} {p : String × TypedValue} :
    p ∈ sortedParams params ↔ p ∈ params :=
  (perm_insertionSort _ _).mem_iff

theorem lookup_eq_iff (hps : (ps.map (·.1)).Nodup) (hqs : (qs.map (·.1)).Nodup) :
    (∀ n, ps.lookup n = qs.lookup n) ↔ ∀ p, p ∈ ps ↔ p ∈ qs := by
  constructor
  · rintro hlook ⟨n, v⟩
    constructor
    · intro hmem
      exact mem_of_lookup ((hlook n).symm.trans (lookup_of_mem hps hmem))
    · intro hmem
      exact mem_of_lookup ((hlook n).trans (lookup_of_mem hqs hmem))
  · intro hmem n
    cases hn : ps.lookup n with
    | some v => exact (lookup_of_mem hqs ((hmem _).mp (mem_of_lookup hn))).symm
    | none =>
      cases hn' : qs.lookup n with
      | none => rfl
      | some v =>
        rw [lookup_of_mem hps ((hmem _).mpr (mem_of_lookup hn'))] at hn
        cases hn

theorem sortedParams_eq_iff (hps : (ps.map (·.1)).Nodup) (hqs : (qs.map (·.1)).Nodup) :
    sortedParams ps = sortedParams qs ↔ ∀ n, ps.lookup n = qs.lookup n := by
  rw [lookup_eq_iff hps hqs]
  constructor
  · intro heq p
    rw [← mem_sortedParams, heq, mem_sortedParams]
  · intro hmem
    have hperm : ps.Perm qs := (perm_ext_iff_of_nodup hps.of_map hqs.of_map).mpr hmem
    have hsorted : ∀ l : List (String × TypedValue),
        (sortedParams l).Pairwise fun a b => a.1 ≤ b.1 :=
      fun l => pairwise_insertionSort (fun a b : String × TypedValue => a.1 ≤ b.1) l
    refine List.Perm.eq_of_pairwise ?_ (hsorted ps) (hsorted qs) ?_
    · intro a b ha hb hab hba
      refine inj_on_of_nodup_map hqs ?_ (mem_sortedParams.mp hb) (le_antisymm hab hba)
      exact (hmem a).mp (mem_sortedParams.mp ha)
    · exact (perm_insertionSort _ _).trans (hperm.trans (perm_insertionSort _ _).symm)

theorem sameRequest_iff_cutAlike {base base' : String} {spec spec' : ResolutionRequestSpec}
    (hjson : ∀ p ∈ spec.params, ∀ q ∈ spec'.params, marshalJSON p.2 = marshalJSON q.2 → p.2 = q.2)
    (hmessage : hashedMessage marshalJSON base spec = hashedMessage marshalJSON base' spec') :
    SameRequest base base' spec spec' ↔ CutAlike marshalJSON base base' spec spec' := by
  constructor
  · rintro ⟨rfl, hparams, -⟩
    refine ⟨rfl, ?_⟩
    rw [(sortedParams_eq_iff spec.nodup spec'.nodup).mpr hparams]
    refine forall₂_same.mpr fun p _ => ⟨rfl, ?_, rfl⟩
    cases p.2 <;> trivial
  · intro hcut
    have hlist := congrArg String.toList hmessage
    rw [toList_hashedMessage, toList_hashedMessage, append_assoc, append_assoc] at hlist
    obtain ⟨hbase, hrest⟩ := append_inj hlist (by simpa [String.length_toList] using hcut.base)
    obtain ⟨hparams, hurl⟩ := params_eq_of_cut (fun p hp q hq =>
      hjson p (mem_sortedParams.mp hp) q (mem_sortedParams.mp hq)) hcut.params hrest
    exact ⟨String.toList_inj.mp hbase, (sortedParams_eq_iff spec.nodup spec'.nodup).mp hparams,
      String.toList_inj.mp hurl⟩

theorem utf8ByteSize_name (pre message : String) :
    (pre ++ "-" ++ h.sum message).utf8ByteSize = pre.utf8ByteSize + 33 := by
  have hdash : "-".utf8ByteSize = 1 := by decide
  rw [String.utf8ByteSize_append, String.utf8ByteSize_append, h.size, hdash]

def cutName (name : String) : Option String :=
  if name.utf8ByteSize < 63 then some name
  else (beforeLastSpace name.toList 0).map String.ofList

variable {pre : String}

theorem cutName_short (hpre : pre.utf8ByteSize < 30) (message : String) :
    cutName (pre ++ "-" ++ h.sum message) = some (pre ++ "-" ++ h.sum message) := by
  have hsize := utf8ByteSize_name (h := h) pre message
  rw [cutName, if_pos (by omega)]

theorem generateDeterministicNameFromSpec_short (hpre : pre.utf8ByteSize < 30) (base : String)
    (spec : ResolutionRequestSpec) :
    generateDeterministicNameFromSpec h marshalJSON pre base (some spec) =
      some (pre ++ "-" ++ h.sum (hashedMessage marshalJSON base spec)) :=
  cutName_short hpre _

theorem beforeLastSpace_append {l : List Char} (hl : ' ' ∉ l) (l' : List Char) (offset : Nat) :
    beforeLastSpace (l' ++ l) offset = beforeLastSpace l' offset := by
  induction l' generalizing offset with
  | nil =>
    rw [nil_append]
    induction l generalizing offset with
    | nil => rfl
    | cons c l ih =>
      rw [mem_cons, not_or] at hl
      simp [beforeLastSpace, ih hl.2, Ne.symm hl.1]
  | cons c l' ih => simp [beforeLastSpace, ih]

theorem cutName_long (hpre : 30 ≤ pre.utf8ByteSize) (message : String) :
    cutName (pre ++ "-" ++ h.sum message) = (beforeLastSpace pre.toList 0).map String.ofList := by
  have hsize := utf8ByteSize_name (h := h) pre message
  rw [cutName, if_neg (by omega), String.toList_append, String.toList_append, append_assoc,
    beforeLastSpace_append]
  have hsum := h.noSpace message
  have hdash : "-".toList = ['-'] := by decide
  simp [hdash, hsum]

theorem generateDeterministicNameFromSpec_long (hpre : 30 ≤ pre.utf8ByteSize) (base : String)
    (spec : ResolutionRequestSpec) :
    generateDeterministicNameFromSpec h marshalJSON pre base (some spec) =
      (beforeLastSpace pre.toList 0).map String.ofList :=
  cutName_long hpre _

end

section
variable {h : NameHasher} {marshalJSON : TypedValue → String} {references : List Reference}
  {store : Requests}

theorem Submitted.made (hstore : Submitted h marshalJSON references store)
    {key : String × String} {rr : ResolutionRequest} (hmem : (key, rr) ∈ store) :
    ∃ r ∈ references, getNameAndNamespace h marshalJSON r = some key ∧
      rr.resolverName = r.resolverName ∧ rr.spec = r.spec := by
  induction hstore generalizing key rr with
  | nil => cases hmem
  | @submit store r key' _ hr hkey' ih =>
    unfold Resolution.submit at hmem
    cases hlook : store.lookup key' with
    | none =>
      rw [hlook] at hmem
      rcases mem_append.mp hmem with hold | hnew
      · exact ih hold
      · obtain ⟨rfl, rfl⟩ := Prod.mk.inj (mem_singleton.mp hnew)
        exact ⟨r, hr, hkey', rfl, rfl⟩
    | some rr' =>
      rw [hlook] at hmem
      dsimp only at hmem
      cases hstatus : rr'.status <;> rw [hstatus] at hmem <;> exact ih hmem
  | @resolve store _ key' status ih =>
    obtain ⟨⟨key₀, rr₀⟩, hmem₀, heq⟩ := mem_map.mp hmem
    obtain ⟨r, hr, hkey, hresolver, hspec⟩ := ih hmem₀
    by_cases hk : key₀ = key'
    · rw [if_pos hk] at heq
      obtain ⟨rfl, rfl⟩ := Prod.mk.inj heq
      exact ⟨r, hr, hkey, hresolver, hspec⟩
    · rw [if_neg hk] at heq
      obtain ⟨rfl, rfl⟩ := Prod.mk.inj heq
      exact ⟨r, hr, hkey, hresolver, hspec⟩

theorem eq_of_getNameAndNamespace {r r' : Reference} {key : String × String}
    (hshort : r.resolverName.utf8ByteSize < 30) (hshort' : r'.resolverName.utf8ByteSize < 30)
    (hkey : getNameAndNamespace h marshalJSON r = some key)
    (hkey' : getNameAndNamespace h marshalJSON r' = some key) :
    r.resolverName = r'.resolverName ∧ h.sum (hashedMessage marshalJSON r.base r.spec) =
      h.sum (hashedMessage marshalJSON r'.base r'.spec) := by
  unfold getNameAndNamespace at hkey hkey'
  rw [generateDeterministicNameFromSpec_short hshort, Option.map_some] at hkey
  rw [generateDeterministicNameFromSpec_short hshort', Option.map_some] at hkey'
  obtain ⟨-, hname⟩ := Prod.mk.inj (Option.some.inj (hkey.trans hkey'.symm))
  have hlist := congrArg String.toList hname
  simp only [String.toList_append] at hlist
  obtain ⟨hpre, hsum⟩ := append_inj' hlist (by simp [String.length_toList, h.length])
  obtain ⟨hresolver, -⟩ := append_inj' hpre rfl
  exact ⟨String.toList_inj.mp hresolver, String.toList_inj.mp hsum⟩

theorem Submitted.answers_own
    (hshort : ∀ r ∈ references, r.resolverName.utf8ByteSize < 30)
    (hsums : ∀ r ∈ references, ∀ r' ∈ references,
      NoCollision h marshalJSON r.base r'.base r.spec r'.spec)
    (hcut : ∀ r ∈ references, ∀ r' ∈ references,
      getNameAndNamespace h marshalJSON r = getNameAndNamespace h marshalJSON r' →
        CutAlike marshalJSON r.base r'.base r.spec r'.spec)
    (hstore : Submitted h marshalJSON references store) {r : Reference} (hr : r ∈ references)
    {key : String × String} (hkey : getNameAndNamespace h marshalJSON r = some key)
    {rr : ResolutionRequest} (hlook : store.lookup key = some rr) :
    rr.resolverName = r.resolverName ∧ (∀ n, rr.spec.params.lookup n = r.spec.params.lookup n) ∧
      rr.spec.url = r.spec.url := by
  obtain ⟨r', hr', hkey', hresolver, hspec⟩ := hstore.made (mem_of_lookup hlook)
  obtain ⟨hname, hsum⟩ :=
    eq_of_getNameAndNamespace (hshort r' hr') (hshort r hr) hkey' hkey
  have hapart := hsums r' hr' r hr
  obtain ⟨-, hparams, hurl⟩ := (sameRequest_iff_cutAlike hapart.json (hapart.sum hsum)).mpr
    (hcut r' hr' r hr (hkey'.trans hkey.symm))
  rw [hspec]
  exact ⟨hresolver.trans hname, hparams, hurl⟩

end

/-- Two requests of one name are the same exactly if their messages are cut alike, and then a
reference is answered from a request for itself only. With a resolver name of thirty bytes or
more a name says nothing of the request. -/
theorem sameName_iff_cutAlike (h : NameHasher) (marshalJSON : TypedValue → String) :
    (∀ pre base base' spec spec', pre.utf8ByteSize < 30 →
      NoCollision h marshalJSON base base' spec spec' →
      generateDeterministicNameFromSpec h marshalJSON pre base (some spec) =
        generateDeterministicNameFromSpec h marshalJSON pre base' (some spec') →
      (SameRequest base base' spec spec' ↔ CutAlike marshalJSON base base' spec spec')) ∧
    (∀ pre base base' spec spec', 30 ≤ pre.utf8ByteSize →
      generateDeterministicNameFromSpec h marshalJSON pre base (some spec) =
        generateDeterministicNameFromSpec h marshalJSON pre base' (some spec')) ∧
    ∀ references store, Submitted h marshalJSON references store →
      (∀ r ∈ references, r.resolverName.utf8ByteSize < 30) → (∀ r ∈ references, ∀ r' ∈ references,
        NoCollision h marshalJSON r.base r'.base r.spec r'.spec) →
      (∀ r ∈ references, ∀ r' ∈ references,
        getNameAndNamespace h marshalJSON r = getNameAndNamespace h marshalJSON r' →
          CutAlike marshalJSON r.base r'.base r.spec r'.spec) →
      ∀ r ∈ references, ∀ key rr, getNameAndNamespace h marshalJSON r = some key →
        store.lookup key = some rr → rr.resolverName = r.resolverName ∧
          (∀ n, rr.spec.params.lookup n = r.spec.params.lookup n) ∧ rr.spec.url = r.spec.url := by
  refine ⟨fun pre base base' spec spec' hpre hsums hname => ?_,
    fun pre base base' spec spec' hpre => ?_,
    fun references store hstore hshort hsums hcut r hr key rr hkey hlook =>
      hstore.answers_own hshort hsums hcut hr hkey hlook⟩
  · rw [generateDeterministicNameFromSpec_short hpre,
      generateDeterministicNameFromSpec_short hpre, Option.some.injEq] at hname
    have hlist := congrArg String.toList hname
    simp only [String.toList_append] at hlist
    obtain ⟨-, hsum⟩ := append_inj hlist rfl
    exact sameRequest_iff_cutAlike hsums.json (hsums.sum (String.toList_inj.mp hsum))
  · rw [generateDeterministicNameFromSpec_long hpre, generateDeterministicNameFromSpec_long hpre]

/-- `ParamValue.MarshalJSON`. -/
def marshalValue : TypedValue → String
  | .string value => String.ofList (quote value)
  | .array values => String.ofList ('[' :: writeItems quote ']' values)
  | .object entries => String.ofList
      ('\x7b' :: writeItems (fun e => quote e.1 ++ ':' :: quote e.2) '\x7d' entries.list)

def gitSpec (params : List (String × TypedValue)) (nodup : (params.map (·.1)).Nodup) :
    ResolutionRequestSpec :=
  { params := params, nodup := nodup }

def pinnedSpec : ResolutionRequestSpec :=
  gitSpec [("url", .string "h/repo"), ("pathInRepo", .string "task.yaml"),
    ("revision", .string "main")] (by decide)

/-- The same, with the parameters in another order. -/
def reorderedSpec : ResolutionRequestSpec :=
  gitSpec [("revision", .string "main"), ("url", .string "h/repo"),
    ("pathInRepo", .string "task.yaml")] (by decide)

/-- A file with a strange name, at no particular revision. -/
def unpinnedSpec : ResolutionRequestSpec :=
  gitSpec [("url", .string "h/repo"), ("pathInRepo", .string "task.yamlrevisionmain")] (by decide)

def oneDigit (n : Nat) : String := String.ofList (List.replicate 31 '0' ++ [Nat.digitChar n])

/-- The sum of the characters, in one digit. -/
def digitHasher : NameHasher :=
  have hdigits : ∀ n < 16, (oneDigit n).length = 32 ∧ (oneDigit n).utf8ByteSize = 32 ∧
      ' ' ∉ (oneDigit n).toList := by decide +kernel
  { sum := fun m => oneDigit ((m.toList.map Char.toNat).sum % 16)
    length := fun _ => (hdigits _ (Nat.mod_lt _ (by decide))).1
    size := fun _ => (hdigits _ (Nat.mod_lt _ (by decide))).2.1
    noSpace := fun _ => (hdigits _ (Nat.mod_lt _ (by decide))).2.2 }

/-- Three tasks of the PipelineRun `run`. -/
def pinned : Reference := ⟨"git", ⟨"run", "ci"⟩, { resolutionSpec := some pinnedSpec }⟩

def unpinned : Reference := ⟨"git", ⟨"run", "ci"⟩, { resolutionSpec := some unpinnedSpec }⟩

def reordered : Reference := ⟨"git", ⟨"run", "ci"⟩, { resolutionSpec := some reorderedSpec }⟩

theorem reorderedSpec_sameRequest :
    CutAlike marshalValue pinned.base reordered.base pinned.spec reordered.spec ∧
    ∀ store, Submitted digitHasher marshalValue [pinned, reordered] store →
      ∀ key rr, getNameAndNamespace digitHasher marshalValue reordered = some key →
        store.lookup key = some rr →
          ∀ n, rr.spec.params.lookup n = reordered.spec.params.lookup n := by
  have hsorted : ∀ r ∈ [pinned, reordered], r.base = "ci/run" ∧ r.spec.url = "" ∧
      sortedParams r.spec.params = sortedParams pinnedSpec.params := by decide +kernel
  have hjson : ∀ r ∈ [pinned, reordered], ∀ r' ∈ [pinned, reordered], ∀ p ∈ r.spec.params,
      ∀ q ∈ r'.spec.params, marshalValue p.2 = marshalValue q.2 → p.2 = q.2 := by decide +kernel
  have hmessage : ∀ r ∈ [pinned, reordered], ∀ r' ∈ [pinned, reordered],
      hashedMessage marshalValue r.base r.spec = hashedMessage marshalValue r'.base r'.spec := by
    intro r hr r' hr'
    obtain ⟨hbase, hurl, hparams⟩ := hsorted r hr
    obtain ⟨hbase', hurl', hparams'⟩ := hsorted r' hr'
    rw [hashedMessage, hashedMessage, hbase, hbase', hurl, hurl', hparams, hparams']
  have hapart : ∀ r ∈ [pinned, reordered], ∀ r' ∈ [pinned, reordered],
      NoCollision digitHasher marshalValue r.base r'.base r.spec r'.spec :=
    fun r hr r' hr' => ⟨fun _ => hmessage r hr r' hr', hjson r hr r' hr'⟩
  have hnames := sameName_iff_cutAlike digitHasher marshalValue
  have hcut : ∀ r ∈ [pinned, reordered], ∀ r' ∈ [pinned, reordered],
      CutAlike marshalValue r.base r'.base r.spec r'.spec := by
    intro r hr r' hr'
    obtain ⟨hbase, hurl, hparams⟩ := hsorted r hr
    obtain ⟨hbase', hurl', hparams'⟩ := hsorted r' hr'
    refine (hnames.1 "git" _ _ _ _ (by decide) (hapart r hr r' hr') ?_).mp
      ⟨hbase.trans hbase'.symm, ?_, hurl.trans hurl'.symm⟩
    · simp only [generateDeterministicNameFromSpec, hmessage r hr r' hr']
    · exact (sortedParams_eq_iff r.spec.nodup r'.spec.nodup).mp (hparams.trans hparams'.symm)
  exact ⟨hcut _ (by simp) _ (by simp), fun store hstore key rr hkey hlook =>
    (hnames.2.2 _ store hstore (by decide) hapart (fun r hr r' hr' _ => hcut r hr r' hr') reordered
      (by simp) key rr hkey hlook).2.1⟩

/-- The task that a PipelineRun refers to without a revision is answered with what was resolved
for another of its tasks, whatever the hash is. -/
theorem unpinnedSpec_answered : ¬ SameRequest pinned.base unpinned.base pinned.spec unpinned.spec ∧
    ∀ (h : NameHasher) (marshalJSON : TypedValue → String),
      ∃ key store, getNameAndNamespace h marshalJSON pinned = some key ∧
        getNameAndNamespace h marshalJSON unpinned = some key ∧
        Submitted h marshalJSON [pinned, unpinned] store ∧
        (submit store unpinned key).1 = .resolved "task at main" ∧
        ∃ rr, store.lookup key = some rr ∧ rr.spec = pinnedSpec := by
  constructor
  · rintro ⟨-, hparams, -⟩
    have hrevision := hparams "revision"
    revert hrevision
    decide +kernel
  intro h marshalJSON
  have hmessage : hashedMessage marshalJSON unpinned.base unpinned.spec =
      hashedMessage marshalJSON pinned.base pinned.spec := by
    have hpinned : sortedParams pinnedSpec.params = [("pathInRepo", .string "task.yaml"),
        ("revision", .string "main"), ("url", .string "h/repo")] := by decide +kernel
    have hunpinned : sortedParams unpinnedSpec.params =
        [("pathInRepo", .string "task.yamlrevisionmain"), ("url", .string "h/repo")] := by
      decide +kernel
    change _ ++ String.join ((sortedParams unpinnedSpec.params).map _) ++ _ =
      _ ++ String.join ((sortedParams pinnedSpec.params).map _) ++ _
    rw [hpinned, hunpinned]
    rfl
  have hname : ∀ r : Reference, r.resolverName = "git" →
      getNameAndNamespace h marshalJSON r =
        some (r.inNamespace, "git" ++ "-" ++ h.sum (hashedMessage marshalJSON r.base r.spec)) := by
    intro r hr
    unfold getNameAndNamespace
    rw [generateDeterministicNameFromSpec_short (by rw [hr]; decide), hr, Option.map_some]
  have hkey : getNameAndNamespace h marshalJSON unpinned =
      getNameAndNamespace h marshalJSON pinned := by
    rw [hname pinned rfl, hname unpinned rfl, hmessage]
    rfl
  obtain ⟨key, hpinned⟩ : ∃ key, getNameAndNamespace h marshalJSON pinned = some key :=
    ⟨_, hname pinned rfl⟩
  have hstart : Submitted h marshalJSON [pinned, unpinned] _ :=
    .submit .nil mem_cons_self hpinned
  have hstore := hstart.resolve key (.succeeded "task at main")
  refine ⟨key, _, hpinned, hkey.trans hpinned, hstore, ?_, ?_⟩
  · simp [submit]
  · simp [submit, Reference.spec, pinned]

end TektonPipeline.Resolution
