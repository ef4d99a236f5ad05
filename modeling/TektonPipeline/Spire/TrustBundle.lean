import TektonPipeline.Library.Sorting
import TektonPipeline.Spire.Results

/-! The certificates that the controller trusts: it fetches the X.509 bundles of the trust
domains from the workload API and verifies the certificate of a TaskRun with a pool of roots. -/

namespace TektonPipeline.Spire
open List

structure Bundle where
  trustDomain : String
  x509Authorities : List Cert

/-- `x509bundle.Set`, a map by trust domain, in one of the orders of its entries. -/
structure BundleSet where
  entries : List Bundle
  nodup : (entries.map (·.trustDomain)).Nodup

def BundleSet.bundles (set : BundleSet) : List Bundle :=
  set.entries.insertionSort fun a b => a.trustDomain ≤ b.trustDomain

/-- `errors.Wrap`. -/
def wrap (err : Option String) (message : String) : Option String :=
  err.map fun e => message ++ ": " ++ e

/-- A pool and an error, either of which may be nil. -/
def getTrustBundle (fetchX509Bundles : Except String BundleSet) :
    Option (List Cert) × Option String :=
  match fetchX509Bundles with
  | .error err => (none, some err)
  | .ok x509set =>
    match x509set.bundles with
    -- the pool is returned in the body of the loop
    | bundle :: _ => (some bundle.x509Authorities, none)
    | [] => (none, wrap none "trust domain bundle empty")

variable (chainsTo : Cert → Cert → Bool) (systemRoots : List Cert)

/-- Whether `cert.Verify` finds a chain to a root; without a pool it takes those of the
system. -/
def trusts (rootCertPool : Option (List Cert)) (cert : Cert) : Bool :=
  (rootCertPool.getD systemRoots).any (chainsTo cert)

def Bundle.Vouches (bundle : Bundle) (cert : Cert) : Prop :=
  ∃ authority ∈ bundle.x509Authorities, chainsTo cert authority = true

def BundleSet.Accepts (set : BundleSet) (cert : Cert) : Prop :=
  ∃ pool, getTrustBundle (.ok set) = (pool, none) ∧
    verifyCertificateTrust cert (trusts chainsTo systemRoots pool) = none

structure BundleSet.Anchors (set : BundleSet) (cert : Cert) : Prop where
  accepts_iff : set.Accepts chainsTo systemRoots cert ↔
    ∃ bundle ∈ set.entries, bundle.Vouches chainsTo cert
  anyOrder : ∀ set' : BundleSet, set'.entries.Perm set.entries →
    (set'.Accepts chainsTo systemRoots cert ↔ set.Accepts chainsTo systemRoots cert)

variable {chainsTo systemRoots} {set : BundleSet} {cert : Cert}

/-- Only the bundle that comes first is used, and the roots of the system if there is none. -/
theorem BundleSet.accepts_iff : set.Accepts chainsTo systemRoots cert ↔
    ∃ root ∈ (set.bundles.head?.map (·.x509Authorities)).getD systemRoots,
      chainsTo cert root = true := by
  have hpool : getTrustBundle (.ok set) = (set.bundles.head?.map (·.x509Authorities), none) := by
    unfold getTrustBundle
    cases h : set.bundles <;> simp [h, wrap]
  simp [Accepts, hpool, verifyCertificateTrust, trusts]

theorem BundleSet.mem_bundles {bundle : Bundle} : bundle ∈ set.bundles ↔ bundle ∈ set.entries :=
  mem_insertionSort _

theorem BundleSet.first_of_bundles {first : Bundle} {rest : List Bundle}
    (h : set.bundles = first :: rest) :
    first ∈ set.entries ∧ ∀ b ∈ set.entries, first.trustDomain ≤ b.trustDomain := by
  have hsorted : set.bundles.Pairwise fun a b => a.trustDomain ≤ b.trustDomain :=
    Sorting.pairwise_sort _ set.entries
  rw [h, pairwise_cons] at hsorted
  simp only [← mem_bundles, h, mem_cons_self, true_and, forall_mem_cons]
  exact ⟨le_rfl, hsorted.1⟩

/-- A certificate that some bundle vouches for has to be vouched for by the one of the first
trust domain; with no bundle at all it must not chain to a root of the system. -/
theorem BundleSet.anchors_iff : set.Anchors chainsTo systemRoots cert ↔
    (∀ first ∈ set.entries, (∀ b ∈ set.entries, first.trustDomain ≤ b.trustDomain) →
      ∀ b ∈ set.entries, b.Vouches chainsTo cert → first.Vouches chainsTo cert) ∧
    (set.entries = [] → ∀ root ∈ systemRoots, chainsTo cert root = false) := by
  have horder : ∀ set' : BundleSet, set'.entries.Perm set.entries →
      (set'.Accepts chainsTo systemRoots cert ↔ set.Accepts chainsTo systemRoots cert) := by
    intro set' hperm
    rw [accepts_iff, accepts_iff, show set'.bundles = set.bundles from
      Sorting.sort_eq_of_perm hperm set.nodup]
  have hanchors : set.Anchors chainsTo systemRoots cert ↔
      (set.Accepts chainsTo systemRoots cert ↔ ∃ b ∈ set.entries, b.Vouches chainsTo cert) :=
    ⟨(·.1), fun h => ⟨h, horder⟩⟩
  rw [hanchors, accepts_iff]
  cases hb : set.bundles with
  | nil =>
    have hnil : set.entries = [] := by
      simp [eq_nil_iff_forall_not_mem, ← mem_bundles, hb]
    simp [hnil]
  | cons first rest =>
    obtain ⟨hmem, hle⟩ := first_of_bundles hb
    constructor
    · intro h
      refine ⟨fun f hf hfirst b hmem' hv => ?_, fun hnil => by simp [hnil] at hmem⟩
      obtain rfl := inj_on_of_nodup_map set.nodup hf hmem
        (le_antisymm (hfirst first hmem) (hle f hf))
      exact h.mpr ⟨b, hmem', hv⟩
    · rintro ⟨hfirst, -⟩
      refine ⟨fun hv => ⟨first, hmem, hv⟩, ?_⟩
      rintro ⟨b, hb, hv⟩
      exact hfirst first hmem hle b hb hv

def selfSigned (publicKey : String) : Cert := ⟨publicKey, []⟩

def federated : BundleSet where
  entries :=
    [⟨"example.org", [selfSigned "ca"]⟩, ⟨"partner.org", [selfSigned "partner ca"]⟩]
  nodup := by decide

/-- A certificate of a federated domain is refused, and with no bundle one of the system's roots
is accepted. -/
theorem federated_not_anchors :
    ¬ federated.Anchors (· == ·) [] (selfSigned "partner ca") ∧
      ¬ (⟨[], .nil⟩ : BundleSet).Anchors (· == ·) [selfSigned "public ca"]
        (selfSigned "public ca") := by
  refine ⟨fun h => ?_, fun h => ?_⟩
  · have haccepts :=
      h.accepts_iff.mpr ⟨_, .tail _ (.head _), selfSigned "partner ca", by decide, by decide⟩
    rw [BundleSet.accepts_iff] at haccepts
    exact absurd haccepts (by decide +kernel)
  · have haccepts := h.accepts_iff.mp (BundleSet.accepts_iff.mpr (by decide +kernel))
    simp at haccepts

end TektonPipeline.Spire
