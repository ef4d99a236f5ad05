import TektonPipeline.Api.Params
import TektonPipeline.Library.Assoc

/-! The references of a PipelineRun to its runs, and how those that are missing are recovered
from the runs that the informer lists. References are matched by name in one map, which is read
out in any order. -/

namespace TektonPipeline.ChildRefs
open Api List Assoc

structure ChildStatusReference where
  apiVersion : String
  kind : String
  name : String
  displayName : String := ""
  pipelineTaskName : String
  whenExpressions : WhenExpressions := []
  deriving DecidableEq

structure OwnerReference where
  uid : String
  controller : Bool := false
  deriving DecidableEq

/-- A TaskRun or a CustomRun; `pipelineTask` is the label of that name. -/
structure Run where
  name : String
  pipelineTask : String
  ownerReferences : List OwnerReference
  deriving DecidableEq

def isOwnedBy (uid : String) (r : Run) : Bool :=
  match r.ownerReferences with
  | [] => false
  | o :: _ => o.uid = uid

def isControlledBy (uid : String) (r : Run) : Bool :=
  (r.ownerReferences.find? (·.controller)).any fun o => o.uid = uid

def taskRunReference (r : Run) : ChildStatusReference :=
  { apiVersion := "tekton.dev/v1", kind := "TaskRun", name := r.name
    pipelineTaskName := r.pipelineTask }

def customRunReference (r : Run) : ChildStatusReference :=
  { apiVersion := "tekton.dev/v1beta1", kind := "CustomRun", name := r.name
    pipelineTaskName := r.pipelineTask }

def references (keep : Run → Bool) (trs customRuns : List Run) : List ChildStatusReference :=
  (trs.filter keep).map taskRunReference ++ (customRuns.filter keep).map customRunReference

/-- Of the references in the status the last of a name, and of those that are found the first,
if there is none. -/
def childRefByName (refs found : List ChildStatusReference) :
    List (String × ChildStatusReference) :=
  found.foldl (fun m r => Assoc.upsert m r.name id r)
    (Assoc.ofWrites (refs.map fun r => (r.name, r)))

/-- The references after `updatePipelineRunStatusFromChildRefs`, for some order of the map. -/
def Updated (uid : String) (refs : List ChildStatusReference) (trs customRuns : List Run)
    (newChildRefs : List ChildStatusReference) : Prop :=
  if trs = [] ∧ customRuns = [] then newChildRefs = refs
  else newChildRefs.Perm
    ((childRefByName refs (references (isOwnedBy uid) trs customRuns)).map (·.2))

def SameChild (r r' : ChildStatusReference) : Prop := r.kind = r'.kind ∧ r.name = r'.name

instance (r r' : ChildStatusReference) : Decidable (SameChild r r') :=
  inferInstanceAs (Decidable (_ ∧ _))

/-- Nothing is changed, and there is one new reference for each child that had none. -/
def Recovers (refs children newChildRefs : List ChildStatusReference) : Prop :=
  ∃ added, newChildRefs = refs ++ added ∧
    (∀ c ∈ children, (∀ r ∈ refs, ¬ SameChild r c) → (added.filter (SameChild · c)).length = 1) ∧
    ∀ a ∈ added, a ∈ children ∧ ∀ r ∈ refs, ¬ SameChild r a

section
variable {refs found : List ChildStatusReference}

theorem lookup_childRefByName (k : String) :
    (childRefByName refs found).lookup k = (refs.reverse ++ found).find? fun r => r.name = k := by
  have hrefs : (Assoc.ofWrites (refs.map fun r => (r.name, r))).lookup k =
      refs.reverse.find? fun r => r.name = k :=
    (lookup_ofWrites_key _ _ refs k).trans Option.map_id'
  rw [childRefByName, find?_append, ← hrefs]
  generalize Assoc.ofWrites (refs.map fun r => (r.name, r)) = m
  induction found generalizing m with
  | nil => simp
  | cons r rest ih =>
    rw [foldl_cons, ih, lookup_upsert, find?_cons]
    by_cases hk : k = r.name
    · subst hk
      cases m.lookup r.name <;> simp
    · simp [hk, Ne.symm hk]

theorem nodup_childRefByName : ((childRefByName refs found).map (·.1)).Nodup := by
  have hrefs := nodup_ofWrites (refs.map fun r => (r.name, r))
  rw [childRefByName]
  generalize Assoc.ofWrites (refs.map fun r => (r.name, r)) = m at hrefs ⊢
  induction found generalizing m with
  | nil => exact hrefs
  | cons r rest ih => exact ih _ (nodup_upsert hrefs)

theorem mem_childRefByName {v : ChildStatusReference} : v ∈ (childRefByName refs found).map (·.2) ↔
      (refs.reverse ++ found).find? (fun r => r.name = v.name) = some v := by
  rw [← lookup_childRefByName]
  constructor
  · intro h
    obtain ⟨⟨k, v'⟩, hmem, rfl⟩ := mem_map.mp h
    have hlookup := lookup_of_mem nodup_childRefByName hmem
    have hname : v'.name = k := by
      rw [lookup_childRefByName] at hlookup
      simpa using find?_some hlookup
    rw [hname]
    exact hlookup
  · intro h
    exact mem_map.mpr ⟨_, mem_of_lookup h, rfl⟩

theorem nodup_names : (((childRefByName refs found).map (·.2)).map (·.name)).Nodup := by
  have hnames : ((childRefByName refs found).map (·.2)).map (·.name) =
      (childRefByName refs found).map (·.1) := by
    rw [map_map]
    refine map_congr_left fun e he => ?_
    have hlookup := lookup_of_mem nodup_childRefByName he
    rw [lookup_childRefByName] at hlookup
    simpa using find?_some hlookup
  rw [hnames]
  exact nodup_childRefByName

theorem exists_name {r : ChildStatusReference} (hr : r ∈ refs ++ found) :
    ∃ v ∈ (childRefByName refs found).map (·.2), v.name = r.name := by
  cases hfind : (refs.reverse ++ found).find? fun r' => r'.name = r.name with
  | none =>
    have hr' : r ∈ refs.reverse ++ found := by simpa using hr
    exact absurd (decide_eq_true rfl) (find?_eq_none.mp hfind r hr')
  | some v =>
    have hname : v.name = r.name := by simpa using find?_some hfind
    exact ⟨v, mem_childRefByName.mpr (hname ▸ hfind), hname⟩

theorem perm_childRefByName {newChildRefs : List ChildStatusReference}
    (h : newChildRefs.Perm ((childRefByName refs found).map (·.2))) :
    ((childRefByName newChildRefs found).map (·.2)).Perm newChildRefs := by
  have hnodup : (newChildRefs.map (·.name)).Nodup := (h.map _).nodup_iff.mpr nodup_names
  refine (perm_ext_iff_of_nodup nodup_names.of_map hnodup.of_map).mpr fun v => ?_
  rw [mem_childRefByName, find?_append]
  cases hfind : newChildRefs.reverse.find? fun r => r.name = v.name with
  | some w =>
    have hw : w ∈ newChildRefs := by simpa using mem_of_find?_eq_some hfind
    have hname : w.name = v.name := by simpa using find?_some hfind
    rw [Option.some_or, Option.some.injEq]
    exact ⟨fun heq => heq ▸ hw, fun hv => inj_on_of_nodup_map hnodup hw hv hname⟩
  | none =>
    have hnone : ∀ w ∈ newChildRefs, w.name ≠ v.name := by
      intro w hw heq
      exact find?_eq_none.mp hfind w (mem_reverse.mpr hw) (decide_eq_true heq)
    rw [Option.none_or]
    refine iff_of_false (fun hv => ?_) fun hv => hnone v hv rfl
    have hmem := mem_append_right refs (mem_of_find?_eq_some hv)
    obtain ⟨w, hw, hname⟩ := exists_name hmem
    exact hnone w (h.mem_iff.mpr hw) hname

end

/-- There is at most one reference, and it stands for all runs: the one that exists, or that of
the first run that is found. -/
def OnlyChild (refs found children : List ChildStatusReference) : Prop :=
  refs.length ≤ 1 ∧
    match refs ++ found with
    | [] => children = []
    | f :: rest => (∀ r ∈ rest, r.name = f.name) ∧ (∀ c ∈ children, SameChild f c) ∧
        (refs = [] → f ∈ children)

section
variable {refs found children : List ChildStatusReference}

theorem length_le_one_of_stable {l : List ChildStatusReference} (hnodup : l.Nodup)
    (hstable : ∀ l', l'.Perm l → l' = l) : l.length ≤ 1 := by
  cases l with
  | nil => exact Nat.zero_le 1
  | cons a l =>
    cases l with
    | nil => exact le_refl 1
    | cons b rest =>
      have hswap := hstable (b :: a :: rest) (.swap a b rest)
      rw [(List.cons.inj hswap).1] at hnodup
      simp at hnodup

theorem eq_toList_head? {l : List ChildStatusReference} (h : l.length ≤ 1) :
    l = l.head?.toList := by
  cases l with
  | nil => rfl
  | cons a l => rw [length_eq_zero_iff.mp (Nat.le_zero.mp (Nat.le_of_succ_le_succ h))]; rfl

theorem onlyChild_of_recovers {v? : Option ChildStatusReference}
    (hvalues : (childRefByName refs found).map (·.2) = v?.toList)
    (h : Recovers refs children v?.toList) : OnlyChild refs found children := by
  obtain ⟨added, hadded, hmissing, hchildren⟩ := h
  have hnames : ∀ r ∈ refs ++ found, ∃ v, v? = some v ∧ v.name = r.name := by
    intro r hr
    obtain ⟨v, hv, hname⟩ := exists_name hr
    rw [hvalues, Option.mem_toList] at hv
    exact ⟨v, hv, hname⟩
  have hfound : ∀ v, v? = some v →
      (refs.reverse ++ found).find? (fun r => r.name = v.name) = some v := by
    intro v hv
    rw [← mem_childRefByName, hvalues, hv]
    exact mem_singleton_self v
  cases refs with
  | nil =>
    refine ⟨Nat.zero_le _, ?_⟩
    cases found with
    | nil =>
      refine eq_nil_iff_forall_not_mem.mpr fun c hc => ?_
      cases v? with
      | none =>
        have hone := hmissing c hc (fun r hr => by cases hr)
        rw [← hadded.trans (nil_append _)] at hone
        cases hone
      | some v => cases hfound v rfl
    | cons f rest =>
      obtain ⟨v, rfl, hname⟩ := hnames f mem_cons_self
      obtain rfl : f = v := by simpa [hname] using hfound v rfl
      have hone : added = [f] := hadded.symm
      subst hone
      refine ⟨fun r hr => ?_, fun c hc => ?_, fun _ => (hchildren f mem_cons_self).1⟩
      · obtain ⟨v, hv, hname⟩ := hnames r (mem_cons_of_mem _ hr)
        rw [Option.some.inj hv, hname]
      · have hone := hmissing c hc (fun r hr => by cases hr)
        by_contra hnot
        simp [hnot] at hone
  | cons a l =>
    cases v? with
    | none => cases hadded
    | some v =>
      obtain ⟨rfl, hnil⟩ := List.cons.inj hadded
      obtain ⟨rfl, rfl⟩ := append_eq_nil_iff.mp hnil.symm
      refine ⟨le_refl _, fun r hr => ?_, fun c hc => ?_, fun h => (by cases h)⟩
      · obtain ⟨w, hw, hname⟩ := hnames r (mem_cons_of_mem _ hr)
        rw [Option.some.inj hw, hname]
      · by_contra hnot
        have hone := hmissing c hc (by simpa using hnot)
        cases hone

theorem find_of_names {f v : ChildStatusReference} {rest : List ChildStatusReference}
    (hnames : ∀ r ∈ rest, r.name = f.name) :
    (f :: rest).find? (fun r => r.name = v.name) = some v ↔ v = f := by
  by_cases hv : f.name = v.name
  · simp [hv, eq_comm]
  · refine iff_of_false (fun h => hv ?_) fun h => hv (h ▸ rfl)
    rw [find?_cons_of_neg (by simpa using hv)] at h
    exact (hnames v (mem_of_find?_eq_some h)).symm

theorem OnlyChild.recovers (h : OnlyChild refs found children) :
    ∃ v? : Option ChildStatusReference, (childRefByName refs found).map (·.2) = v?.toList ∧
      Recovers refs children v?.toList := by
  have hvalues : ∀ {f rest}, refs.reverse ++ found = f :: rest → (∀ r ∈ rest, r.name = f.name) →
      (childRefByName refs found).map (·.2) = [f] := by
    intro f rest hcons hnames
    refine perm_singleton.mp ((perm_ext_iff_of_nodup nodup_names.of_map
      (nodup_singleton f)).mpr fun v => ?_)
    rw [mem_childRefByName, hcons, find_of_names hnames, mem_singleton]
  obtain ⟨hlength, hall⟩ := h
  rw [eq_toList_head? hlength] at hall hvalues ⊢
  generalize refs.head? = first? at hall hvalues ⊢
  cases first? with
  | none =>
    cases found with
    | nil => exact ⟨none, rfl, [], rfl, by simp [show children = [] from hall], by simp⟩
    | cons f rest =>
      obtain ⟨hnames, hsame, hfirst⟩ := hall
      refine ⟨some f, hvalues rfl hnames, [f], rfl, fun c hc _ => ?_, by simp [hfirst rfl]⟩
      simp [hsame c hc]
  | some f =>
    obtain ⟨hnames, hsame, -⟩ := hall
    refine ⟨some f, hvalues rfl hnames, [], rfl, fun c hc hmissing => ?_, by simp⟩
    exact absurd (hsame c hc) (hmissing f mem_cons_self)

end

/-- Children are recovered in place, once and for all, exactly if no runs are listed or there is
only one child. Two references may change places, a CustomRun with the name of a TaskRun stays
without one, and so does a run that names its controller after another owner. -/
theorem childRefs_recovered_iff (uid : String) (refs : List ChildStatusReference)
    (trs customRuns : List Run) : (∀ newChildRefs, Updated uid refs trs customRuns newChildRefs →
      Recovers refs (references (isControlledBy uid) trs customRuns) newChildRefs ∧
      ∀ again, Updated uid newChildRefs trs customRuns again → again = newChildRefs) ↔
    (trs = [] ∧ customRuns = []) ∨ OnlyChild refs (references (isOwnedBy uid) trs customRuns)
        (references (isControlledBy uid) trs customRuns) := by
  unfold Updated
  by_cases hnone : trs = [] ∧ customRuns = []
  · refine iff_of_true ?_ (.inl hnone)
    intro newChildRefs hsame
    rw [if_pos hnone] at hsame
    refine ⟨⟨[], by simp [hsame], ?_, by simp⟩, fun again hagain => by rwa [if_pos hnone] at hagain⟩
    simp [references, hnone]
  · simp only [hnone, false_or]
    generalize references (isOwnedBy uid) trs customRuns = found
    generalize references (isControlledBy uid) trs customRuns = children
    constructor
    · intro h
      obtain ⟨hrecovers, hstable⟩ := h _ (.refl _)
      have hlength := length_le_one_of_stable nodup_names.of_map fun l' hperm =>
        hstable l' (hperm.trans (perm_childRefByName (.refl _)).symm)
      have hvalues := eq_toList_head? hlength
      exact onlyChild_of_recovers hvalues (hvalues ▸ hrecovers)
    · intro h newChildRefs hperm
      obtain ⟨v?, hvalues, hrecovers⟩ := h.recovers
      have hunique : ∀ l : List ChildStatusReference, l.Perm v?.toList → l = v?.toList := by
        intro l hl
        cases v? with
        | none => exact hl.eq_nil
        | some v => exact perm_singleton.mp hl
      have hsame := hunique newChildRefs (hvalues ▸ hperm)
      refine ⟨hsame ▸ hrecovers, fun again hagain => ?_⟩
      rw [hsame]
      exact hunique again (hsame ▸ hagain.trans (perm_childRefByName hperm))

def scanRun : Run := ⟨"release-scan", "scan", [⟨"release", true⟩]⟩

/-- The CustomRun has the name of the TaskRun, and no reference is added for it. The two
references that there are may change places. -/
theorem customRun_not_recovered :
    ¬ (∀ newChildRefs, Updated "release" [] [scanRun] [scanRun] newChildRefs →
      Recovers [] (references (isControlledBy "release") [scanRun] [scanRun]) newChildRefs) ∧
    Updated "release"
      [taskRunReference scanRun, taskRunReference ⟨"release-sign", "sign", []⟩] [scanRun]
      [] [taskRunReference ⟨"release-sign", "sign", []⟩, taskRunReference scanRun] := by
  constructor
  · intro h
    obtain ⟨added, hadded, hmissing, -⟩ := h [taskRunReference scanRun] (List.Perm.refl _)
    have hone := hmissing (customRunReference scanRun) (by decide) (fun r hr => by cases hr)
    obtain rfl : added = [taskRunReference scanRun] := hadded.symm
    exact absurd hone (by decide)
  · exact List.Perm.swap _ _ _

end TektonPipeline.ChildRefs
