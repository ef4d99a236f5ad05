import TektonPipeline.Pipeline.EnumValidation

/-! Which lists of parameters pass the comparison of the enums of a pipeline with those of a task.
The loop goes through the parameters in their order, and one that has nothing to compare ends
it. -/

namespace TektonPipeline.Pipeline
open Api TaskRunReconciler

section
variable (pipelineParamSpecs : List ParamSpec) (rt : ResolvedTask) (p : Param)

def MalformedReference : Prop :=
  (extractVariablesFromString p.value.stringVal "params").errString ≠ ""

/-- The value refers to one parameter of the pipeline, of this name, and to no other. -/
def RefersTo (name : String) : Prop :=
  ¬ MalformedReference p ∧ ∃ v, (extractVariablesFromString p.value.stringVal "params").vars = [v] ∧
    trimArrayIndex v = name

/-- The two parameters whose enums are to be compared: the one of the pipeline is a string, the
one of the task has an enum. -/
def Comparable (pipelineParam taskParam : ParamSpec) : Prop :=
  ∃ name, RefersTo p name ∧ getParamFromName name pipelineParamSpecs = some pipelineParam ∧
    getParamFromName p.name rt.params = some taskParam ∧
    pipelineParam.type = .string ∧ taskParam.enum ≠ []

def ViolatesEnum : Prop :=
  ∃ pipelineParam taskParam, Comparable pipelineParamSpecs rt p pipelineParam taskParam ∧
    ¬ (pipelineParam.enum ≠ [] ∧ pipelineParam.enum ⊆ taskParam.enum)

def EndsCheck : Prop :=
  (∃ name, RefersTo p name) ∧
    ¬ ∃ pipelineParam taskParam, Comparable pipelineParamSpecs rt p pipelineParam taskParam

end

theorem isSubset_iff {pipelineEnum taskEnum : List String} :
    isSubset pipelineEnum taskEnum = true ↔ pipelineEnum ⊆ taskEnum := by
  simp [isSubset, List.subset_def]

section
variable {pipelineParamSpecs : List ParamSpec} {rt : ResolvedTask} {p : Param} {ps : Params}

theorem RefersTo.unique {name name' : String} (h : RefersTo p name) (h' : RefersTo p name') :
    name = name' := by
  obtain ⟨-, v, hv, rfl⟩ := h
  obtain ⟨-, v', hv', rfl⟩ := h'
  rw [hv] at hv'
  rw [List.singleton_inj.mp hv']

theorem Comparable.unique {pp pp' tp tp' : ParamSpec} (h : Comparable pipelineParamSpecs rt p pp tp)
    (h' : Comparable pipelineParamSpecs rt p pp' tp') : pp = pp' ∧ tp = tp' := by
  obtain ⟨name, hname, hpp, htp, -⟩ := h
  obtain ⟨name', hname', hpp', htp', -⟩ := h'
  rw [hname.unique hname', hpp'] at hpp
  rw [htp'] at htp
  exact ⟨(Option.some.inj hpp).symm, (Option.some.inj htp).symm⟩

theorem validateEnumSubset_of_malformed (h : MalformedReference p) :
    validateEnumSubset pipelineParamSpecs rt (p :: ps) ≠ none := by
  have herr : (extractVariablesFromString p.value.stringVal "params").errString ≠ "" := h
  rw [validateEnumSubset]
  simp [herr]

theorem validateEnumSubset_of_endsCheck (h : EndsCheck pipelineParamSpecs rt p) :
    validateEnumSubset pipelineParamSpecs rt (p :: ps) = none := by
  obtain ⟨⟨name, hrefers⟩, hcomp⟩ := h
  obtain ⟨herr, v, hv, rfl⟩ := id hrefers
  rw [validateEnumSubset]
  simp only [not_not.mp herr, hv]
  rw [if_neg (by simp)]
  cases hpp : getParamFromName (trimArrayIndex v) pipelineParamSpecs with
  | none => rfl
  | some pp =>
    cases htp : getParamFromName p.name rt.params with
    | none => rfl
    | some tp =>
      refine if_pos (Decidable.or_iff_not_imp_left.mpr fun hstring => ?_)
      rw [List.isEmpty_iff]
      by_contra henum
      exact hcomp ⟨pp, tp, _, hrefers, hpp, htp, not_not.mp hstring, henum⟩

theorem validateEnumSubset_of_comparable {pp tp : ParamSpec}
    (h : Comparable pipelineParamSpecs rt p pp tp) :
    validateEnumSubset pipelineParamSpecs rt (p :: ps) = none ↔
      (pp.enum ≠ [] ∧ pp.enum ⊆ tp.enum) ∧ validateEnumSubset pipelineParamSpecs rt ps = none := by
  obtain ⟨name, ⟨herr, v, hv, rfl⟩, hpp, htp, hstring, henum⟩ := h
  rw [validateEnumSubset]
  simp only [not_not.mp herr, hv, hpp, htp]
  rw [if_neg (by simp)]
  by_cases hempty : pp.enum = []
  · simp [hstring, henum, hempty]
  · by_cases hsub : pp.enum ⊆ tp.enum
    · simp [hstring, henum, hempty, isSubset_iff.mpr hsub, hsub]
    · have hfalse : isSubset pp.enum tp.enum = false := by
        rw [← Bool.not_eq_true, isSubset_iff]
        exact hsub
      simp [hstring, henum, hempty, hfalse, hsub]

theorem validateEnumSubset_of_other (herr : ¬ MalformedReference p)
    (h : ¬ ∃ name, RefersTo p name) : validateEnumSubset pipelineParamSpecs rt (p :: ps) =
      validateEnumSubset pipelineParamSpecs rt ps := by
  rw [validateEnumSubset]
  simp only [not_not.mp herr]
  rw [if_neg (by simp)]
  split
  · rename_i v hv
    exact absurd ⟨_, herr, v, hv, rfl⟩ h
  · rfl

theorem validateEnumSubset_cons : validateEnumSubset pipelineParamSpecs rt (p :: ps) = none ↔
      EndsCheck pipelineParamSpecs rt p ∨
        (¬ MalformedReference p ∧ ¬ ViolatesEnum pipelineParamSpecs rt p) ∧
          validateEnumSubset pipelineParamSpecs rt ps = none := by
  by_cases hends : EndsCheck pipelineParamSpecs rt p
  · exact iff_of_true (validateEnumSubset_of_endsCheck hends) (.inl hends)
  rw [or_iff_right hends]
  by_cases herr : MalformedReference p
  · exact iff_of_false (validateEnumSubset_of_malformed herr) fun h => h.1.1 herr
  rw [and_iff_right herr]
  by_cases hrefers : ∃ name, RefersTo p name
  · obtain ⟨pp, tp, hcomp⟩ := not_not.mp fun hnone => hends ⟨hrefers, hnone⟩
    rw [validateEnumSubset_of_comparable hcomp]
    refine and_congr_left fun _ => ⟨?_, fun h => ?_⟩
    · rintro hsub ⟨pp', tp', hcomp', hviolates⟩
      obtain ⟨rfl, rfl⟩ := hcomp.unique hcomp'
      exact hviolates hsub
    · by_contra hsub
      exact h ⟨pp, tp, hcomp, hsub⟩
  · rw [validateEnumSubset_of_other herr hrefers]
    have hviolates : ¬ ViolatesEnum pipelineParamSpecs rt p :=
      fun ⟨_, _, ⟨name, hname, _⟩, _⟩ => hrefers ⟨name, hname⟩
    exact (and_iff_right hviolates).symm

/-- A list passes if none of its parameters is at fault, or if one that ends the check stands
before all that are. -/
theorem validateEnumSubset_eq_none : validateEnumSubset pipelineParamSpecs rt ps = none ↔
      (∀ p ∈ ps, ¬ MalformedReference p ∧ ¬ ViolatesEnum pipelineParamSpecs rt p) ∨
        ∃ before p after, ps = before ++ p :: after ∧ EndsCheck pipelineParamSpecs rt p ∧
          ∀ q ∈ before, ¬ MalformedReference q ∧ ¬ ViolatesEnum pipelineParamSpecs rt q := by
  induction ps with
  | nil => exact iff_of_true rfl (.inl (by simp))
  | cons q ps ih =>
    rw [validateEnumSubset_cons, ih]
    constructor
    · rintro (hends | ⟨hq, hall | ⟨before, p, after, rfl, hends, hbefore⟩⟩)
      · exact .inr ⟨[], q, ps, rfl, hends, by simp⟩
      · exact .inl (List.forall_mem_cons.mpr ⟨hq, hall⟩)
      · exact .inr ⟨q :: before, p, after, rfl, hends, List.forall_mem_cons.mpr ⟨hq, hbefore⟩⟩
    · rintro (hall | ⟨before, p, after, heq, hends, hbefore⟩)
      · obtain ⟨hq, hps⟩ := List.forall_mem_cons.mp hall
        exact .inr ⟨hq, .inl hps⟩
      · cases before with
        | nil =>
          obtain ⟨rfl, rfl⟩ := List.cons.inj heq
          exact .inl hends
        | cons b before =>
          obtain ⟨rfl, rfl⟩ := List.cons.inj heq
          obtain ⟨hq, hrest⟩ := List.forall_mem_cons.mp hbefore
          exact .inr ⟨hq, .inr ⟨before, p, after, rfl, hends, hrest⟩⟩

end

section
variable (pipelineTaskParams : Params) (pipelineParamSpecs : List ParamSpec) (rt : ResolvedTask)

/-- In every order of the parameters nil is returned if and only if no enum is violated. -/
def ExactEnumCheck : Prop :=
  ∀ params : Params, params.Perm pipelineTaskParams →
    (validateParamEnumSubset params pipelineParamSpecs (some rt) = none ↔
      ∀ p ∈ pipelineTaskParams, ¬ ViolatesEnum pipelineParamSpecs rt p)

variable {pipelineTaskParams pipelineParamSpecs rt}

/-- The check is exact for the lists with a violated enum that have no parameter to end the loop,
and for the others if no reference is malformed. -/
theorem exactEnumCheck_iff : ExactEnumCheck pipelineTaskParams pipelineParamSpecs rt ↔
      ((∃ p ∈ pipelineTaskParams, ViolatesEnum pipelineParamSpecs rt p) →
        ∀ p ∈ pipelineTaskParams, ¬ EndsCheck pipelineParamSpecs rt p) ∧
      ((∀ p ∈ pipelineTaskParams, ¬ ViolatesEnum pipelineParamSpecs rt p) →
        ∀ p ∈ pipelineTaskParams, ¬ MalformedReference p) := by
  constructor
  · -- a parameter in question is moved to the front
    intro hexact
    refine ⟨fun ⟨v, hv, hviolates⟩ p hp hends => ?_, fun hnone p hp herr => ?_⟩
    · have hnil : validateParamEnumSubset (p :: pipelineTaskParams.erase p) pipelineParamSpecs
          (some rt) = none := validateEnumSubset_of_endsCheck hends
      exact (hexact _ (List.perm_cons_erase hp).symm).mp hnil v hv hviolates
    · exact validateEnumSubset_of_malformed herr
        ((hexact _ (List.perm_cons_erase hp).symm).mpr hnone)
  · rintro ⟨hstops, hwell⟩ params hperm
    rw [validateParamEnumSubset, validateEnumSubset_eq_none]
    constructor
    · rintro (hall | ⟨before, p, after, rfl, hends, -⟩) q hq hviolates
      · exact (hall q (hperm.mem_iff.mpr hq)).2 hviolates
      · exact hstops ⟨q, hq, hviolates⟩ p (hperm.mem_iff.mp (by simp)) hends
    · intro hnone
      exact .inl fun p hp =>
        ⟨hwell hnone p (hperm.mem_iff.mp hp), hnone p (hperm.mem_iff.mp hp)⟩

end

def modeParam : Param := ⟨"mode", { stringVal := "$(params.mode)" }⟩

def siteParam : Param := ⟨"site", { stringVal := "$(params.site)" }⟩

def shipParams : List ParamSpec :=
  [{ name := "mode" }, { name := "site", enum := ["eu", "test"] }]

/-- Any mode is allowed, but only two sites. -/
def shipTask : ResolvedTask :=
  ⟨"ship", [{ name := "mode" }, { name := "site", enum := ["eu", "us"] }]⟩

/-- The site the task does not allow is found only if it stands before the mode, which may have
any value. -/
theorem violation_behind_free_param :
    validateParamEnumSubset [modeParam, siteParam] shipParams (some shipTask) = none ∧
    validateParamEnumSubset [siteParam, modeParam] shipParams (some shipTask) =
      some ("pipeline param \"site\" enum: [eu test] is not a subset of the referenced in " ++
        "\"ship\" task param enum: [eu us]") ∧
    ¬ ExactEnumCheck [modeParam, siteParam] shipParams shipTask := by
  have hnil : validateParamEnumSubset [modeParam, siteParam] shipParams (some shipTask) = none := by
    decide +kernel
  have hfound : validateParamEnumSubset [siteParam, modeParam] shipParams (some shipTask) =
      some ("pipeline param \"site\" enum: [eu test] is not a subset of the referenced in " ++
        "\"ship\" task param enum: [eu us]") := by
    decide +kernel
  refine ⟨hnil, hfound, fun hexact => ?_⟩
  have hnone := (hexact _ (List.Perm.swap modeParam siteParam [])).mpr
    ((hexact _ (List.Perm.refl _)).mp hnil)
  rw [hfound] at hnone
  cases hnone

end TektonPipeline.Pipeline
