import TektonPipeline.Pod.Results

/-! Merging artifacts as a union of what stands under each name. -/

namespace TektonPipeline.PodStatus
open List Assoc

/-- `Merge`, with its maps read in any order. -/
def Artifacts.Merges (a another a' : Artifacts) : Prop :=
  a'.inputs ~ (a.merge another).inputs ∧ a'.outputs ~ (a.merge another).outputs

section
variable {P : Artifact → Prop} {as bs merged : List Artifact} {name : String}

/-- An entry of the name has the property. -/
def Stands (P : Artifact → Prop) (as : List Artifact) (name : String) : Prop :=
  ∃ a ∈ as, a.name = name ∧ P a

instance [DecidablePred P] : Decidable (Stands P as name) :=
  inferInstanceAs (Decidable (∃ a ∈ as, a.name = name ∧ P a))

/-- The property stands with the last of the entries of the name. -/
def LastStands (P : Artifact → Prop) (as : List Artifact) (name : String) : Prop :=
  ∃ a, (as.reverse.find? fun a => a.name == name) = some a ∧ P a

/-- What an entry has, the last entry of its name or one among the others has too. -/
def Covered (P : Artifact → Prop) (as bs : List Artifact) : Prop :=
  ∀ name, Stands P as name → LastStands P as name ∨ Stands P bs name

theorem LastStands.stands (h : LastStands P as name) : Stands P as name := by
  obtain ⟨a, ha, hP⟩ := h
  exact ⟨a, mem_reverse.mp (mem_of_find?_eq_some ha), by simpa using find?_some ha, hP⟩

theorem stands_perm (h : as ~ bs) : Stands P as name ↔ Stands P bs name := by
  simp [Stands, h.mem_iff]

/-- The only entry of a name has what stands under it. -/
theorem Stands.of_nodup (h : Stands P as name) (hnames : (as.map (·.name)).Nodup) {a : Artifact}
    (ha : a ∈ as) (hname : a.name = name) : P a := by
  obtain ⟨a', ha', hname', hP⟩ := h
  rwa [inj_on_of_nodup_map hnames ha ha' (hname.trans hname'.symm)]

/-- No name occurs twice, and the values under a name are those under it in one or the other. -/
structure IsUnion (as bs merged : List Artifact) : Prop where
  nodup : (merged.map (·.name)).Nodup
  values : ∀ name v, Stands (v ∈ ·.values) merged name ↔
    Stands (v ∈ ·.values) as name ∨ Stands (v ∈ ·.values) bs name

theorem covered_iff (h : ∀ name, Stands P merged name ↔ LastStands P as name ∨ Stands P bs name) :
    (∀ name, Stands P as name ∨ Stands P bs name → Stands P merged name) ↔ Covered P as bs := by
  simp only [h]
  constructor
  · intro hunion name ha
    exact hunion name (.inl ha)
  · rintro hcovered name (ha | hb)
    · exact hcovered name ha
    · exact .inr hb

end

theorem mem_addValues {vs ws : List ArtifactValue} {v : ArtifactValue} :
    v ∈ addValues vs ws ↔ v ∈ vs ∨ v ∈ ws := by
  induction ws generalizing vs with
  | nil => simp [addValues]
  | cons w ws ih =>
    have hstep : addValues vs (w :: ws) = addValues (if w ∈ vs then vs else vs ++ [w]) ws := rfl
    rw [hstep, ih]
    by_cases hw : w ∈ vs
    · rw [if_pos hw, mem_cons]
      grind
    · simp [hw, or_assoc]

theorem addValues_of_subset {vs ws : List ArtifactValue} (h : ∀ v ∈ ws, v ∈ vs) :
    addValues vs ws = vs := by
  induction ws with
  | nil => rfl
  | cons w ws ih =>
    rw [forall_mem_cons] at h
    simpa [addValues, h.1] using ih h.2

/-- How the inputs or the outputs are gathered in a map by their names and read from it. -/
structure Side (ν : Type) where
  value : Artifact → ν
  add : Artifact → ν → ν
  new : Artifact → ν
  out : String × ν → Artifact
  out_name : ∀ e, (out e).name = e.1
  out_value : ∀ e, out (e.1, value (out e)) = out e

namespace Side
variable {ν : Type} (s : Side ν)

def gather (as bs : List Artifact) : List (String × ν) :=
  bs.foldl (fun m v => upsert m v.name (s.add v) (s.new v))
    (ofWrites (as.map fun v => (v.name, s.value v)))

def merge (as bs : List Artifact) : List Artifact := (s.gather as bs).map s.out

/-- A property that an entry has once one of those gathered in it has it. -/
structure Joins (P : Artifact → Prop) : Prop where
  value : ∀ name a, P (s.out (name, s.value a)) ↔ P a
  add : ∀ name a x, P (s.out (name, s.add a x)) ↔ P (s.out (name, x)) ∨ P a
  new : ∀ name a, P (s.out (name, s.new a)) ↔ P a

variable {s} {P : Artifact → Prop} {as bs merged : List Artifact} {name : String}

theorem joins_true : s.Joins fun _ => True :=
  ⟨fun _ _ => .rfl, fun _ _ _ => by simp, fun _ _ => .rfl⟩

theorem exists_gather_iff {P : ν → Prop} {Q : Artifact → Prop} (hvalue : ∀ a, P (s.value a) ↔ Q a)
    (hadd : ∀ a, a.name = name → ∀ x, P (s.add a x) ↔ P x ∨ Q a)
    (hnew : ∀ a, a.name = name → (P (s.new a) ↔ Q a)) :
    (∃ x, (s.gather as bs).lookup name = some x ∧ P x) ↔
      LastStands Q as name ∨ Stands Q bs name := by
  rw [gather, exists_lookup_foldl_upsert hadd hnew, lookup_ofWrites_key, LastStands, Stands]
  cases as.reverse.find? fun a => a.name == name <;> simp [hvalue]

theorem nodup_gather : ((s.gather as bs).map (·.1)).Nodup := nodup_foldl_upsert (nodup_ofWrites _)

variable (h : merged ~ s.merge as bs)
include h

theorem nodup_names : (merged.map (·.name)).Nodup := by
  have hkeys : (s.merge as bs).map (·.name) = (s.gather as bs).map (·.1) := by
    rw [merge, map_map]
    exact map_congr_left fun e _ => s.out_name e
  rw [(h.map _).nodup_iff, hkeys]
  exact nodup_gather

theorem stands_iff (hP : s.Joins P) (name : String) :
    Stands P merged name ↔ LastStands P as name ∨ Stands P bs name := by
  rw [stands_perm h, ← exists_gather_iff (s := s) (P := fun x => P (s.out (name, x)))
    (hP.value name) (fun a _ => hP.add name a) fun a _ => hP.new name a]
  constructor
  · rintro ⟨a, ha, hname, hPa⟩
    obtain ⟨e, he, rfl⟩ := mem_map.mp ha
    obtain rfl : e.1 = name := (s.out_name e).symm.trans hname
    exact ⟨e.2, lookup_of_mem nodup_gather he, hPa⟩
  · rintro ⟨x, hx, hPx⟩
    exact ⟨_, mem_map_of_mem (mem_of_lookup hx), s.out_name _, hPx⟩

theorem isUnion_iff (hP : ∀ v, s.Joins (v ∈ ·.values)) :
    IsUnion as bs merged ↔ ∀ v, Covered (v ∈ ·.values) as bs := by
  have hcovered := fun v => covered_iff (stands_iff h (hP v))
  constructor
  · intro hunion v
    exact (hcovered v).mp fun name => (hunion.values name v).mpr
  · intro hall
    refine ⟨nodup_names h, fun name v => ⟨fun hv => ?_, (hcovered v).mpr (hall v) name⟩⟩
    exact ((stands_iff h (hP v) name).mp hv).imp_left LastStands.stands

/-- What is gathered again is there already. -/
theorem merge_again
    (hadd : ∀ a b, (∀ P, s.Joins P → P b → P a) → s.add b (s.value a) = s.value a) :
    s.merge merged bs = merged := by
  have hnames := nodup_names h
  have hkeys : ((merged.map fun a => (a.name, s.value a)).map (·.1)).Nodup := by
    simpa [Function.comp_def] using hnames
  have hgather : s.gather merged bs = merged.map fun a => (a.name, s.value a) := by
    rw [gather, ofWrites_of_nodup hkeys]
    refine foldl_upsert_eq_self hkeys fun b hb => ?_
    obtain ⟨a, ha, hname, -⟩ := (stands_iff h joins_true b.name).mpr (.inr ⟨b, hb, rfl, trivial⟩)
    refine ⟨s.value a, lookup_of_mem hkeys (mem_map.mpr ⟨a, ha, by rw [hname]⟩), ?_⟩
    refine hadd a b fun P hP hPb => ?_
    exact ((stands_iff h hP b.name).mpr (.inr ⟨b, hb, rfl, hPb⟩)).of_nodup hnames ha hname
  rw [merge, hgather, map_map]
  refine (map_congr_left fun a ha => ?_).trans (map_id merged)
  obtain ⟨e, -, rfl⟩ := mem_map.mp (h.mem_iff.mp ha)
  simpa [s.out_name] using s.out_value e

end Side

def inputSide : Side (List ArtifactValue) where
  value := (·.values)
  add v vs := addValues vs v.values
  new v := addValues [] v.values
  out e := { name := e.1, values := e.2 }
  out_name _ := rfl
  out_value _ := rfl

def addOutput (v a : Artifact) : Artifact :=
  { a with values := addValues a.values v.values, buildOutput := a.buildOutput || v.buildOutput }

def outputSide : Side Artifact where
  value v := v
  add := addOutput
  new v := addOutput v { name := v.name, buildOutput := v.buildOutput }
  out e := { e.2 with name := e.1 }
  out_name _ := rfl
  out_value _ := rfl

theorem inputSide_joins (v : ArtifactValue) : inputSide.Joins (v ∈ ·.values) :=
  ⟨fun _ _ => .rfl, fun _ _ _ => mem_addValues, fun _ _ => by simp [inputSide, mem_addValues]⟩

theorem outputSide_joins (v : ArtifactValue) : outputSide.Joins (v ∈ ·.values) :=
  ⟨fun _ _ => .rfl, fun _ _ _ => mem_addValues,
    fun _ _ => by simp [outputSide, addOutput, mem_addValues]⟩

theorem outputSide_joins_buildOutput : outputSide.Joins (·.buildOutput = true) :=
  ⟨fun _ _ => .rfl, fun _ _ _ => by simp [outputSide, addOutput],
    fun _ _ => by simp [outputSide, addOutput]⟩

theorem mergeInputs_eq (as bs : List Artifact) : mergeInputs as bs = inputSide.merge as bs := rfl

theorem mergeOutputs_eq (as bs : List Artifact) : mergeOutputs as bs = outputSide.merge as bs := by
  refine map_congr_left fun e he => ?_
  -- the key of an output is its name
  have hname : e.2.name = e.1 := by
    by_contra hne
    have hstands := (Side.exists_gather_iff (s := outputSide) (P := fun a => a.name ≠ e.1)
      (Q := fun a => a.name ≠ e.1) (fun _ => .rfl)
      (fun a ha x => by simp [outputSide, addOutput, ha])
      (fun a ha => by simp [outputSide, addOutput, ha])).mp
        ⟨e.2, lookup_of_mem Side.nodup_gather he, hne⟩
    rcases hstands.imp_left LastStands.stands with ⟨a, -, ha, hne⟩ | ⟨a, -, ha, hne⟩
    · exact hne ha
    · exact hne ha
  exact congrArg (fun n => { e.2 with name := n }) hname

theorem merge_inputs_again {as bs merged : List Artifact} (h : merged ~ mergeInputs as bs) :
    mergeInputs merged bs = merged :=
  Side.merge_again (s := inputSide) h fun _ _ hP =>
    addValues_of_subset fun v hv => hP _ (inputSide_joins v) hv

theorem merge_outputs_again {as bs merged : List Artifact} (h : merged ~ mergeOutputs as bs) :
    mergeOutputs merged bs = merged := by
  rw [mergeOutputs_eq] at h ⊢
  refine Side.merge_again h fun a b hP => ?_
  have hvalues : addValues a.values b.values = a.values :=
    addValues_of_subset fun v hv => hP _ (outputSide_joins v) hv
  have hbuild : (a.buildOutput || b.buildOutput) = a.buildOutput := by
    simpa using hP _ outputSide_joins_buildOutput
  change addOutput b a = a
  rw [addOutput, hvalues, hbuild]

/-- Merging gives a union exactly where each entry that a later one of its name replaces has
nothing that neither that one nor the other artifacts have. Merging once more gives the same
entries, in the order in which the maps are read. -/
theorem merge_isUnion_iff (a b : Artifacts) :
    (∀ a', a.Merges b a' →
      IsUnion a.inputs b.inputs a'.inputs ∧ IsUnion a.outputs b.outputs a'.outputs ∧
      (∀ name, Stands (·.buildOutput = true) a.outputs name ∨
        Stands (·.buildOutput = true) b.outputs name →
          Stands (·.buildOutput = true) a'.outputs name) ∧
      ∀ a'', a'.Merges b a'' → a''.inputs ~ a'.inputs ∧ a''.outputs ~ a'.outputs) ↔
    (∀ v, Covered (v ∈ ·.values) a.inputs b.inputs) ∧
      (∀ v, Covered (v ∈ ·.values) a.outputs b.outputs) ∧
      Covered (·.buildOutput = true) a.outputs b.outputs := by
  have hmerged : ∀ a' : Artifacts, a.Merges b a' → a'.inputs ~ inputSide.merge a.inputs b.inputs ∧
      a'.outputs ~ outputSide.merge a.outputs b.outputs := by
    intro a' h
    rw [← mergeInputs_eq, ← mergeOutputs_eq]
    exact h
  have hbuilt := fun a' h => covered_iff
    (Side.stands_iff (hmerged a' h).2 outputSide_joins_buildOutput)
  constructor
  · intro h
    have hself : a.Merges b (a.merge b) := ⟨.rfl, .rfl⟩
    obtain ⟨hin, hout, hbuild, -⟩ := h _ hself
    exact ⟨(Side.isUnion_iff (hmerged _ hself).1 inputSide_joins).mp hin,
      (Side.isUnion_iff (hmerged _ hself).2 outputSide_joins).mp hout, (hbuilt _ hself).mp hbuild⟩
  · rintro ⟨hin, hout, hbuild⟩ a' h
    refine ⟨(Side.isUnion_iff (hmerged _ h).1 inputSide_joins).mpr hin,
      (Side.isUnion_iff (hmerged _ h).2 outputSide_joins).mpr hout, (hbuilt _ h).mpr hbuild, ?_⟩
    rintro a'' ⟨hin', hout'⟩
    exact ⟨merge_inputs_again h.1 ▸ hin', merge_outputs_again h.2 ▸ hout'⟩

/-- The receiver has two entries of one name, as inputs and as outputs. -/
def repeatedSource : Artifacts where
  inputs := [{ name := "source", values := [{ uri := "git:first" }] },
    { name := "source", values := [{ uri := "git:second" }] }]
  outputs := [{ name := "image", buildOutput := true }, { name := "image" }]

theorem repeatedSource_not_union : repeatedSource.Merges {} (repeatedSource.merge {}) ∧
    ¬ IsUnion repeatedSource.inputs [] (repeatedSource.merge {}).inputs ∧
    Stands (·.buildOutput = true) repeatedSource.outputs "image" ∧
    ¬ Stands (·.buildOutput = true) (repeatedSource.merge {}).outputs "image" := by
  refine ⟨⟨.rfl, .rfl⟩, fun h => ?_, by decide, by decide⟩
  have hfirst := (h.values "source" { uri := "git:first" }).mpr (.inl (by decide))
  exact absurd hfirst (by decide)

end TektonPipeline.PodStatus
