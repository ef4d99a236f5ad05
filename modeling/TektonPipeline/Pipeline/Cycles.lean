import Mathlib.Data.Finmap
import Mathlib.Data.Finset.Sort
import Mathlib.Data.String.Basic
import TektonPipeline.Library.Transition
import TektonPipeline.Pipeline.Dag

/-! The search for cycles with the choices the runtime makes: maps are walked in any order and
`PopAny` takes any element of a set. Every run is one of Kahn's algorithm on the links. -/

namespace TektonPipeline.Pipeline
open Relation List

abbrev TaskSets := Finmap fun _ : String => Finset String

def held (m : TaskSets) (k : String) : Finset String := (m.lookup k).getD ∅

@[simp] theorem held_empty (k : String) : held ∅ k = ∅ := by
  simp [held]

theorem held_insert (m : TaskSets) (k : String) (v : Finset String) (k' : String) :
    held (m.insert k v) k' = if k' = k then v else held m k' := by
  by_cases h : k' = k
  · subst h
    simp [held]
  · simp [held, h, Finmap.lookup_insert_of_ne m h]

theorem held_erase (m : TaskSets) (k k' : String) :
    held (m.erase k) k' = if k' = k then ∅ else held m k' := by
  by_cases h : k' = k
  · subst h
    simp [held]
  · simp [held, h, Finmap.lookup_erase_ne h]

/-- The variables of `findCyclesInDependencies`. -/
structure CycleSearch where
  independentTasks : Finset String := ∅
  dag : TaskSets := ∅
  childMap : TaskSets := ∅
  parent : Option String := none

def enterDep (deps : List (String × List String)) (task : String) (s : CycleSearch)
    (dep : String) : CycleSearch :=
  { s with
    independentTasks :=
      if (depsOf deps dep).isEmpty then insert dep s.independentTasks else s.independentTasks
    childMap := s.childMap.insert dep (insert task (held s.childMap dep)) }

def enterTask (deps : List (String × List String)) (s : CycleSearch)
    (e : String × List String) : CycleSearch :=
  if e.2.isEmpty then s
  else e.2.foldl (enterDep deps e.1) { s with dag := s.dag.insert e.1 e.2.toFinset }

/-- The first loop over the map, which is walked in the given order. -/
def cycleSearch (deps order : List (String × List String)) : CycleSearch :=
  order.foldl (enterTask deps) {}

inductive PopStep : CycleSearch → CycleSearch → Prop
  | parent {s : CycleSearch} {p : String} (hparent : s.parent = none)
      (hp : p ∈ s.independentTasks) :
      PopStep s { s with independentTasks := s.independentTasks.erase p, parent := some p }
  | lastDep {s : CycleSearch} {p child : String} (hparent : s.parent = some p)
      (hchild : child ∈ held s.childMap p) (hlen : (held s.dag child).erase p = ∅) :
      PopStep s { s with
        childMap := s.childMap.insert p ((held s.childMap p).erase child)
        independentTasks := insert child s.independentTasks
        dag := s.dag.erase child }
  | dep {s : CycleSearch} {p child : String} (hparent : s.parent = some p)
      (hchild : child ∈ held s.childMap p) (hlen : (held s.dag child).erase p ≠ ∅) :
      PopStep s { s with
        childMap := s.childMap.insert p ((held s.childMap p).erase child)
        dag := s.dag.insert child ((held s.dag child).erase p) }
  | noChild {s : CycleSearch} {p : String} (hparent : s.parent = some p)
      (hnone : held s.childMap p = ∅) : PopStep s { s with parent := none }

def CycleSearch.Finished (s : CycleSearch) : Prop := s.parent = none ∧ s.independentTasks = ∅

structure CycleSearch.Matches (s : CycleSearch) (k : Kahn.State String) : Prop where
  ready : k.ready = s.independentTasks
  current : k.current = s.parent
  dag : ∀ d t, (d, t) ∈ k.pending ↔ d ∈ held s.dag t
  childMap : ∀ d t, (d, t) ∈ k.pending ↔ t ∈ held s.childMap d
  full : ∀ t ds, s.dag.lookup t = some ds → ds ≠ ∅

section
variable {s s' : CycleSearch} {k : Kahn.State String}

theorem CycleSearch.Matches.free_iff (h : s.Matches k) {p child : String} :
    Kahn.Free (k.pending.erase (p, child)) child ↔ (held s.dag child).erase p = ∅ := by
  rw [Finset.eq_empty_iff_forall_notMem]
  constructor
  · intro hfree d hd
    obtain ⟨hne, hd⟩ := Finset.mem_erase.mp hd
    refine hfree (d, child) (Finset.mem_erase.mpr ⟨?_, (h.dag d child).mpr hd⟩) rfl
    simpa using hne
  · rintro hnone ⟨d, c⟩ he rfl
    obtain ⟨hne, he⟩ := Finset.mem_erase.mp he
    refine hnone d (Finset.mem_erase.mpr ⟨?_, (h.dag d c).mp he⟩)
    simpa using hne

theorem CycleSearch.Matches.childMap_erase (h : s.Matches k) (p child d t : String) :
    (d, t) ∈ k.pending.erase (p, child) ↔
      t ∈ held (s.childMap.insert p ((held s.childMap p).erase child)) d := by
  rw [held_insert, Finset.mem_erase, h.childMap]
  by_cases hd : d = p
  · simp [hd, Finset.mem_erase]
  · simp [hd]

theorem CycleSearch.Matches.dag_erase (h : s.Matches k) (p child d t : String) :
    (d, t) ∈ k.pending.erase (p, child) ↔
      d ∈ if t = child then (held s.dag child).erase p else held s.dag t := by
  rw [Finset.mem_erase, h.dag]
  by_cases ht : t = child
  · simp [ht, Finset.mem_erase]
  · simp [ht]

theorem CycleSearch.Matches.step (h : s.Matches k) (hstep : PopStep s s') :
    ∃ k', Kahn.Step k k' ∧ s'.Matches k' := by
  cases hstep with
  | @parent p hparent hp =>
    refine ⟨_, .take (h.current.trans hparent) (h.ready ▸ hp), ?_⟩
    exact ⟨congrArg (Finset.erase · p) h.ready, rfl, h.dag, h.childMap, h.full⟩
  | @lastDep p child hparent hchild hlen =>
    have hfree := h.free_iff.mpr hlen
    refine ⟨_, .relax (h.current.trans hparent) ((h.childMap p child).mpr hchild), ?_⟩
    refine ⟨by simp [hfree, h.ready], h.current, fun d t => ?_, h.childMap_erase p child, ?_⟩
    · rw [held_erase, h.dag_erase, hlen]
    · intro t ds hds
      dsimp only at hds
      by_cases ht : t = child
      · rw [ht, Finmap.lookup_erase] at hds
        cases hds
      · rw [Finmap.lookup_erase_ne ht] at hds
        exact h.full t ds hds
  | @dep p child hparent hchild hlen =>
    have hfree : ¬ Kahn.Free (k.pending.erase (p, child)) child := fun h' => hlen (h.free_iff.mp h')
    refine ⟨_, .relax (h.current.trans hparent) ((h.childMap p child).mpr hchild), ?_⟩
    refine ⟨by simp [hfree, h.ready], h.current, fun d t => ?_, h.childMap_erase p child, ?_⟩
    · rw [held_insert, h.dag_erase]
    · intro t ds hds
      dsimp only at hds
      by_cases ht : t = child
      · rw [ht, Finmap.lookup_insert] at hds
        exact Option.some.inj hds ▸ hlen
      · rw [Finmap.lookup_insert_of_ne _ ht] at hds
        exact h.full t ds hds
  | @noChild p hparent hnone =>
    refine ⟨_, .leave (h.current.trans hparent) fun c hc => ?_, ?_⟩
    · have hmem := (h.childMap p c).mp hc
      simp [hnone] at hmem
    · exact ⟨h.ready, rfl, h.dag, h.childMap, h.full⟩

theorem CycleSearch.progress (s : CycleSearch) : s.Finished ∨ ∃ s', PopStep s s' := by
  cases hparent : s.parent with
  | none =>
    rcases s.independentTasks.eq_empty_or_nonempty with hnone | ⟨p, hp⟩
    · exact .inl ⟨hparent, hnone⟩
    · exact .inr ⟨_, .parent hparent hp⟩
  | some p =>
    rcases (held s.childMap p).eq_empty_or_nonempty with hnone | ⟨child, hchild⟩
    · exact .inr ⟨_, .noChild hparent hnone⟩
    · by_cases hlen : (held s.dag child).erase p = ∅
      · exact .inr ⟨_, .lastDep hparent hchild hlen⟩
      · exact .inr ⟨_, .dep hparent hchild hlen⟩

end

variable {order : List (String × List String)}

section
variable (deps : List (String × List String))

variable {d t : String}

theorem linksOf_append (l l' : List (String × List String)) :
    linksOf (l ++ l') = linksOf l ++ linksOf l' := by
  simp [linksOf]

theorem foldl_enterDep (task : String) (ds : List String) (s : CycleSearch) :
    (ds.foldl (enterDep deps task) s).dag = s.dag ∧
    (ds.foldl (enterDep deps task) s).parent = s.parent ∧
    (∀ d, d ∈ (ds.foldl (enterDep deps task) s).independentTasks ↔
      d ∈ s.independentTasks ∨ d ∈ ds ∧ depsOf deps d = []) ∧
    ∀ d t, t ∈ held (ds.foldl (enterDep deps task) s).childMap d ↔
      t ∈ held s.childMap d ∨ t = task ∧ d ∈ ds := by
  induction ds generalizing s with
  | nil => simp
  | cons dep ds ih =>
    obtain ⟨hdag, hparent, hind, hchild⟩ := ih (enterDep deps task s dep)
    refine ⟨hdag, hparent, fun d => ?_, fun d t => ?_⟩
    · rw [foldl_cons, hind]
      by_cases hempty : depsOf deps dep = []
      · simp only [enterDep, hempty, isEmpty_nil, if_true, Finset.mem_insert, mem_cons]
        constructor
        · rintro ((rfl | hd) | hd)
          · exact .inr ⟨.inl rfl, hempty⟩
          · exact .inl hd
          · exact .inr ⟨.inr hd.1, hd.2⟩
        · rintro (hd | ⟨rfl | hd, hnil⟩)
          · exact .inl (.inr hd)
          · exact .inl (.inl rfl)
          · exact .inr ⟨hd, hnil⟩
      · simp only [enterDep, List.isEmpty_iff, hempty, if_false, mem_cons]
        constructor
        · rintro (hd | hd)
          · exact .inl hd
          · exact .inr ⟨.inr hd.1, hd.2⟩
        · rintro (hd | ⟨rfl | hd, hnil⟩)
          · exact .inl hd
          · exact absurd hnil hempty
          · exact .inr ⟨hd, hnil⟩
    · rw [foldl_cons, hchild]
      simp only [enterDep, held_insert, mem_cons]
      by_cases hd : d = dep
      · subst hd
        simp only [if_true, Finset.mem_insert, true_or, and_true]
        tauto
      · simp [hd]

/-- The state of the first loop when it has gone over the entries `l`. -/
structure Entered (l : List (String × List String)) (s : CycleSearch) : Prop where
  parent : s.parent = none
  independentTasks : ∀ d, d ∈ s.independentTasks ↔ (∃ t, (d, t) ∈ linksOf l) ∧ depsOf deps d = []
  dag : ∀ d t, d ∈ held s.dag t ↔ (d, t) ∈ linksOf l
  childMap : ∀ d t, t ∈ held s.childMap d ↔ (d, t) ∈ linksOf l
  full : ∀ t ds, s.dag.lookup t = some ds → ds ≠ ∅

variable {deps}

theorem mem_linksOf_singleton {e : String × List String} :
    (d, t) ∈ linksOf [e] ↔ t = e.1 ∧ d ∈ e.2 := by
  rw [mem_linksOf]
  constructor
  · rintro ⟨ds, hmem, hd⟩
    obtain rfl := mem_singleton.mp hmem
    exact ⟨rfl, hd⟩
  · rintro ⟨rfl, hd⟩
    exact ⟨e.2, mem_singleton.mpr rfl, hd⟩

theorem Entered.enterTask {l : List (String × List String)} {s : CycleSearch}
    (h : Entered deps l s) {e : String × List String} (hnew : e.1 ∉ l.map (·.1)) :
    Entered deps (l ++ [e]) (enterTask deps s e) := by
  have hlinks : ∀ d t, (d, t) ∈ linksOf (l ++ [e]) ↔ (d, t) ∈ linksOf l ∨ t = e.1 ∧ d ∈ e.2 := by
    intro d t
    rw [linksOf_append, mem_append, mem_linksOf_singleton]
  unfold Pipeline.enterTask
  by_cases hempty : e.2 = []
  · rw [if_pos (by simpa using hempty)]
    have hsame : ∀ d t, (d, t) ∈ linksOf (l ++ [e]) ↔ (d, t) ∈ linksOf l := by
      intro d t
      simp [hlinks, hempty]
    refine ⟨h.parent, fun d => ?_, fun d t => ?_, fun d t => ?_, h.full⟩
    · simp only [hsame]
      exact h.independentTasks d
    · rw [hsame]
      exact h.dag d t
    · rw [hsame]
      exact h.childMap d t
  · rw [if_neg (by simpa using hempty)]
    obtain ⟨hdag, hparent, hind, hchild⟩ := foldl_enterDep deps e.1 e.2
      { s with dag := s.dag.insert e.1 e.2.toFinset }
    refine ⟨hparent.trans h.parent, fun d => ?_, fun d t => ?_, fun d t => ?_, fun t ds hds => ?_⟩
    · rw [hind, h.independentTasks]
      simp only [hlinks]
      constructor
      · rintro (⟨⟨t, ht⟩, hnil⟩ | ⟨hd, hnil⟩)
        · exact ⟨⟨t, .inl ht⟩, hnil⟩
        · exact ⟨⟨e.1, .inr ⟨rfl, hd⟩⟩, hnil⟩
      · rintro ⟨⟨t, ht | ⟨-, hd⟩⟩, hnil⟩
        · exact .inl ⟨⟨t, ht⟩, hnil⟩
        · exact .inr ⟨hd, hnil⟩
    · rw [hdag, held_insert, hlinks]
      by_cases ht : t = e.1
      · have hnone : (d, t) ∉ linksOf l := by
          intro hmem
          obtain ⟨ds, hmem, -⟩ := mem_linksOf.mp hmem
          exact hnew (ht ▸ mem_map_of_mem (f := (·.1)) hmem)
        simp [ht, ht ▸ hnone]
      · simp [ht, h.dag]
    · rw [hchild, h.childMap, hlinks]
    · rw [hdag] at hds
      by_cases ht : t = e.1
      · rw [ht, Finmap.lookup_insert] at hds
        rw [← Option.some.inj hds]
        simpa using hempty
      · rw [Finmap.lookup_insert_of_ne _ ht] at hds
        exact h.full t ds hds

theorem cycleSearch_entered (hkeys : (order.map (·.1)).Nodup) :
    Entered deps order (cycleSearch deps order) := by
  induction order using List.reverseRecOn with
  | nil => exact ⟨rfl, by simp [cycleSearch, linksOf], by simp [cycleSearch, linksOf],
      by simp [cycleSearch, linksOf], by simp [cycleSearch]⟩
  | append_singleton l e ih =>
    rw [map_append, nodup_append] at hkeys
    obtain ⟨hl, -, hdisj⟩ := hkeys
    rw [cycleSearch, foldl_append]
    refine (ih hl).enterTask fun hmem => ?_
    exact hdisj e.1 hmem e.1 (by simp) rfl

theorem free_edges_iff (hkeys : (deps.map (·.1)).Nodup) (t : String) :
    Kahn.Free (edges deps) t ↔ depsOf deps t = [] := by
  rw [eq_nil_iff_forall_not_mem]
  constructor
  · intro hfree d hd
    exact hfree (d, t) ((mem_depsOf hkeys).mp hd) rfl
  · rintro hnone ⟨d, t⟩ hd rfl
    exact hnone d ((mem_depsOf hkeys).mpr hd)

theorem cycleSearch_matches (hkeys : (deps.map (·.1)).Nodup) (hperm : order.Perm deps) :
    (cycleSearch deps order).Matches (Kahn.start (edges deps)) := by
  have h : Entered deps order (cycleSearch deps order) :=
    cycleSearch_entered (((hperm.map (·.1)).nodup_iff).mpr hkeys)
  have hedges : ∀ d t, (d, t) ∈ linksOf order ↔ (d, t) ∈ edges deps := by
    intro d t
    rw [mem_linksOf, mem_edges]
    simp [hperm.mem_iff]
  refine ⟨?_, h.parent.symm, fun d t => ?_, fun d t => ?_, h.full⟩
  · ext d
    rw [h.independentTasks, ← free_edges_iff hkeys]
    simp [Kahn.start, hedges]
  · rw [h.dag, hedges]
    rfl
  · rw [h.childMap, hedges]
    rfl

end

/-- The first task with dependencies left, as the loop over the map finds it. -/
def firstChild (order : List String) : String :=
  order.foldl (fun first task => if first = "" ∨ task < first then task else first) ""

/-- `getInterdependencyError` where the map is walked in the given order. -/
def interdependencyError (order : List String) (dag : TaskSets) : Option String :=
  if order.isEmpty then none
  else some ("task " ++ quote (firstChild order) ++ " depends on " ++
    ", ".intercalate ((held dag (firstChild order)).sort.map quote))

/-- What `findCyclesInDependencies` may return. -/
def CycleOutcome (deps : List (String × List String)) (r : Option String) : Prop :=
  ∃ (order : List (String × List String)) (s : CycleSearch) (tasks : List String),
    order.Perm deps ∧ ReflTransGen PopStep (cycleSearch deps order) s ∧ s.Finished ∧
    tasks.Nodup ∧ (∀ t, t ∈ tasks ↔ t ∈ s.dag) ∧ r = interdependencyError tasks s.dag

structure Leftover (deps : List (String × List String)) (dag : TaskSets) : Prop where
  held : ∀ d t, d ∈ held dag t ↔ (d, t) ∈ edges deps ∧ ¬ Acc (Kahn.Edge (edges deps)) d
  full : ∀ t ds, dag.lookup t = some ds → ds ≠ ∅

section
variable {deps : List (String × List String)}

section
variable (hkeys : (deps.map (·.1)).Nodup) (hperm : order.Perm deps)
include hkeys hperm

theorem cycleSearch_run {s : CycleSearch}
    (hrun : ReflTransGen PopStep (cycleSearch deps order) s) :
    ∃ k, s.Matches k ∧ Kahn.Sound (edges deps) k := by
  induction hrun with
  | refl => exact ⟨_, cycleSearch_matches hkeys hperm, Kahn.start_sound⟩
  | tail _ hstep ih =>
    obtain ⟨k, hmatches, hsound⟩ := ih
    obtain ⟨k', hstep', hmatches'⟩ := hmatches.step hstep
    exact ⟨k', hmatches', hsound.step hstep'⟩

theorem cycleSearch_acc : Acc (fun s' s => PopStep s s') (cycleSearch deps order) :=
  Transition.acc_of_simulated (fun h hstep => h.step hstep) (cycleSearch_matches hkeys hperm)
    (Kahn.step_wellFounded.apply _)

theorem finished_leftover {s : CycleSearch} (hrun : ReflTransGen PopStep (cycleSearch deps order) s)
    (hfinished : s.Finished) : Leftover deps s.dag := by
  obtain ⟨k, hmatches, hsound⟩ := cycleSearch_run hkeys hperm hrun
  have hdone : k.Finished :=
    ⟨hmatches.current.trans hfinished.1, hmatches.ready.trans hfinished.2⟩
  refine ⟨fun d t => ?_, hmatches.full⟩
  rw [← hmatches.dag, hsound.mem_pending hdone]

end

theorem Leftover.mem_iff {dag : TaskSets} (h : Leftover deps dag) (t : String) :
    t ∈ dag ↔ ∃ d, d ∈ Pipeline.held dag t := by
  rw [Finmap.mem_iff]
  constructor
  · rintro ⟨ds, hds⟩
    obtain ⟨d, hd⟩ := Finset.nonempty_iff_ne_empty.mpr (h.full t ds hds)
    exact ⟨d, by simpa [Pipeline.held, hds] using hd⟩
  · rintro ⟨d, hd⟩
    cases hds : dag.lookup t with
    | none => simp [Pipeline.held, hds] at hd
    | some ds => exact ⟨ds, rfl⟩

theorem exists_cycleOutcome (hkeys : (deps.map (·.1)).Nodup) : ∃ r, CycleOutcome deps r := by
  have hinv : ∀ {s s' : CycleSearch}, (fun _ => True) s → PopStep s s' → (fun _ => True) s' :=
    fun _ _ => trivial
  obtain ⟨s, hrun, hfinished⟩ := Transition.exists_finished hinv (fun s _ => s.progress) trivial
    (cycleSearch_acc hkeys (.refl deps))
  refine ⟨_, deps, s, s.dag.keys.toList, .refl deps, hrun, hfinished,
    Finset.nodup_toList _, ?_, rfl⟩
  intro t
  rw [Finset.mem_toList, Finmap.mem_keys]

theorem CycleOutcome.eq_none_iff (hkeys : (deps.map (·.1)).Nodup) {r : Option String}
    (h : CycleOutcome deps r) : r = none ↔ Kahn.Acyclic (edges deps) := by
  obtain ⟨order, s, tasks, hperm, hrun, hfinished, -, htasks, rfl⟩ := h
  have hleft := finished_leftover hkeys hperm hrun hfinished
  have hnone : interdependencyError tasks s.dag = none ↔ tasks = [] := by
    simp [interdependencyError]
  rw [hnone, eq_nil_iff_forall_not_mem]
  constructor
  · intro hempty
    refine Kahn.acyclic_of_acc fun e he => ?_
    by_contra hacc
    refine hempty e.2 ((htasks e.2).mpr ((hleft.mem_iff e.2).mpr ⟨e.1, ?_⟩))
    exact (hleft.held e.1 e.2).mpr ⟨he, hacc⟩
  · intro hacyclic t ht
    obtain ⟨d, hd⟩ := (hleft.mem_iff t).mp ((htasks t).mp ht)
    exact ((hleft.held d t).mp hd).2 (Kahn.acc_of_acyclic hacyclic d)

theorem foldl_least {order : List String} {first : String} (hfirst : first ≠ "")
    (horder : "" ∉ order) :
    let least := order.foldl (fun first task => if first = "" ∨ task < first then task else first)
      first
    least ∈ first :: order ∧ ∀ t ∈ first :: order, least ≤ t := by
  induction order generalizing first with
  | nil => simp
  | cons t order ih =>
    have ht : t ≠ "" := fun heq => horder (by simp [heq])
    have horder' : "" ∉ order := fun hmem => horder (mem_cons_of_mem t hmem)
    rw [foldl_cons]
    by_cases hlt : t < first
    · rw [if_pos (.inr hlt)]
      obtain ⟨hmem, hle⟩ := ih ht horder'
      refine ⟨mem_cons_of_mem first hmem, fun u hu => ?_⟩
      rcases mem_cons.mp hu with rfl | hu
      · exact (hle t mem_cons_self).trans hlt.le
      · exact hle u hu
    · rw [if_neg (not_or.mpr ⟨hfirst, hlt⟩)]
      obtain ⟨hmem, hle⟩ := ih hfirst horder'
      refine ⟨?_, fun u hu => ?_⟩
      · rcases mem_cons.mp hmem with heq | hmem
        · exact mem_cons.mpr (.inl heq)
        · exact mem_cons_of_mem first (mem_cons_of_mem t hmem)
      · rcases mem_cons.mp hu with rfl | hu
        · exact hle u mem_cons_self
        rcases mem_cons.mp hu with rfl | hu
        · exact (hle first mem_cons_self).trans (not_lt.mp hlt)
        · exact hle u (mem_cons_of_mem first hu)

theorem firstChild_least {order : List String} (hne : order ≠ []) (horder : "" ∉ order) :
    firstChild order ∈ order ∧ ∀ t ∈ order, firstChild order ≤ t := by
  cases order with
  | nil => exact absurd rfl hne
  | cons t order =>
    have ht : t ≠ "" := fun heq => horder (by simp [heq])
    rw [firstChild, foldl_cons, if_pos (.inl rfl)]
    exact foldl_least ht fun hmem => horder (mem_cons_of_mem t hmem)

theorem Leftover.unique {dag dag' : TaskSets} (h : Leftover deps dag) (h' : Leftover deps dag') :
    (∀ t, t ∈ dag ↔ t ∈ dag') ∧ ∀ t, Pipeline.held dag t = Pipeline.held dag' t := by
  have hheld : ∀ t, Pipeline.held dag t = Pipeline.held dag' t := by
    intro t
    ext d
    rw [h.held, h'.held]
  refine ⟨fun t => ?_, hheld⟩
  rw [h.mem_iff, h'.mem_iff, hheld]

theorem Leftover.mem_keys {dag : TaskSets} (h : Leftover deps dag) {t : String} (ht : t ∈ dag) :
    t ∈ deps.map (·.1) := by
  obtain ⟨d, hd⟩ := (h.mem_iff t).mp ht
  obtain ⟨ds, hds, -⟩ := (mem_edges deps).mp ((h.held d t).mp hd).1
  exact mem_map_of_mem (f := (·.1)) hds

theorem CycleOutcome.unique (hkeys : (deps.map (·.1)).Nodup) (hnames : "" ∉ deps.map (·.1))
    {r r' : Option String} (h : CycleOutcome deps r) (h' : CycleOutcome deps r') : r = r' := by
  obtain ⟨order, s, tasks, hperm, hrun, hfinished, -, htasks, rfl⟩ := h
  obtain ⟨order', s', tasks', hperm', hrun', hfinished', -, htasks', rfl⟩ := h'
  have hleft := finished_leftover hkeys hperm hrun hfinished
  obtain ⟨hmem, hheld⟩ := hleft.unique (finished_leftover hkeys hperm' hrun' hfinished')
  have hsame : ∀ t, t ∈ tasks ↔ t ∈ tasks' := fun t => by rw [htasks, htasks', hmem]
  have hnot : "" ∉ tasks := fun hempty => hnames (hleft.mem_keys ((htasks "").mp hempty))
  cases tasks with
  | nil =>
    have hnil : tasks' = [] := eq_nil_iff_forall_not_mem.mpr fun t ht => by
      simpa using (hsame t).mpr ht
    simp [interdependencyError, hnil]
  | cons t rest =>
    have hne : tasks' ≠ [] := ne_nil_of_mem ((hsame t).mp mem_cons_self)
    obtain ⟨hin, hle⟩ := firstChild_least (cons_ne_nil t rest) hnot
    obtain ⟨hin', hle'⟩ := firstChild_least hne fun hmem => hnot ((hsame "").mpr hmem)
    have hfirst : firstChild (t :: rest) = firstChild tasks' :=
      le_antisymm (hle _ ((hsame _).mpr hin')) (hle' _ ((hsame _).mp hin))
    simp [interdependencyError, hne, hfirst, hheld]

end

end TektonPipeline.Pipeline
