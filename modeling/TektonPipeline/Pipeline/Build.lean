import TektonPipeline.Pipeline.Cycles

/-! What `Build` accepts and returns, whatever order it walks the map in, and what
`GetCandidateTasks` makes of a graph it returned. -/

namespace TektonPipeline.Pipeline
open Relation List Assoc

theorem kahn_wellFormed {fuel : Nat} {independent : List String}
    {dag : List (String × List String)} (hkeys : (dag.map (·.1)).Nodup)
    (hfull : ∀ e ∈ dag, e.2 ≠ []) : ((kahn fuel independent dag).map (·.1)).Nodup ∧
      ∀ e ∈ kahn fuel independent dag, e.2 ≠ [] := by
  induction fuel generalizing independent dag with
  | zero => exact ⟨hkeys, hfull⟩
  | succ fuel ih =>
    cases independent with
    | nil => exact ⟨hkeys, hfull⟩
    | cons parent rest =>
      refine ih ?_ fun e he => by simpa using (mem_filter.mp he).2
      have hsame : ((dag.map fun e => (e.1, e.2.filter (· ≠ parent))).map (·.1)).Nodup := by
        rwa [List.map_map]
      exact hsame.sublist (List.filter_sublist.map _)

section
variable {tasks : List String} {deps : List (String × List String)}

theorem findCyclesInDependencies_eq (deps : List (String × List String)) :
    findCyclesInDependencies deps = getInterdependencyError (leftOver deps) := rfl

theorem leftOver_wellFormed (hkeys : (deps.map (·.1)).Nodup) :
    ((leftOver deps).map (·.1)).Nodup ∧ ∀ e ∈ leftOver deps, e.2 ≠ [] :=
  kahn_wellFormed (hkeys.sublist (List.filter_sublist.map _))
    fun e he => by simpa using (mem_filter.mp he).2

theorem getInterdependencyError_cons {dag : List (String × List String)} (hne : dag ≠ []) :
    ∃ e ∈ dag, (∀ e' ∈ dag, e.1 ≤ e'.1) ∧ getInterdependencyError dag =
      some ("task " ++ quote e.1 ++ " depends on " ++
        ", ".intercalate ((e.2.dedup.insertionSort (· ≤ ·)).map quote)) := by
  have hperm := perm_insertionSort (fun a b : String × List String => a.1 ≤ b.1) dag
  have : IsTrans (String × List String) fun a b => a.1 ≤ b.1 := ⟨fun _ _ _ => le_trans⟩
  have : Std.Total fun a b : String × List String => a.1 ≤ b.1 := ⟨fun a b => le_total a.1 b.1⟩
  have hsorted := pairwise_insertionSort (fun a b : String × List String => a.1 ≤ b.1) dag
  unfold getInterdependencyError
  cases hsort : dag.insertionSort fun a b => a.1 ≤ b.1 with
  | nil =>
    rw [hsort] at hperm
    exact absurd hperm.nil_eq.symm hne
  | cons e rest =>
    rw [hsort] at hperm hsorted
    refine ⟨e, hperm.mem_iff.mp mem_cons_self, fun e' he' => ?_, rfl⟩
    rcases mem_cons.mp (hperm.mem_iff.mpr he') with rfl | he'
    · exact le_rfl
    · exact (pairwise_cons.mp hsorted).1 e' he'

theorem mem_leftOver_keys (hkeys : (deps.map (·.1)).Nodup) {dag : TaskSets}
    (h : Leftover deps dag) (t : String) : t ∈ (leftOver deps).map (·.1) ↔ t ∈ dag := by
  rw [h.mem_iff]
  constructor
  · intro ht
    obtain ⟨e, he, rfl⟩ := mem_map.mp ht
    obtain ⟨d, hd⟩ := exists_mem_of_ne_nil _ ((leftOver_wellFormed hkeys).2 e he)
    refine ⟨d, (h.held d e.1).mpr ?_⟩
    exact (mem_linksOf_leftOver hkeys).mp (mem_linksOf.mpr ⟨e.2, he, hd⟩)
  · rintro ⟨d, hd⟩
    obtain ⟨ds, hds, -⟩ :=
      mem_linksOf.mp ((mem_linksOf_leftOver hkeys).mpr ((h.held d t).mp hd))
    exact mem_map_of_mem (f := (·.1)) hds

theorem cycleOutcome_findCycles (hkeys : (deps.map (·.1)).Nodup) (hnames : "" ∉ deps.map (·.1)) :
    CycleOutcome deps (findCyclesInDependencies deps) := by
  obtain ⟨r, hr⟩ := exists_cycleOutcome hkeys
  suffices heq : findCyclesInDependencies deps = r from heq ▸ hr
  obtain ⟨order, s, tasks, hperm, hrun, hfinished, -, htasks, rfl⟩ := hr
  have hleft := finished_leftover hkeys hperm hrun hfinished
  have hsame : ∀ t, t ∈ (leftOver deps).map (·.1) ↔ t ∈ tasks := fun t => by
    rw [mem_leftOver_keys hkeys hleft, htasks]
  rw [findCyclesInDependencies_eq]
  by_cases hnil : leftOver deps = []
  · have htasks' : tasks = [] := eq_nil_iff_forall_not_mem.mpr fun t ht => by
      simpa [hnil] using (hsame t).mpr ht
    rw [hnil, htasks']
    rfl
  · obtain ⟨e, he, hleast, heq⟩ := getInterdependencyError_cons hnil
    have he' := (hsame e.1).mp (mem_map_of_mem (f := (·.1)) he)
    have hnot : "" ∉ tasks := fun hempty => hnames (hleft.mem_keys ((htasks "").mp hempty))
    obtain ⟨hin, hle⟩ := firstChild_least (ne_nil_of_mem he') hnot
    have hfirst : firstChild tasks = e.1 := by
      obtain ⟨e₁, he₁, hkey⟩ := mem_map.mp ((hsame _).mpr hin)
      exact le_antisymm (hle e.1 he') (hkey ▸ hleast e₁ he₁)
    have hsort : e.2.dedup.insertionSort (· ≤ ·) = (held s.dag e.1).sort := by
      have hnodup : (e.2.dedup.insertionSort (· ≤ ·)).Nodup :=
        (perm_insertionSort _ _).nodup_iff.mpr (nodup_dedup _)
      have hset : (e.2.dedup.insertionSort (· ≤ ·)).toFinset = held s.dag e.1 := by
        ext d
        rw [mem_toFinset, mem_insertionSort, mem_dedup, hleft.held,
          ← mem_linksOf_leftOver hkeys, mem_linksOf]
        constructor
        · intro hd
          exact ⟨e.2, he, hd⟩
        · rintro ⟨ds, hds, hd⟩
          have hpair : e = (e.1, ds) :=
            inj_on_of_nodup_map (leftOver_wellFormed hkeys).1 he hds rfl
          rw [hpair]
          exact hd
      rw [← hset]
      exact ((toFinset_sort (· ≤ ·) hnodup).mpr (pairwise_insertionSort _ _)).symm
    rw [heq, interdependencyError, if_neg (by simpa using ne_nil_of_mem he'), hfirst, hsort]

/-- What `Build` may return. The nodes are a map, and come in any order as well. -/
def BuildOutcome (tasks : List String) (deps : List (String × List String))
    (r : Except String Graph) : Prop :=
  match addPipelineTasks [] tasks with
  | .error e => r = .error e
  | .ok nodes => ∃ cycle, CycleOutcome deps cycle ∧
    match cycle with
    | some e => r = .error ("cycle detected; " ++ e)
    | none => ∃ (order : List (String × List String)) (keys : List String),
      order.Perm deps ∧ keys.Perm nodes ∧
      r = (addLinks nodes [] [] (linksOf order)).map fun (links, nexts) =>
        { nodes := keys, links := links, nexts := nexts }

def DependsOn (deps : List (String × List String)) (t d : String) : Prop :=
  ∃ ds, (t, ds) ∈ deps ∧ d ∈ ds

theorem acyclic_edges_iff : Kahn.Acyclic (edges deps) ↔ ∀ t, ¬ TransGen (DependsOn deps) t t := by
  have hedge : Function.swap (Kahn.Edge (edges deps)) = DependsOn deps := by
    funext t d
    exact propext (mem_edges deps)
  have hcycle : ∀ t, TransGen (Kahn.Edge (edges deps)) t t ↔ TransGen (DependsOn deps) t t :=
    fun t => by rw [← hedge, transGen_swap]
  simp only [Kahn.Acyclic, hcycle]

/-- A graph comes out exactly when tasks are named once, links end at tasks and nothing
depends on itself. -/
theorem BuildOutcome.isOk_iff (hkeys : (deps.map (·.1)).Nodup) {r : Except String Graph}
    (h : BuildOutcome tasks deps r) : (∃ g, r = .ok g) ↔
      tasks.Nodup ∧ (∀ e ∈ deps, ∀ d ∈ e.2, d ∈ tasks ∧ e.1 ∈ tasks) ∧
        ∀ t, ¬ TransGen (DependsOn deps) t t := by
  have hnodup : (∃ r, addPipelineTasks [] tasks = .ok r) ↔ tasks.Nodup :=
    by simp [addPipelineTasks_eq_ok_iff]
  unfold BuildOutcome at h
  cases hnodes : addPipelineTasks [] tasks with
  | error e =>
    rw [hnodes] at h hnodup
    have hnot : ¬ tasks.Nodup := fun h' => by simpa using hnodup.mpr h'
    simp [h, hnot]
  | ok nodes =>
    rw [hnodes] at h hnodup
    obtain ⟨cycle, hcycle, h⟩ := h
    have hacyclic := hcycle.eq_none_iff hkeys
    rw [acyclic_edges_iff] at hacyclic
    cases cycle with
    | some e =>
      have hnot : ¬ ∀ t, ¬ TransGen (DependsOn deps) t t := fun h' => by simpa using hacyclic.mpr h'
      simp [h, hnot]
    | none =>
      obtain ⟨order, keys, hperm, -, rfl⟩ := h
      obtain ⟨hsame, -⟩ := (addPipelineTasks_eq_ok_iff nodup_nil).mp hnodes
      rw [nil_append] at hsame
      have hends : (∀ l ∈ linksOf order, l.1 ∈ tasks ∧ l.2 ∈ tasks) ↔
          ∀ e ∈ deps, ∀ d ∈ e.2, d ∈ tasks ∧ e.1 ∈ tasks := by
        constructor
        · intro h e he d hd
          exact h (d, e.1) (mem_linksOf.mpr ⟨e.2, hperm.mem_iff.mpr he, hd⟩)
        · rintro h ⟨d, t⟩ hl
          obtain ⟨ds, hds, hd⟩ := mem_linksOf.mp hl
          exact h (t, ds) (hperm.mem_iff.mp hds) d hd
      have hlinks : (∀ e ∈ deps, ∀ d ∈ e.2, d ∈ tasks ∧ e.1 ∈ tasks) ↔
          ∃ r, addLinks tasks [] [] (linksOf order) = .ok r := by
        rw [← hends]
        simp [addLinks_eq_ok_iff]
      have hdone := hacyclic.mp rfl
      have htasks := hnodup.mp ⟨_, rfl⟩
      simp only [htasks, true_and, hlinks, hdone, not_false_eq_true, implies_true, and_true, hsame]
      cases addLinks tasks [] [] (linksOf order) with
      | error e => simp [Except.map]
      | ok links => simp [Except.map]

theorem prev_linksOf {l : List (String × List String)} (hkeys : (l.map (·.1)).Nodup)
    (nodes : List String) (t : String) :
    Graph.prev { nodes := nodes, links := linksOf l } t = depsOf l t := by
  induction l with
  | nil => rfl
  | cons e l ih =>
    obtain ⟨k, ds⟩ := e
    obtain ⟨hnew, hkeys⟩ := nodup_cons.mp hkeys
    have hsplit : Graph.prev { nodes := nodes, links := linksOf ((k, ds) :: l) } t =
        (if k = t then ds else []) ++ Graph.prev { nodes := nodes, links := linksOf l } t := by
      have hhead : ((ds.map fun d => (d, k)).filter fun l => l.2 == t).map (·.1) =
          if k = t then ds else [] := by
        by_cases he : k = t <;> simp [filter_map, he, Function.comp_def]
      rw [← hhead]
      simp [Graph.prev, linksOf]
    rw [hsplit, ih hkeys]
    by_cases he : k = t
    · subst he
      have hnone : l.lookup k = none := lookup_of_not_mem hnew
      simp [depsOf, hnone]
    · have hne : (t == k) = false := by simpa using Ne.symm he
      simp [he, depsOf, lookup_cons, hne]

theorem depsOf_perm {order : List (String × List String)} (hperm : order.Perm deps)
    (hkeys : (deps.map (·.1)).Nodup) (t : String) : depsOf order t = depsOf deps t := by
  have hkeys' : (order.map (·.1)).Nodup := ((hperm.map (·.1)).nodup_iff).mpr hkeys
  by_cases ht : t ∈ deps.map (·.1)
  · obtain ⟨e, he, rfl⟩ := mem_map.mp ht
    rw [depsOf, depsOf, lookup_of_mem hkeys he, lookup_of_mem hkeys' (hperm.mem_iff.mpr he)]
  · have ht' : t ∉ order.map (·.1) := fun hmem => ht ((hperm.map (·.1)).mem_iff.mp hmem)
    rw [depsOf, depsOf, lookup_of_not_mem ht, lookup_of_not_mem ht']

theorem Graph.count_prev (g : Graph) (p n : String) :
    (g.prev n).count p = g.links.count (p, n) := by
  rw [Graph.prev]
  induction g.links with
  | nil => rfl
  | cons l links ih =>
    obtain ⟨a, b⟩ := l
    by_cases hb : b = n
    · simp [hb, count_cons, ih]
    · simp [hb, ih]

theorem Graph.count_next (g : Graph) (p n : String) :
    (g.next p).count n = g.nexts.count (p, n) := by
  rw [Graph.next]
  induction g.nexts with
  | nil => rfl
  | cons l links ih =>
    obtain ⟨a, b⟩ := l
    by_cases ha : a = p
    · simp [ha, count_cons, ih]
    · simp [ha, ih]

theorem BuildOutcome.graph {g : Graph} (h : BuildOutcome tasks deps (.ok g)) :
    g.nodes.Perm tasks ∧ ∃ order : List (String × List String),
      order.Perm deps ∧ g.links = linksOf order ∧ g.nexts = linksOf order := by
  unfold BuildOutcome at h
  split at h
  · cases h
  rename_i nodes hnodes
  obtain ⟨cycle, -, h⟩ := h
  obtain ⟨hsame, -⟩ := (addPipelineTasks_eq_ok_iff nodup_nil).mp hnodes
  split at h
  · cases h
  obtain ⟨order, keys, hperm, hkeys, h⟩ := h
  rw [hsame, nil_append] at hkeys
  cases hlinks : addLinks nodes [] [] (linksOf order) with
  | error e => simp [hlinks, Except.map] at h
  | ok links =>
    rw [hlinks] at h
    obtain rfl := Except.ok.inj h
    obtain ⟨rfl, -⟩ := addLinks_eq_ok_iff.mp hlinks
    exact ⟨hkeys, order, hperm, rfl, rfl⟩

theorem build_outcome (hkeys : (deps.map (·.1)).Nodup) (hnames : "" ∉ deps.map (·.1)) :
    BuildOutcome tasks deps (build tasks deps) := by
  have hcycle := cycleOutcome_findCycles hkeys hnames
  unfold BuildOutcome build
  cases addPipelineTasks [] tasks with
  | error e => rfl
  | ok nodes =>
    refine ⟨_, hcycle, ?_⟩
    cases findCyclesInDependencies deps with
    | some e => rfl
    | none =>
      refine ⟨deps, nodes, .refl deps, .refl nodes, ?_⟩
      dsimp only
      cases addLinks nodes [] [] (linksOf deps) <;> rfl

theorem exists_buildOutcome (hkeys : (deps.map (·.1)).Nodup) : ∃ r, BuildOutcome tasks deps r := by
  obtain ⟨cycle, hcycle⟩ := exists_cycleOutcome hkeys
  unfold BuildOutcome
  cases addPipelineTasks [] tasks with
  | error e => exact ⟨_, rfl⟩
  | ok nodes =>
    cases cycle with
    | some e => exact ⟨_, some e, hcycle, rfl⟩
    | none => exact ⟨_, none, hcycle, deps, nodes, .refl deps, .refl nodes, rfl⟩

/-- The dependencies are a map, so its keys differ. The search for cycles ends and complains or
not whatever it pops and in which order it walks the map, and the graph is the one the map
describes. -/
theorem build_sound_and_complete (hkeys : (deps.map (·.1)).Nodup) :
    (∀ order : List (String × List String), order.Perm deps →
      Acc (fun s' s => PopStep s s') (cycleSearch deps order)) ∧ (∃ r, CycleOutcome deps r) ∧
    (∀ r r', CycleOutcome deps r → CycleOutcome deps r' →
      (r = none ↔ r' = none) ∧ ("" ∉ deps.map (·.1) → r = r')) ∧ ((∀ e ∈ deps, e.1 ∈ tasks) →
      (∃ r, BuildOutcome tasks deps r) ∧ ∀ r, BuildOutcome tasks deps r →
        ((∃ g, r = .ok g) ↔ tasks.Nodup ∧ (∀ e ∈ deps, ∀ d ∈ e.2, d ∈ tasks) ∧
          ∀ t, ¬ TransGen (DependsOn deps) t t) ∧
        ∀ g, r = .ok g → g.nodes.Perm tasks ∧ ∀ t, (g.prev t).Perm (depsOf deps t) ∧
          ∀ p, (g.next p).count t = (g.prev t).count p) := by
  refine ⟨fun order hperm => cycleSearch_acc hkeys hperm, exists_cycleOutcome hkeys, ?_, ?_⟩
  · intro r r' h h'
    exact ⟨(h.eq_none_iff hkeys).trans (h'.eq_none_iff hkeys).symm,
      fun hnames => h.unique hkeys hnames h'⟩
  intro htasks
  refine ⟨exists_buildOutcome hkeys, fun r h => ⟨?_, fun g hg => ?_⟩⟩
  · have hends : (∀ e ∈ deps, ∀ d ∈ e.2, d ∈ tasks ∧ e.1 ∈ tasks) ↔
        ∀ e ∈ deps, ∀ d ∈ e.2, d ∈ tasks :=
      ⟨fun h e he d hd => (h e he d hd).1, fun h e he d hd => ⟨h e he d hd, htasks e he⟩⟩
    rw [h.isOk_iff hkeys, hends]
  · obtain ⟨hnodes, order, hperm, hlinks, hnexts⟩ := (hg ▸ h).graph
    refine ⟨hnodes, fun t => ⟨?_, fun p => ?_⟩⟩
    · have hprev : g.prev t = depsOf deps t := by
        have hkeys' : (order.map (·.1)).Nodup := ((hperm.map (·.1)).nodup_iff).mpr hkeys
        rw [← depsOf_perm hperm hkeys, ← prev_linksOf hkeys' g.nodes, Graph.prev, hlinks]
        rfl
      rw [hprev]
    · rw [Graph.count_next, Graph.count_prev, hnexts, hlinks]

theorem join_built : ([("deploy", ["build", "lint"])].map (·.1)).Nodup ∧
    ∀ r, BuildOutcome ["build", "lint", "deploy"] [("deploy", ["build", "lint"])] r →
      ((∃ g, r = .ok g) ↔ ["build", "lint", "deploy"].Nodup ∧
        (∀ e ∈ [("deploy", ["build", "lint"])], ∀ d ∈ e.2, d ∈ ["build", "lint", "deploy"]) ∧
        ∀ t, ¬ TransGen (DependsOn [("deploy", ["build", "lint"])]) t t) := by
  refine ⟨by decide, fun r h => ?_⟩
  have hsound := @build_sound_and_complete ["build", "lint", "deploy"]
    [("deploy", ["build", "lint"])] (by decide)
  exact ((hsound.2.2.2 (by decide)).2 r h).1

end

section
variable {tasks doneTasks : List String} {deps : List (String × List String)} {g : Graph}

theorem BuildOutcome.dag (hkeys : (deps.map (·.1)).Nodup)
    (h : BuildOutcome tasks deps (.ok g)) : ∃ d : Dag, d.toGraph = g := by
  obtain ⟨hnodup, hends, hacyclic⟩ := (h.isOk_iff hkeys).mp ⟨g, rfl⟩
  obtain ⟨hnodes, order, hperm, hlinks, hnexts⟩ := h.graph
  have hdeps : ∀ l ∈ g.links, ∃ ds, (l.2, ds) ∈ deps ∧ l.1 ∈ ds := by
    rintro ⟨d, t⟩ hl
    rw [hlinks] at hl
    obtain ⟨ds, hds, hd⟩ := mem_linksOf.mp hl
    exact ⟨ds, hperm.mem_iff.mp hds, hd⟩
  refine ⟨⟨g, hnodes.nodup_iff.mpr hnodup, hnexts.trans hlinks.symm, fun l hl => ?_, ?_⟩, rfl⟩
  · obtain ⟨ds, hds, hd⟩ := hdeps l hl
    obtain ⟨h₁, h₂⟩ := hends _ hds _ hd
    exact ⟨hnodes.mem_iff.mpr h₁, hnodes.mem_iff.mpr h₂⟩
  · obtain ⟨rank, hrank⟩ := Kahn.exists_rank (acyclic_edges_iff.mpr hacyclic)
    exact ⟨rank, fun l hl => hrank l.1 l.2 ((mem_edges deps).mpr (hdeps l hl))⟩

/-- The list of done tasks is accepted exactly when it names tasks of the graph, each of them
a root or behind another one. -/
theorem getCandidateTasks_ok_iff (d : Dag) (doneTasks : List String) :
    (∃ candidates, getCandidateTasks d.toGraph doneTasks = .ok candidates) ↔
      (∀ n ∈ doneTasks, n ∈ d.nodes) ∧ Grounded d.toGraph doneTasks := by
  constructor
  · rintro ⟨candidates, h⟩
    have hnodes : ∀ n ∈ doneTasks, n ∈ d.nodes := by
      cases hdiff : diffLeft doneTasks (candidateSearch d doneTasks).2 with
      | nil => exact fun n hn => mem_nodes_of_reached (diffLeft_eq_nil.mp hdiff n hn)
      | cons n rest =>
        rw [candidateSearch] at hdiff
        unfold getCandidateTasks at h
        dsimp only at h
        rw [hdiff] at h
        cases h
    exact ⟨hnodes, (getCandidateTasks_isOk_iff hnodes).mp ⟨_, h⟩⟩
  · rintro ⟨hnodes, hgrounded⟩
    exact (getCandidateTasks_isOk_iff hnodes).mpr hgrounded

/-- `a` has to run before `t`. -/
def Ancestor (g : Graph) : String → String → Prop := TransGen fun p n => p ∈ g.prev n

/-- What is written about `GetCandidateTasks`: the done tasks are refused if one of them is no
task or has an ancestor that is not done; otherwise the tasks that can start are returned. -/
def CandidatesAsDocumented (g : Graph) (doneTasks : List String) : Prop :=
  ((∃ e, getCandidateTasks g doneTasks = .error e) ↔
    ∃ t ∈ doneTasks, t ∉ g.nodes ∨ ∃ a, Ancestor g a t ∧ a ∉ doneTasks) ∧
  ∀ candidates, getCandidateTasks g doneTasks = .ok candidates → ∀ n, n ∈ candidates ↔
    n ∈ g.nodes ∧ n ∉ doneTasks ∧ ∀ p ∈ g.prev n, p ∈ doneTasks

theorem ancestors_done_iff : (∀ t ∈ doneTasks, ∀ a, Ancestor g a t → a ∈ doneTasks) ↔
      ∀ t ∈ doneTasks, ∀ p ∈ g.prev t, p ∈ doneTasks := by
  constructor
  · intro h t ht p hp
    exact h t ht p (.single hp)
  · intro h t ht a ha
    induction ha using TransGen.head_induction_on with
    | single hp => exact h t ht _ hp
    | head hp _ ih => exact h _ ih _ hp

theorem error_iff_not_ok {ε α : Type} (x : Except ε α) :
    (∃ e, x = .error e) ↔ ¬ ∃ a, x = .ok a := by
  cases x with
  | error e => simp
  | ok a => simp

/-- The documentation is met unless the done tasks hang together although a predecessor of one
of them is not done: a task is reached through any one of its predecessors. -/
theorem candidates_as_documented_iff (hkeys : (deps.map (·.1)).Nodup)
    (h : BuildOutcome tasks deps (.ok g)) : CandidatesAsDocumented g doneTasks ↔
      ((∀ n ∈ doneTasks, n ∈ g.nodes ∧ (g.prev n = [] ∨ ∃ p ∈ g.prev n, p ∈ doneTasks)) →
        ∀ n ∈ doneTasks, ∀ p ∈ g.prev n, p ∈ doneTasks) := by
  obtain ⟨d, rfl⟩ := h.dag hkeys
  have hok := getCandidateTasks_ok_iff d doneTasks
  have hdocumented :
      (¬ ∃ t ∈ doneTasks, t ∉ d.nodes ∨ ∃ a, Ancestor d.toGraph a t ∧ a ∉ doneTasks) ↔
      (∀ n ∈ doneTasks, n ∈ d.nodes) ∧ ∀ n ∈ doneTasks, ∀ p ∈ d.prev n, p ∈ doneTasks := by
    rw [← ancestors_done_iff (g := d.toGraph)]
    simp only [not_exists, not_and, not_or, not_not]
    exact ⟨fun h => ⟨fun n hn => (h n hn).1, fun n hn => (h n hn).2⟩,
      fun h n hn => ⟨h.1 n hn, h.2 n hn⟩⟩
  constructor
  · rintro ⟨herror, -⟩ hgrounded
    rw [error_iff_not_ok, not_iff_comm, hdocumented, hok] at herror
    exact (herror.mpr ⟨fun n hn => (hgrounded n hn).1, fun n hn => (hgrounded n hn).2⟩).2
  · intro hclosed
    refine ⟨?_, fun candidates hcandidates n => ?_⟩
    · rw [error_iff_not_ok, not_iff_comm, hdocumented, hok]
      constructor
      · rintro ⟨hnodes, hdone⟩
        refine ⟨hnodes, fun n hn => ?_⟩
        cases hprev : d.prev n with
        | nil => exact .inl rfl
        | cons p rest =>
          have hp : p ∈ d.prev n := by simp [hprev]
          exact .inr ⟨p, mem_cons_self, hdone n hn p hp⟩
      · rintro ⟨hnodes, hgrounded⟩
        exact ⟨hnodes, hclosed fun n hn => ⟨hnodes n hn, hgrounded n hn⟩⟩
    · exact mem_candidates (hok.mp ⟨_, hcandidates⟩).1 hcandidates n

def join : Graph where
  nodes := ["build", "lint", "deploy"]
  links := [("build", "deploy"), ("lint", "deploy")]

theorem join_outcome :
    BuildOutcome ["build", "lint", "deploy"] [("deploy", ["build", "lint"])] (.ok join) := by
  have hbuild : build ["build", "lint", "deploy"] [("deploy", ["build", "lint"])] = .ok join := by
    decide
  exact hbuild ▸ build_outcome (by decide) (by decide)

/-- The join is done when only one of the two is. -/
theorem half_join_accepted :
    BuildOutcome ["build", "lint", "deploy"] [("deploy", ["build", "lint"])] (.ok join) ∧
    ¬ CandidatesAsDocumented join ["build", "deploy"] := by
  refine ⟨join_outcome, fun ⟨herror, _⟩ => ?_⟩
  have hok : getCandidateTasks join ["build", "deploy"] = .ok ["lint"] := by decide
  obtain ⟨e, he⟩ := herror.mpr ⟨"deploy", by decide, .inr ⟨"lint", .single (by decide), by decide⟩⟩
  rw [hok] at he
  cases he

theorem both_joined_documented :
    BuildOutcome ["build", "lint", "deploy"] [("deploy", ["build", "lint"])] (.ok join) ∧
    CandidatesAsDocumented join ["build", "lint"] :=
  ⟨join_outcome, (candidates_as_documented_iff (by decide) join_outcome).mpr (by decide)⟩

end

end TektonPipeline.Pipeline
