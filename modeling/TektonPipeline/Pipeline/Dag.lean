import TektonPipeline.Library.Search
import TektonPipeline.Library.Kahn
import TektonPipeline.Library.Assoc
import TektonPipeline.Api.PipelineTask

/-! The graph of the tasks of a pipeline and the search for tasks that can be scheduled. -/

namespace TektonPipeline.Pipeline
open Api List Assoc

/-- The keys of the nodes, and what was put into them, in this order. A pair of `links` is a
task in the `Prev` of the second, a pair of `nexts` a task in the `Next` of the first. -/
structure Graph where
  nodes : List String := []
  links : List (String × String) := []
  nexts : List (String × String) := links
  deriving DecidableEq

def Graph.prev (g : Graph) (n : String) : List String :=
  (g.links.filter fun l => l.2 == n).map (·.1)

def Graph.next (g : Graph) (n : String) : List String :=
  (g.nexts.filter fun l => l.1 == n).map (·.2)

theorem Graph.mem_prev {g : Graph} {p n : String} : p ∈ g.prev n ↔ (p, n) ∈ g.links := by
  simp [Graph.prev]

/-- Kahn's algorithm: an independent task is taken out of the dependencies of all others, and
tasks left without any become independent. What is left at the end depends on itself. -/
def kahn : Nat → List String → List (String × List String) → List (String × List String)
  | 0, _, dag => dag
  | _ + 1, [], dag => dag
  | fuel + 1, parent :: independentTasks, dag =>
    let dag := dag.map fun e => (e.1, e.2.filter (· ≠ parent))
    let freed := (dag.filter fun e => e.2.isEmpty).map (·.1)
    kahn fuel (independentTasks ++ freed) (dag.filter fun e => !e.2.isEmpty)

def quote (s : String) : String := "\"" ++ s ++ "\""

def getInterdependencyError (dag : List (String × List String)) : Option String :=
  match dag.insertionSort fun a b => a.1 ≤ b.1 with
  | [] => none
  | (firstChild, deps) :: _ =>
    some ("task " ++ quote firstChild ++ " depends on " ++
      ", ".intercalate ((deps.dedup.insertionSort (· ≤ ·)).map quote))

def findCyclesInDependencies (deps : List (String × List String)) : Option String :=
  let dag := deps.filter fun e => !e.2.isEmpty
  let independentTasks :=
    (dag.flatMap fun e => e.2.filter fun d => ((deps.lookup d).getD []).isEmpty).dedup
  getInterdependencyError (kahn (independentTasks.length + dag.length) independentTasks dag)

def addPipelineTasks : List String → List String → Except String (List String)
  | nodes, [] => .ok nodes
  | nodes, t :: ts =>
    if t ∈ nodes then
      .error ("task " ++ t ++
        " is already present in Graph, can't add it again: duplicate pipeline task")
    else addPipelineTasks (nodes ++ [t]) ts

/-- A link to a task that is not a node ends in the dereference of a nil pointer. -/
def addLinks (nodes : List String) (links nexts : List (String × String)) :
    List (String × String) → Except String (List (String × String) × List (String × String))
  | [] => .ok (links, nexts)
  | (prev, pt) :: rest =>
    if prev ∉ nodes then
      .error ("couldn't add link between " ++ pt ++ " and " ++ prev ++ ": task " ++ pt ++
        " depends on " ++ prev ++ " but " ++ prev ++ " wasn't present in Pipeline")
    else if pt ∉ nodes then .error "invalid memory address or nil pointer dereference"
    else addLinks nodes (links ++ [(prev, pt)]) (nexts ++ [(prev, pt)]) rest

def linksOf (deps : List (String × List String)) : List (String × String) :=
  deps.flatMap fun e => e.2.map fun d => (d, e.1)

def build (tasks : List String) (deps : List (String × List String)) : Except String Graph :=
  match addPipelineTasks [] tasks with
  | .error e => .error e
  | .ok nodes =>
    match findCyclesInDependencies deps with
    | some e => .error ("cycle detected; " ++ e)
    | none =>
      match addLinks nodes [] [] (linksOf deps) with
      | .error e => .error e
      | .ok (links, nexts) => .ok { nodes := nodes, links := links, nexts := nexts }

def getRoots (g : Graph) : List String := g.nodes.filter fun n => (g.prev n).isEmpty

def isSchedulable (doneTasks prevs : List String) : Bool :=
  prevs.isEmpty || (prevs.filter fun p => decide (p ∈ doneTasks)).length == prevs.length

def findSchedulable (g : Graph) (doneTasks : List String) :
    Nat → String → List String → List String × List String :=
  Search.visit g.next (fun n => decide (n ∈ doneTasks))
    fun n => if isSchedulable doneTasks (g.prev n) then [n] else []

def diffLeft (left right : List String) : List String := left.filter fun s => decide (s ∉ right)

def notVisitedMessage (notVisited : List String) : String :=
  "invalid list of done tasks; some tasks were indicated completed without ancestors being " ++
    "done: [" ++ " ".intercalate notVisited ++ "]"

def getCandidateTasks (g : Graph) (doneTasks : List String) : Except String (List String) :=
  let (schedulable, visited) :=
    Search.visitEach (findSchedulable g doneTasks (g.nodes.length + 1)) (getRoots g) []
  match diffLeft doneTasks visited with
  | [] => .ok schedulable
  | notVisited =>
    .error (notVisitedMessage notVisited)

/-- A graph as `build` returns it. -/
structure Dag extends Graph where
  nodup : nodes.Nodup
  inverse : nexts = links := by rfl
  ends : ∀ l ∈ links, l.1 ∈ nodes ∧ l.2 ∈ nodes
  acyclic : ∃ rank : String → Nat, ∀ l ∈ links, rank l.1 < rank l.2

theorem Dag.mem_next {g : Dag} {p n : String} : n ∈ g.next p ↔ p ∈ g.prev n := by
  simp [Graph.mem_prev, Graph.next, g.inverse]

theorem acyclic_nil : ∃ rank : String → Nat,
    ∀ l ∈ ([] : List (String × String)), rank l.1 < rank l.2 :=
  ⟨fun _ => 0, fun _ hl => absurd hl not_mem_nil⟩

theorem addPipelineTasks_eq_ok_iff {nodes tasks r : List String} (hnodup : nodes.Nodup) :
    addPipelineTasks nodes tasks = .ok r ↔ r = nodes ++ tasks ∧ r.Nodup := by
  induction tasks generalizing nodes with
  | nil =>
    rw [addPipelineTasks, Except.ok.injEq, append_nil]
    exact ⟨fun h => ⟨h.symm, h ▸ hnodup⟩, fun h => h.1.symm⟩
  | cons t ts ih =>
    unfold addPipelineTasks
    by_cases ht : t ∈ nodes
    · rw [if_pos ht]
      refine iff_of_false (by simp) ?_
      rintro ⟨rfl, h⟩
      exact (nodup_append.mp h).2.2 t ht t mem_cons_self rfl
    · have hnodup' : (nodes ++ [t]).Nodup := by
        refine nodup_append.mpr ⟨hnodup, nodup_singleton t, fun a ha b hb heq => ?_⟩
        exact ht (mem_singleton.mp hb ▸ heq ▸ ha)
      rw [if_neg ht, ih hnodup', append_assoc, singleton_append]

theorem addLinks_eq_ok_iff {nodes : List String} {links nexts rest : List (String × String)}
    {r : List (String × String) × List (String × String)} :
    addLinks nodes links nexts rest = .ok r ↔
      r = (links ++ rest, nexts ++ rest) ∧ ∀ l ∈ rest, l.1 ∈ nodes ∧ l.2 ∈ nodes := by
  induction rest generalizing links nexts with
  | nil => simp [addLinks, eq_comm]
  | cons l rest ih =>
    unfold addLinks
    rw [forall_mem_cons]
    by_cases hprev : l.1 ∈ nodes
    · by_cases hpt : l.2 ∈ nodes
      · simp [hprev, hpt, ih]
      · simp [hprev, hpt]
    · simp [hprev]

theorem getInterdependencyError_eq_none {dag : List (String × List String)}
    (h : getInterdependencyError dag = none) : dag = [] := by
  unfold getInterdependencyError at h
  split at h
  · rename_i heq
    have hperm := perm_insertionSort (fun a b : String × List String => a.1 ≤ b.1) dag
    rw [heq] at hperm
    exact hperm.nil_eq.symm
  · cases h

theorem mem_linksOf {deps : List (String × List String)} {d t : String} :
    (d, t) ∈ linksOf deps ↔ ∃ ds, (t, ds) ∈ deps ∧ d ∈ ds := by
  simp only [linksOf, mem_flatMap, mem_map, Prod.mk.injEq]
  constructor
  · rintro ⟨⟨t', ds⟩, hmem, d', hd', rfl, rfl⟩
    exact ⟨ds, hmem, hd'⟩
  · rintro ⟨ds, hmem, hd⟩
    exact ⟨(t, ds), hmem, d, hd, rfl, rfl⟩

section
variable {deps : List (String × List String)} {d t : String}

def depsOf (deps : List (String × List String)) (t : String) : List String :=
  (deps.lookup t).getD []

def edges (deps : List (String × List String)) : Finset (String × String) :=
  (linksOf deps).toFinset

theorem mem_edges (deps : List (String × List String)) :
    (d, t) ∈ edges deps ↔ ∃ ds, (t, ds) ∈ deps ∧ d ∈ ds := by
  rw [edges, mem_toFinset, mem_linksOf]

theorem mem_depsOf (hkeys : (deps.map (·.1)).Nodup) : d ∈ depsOf deps t ↔ (d, t) ∈ edges deps := by
  rw [mem_edges]
  constructor
  · intro hd
    unfold depsOf at hd
    cases hlookup : deps.lookup t with
    | none => simp [hlookup] at hd
    | some ds =>
      rw [hlookup] at hd
      exact ⟨ds, mem_of_lookup hlookup, hd⟩
  · rintro ⟨ds, hmem, hd⟩
    rw [depsOf, lookup_of_mem hkeys hmem]
    exact hd

variable {R : String → String → Prop} {dag : List (String × List String)} {parent : String}
  {independent rest : List String}

/-- The tasks with what they still depend on once the parent is done. -/
abbrev without (parent : String) (dag : List (String × List String)) :
    List (String × List String) :=
  dag.map fun e => (e.1, e.2.filter (· ≠ parent))

theorem mem_linksOf_without : (d, t) ∈ linksOf ((without parent dag).filter fun e => !e.2.isEmpty) ↔
      (d, t) ∈ linksOf dag ∧ d ≠ parent := by
  simp only [mem_linksOf]
  constructor
  · rintro ⟨ds, hmem, hd⟩
    obtain ⟨e, he, heq⟩ := mem_map.mp (mem_filter.mp hmem).1
    obtain ⟨rfl, rfl⟩ := Prod.mk.inj heq
    obtain ⟨hd, hne⟩ := mem_filter.mp hd
    exact ⟨⟨e.2, he, hd⟩, by simpa using hne⟩
  · rintro ⟨⟨ds, hmem, hd⟩, hne⟩
    have hd' : d ∈ ds.filter (· ≠ parent) := mem_filter.mpr ⟨hd, by simpa using hne⟩
    refine ⟨ds.filter (· ≠ parent), mem_filter.mpr ⟨?_, ?_⟩, hd'⟩
    · exact mem_map.mpr ⟨(t, ds), hmem, rfl⟩
    · simpa using ne_nil_of_mem hd'

/-- What holds at each turn of the loop. Only accessible tasks are independent, and of the
accessible ones a task waits for those that are independent or wait themselves. -/
structure Waiting (R : String → String → Prop) (independent : List String)
    (dag : List (String × List String)) : Prop where
  full : ∀ e ∈ dag, e.2 ≠ []
  active : ∀ p ∈ independent, Acc R p
  dep : ∀ e ∈ dag, ∀ d ∈ e.2, R d e.1
  all : ∀ e ∈ dag, (∀ d ∈ e.2, Acc R d) → Acc R e.1
  wait : ∀ e ∈ dag, ∀ d ∈ e.2, Acc R d → d ∈ independent ∨ d ∈ dag.map (·.1)

/-- Where nothing is independent any more, a task all of whose dependencies are accessible
would have to wait for one that is not. -/
theorem Waiting.not_mem (h : Waiting R [] dag) (hacc : Acc R d) : ∀ e ∈ dag, d ∉ e.2 := by
  induction hacc with
  | intro d hbefore ih =>
    intro e he hd
    have hkey := (h.wait e he d hd (.intro d hbefore)).resolve_left not_mem_nil
    obtain ⟨e', he', rfl⟩ := mem_map.mp hkey
    obtain ⟨d', hd'⟩ := exists_mem_of_ne_nil e'.2 (h.full e' he')
    exact ih d' (h.dep e' he' d' hd') e' he' hd'

theorem Waiting.step (h : Waiting R (parent :: rest) dag) :
    Waiting R (rest ++ ((without parent dag).filter fun e => e.2.isEmpty).map (·.1))
      ((without parent dag).filter fun e => !e.2.isEmpty) := by
  have hall : ∀ e ∈ without parent dag, (∀ d ∈ e.2, Acc R d) → Acc R e.1 := by
    intro e hmem hacc
    obtain ⟨e, he, rfl⟩ := mem_map.mp hmem
    refine h.all e he fun d hd => ?_
    by_cases hdp : d = parent
    · exact hdp ▸ h.active parent mem_cons_self
    · exact hacc d (mem_filter.mpr ⟨hd, by simpa using hdp⟩)
  refine ⟨fun e he => ?_, fun p hp => ?_, fun e he d hd => ?_,
    fun e he => hall e (mem_filter.mp he).1, fun e he d hd hacc => ?_⟩
  · simpa using (mem_filter.mp he).2
  · rcases mem_append.mp hp with hrest | hfreed
    · exact h.active p (mem_cons_of_mem parent hrest)
    · obtain ⟨e, he, rfl⟩ := mem_map.mp hfreed
      obtain ⟨he, hempty⟩ := mem_filter.mp he
      refine hall e he fun d hd => ?_
      simp [List.isEmpty_iff.mp hempty] at hd
  · obtain ⟨e', he', rfl⟩ := mem_map.mp (mem_filter.mp he).1
    exact h.dep e' he' d (mem_filter.mp hd).1
  · obtain ⟨e', he', rfl⟩ := mem_map.mp (mem_filter.mp he).1
    obtain ⟨hd, hne⟩ := mem_filter.mp hd
    rcases h.wait e' he' d hd hacc with hmem | hkey
    · exact .inl (mem_append_left _ ((mem_cons.mp hmem).resolve_left (by simpa using hne)))
    · obtain ⟨e', he', rfl⟩ := mem_map.mp hkey
      have hmem : (e'.1, e'.2.filter (· ≠ parent)) ∈ without parent dag :=
        mem_map.mpr ⟨e', he', rfl⟩
      by_cases hempty : (e'.2.filter (· ≠ parent)).isEmpty = true
      · exact .inl (mem_append_right _ (mem_map.mpr ⟨_, mem_filter.mpr ⟨hmem, hempty⟩, rfl⟩))
      · exact .inr (mem_map.mpr ⟨_, mem_filter.mpr ⟨hmem, by simpa using hempty⟩, rfl⟩)

theorem mem_linksOf_kahn {fuel : Nat} (hfuel : independent.length + dag.length ≤ fuel)
    (h : Waiting R independent dag) :
    (d, t) ∈ linksOf (kahn fuel independent dag) ↔ (d, t) ∈ linksOf dag ∧ ¬ Acc R d := by
  induction fuel generalizing independent dag with
  | zero =>
    obtain rfl : dag = [] := length_eq_zero_iff.mp (by omega)
    simp [kahn, linksOf]
  | succ fuel ih =>
    cases independent with
    | nil =>
      refine ⟨fun hmem => ⟨hmem, fun hacc => ?_⟩, fun hmem => hmem.1⟩
      obtain ⟨ds, hds, hd⟩ := mem_linksOf.mp hmem
      exact h.not_mem hacc (t, ds) hds hd
    | cons parent rest =>
      have hsplit := length_eq_length_filter_add (l := without parent dag) fun e => e.2.isEmpty
      simp only [length_map, length_cons] at hsplit hfuel
      rw [kahn, ih (by simp only [length_append, length_map]; omega) h.step, mem_linksOf_without]
      constructor
      · rintro ⟨⟨hmem, -⟩, hacc⟩
        exact ⟨hmem, hacc⟩
      · rintro ⟨hmem, hacc⟩
        exact ⟨⟨hmem, fun heq => hacc (heq ▸ h.active parent mem_cons_self)⟩, hacc⟩

/-- The tasks `findCyclesInDependencies` has left when it looks for its error. -/
def leftOver (deps : List (String × List String)) : List (String × List String) :=
  let dag := deps.filter fun e => !e.2.isEmpty
  let independentTasks :=
    (dag.flatMap fun e => e.2.filter fun d => ((deps.lookup d).getD []).isEmpty).dedup
  kahn (independentTasks.length + dag.length) independentTasks dag

theorem mem_linksOf_leftOver (hkeys : (deps.map (·.1)).Nodup) :
    (d, t) ∈ linksOf (leftOver deps) ↔ (d, t) ∈ edges deps ∧ ¬ Acc (Kahn.Edge (edges deps)) d := by
  have hlinks : (d, t) ∈ linksOf (deps.filter fun e => !e.2.isEmpty) ↔ (d, t) ∈ edges deps := by
    rw [mem_edges, mem_linksOf]
    constructor
    · rintro ⟨ds, hmem, hd⟩
      exact ⟨ds, (mem_filter.mp hmem).1, hd⟩
    · rintro ⟨ds, hmem, hd⟩
      exact ⟨ds, mem_filter.mpr ⟨hmem, by simpa using ne_nil_of_mem hd⟩, hd⟩
  have hedge : ∀ e ∈ deps, ∀ d ∈ e.2, (d, e.1) ∈ edges deps := fun e he d hd =>
    (mem_edges deps).mpr ⟨e.2, he, hd⟩
  rw [leftOver, mem_linksOf_kahn (R := Kahn.Edge (edges deps)) le_rfl ?_, hlinks]
  refine ⟨fun e he => ?_, fun p hp => ?_, ?_, fun e he h => ?_, fun e he d hd _ => ?_⟩
  · simpa using (mem_filter.mp he).2
  · rw [mem_dedup, mem_flatMap] at hp
    obtain ⟨e, -, hp⟩ := hp
    have hnone : depsOf deps p = [] := by simpa [depsOf] using (mem_filter.mp hp).2
    refine .intro p fun d hd => ?_
    have hmem := (mem_depsOf hkeys).mpr hd
    simp [hnone] at hmem
  · exact fun e he d hd => hedge e (mem_filter.mp he).1 d hd
  · refine .intro e.1 fun d hd => h d ?_
    have hmem := (mem_depsOf hkeys).mpr hd
    rwa [depsOf, lookup_of_mem hkeys (mem_filter.mp he).1] at hmem
  · by_cases hnone : depsOf deps d = []
    · refine .inl (mem_dedup.mpr (mem_flatMap.mpr ⟨e, he, ?_⟩))
      exact mem_filter.mpr ⟨hd, by simpa [depsOf] using hnone⟩
    · obtain ⟨d', hd'⟩ := exists_mem_of_ne_nil _ hnone
      obtain ⟨ds, hds, hd'⟩ := (mem_edges deps).mp ((mem_depsOf hkeys).mp hd')
      refine .inr (mem_map.mpr ⟨(d, ds), mem_filter.mpr ⟨hds, ?_⟩, rfl⟩)
      simpa using ne_nil_of_mem hd'

/-- Where nothing is left, every task ranks above what it depends on. -/
theorem findCyclesInDependencies_ranked (hkeys : (deps.map (·.1)).Nodup)
    (h : findCyclesInDependencies deps = none) :
    ∃ rank : String → Nat, ∀ l ∈ linksOf deps, rank l.1 < rank l.2 := by
  have hnil : leftOver deps = [] := getInterdependencyError_eq_none h
  have hacc : ∀ e ∈ edges deps, Acc (Kahn.Edge (edges deps)) e.1 := by
    rintro ⟨d, t⟩ he
    by_contra hnot
    have hmem := (mem_linksOf_leftOver hkeys).mpr ⟨he, hnot⟩
    simp [hnil, linksOf] at hmem
  obtain ⟨rank, hrank⟩ := Kahn.exists_rank (Kahn.acyclic_of_acc hacc)
  exact ⟨rank, fun l hl => hrank l.1 l.2 (mem_toFinset.mpr hl)⟩

end

theorem build_ok {tasks : List String} {deps : List (String × List String)} {g : Graph}
    (hkeys : (deps.map (·.1)).Nodup) (h : build tasks deps = .ok g) :
    g.nodes = tasks ∧ g.links = linksOf deps ∧ ∃ d : Dag, d.toGraph = g := by
  unfold build at h
  split at h
  · cases h
  rename_i nodes hnodes
  split at h
  · cases h
  rename_i hcycles
  split at h
  · cases h
  rename_i links nexts hlinks
  obtain rfl := Except.ok.inj h
  obtain ⟨rfl, hnodup⟩ := (addPipelineTasks_eq_ok_iff nodup_nil).mp hnodes
  obtain ⟨hstored, hends⟩ := addLinks_eq_ok_iff.mp hlinks
  obtain ⟨rfl, rfl⟩ := Prod.mk.inj hstored
  refine ⟨rfl, rfl, ⟨⟨_, _, _⟩, hnodup, rfl, hends, ?_⟩, rfl⟩
  exact findCyclesInDependencies_ranked hkeys hcycles

theorem isSchedulable_iff {doneTasks prevs : List String} :
    isSchedulable doneTasks prevs = true ↔ ∀ p ∈ prevs, p ∈ doneTasks := by
  unfold isSchedulable
  rw [Bool.or_eq_true, beq_iff_eq, length_filter_eq_length_iff]
  simp only [decide_eq_true_eq]
  constructor
  · rintro (hnil | h)
    · simp_all
    · exact h
  · exact .inr

theorem mem_getRoots {g : Graph} {n : String} : n ∈ getRoots g ↔ n ∈ g.nodes ∧ g.prev n = [] := by
  simp [getRoots]

section
variable (g : Dag) (doneTasks : List String)

/-- The search of `getCandidateTasks`. -/
def candidateSearch : List String × List String :=
  Search.visitEach (findSchedulable g.toGraph doneTasks (g.nodes.length + 1))
    (getRoots g.toGraph) []

theorem candidateSearch_searched : Search.Searched g.next (fun n => decide (n ∈ doneTasks))
      (fun n => if isSchedulable doneTasks (g.prev n) then [n] else []) (getRoots g.toGraph) []
      (candidateSearch g doneTasks) := by
  have hnext : ∀ a ∈ g.nodes, ∀ b ∈ g.next a, b ∈ g.nodes := by
    intro a _ b hb
    exact (g.ends (a, b) (Graph.mem_prev.mp (Dag.mem_next.mp hb))).2
  refine Search.visitEach_searched fun a ha before _ => ?_
  refine Search.visit_searched hnext _ a before (mem_getRoots.mp ha).1 ?_
  exact Nat.lt_succ_of_le (length_filter_le _ _)

def Grounded (g : Graph) (doneTasks : List String) : Prop :=
  ∀ n ∈ doneTasks, g.prev n = [] ∨ ∃ p ∈ g.prev n, p ∈ doneTasks

variable {g doneTasks}

theorem mem_candidateSearch {n : String} : n ∈ (candidateSearch g doneTasks).2 ↔
      Search.Reached g.next (fun n => decide (n ∈ doneTasks)) (getRoots g.toGraph) n :=
  (candidateSearch_searched g doneTasks).mem_iff

theorem Dag.prev_mem_nodes {p n : String} (h : p ∈ g.prev n) : p ∈ g.nodes ∧ n ∈ g.nodes :=
  g.ends (p, n) (Graph.mem_prev.mp h)

theorem Dag.bounded_rank (g : Dag) :
    ∃ rank : String → Nat, (∀ p n, p ∈ g.prev n → rank p < rank n) ∧
      ∀ n, rank n ≤ g.nodes.length := by
  obtain ⟨rank, hrank⟩ := g.acyclic
  have hnodes : ∀ p n, p ∈ g.prev n → p ∈ g.nodes := fun p n hp => (Dag.prev_mem_nodes hp).1
  have hlt : ∀ p n, p ∈ g.prev n → rank p < rank n :=
    fun p n hp => hrank (p, n) (Graph.mem_prev.mp hp)
  exact Search.exists_bounded_rank hnodes hlt

/-- By induction on the rank: a done task is reached through the done task before it. -/
theorem reached_of_grounded (hnodes : ∀ n ∈ doneTasks, n ∈ g.nodes)
    (h : Grounded g.toGraph doneTasks) (n : String) (hn : n ∈ doneTasks) :
    n ∈ (candidateSearch g doneTasks).2 := by
  obtain ⟨rank, hrank⟩ := g.acyclic
  induction hr : rank n using Nat.strong_induction_on generalizing n with
  | _ r ih =>
    rcases h n hn with hroot | ⟨p, hp, hdone⟩
    · exact mem_candidateSearch.mpr (.root (mem_getRoots.mpr ⟨hnodes n hn, hroot⟩))
    · have hlt : rank p < r := hr ▸ hrank (p, n) (Graph.mem_prev.mp hp)
      have hreached := mem_candidateSearch.mp (ih (rank p) hlt p hdone rfl)
      exact mem_candidateSearch.mpr (.step hreached (by simpa using hdone) (Dag.mem_next.mpr hp))

theorem grounded_of_reached (h : ∀ n ∈ doneTasks, n ∈ (candidateSearch g doneTasks).2) :
    Grounded g.toGraph doneTasks := by
  intro n hn
  cases mem_candidateSearch.mp (h n hn) with
  | root hroot => exact .inl (mem_getRoots.mp hroot).2
  | step _ hpass hnext => exact .inr ⟨_, Dag.mem_next.mp hnext, by simpa using hpass⟩

theorem diffLeft_eq_nil {left right : List String} :
    diffLeft left right = [] ↔ ∀ n ∈ left, n ∈ right := by
  simp [diffLeft]

theorem mem_nodes_of_reached {n : String} (h : n ∈ (candidateSearch g doneTasks).2) :
    n ∈ g.nodes := by
  cases mem_candidateSearch.mp h with
  | root hroot => exact (mem_getRoots.mp hroot).1
  | step _ _ hnext => exact (Dag.prev_mem_nodes (Dag.mem_next.mp hnext)).2

theorem getCandidateTasks_eq : getCandidateTasks g.toGraph doneTasks =
    match diffLeft doneTasks (candidateSearch g doneTasks).2 with
    | [] => .ok (candidateSearch g doneTasks).1
    | notVisited => .error (notVisitedMessage notVisited) := rfl

theorem getCandidateTasks_isOk_iff (hnodes : ∀ n ∈ doneTasks, n ∈ g.nodes) :
    (∃ candidates, getCandidateTasks g.toGraph doneTasks = .ok candidates) ↔
      Grounded g.toGraph doneTasks := by
  rw [getCandidateTasks_eq]
  cases hdiff : diffLeft doneTasks (candidateSearch g doneTasks).2 with
  | nil =>
    refine iff_of_true ⟨_, rfl⟩ (grounded_of_reached ?_)
    exact diffLeft_eq_nil.mp hdiff
  | cons n rest =>
    refine iff_of_false (by simp) fun h => ?_
    have hnil := diffLeft_eq_nil.mpr fun n hn => reached_of_grounded hnodes h n hn
    rw [hdiff] at hnil
    cases hnil

theorem mem_candidates {candidates : List String} (hnodes : ∀ n ∈ doneTasks, n ∈ g.nodes)
    (h : getCandidateTasks g.toGraph doneTasks = .ok candidates) (n : String) :
    n ∈ candidates ↔ n ∈ g.nodes ∧ n ∉ doneTasks ∧ ∀ p ∈ g.prev n, p ∈ doneTasks := by
  have hgrounded := (getCandidateTasks_isOk_iff hnodes).mp ⟨_, h⟩
  have hcandidates : candidates = (candidateSearch g doneTasks).1 := by
    have hdiff : diffLeft doneTasks (candidateSearch g doneTasks).2 = [] :=
      diffLeft_eq_nil.mpr fun n hn => reached_of_grounded hnodes hgrounded n hn
    have hok : getCandidateTasks g.toGraph doneTasks = .ok (candidateSearch g doneTasks).1 := by
      rw [getCandidateTasks_eq, hdiff]
    exact Except.ok.inj (h.symm.trans hok)
  rw [hcandidates, (candidateSearch_searched g doneTasks).reports]
  constructor
  · rintro ⟨a, ha, -, hdone, hreport⟩
    by_cases hs : isSchedulable doneTasks (g.prev a) = true
    · rw [if_pos hs, mem_singleton] at hreport
      subst hreport
      exact ⟨mem_nodes_of_reached ha, by simpa using hdone, isSchedulable_iff.mp hs⟩
    · simp [hs] at hreport
  · rintro ⟨hn, hdone, hprev⟩
    refine ⟨n, ?_, by simp, by simpa using hdone, by simp [isSchedulable_iff.mpr hprev]⟩
    cases hcase : g.prev n with
    | nil => exact mem_candidateSearch.mpr (.root (mem_getRoots.mpr ⟨hn, hcase⟩))
    | cons p rest =>
      have hp : p ∈ g.prev n := by simp [hcase]
      have hreached := reached_of_grounded hnodes hgrounded p (hprev p hp)
      exact mem_candidateSearch.mpr (.step (mem_candidateSearch.mp hreached)
        (by simpa using hprev p hp) (Dag.mem_next.mpr hp))

end

end TektonPipeline.Pipeline
