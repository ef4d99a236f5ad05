import TektonPipeline.ComputeResources.LimitRanges
import TektonPipeline.TaskRun.Conditions

/-! The requests that a LimitRange gives to the steps of a pod. -/

namespace TektonPipeline.ComputeResources
open List
open TaskRunReconciler (isContainerStep)

structure Container where
  name : String
  resources : ResourceRequirements := {}
  deriving DecidableEq

def put (l : ResourceList) (name : ResourceName) (q : Int) : ResourceList :=
  Assoc.upsert l name (fun _ => q) q

def setRequests (src dst : ResourceList) (name : ResourceName) : ResourceList :=
  if dst.get name = 0 ∧ src.get name ≠ 0 then put dst name (src.get name) else dst

def addDefaultRequest (nbContainers : Nat) (item : LimitRangeItem) (r : ResourceList)
    (name : ResourceName) : ResourceList :=
  let result := maxRequest
    [r.get name, share name (item.amounts .defaultRequest name) nbContainers,
      item.amounts .min name]
  if result = 0 then r else put r name result

def addItemRequests (nbContainers : Nat) (r : ResourceList) (item : LimitRangeItem) :
    ResourceList :=
  if item.type = .container then resourceNames.foldl (addDefaultRequest nbContainers item) r else r

def getDefaultStepContainerRequest (limitRange : LimitRange) (nbContainers : Nat) :
    Option ResourceList :=
  let r := limitRange.limits.foldl (addItemRequests nbContainers) []
  if r = [] then none else some r

def nbStepContainers (containers : List Container) : Nat :=
  (containers.filter fun c => isContainerStep c.name).length

def transformContainer (defaults : Option ResourceList) (c : Container) : Container :=
  if isContainerStep c.name then
    { c with resources := { c.resources with
      requests :=
        match c.resources.requests with
        | none => defaults
        | some l => some (resourceNames.foldl (setRequests (defaults.getD [])) l) } }
  else c

/-- Of a pod its containers are read and written. A default request is divided by the number of
steps, which panics where there are none. -/
def transformPodBasedOnLimitRange (containers : List Container) (limitRange : Option LimitRange) :
    Option (List Container) :=
  match limitRange with
  | none => some containers
  | some lr =>
    let n := nbStepContainers containers
    if n = 0 ∧ ∃ item ∈ lr.limits, item.type = .container then none
    else some (containers.map (transformContainer (getDefaultStepContainerRequest lr n)))

/-! ## What is meant -/

def Container.requests (c : Container) : ResourceList := c.resources.requests.getD []

def Container.limits (c : Container) : ResourceList := c.resources.limits.getD []

def Container.WithinLimits (c : Container) : Prop :=
  ∀ k r q, c.requests.lookup k = some r → c.limits.lookup k = some q → r ≤ q

def defaultsOf (n : Nat) (k : ResourceName) (items : List LimitRangeItem) : List Int :=
  (items.filter fun item => item.type = .container).flatMap fun item =>
    [share k (item.amounts .defaultRequest k) n, item.amounts .min k]

/-- What becomes of a container. -/
structure Filled (lr : LimitRange) (n : Nat) (c c' : Container) : Prop where
  name : c'.name = c.name
  limits : c'.resources.limits = c.resources.limits
  other : isContainerStep c.name = false → c' = c
  unchanged : ∀ k, k ∉ resourceNames ∨ c.requests.get k ≠ 0 →
    c'.requests.lookup k = c.requests.lookup k
  filled : isContainerStep c.name = true → ∀ k ∈ resourceNames, c.requests.get k = 0 →
    IsLargest (c'.requests.get k) (defaultsOf n k lr.limits)

def KeepsValid (lr : LimitRange) (containers out : List Container) : Prop :=
  List.Forall₂ (Filled lr (nbStepContainers containers)) containers out ∧
    ∀ c ∈ out, c.WithinLimits

/-! ## The requests of a step -/

theorem lookup_put (l : ResourceList) (name : ResourceName) (q : Int) (k : ResourceName) :
    (put l name q).lookup k = if k = name then some q else l.lookup k := by
  rw [put, Assoc.lookup_upsert]
  cases l.lookup name <;> rfl

/-- Each name is written once, from its own entry, or left as it is. -/
theorem lookup_foldl {g : ResourceList → ResourceName → ResourceList} {f : ResourceName → Int → Int}
    (hstep : ∀ r name, g r name =
      if f name (r.get name) = 0 then r else put r name (f name (r.get name)))
    {names : List ResourceName} (hnames : names.Nodup) (r : ResourceList) (k : ResourceName) :
    (names.foldl g r).lookup k =
      if k ∈ names ∧ f k (r.get k) ≠ 0 then some (f k (r.get k)) else r.lookup k := by
  induction names generalizing r with
  | nil => simp
  | cons name names ih =>
    obtain ⟨hname, hrest⟩ := nodup_cons.mp hnames
    have hlookup : (g r name).lookup k =
        if k = name ∧ f name (r.get name) ≠ 0 then some (f name (r.get name)) else r.lookup k := by
      rw [hstep]
      split
      · simp_all
      · simp_all [lookup_put]
    rw [foldl_cons, ih hrest]
    by_cases hk : k = name
    · subst hk
      simp [hname, hlookup]
    · have hget : (g r name).get k = r.get k := by simp [ResourceList.get, hlookup, hk]
      simp [hget, hlookup, hk]

theorem maxRequest_triple (l : List Int) (x y : Int) :
    maxRequest (l ++ [x, y]) = maxRequest [maxRequest l, x, y] := by
  rw [append_cons, maxRequest_pair, maxRequest_pair]
  exact (maxRequest_pair [maxRequest l, x] y).symm

theorem resourceNames_nodup : resourceNames.Nodup := by decide

theorem defaultsOf_append (n : Nat) (k : ResourceName) (items : List LimitRangeItem)
    (item : LimitRangeItem) : defaultsOf n k (items ++ [item]) = defaultsOf n k items ++
      if item.type = .container then
        [share k (item.amounts .defaultRequest k) n, item.amounts .min k] else [] := by
  rw [defaultsOf, filter_append, flatMap_append, ← defaultsOf]
  by_cases h : item.type = .container
  · simp [h]
  · simp [h]

def largest (lr : LimitRange) (n : Nat) (k : ResourceName) : Int :=
  maxRequest (defaultsOf n k lr.limits)

/-- The defaults after the items so far hold the largest of each resource that is not zero. -/
theorem lookup_defaults (n : Nat) (items : List LimitRangeItem) (k : ResourceName) :
    (items.foldl (addItemRequests n) []).lookup k =
      if k ∈ resourceNames ∧ maxRequest (defaultsOf n k items) ≠ 0 then
        some (maxRequest (defaultsOf n k items)) else none := by
  induction items using List.reverseRecOn with
  | nil => simp [defaultsOf, maxRequest]
  | append_singleton items item ih =>
    rw [foldl_append, defaultsOf_append, foldl_cons, foldl_nil, addItemRequests]
    generalize items.foldl (addItemRequests n) [] = r at ih ⊢
    by_cases hitem : item.type = .container
    · rw [if_pos hitem, if_pos hitem]
      have hstep := lookup_foldl (g := addDefaultRequest n item) (f := fun name a => maxRequest
        [a, share name (item.amounts .defaultRequest name) n, item.amounts .min name])
        (fun r name => rfl) resourceNames_nodup r k
      rw [hstep, ih]
      by_cases hk : k ∈ resourceNames
      · have hmax := (maxRequest_isLargest (defaultsOf n k items)).2.1
        have hget : r.get k = maxRequest (defaultsOf n k items) := by
          rw [ResourceList.get, ih]
          by_cases h0 : maxRequest (defaultsOf n k items) = 0
          · simp [h0]
          · simp [h0, hk]
        rw [hget, maxRequest_triple]
        generalize maxRequest (defaultsOf n k items) = m at hmax ⊢
        have hle := (maxRequest_isLargest
          [m, share k (item.amounts .defaultRequest k) n, item.amounts .min k]).2.2 m (by simp)
        by_cases h0 : maxRequest
            [m, share k (item.amounts .defaultRequest k) n, item.amounts .min k] = 0
        · have hm : m = 0 := by omega
          simp [hm]
        · simp [h0, hk]
      · simp [hk]
    · rw [if_neg hitem, if_neg hitem, append_nil, ih]

theorem lookup_getDefault (lr : LimitRange) (n : Nat) (k : ResourceName) :
    ((getDefaultStepContainerRequest lr n).getD []).lookup k =
      if k ∈ resourceNames ∧ largest lr n k ≠ 0 then some (largest lr n k) else none := by
  rw [largest, ← lookup_defaults, getDefaultStepContainerRequest]
  split
  · next h => simp [h]
  · rfl

theorem get_getDefault (lr : LimitRange) (n : Nat) {k : ResourceName} (hk : k ∈ resourceNames) :
    ResourceList.get ((getDefaultStepContainerRequest lr n).getD []) k = largest lr n k := by
  rw [ResourceList.get, lookup_getDefault]
  by_cases h : largest lr n k = 0
  · simp [h]
  · simp [h, hk]

section
variable (lr : LimitRange) (n : Nat) (c : Container)

/-- A resource that a step does not request gets the largest default, if there is one. -/
theorem lookup_transformContainer (hstep : isContainerStep c.name = true) (k : ResourceName) :
    (transformContainer (getDefaultStepContainerRequest lr n) c).requests.lookup k =
      if (k ∈ resourceNames ∧ c.requests.get k = 0) ∧ largest lr n k ≠ 0 then
        some (largest lr n k) else c.requests.lookup k := by
  rw [transformContainer, if_pos hstep]
  cases hreq : c.resources.requests with
  | none => simp [Container.requests, hreq, lookup_getDefault, ResourceList.get]
  | some l =>
    have hfold := lookup_foldl (g := setRequests ((getDefaultStepContainerRequest lr n).getD []))
      (f := fun name a =>
        if a = 0 then ResourceList.get ((getDefaultStepContainerRequest lr n).getD []) name else 0)
      (fun r name => by
        rw [setRequests]
        by_cases h : r.get name = 0
        · simp [h]
        · simp [h])
      resourceNames_nodup l k
    simp only [Container.requests, hreq, Option.getD_some, hfold]
    by_cases hk : k ∈ resourceNames
    · simp only [get_getDefault lr n hk, hk, true_and]
      by_cases h : l.get k = 0
      · simp [h]
      · simp [h]
    · simp [hk]

@[simp] theorem limits_transformContainer (d : Option ResourceList) :
    (transformContainer d c).resources.limits = c.resources.limits := by
  rw [transformContainer]
  split <;> rfl

theorem filled_transformContainer :
    Filled lr n c (transformContainer (getDefaultStepContainerRequest lr n) c) := by
  by_cases hstep : isContainerStep c.name = true
  · refine ⟨?_, by simp, by simp [hstep], ?_, ?_⟩
    · rw [transformContainer, if_pos hstep]
    · intro k hk
      rw [lookup_transformContainer lr n c hstep, if_neg]
      grind
    · intro _ k hk h0
      have hget : (transformContainer (getDefaultStepContainerRequest lr n) c).requests.get k =
          largest lr n k := by
        rw [ResourceList.get, lookup_transformContainer lr n c hstep]
        by_cases h : largest lr n k = 0
        · simpa [h, ResourceList.get] using h0
        · simp [h, hk, h0]
      rw [hget]
      exact maxRequest_isLargest _
  · have heq : transformContainer (getDefaultStepContainerRequest lr n) c = c := by
      rw [transformContainer, if_neg hstep]
    rw [heq]
    exact ⟨rfl, rfl, fun _ => rfl, fun _ _ => rfl, fun h => absurd h hstep⟩

/-- A default is not above a limit that the step sets for it. -/
def DefaultsFit : Prop :=
  ∀ k ∈ resourceNames, c.requests.get k = 0 → ∀ q, c.limits.lookup k = some q →
    largest lr n k = 0 ∨ largest lr n k ≤ q

variable {lr n c}

theorem withinLimits_iff (h : c.WithinLimits) :
    (transformContainer (getDefaultStepContainerRequest lr n) c).WithinLimits ↔
      (isContainerStep c.name = true → DefaultsFit lr n c) := by
  by_cases hstep : isContainerStep c.name = true
  · simp only [Container.WithinLimits, lookup_transformContainer lr n c hstep, Container.limits,
      limits_transformContainer, hstep, forall_const]
    constructor
    · intro hfit k hk h0 q hq
      by_cases hl : largest lr n k = 0
      · exact .inl hl
      · exact .inr (hfit k _ q (if_pos ⟨⟨hk, h0⟩, hl⟩) hq)
    · intro hfit k r q hr hq
      split at hr
      · next hcond =>
        obtain ⟨⟨hk, h0⟩, hl⟩ := hcond
        cases hr
        exact (hfit k hk h0 q hq).resolve_left hl
      · exact h k r q hr hq
  · have heq : transformContainer (getDefaultStepContainerRequest lr n) c = c := by
      rw [transformContainer, if_neg hstep]
    simp [heq, h, hstep]

end

theorem transform_keeps_valid_iff (lr : LimitRange) (containers : List Container)
    (hsteps : 1 ≤ nbStepContainers containers) (hvalid : ∀ c ∈ containers, c.WithinLimits) :
    (∃ out ∈ transformPodBasedOnLimitRange containers (some lr), KeepsValid lr containers out) ↔
      ∀ c ∈ containers, isContainerStep c.name = true →
        DefaultsFit lr (nbStepContainers containers) c := by
  have hout : transformPodBasedOnLimitRange containers (some lr) = some (containers.map
      (transformContainer (getDefaultStepContainerRequest lr (nbStepContainers containers)))) :=
    if_neg fun h => absurd h.1 (Nat.one_le_iff_ne_zero.mp hsteps)
  have hfilled : List.Forall₂ (Filled lr (nbStepContainers containers)) containers
      (containers.map
        (transformContainer
          (getDefaultStepContainerRequest lr (nbStepContainers containers)))) := by
    rw [forall₂_map_right_iff, forall₂_same]
    exact fun c _ => filled_transformContainer lr _ c
  simp only [hout, Option.mem_some_iff, exists_eq_left']
  rw [KeepsValid, and_iff_right hfilled, forall_mem_map]
  exact forall₂_congr fun c hc => withinLimits_iff (hvalid c hc)

def halfCore : LimitRange := ⟨[⟨.container, cpuOnly .defaultRequest 1000000000⟩]⟩

def steps (limit : Int) : List Container :=
  [{ name := "step-build", resources := { limits := some [(.cpu, limit)] } },
    { name := "step-push" }]

theorem core_kept_valid :
    (1 ≤ nbStepContainers (steps 1000000000) ∧ ∀ c ∈ steps 1000000000, c.WithinLimits) ∧
      ∃ out ∈ transformPodBasedOnLimitRange (steps 1000000000) (some halfCore),
        KeepsValid halfCore (steps 1000000000) out := by
  have hvalid : ∀ c ∈ steps 1000000000, c.WithinLimits := by
    simp [steps, Container.WithinLimits, Container.requests]
  refine ⟨⟨by decide, hvalid⟩, (transform_keeps_valid_iff _ _ (by decide) hvalid).mpr ?_⟩
  have hcpu : largest halfCore (nbStepContainers (steps 1000000000)) .cpu = 500000000 := by rfl
  simp only [steps, forall_mem_cons, DefaultsFit, Container.limits, Option.getD_some]
  refine ⟨fun _ k hk _ q hq => ?_, fun _ k hk _ q hq => ?_, by simp⟩
  · obtain ⟨rfl, rfl⟩ : k = .cpu ∧ q = 1000000000 := by
      rw [lookup_cons] at hq
      split at hq
      · next hk => exact ⟨by simpa using hk, by simpa using hq.symm⟩
      · simp at hq
    exact .inr (Int.le_trans (Int.le_of_eq hcpu) (by decide))
  · simp at hq

theorem limit_exceeded :
    ¬ ∃ out ∈ transformPodBasedOnLimitRange (steps 100000000) (some halfCore),
      KeepsValid halfCore (steps 100000000) out := by
  rintro ⟨out, hout, h⟩
  obtain rfl := Option.some.inj hout
  have hle : (500000000 : Int) ≤ 100000000 :=
    h.2 _ (mem_cons_self ..) .cpu 500000000 100000000 (by rfl) (by rfl)
  omega

end TektonPipeline.ComputeResources
