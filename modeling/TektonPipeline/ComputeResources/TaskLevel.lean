import TektonPipeline.ComputeResources.Quantities

/-! Whether the steps of a task request together what the task is given. -/

namespace TektonPipeline.ComputeResources
open List

def computeAverageRequests (requests : Option ResourceList) (steps : Nat) : Option ResourceList :=
  match requests with
  | none | some [] => none
  | some l => if steps = 0 then none else some (l.map fun e => (e.1, share e.1 e.2 steps))

/-- Of the steps their own requirements are read and written. -/
def applyTaskLevelComputeResources (steps : List ResourceRequirements)
    (computeResources : Option ResourceRequirements) : List ResourceRequirements :=
  match computeResources with
  | none => steps
  | some c =>
    if c.requests = none ∧ c.limits = none then steps
    else
      let averageRequests := computeAverageRequests c.requests steps.length
      let averageLimits := computeAverageRequests c.limits steps.length
      steps.map fun s =>
        { requests :=
            if s.requests = none ∧ c.requests = none then averageLimits else averageRequests
          limits := c.limits }

/-- The requests, or the limits where only limits are given. -/
def ResourceRequirements.shared (c : ResourceRequirements) : ResourceList :=
  if c.requests.getD [] = [] then c.limits.getD [] else c.requests.getD []

def total (steps : List ResourceRequirements) (name : ResourceName) : Int :=
  steps.foldr (fun s rest => (s.requests.getD []).get name + rest) 0

structure Conserved (c : ResourceRequirements) (steps : List ResourceRequirements) : Prop where
  names : ∀ s ∈ steps, ∀ k, k ∈ (s.requests.getD []).map (·.1) ↔ k ∈ c.shared.map (·.1)
  total : ∀ k a, c.shared.lookup k = some a →
    total steps k ≤ a ∧ a - total steps k < steps.length * k.unit
  limits : ∀ s ∈ steps, s.limits = c.limits

/-- The amount can be counted in an int64. It is a whole number of units, or is not rounded up
to a multiple of the number of steps; less than nothing is rounded to such a multiple. -/
def RoundsDown (n : Nat) (unit : Int) (a : Int) : Prop :=
  Int64.minValue.toInt ≤ roundUp unit a ∧ roundUp unit a ≤ Int64.maxValue.toInt ∧
    if 0 ≤ a then unit ∣ a ∨ ¬ (n : Int) ∣ roundUp unit a else (n : Int) ∣ roundUp unit a

theorem ResourceName.unit_pos (k : ResourceName) : 0 < k.unit := by
  cases k <;> simp [ResourceName.unit]

/-- Against the amount in whole units, rounded down. -/
theorem roundUp_cases {unit : Int} (hunit : 0 < unit) (a : Int) :
    unit ∣ a ∧ roundUp unit a = a / unit ∨
      ¬ unit ∣ a ∧ roundUp unit a = if 0 ≤ a then a / unit + 1 else a / unit := by
  unfold roundUp
  have hneg := Int.neg_ediv_of_dvd (a := a) (b := unit)
  by_cases hdvd : unit ∣ a
  · simp [hdvd, Int.neg_ediv_of_dvd hdvd]
  · have hdiv := Int.neg_ediv (a := a) (b := unit)
    rw [if_neg hdvd, Int.sign_eq_one_of_pos hunit] at hdiv
    refine .inr ⟨hdvd, ?_⟩
    split <;> omega

theorem multiple_cases {n : Nat} (hn : 0 < n) (w : Int) :
    ∃ r, n * w.tdiv n + r = w ∧ (r = 0 ↔ (n : Int) ∣ w) ∧
      (0 ≤ w → 0 ≤ r ∧ r < n) ∧ (w ≤ 0 → -n < r ∧ r ≤ 0) := by
  refine ⟨w.tmod n, Int.mul_tdiv_add_tmod w n, (Int.dvd_iff_tmod_eq_zero).symm, ?_, ?_⟩
  · intro hw
    exact ⟨Int.tmod_nonneg _ hw, Int.tmod_lt_of_pos _ (by omega)⟩
  · intro hw
    have hneg : (-w).tmod n = -(w.tmod n) := Int.neg_tmod w n
    have hnonneg := Int.tmod_nonneg (n : Int) (a := -w) (by omega)
    have hlt := Int.tmod_lt_of_pos (-w) (b := n) (by omega)
    omega

/-- What the steps get is the amount, rounded down. -/
theorem share_conserved_iff {n : Nat} (hn : 0 < n) (hlt : n ≤ Int64.maxValue.toInt)
    (k : ResourceName)
    (a : Int) :
    (n * share k a n ≤ a ∧ a - n * share k a n < n * k.unit) ↔ RoundsDown n k.unit a := by
  have hunit := k.unit_pos
  obtain ⟨r, hr, hdvd, hpos, hneg⟩ := multiple_cases hn (scaledValue k.unit a)
  generalize hp : (n : Int) * (scaledValue k.unit a).tdiv n = p at hr
  have hbounds : (n * share k a n ≤ a ∧ a - n * share k a n < n * k.unit) ↔
      p ≤ a / k.unit ∧ a / k.unit < p + n := by
    rw [share, ← Int.mul_assoc, hp, Int.le_ediv_iff_mul_le hunit, Int.ediv_lt_iff_lt_mul hunit,
      Int.add_mul]
    omega
  rw [hbounds]
  have hfloor : 0 ≤ a / k.unit ↔ 0 ≤ a := Int.ediv_nonneg_iff_of_pos hunit
  have hcases := roundUp_cases hunit a
  have hmax := Int64.toInt_maxValue
  have hmin := Int64.toInt_minValue
  unfold RoundsDown
  by_cases hfits : Int64.minValue.toInt ≤ roundUp k.unit a ∧
      roundUp k.unit a ≤ Int64.maxValue.toInt
  · have hvalue : scaledValue k.unit a = roundUp k.unit a := if_pos hfits
    rw [hvalue] at hr hdvd hpos hneg
    rw [← hdvd, ← and_assoc, and_iff_right hfits]
    by_cases ha : 0 ≤ a
    · rw [if_pos ha]
      rcases hcases with ⟨hwhole, hv⟩ | ⟨hpart, hv⟩
      · simp only [hwhole, true_or, iff_true]
        omega
      · simp only [hpart, false_or]
        rw [if_pos ha] at hv
        omega
    · rw [if_neg ha]
      rcases hcases with ⟨-, hv⟩ | ⟨-, hv⟩
      · omega
      · rw [if_neg ha] at hv
        omega
  · -- An amount that is out of range is more than the steps there can be.
    have hvalue : scaledValue k.unit a = 0 := if_neg hfits
    rw [hvalue, Int.zero_tdiv, Int.mul_zero] at hp
    refine iff_of_false ?_ fun h => hfits ⟨h.1, h.2.1⟩
    rcases hcases with ⟨-, hv⟩ | ⟨-, hv⟩
    · omega
    · split at hv <;> omega

theorem computeAverageRequests_eq {l : ResourceList} (hl : l ≠ []) {n : Nat} (hn : 0 < n) :
    computeAverageRequests (some l) n = some (l.map fun e => (e.1, share e.1 e.2 n)) := by
  cases l with
  | nil => exact absurd rfl hl
  | cons e l => simp [computeAverageRequests, Nat.ne_of_gt hn]

/-- Every step gets its share of the same list. -/
theorem conserved_of_shares {c : ResourceRequirements} {n : Nat} (hn : 0 < n)
    (hlt : n ≤ Int64.maxValue.toInt)
    {out : List ResourceRequirements} (hlen : out.length = n)
    (hout : ∀ s ∈ out, s = ⟨some (c.shared.map fun e => (e.1, share e.1 e.2 n)), c.limits⟩) :
    Conserved c out ↔ ∀ k a, c.shared.lookup k = some a → RoundsDown n k.unit a := by
  have htotal : ∀ k a, c.shared.lookup k = some a → total out k = n * share k a n := by
    intro k a ha
    subst hlen
    have hsum : ∀ l : List ResourceRequirements, (∀ s ∈ l, (s.requests.getD []).get k = share k a
        out.length) → total l k = l.length * share k a out.length := by
      intro l hl
      induction l with
      | nil => simp [total]
      | cons s l ih =>
        rw [forall_mem_cons] at hl
        have hrest := ih hl.2
        rw [total] at hrest
        rw [total, foldr_cons, hrest, hl.1, length_cons, Int.natCast_succ, Int.add_mul]
        omega
    refine hsum out fun s hs => ?_
    rw [hout s hs, Option.getD_some, ResourceList.get,
      Assoc.lookup_map fun k q => share k q out.length, ha]
    rfl
  constructor
  · intro h k a ha
    have hsum := h.total k a ha
    rw [htotal k a ha, hlen] at hsum
    exact (share_conserved_iff hn hlt k a).mp hsum
  · intro h
    refine ⟨fun s hs k => ?_, fun k a ha => ?_, fun s hs => ?_⟩
    · rw [hout s hs]
      simp
    · rw [htotal k a ha, hlen]
      exact (share_conserved_iff hn hlt k a).mpr (h k a ha)
    · rw [hout s hs]

/-- Where only limits are given, neither the task nor a step may list requests at all; and the
shares are not to come out above the amounts. -/
theorem taskLevel_conserved_iff (steps : List ResourceRequirements) (hsteps : steps ≠ [])
    (hlt : steps.length ≤ Int64.maxValue.toInt) (c : ResourceRequirements) (hc : c.shared ≠ []) :
    Conserved c (applyTaskLevelComputeResources steps (some c)) ↔
      (c.requests.getD [] = [] → c.requests = none ∧ ∀ s ∈ steps, s.requests = none) ∧
      ∀ k a, c.shared.lookup k = some a → RoundsDown steps.length k.unit a := by
  have hn : 0 < steps.length := length_pos_iff.mpr hsteps
  have hset : ¬ (c.requests = none ∧ c.limits = none) := by
    rintro ⟨hrequests, hlimits⟩
    simp [ResourceRequirements.shared, hrequests, hlimits] at hc
  have haverage : ∀ l : Option ResourceList, l.getD [] = c.shared →
      computeAverageRequests l steps.length =
        some (c.shared.map fun e => (e.1, share e.1 e.2 steps.length)) := by
    intro l hl
    cases l with
    | none => exact absurd hl.symm hc
    | some l =>
      rw [Option.getD_some] at hl
      exact hl ▸ computeAverageRequests_eq (hl ▸ hc) hn
  simp only [applyTaskLevelComputeResources, if_neg hset]
  by_cases hcond : c.requests.getD [] = [] → c.requests = none ∧ ∀ s ∈ steps, s.requests = none
  · rw [and_iff_right hcond]
    refine conserved_of_shares hn hlt (length_map _) fun s' hs' => ?_
    obtain ⟨s, hs, rfl⟩ := mem_map.mp hs'
    by_cases hrequests : c.requests.getD [] = []
    · obtain ⟨hnone, hown⟩ := hcond hrequests
      rw [if_pos ⟨hown s hs, hnone⟩, haverage]
      simp [ResourceRequirements.shared, hrequests]
    · rw [if_neg fun h => hrequests (by rw [h.2]; rfl), haverage]
      simp [ResourceRequirements.shared, hrequests]
  · refine iff_of_false (fun h => ?_) fun h => hcond h.1
    obtain ⟨hempty, hlisted⟩ := Classical.not_imp.mp hcond
    obtain ⟨s, hs, hown⟩ : ∃ s ∈ steps, ¬ (s.requests = none ∧ c.requests = none) := by
      by_cases hall : ∀ s ∈ steps, s.requests = none
      · exact ⟨_, head_mem hsteps, fun h => hlisted ⟨h.2, hall⟩⟩
      · obtain ⟨s, hs⟩ := Classical.not_forall.mp hall
        obtain ⟨hs, hne⟩ := Classical.not_imp.mp hs
        exact ⟨s, hs, fun h => hne h.1⟩
    have hnone : computeAverageRequests c.requests steps.length = none := by
      cases hrequests : c.requests with
      | none => rfl
      | some l =>
        rw [hrequests, Option.getD_some] at hempty
        rw [hempty]
        rfl
    have hnames := h.names _ (mem_map_of_mem hs)
    rw [if_neg hown, hnone] at hnames
    obtain ⟨e, he⟩ := exists_mem_of_ne_nil _ hc
    exact absurd ((hnames e.1).mpr (mem_map_of_mem he)) not_mem_nil

def twoCores : ResourceRequirements where
  requests := some [(.cpu, 2000000000)]

theorem cores_conserved : (3 : Int) ≤ Int64.maxValue.toInt ∧ twoCores.shared ≠ [] ∧
      Conserved twoCores (applyTaskLevelComputeResources [{}, {}, twoCores] (some twoCores)) := by
  have hlen : (3 : Int) ≤ Int64.maxValue.toInt := by decide
  refine ⟨hlen, by decide, (taskLevel_conserved_iff [{}, {}, twoCores] (by decide) hlen twoCores
    (by decide)).mpr ⟨fun h => absurd h (by decide), fun k a ha => ?_⟩⟩
  obtain ⟨rfl, rfl⟩ := Prod.mk.inj (mem_singleton.mp (Assoc.mem_of_lookup ha))
  exact ⟨by decide, by decide, .inl (by decide)⟩

/-- The step that has requests of its own loses them and gets none in their place. Two bytes
and a half are rounded up to three for one step. -/
theorem limits_not_conserved : (¬ Conserved { limits := some [(.cpu, 1000000000)] }
      (applyTaskLevelComputeResources [{ requests := some [(.cpu, 500000000)] }]
        (some { limits := some [(.cpu, 1000000000)] }))) ∧
    ¬ Conserved { requests := some [(.memory, 2500000000)] }
      (applyTaskLevelComputeResources [{}]
        (some { requests := some [(.memory, 2500000000)] })) := by
  refine ⟨fun h => ?_, fun h => ?_⟩
  · have hnames := (h.names _ mem_cons_self .cpu).mpr (by decide)
    exact absurd hnames (by decide)
  · have htotal := (h.total .memory _ rfl).1
    exact absurd htotal (by decide)

end TektonPipeline.ComputeResources
