import TektonPipeline.Library.Transition

/-! `Reconciler.resolve` of the resolver framework and the goroutine it starts. The channels
between them have no buffer: a send happens together with the receive in the caller's `select`.
The reconciler of the older framework differs only in validating the params, not the whole
spec. -/

namespace TektonPipeline.Resolution
open Transition

/-- `ρ` are the resolved resources. -/
inductive Sent (ρ : Type) where
  | invalidRequestError (message : String)
  | getResourceError (original : String)
  | resource (r : ρ)

inductive Worker (ρ : Type) where
  | notStarted
  | validating
  | resolving
  | sending (m : Sent ρ)
  | finished

inductive Caller (ρ : Type) where
  | selecting
  | noTimeout (err : String)
  | received (m : Sent ρ)
  | timedOut

structure Resolve (ρ : Type) where
  worker : Worker ρ
  caller : Caller ρ
  /-- `resolutionCtx` is done. -/
  expired : Bool := false

/-- The resolver's own calls return with any outcome, at any time. -/
inductive Move (ρ : Type) where
  | validate (validationError : Option String)
  | resolve (result : Except String ρ)
  | expire
  | communicate
  | leave

variable {ρ : Type}

/-- The error is that of `GetResolutionTimeout`, before which no goroutine is started. -/
def Resolve.start : Option String → Resolve ρ
  | some err => { worker := .notStarted, caller := .noTimeout err }
  | none => { worker := .validating, caller := .selecting }

def Resolve.step (s : Resolve ρ) (m : Move ρ) : Option (Resolve ρ) :=
  match m, s.worker, s.caller with
  | .validate (some message), .validating, _ =>
    some { s with worker := .sending (.invalidRequestError message) }
  | .validate none, .validating, _ => some { s with worker := .resolving }
  | .resolve (.error err), .resolving, _ =>
    some { s with worker := .sending (.getResourceError err) }
  | .resolve (.ok r), .resolving, _ => some { s with worker := .sending (.resource r) }
  | .expire, _, _ => some { s with expired := true }
  | .communicate, .sending m, .selecting =>
    some { s with worker := .finished, caller := .received m }
  | .leave, _, .selecting => if s.expired then some { s with caller := .timedOut } else none
  | _, _, _ => none

def Worker.ended : Worker ρ → Bool
  | .notStarted | .finished => true
  | .validating | .resolving | .sending _ => false

def Resolve.CanComplete (s : Resolve ρ) : Prop :=
  ∃ ms t, run Resolve.step s ms = some t ∧ t.worker.ended = true

def Caller.served : Caller ρ → Bool
  | .noTimeout _ | .received _ => true
  | .selecting | .timedOut => false

/-- The goroutine has ended exactly if its message was received or it was never started. -/
def Resolve.Inv (s : Resolve ρ) : Prop := s.worker.ended = s.caller.served

variable {s t : Resolve ρ}

theorem Resolve.step_cases {m : Move ρ} (h : s.step m = some t) :
    (m ≠ .leave ∧ t.worker.ended = s.worker.ended ∧ t.caller = s.caller) ∨
    (m ≠ .leave ∧ s.caller = .selecting ∧ t.worker = .finished ∧ ∃ x, t.caller = .received x) ∨
    (m = .leave ∧ s.caller = .selecting ∧ t.worker = s.worker ∧ t.caller = .timedOut) := by
  unfold Resolve.step at h
  split at h
  case h_6 hw hc =>
    obtain rfl := Option.some.inj h
    exact .inr (.inl ⟨by simp, hc, rfl, _, rfl⟩)
  case h_7 hc =>
    split at h
    · obtain rfl := Option.some.inj h
      exact .inr (.inr ⟨rfl, hc, rfl, rfl⟩)
    · cases h
  case h_8 => cases h
  all_goals
    obtain rfl := Option.some.inj h
    exact .inl (by simp_all [Worker.ended])

theorem Resolve.Inv.step {m : Move ρ} (hs : s.Inv) (h : s.step m = some t) : t.Inv := by
  unfold Inv at *
  rcases step_cases h with ⟨-, hw, hc⟩ | ⟨-, -, hw, x, hc⟩ | ⟨-, hc', hw, hc⟩
  · rw [hw, hc, hs]
  · rw [hw, hc]
    rfl
  · rw [hw, hc, hs, hc']
    rfl

theorem Resolve.step_timedOut_iff {m : Move ρ} (h : s.step m = some t) :
    t.caller = .timedOut ↔ s.caller = .timedOut ∨ m = .leave := by
  rcases step_cases h with ⟨hm, -, hc⟩ | ⟨hm, hc', -, x, hc⟩ | ⟨hm, -, -, hc⟩ <;> simp_all

theorem Resolve.run_timedOut_iff {ms : List (Move ρ)} (h : run Resolve.step s ms = some t) :
    t.caller = .timedOut ↔ s.caller = .timedOut ∨ .leave ∈ ms := by
  induction ms generalizing s with
  | nil => simp_all [run]
  | cons m ms ih =>
    cases hm : s.step m with
    | none => simp [run, hm] at h
    | some s' =>
      rw [ih (by simpa [run, hm] using h), step_timedOut_iff hm, List.mem_cons, or_assoc,
        @eq_comm _ m]

theorem Resolve.Inv.not_canComplete (hs : s.Inv) (hout : s.caller = .timedOut) :
    ¬ s.CanComplete := by
  rintro ⟨ms, t, hrun, hended⟩
  have ht : t.Inv := run_induction Inv.step hs hrun
  rw [Inv, (run_timedOut_iff hrun).mpr (.inl hout), hended] at ht
  cases ht

theorem Resolve.inv_start (timeoutError : Option String) :
    (start timeoutError : Resolve ρ).Inv := by
  cases timeoutError <;> rfl

/-- After `resolve` has returned the goroutine can run to its end exactly if the caller did not
leave through the case of the deadline. -/
theorem Resolve.canComplete_iff (timeoutError : Option String) (ms : List (Move ρ))
    (h : run Resolve.step (start timeoutError) ms = some t) :
    (t.caller ≠ .selecting → t.CanComplete) ↔ .leave ∉ ms := by
  have ht : t.Inv := run_induction Inv.step (inv_start timeoutError) h
  have hleave : t.caller = .timedOut ↔ .leave ∈ ms := by
    rw [run_timedOut_iff h]
    cases timeoutError <;> simp [start]
  rw [← hleave]
  constructor
  · intro hcan hout
    exact ht.not_canComplete hout (hcan (by simp [hout]))
  · intro hout hreturned
    refine ⟨[], t, rfl, ht.trans ?_⟩
    cases hc : t.caller <;> simp_all [Caller.served]

theorem received_canComplete :
    Resolve.CanComplete { worker := .finished, caller := .received (.resource "task") } :=
  (Resolve.canComplete_iff none [.validate none, .resolve (.ok "task"), .communicate] rfl).mpr
    (by simp) (by simp)

/-- The resource comes when nobody is left to receive it. -/
theorem late_resource_abandoned : ∃ t : Resolve String,
    run Resolve.step (Resolve.start none)
      [.expire, .leave, .validate none, .resolve (.ok "task")] = some t ∧
    t.caller = .timedOut ∧ ¬ t.CanComplete :=
  ⟨_, rfl, rfl, Resolve.Inv.not_canComplete (by rfl) rfl⟩

end TektonPipeline.Resolution
