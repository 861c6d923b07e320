import Mathlib

/-!
# Runs of a deterministic transition system

A component with state `σ` that reacts to calls `α` is given by its step
function `step : σ → α → σ`.  A state is reachable from `init` when a finite
sequence of calls leads there; the invariant rule reduces a property of every
reachable state to the initial state and one step.
-/

namespace Transition

variable {σ α : Type*}

/-- The states a finite sequence of calls of `step` leads to from `init`. -/
inductive Reachable (step : σ → α → σ) (init : σ) : σ → Prop
  | init : Reachable step init init
  | step {s : σ} (a : α) : Reachable step init s → Reachable step init (step s a)

/-- The state after a whole sequence of calls. -/
def run (step : σ → α → σ) (s : σ) (calls : List α) : σ :=
  calls.foldl step s

@[simp] theorem run_nil (step : σ → α → σ) (s : σ) : run step s [] = s := rfl

@[simp] theorem run_cons (step : σ → α → σ) (s : σ) (a : α) (calls : List α) :
    run step s (a :: calls) = run step (step s a) calls := rfl

theorem run_append (step : σ → α → σ) (s : σ) (calls more : List α) :
    run step s (calls ++ more) = run step (run step s calls) more := by
  simp [run, List.foldl_append]

theorem run_concat (step : σ → α → σ) (s : σ) (calls : List α) (a : α) :
    run step s (calls ++ [a]) = step (run step s calls) a := by
  simp [run_append]

variable {step : σ → α → σ} {init : σ}

theorem Reachable.after {s : σ} (hs : Reachable step init s) (calls : List α) :
    Reachable step init (run step s calls) := by
  induction calls generalizing s with
  | nil => exact hs
  | cons a calls ih => exact ih (.step a hs)

theorem reachable_run (calls : List α) :
    Reachable step init (run step init calls) :=
  Reachable.init.after calls

theorem Reachable.exists_run {s : σ} (h : Reachable step init s) :
    ∃ calls, run step init calls = s := by
  induction h with
  | init => exact ⟨[], rfl⟩
  | step a _ ih =>
      obtain ⟨calls, rfl⟩ := ih
      exact ⟨calls ++ [a], run_concat step init calls a⟩

theorem reachable_iff {s : σ} :
    Reachable step init s ↔ ∃ calls, run step init calls = s := by
  constructor
  · exact Reachable.exists_run
  · rintro ⟨calls, rfl⟩
    exact reachable_run calls

/-- The invariant rule: a property of the initial state that every step from a
reachable state preserves holds in every reachable state. -/
theorem Reachable.invariant {P : σ → Prop} (h0 : P init)
    (hstep : ∀ s a, Reachable step init s → P s → P (step s a)) {s : σ}
    (h : Reachable step init s) : P s := by
  induction h with
  | init => exact h0
  | step a hs ih => exact hstep _ a hs ih

/-! ## Runs of enabled calls -/

/-- The states a finite sequence of calls leads to from `init` when each call
must be enabled in the state it is made in: `enabled` says which calls a
state allows, as when a call records a choice the component makes. -/
inductive GuardedReachable (enabled : σ → α → Prop) (step : σ → α → σ) (init : σ) :
    σ → Prop
  | init : GuardedReachable enabled step init init
  | step {s : σ} (a : α) : GuardedReachable enabled step init s → enabled s a →
      GuardedReachable enabled step init (step s a)

/-- The invariant rule for enabled calls: only the steps of enabled calls
from reachable states need to preserve the property. -/
theorem GuardedReachable.invariant {enabled : σ → α → Prop} {P : σ → Prop} (h0 : P init)
    (hstep : ∀ s a, GuardedReachable enabled step init s → enabled s a → P s → P (step s a))
    {s : σ} (h : GuardedReachable enabled step init s) : P s := by
  induction h with
  | init => exact h0
  | step a hs ha ih => exact hstep _ a hs ha ih

/-- Calls enabled wherever they are made lead from a reachable state to a
reachable state. -/
theorem GuardedReachable.after {enabled : σ → α → Prop} {s : σ}
    (hs : GuardedReachable enabled step init s) (calls : List α)
    (hen : ∀ s', ∀ a ∈ calls, enabled s' a) : GuardedReachable enabled step init (run step s calls) := by
  induction calls generalizing s with
  | nil => exact hs
  | cons a calls ih =>
      exact ih (.step a hs (hen s a (List.mem_cons_self ..)))
        fun s' a' ha' => hen s' a' (List.mem_cons_of_mem a ha')

/-- The calls are enabled one after the other from `s`: each in the state
the calls before it lead to. -/
def EnabledRun (enabled : σ → α → Prop) (step : σ → α → σ) : σ → List α → Prop
  | _, [] => True
  | s, a :: calls => enabled s a ∧ EnabledRun enabled step (step s a) calls

/-- The firing-sequence rule: a run of calls each enabled where it is made
leads from a reachable state to a reachable state. -/
theorem GuardedReachable.run {enabled : σ → α → Prop} {s : σ}
    (hs : GuardedReachable enabled step init s) {calls : List α}
    (h : EnabledRun enabled step s calls) : GuardedReachable enabled step init (run step s calls) := by
  induction calls generalizing s with
  | nil => exact hs
  | cons a calls ih => exact ih (.step a hs h.1) h.2

/-! ## Runs of a step that can fail -/

/-- The states a finite sequence of calls of a step that can fail leads to
from `init`: each call enabled where it is made, and none failing. -/
inductive PartialReachable {β : Type*} (enabled : σ → β → Prop) (step : σ → β → Option σ)
    (init : σ) : σ → Prop
  | init : PartialReachable enabled step init init
  | step {s s' : σ} (b : β) : PartialReachable enabled step init s → enabled s b →
      step s b = some s' → PartialReachable enabled step init s'

/-- The invariant rule for a step that can fail: only the calls that do not
fail need to keep the property. -/
theorem PartialReachable.invariant {β : Type*} {enabled : σ → β → Prop}
    {next : σ → β → Option σ} {P : σ → Prop} (h0 : P init)
    (hstep : ∀ s b s', enabled s b → P s → next s b = some s' → P s') {s : σ}
    (h : PartialReachable enabled next init s) : P s := by
  induction h with
  | init => exact h0
  | step b _ hen hnext ih => exact hstep _ b _ hen ih hnext

/-- The simulation rule: when every call of the partial system that does not
fail, made in a state both reach, leaves the state as it was or does what an
enabled call of the other system does, every state the partial system reaches
the other one reaches too. -/
theorem PartialReachable.simulate {β : Type*} {enabled : σ → α → Prop}
    {enabled' : σ → β → Prop} {step' : σ → β → Option σ}
    (hsim : ∀ s b s', GuardedReachable enabled step init s → enabled' s b → step' s b = some s' →
      s' = s ∨ ∃ a, enabled s a ∧ step s a = s')
    {s : σ} (h : PartialReachable enabled' step' init s) : GuardedReachable enabled step init s := by
  induction h with
  | init => exact .init
  | step b _ hen hstep ih =>
      rcases hsim _ b _ ih hen hstep with rfl | ⟨a, ha, rfl⟩
      · exact ih
      · exact .step a ih ha

end Transition
