import Mathlib.Logic.Relation
import Mathlib.Data.Set.Basic

/-!
# Machines, guarded runs and refinement

A machine is a set of initial states with a partial step function: `step s a = some t` when the action `a` is
enabled in `s` and leads to `t`. Parties that act concurrently are modelled by letting every action of every party
be one step, so that a run is an arbitrary interleaving.

* (guards) A run may be restricted by a condition `C s a` on the state before each step.
* (invariants) `Reach.induct` and `Run.preserves` lift a fact about one step to every run.
* (execution) `exec` runs a list of actions, so that a run can be computed.
* (refinement) `Refines.reach` carries reachability to an abstract specification.
-/

namespace Concurrent

/-- A state machine: its initial states and what an action does where it is enabled. -/
structure Machine (σ α : Type*) where
  init : σ → Prop
  step : σ → α → Option σ

/-- The condition that restricts no run. -/
def Free {σ α : Type*} : σ → α → Prop := fun _ _ => True

instance {σ α : Type*} (s : σ) (a : α) : Decidable (Free s a) := inferInstanceAs (Decidable True)

namespace Machine

variable {σ α τ : Type*} {M : Machine σ α} {C : σ → α → Prop} {P : σ → Prop} {s t : σ}

/-- One step whose action meets the condition `C`. -/
def Next (M : Machine σ α) (C : σ → α → Prop) (s t : σ) : Prop :=
  ∃ a, C s a ∧ M.step s a = some t

/-- A run: any number of steps that all meet the condition `C`. -/
def Run (M : Machine σ α) (C : σ → α → Prop) : σ → σ → Prop :=
  Relation.ReflTransGen (M.Next C)

/-- The states that runs from an initial state end in. -/
def Reach (M : Machine σ α) (C : σ → α → Prop) (s : σ) : Prop :=
  ∃ s₀, M.init s₀ ∧ M.Run C s₀ s

/-! ### Invariants -/

theorem Reach.of_init (h : M.init s) : M.Reach C s :=
  ⟨s, h, .refl⟩

theorem Reach.run (h : M.Reach C s) (hr : M.Run C s t) : M.Reach C t := by
  obtain ⟨s₀, h₀, h₁⟩ := h
  exact ⟨s₀, h₀, h₁.trans hr⟩

theorem Reach.step (h : M.Reach C s) {a : α} (hC : C s a) (ht : M.step s a = some t) : M.Reach C t :=
  h.run (.single ⟨a, hC, ht⟩)

/-- What every guarded step preserves, every guarded run preserves. -/
theorem Run.preserves (hstep : ∀ s a t, P s → C s a → M.step s a = some t → P t)
    (hr : M.Run C s t) (hs : P s) : P t := by
  induction hr with
  | refl => exact hs
  | tail _ hn ih =>
    obtain ⟨a, hC, ht⟩ := hn
    exact hstep _ a _ ih hC ht

/-- Invariant induction: a property that holds initially and is preserved by every guarded step holds of every
reachable state. -/
theorem Reach.induct (hinit : ∀ s, M.init s → P s)
    (hstep : ∀ s a t, P s → C s a → M.step s a = some t → P t) (h : M.Reach C s) : P s := by
  obtain ⟨s₀, h₀, hr⟩ := h
  exact hr.preserves hstep (hinit s₀ h₀)

/-- A reflexive and transitive relation that holds across every guarded step from a state with the invariant `P`
holds across every guarded run. -/
theorem Run.rel {R : σ → σ → Prop} (hrefl : ∀ s, R s s) (htrans : ∀ s t u, R s t → R t u → R s u)
    (hinv : ∀ s a t, P s → C s a → M.step s a = some t → P t)
    (hstep : ∀ s a t, P s → C s a → M.step s a = some t → R s t)
    (hr : M.Run C s t) (hs : P s) : R s t := by
  induction hr with
  | refl => exact hrefl s
  | tail hr' hn ih =>
    obtain ⟨a, hC, ht⟩ := hn
    exact htrans _ _ _ ih (hstep _ a _ (Run.preserves hinv hr' hs) hC ht)

/-! ### Execution -/

/-- The state after a list of actions, `none` as soon as one is not enabled or does not meet the condition. -/
def exec (M : Machine σ α) (C : σ → α → Prop) [∀ s a, Decidable (C s a)] : σ → List α → Option σ
  | s, [] => some s
  | s, a :: l => if C s a then (M.step s a).bind fun t => exec M C t l else none

variable [∀ s a, Decidable (C s a)]

theorem run_of_exec {l : List α} (h : M.exec C s l = some t) : M.Run C s t := by
  induction l generalizing s with
  | nil =>
    rw [exec, Option.some.injEq] at h
    subst h
    exact .refl
  | cons a l ih =>
    rw [exec] at h
    split at h
    case isTrue hC =>
      obtain ⟨u, hu, ht⟩ := Option.bind_eq_some_iff.1 h
      exact .head ⟨a, hC, hu⟩ (ih ht)
    case isFalse => cases h

/-- A test that holds at the end of an executed list of actions holds in a reachable state. -/
theorem reach_of_exec {p : σ → Bool} (l : List α) (h₀ : M.init s) (h : (M.exec C s l).any p = true) :
    ∃ t, M.exec C s l = some t ∧ M.Reach C t ∧ p t = true := by
  obtain ⟨t, ht, hp⟩ := (Option.any_eq_true _ _).1 h
  exact ⟨t, ht, ⟨s, h₀, run_of_exec ht⟩, hp⟩

end Machine

/-! ### Abstract specifications -/

/-- An abstract system: initial states and a transition relation, with no claim that it can be executed. -/
structure Spec (τ : Type*) where
  init : τ → Prop
  next : τ → τ → Prop

/-- The states an abstract system can get to. -/
def Spec.Reach {τ : Type*} (A : Spec τ) (t : τ) : Prop :=
  ∃ t₀, A.init t₀ ∧ Relation.ReflTransGen A.next t₀ t

theorem Spec.Reach.induct {τ : Type*} {A : Spec τ} {P : τ → Prop} {t : τ} (hinit : ∀ t, A.init t → P t)
    (hnext : ∀ t u, P t → A.next t u → P u) (h : A.Reach t) : P t := by
  obtain ⟨t₀, h₀, hr⟩ := h
  induction hr with
  | refl => exact hinit _ h₀
  | tail _ hn ih => exact hnext _ _ ih hn

/-- The machine refines the specification through `abs`: every guarded step from a reachable state is a step of
the specification or leaves the abstract state alone. -/
structure Refines {σ α τ : Type*} (M : Machine σ α) (C : σ → α → Prop) (A : Spec τ) (abs : σ → τ) : Prop where
  init : ∀ s, M.init s → A.init (abs s)
  step : ∀ s a t, M.Reach C s → C s a → M.step s a = some t → abs t = abs s ∨ A.next (abs s) (abs t)

theorem Refines.reach {σ α τ : Type*} {M : Machine σ α} {C : σ → α → Prop} {A : Spec τ} {abs : σ → τ} {s : σ}
    (hR : Refines M C A abs) (h : M.Reach C s) : A.Reach (abs s) := by
  obtain ⟨s₀, h₀, hr⟩ := h
  induction hr with
  | refl => exact ⟨abs s₀, hR.init s₀ h₀, .refl⟩
  | tail hr' hn ih =>
    obtain ⟨a, hC, ht⟩ := hn
    obtain ⟨t₀, i₀, ir⟩ := ih
    rcases hR.step _ a _ ⟨s₀, h₀, hr'⟩ hC ht with he | hA
    · rw [he]; exact ⟨t₀, i₀, ir⟩
    · exact ⟨t₀, i₀, ir.tail hA⟩

end Concurrent
