import NexusStudio.Chat.TurnLock
import Mathlib.Data.Fintype.EquivFin

/-!
# One turn at a time

`release` and `refresh` compare the owner of the lock; `force_cancel` deletes what it finds.

* (condition) `DeleteSafe`: whatever a `force_cancel` deletes belongs to the turn it acts for, and a cancel request
  deletes it only when the execution of that turn is over.
* (result) Under the condition the lock excludes: it is deleted for its own turn only, and at most one turn executes.
* (exactness) A single step outside the condition deletes another turn's lock or lets two turns execute.
-/

set_option linter.unusedSectionVars false

namespace NexusStudio.TurnLock

open Concurrent

section Exclusion

variable {τ ρ : Type*} [DecidableEq τ] [DecidableEq ρ] {C : State τ ρ → Action τ ρ → Prop} {s s' : State τ ρ}

/-- The lock excludes in the state `s`, for the steps that `C` allows from it. -/
structure ExclusiveAt (C : State τ ρ → Action τ ρ → Prop) (s : State τ ρ) : Prop where
  atMostOne : ∀ t u, s.Executing t → s.Executing u → t = u
  deleted : ∀ a s', C s a → step s a = some s' →
    ∀ t, s.keys.lock = some t → s'.keys.lock ≠ some t → a.turn s = some t
  acquired : ∀ a s', C s a → step s a = some s' →
    ∀ t, s'.keys.lock = some t → s.keys.lock ≠ some t → a = .start t ∧ ∀ u, ¬ s.Executing u

/-- The step is the `DEL` of a `force_cancel`. -/
def Action.forceDeletes (s : State τ ρ) : Action τ ρ → Bool
  | .exec t .finalize => (s.exec t).stream == .finalize .forceDel
  | .abort r .cleanup => (s.abort r).pc == .cleanup .forceDel
  | _ => false

/-- The step belongs to a cancel request. -/
def Action.byRequest : Action τ ρ → Bool
  | .abort _ _ => true
  | _ => false

/-- The `DEL` of a `force_cancel` finds no lock, or the lock of the turn it acts for; and a cancel request finds the
lock of a turn only when the execution of that turn is over. -/
def DeleteSafe (s : State τ ρ) (a : Action τ ρ) : Prop :=
  a.forceDeletes s → ∀ u ∈ s.keys.lock, a.turn s = some u ∧ (a.byRequest → ¬ s.Executing u)

instance (s : State τ ρ) (a : Action τ ρ) : Decidable (DeleteSafe s a) :=
  inferInstanceAs (Decidable (_ → ∀ u ∈ s.keys.lock, _))

/-- Whoever executes holds the lock. -/
def Held (s : State τ ρ) : Prop :=
  ∀ t, s.Executing t → s.keys.lock = some t

/-! ### One step -/

/-- What one step does to the lock and to the executing turns. -/
theorem step_lock {a : Action τ ρ} (h : step s a = some s') :
    (s'.keys.lock = s.keys.lock ∧ ∀ u, s'.Executing u → s.Executing u) ∨
    (∃ t, a = .start t ∧ s.keys.lock = none ∧ s'.keys.lock = some t ∧
      ∀ u, s'.Executing u → u = t ∨ s.Executing u) ∨
    (∃ t e, a = .exec t e ∧ s'.keys.lock = releaseIf s.keys.lock t ∧ ∀ u, s'.Executing u → u ≠ t ∧ s.Executing u) ∨
    (a.forceDeletes s ∧ s'.keys.lock = none ∧
      ∀ u, s'.Executing u → s.Executing u ∧ (a.byRequest ∨ a.turn s ≠ some u)) := by
  cases a with
  | start t =>
    simp only [step] at h
    split at h
    · cases h
    · split at h
      case isTrue hl =>
        cases h
        refine .inr (.inl ⟨t, rfl, hl, rfl, fun u hu => ?_⟩)
        by_cases hut : u = t
        · exact .inl hut
        · exact .inr (by simpa [State.Executing, hut] using hu)
      case isFalse =>
        cases h
        exact .inl ⟨rfl, fun _ => id⟩
  | exec t e =>
    obtain ⟨⟨k, x⟩, hx, rfl⟩ := Option.map_eq_some_iff.1 h
    have hne : ∀ u, u ≠ t → (Function.update s.exec t x u).holding = true → s.Executing u := by
      intro u hut hu
      rwa [Function.update_of_ne hut] at hu
    have hdone : x.holding = false →
        ∀ u, (Function.update s.exec t x u).holding = true → u ≠ t ∧ s.Executing u := by
      intro hf u hu
      by_cases hut : u = t
      · subst hut
        simp [hf] at hu
      · exact ⟨hut, hne u hut hu⟩
    rcases execStep_lock hx with ⟨hl, hh⟩ | ⟨rfl, hs, hl, hf⟩ | ⟨hl, hf⟩
    · refine .inl ⟨hl, fun u hu => ?_⟩
      by_cases hut : u = t
      · subst hut
        exact hh (by simpa [State.Executing] using hu)
      · exact hne u hut hu
    · refine .inr (.inr (.inr ⟨by simp [Action.forceDeletes, hs], hl, fun u hu => ?_⟩))
      obtain ⟨hut, hsu⟩ := hdone hf u hu
      exact ⟨hsu, .inr fun h => hut (Option.some.inj h).symm⟩
    · exact .inr (.inr (.inl ⟨t, e, rfl, hl, hdone hf⟩))
  | abort r f =>
    obtain ⟨⟨k, q⟩, hq, rfl⟩ := Option.map_eq_some_iff.1 h
    rcases abortStep_lock hq with hl | ⟨rfl, hpc, hl⟩
    · exact .inl ⟨hl, fun _ => id⟩
    · exact .inr (.inr (.inr ⟨by simp [Action.forceDeletes, hpc], hl, fun u hu => ⟨hu, .inl rfl⟩⟩))
  | dropGate =>
    cases h
    exact .inl ⟨rfl, fun _ => id⟩

/-- The lock stays with the executing turn across a step that meets the condition. -/
theorem held_step {a : Action τ ρ} (hH : Held s) (hC : DeleteSafe s a) (h : step s a = some s') : Held s' := by
  intro u hu
  rcases step_lock h with ⟨hl, hx⟩ | ⟨t, -, hn, hl, hx⟩ | ⟨t, e, -, hl, hx⟩ | ⟨hd, -, hx⟩
  · rw [hl]
    exact hH u (hx u hu)
  · rcases hx u hu with rfl | hs
    · exact hl
    · have := hH u hs
      rw [hn] at this
      cases this
  · obtain ⟨hne, hs⟩ := hx u hu
    rw [hl, releaseIf_eq_some]
    exact ⟨hH u hs, hne⟩
  · obtain ⟨hs, hby⟩ := hx u hu
    obtain ⟨hturn, hover⟩ := hC hd u (hH u hs)
    rcases hby with hr | hne
    · exact absurd hs (hover hr)
    · exact absurd hturn hne

theorem held_reach (h : (conversation (τ := τ) (ρ := ρ)).Reach DeleteSafe s) : Held s := by
  refine h.induct ?_ fun _ _ _ hH hC ht => held_step hH hC ht
  rintro _ rfl t ht
  cases ht

private theorem Held.not_executing (hH : Held s) (hn : s.keys.lock = none) (t : τ) : ¬ s.Executing t := by
  intro ht
  have := hH t ht
  rw [hn] at this
  cases this

/-- Under the condition the executions of a conversation refine the mutex. -/
theorem refines_mutex :
    Refines (conversation (τ := τ) (ρ := ρ)) DeleteSafe (mutex τ) fun s => {t | s.Executing t} where
  init := by
    rintro _ rfl
    exact Set.eq_empty_of_forall_notMem fun _ h => nomatch h
  step s a s' hs _ ht := by
    rcases step_lock ht with ⟨-, hx⟩ | ⟨t, -, hn, -, hx⟩ | ⟨t, e, -, -, hx⟩ | ⟨-, -, hx⟩
    · exact .inr (.inr hx)
    · have hnone := (held_reach hs).not_executing hn
      have hsub : {u | s'.Executing u} ⊆ {t} := fun u hu => (hx u hu).resolve_right (hnone u)
      rcases Set.subset_singleton_iff_eq.1 hsub with he | he
      · exact .inr (.inr (by rw [he]; exact Set.empty_subset _))
      · exact .inr (.inl ⟨Set.eq_empty_of_forall_notMem hnone, t, he⟩)
    · exact .inr (.inr fun u hu => (hx u hu).2)
    · exact .inr (.inr fun u hu => (hx u hu).1)

/-! ### The condition is enough -/

/-- In every run in which each `force_cancel` deletes safely, the lock of a turn is deleted only by a step that acts
for it, a turn takes the lock only when no turn executes, and at most one turn executes. -/
theorem exclusive_of_deleteSafe (h : (conversation (τ := τ) (ρ := ρ)).Reach DeleteSafe s) :
    ExclusiveAt DeleteSafe s where
  atMostOne t u ht hu := mutex_subsingleton (refines_mutex.reach h) ht hu
  deleted a s' hC hs t ht ht' := by
    rcases step_lock hs with ⟨hl, -⟩ | ⟨u, -, hn, -⟩ | ⟨u, e, rfl, hl, -⟩ | ⟨hd, -⟩
    · exact absurd (hl.trans ht) ht'
    · rw [hn] at ht
      cases ht
    · by_contra hne
      refine ht' ?_
      rw [hl, releaseIf_eq_some]
      exact ⟨ht, fun htu => hne (congrArg some htu.symm)⟩
    · exact (hC hd t ht).1
  acquired a s' _ hs t ht' ht := by
    rcases step_lock hs with ⟨hl, -⟩ | ⟨u, rfl, hn, hl, -⟩ | ⟨u, e, -, hl, -⟩ | ⟨-, hl, -⟩
    · exact absurd (hl ▸ ht') ht
    · rw [hl] at ht'
      exact ⟨by rw [Option.some.inj ht'], (held_reach h).not_executing hn⟩
    · rw [hl, releaseIf_eq_some] at ht'
      exact absurd ht'.1 ht
    · rw [hl] at ht'
      cases ht'

/-- Turn `1` raises a gate and ends; the cancel of the gate finds no lock to delete, and the turn `2` starts. -/
theorem exclusive_after_gate_cancel :
    ∃ s : State Nat Nat, conversation.Reach DeleteSafe s ∧ s.Executing 2 ∧ ExclusiveAt DeleteSafe s := by
  obtain ⟨s, -, hr, hp⟩ := Machine.reach_of_exec (M := conversation (ρ := Nat)) (C := DeleteSafe) (s := fresh)
    (p := fun s => decide (s.Executing 2 ∧ (s.abort 0).pc = .returned))
    [.start 1, .exec 1 .setRunning, .exec 1 .markTurnActive, .exec 1 .setGatePending, .exec 1 (.leaveStream true),
      .exec 1 .release, .exec 1 .serviceRelease, .exec 1 .leave, .exec 1 .signalGet, .exec 1 .outerRelease,
      .abort 0 (.load (some 1)), .abort 0 .checkGate, .abort 0 .resolve, .abort 0 .signal, .abort 0 .resolveGate,
      .abort 0 .cleanup, .abort 0 .cleanup, .abort 0 .cleanup, .start 2, .abort 0 .cleanup, .abort 0 .cleanup,
      .abort 0 .persistClose] rfl (by decide)
  exact ⟨s, hr, (of_decide_eq_true hp).1, exclusive_of_deleteSafe hr⟩

/-! ### The condition is exact -/

private theorem forceDeletes_spec {a : Action τ ρ} (hd : a.forceDeletes s) (hs : step s a = some s') :
    s'.keys.lock = none ∧ (a.byRequest → s'.exec = s.exec) := by
  unfold Action.forceDeletes at hd
  split at hd
  case h_1 t =>
    obtain ⟨⟨k, x⟩, hx, rfl⟩ := Option.map_eq_some_iff.1 hs
    rw [execStep, eq_of_beq hd] at hx
    cases hx
    refine ⟨rfl, fun hb => ?_⟩
    cases hb
  case h_2 r =>
    obtain ⟨⟨k, q⟩, hq, rfl⟩ := Option.map_eq_some_iff.1 hs
    rw [abortStep, eq_of_beq hd] at hq
    cases hq
    exact ⟨rfl, fun _ => rfl⟩
  case h_3 => cases hd

/-- A step outside the condition deletes the lock of a turn it does not act for, or the next start brings a second
executing turn. -/
theorem broken_of_not_deleteSafe [Infinite τ] {a : Action τ ρ} (hC : ¬ DeleteSafe s a) (hs : step s a = some s') :
    (∃ t, s.keys.lock = some t ∧ s'.keys.lock ≠ some t ∧ a.turn s ≠ some t) ∨
    ∃ v s'', step s' (.start v) = some s'' ∧ ∃ t u, t ≠ u ∧ s''.Executing t ∧ s''.Executing u := by
  simp only [DeleteSafe, Classical.not_imp, not_forall, not_and, not_not] at hC
  obtain ⟨hd, u, hu, hbad⟩ := hC
  obtain ⟨hl, hexec⟩ := forceDeletes_spec hd hs
  by_cases hturn : a.turn s = some u
  · obtain ⟨hreq, hx⟩ := hbad hturn
    obtain ⟨v, hv⟩ := Infinite.exists_notMem_finset (insert u s'.used)
    rw [Finset.mem_insert, not_or] at hv
    refine .inr ⟨v, _, by rw [step, if_neg hv.2, if_pos hl], u, v, fun h => hv.1 h.symm, ?_, ?_⟩
    · show (Function.update s'.exec v _ u).holding = true
      rw [Function.update_of_ne fun h => hv.1 h.symm, hexec hreq]
      exact hx
    · show (Function.update s'.exec v _ v).holding = true
      rw [Function.update_self]
  · exact .inl ⟨u, hu, by rw [hl]; nofun, hturn⟩

end Exclusion

/-! ### A run that breaks the exclusion -/

/-- A user cancels the running turn `1`: its lock is deleted while it executes, and the turn `2` starts. -/
def cancelRunning : List (Action Nat Nat) :=
  [.start 1, .exec 1 .setRunning, .exec 1 .markTurnActive, .abort 0 (.load none), .abort 0 .checkGate,
    .abort 0 .resolve, .abort 0 .signal, .abort 0 .resolveGate, .abort 0 .cleanup, .abort 0 .cleanup,
    .abort 0 .cleanup, .start 2]

theorem not_exclusive : ¬ ∀ s : State Nat Nat, conversation.Reach Free s → ExclusiveAt Free s := by
  intro hall
  obtain ⟨s, -, hr, hp⟩ := Machine.reach_of_exec (M := conversation) (C := Free) (s := fresh)
    (p := fun s => decide (s.Executing 1 ∧ s.Executing 2)) cancelRunning rfl (by decide)
  obtain ⟨h1, h2⟩ := of_decide_eq_true hp
  have := (hall s hr).atMostOne 1 2 h1 h2
  omega

end NexusStudio.TurnLock
