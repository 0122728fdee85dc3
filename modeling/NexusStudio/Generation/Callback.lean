import NexusStudio.Generation.Writers

/-!
# Callbacks that are acknowledged

`handle_callback` updates the row under the status it has read; when the update misses it marks the callback as sent
and returns.

* (condition) `CallbackSafe`: when the transaction of a terminal callback runs, the row has the status that was read
  and is not deleted, or it is terminal already.
* (result) Under the condition the task is terminal whenever a terminal callback has been acknowledged.
* (exactness) After a transaction outside the condition the callback is acknowledged with a task that is not terminal.
-/

set_option linter.unusedSectionVars false

namespace NexusStudio.Generation

open Concurrent GatewayTaskStatus

section Callback

variable {ω : Type*} [DecidableEq ω] {s s' : State ω}

/-- A terminal callback that has been acknowledged has left the task terminal. -/
def NoResultDropped (s : State ω) : Prop :=
  ∀ w status, s.proc w = .acknowledged status → status.isTerminal → s.task.status.isTerminal

/-- The condition on the transaction of a writer. -/
def Proc.CallbackSafe (t : GenerateTask) : Proc → Prop
  | .apply (some status) expected _ _ =>
    status.isTerminal → (t.status = expected ∧ t.deleted = false) ∨ t.status.isTerminal
  | _ => True

instance (t : GenerateTask) : (p : Proc) → Decidable (p.CallbackSafe t)
  | .apply (some status) expected _ _ =>
    inferInstanceAs (Decidable (status.isTerminal → (t.status = expected ∧ t.deleted = false) ∨ t.status.isTerminal))
  | .apply none _ _ _ | .idle | .markCallbackSent _ | .reread _ | .acknowledged _ | .cancel | .delete | .bind _
  | .bindAgain _ | .fail _ | .ensure _ _ | .ensureCreate _ _ _ | .finished => isTrue trivial

/-- The writer whose transaction runs. -/
def Action.applies : Action ω → Option ω
  | .apply w => some w
  | _ => none

/-- When the transaction of a terminal callback runs, the row is as it was read, or terminal. -/
def CallbackSafe (s : State ω) (a : Action ω) : Prop :=
  ∀ w ∈ a.applies, (s.proc w).CallbackSafe s.task

instance (s : State ω) (a : Action ω) : Decidable (CallbackSafe s a) :=
  inferInstanceAs (Decidable (∀ w ∈ a.applies, (s.proc w).CallbackSafe s.task))

/-- A writer that will acknowledge or has acknowledged a terminal callback. -/
def Proc.settled : Proc → Bool
  | .markCallbackSent status | .reread status | .acknowledged status => status.isTerminal
  | _ => false

/-- What a settled writer says of the task. -/
def Settled (s : State ω) : Prop :=
  ∀ w, (s.proc w).settled → s.task.status.isTerminal

/-! ### One step -/

private theorem applyResult_settled {callback : Option GatewayTaskStatus} {t : GenerateTask}
    {res : GenerationTerminal} {sent : Bool} (hc : ∀ c ∈ callback, res.status.isTerminal = c.isTerminal)
    (h : (applyResult callback t res sent).settled) : t.status.isTerminal := by
  unfold applyResult at h
  split at h
  case isFalse => cases h
  case isTrue hn =>
    cases callback with
    | none => cases h
    | some status =>
      rcases hn with ht | ⟨hr, -⟩
      · exact ht
      · -- a terminal callback does not fall behind
        have hs : status.isTerminal = true := h
        rw [hc status rfl, hs] at hr
        cases hr

private theorem observed_settled {t : GenerateTask} {res : GenerationTerminal} {sent : Bool}
    (h : (applyResult none t res sent).settled) : t.status.isTerminal :=
  applyResult_settled (fun _ hc => absurd hc (by simp)) h

private theorem handleCallback_settled {t : GenerateTask} {unionTaskId : Nat} {report : GatewayReport}
    (h : (handleCallback t unionTaskId report).settled) : t.status.isTerminal := by
  unfold handleCallback at h
  split at h
  · cases h
  split at h
  · cases h
  split at h
  case isTrue hs => exact hs.2
  split at h
  · cases h
  case h_2 res hres =>
    refine applyResult_settled (fun c hc => ?_) h
    cases hc
    exact (normalize_status hres).1

private theorem observeOneNonTerminalTask_settled {t : GenerateTask} {status : GatewayTaskStatus}
    {response : Option GatewayReport} (h : (observeOneNonTerminalTask t status response).settled) :
    t.status.isTerminal := by
  unfold observeOneNonTerminalTask at h
  split at h
  · cases h
  split at h
  · split at h
    · cases h
    · split at h
      · cases h
      · exact observed_settled h
  · split at h
    · cases h
    · exact observed_settled h

/-- One writer goes on: it is enough to look at that writer. -/
private theorem Settled.setProc (hS : Settled s) (hA : s.task.status.isTerminal → s'.task.status.isTerminal) {w : ω}
    {p : Proc} (hp : p.settled → s'.task.status.isTerminal) (h : s'.proc = Function.update s.proc w p) :
    Settled s' := by
  intro w' hw
  rw [h] at hw
  by_cases hww : w' = w
  · subst hww
    exact hp (by simpa using hw)
  · exact hA (hS w' (by simpa [hww] using hw))

/-- A writer that has acknowledged no terminal callback goes on. -/
private theorem Settled.setQuiet (hS : Settled s) (hA : s.task.status.isTerminal → s'.task.status.isTerminal) {w : ω}
    {p : Proc} (hp : p.settled = false) (h : s'.proc = Function.update s.proc w p) : Settled s' := by
  refine hS.setProc hA (fun hw => ?_) h
  rw [hp] at hw
  cases hw

theorem settled_step {a : Action ω} (hI : Inv s) (hS : Settled s) (hC : CallbackSafe s a) (h : step s a = some s') :
    Settled s' := by
  have hA : s.task.status.isTerminal → s'.task.status.isTerminal := by
    intro ht
    rw [(inv_step hI h).2.terminal ht]
    exact ht
  cases a with
  | callback w unionTaskId report =>
    simp only [step, Option.ite_none_right_eq_some, Option.some.injEq] at h
    obtain ⟨-, rfl⟩ := h
    exact hS.setProc hA handleCallback_settled rfl
  | observe w status response =>
    simp only [step, Option.ite_none_right_eq_some, Option.some.injEq] at h
    obtain ⟨-, rfl⟩ := h
    exact hS.setProc hA observeOneNonTerminalTask_settled rfl
  | apply w =>
    simp only [step] at h
    split at h
    case h_2 => cases h
    case h_1 callback expected res sent hw =>
      have hok : ApplyOk callback expected res := by
        have := hI.proc w
        rwa [hw] at this
      have hsafe : Proc.CallbackSafe s.task (.apply callback expected res sent) := hw ▸ hC w rfl
      split at h
      case h_1 hmiss =>
        cases h
        refine hS.setProc hA (fun hp => ?_) rfl
        cases callback with
        | none => cases hp
        | some status =>
          rcases hsafe hp with hhit | ht
          · rw [GenerateTask.updateIfStatus, if_pos hhit] at hmiss
            cases hmiss
          · exact ht
      case h_2 t ht =>
        cases h
        refine hS.setProc hA (fun hp => ?_) rfl
        obtain ⟨-, ht⟩ := Option.ite_none_right_eq_some.1 ht
        cases ht
        cases callback with
        | none => cases hp
        | some status =>
          have hres : res.status.isTerminal = true := (hok.terminal status rfl).trans hp
          have hst : (if res.status = SUCCEEDED then ensureResultAssets (s.task.update res sent) s.assets
              else (s.task.update res sent, s.assets)).1.status = res.status := by
            split
            · rw [ensureResultAssets_status]
              rfl
            · rfl
          exact (congrArg GatewayTaskStatus.isTerminal hst).trans hres
  | markCallbackSent w =>
    simp only [step] at h
    split at h
    case h_2 => cases h
    case h_1 status hw =>
      cases h
      exact hS.setProc hA (fun hp => hA (hS w (by rw [hw]; exact hp))) rfl
  | reread w =>
    simp only [step] at h
    split at h
    case h_2 => cases h
    case h_1 status hw =>
      cases h
      exact hS.setProc hA (fun hp => hA (hS w (by rw [hw]; exact hp))) rfl
  | cancel w gatewayFails =>
    simp only [step, Option.ite_none_right_eq_some, Option.some.injEq] at h
    obtain ⟨-, rfl⟩ := h
    exact hS.setQuiet hA (by split <;> rfl) rfl
  | delete w =>
    simp only [step, Option.ite_none_right_eq_some, Option.some.injEq] at h
    obtain ⟨-, rfl⟩ := h
    exact hS.setQuiet hA (by split <;> rfl) rfl
  | ensure w =>
    simp only [step, Option.ite_none_right_eq_some, Option.some.injEq] at h
    obtain ⟨-, rfl⟩ := h
    exact hS.setQuiet hA (by split <;> rfl) rfl
  | cancelWrite w | deleteWrite w =>
    simp only [step, Option.ite_none_right_eq_some, Option.some.injEq] at h
    obtain ⟨-, rfl⟩ := h
    exact hS.setQuiet hA (p := .finished) rfl rfl
  | submitted w answer =>
    simp only [step, Option.ite_none_right_eq_some] at h
    obtain ⟨-, h⟩ := h
    split at h <;> cases h
    · exact hS.setQuiet hA (p := .bind _) rfl rfl
    · exact hS.setQuiet hA (p := .fail _) rfl rfl
  | bind w =>
    simp only [step] at h
    split at h
    case h_2 => cases h
    case h_1 =>
      split at h <;> cases h
      · exact hS.setQuiet hA (p := .finished) rfl rfl
      · exact hS.setQuiet hA (p := .bindAgain _) rfl rfl
  | bindAgain w | fail w =>
    simp only [step] at h
    split at h
    case h_2 => cases h
    case h_1 =>
      cases h
      exact hS.setQuiet hA (p := .finished) rfl rfl
  | ensureStep w =>
    have hw := hI.proc w
    simp only [step] at h
    split at h
    case h_1 _ hp | h_2 _ _ _ hp | h_3 _ _ _ hp =>
      rw [hp] at hw
      exact hw.elim
    case h_4 => cases h
  | abort w =>
    simp only [step] at h
    split at h
    case h_1 | h_2 | h_3 => cases h
    case h_4 =>
      cases h
      exact hS.setQuiet hA (p := .finished) rfl rfl

/-! ### The condition is enough -/

theorem settled_reach (h : (generation (ω := ω)).Reach CallbackSafe s) : Inv s ∧ Settled s := by
  refine h.induct (P := fun s => Inv s ∧ Settled s) ?_ fun _ _ _ hI hC ht =>
    ⟨(inv_step hI.1 ht).1, settled_step hI.1 hI.2 hC ht⟩
  rintro _ ⟨kind, rfl⟩
  exact ⟨inv_reach (.of_init ⟨kind, rfl⟩), nofun⟩

/-- In every run that meets the condition, the task is terminal whenever a terminal callback has been acknowledged. -/
theorem noResultDropped_of_callbackSafe (h : (generation (ω := ω)).Reach CallbackSafe s) : NoResultDropped s :=
  fun w _ hw hs => (settled_reach h).2 w (by rw [hw]; exact hs)

/-- The task is terminal when the callback comes, after an observation that was taken up. -/
theorem noResultDropped_observed :
    ∃ s : State (Fin 3), generation.Reach CallbackSafe s ∧ s.proc 2 = .acknowledged SUCCEEDED ∧
      NoResultDropped s := by
  let a : GatewayResultItem := ⟨"result/a", some 2, some 1, some 1⟩
  obtain ⟨s, -, hr, hp⟩ := Machine.reach_of_exec (M := generation (ω := Fin 3)) (C := CallbackSafe)
    (s := created .VIDEO) (p := fun s => decide (s.proc 2 = .acknowledged SUCCEEDED))
    [.submitted 0 (.ok 7), .bind 0, .observe 1 RUNNING none, .apply 1, .callback 2 7 ⟨SUCCEEDED, some [a], ""⟩,
      .apply 2] ⟨_, rfl⟩ (by decide)
  exact ⟨s, hr, of_decide_eq_true hp, noResultDropped_of_callbackSafe hr⟩

/-! ### The condition is exact -/

/-- After a transaction outside the condition the callback is acknowledged with a task that is not terminal. -/
theorem dropped_of_not_callbackSafe {a : Action ω} (hC : ¬ CallbackSafe s a) (h : step s a = some s') :
    ∃ t, (generation (ω := ω)).Run Free s' t ∧ ¬ NoResultDropped t := by
  simp only [CallbackSafe, not_forall] at hC
  obtain ⟨w, ha, hC⟩ := hC
  cases a with
  | apply w' =>
    cases ha
    unfold Proc.CallbackSafe at hC
    split at hC
    case h_2 => exact absurd trivial hC
    case h_1 status expected res sent hw =>
      simp only [Classical.not_imp, not_or] at hC
      obtain ⟨hs, hmiss, hn⟩ := hC
      simp only [step, hw, GenerateTask.updateIfStatus, if_neg hmiss, Option.some.injEq] at h
      subst h
      -- `mark_callback_sent`, the second read, and the answer
      let s₁ : State ω := s.setProc w (.markCallbackSent status)
      let s₂ : State ω := (s₁.setTask s₁.task.markCallbackSent).setProc w (.reread status)
      let s₃ : State ω := s₂.setProc w (.acknowledged status)
      have h₂ : step s₁ (.markCallbackSent w) = some s₂ := by
        simp [step, s₁, s₂, State.setProc]
      have h₃ : step s₂ (.reread w) = some s₃ := by
        simp [step, s₂, s₃, State.setProc]
      have hst : s₃.task.status = s.task.status := by
        show (GenerateTask.markCallbackSent s.task).status = _
        unfold GenerateTask.markCallbackSent
        split <;> rfl
      have n₂ : (generation (ω := ω)).Next Free s₁ s₂ := ⟨.markCallbackSent w, trivial, h₂⟩
      have n₃ : (generation (ω := ω)).Next Free s₂ s₃ := ⟨.reread w, trivial, h₃⟩
      refine ⟨s₃, Relation.ReflTransGen.head n₂ (.single n₃), fun hN => hn ?_⟩
      have := hN w status (by simp [s₃, State.setProc]) hs
      rwa [hst] at this
  | _ => cases ha

end Callback

/-- The callback reads a queued task; an observation moves it to running before the transaction of the callback. -/
theorem result_dropped : ¬ ∀ s : State (Fin 3), generation.Reach Free s → NoResultDropped s := by
  intro hall
  let a : GatewayResultItem := ⟨"result/a", some 2, some 1, some 1⟩
  obtain ⟨s, -, hr, hp⟩ := Machine.reach_of_exec (M := generation (ω := Fin 3)) (C := Free) (s := created .IMAGE)
    (p := fun s => decide (s.proc 2 = .acknowledged SUCCEEDED ∧ s.task.status = RUNNING))
    [.submitted 0 (.ok 7), .bind 0, .observe 1 RUNNING none, .callback 2 7 ⟨SUCCEEDED, some [a], ""⟩, .apply 1,
      .apply 2, .markCallbackSent 2, .reread 2] ⟨_, rfl⟩ (by decide)
  obtain ⟨hw, hs⟩ := of_decide_eq_true hp
  have := hall s hr 2 SUCCEEDED hw rfl
  rw [hs] at this
  cases this

end NexusStudio.Generation
