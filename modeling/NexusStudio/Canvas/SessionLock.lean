import NexusStudio.Canvas.SessionTurns
import Mathlib.Data.Fintype.Basic

/-!
# The lock of a canvas session

The parties of `SessionTurns`, together with the requests that only cancel, and the agents that the executions run.

* (cancel) `cancel_turn` goes through `_cancel_session_turn` without the fence.
* (agent) `run_canvas_replay_execution` iterates over the stream of an agent. Where the iteration is left by an
  exception the stream is dropped, and its agent may still run when the lock is released.
* (condition) `Safe`: a lock is released when the agent has stopped, and a `force_release` finds no execution.
* (result) Under the condition the lock excludes: `exclusive_of_safe`.
-/

set_option linter.unusedSectionVars false

namespace NexusStudio.SessionLock

open Concurrent SessionTurns

/-- Where the agent of an execution is. -/
inductive AgentPc
  | absent
  | running
  | over
  deriving DecidableEq, Repr

/-- The deletions are the parties `inl d`, the requests of `cancel_turn` the parties `inr c`. -/
structure State (σ τ π ρ δ γ : Type*) where
  turns : SessionTurns.State σ τ π ρ (δ ⊕ γ)
  agent : ρ → AgentPc
  -- the execution that the lock was taken for
  owner : σ → Option ρ

inductive Action (ρ δ γ : Type*)
  | request (r : ρ) (e : RequestStep)
  | delete (d : δ) (e : DeleterStep)
  | cancelTurn (c : γ) (e : DeleterStep)
  | runAgent (r : ρ)
  -- the agent has come to its end, in its stream or after the stream was dropped
  | endAgent (r : ρ)
  deriving DecidableEq

section Model

variable {σ τ π ρ δ γ : Type*} [DecidableEq σ] [DecidableEq τ] [DecidableEq π] [DecidableEq ρ] [DecidableEq δ]
  [DecidableEq γ]

/-- One step of `cancel_turn`. -/
def cancelTurnStep (E : Episode σ τ π ρ δ) (s : SessionTurns.State σ τ π ρ δ) (c : δ) (e : DeleterStep) :
    Option (SessionTurns.State σ τ π ρ δ) :=
  let q := s.deleter c
  match e, q.pc with
  | .start, .away =>
    match E.target c with
    | .session x =>
      if s.active x then some (s.setDeleter c { q with pc := .cancel .readActive, todo := [x] }) else some s
    | .episode => none
  | .cancelled, .cancel .readActive =>
    match q.todo with
    | [] => some (s.setDeleter c ⟨.away, [], [], []⟩)
    | _ :: _ => none
  -- the exception leaves the request
  | .release, .release => some (s.setDeleter c ⟨.away, [], [], []⟩)
  | .raised, .away => none
  | .raised, .release => none
  | .raised, _ => some (s.setDeleter c { q with pc := .release })
  | e, .cancel pc =>
    match q.todo with
    | x :: _ => cancelStep E s c x pc e
    | [] => none
  | _, _ => none

/-- Whom a lock belongs to after a step of the execution of `r`, or of a party without an execution. -/
def ownerAfter (r : Option ρ) (owner : σ → Option ρ) (before after : σ → Option τ) (x : σ) : Option ρ :=
  match before x, after x with
  | _, none => none
  | none, some _ => r
  | some _, some _ => owner x

def State.setTurns (s : State σ τ π ρ δ γ) (r : Option ρ) (t : SessionTurns.State σ τ π ρ (δ ⊕ γ)) :
    State σ τ π ρ δ γ :=
  { s with turns := t, owner := ownerAfter r s.owner s.turns.lock t.lock }

/-- One step of one party. -/
def step (E : Episode σ τ π ρ (δ ⊕ γ)) (s : State σ τ π ρ δ γ) : Action ρ δ γ → Option (State σ τ π ρ δ γ)
  | .request r e => (requestStep E s.turns r e).map (s.setTurns (some r))
  | .delete d e => (deleterStep E s.turns (.inl d) e).map (s.setTurns none)
  | .cancelTurn c e => (cancelTurnStep E s.turns (.inr c) e).map (s.setTurns none)
  | .runAgent r =>
    if s.turns.phase r = .running ∧ s.agent r = .absent then
      some { s with agent := Function.update s.agent r .running }
    else none
  | .endAgent r =>
    if s.agent r = .running then some { s with agent := Function.update s.agent r .over } else none

def fresh (active : σ → Bool) : State σ τ π ρ δ γ where
  turns := SessionTurns.fresh active
  agent _ := .absent
  owner _ := none

/-- The sessions of one episode with all the requests for them. -/
def sessions (E : Episode σ τ π ρ (δ ⊕ γ)) : Machine (State σ τ π ρ δ γ) (Action ρ δ γ) where
  init s := ∃ active, s = fresh active
  step := step E

/-- The agent runs. -/
def State.Running (s : State σ τ π ρ δ γ) (r : ρ) : Prop := s.agent r = .running

/-- The execution has its lock and has not stopped. -/
def State.Live (s : State σ τ π ρ δ γ) (r : ρ) : Prop := s.turns.Executing r ∨ s.Running r

/-- The lock of a session excludes in the state `s`, for the steps that `C` allows from it. -/
structure ExclusiveAt (E : Episode σ τ π ρ (δ ⊕ γ)) (C : State σ τ π ρ δ γ → Action ρ δ γ → Prop)
    (s : State σ τ π ρ δ γ) : Prop where
  atMostOne : ∀ r r', s.Running r → s.Running r' → E.session r = E.session r' → r = r'
  removed : ∀ a s', C s a → step E s a = some s' → ∀ x r, s.owner x = some r → s'.owner x ≠ some r →
    a = .request r .release ∨ ¬ s.Live r

/-! ### The condition -/

/-- The deletion or the cancel request, where the step is the `DEL` of its `force_release`. -/
def Action.forceDeletes : Action ρ δ γ → Option (δ ⊕ γ)
  | .delete d .forceDel => some (.inl d)
  | .cancelTurn c .forceDel => some (.inr c)
  | _ => none

/-- An execution releases its lock when its agent has stopped, and no execution of the session is under way at the
`DEL` of a `force_release`. -/
def Safe (E : Episode σ τ π ρ (δ ⊕ γ)) (s : State σ τ π ρ δ γ) (a : Action ρ δ γ) : Prop :=
  (∀ r, a = .request r .release → ¬ s.Running r) ∧
    ∀ d ∈ a.forceDeletes, ∀ x ∈ (s.turns.deleter d).todo.head?, ∀ r, s.Live r → E.session r ≠ x

instance (s : State σ τ π ρ δ γ) (r : ρ) : Decidable (s.Running r) := inferInstanceAs (Decidable (_ = _))

instance (s : State σ τ π ρ δ γ) (r : ρ) : Decidable (s.Live r) :=
  inferInstanceAs (Decidable ((_ ∨ _) ∨ s.Running r))

instance [Fintype ρ] (E : Episode σ τ π ρ (δ ⊕ γ)) (s : State σ τ π ρ δ γ) (a : Action ρ δ γ) :
    Decidable (Safe E s a) :=
  inferInstanceAs (Decidable ((∀ _, _ → _) ∧ ∀ d ∈ Action.forceDeletes a, ∀ x ∈ List.head? _, _))

/-! ### One step -/

section Parties

variable {E : Episode σ τ π ρ δ} {t t' : SessionTurns.State σ τ π ρ δ} {r : ρ} {d : δ}

theorem executing_setPhase {p : Phase} {r' : ρ} (h : (t.setPhase r p).Executing r') :
    (r' = r ∧ (p = .locked ∨ p = .running)) ∨ (r' ≠ r ∧ t.Executing r') := by
  by_cases hr : r' = r
  · subst hr
    exact .inl ⟨rfl, by simpa [SessionTurns.State.Executing, State.setPhase] using h⟩
  · exact .inr ⟨hr, by simpa [SessionTurns.State.Executing, State.setPhase, hr] using h⟩

/-- A request that goes on without its lock. -/
theorem executing_of_setPhase {p : Phase} {r' : ρ} (h : (t.setPhase r p).Executing r') (hp : p ≠ .locked)
    (hp' : p ≠ .running) : r' ≠ r ∧ t.Executing r' := by
  rcases executing_setPhase h with ⟨-, h | h⟩ | h
  · exact absurd h hp
  · exact absurd h hp'
  · exact h

theorem unregister_phase (w : π) (x : σ) (u : τ) : (t.unregister E w x u).phase = t.phase := by
  unfold State.unregister
  split
  · split <;> rfl
  · rfl

theorem unregister_lock (w : π) (x : σ) (u : τ) : (t.unregister E w x u).lock = t.lock := by
  unfold State.unregister
  split
  · split <;> rfl
  · rfl

/-- A step of a request keeps the locks, takes the free lock of its session, or compares and deletes it. -/
theorem requestStep_lock {e : RequestStep} (h : requestStep E t r e = some t') :
    (t'.lock = t.lock ∧ ∀ r', t'.Executing r' → t.Executing r') ∨
    (e = .acquire ∧ t.lock (E.session r) = none ∧
      t'.lock = Function.update t.lock (E.session r) (some (E.turn r)) ∧
      ∀ r', t'.Executing r' → r' = r ∨ t.Executing r') ∨
    (e = .release ∧ t.Executing r ∧
      t'.lock = Function.update t.lock (E.session r) (releaseIf (t.lock (E.session r)) (E.turn r)) ∧
      ∀ r', t'.Executing r' → r' ≠ r ∧ t.Executing r') := by
  cases e with
  | assertWritable | requireOwned =>
    simp only [requestStep, Option.ite_none_right_eq_some, Option.some.injEq] at h
    obtain ⟨-, rfl⟩ := h
    refine .inl ⟨rfl, fun r' hx => (executing_of_setPhase hx ?_ ?_).2⟩
    · split <;> nofun
    · split <;> nofun
  | reject | crash =>
    simp only [requestStep, Option.ite_none_right_eq_some, Option.some.injEq] at h
    obtain ⟨-, rfl⟩ := h
    exact .inl ⟨rfl, fun r' hx => (executing_of_setPhase hx nofun nofun).2⟩
  | acquire =>
    simp only [requestStep, Option.ite_none_right_eq_some] at h
    obtain ⟨-, h⟩ := h
    split at h
    case isTrue hl =>
      cases h
      refine .inr (.inl ⟨rfl, hl, rfl, fun r' hx => ?_⟩)
      rcases executing_setPhase hx with ⟨hr, -⟩ | ⟨-, hx⟩
      · exact .inl hr
      · exact .inr hx
    case isFalse =>
      cases h
      exact .inl ⟨rfl, fun r' hx => (executing_of_setPhase hx nofun nofun).2⟩
  | register =>
    simp only [requestStep, Option.ite_none_right_eq_some, Option.some.injEq] at h
    obtain ⟨hp, rfl⟩ := h
    refine .inl ⟨rfl, fun r' hx => ?_⟩
    rcases executing_setPhase hx with ⟨hr, -⟩ | ⟨-, hx⟩
    · exact .inl (hr ▸ hp)
    · exact hx
  | release =>
    simp only [requestStep, Option.ite_none_right_eq_some, Option.some.injEq] at h
    obtain ⟨hp, rfl⟩ := h
    exact .inr (.inr ⟨rfl, .inr hp, rfl, fun r' hx => executing_of_setPhase hx nofun nofun⟩)
  | unregister =>
    simp only [requestStep, Option.ite_none_right_eq_some, Option.some.injEq] at h
    obtain ⟨-, rfl⟩ := h
    refine .inl ⟨unregister_lock .., fun r' hx => ?_⟩
    have hx := (executing_of_setPhase hx nofun nofun).2
    rwa [SessionTurns.State.Executing, unregister_phase] at hx

/-- What a party without an execution does to the locks and the executions: it deletes one lock at most. -/
def Clears (t t' : SessionTurns.State σ τ π ρ δ) (x : Option σ) : Prop :=
  t'.phase = t.phase ∧ (t'.lock = t.lock ∨ ∃ y ∈ x, t'.lock = Function.update t.lock y none)

theorem Clears.none (hp : t'.phase = t.phase) (hl : t'.lock = t.lock) (x : Option σ) : Clears t t' x :=
  ⟨hp, .inl hl⟩

/-- The session whose lock the step may delete. -/
def deletes (t : SessionTurns.State σ τ π ρ δ) (d : δ) : DeleterStep → Option σ
  | .forceDel => (t.deleter d).todo.head?
  | _ => Option.none

theorem cancelStep_lock {e : DeleterStep} {x : σ} {c : CancelPc τ ρ} (ht : (t.deleter d).todo.head? = some x)
    (h : cancelStep E t d x c e = some t') : Clears t t' (deletes t d e) := by
  cases e with
  | readActive | waitRead | waitDone | timeout | forceGet =>
    have hq : ∃ q, t' = t.setDeleter d q := by
      simp only [cancelStep] at h
      grind
    obtain ⟨q, rfl⟩ := hq
    exact .none rfl rfl _
  | forceDel =>
    simp only [cancelStep] at h
    split at h
    · cases h
      exact ⟨rfl, .inr ⟨x, ht, rfl⟩⟩
    · cases h
  | forcePop =>
    simp only [cancelStep] at h
    split at h
    · cases h
      exact .none (unregister_phase ..) (unregister_lock ..) _
    · cases h
  | _ => cases h

/-- The steps of a deletion outside its cancel loop leave the locks alone. -/
theorem deleterStep_lock {e : DeleterStep} (h : deleterStep E t d e = some t') : Clears t t' (deletes t d e) := by
  simp only [deleterStep] at h
  split at h
  case h_11 =>
    split at h
    case h_1 x l ht => exact cancelStep_lock (by rw [ht]; rfl) h
    case h_2 => cases h
  all_goals
    have hk : t'.phase = t.phase ∧ t'.lock = t.lock := by grind [State.setDeleter]
    exact .none hk.1 hk.2 _

theorem cancelTurnStep_lock {e : DeleterStep} (h : cancelTurnStep E t d e = some t') :
    Clears t t' (deletes t d e) := by
  simp only [cancelTurnStep] at h
  split at h
  case h_7 =>
    split at h
    case h_1 x l ht => exact cancelStep_lock (by rw [ht]; rfl) h
    case h_2 => cases h
  all_goals
    have hk : t'.phase = t.phase ∧ t'.lock = t.lock := by grind [State.setDeleter]
    exact .none hk.1 hk.2 _

end Parties

/-! ### The invariant -/

variable {E : Episode σ τ π ρ (δ ⊕ γ)} {s s' : State σ τ π ρ δ γ} {a : Action ρ δ γ} {r : ρ}

/-- A lock stores the turn id of the execution that it was taken for, and who is under way has the lock. -/
structure Inv (E : Episode σ τ π ρ (δ ⊕ γ)) (s : State σ τ π ρ δ γ) : Prop where
  owned : ∀ x r, s.owner x = some r → E.session r = x ∧ s.turns.lock x = some (E.turn r)
  held : ∀ r, s.Live r → s.owner (E.session r) = some r

theorem Inv.unowned (hI : Inv E s) {x : σ} (hl : s.turns.lock x = none) : s.owner x = none := by
  cases ho : s.owner x with
  | none => rfl
  | some r =>
    have hlock := (hI.owned x r ho).2
    rw [hl] at hlock
    cases hlock

theorem Inv.ownerAfter_same (hI : Inv E s) (r : Option ρ) :
    ownerAfter r s.owner s.turns.lock s.turns.lock = s.owner := by
  funext x
  unfold ownerAfter
  cases hl : s.turns.lock x with
  | none => exact (hI.unowned hl).symm
  | some t => rfl

theorem Inv.ownerAfter_update (hI : Inv E s) (r : Option ρ) (x : σ) (v : Option τ) :
    ownerAfter r s.owner s.turns.lock (Function.update s.turns.lock x v) =
      Function.update s.owner x (v.bind fun _ => if s.turns.lock x = none then r else s.owner x) := by
  funext y
  by_cases hy : y = x
  · subst hy
    cases v with
    | none => simp [ownerAfter]
    | some t => cases hl : s.turns.lock y <;> simp [ownerAfter, hl]
  · have hsame := congrFun (hI.ownerAfter_same r) y
    unfold ownerAfter at hsame ⊢
    rw [Function.update_of_ne hy, Function.update_of_ne hy]
    exact hsame

/-- A step of a deletion or of a cancel request. -/
theorem Inv.clears (hI : Inv E s) {t : SessionTurns.State σ τ π ρ (δ ⊕ γ)} {x : Option σ} (h : Clears s.turns t x) :
    ((s.setTurns none t).owner = s.owner ∧ t.lock = s.turns.lock ∨
      ∃ y ∈ x, (s.setTurns none t).owner = Function.update s.owner y none ∧
        t.lock = Function.update s.turns.lock y none) ∧
    ∀ r', (s.setTurns none t).Live r' ↔ s.Live r' := by
  obtain ⟨hp, hl⟩ := h
  refine ⟨?_, fun r' => ?_⟩
  · rcases hl with hl | ⟨y, hy, hl⟩
    · refine .inl ⟨?_, hl⟩
      rw [State.setTurns, hl]
      exact hI.ownerAfter_same _
    · refine .inr ⟨y, hy, ?_, hl⟩
      rw [State.setTurns, hl, hI.ownerAfter_update]
      rfl
  · simp [State.Live, State.setTurns, State.Running, SessionTurns.State.Executing, hp]

theorem forceDel_of_deletes {t : SessionTurns.State σ τ π ρ δ} {d : δ} {e : DeleterStep} {x : σ}
    (h : x ∈ deletes t d e) : e = .forceDel ∧ (t.deleter d).todo.head? = some x := by
  cases e with
  | forceDel => exact ⟨rfl, h⟩
  | _ => cases h

/-- What a step does to the locks and to the executions under way. -/
theorem step_effect (hI : Inv E s) (h : step E s a = some s') :
    (s'.owner = s.owner ∧ s'.turns.lock = s.turns.lock ∧ ∀ r', s'.Live r' → s.Live r') ∨
    (∃ r, a = .request r .acquire ∧ s.owner (E.session r) = none ∧
      s'.owner = Function.update s.owner (E.session r) (some r) ∧
      s'.turns.lock = Function.update s.turns.lock (E.session r) (some (E.turn r)) ∧
      ∀ r', s'.Live r' → r' = r ∨ s.Live r') ∨
    (∃ r, a = .request r .release ∧ s.Live r ∧ s'.owner = Function.update s.owner (E.session r) none ∧
      s'.turns.lock = Function.update s.turns.lock (E.session r) none ∧
      ∀ r', s'.Live r' → s.Live r' ∧ (r' = r → s.Running r)) ∨
    (∃ d x, a.forceDeletes = some d ∧ (s.turns.deleter d).todo.head? = some x ∧
      s'.owner = Function.update s.owner x none ∧ s'.turns.lock = Function.update s.turns.lock x none ∧
      ∀ r', s'.Live r' ↔ s.Live r') := by
  cases a with
  | request r e =>
    obtain ⟨t, ht, rfl⟩ := Option.map_eq_some_iff.1 h
    rcases requestStep_lock ht with ⟨hl, hx⟩ | ⟨rfl, hn, hl, hx⟩ | ⟨rfl, hr, hl, hx⟩
    · refine .inl ⟨?_, hl, fun r' => Or.imp_left (hx r')⟩
      rw [State.setTurns, hl]
      exact hI.ownerAfter_same _
    · refine .inr (.inl ⟨r, rfl, hI.unowned hn, ?_, hl, fun r' hx' => ?_⟩)
      · rw [State.setTurns, hl, hI.ownerAfter_update, if_pos hn]
        rfl
      · rcases hx' with hx' | hx'
        · exact (hx r' hx').imp_right .inl
        · exact .inr (.inr hx')
    · have hlive : s.Live r := .inl hr
      have hlock := (hI.owned _ r (hI.held r hlive)).2
      rw [hlock, releaseIf_some_self] at hl
      refine .inr (.inr (.inl ⟨r, rfl, hlive, ?_, hl, fun r' hx' => ?_⟩))
      · rw [State.setTurns, hl, hI.ownerAfter_update]
        rfl
      · rcases hx' with hx' | hx'
        · exact ⟨.inl (hx r' hx').2, fun hr' => absurd hr' (hx r' hx').1⟩
        · exact ⟨.inr hx', fun hr' => hr' ▸ hx'⟩
  | delete d e =>
    obtain ⟨t, ht, rfl⟩ := Option.map_eq_some_iff.1 h
    obtain ⟨⟨ho, hl⟩ | ⟨y, hy, ho, hl⟩, hx⟩ := hI.clears (deleterStep_lock ht)
    · exact .inl ⟨ho, hl, fun r' => (hx r').1⟩
    · obtain ⟨rfl, htodo⟩ := forceDel_of_deletes hy
      exact .inr (.inr (.inr ⟨.inl d, y, rfl, htodo, ho, hl, hx⟩))
  | cancelTurn c e =>
    obtain ⟨t, ht, rfl⟩ := Option.map_eq_some_iff.1 h
    obtain ⟨⟨ho, hl⟩ | ⟨y, hy, ho, hl⟩, hx⟩ := hI.clears (cancelTurnStep_lock ht)
    · exact .inl ⟨ho, hl, fun r' => (hx r').1⟩
    · obtain ⟨rfl, htodo⟩ := forceDel_of_deletes hy
      exact .inr (.inr (.inr ⟨.inr c, y, rfl, htodo, ho, hl, hx⟩))
  | runAgent r =>
    simp only [step, Option.ite_none_right_eq_some, Option.some.injEq] at h
    obtain ⟨⟨hp, -⟩, rfl⟩ := h
    refine .inl ⟨rfl, rfl, fun r' hx => ?_⟩
    by_cases hr : r' = r
    · exact .inl (.inr (hr ▸ hp))
    · simpa [State.Live, State.Running, hr] using hx
  | endAgent r =>
    simp only [step, Option.ite_none_right_eq_some, Option.some.injEq] at h
    obtain ⟨-, rfl⟩ := h
    refine .inl ⟨rfl, rfl, fun r' hx => ?_⟩
    by_cases hr : r' = r
    · subst hr
      exact .inl (by simpa [State.Live, State.Running] using hx)
    · simpa [State.Live, State.Running, hr] using hx

theorem inv_step (hI : Inv E s) (hC : Safe E s a) (h : step E s a = some s') : Inv E s' := by
  -- a lock that is deleted belongs to nobody under way
  have hdelete : ∀ x, s'.owner = Function.update s.owner x none →
      s'.turns.lock = Function.update s.turns.lock x none → (∀ r', s'.Live r' → s.Live r' ∧ E.session r' ≠ x) →
      Inv E s' := by
    intro x ho hl hx
    refine ⟨fun y r' hy => ?_, fun r' hr' => ?_⟩
    · rw [ho] at hy
      rw [hl]
      by_cases hyx : y = x
      · simp [hyx] at hy
      · rw [Function.update_of_ne hyx] at hy ⊢
        exact hI.owned y r' hy
    · obtain ⟨hlive, hne⟩ := hx r' hr'
      rw [ho, Function.update_of_ne hne]
      exact hI.held r' hlive
  rcases step_effect hI h with ⟨ho, hl, hx⟩ | ⟨r, -, hn, ho, hl, hx⟩ | ⟨r, rfl, hr, ho, hl, hx⟩ |
    ⟨d, x, hd, htodo, ho, hl, hx⟩
  · refine ⟨fun x r' hx' => ?_, fun r' hr' => ?_⟩
    · rw [ho] at hx'
      rw [hl]
      exact hI.owned x r' hx'
    · rw [ho]
      exact hI.held r' (hx r' hr')
  · refine ⟨fun x r' hx' => ?_, fun r' hr' => ?_⟩
    · rw [ho] at hx'
      rw [hl]
      by_cases hxr : x = E.session r
      · subst hxr
        rw [Function.update_self] at hx' ⊢
        obtain rfl := Option.some.inj hx'
        exact ⟨rfl, rfl⟩
      · rw [Function.update_of_ne hxr] at hx' ⊢
        exact hI.owned x r' hx'
    · rw [ho]
      rcases hx r' hr' with rfl | hlive
      · exact Function.update_self ..
      · have hne : E.session r' ≠ E.session r := by
          intro heq
          have hown := hI.held r' hlive
          rw [heq, hn] at hown
          cases hown
        rw [Function.update_of_ne hne]
        exact hI.held r' hlive
  · refine hdelete _ ho hl fun r' hr' => ⟨(hx r' hr').1, fun heq => ?_⟩
    have hown := hI.held r' (hx r' hr').1
    rw [heq, hI.held r hr] at hown
    obtain rfl := Option.some.inj hown
    exact hC.1 r rfl ((hx r hr').2 rfl)
  · exact hdelete x ho hl fun r' hr' => ⟨(hx r').1 hr', hC.2 d hd x htodo r' ((hx r').1 hr')⟩

theorem inv_reach (h : (sessions E).Reach (Safe E) s) : Inv E s := by
  refine h.induct ?_ fun _ _ _ hI hC ht => inv_step hI hC ht
  rintro _ ⟨active, rfl⟩
  refine ⟨nofun, fun r hr => ?_⟩
  rcases hr with (hr | hr) | hr <;> cases hr

/-! ### The condition is enough -/

/-- Under the condition the executions on one session refine the mutex. -/
theorem refines_mutex (E : Episode σ τ π ρ (δ ⊕ γ)) (x : σ) :
    Refines (sessions E) (Safe E) (mutex ρ) fun s => {r | s.Live r ∧ E.session r = x} where
  init := by
    rintro _ ⟨active, rfl⟩
    refine Set.eq_empty_of_forall_notMem fun r hr => ?_
    rcases hr.1 with (h | h) | h <;> cases h
  step s a s' hs _ ht := by
    have hI := inv_reach hs
    rcases step_effect hI ht with ⟨-, -, hx⟩ | ⟨r, -, hn, -, -, hx⟩ | ⟨r, -, -, -, -, hx⟩ | ⟨d, y, -, -, -, -, hx⟩
    · exact .inr (.inr fun r hr => ⟨hx r hr.1, hr.2⟩)
    · by_cases hrx : E.session r = x
      · have hempty : {r | s.Live r ∧ E.session r = x} = ∅ := by
          refine Set.eq_empty_of_forall_notMem fun r' hr' => ?_
          have hown := hI.held r' hr'.1
          rw [hr'.2, ← hrx, hn] at hown
          cases hown
        have hsub : {r | s'.Live r ∧ E.session r = x} ⊆ {r} := by
          intro r' hr'
          refine (hx r' hr'.1).resolve_right fun hlive => ?_
          have hmem : r' ∈ {r | s.Live r ∧ E.session r = x} := ⟨hlive, hr'.2⟩
          rw [hempty] at hmem
          exact hmem
        rcases Set.subset_singleton_iff_eq.1 hsub with he | he
        · exact .inr (.inr (by rw [he]; exact Set.empty_subset _))
        · exact .inr (.inl ⟨hempty, r, he⟩)
      · refine .inr (.inr fun r' hr' => ⟨(hx r' hr'.1).resolve_left fun h => hrx ?_, hr'.2⟩)
        rw [← h]
        exact hr'.2
    · exact .inr (.inr fun r' hr' => ⟨(hx r' hr'.1).1, hr'.2⟩)
    · exact .inr (.inr fun r' hr' => ⟨(hx r').1 hr'.1, hr'.2⟩)

/-- In every run that meets the condition, at most one agent runs on a session, and the lock that was taken for an
execution is deleted by its own release or when it has stopped. -/
theorem exclusive_of_safe (h : (sessions E).Reach (Safe E) s) : ExclusiveAt E (Safe E) s where
  atMostOne r r' hr hr' hx := by
    have hs := mutex_subsingleton ((refines_mutex E (E.session r')).reach h)
    exact hs ⟨.inr hr, hx⟩ ⟨.inr hr', rfl⟩
  removed a s' hC hs x r hr hr' := by
    have hI := inv_reach h
    rcases step_effect hI hs with ⟨ho, -⟩ | ⟨u, -, hn, ho, -⟩ | ⟨u, rfl, hu, ho, -⟩ | ⟨d, y, hd, htodo, ho, -⟩
    · exact absurd (ho ▸ hr) hr'
    · have hne : x ≠ E.session u := by
        rintro rfl
        rw [hn] at hr
        cases hr
      rw [ho, Function.update_of_ne hne] at hr'
      exact absurd hr hr'
    · by_cases hxu : x = E.session u
      · subst hxu
        rw [hI.held u hu] at hr
        exact .inl (by rw [Option.some.inj hr])
      · rw [ho, Function.update_of_ne hxu] at hr'
        exact absurd hr hr'
    · by_cases hxy : x = y
      · subst hxy
        exact .inr fun hlive => hC.2 d hd x htodo r hlive (hI.owned x r hr).1
      · rw [ho, Function.update_of_ne hxy] at hr'
        exact absurd hr hr'

/-! ### The condition is exact -/

theorem deleterStep_forceDel {F : Episode σ τ π ρ δ} {t t' : SessionTurns.State σ τ π ρ δ} {d : δ}
    (h : deleterStep F t d .forceDel = some t' ∨ cancelTurnStep F t d .forceDel = some t') :
    ∃ x ∈ (t.deleter d).todo.head?, t'.lock = Function.update t.lock x none ∧ t'.phase = t.phase := by
  have hc : ∃ x c, (t.deleter d).todo.head? = some x ∧ cancelStep F t d x c .forceDel = some t' := by
    simp only [deleterStep, cancelTurnStep] at h
    grind
  obtain ⟨x, c, hx, hc⟩ := hc
  refine ⟨x, hx, ?_⟩
  simp only [cancelStep] at hc
  split at hc
  · cases hc
    exact ⟨rfl, rfl⟩
  · cases hc

/-- A step against the condition leaves an execution under way without its lock. -/
theorem unlocked_of_not_safe (h : (sessions E).Reach (Safe E) s) (hC : ¬ Safe E s a) (hs : step E s a = some s') :
    ∃ r, s'.Live r ∧ s'.turns.lock (E.session r) = none := by
  have hI := inv_reach h
  have hforce : ∀ (t : SessionTurns.State σ τ π ρ (δ ⊕ γ)) (d : δ ⊕ γ), s' = s.setTurns none t →
      deleterStep E s.turns d .forceDel = some t ∨ cancelTurnStep E s.turns d .forceDel = some t →
      (∃ x ∈ (s.turns.deleter d).todo.head?, ∃ r, s.Live r ∧ E.session r = x) →
      ∃ r, s'.Live r ∧ s'.turns.lock (E.session r) = none := by
    rintro t d rfl ht ⟨x, hx, r, hr, rfl⟩
    obtain ⟨y, hy, hl, hp⟩ := deleterStep_forceDel ht
    obtain rfl : y = E.session r := Option.some.inj (hy.symm.trans hx)
    refine ⟨r, ((hI.clears ⟨hp, .inr ⟨_, rfl, hl⟩⟩).2 r).2 hr, ?_⟩
    rw [State.setTurns, hl]
    exact Function.update_self ..
  unfold Safe at hC
  rw [not_and_or] at hC
  push Not at hC
  rcases hC with ⟨r, rfl, hr⟩ | ⟨d, hd, hbad⟩
  · obtain ⟨t, ht, rfl⟩ := Option.map_eq_some_iff.1 hs
    have hlock := (hI.owned _ r (hI.held r (.inr hr))).2
    simp only [requestStep, Option.ite_none_right_eq_some, Option.some.injEq] at ht
    obtain ⟨-, rfl⟩ := ht
    refine ⟨r, .inr hr, ?_⟩
    simp [State.setTurns, State.setPhase, State.setLock, hlock]
  · cases a with
    | delete d' e =>
      cases e with
      | forceDel =>
        obtain ⟨t, ht, rfl⟩ := Option.map_eq_some_iff.1 hs
        obtain rfl := Option.some.inj hd
        exact hforce t _ rfl (.inl ht) hbad
      | _ => cases hd
    | cancelTurn c e =>
      cases e with
      | forceDel =>
        obtain ⟨t, ht, rfl⟩ := Option.map_eq_some_iff.1 hs
        obtain rfl := Option.some.inj hd
        exact hforce t _ rfl (.inr ht) hbad
      | _ => cases hd
    | _ => cases hd

end Model

/-! ### Runs -/

section Runs

local instance neZero_one : NeZero 1 := ⟨Nat.succ_ne_zero 0⟩

local instance neZero_three : NeZero 3 := ⟨Nat.succ_ne_zero 2⟩

/-- One session with two turns, the second of which is resumed, and one cancel request. -/
def oneSession : Episode Nat String Unit (Fin 3) (Fin 0 ⊕ Fin 1) where
  session _ := 0
  turn r := if r = 0 then "turn:0" else "turn:1"
  worker _ := ()
  deleterWorker _ := ()
  target _ := .session 0
  sessions := [0]

/-- The start or resume of a turn, up to its agent. -/
def begin (r : Fin 3) : List (Action (Fin 3) (Fin 0) (Fin 1)) :=
  [.request r .assertWritable, .request r .requireOwned, .request r .acquire, .request r .register, .runAgent r]

/-- The `cancel_turn` up to the `GET` of its `force_release`. -/
def cancelTimesOut : List (Action (Fin 3) (Fin 0) (Fin 1)) :=
  [.cancelTurn 0 .start, .cancelTurn 0 .readActive, .cancelTurn 0 .waitRead, .cancelTurn 0 .timeout,
    .cancelTurn 0 .forceGet]

/-- The release of the turn fails and a cancel request deletes its lock; then the turn is resumed. -/
theorem exclusive_after_reclaim :
    ∃ s, (sessions oneSession).Reach (Safe oneSession) s ∧ s.Running 2 ∧
      ExclusiveAt oneSession (Safe oneSession) s := by
  obtain ⟨s, -, hr, hp⟩ := Machine.reach_of_exec (M := sessions oneSession) (C := Safe oneSession)
    (s := fresh fun _ => true) (p := fun s => decide (s.Running 2))
    (begin 1 ++ [.endAgent 1, .request 1 .crash] ++ cancelTimesOut ++
      [.cancelTurn 0 .forceDel, .cancelTurn 0 .forcePop, .cancelTurn 0 .release] ++ begin 2) ⟨_, rfl⟩ (by decide)
  exact ⟨s, hr, of_decide_eq_true hp, exclusive_of_safe hr⟩

/-- A cancel request reads the lock of a turn and, when that turn is over, deletes the lock of the next one. -/
theorem not_exclusive_after_cancel : ¬ ∀ s, (sessions oneSession).Reach Free s → ExclusiveAt oneSession Free s := by
  intro hall
  obtain ⟨s, -, hr, hp⟩ := Machine.reach_of_exec (M := sessions oneSession) (C := Free) (s := fresh fun _ => true)
    (p := fun s => decide (s.Running 1 ∧ s.Running 2))
    (begin 0 ++ cancelTimesOut ++ [.endAgent 0, .request 0 .release] ++ begin 1 ++ [.cancelTurn 0 .forceDel] ++
      begin 2) ⟨_, rfl⟩ (by decide)
  obtain ⟨h₁, h₂⟩ := of_decide_eq_true hp
  have h := (hall s hr).atMostOne 1 2 h₁ h₂ rfl
  cases h

end Runs

end NexusStudio.SessionLock
