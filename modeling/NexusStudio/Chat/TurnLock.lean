import NexusStudio.Lib.Exclusion
import Mathlib.Data.Finset.Insert
import Mathlib.Logic.Function.Basic

/-!
# Turns of one chat conversation: lock, cancel signal and abort

The shared keys of a conversation, the executions of its turns and the cancel requests against them. Every command on
the store and every write of the conversation row is one step; executions and requests interleave freely.

* (execution) `run_chat_replay_execution` around `stream_conversation_agent_turn`, with both `finally` blocks, the
  cancel watchers and the lease refresh.
* (request) `cancel_active_turn` and `cancel_gate`, which call `abort_user_turn`.
* (cleanup) `clear_turn_ephemeral_state`, which both of them run.

Turn ids are fresh at every start, as the identifiers that the endpoint draws.
-/

set_option linter.unusedSectionVars false

namespace NexusStudio.TurnLock

open Concurrent

/-! ### The shared keys -/

/-- What the parties share: the turn lock, the cancel signal, the row's `active_turn_id`, the turn of the pending
gate. -/
structure Keys (τ : Type*) where
  lock : Option τ
  signal : Option τ
  activeTurnId : Option τ
  gateTurn : Option τ

/-- The commands of `clear_turn_ephemeral_state`. -/
inductive CleanupPc
  | clearGatePending
  -- `force_cancel`: the `GET`
  | forceGet
  -- `force_cancel`: the `DEL`
  | forceDel
  -- `turn_cancel_signal.clear`: the `GET`
  | signalGet
  -- `turn_cancel_signal.clear`: the `DEL`
  | signalDel
  | clearTurnActive
  deriving DecidableEq, Repr

section Model

variable {τ ρ : Type*} [DecidableEq τ] [DecidableEq ρ]

/-- One command of `clear_turn_ephemeral_state` for the turn `t?`, and the next one if there is one. -/
def clearTurnEphemeralState (t? : Option τ) (k : Keys τ) : CleanupPc → Keys τ × Option CleanupPc
  | .clearGatePending => ({ k with gateTurn := none }, some .forceGet)
  | .forceGet => (k, some (if k.lock = none then .signalGet else .forceDel))
  -- the command names the key only: whatever lock is there goes
  | .forceDel => ({ k with lock := none }, some .signalGet)
  | .signalGet => (k, some (if t? ≠ none ∧ k.signal = t? then .signalDel else .clearTurnActive))
  | .signalDel => ({ k with signal := none }, some .clearTurnActive)
  | .clearTurnActive => ({ k with activeTurnId := none }, none)

/-! ### Executions -/

/-- Where `stream_conversation_agent_turn` is, with the release in the `finally` of its caller. -/
inductive StreamPc
  | idle
  | running
  -- `finalize_inflight_turn_abort`
  | finalize (c : CleanupPc)
  | clearTurnActive
  | release
  | serviceRelease
  | closed
  deriving DecidableEq, Repr

/-- Where `run_chat_replay_execution` is; after `streaming` it is in its `finally`. -/
inductive OuterPc
  | absent
  | started
  | streaming
  | signalGet
  | signalDel
  | release
  | ended
  deriving DecidableEq, Repr

/-- The execution of one turn. `holding` is true from its `SET NX` to the first command of its own that gives the lock
up, or to its end. -/
structure Exec where
  stream : StreamPc
  outer : OuterPc
  cancelEvent : Bool
  /-- a watcher or the lease refresh is about to set the event -/
  seen : Bool
  holding : Bool
  deriving DecidableEq, Repr

/-- The steps of one execution. -/
inductive ExecStep
  | setRunning
  | markTurnActive
  -- the agent raises a gate
  | setGatePending
  -- a watcher reads the cancel signal
  | poll
  -- `_refresh_lease` refreshes the lock
  | refresh
  -- the cancel event is set for what `poll` or `refresh` read
  | notice
  -- the replay lease is lost, the log is full or the replay is closed
  | loseReplay
  -- the stream enters its `finally`
  | leaveStream (gateInterrupted : Bool)
  | finalize
  | clearTurnActive
  | release
  | serviceRelease
  -- the execution enters its `finally`: the stream is closed, or is dropped and left to the event loop
  | leave
  | signalGet
  | signalDel
  | outerRelease
  -- an exception in the stream's `finally`
  | streamFail
  -- the task is cancelled inside the stream's `finally`
  | streamCancelled
  -- an exception in the `finally` of the execution
  | outerFail
  deriving DecidableEq, Repr

/-- The watchers run from `set_running` to the `finally` of the execution. -/
def Exec.watched (x : Exec) : Bool :=
  x.outer == .streaming

/-- `ConversationTurnLock.release` called by the execution of `t`. -/
def releaseTurn (t : τ) (k : Keys τ) : Keys τ :=
  { k with lock := releaseIf k.lock t }

/-- One step of the execution of `t` on the keys and on its own record. -/
def execStep (t : τ) (k : Keys τ) (x : Exec) : ExecStep → Option (Keys τ × Exec)
  | .setRunning => if x.outer = .started then some (k, { x with outer := .streaming }) else none
  | .markTurnActive =>
    if x.outer = .streaming ∧ x.stream = .idle then
      some ({ k with activeTurnId := some t }, { x with stream := .running })
    else none
  | .setGatePending => if x.stream = .running then some ({ k with gateTurn := some t }, x) else none
  | .poll => if x.watched then some (k, { x with seen := x.seen || k.signal == some t }) else none
  | .refresh =>
    -- a lock that stores another turn's id, or none, is a lost lock
    if x.watched then some (k, { x with seen := x.seen || k.lock != some t }) else none
  | .notice => if x.watched ∧ x.seen then some (k, { x with cancelEvent := true }) else none
  | .loseReplay => if x.watched then some (k, { x with cancelEvent := true }) else none
  | .leaveStream gateInterrupted =>
    if (x.stream = .idle ∧ x.outer = .streaming) ∨ x.stream = .running then
      if x.cancelEvent then some (k, { x with stream := .finalize .clearGatePending })
      else some (k, { x with stream := if gateInterrupted then .release else .clearTurnActive })
    else none
  | .finalize =>
    match x.stream with
    | .finalize c =>
      let (k', c') := clearTurnEphemeralState (some t) k c
      some (k', { x with stream := (c'.map StreamPc.finalize).getD .release
                         holding := x.holding && c != .forceDel })
    | _ => none
  | .clearTurnActive =>
    if x.stream = .clearTurnActive then some ({ k with activeTurnId := none }, { x with stream := .release })
    -- the agent has ended the turn with an upgrade invite
    else if x.stream = .running then some ({ k with activeTurnId := none }, x)
    else none
  | .release =>
    if x.stream = .release then some (releaseTurn t k, { x with stream := .serviceRelease, holding := false }) else none
  | .serviceRelease =>
    if x.stream = .serviceRelease then some (releaseTurn t k, { x with stream := .closed, holding := false })
    -- the caller of a dropped stream may be closed before the stream itself
    else if x.outer ≠ .absent ∧ x.outer ≠ .started ∧ x.outer ≠ .streaming then
      some (releaseTurn t k, { x with holding := false })
    else none
  | .leave => if x.outer = .started ∨ x.outer = .streaming then some (k, { x with outer := .signalGet }) else none
  | .signalGet =>
    if x.outer = .signalGet then
      some (k, { x with outer := if k.signal = some t then .signalDel else .release })
    else none
  | .signalDel =>
    if x.outer = .signalDel then some ({ k with signal := none }, { x with outer := .release }) else none
  | .outerRelease =>
    if x.outer = .release then some (releaseTurn t k, { x with outer := .ended, holding := false }) else none
  | .streamFail =>
    match x.stream with
    -- only the clearing of the signal has a `suppress` of its own
    | .finalize .signalGet | .finalize .signalDel => some (k, { x with stream := .finalize .clearTurnActive })
    | .finalize _ | .clearTurnActive => some (k, { x with stream := .release })
    | .release => some (k, { x with stream := .serviceRelease })
    | .serviceRelease => some (k, { x with stream := .closed })
    | _ => none
  | .streamCancelled =>
    match x.stream with
    | .finalize _ | .clearTurnActive | .release => some (k, { x with stream := .serviceRelease })
    | _ => none
  | .outerFail =>
    match x.outer with
    | .signalGet | .signalDel => some (k, { x with outer := .release })
    | .release => some (k, { x with outer := .ended, holding := false })
    | _ => none

/-! ### Cancel requests -/

/-- Where a request is in its endpoint and in `abort_user_turn`. -/
inductive AbortPc
  | idle
  -- the conversation row has been read; a gate cancel has its gate to check
  | loaded
  -- `_resolve_turn_id`
  | resolve
  | resolvePending
  | resolveLock
  | signal
  -- `resolve_gate_interrupt`, where it applies
  | resolveGate
  | cleanup (c : CleanupPc)
  | persistClose
  | returned
  | failed
  deriving DecidableEq, Repr

/-- One cancel request: its explicit turn id (a gate cancel has one), the row it read, the turn it resolved. -/
structure Abort (τ : Type*) where
  pc : AbortPc
  explicit : Option τ
  row : Option τ
  turn : Option τ

/-- The steps of one cancel request. -/
inductive AbortStep (τ : Type*)
  -- `cancel_active_turn` (no explicit turn) or `cancel_gate` reads the conversation
  | load (explicit : Option τ)
  -- `cancel_gate` compares the pending gate's turn with its own
  | checkGate
  | resolve
  | resolvePending
  | resolveLock
  | signal
  | resolveGate
  | cleanup
  | persistClose
  -- an exception, or a cancellation of the request (`forced`)
  | raised (forced : Bool)

/-- One step of a cancel request on the keys and on its own record. -/
def abortStep (k : Keys τ) (q : Abort τ) : AbortStep τ → Option (Keys τ × Abort τ)
  | .load explicit =>
    if q.pc = .idle then some (k, { q with pc := .loaded, explicit := explicit, row := k.activeTurnId }) else none
  | .checkGate =>
    if q.pc = .loaded then
      if q.explicit = none ∨ k.gateTurn = q.explicit then some (k, { q with pc := .resolve })
      else some (k, { q with pc := .failed })
    else none
  | .resolve =>
    if q.pc = .resolve then
      match q.explicit, q.row with
      | some t, _ => some (k, { q with pc := .signal, turn := some t })
      | none, some t => some (k, { q with pc := .signal, turn := some t })
      | none, none => some (k, { q with pc := .resolvePending })
    else none
  | .resolvePending =>
    if q.pc = .resolvePending then
      match k.gateTurn with
      | some t => some (k, { q with pc := .signal, turn := some t })
      | none => some (k, { q with pc := .resolveLock })
    else none
  | .resolveLock => if q.pc = .resolveLock then some (k, { q with pc := .signal, turn := k.lock }) else none
  | .signal =>
    if q.pc = .signal then
      match q.turn with
      | some t => some ({ k with signal := some t }, { q with pc := .resolveGate })
      | none => some (k, { q with pc := .resolveGate })
    else none
  | .resolveGate => if q.pc = .resolveGate then some (k, { q with pc := .cleanup .clearGatePending }) else none
  | .cleanup =>
    match q.pc with
    | .cleanup c =>
      let (k', c') := clearTurnEphemeralState q.turn k c
      some (k', { q with pc := (c'.map AbortPc.cleanup).getD .persistClose })
    | _ => none
  | .persistClose => if q.pc = .persistClose then some (k, { q with pc := .returned }) else none
  | .raised forced =>
    match q.pc with
    | .cleanup .signalGet | .cleanup .signalDel =>
      some (k, { q with pc := if forced then .failed else .cleanup .clearTurnActive })
    | .idle | .returned | .failed => none
    | _ => some (k, { q with pc := .failed })

/-! ### The conversation -/

/-- The keys, every execution, every request and the turn ids drawn so far. -/
structure State (τ ρ : Type*) where
  keys : Keys τ
  exec : τ → Exec
  abort : ρ → Abort τ
  used : Finset τ

inductive Action (τ ρ : Type*)
  -- a turn with a fresh id tries to take the lock
  | start (t : τ)
  | exec (t : τ) (e : ExecStep)
  | abort (r : ρ) (e : AbortStep τ)
  -- a pending gate is consumed or cleared as stale
  | dropGate

/-- One step of one party. -/
def step (s : State τ ρ) : Action τ ρ → Option (State τ ρ)
  | .start t =>
    if t ∈ s.used then none
    else if s.keys.lock = none then
      some { s with keys := { s.keys with lock := some t }
                    exec := Function.update s.exec t ⟨.idle, .started, false, false, true⟩
                    used := insert t s.used }
    else some s
  | .exec t e =>
    (execStep t s.keys (s.exec t) e).map fun (k, x) => { s with keys := k, exec := Function.update s.exec t x }
  | .abort r e =>
    (abortStep s.keys (s.abort r) e).map fun (k, q) => { s with keys := k, abort := Function.update s.abort r q }
  | .dropGate => some { s with keys := { s.keys with gateTurn := none } }

/-- The record of a turn that has not been started. -/
def Exec.absent : Exec :=
  ⟨.idle, .absent, false, false, false⟩

/-- No turn has been started and no request has come. -/
def fresh : State τ ρ where
  keys := ⟨none, none, none, none⟩
  exec _ := .absent
  abort _ := ⟨.idle, none, none, none⟩
  used := ∅

/-- One conversation with all its turns and cancel requests. -/
def conversation : Machine (State τ ρ) (Action τ ρ) where
  init s := s = fresh
  step := step

/-- The execution of `t` has not reached its end. -/
def State.Executing (s : State τ ρ) (t : τ) : Prop :=
  (s.exec t).holding = true

instance (s : State τ ρ) (t : τ) : Decidable (s.Executing t) :=
  inferInstanceAs (Decidable (_ = true))

/-- The turn that a step acts for. -/
def Action.turn (s : State τ ρ) : Action τ ρ → Option τ
  | .start t => some t
  | .exec t _ => some t
  | .abort r _ => (s.abort r).turn
  | .dropGate => none

/-! ### What a step does to the keys -/

@[simp] theorem clearTurnEphemeralState_lock (t? : Option τ) (k : Keys τ) (c : CleanupPc) :
    (clearTurnEphemeralState t? k c).1.lock = if c = .forceDel then none else k.lock := by
  cases c <;> rfl

@[simp] theorem clearTurnEphemeralState_signal (t? : Option τ) (k : Keys τ) (c : CleanupPc) :
    (clearTurnEphemeralState t? k c).1.signal = if c = .signalDel then none else k.signal := by
  cases c <;> rfl

variable {t : τ} {k k' : Keys τ} {x x' : Exec} {e : ExecStep} {q q' : Abort τ} {f : AbortStep τ}

/-- An execution leaves the lock alone, or deletes it in its cleanup, or releases it with a compare. -/
theorem execStep_lock (h : execStep t k x e = some (k', x')) :
    (k'.lock = k.lock ∧ (x'.holding → x.holding)) ∨
    (e = .finalize ∧ x.stream = .finalize .forceDel ∧ k'.lock = none ∧ x'.holding = false) ∨
    (k'.lock = releaseIf k.lock t ∧ x'.holding = false) := by
  cases e with
  | finalize =>
    simp only [execStep] at h
    split at h
    case h_1 c hc =>
      cases h
      by_cases hf : c = .forceDel
      · subst hf
        exact .inr (.inl ⟨rfl, hc, rfl, by simp⟩)
      · exact .inl ⟨by simp [hf], fun hx => (Bool.and_eq_true_iff.1 hx).1⟩
    case h_2 => cases h
  | release | outerRelease =>
    simp only [execStep, Option.ite_none_right_eq_some, Option.some.injEq, Prod.mk.injEq] at h
    obtain ⟨-, rfl, rfl⟩ := h
    exact .inr (.inr ⟨rfl, rfl⟩)
  | serviceRelease =>
    simp only [execStep] at h
    split at h
    · cases h
      exact .inr (.inr ⟨rfl, rfl⟩)
    · obtain ⟨-, rfl, rfl⟩ : _ ∧ _ ∧ _ := by simpa using h
      exact .inr (.inr ⟨rfl, rfl⟩)
  | setRunning | markTurnActive | setGatePending | poll | refresh | notice | loseReplay | leave | signalGet
  | signalDel =>
    simp only [execStep, Option.ite_none_right_eq_some, Option.some.injEq, Prod.mk.injEq] at h
    obtain ⟨-, rfl, rfl⟩ := h
    exact .inl ⟨rfl, id⟩
  | leaveStream g | clearTurnActive | streamFail | streamCancelled | outerFail =>
    refine .inl ?_
    simp only [execStep] at h
    split at h <;> grind

/-- A request leaves the lock alone or deletes it in its cleanup. -/
theorem abortStep_lock (h : abortStep k q f = some (k', q')) :
    k'.lock = k.lock ∨ (f = .cleanup ∧ q.pc = .cleanup .forceDel ∧ k'.lock = none) := by
  cases f with
  | cleanup =>
    simp only [abortStep] at h
    split at h
    case h_1 c hc =>
      cases h
      by_cases hf : c = .forceDel
      · subst hf
        exact .inr ⟨rfl, hc, rfl⟩
      · exact .inl (by simp [hf])
    case h_2 => cases h
  | load explicit | persistClose | resolveLock | resolveGate =>
    simp only [abortStep, Option.ite_none_right_eq_some, Option.some.injEq, Prod.mk.injEq] at h
    obtain ⟨-, rfl, -⟩ := h
    exact .inl rfl
  | checkGate | resolve | resolvePending | signal | raised forced =>
    refine .inl ?_
    simp only [abortStep] at h
    split at h <;> grind

/-- The steps of an execution do not restart it. -/
theorem execStep_holding (h : execStep t k x e = some (k', x')) (hx : x'.holding) : x.holding := by
  rcases execStep_lock h with ⟨-, hh⟩ | ⟨-, -, -, hf⟩ | ⟨-, hf⟩
  · exact hh hx
  · exact absurd hx (by simp [hf])
  · exact absurd hx (by simp [hf])

theorem execStep_absent (t : τ) (k : Keys τ) (e : ExecStep) : execStep t k .absent e = none := by
  cases e <;> rfl

/-- A step of an execution never resets the cancel event. -/
theorem execStep_cancelEvent (h : execStep t k x e = some (k', x')) (hx : x.cancelEvent) : x'.cancelEvent := by
  cases e with
  | finalize | leaveStream g | clearTurnActive | serviceRelease | streamFail | streamCancelled | outerFail =>
    simp only [execStep] at h
    split at h <;> grind
  | _ =>
    simp only [execStep, Option.ite_none_right_eq_some, Option.some.injEq, Prod.mk.injEq] at h
    obtain ⟨-, -, rfl⟩ := h
    first | exact hx | rfl

/-- The steps of an execution clear the signal in two places. -/
theorem execStep_signal (h : execStep t k x e = some (k', x')) :
    k'.signal = if (e = .finalize ∧ x.stream = .finalize .signalDel) ∨ (e = .signalDel ∧ x.outer = .signalDel)
      then none else k.signal := by
  cases e with
  | finalize =>
    simp only [execStep] at h
    split at h
    case h_1 c hc =>
      cases h
      simp [hc]
    case h_2 => cases h
  | leaveStream g | clearTurnActive | serviceRelease | streamFail | streamCancelled | outerFail =>
    simp only [execStep] at h
    split at h <;> grind [releaseTurn]
  | _ =>
    simp only [execStep, Option.ite_none_right_eq_some, Option.some.injEq, Prod.mk.injEq] at h
    obtain ⟨hx, rfl, -⟩ := h
    simp [releaseTurn, *]

/-- The turn `u` is named by the lock, the row or the gate. -/
def Keys.Names (k : Keys τ) (u : τ) : Prop :=
  k.lock = some u ∨ k.activeTurnId = some u ∨ k.gateTurn = some u

theorem clearTurnEphemeralState_names {t? : Option τ} {c : CleanupPc} {u : τ}
    (h : (clearTurnEphemeralState t? k c).1.Names u) : k.Names u := by
  cases c <;> grind [clearTurnEphemeralState, Keys.Names]

theorem releaseTurn_names {u : τ} (h : (releaseTurn t k).Names u) : k.Names u := by
  rcases h with hl | hr
  · exact .inl (releaseIf_eq_some.1 hl).1
  · exact .inr hr

/-- An execution writes no turn but its own. -/
theorem execStep_names (h : execStep t k x e = some (k', x')) {u : τ} (hu : k'.Names u) : k.Names u ∨ u = t := by
  cases e with
  | finalize =>
    simp only [execStep] at h
    split at h
    case h_1 c hc =>
      cases h
      exact .inl (clearTurnEphemeralState_names hu)
    case h_2 => cases h
  | release | outerRelease =>
    simp only [execStep, Option.ite_none_right_eq_some, Option.some.injEq, Prod.mk.injEq] at h
    obtain ⟨-, rfl, -⟩ := h
    exact .inl (releaseTurn_names hu)
  | serviceRelease =>
    simp only [execStep] at h
    split at h <;> grind [releaseTurn_names]
  | leaveStream g | clearTurnActive | streamFail | streamCancelled | outerFail =>
    simp only [execStep] at h
    split at h <;> grind [Keys.Names]
  | _ =>
    simp only [execStep, Option.ite_none_right_eq_some, Option.some.injEq, Prod.mk.injEq] at h
    obtain ⟨-, rfl, -⟩ := h
    grind [Keys.Names]

/-- A request writes no turn into the lock, the row or the gate. -/
theorem abortStep_names (h : abortStep k q f = some (k', q')) {u : τ} (hu : k'.Names u) : k.Names u := by
  cases f with
  | cleanup =>
    simp only [abortStep] at h
    split at h
    case h_1 c hc =>
      cases h
      exact clearTurnEphemeralState_names hu
    case h_2 => cases h
  | _ =>
    simp only [abortStep] at h
    split at h <;> grind [Keys.Names]

end Model

end NexusStudio.TurnLock
