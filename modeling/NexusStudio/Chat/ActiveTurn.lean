import Mathlib
import NexusStudio.Chat.TurnLock

/-!
# The active turn of a conversation

`active_turn_id` of the row, over the turns of a conversation, the resumes of their gates and the cancel requests.

* (machine) the executions and requests of `TurnLock`, with `stream_chat_resume` as one more kind of execution.
* (writers) a first run marks its turn; the ends of the runs and the cancel requests clear the marker, and compare
  nothing.
* (result) in the runs that meet `Safe`, no marker outlives its turn and nobody clears the marker of another turn.
-/

set_option linter.unusedSectionVars false

namespace NexusStudio.ActiveTurn

open Concurrent TurnLock

/-! ### Resumes -/

/-- What is left to do when the agent of a resume has stopped. -/
inductive Ending
  -- the handler of `TurnCompleted`; `failed` after a tool that has ended the gate with an error
  | clearGatePending (failed : Bool)
  | clearTurnActive
  -- the cancel event is looked at
  | check
  deriving DecidableEq, Repr

/-- One resume: what it is in `run_chat_replay_execution` is as for a first run. -/
structure Resume where
  /-- `prepare_resume_turn` has found the gate of its turn -/
  checked : Bool
  exec : Exec
  ending : Option Ending
  deriving DecidableEq, Repr

inductive ResumeStep
  | prepare
  | acquire
  | begin
  -- how the agent stops: the turn completes, is suspended at its next gate, or ends in any other way
  | completed (failed : Bool)
  | suspended
  | stopped
  | clearGatePending
  | clearTurnActive
  | check
  | finalize
  -- an exception inside `stream_chat_resume`, or a cancellation of the task (`forced`)
  | raised (forced : Bool)
  -- a step of `run_chat_replay_execution` or of its watchers
  | outer (e : ExecStep)
  deriving DecidableEq, Repr

section Model

variable {τ ρ ι : Type*} [DecidableEq τ] [DecidableEq ρ] [DecidableEq ι]

def Resume.absent : Resume := ⟨false, .absent, none⟩

/-- The steps that a resume has in common with a first run. -/
def shared : ExecStep → Bool
  | .setRunning | .poll | .refresh | .notice | .loseReplay | .serviceRelease | .leave | .signalGet | .signalDel
  | .outerRelease | .outerFail => true
  | .markTurnActive | .setGatePending | .leaveStream _ | .finalize | .clearTurnActive | .release | .streamFail
  | .streamCancelled => false

/-- One step of a resume of the turn `t` on the keys and on its own record. -/
def resumeStep (t : τ) (k : Keys τ) (x : Resume) : ResumeStep → Option (Keys τ × Resume)
  | .prepare => if x.exec.outer = .absent ∧ k.gateTurn = some t then some (k, { x with checked := true }) else none
  | .acquire =>
    if x.exec.outer = .absent ∧ x.checked then
      if k.lock = none then
        some ({ k with lock := some t }, { x with exec := ⟨.idle, .started, false, false, true⟩ })
      else some (k, { x with checked := false })
    else none
  | .begin =>
    if x.exec.outer = .streaming ∧ x.exec.stream = .idle then
      some (k, { x with exec := { x.exec with stream := .running } })
    else none
  | .completed failed =>
    if x.exec.stream = .running ∧ x.ending = none then
      some (k, { x with ending := some (.clearGatePending failed) })
    else none
  | .suspended =>
    if x.exec.stream = .running ∧ x.ending = none then
      some ({ k with gateTurn := some t }, { x with ending := some .check })
    else none
  | .stopped =>
    if x.exec.stream = .running ∧ x.ending = none then some (k, { x with ending := some .check }) else none
  | .clearGatePending =>
    match x.exec.stream, x.ending with
    | .running, some (.clearGatePending failed) =>
      -- after a failed tool the handler returns before it has cleared the marker
      some ({ k with gateTurn := none }, { x with ending := some (if failed then .check else .clearTurnActive) })
    | _, _ => none
  | .clearTurnActive =>
    if x.exec.stream = .running ∧ x.ending = some .clearTurnActive then
      some ({ k with activeTurnId := none }, { x with ending := some .check })
    else none
  | .check =>
    if x.exec.stream = .running ∧ x.ending = some .check then
      let next := if x.exec.cancelEvent then StreamPc.finalize .clearGatePending else .serviceRelease
      some (k, { x with exec := { x.exec with stream := next } })
    else none
  | .finalize =>
    match x.exec.stream with
    | .finalize c =>
      let (k', c') := clearTurnEphemeralState (some t) k c
      some (k', { x with exec := { x.exec with stream := (c'.map StreamPc.finalize).getD .serviceRelease
                                               holding := x.exec.holding && c != .forceDel } })
    | _ => none
  | .raised forced =>
    match x.exec.stream with
    | .finalize .signalGet | .finalize .signalDel =>
      let next := if forced then StreamPc.serviceRelease else .finalize .clearTurnActive
      some (k, { x with exec := { x.exec with stream := next } })
    | .running | .finalize _ => some (k, { x with exec := { x.exec with stream := .serviceRelease } })
    | _ => none
  | .outer e =>
    if shared e then (execStep t k x.exec e).map fun (k', x') => (k', { x with exec := x' }) else none

/-! ### The conversation -/

structure State (τ ρ ι : Type*) where
  turns : TurnLock.State τ ρ
  resume : ι → Resume

inductive Action (τ ρ ι : Type*)
  | turns (a : TurnLock.Action τ ρ)
  | resume (i : ι) (e : ResumeStep)

/-- One step of one party; `E` gives the turn of each resume. -/
def step (E : ι → τ) (s : State τ ρ ι) : Action τ ρ ι → Option (State τ ρ ι)
  | .turns a => (TurnLock.step s.turns a).map fun turns => { s with turns }
  | .resume i e =>
    (resumeStep (E i) s.turns.keys (s.resume i) e).map fun (k, x) =>
      { turns := { s.turns with keys := k }, resume := Function.update s.resume i x }

def fresh : State τ ρ ι where
  turns := TurnLock.fresh
  resume _ := .absent

def conversation (E : ι → τ) : Machine (State τ ρ ι) (Action τ ρ ι) where
  init s := s = fresh
  step := step E

/-- A run of the agent: the first run of a turn, or a resume. -/
inductive Run (τ ι : Type*)
  | first (t : τ)
  | again (i : ι)
  deriving DecidableEq

def Run.turn (E : ι → τ) : Run τ ι → τ
  | first t => t
  | again i => E i

/-- The execution has taken the lock, and its stream is not past its last write of the row. -/
def live (x : Exec) : Bool :=
  match x.stream with
  | .idle => x.outer == .started || x.outer == .streaming
  | .running | .finalize _ | .clearTurnActive | .release => true
  | .serviceRelease | .closed => false

/-- A first run that is still to clear the marker, or to leave it to the gate. -/
def toClear (x : Exec) : Bool :=
  match x.stream with
  | .running | .finalize _ | .clearTurnActive => true
  | .idle | .release | .serviceRelease | .closed => false

/-- A resume that is on its way to clear the marker. -/
def Resume.toClear (x : Resume) : Bool :=
  match x.exec.stream with
  | .running => x.ending == some .clearTurnActive
  | .finalize _ => true
  | .idle | .clearTurnActive | .release | .serviceRelease | .closed => false

def State.Live (s : State τ ρ ι) : Run τ ι → Prop
  | .first t => live (s.turns.exec t) = true
  | .again i => live (s.resume i).exec = true

def State.ToClear (s : State τ ρ ι) : Run τ ι → Prop
  | .first t => toClear (s.turns.exec t) = true
  | .again i => (s.resume i).toClear = true

/-- Some run of the turn is in progress. -/
def State.Executing (E : ι → τ) (s : State τ ρ ι) (t : τ) : Prop := ∃ x, x.turn E = t ∧ s.Live x

/-- The cancel request has not come to the end of its clean-up. -/
def pending : AbortPc → Bool
  | .loaded | .resolve | .resolvePending | .resolveLock | .signal | .resolveGate | .cleanup _ => true
  | .idle | .persistClose | .returned | .failed => false

/-- Some cancel request is in its clean-up. -/
def State.Cleaning (s : State τ ρ ι) : Prop := ∃ r c, (s.turns.abort r).pc = .cleanup c

/-- No run and no cancel request is in progress. -/
def State.Quiet (s : State τ ρ ι) : Prop := (∀ x, ¬ s.Live x) ∧ ∀ r, pending (s.turns.abort r).pc = false

/-- The turn that a step acts for. -/
def Action.turn (E : ι → τ) (s : State τ ρ ι) : Action τ ρ ι → Option τ
  | .turns a => a.turn s.turns
  | .resume i _ => some (E i)

/-! ### The result -/

/-- Of a quiet conversation without a gate no turn is marked, and what a step does for one turn does not clear the
marker of another that is executing. -/
structure Marked (E : ι → τ) (C : State τ ρ ι → Action τ ρ ι → Prop) (s : State τ ρ ι) : Prop where
  cleared : s.Quiet → s.turns.keys.gateTurn = none → s.turns.keys.activeTurnId = none
  own : ∀ a s' t u, C s a → step E s a = some s' → a.turn E s = some t → s.turns.keys.activeTurnId = some u →
    s'.turns.keys.activeTurnId = none → s.Executing E u → t = u

/-- The marked turn is that of the pending gate. -/
def Settled (k : Keys τ) : Prop := ∀ t ∈ k.activeTurnId, k.gateTurn = some t

/-- A turn suspends only with its gate stored, and no call on its way to clear the marker fails while a turn is marked. -/
def ExecSafe (k : Keys τ) (x : Exec) (cleaning : Prop) : ExecStep → Prop
  | .leaveStream gateInterrupted => gateInterrupted = true → x.cancelEvent = false → Settled k ∨ cleaning
  | .streamFail =>
    -- the clearing of the signal has a `suppress` of its own
    x.stream = .finalize .signalGet ∨ x.stream = .finalize .signalDel ∨ (toClear x → k.activeTurnId = none)
  | .streamCancelled => toClear x → k.activeTurnId = none
  | _ => True

/-- The same for a resume, which moreover does not end with a failed tool. -/
def ResumeSafe (k : Keys τ) (y : Resume) : ResumeStep → Prop
  | .clearGatePending => y.ending = some (.clearGatePending true) → k.activeTurnId = none
  | .raised forced =>
    (¬ forced ∧ (y.exec.stream = .finalize .signalGet ∨ y.exec.stream = .finalize .signalDel)) ∨
      (y.toClear → k.activeTurnId = none)
  | _ => True

/-- And for the clean-up of a cancel request. -/
def AbortSafe (k : Keys τ) (q : Abort τ) : AbortStep τ → Prop
  | .raised forced =>
    (¬ forced ∧ (q.pc = .cleanup .signalGet ∨ q.pc = .cleanup .signalDel)) ∨
      ((∃ c, q.pc = .cleanup c) → k.activeTurnId = none)
  | _ => True

/-- A run takes the lock of a quiet conversation only, and finds the gate as it was checked; no gate expires or is
dropped as stale while a turn is marked; and the steps of the parties are safe. -/
def Safe (E : ι → τ) (s : State τ ρ ι) : Action τ ρ ι → Prop
  | .turns (.start t) => t ∉ s.turns.used → s.turns.keys.lock = none → s.Quiet ∧ s.turns.keys.gateTurn = none
  | .turns (.exec t e) => ExecSafe s.turns.keys (s.turns.exec t) s.Cleaning e
  | .turns (.abort r e) => AbortSafe s.turns.keys (s.turns.abort r) e
  | .turns .dropGate => s.turns.keys.gateTurn ≠ none → s.turns.keys.activeTurnId = none
  | .resume i .acquire => s.turns.keys.lock = none → s.Quiet ∧ s.turns.keys.gateTurn = some (E i)
  | .resume i e => ResumeSafe s.turns.keys (s.resume i) e

variable {E : ι → τ} {s s' : State τ ρ ι} {t : τ} {k k' : Keys τ} {x x' : Exec} {y y' : Resume} {q q' : Abort τ}
  {i : ι} {cleaning : Prop}

/-! ### What a first run does to the marker and the gate -/

theorem execStep_live {e : ExecStep} (h : execStep t k x e = some (k', x')) (hl : live x' = true) : live x = true := by
  cases e with
  | finalize | leaveStream g | clearTurnActive | serviceRelease | streamFail | streamCancelled | outerFail =>
    simp only [execStep] at h
    split at h <;> grind [live]
  | _ =>
    simp only [execStep, Option.ite_none_right_eq_some, Option.some.injEq, Prod.mk.injEq] at h
    obtain ⟨hx, -, rfl⟩ := h
    grind [live, Exec.watched]

/-- A run that is over leaves the marker and the gate alone. -/
theorem execStep_over {e : ExecStep} (h : execStep t k x e = some (k', x')) (hl : live x = false) :
    k'.activeTurnId = k.activeTurnId ∧ k'.gateTurn = k.gateTurn := by
  cases e with
  | finalize | leaveStream g | clearTurnActive | serviceRelease | streamFail | streamCancelled | outerFail =>
    simp only [execStep] at h
    split at h <;> grind [live, releaseTurn]
  | _ =>
    simp only [execStep, Option.ite_none_right_eq_some, Option.some.injEq, Prod.mk.injEq] at h
    obtain ⟨hx, rfl, -⟩ := h
    grind [live, Exec.watched, releaseTurn]

/-- A step that leaves nobody behind: a marker that stays is that of the gate, or somebody is still to clear it. -/
def Accounted (k k' : Keys τ) (before after cleaning : Prop) : Prop :=
  (k'.activeTurnId = k.activeTurnId ∧ k'.gateTurn = k.gateTurn ∧ (before → after)) ∨ after ∨
    k'.activeTurnId = none ∨ Settled k' ∨ cleaning

/-- A step of a clean-up clears the marker, or another one is to come. -/
theorem accounted_cleanup {u : Option τ} {before after cleaning : Prop} (c : CleanupPc)
    (hafter : ∀ c', (clearTurnEphemeralState u k c).2 = some c' → after) :
    Accounted k (clearTurnEphemeralState u k c).1 before after cleaning := by
  cases c with
  | clearTurnActive => exact .inr (.inr (.inl rfl))
  | clearGatePending | forceGet | forceDel | signalGet | signalDel => exact .inr (.inl (hafter _ rfl))

/-- A stream that fails or is cancelled has written no key yet. -/
theorem keys_of_stream {e : ExecStep} (he : e = .streamFail ∨ e = .streamCancelled)
    (h : execStep t k x e = some (k', x')) : k' = k := by
  rcases he with rfl | rfl
  · simp only [execStep] at h
    split at h <;> grind
  · simp only [execStep] at h
    split at h <;> grind

theorem execStep_accounted {e : ExecStep} (h : execStep t k x e = some (k', x')) (hg : ExecSafe k x cleaning e) :
    Accounted k k' (toClear x = true) (toClear x' = true) cleaning := by
  cases e with
  | leaveStream g =>
    simp only [execStep, Option.ite_none_right_eq_some] at h
    obtain ⟨-, h⟩ := h
    split at h
    case isTrue =>
      cases h
      exact .inr (.inl rfl)
    case isFalse hc =>
      cases h
      cases g with
      | false => exact .inr (.inl rfl)
      | true =>
        rcases hg rfl (by simpa using hc) with hs | hcl
        · exact .inr (.inr (.inr (.inl hs)))
        · exact .inr (.inr (.inr (.inr hcl)))
  | finalize =>
    simp only [execStep] at h
    split at h
    case h_2 => cases h
    case h_1 c hc =>
      cases h
      refine accounted_cleanup c fun c' hc' => ?_
      rw [hc']
      rfl
  | streamFail =>
    rcases hg with hs | hs | hs
    · simp only [execStep, hs] at h
      cases h
      exact .inr (.inl rfl)
    · simp only [execStep, hs] at h
      cases h
      exact .inr (.inl rfl)
    · rw [keys_of_stream (.inl rfl) h]
      by_cases hx : toClear x = true
      · exact .inr (.inr (.inl (hs hx)))
      · exact .inl ⟨rfl, rfl, fun hc => absurd hc hx⟩
  | streamCancelled =>
    rw [keys_of_stream (.inr rfl) h]
    by_cases hx : toClear x = true
    · exact .inr (.inr (.inl (hg hx)))
    · exact .inl ⟨rfl, rfl, fun hc => absurd hc hx⟩
  | clearTurnActive | serviceRelease | outerFail =>
    simp only [execStep] at h
    split at h <;> grind [Accounted, toClear, releaseTurn]
  | _ =>
    simp only [execStep, Option.ite_none_right_eq_some, Option.some.injEq, Prod.mk.injEq] at h
    obtain ⟨hx, rfl, rfl⟩ := h
    grind [Accounted, toClear, releaseTurn]

theorem live_of_toClear (h : toClear x = true) : live x = true := by
  unfold toClear at h
  unfold live
  split at h <;> simp_all

/-! ### What a resume does to them -/

/-- The steps that a resume shares with a first run leave the row, the gate and the stream alone, up to its closing. -/
theorem shared_step {e : ExecStep} (he : shared e = true) (h : execStep t k x e = some (k', x')) :
    k'.activeTurnId = k.activeTurnId ∧ k'.gateTurn = k.gateTurn ∧
      (x'.stream = x.stream ∨ (x.stream = .serviceRelease ∧ x'.stream = .closed)) := by
  cases e with
  | markTurnActive | setGatePending | leaveStream g | finalize | clearTurnActive | release | streamFail
  | streamCancelled => cases he
  | serviceRelease | outerFail =>
    simp only [execStep] at h
    split at h <;> grind [releaseTurn]
  | _ =>
    simp only [execStep, Option.ite_none_right_eq_some, Option.some.injEq, Prod.mk.injEq] at h
    obtain ⟨-, rfl, rfl⟩ := h
    exact ⟨rfl, rfl, .inl rfl⟩

theorem Resume.live_of_toClear (h : y.toClear = true) : live y.exec = true := by
  unfold Resume.toClear at h
  unfold live
  split at h <;> simp_all

theorem resumeStep_live {e : ResumeStep} (he : e ≠ .acquire) (h : resumeStep t k y e = some (k', y'))
    (hl : live y'.exec = true) : live y.exec = true := by
  cases e with
  | acquire => exact absurd rfl he
  | outer e =>
    simp only [resumeStep, Option.ite_none_right_eq_some, Option.map_eq_some_iff] at h
    obtain ⟨-, ⟨k₁, x₁⟩, hx, heq⟩ := h
    cases heq
    exact execStep_live hx hl
  | clearGatePending | finalize | raised forced =>
    simp only [resumeStep] at h
    split at h <;> grind [live]
  | _ =>
    simp only [resumeStep, Option.ite_none_right_eq_some, Option.some.injEq, Prod.mk.injEq] at h
    obtain ⟨hx, -, rfl⟩ := h
    grind [live]

theorem resumeStep_over {e : ResumeStep} (h : resumeStep t k y e = some (k', y')) (hl : live y.exec = false) :
    k'.activeTurnId = k.activeTurnId ∧ k'.gateTurn = k.gateTurn := by
  cases e with
  | outer e =>
    simp only [resumeStep, Option.ite_none_right_eq_some, Option.map_eq_some_iff] at h
    obtain ⟨he, ⟨k₁, x₁⟩, hx, heq⟩ := h
    cases heq
    have hsh := shared_step he hx
    exact ⟨hsh.1, hsh.2.1⟩
  | acquire =>
    simp only [resumeStep, Option.ite_none_right_eq_some] at h
    obtain ⟨-, h⟩ := h
    split at h
    · cases h
      exact ⟨rfl, rfl⟩
    · cases h
      exact ⟨rfl, rfl⟩
  | clearGatePending | finalize | raised forced =>
    simp only [resumeStep] at h
    split at h <;> grind [live]
  | _ =>
    simp only [resumeStep, Option.ite_none_right_eq_some, Option.some.injEq, Prod.mk.injEq] at h
    obtain ⟨hx, rfl, -⟩ := h
    grind [live]

/-- A resume writes no turn but its own. -/
theorem resumeStep_names {e : ResumeStep} (h : resumeStep t k y e = some (k', y')) {u : τ} (hu : k'.Names u) :
    k.Names u ∨ u = t := by
  cases e with
  | outer e =>
    simp only [resumeStep, Option.ite_none_right_eq_some, Option.map_eq_some_iff] at h
    obtain ⟨-, ⟨k₁, x₁⟩, hx, heq⟩ := h
    cases heq
    exact execStep_names hx hu
  | finalize =>
    simp only [resumeStep] at h
    split at h
    case h_1 c hc =>
      cases h
      exact .inl (clearTurnEphemeralState_names hu)
    case h_2 => cases h
  | acquire | clearGatePending | raised forced =>
    simp only [resumeStep] at h
    split at h <;> grind [Keys.Names]
  | _ =>
    simp only [resumeStep, Option.ite_none_right_eq_some, Option.some.injEq, Prod.mk.injEq] at h
    obtain ⟨-, rfl, -⟩ := h
    grind [Keys.Names]

theorem resumeStep_accounted {e : ResumeStep} (he : e ≠ .acquire) (h : resumeStep t k y e = some (k', y'))
    (hg : ResumeSafe k y e) (hn : live y.exec = true → ∀ u ∈ k.activeTurnId, u = t) :
    Accounted k k' (y.toClear = true) (y'.toClear = true) cleaning := by
  cases e with
  | outer e =>
    simp only [resumeStep, Option.ite_none_right_eq_some, Option.map_eq_some_iff] at h
    obtain ⟨hsh, ⟨k₁, x₁⟩, hx, heq⟩ := h
    cases heq
    obtain ⟨hm, hgate, hs⟩ := shared_step hsh hx
    refine .inl ⟨hm, hgate, fun hc => ?_⟩
    rcases hs with hs | ⟨hs, -⟩
    · simpa only [Resume.toClear, hs] using hc
    · simp [Resume.toClear, hs] at hc
  | suspended =>
    simp only [resumeStep, Option.ite_none_right_eq_some, Option.some.injEq, Prod.mk.injEq] at h
    obtain ⟨⟨hs, -⟩, rfl, -⟩ := h
    refine .inr (.inr (.inr (.inl fun u hu => ?_)))
    rw [hn (by simp [live, hs]) u hu]
  | clearGatePending =>
    simp only [resumeStep] at h
    split at h
    case h_2 => cases h
    case h_1 failed hs hending =>
      cases h
      cases failed with
      | true => exact .inr (.inr (.inl (hg hending)))
      | false => exact .inr (.inl (by simp [Resume.toClear, hs]))
  | finalize =>
    simp only [resumeStep] at h
    split at h
    case h_2 => cases h
    case h_1 c hc =>
      cases h
      refine accounted_cleanup c fun c' hc' => ?_
      rw [hc']
      rfl
  | raised forced =>
    have hk : k' = k := by
      simp only [resumeStep] at h
      split at h <;> grind
    rcases hg with ⟨hf, hs⟩ | hs
    · refine .inr (.inl ?_)
      rcases hs with hs | hs
      · simp only [resumeStep, hs] at h
        cases h
        simp [Resume.toClear, hf]
      · simp only [resumeStep, hs] at h
        cases h
        simp [Resume.toClear, hf]
    · by_cases hy : y.toClear = true
      · refine .inr (.inr (.inl ?_))
        rw [hk]
        exact hs hy
      · rw [hk]
        exact .inl ⟨rfl, rfl, fun hc => absurd hc hy⟩
  | acquire => exact absurd rfl he
  | _ =>
    simp only [resumeStep, Option.ite_none_right_eq_some, Option.some.injEq, Prod.mk.injEq] at h
    obtain ⟨hx, rfl, rfl⟩ := h
    grind [Accounted, Resume.toClear]

/-! ### What a cancel request does to them -/

/-- The request is in its clean-up. -/
def cleans (q : Abort τ) : Prop := ∃ c, q.pc = .cleanup c

theorem abortStep_accounted {e : AbortStep τ} (h : abortStep k q e = some (k', q')) (hg : AbortSafe k q e) :
    Accounted k k' (cleans q) (cleans q') cleaning := by
  cases e with
  | cleanup =>
    simp only [abortStep] at h
    split at h
    case h_2 => cases h
    case h_1 c hc =>
      cases h
      refine accounted_cleanup c fun c' hc' => ⟨c', ?_⟩
      rw [hc']
      rfl
  | raised forced =>
    have hk : k' = k := by
      simp only [abortStep] at h
      split at h <;> grind
    rcases hg with ⟨hf, hs⟩ | hs
    · refine .inr (.inl ?_)
      rcases hs with hs | hs
      · simp only [abortStep, hs] at h
        cases h
        exact ⟨.clearTurnActive, by simp [hf]⟩
      · simp only [abortStep, hs] at h
        cases h
        exact ⟨.clearTurnActive, by simp [hf]⟩
    · by_cases hq : cleans q
      · refine .inr (.inr (.inl ?_))
        rw [hk]
        exact hs hq
      · rw [hk]
        exact .inl ⟨rfl, rfl, fun hc => absurd hc hq⟩
  | resolveGate =>
    simp only [abortStep, Option.ite_none_right_eq_some, Option.some.injEq, Prod.mk.injEq] at h
    obtain ⟨-, rfl, rfl⟩ := h
    exact .inr (.inl ⟨_, rfl⟩)
  | load explicit | checkGate | resolve | resolvePending | resolveLock | signal | persistClose =>
    refine .inl ?_
    simp only [abortStep] at h
    split at h <;> grind [cleans]

/-- The request cancels the turn `u` or none: what it has read so far names no other. -/
structure Aims (u : τ) (q : Abort τ) : Prop where
  row : q.pc = .loaded ∨ q.pc = .resolve → ∀ v ∈ q.row, v = u
  explicit : q.pc = .resolve → ∀ v ∈ q.explicit, v = u
  turn : q.pc = .signal ∨ q.pc = .resolveGate ∨ cleans q → ∀ v ∈ q.turn, v = u

theorem Aims.of_not_pending {u : τ} (h : pending q.pc = false) : Aims u q := by
  refine ⟨fun hp => ?_, fun hp => ?_, fun hp => ?_⟩
  · rcases hp with hp | hp
    · rw [hp] at h
      cases h
    · rw [hp] at h
      cases h
  · rw [hp] at h
    cases h
  · rcases hp with hp | hp | ⟨c, hp⟩
    · rw [hp] at h
      cases h
    · rw [hp] at h
      cases h
    · rw [hp] at h
      cases h

/-- While the keys name no turn but `u`, a request comes to name no other. -/
theorem abortStep_aims {e : AbortStep τ} {u : τ} (h : abortStep k q e = some (k', q')) (hk : ∀ v, k.Names v → v = u)
    (ha : Aims u q) : Aims u q' := by
  cases e with
  | load explicit =>
    simp only [abortStep, Option.ite_none_right_eq_some, Option.some.injEq, Prod.mk.injEq] at h
    obtain ⟨-, -, rfl⟩ := h
    refine ⟨fun _ v hv => hk v (.inr (.inl hv)), by simp, by simp [cleans]⟩
  | checkGate =>
    simp only [abortStep, Option.ite_none_right_eq_some] at h
    obtain ⟨hpc, h⟩ := h
    split at h
    case isTrue hgate =>
      cases h
      refine ⟨fun _ => ha.row (.inl hpc), fun _ v hv => ?_, by simp [cleans]⟩
      rcases hgate with hnone | hgate
      · simp [hnone] at hv
      · exact hk v (.inr (.inr (hgate.trans hv)))
    case isFalse =>
      cases h
      exact .of_not_pending rfl
  | resolve =>
    simp only [abortStep, Option.ite_none_right_eq_some] at h
    obtain ⟨hpc, h⟩ := h
    split at h
    case h_1 v _ hexp =>
      cases h
      exact ⟨by simp, by simp, fun _ w hw => ha.explicit hpc w (hexp.trans hw)⟩
    case h_2 v hrow =>
      cases h
      exact ⟨by simp, by simp, fun _ w hw => ha.row (.inr hpc) w (hrow.trans hw)⟩
    case h_3 =>
      cases h
      exact ⟨by simp, by simp, by simp [cleans]⟩
  | resolvePending =>
    simp only [abortStep, Option.ite_none_right_eq_some] at h
    obtain ⟨-, h⟩ := h
    split at h
    case h_1 v hgate =>
      cases h
      exact ⟨by simp, by simp, fun _ w hw => hk w (.inr (.inr (hgate.trans hw)))⟩
    case h_2 =>
      cases h
      exact ⟨by simp, by simp, by simp [cleans]⟩
  | resolveLock =>
    simp only [abortStep, Option.ite_none_right_eq_some, Option.some.injEq, Prod.mk.injEq] at h
    obtain ⟨-, -, rfl⟩ := h
    exact ⟨by simp, by simp, fun _ w hw => hk w (.inl hw)⟩
  | signal =>
    simp only [abortStep, Option.ite_none_right_eq_some] at h
    obtain ⟨hpc, h⟩ := h
    have ht := ha.turn (.inl hpc)
    split at h
    · cases h
      exact ⟨by simp, by simp, fun _ => ht⟩
    · cases h
      exact ⟨by simp, by simp, fun _ => ht⟩
  | resolveGate =>
    simp only [abortStep, Option.ite_none_right_eq_some, Option.some.injEq, Prod.mk.injEq] at h
    obtain ⟨hpc, -, rfl⟩ := h
    exact ⟨by simp, by simp, fun _ => ha.turn (.inr (.inl hpc))⟩
  | cleanup =>
    simp only [abortStep] at h
    split at h
    case h_2 => cases h
    case h_1 c hc =>
      cases h
      have ht := ha.turn (.inr (.inr ⟨c, hc⟩))
      cases c with
      | clearTurnActive => exact .of_not_pending rfl
      | clearGatePending | forceGet | forceDel | signalGet | signalDel =>
        exact ⟨by simp [clearTurnEphemeralState], by simp [clearTurnEphemeralState], fun _ => ht⟩
  | persistClose =>
    simp only [abortStep, Option.ite_none_right_eq_some, Option.some.injEq, Prod.mk.injEq] at h
    obtain ⟨-, -, rfl⟩ := h
    exact .of_not_pending rfl
  | raised forced =>
    have hpc : q'.pc = .failed ∨ (q'.turn = q.turn ∧ q'.pc = .cleanup .clearTurnActive ∧ cleans q) := by
      simp only [abortStep] at h
      split at h <;> grind [cleans]
    rcases hpc with hpc | ⟨hturn, hpc, hc⟩
    · exact .of_not_pending (by rw [hpc]; rfl)
    · refine ⟨by simp [hpc], by simp [hpc], fun _ => ?_⟩
      rw [hturn]
      exact ha.turn (.inr (.inr hc))

theorem abortStep_clears {e : AbortStep τ} {u : τ} (h : abortStep k q e = some (k', q'))
    (hm : k.activeTurnId = some u) (hm' : k'.activeTurnId = none) : cleans q := by
  cases e with
  | cleanup =>
    simp only [abortStep] at h
    split at h
    case h_1 c hc => exact ⟨c, hc⟩
    case h_2 => cases h
  | _ =>
    simp only [abortStep] at h
    split at h <;> grind

/-! ### The invariant -/

/-- At most one run is in progress, with the cancel requests against it; the keys name its turn only; and who has
marked a turn will be accounted for. -/
structure Inv (E : ι → τ) (k : Keys τ) (L T : Run τ ι → Prop) (A : ρ → Abort τ) : Prop where
  alone : ∀ x y, L x → L y → x = y
  named : ∀ x, L x → ∀ v, k.Names v → v = x.turn E
  settled : ∀ t ∈ k.activeTurnId, k.gateTurn = some t ∨ (∃ x, T x) ∨ ∃ r, cleans (A r)
  aims : ∀ x, L x → ∀ r, Aims (x.turn E) (A r)

variable {L L' T T' : Run τ ι → Prop} {A : ρ → Abort τ} {z : Run τ ι}

/-- A step of the run `z`. -/
theorem Inv.run (hI : Inv E k L T A) (hL : ∀ y, L' y → L y) (hT : ∀ y, y ≠ z → T y → T' y)
    (hn : ∀ u, k'.Names u → k.Names u ∨ (u = z.turn E ∧ L z))
    (ha : Accounted k k' (T z) (T' z) (∃ r, cleans (A r))) : Inv E k' L' T' A := by
  refine ⟨fun y y' hy hy' => hI.alone y y' (hL y hy) (hL y' hy'), fun y hy v hv => ?_, fun t ht => ?_,
    fun y hy => hI.aims y (hL y hy)⟩
  · rcases hn v hv with hv | ⟨hv, hz⟩
    · exact hI.named y (hL y hy) v hv
    · rw [hv, hI.alone y z (hL y hy) hz]
  · rcases ha with ⟨hm, hg, hbefore⟩ | hafter | hnone | hs | hc
    · rw [hm] at ht
      rw [hg]
      rcases hI.settled t ht with hgate | ⟨y, hy⟩ | hc
      · exact .inl hgate
      · by_cases hyz : y = z
        · subst hyz
          exact .inr (.inl ⟨y, hbefore hy⟩)
        · exact .inr (.inl ⟨y, hT y hyz hy⟩)
      · exact .inr (.inr hc)
    · exact .inr (.inl ⟨z, hafter⟩)
    · rw [hnone] at ht
      cases ht
    · exact .inl (hs t ht)
    · exact .inr (.inr hc)

/-- The run `z` takes the lock of a quiet conversation. -/
theorem Inv.begin (hI : Inv E k L T A) (hLT : ∀ y, T y → L y) (hquiet : ∀ y, ¬ L y)
    (hA : ∀ r, pending (A r).pc = false) (hgate : ∀ v ∈ k.gateTurn, v = z.turn E) (hL : ∀ y, L' y → y = z) :
    Inv E { k with lock := some (z.turn E) } L' T' A := by
  have hclean : ¬ ∃ r, cleans (A r) := by
    rintro ⟨r, c, hc⟩
    have hp := hA r
    rw [hc] at hp
    cases hp
  have hmarker : ∀ t ∈ k.activeTurnId, k.gateTurn = some t := fun t ht => by
    rcases hI.settled t ht with hg | ⟨y, hy⟩ | hc
    · exact hg
    · exact absurd (hLT y hy) (hquiet y)
    · exact absurd hc hclean
  refine ⟨fun y y' hy hy' => (hL y hy).trans (hL y' hy').symm, fun y hy v hv => ?_, fun t ht => .inl (hmarker t ht),
    fun y hy r => .of_not_pending (hA r)⟩
  rw [hL y hy]
  rcases hv with hv | hv | hv
  · exact (Option.some.inj hv).symm
  · exact hgate v (hmarker v hv)
  · exact hgate v hv

/-- A step of a cancel request. -/
theorem Inv.abort {A' : ρ → Abort τ} {r : ρ} (hI : Inv E k L T A) (hA : ∀ r', r' ≠ r → A' r' = A r')
    (hn : ∀ u, k'.Names u → k.Names u) (ha : Accounted k k' (cleans (A r)) (cleans (A' r)) False)
    (haims : ∀ y, L y → Aims (y.turn E) (A' r)) : Inv E k' L T A' := by
  refine ⟨hI.alone, fun y hy v hv => hI.named y hy v (hn v hv), fun t ht => ?_, fun y hy r' => ?_⟩
  · rcases ha with ⟨hm, hg, hbefore⟩ | hafter | hnone | hs | hc
    · rw [hm] at ht
      rw [hg]
      rcases hI.settled t ht with hgate | hy | ⟨r', hc⟩
      · exact .inl hgate
      · exact .inr (.inl hy)
      · by_cases hr : r' = r
        · subst hr
          exact .inr (.inr ⟨r', hbefore hc⟩)
        · exact .inr (.inr ⟨r', by rwa [hA r' hr]⟩)
    · exact .inr (.inr ⟨r, hafter⟩)
    · rw [hnone] at ht
      cases ht
    · exact .inl (hs t ht)
    · exact hc.elim
  · by_cases hr : r' = r
    · subst hr
      exact haims y hy
    · rw [hA r' hr]
      exact hI.aims y hy r'

def Holds (E : ι → τ) (s : State τ ρ ι) : Prop := Inv E s.turns.keys s.Live s.ToClear s.turns.abort

theorem live_of_ToClear (x : Run τ ι) (h : s.ToClear x) : s.Live x := by
  cases x with
  | first t => exact live_of_toClear h
  | again i => exact Resume.live_of_toClear h

/-- A run that is over names nobody new. -/
theorem names_of_same {u : τ} (hm : k'.activeTurnId = k.activeTurnId) (hg : k'.gateTurn = k.gateTurn)
    (hl : k'.lock = k.lock ∨ k'.lock = none ∨ k'.lock = releaseIf k.lock t) (hu : k'.Names u) : k.Names u := by
  rcases hu with hu | hu | hu
  · rcases hl with hl | hl | hl
    · exact .inl (hl.symm.trans hu)
    · rw [hl] at hu
      cases hu
    · rw [hl] at hu
      exact .inl (releaseIf_eq_some.1 hu).1
  · exact .inr (.inl (hm.symm.trans hu))
  · exact .inr (.inr (hg.symm.trans hu))

theorem lock_of_execStep {e : ExecStep} (h : execStep t k x e = some (k', x')) :
    k'.lock = k.lock ∨ k'.lock = none ∨ k'.lock = releaseIf k.lock t := by
  rcases execStep_lock h with ⟨hl, -⟩ | ⟨-, -, hl, -⟩ | ⟨hl, -⟩
  · exact .inl hl
  · exact .inr (.inl hl)
  · exact .inr (.inr hl)

theorem lock_of_resumeStep {e : ResumeStep} (he : e ≠ .acquire) (h : resumeStep t k y e = some (k', y')) :
    k'.lock = k.lock ∨ k'.lock = none ∨ k'.lock = releaseIf k.lock t := by
  cases e with
  | acquire => exact absurd rfl he
  | outer e =>
    simp only [resumeStep, Option.ite_none_right_eq_some, Option.map_eq_some_iff] at h
    obtain ⟨-, ⟨k₁, x₁⟩, hx, heq⟩ := h
    cases heq
    exact lock_of_execStep hx
  | finalize =>
    simp only [resumeStep] at h
    split at h
    case h_2 => cases h
    case h_1 c hc =>
      cases h
      by_cases hf : c = .forceDel
      · exact .inr (.inl (by simp [hf]))
      · exact .inl (by simp [hf])
  | clearGatePending | raised forced =>
    simp only [resumeStep] at h
    split at h <;> grind
  | _ =>
    simp only [resumeStep, Option.ite_none_right_eq_some, Option.some.injEq, Prod.mk.injEq] at h
    obtain ⟨-, rfl, -⟩ := h
    exact .inl rfl

theorem holds_exec {e : ExecStep} (hI : Holds E s) (hC : ExecSafe s.turns.keys (s.turns.exec t) s.Cleaning e)
    (h : execStep t s.turns.keys (s.turns.exec t) e = some (k', x')) :
    Holds E { s with turns := { s.turns with keys := k', exec := Function.update s.turns.exec t x' } } := by
  refine Inv.run (z := .first t) hI ?_ ?_ ?_ ?_
  · rintro (u | i) hy
    · by_cases hu : u = t
      · subst hu
        simp only [State.Live, Function.update_self] at hy
        exact execStep_live h hy
      · simpa only [State.Live, Function.update_of_ne hu] using hy
    · exact hy
  · rintro (u | i) hne hy
    · have hu : u ≠ t := fun hu => hne (by rw [hu])
      simpa only [State.ToClear, Function.update_of_ne hu] using hy
    · exact hy
  · intro u hu
    cases hl : live (s.turns.exec t) with
    | true =>
      rcases execStep_names h hu with hu | hu
      · exact .inl hu
      · exact .inr ⟨hu, hl⟩
    | false =>
      obtain ⟨hm, hg⟩ := execStep_over h hl
      exact .inl (names_of_same hm hg (lock_of_execStep h) hu)
  · simp only [State.ToClear, Function.update_self]
    exact execStep_accounted h hC

theorem holds_resume {e : ResumeStep} (he : e ≠ .acquire) (hI : Holds E s)
    (hC : ResumeSafe s.turns.keys (s.resume i) e)
    (h : resumeStep (E i) s.turns.keys (s.resume i) e = some (k', y')) :
    Holds E { turns := { s.turns with keys := k' }, resume := Function.update s.resume i y' } := by
  refine Inv.run (z := .again i) hI ?_ ?_ ?_ ?_
  · rintro (u | j) hy
    · exact hy
    · by_cases hj : j = i
      · subst hj
        simp only [State.Live, Function.update_self] at hy
        exact resumeStep_live he h hy
      · simpa only [State.Live, Function.update_of_ne hj] using hy
  · rintro (u | j) hne hy
    · exact hy
    · have hj : j ≠ i := fun hj => hne (by rw [hj])
      simpa only [State.ToClear, Function.update_of_ne hj] using hy
  · intro u hu
    cases hl : live (s.resume i).exec with
    | true =>
      rcases resumeStep_names h hu with hu | hu
      · exact .inl hu
      · exact .inr ⟨hu, hl⟩
    | false =>
      obtain ⟨hm, hg⟩ := resumeStep_over h hl
      exact .inl (names_of_same hm hg (lock_of_resumeStep he h) hu)
  · have hn : live (s.resume i).exec = true → ∀ u ∈ s.turns.keys.activeTurnId, u = E i := fun hl u hu =>
      hI.named (.again i) hl u (.inr (.inl hu))
    simp only [State.ToClear, Function.update_self]
    exact resumeStep_accounted he h hC hn

theorem holds_start (hI : Holds E s) (hC : Safe E s (.turns (.start t))) {u : TurnLock.State τ ρ}
    (h : TurnLock.step s.turns (.start t) = some u) : Holds E { s with turns := u } := by
  simp only [TurnLock.step] at h
  split at h
  case isTrue => cases h
  case isFalse hused =>
    split at h
    case isFalse =>
      cases h
      exact hI
    case isTrue hl =>
      cases h
      obtain ⟨⟨hquiet, hA⟩, hgate⟩ := hC hused hl
      refine Inv.begin (z := .first t) hI live_of_ToClear hquiet hA ?_ ?_
      · intro v hv
        rw [hgate] at hv
        cases hv
      · rintro (w | j) hy
        · by_cases hw : w = t
          · rw [hw]
          · refine absurd ?_ (hquiet (.first w))
            simpa only [State.Live, Function.update_of_ne hw] using hy
        · exact absurd hy (hquiet (.again j))

theorem holds_acquire (hI : Holds E s) (hC : Safe E s (.resume i .acquire))
    (h : resumeStep (E i) s.turns.keys (s.resume i) .acquire = some (k', y')) :
    Holds E { turns := { s.turns with keys := k' }, resume := Function.update s.resume i y' } := by
  simp only [resumeStep, Option.ite_none_right_eq_some] at h
  obtain ⟨⟨hout, -⟩, h⟩ := h
  split at h
  case isTrue hl =>
    cases h
    obtain ⟨⟨hquiet, hA⟩, hgate⟩ := hC hl
    refine Inv.begin (z := .again i) hI live_of_ToClear hquiet hA ?_ ?_
    · intro v hv
      rw [hgate] at hv
      exact (Option.some.inj hv).symm
    · rintro (u | j) hy
      · exact absurd hy (hquiet (.first u))
      · by_cases hj : j = i
        · rw [hj]
        · refine absurd ?_ (hquiet (.again j))
          simpa only [State.Live, Function.update_of_ne hj] using hy
  case isFalse =>
    -- the lock is taken: only `checked` changes
    cases h
    have hsame : ∀ j, (Function.update s.resume i { s.resume i with checked := false } j).exec = (s.resume j).exec ∧
        (Function.update s.resume i { s.resume i with checked := false } j).toClear = (s.resume j).toClear := fun j => by
      by_cases hj : j = i
      · subst hj
        rw [Function.update_self]
        exact ⟨rfl, rfl⟩
      · rw [Function.update_of_ne hj]
        exact ⟨rfl, rfl⟩
    refine Inv.run (z := .again i) hI ?_ ?_ (fun u hu => .inl hu) (.inl ⟨rfl, rfl, ?_⟩)
    · rintro (u | j) hy
      · exact hy
      · simpa only [State.Live, (hsame j).1] using hy
    · rintro (u | j) - hy
      · exact hy
      · simpa only [State.ToClear, (hsame j).2] using hy
    · intro hy
      simpa only [State.ToClear, (hsame i).2] using hy

theorem holds_abort {r : ρ} {e : AbortStep τ} (hI : Holds E s) (hC : AbortSafe s.turns.keys (s.turns.abort r) e)
    (h : abortStep s.turns.keys (s.turns.abort r) e = some (k', q')) :
    Holds E { s with turns := { s.turns with keys := k', abort := Function.update s.turns.abort r q' } } := by
  refine Inv.abort (r := r) hI (fun r' hr => Function.update_of_ne hr ..) (fun u hu => abortStep_names h hu) ?_ ?_
  · simp only [Function.update_self]
    exact abortStep_accounted h hC
  · intro y hy
    simp only [Function.update_self]
    exact abortStep_aims h (hI.named y hy) (hI.aims y hy r)

theorem holds_dropGate (hI : Holds E s) (hC : Safe E s (.turns .dropGate)) :
    Holds E { s with turns := { s.turns with keys := { s.turns.keys with gateTurn := none } } } := by
  refine ⟨hI.alone, fun y hy v hv => ?_, fun t ht => ?_, hI.aims⟩
  · rcases hv with hv | hv | hv
    · exact hI.named y hy v (.inl hv)
    · exact hI.named y hy v (.inr (.inl hv))
    · cases hv
  · rcases hI.settled t ht with hg | hor
    · have hnone : s.turns.keys.activeTurnId = none := hC (by rw [hg]; nofun)
      have hmarked : s.turns.keys.activeTurnId = some t := ht
      rw [hnone] at hmarked
      cases hmarked
    · exact .inr hor

theorem holds_step {a : Action τ ρ ι} (hI : Holds E s) (hC : Safe E s a) (h : step E s a = some s') : Holds E s' := by
  cases a with
  | turns a =>
    simp only [step, Option.map_eq_some_iff] at h
    obtain ⟨u, hu, rfl⟩ := h
    cases a with
    | start t => exact holds_start hI hC hu
    | exec t e =>
      simp only [TurnLock.step, Option.map_eq_some_iff] at hu
      obtain ⟨⟨k', x'⟩, hx, rfl⟩ := hu
      exact holds_exec hI hC hx
    | abort r e =>
      simp only [TurnLock.step, Option.map_eq_some_iff] at hu
      obtain ⟨⟨k', q'⟩, hq, rfl⟩ := hu
      exact holds_abort hI hC hq
    | dropGate =>
      cases hu
      exact holds_dropGate hI hC
  | resume i e =>
    simp only [step, Option.map_eq_some_iff] at h
    obtain ⟨⟨k', y'⟩, hy, rfl⟩ := h
    by_cases he : e = .acquire
    · subst he
      exact holds_acquire hI hC hy
    · refine holds_resume he hI ?_ hy
      cases e with
      | acquire => exact absurd rfl he
      | _ => exact hC

theorem holds_reach (h : (conversation E).Reach (Safe E) s) : Holds E s := by
  refine h.induct ?_ fun _ _ _ hI hC ht => holds_step hI hC ht
  rintro _ rfl
  have hlive : ∀ x : Run τ ι, ¬ (fresh : State τ ρ ι).Live x := by
    rintro (u | j) hx
    · cases hx
    · cases hx
  exact ⟨fun x _ hx => absurd hx (hlive x), fun x hx => absurd hx (hlive x), nofun, fun x hx => absurd hx (hlive x)⟩

theorem cleared_of_holds (hI : Holds E s) (hq : s.Quiet) (hgate : s.turns.keys.gateTurn = none) :
    s.turns.keys.activeTurnId = none := by
  obtain ⟨hlive, hpending⟩ := hq
  rcases hm : s.turns.keys.activeTurnId with _ | t
  · rfl
  · rcases hI.settled t hm with hg | ⟨x, hx⟩ | ⟨r, c, hc⟩
    · rw [hgate] at hg
      cases hg
    · exact absurd (live_of_ToClear x hx) (hlive x)
    · have hp := hpending r
      rw [hc] at hp
      cases hp

/-- Who clears a marker clears that of its own turn, as long as some run is in progress. -/
theorem own_of_holds (hI : Holds E s) {a : Action τ ρ ι} {u : τ} (h : step E s a = some s')
    (ha : a.turn E s = some t) (hm : s.turns.keys.activeTurnId = some u) (hm' : s'.turns.keys.activeTurnId = none)
    (hx : s.Executing E u) : t = u := by
  cases a with
  | turns a =>
    simp only [step, Option.map_eq_some_iff] at h
    obtain ⟨v, hv, rfl⟩ := h
    cases a with
    | start t' =>
      have hsame : v.keys.activeTurnId = s.turns.keys.activeTurnId := by
        simp only [TurnLock.step] at hv
        split at hv <;> grind
      rw [hsame, hm] at hm'
      cases hm'
    | exec t' e =>
      simp only [TurnLock.step, Option.map_eq_some_iff] at hv
      obtain ⟨⟨k', x'⟩, hstep, rfl⟩ := hv
      cases ha
      cases hl : live (s.turns.exec t) with
      | true => exact (hI.named (.first t) hl u (.inr (.inl hm))).symm
      | false =>
        have hover : k'.activeTurnId = s.turns.keys.activeTurnId := (execStep_over hstep hl).1
        rw [hm] at hover
        rw [show k'.activeTurnId = none from hm'] at hover
        cases hover
    | abort r e =>
      simp only [TurnLock.step, Option.map_eq_some_iff] at hv
      obtain ⟨⟨k', q'⟩, hstep, rfl⟩ := hv
      obtain ⟨x, hturn, hlive⟩ := hx
      have hclean : cleans (s.turns.abort r) := abortStep_clears hstep hm hm'
      rw [← hturn]
      exact (hI.aims x hlive r).turn (.inr (.inr hclean)) t ha
    | dropGate => cases ha
  | resume i e =>
    simp only [step, Option.map_eq_some_iff] at h
    obtain ⟨⟨k', y'⟩, hstep, rfl⟩ := h
    cases ha
    cases hl : live (s.resume i).exec with
    | true => exact (hI.named (.again i) hl u (.inr (.inl hm))).symm
    | false =>
      have hover : k'.activeTurnId = s.turns.keys.activeTurnId := (resumeStep_over hstep hl).1
      rw [hm] at hover
      rw [show k'.activeTurnId = none from hm'] at hover
      cases hover

/-- In every run that meets the condition, no marker outlives its turn, and nobody clears the marker of another turn
that is executing. -/
theorem marked_of_safe (h : (conversation E).Reach (Safe E) s) : Marked E (Safe E) s := by
  have hI : Holds E s := holds_reach h
  exact ⟨cleared_of_holds hI, fun _ _ _ _ _ hstep hturn hm hm' hx => own_of_holds hI hstep hturn hm hm' hx⟩

end Model

section Decide

variable {τ ρ ι : Type*} [DecidableEq τ] [Fintype τ] [DecidableEq ρ] [Fintype ρ] [DecidableEq ι] [Fintype ι]

instance (s : State τ ρ ι) (x : Run τ ι) : Decidable (s.Live x) :=
  match x with
  | .first _ => inferInstanceAs (Decidable (_ = true))
  | .again _ => inferInstanceAs (Decidable (_ = true))

instance (s : State τ ρ ι) : Decidable s.Quiet :=
  decidable_of_iff ((∀ t, ¬ s.Live (.first t)) ∧ (∀ i, ¬ s.Live (.again i)) ∧
      ∀ r, pending (s.turns.abort r).pc = false) <| by
    constructor
    · rintro ⟨hfirst, hagain, hp⟩
      refine ⟨?_, hp⟩
      rintro (t | i)
      · exact hfirst t
      · exact hagain i
    · rintro ⟨hlive, hp⟩
      exact ⟨fun t => hlive _, fun i => hlive _, hp⟩

instance (p : AbortPc) : Decidable (∃ c, p = .cleanup c) :=
  match p with
  | .cleanup c => isTrue ⟨c, rfl⟩
  | .idle | .loaded | .resolve | .resolvePending | .resolveLock | .signal | .resolveGate | .persistClose | .returned
  | .failed => isFalse nofun

instance (s : State τ ρ ι) : Decidable s.Cleaning :=
  inferInstanceAs (Decidable (∃ r, ∃ c, (s.turns.abort r).pc = .cleanup c))

instance (k : Keys τ) : Decidable (Settled k) :=
  inferInstanceAs (Decidable (∀ t ∈ k.activeTurnId, _))

instance (k : Keys τ) (x : Exec) (cleaning : Prop) [Decidable cleaning] (e : ExecStep) :
    Decidable (ExecSafe k x cleaning e) :=
  match e with
  | .leaveStream _ => inferInstanceAs (Decidable (_ → _ → _ ∨ _))
  | .streamFail => inferInstanceAs (Decidable (_ ∨ _ ∨ _))
  | .streamCancelled => inferInstanceAs (Decidable (_ → _))
  | .setRunning | .markTurnActive | .setGatePending | .poll | .refresh | .notice | .loseReplay | .finalize
  | .clearTurnActive | .release | .serviceRelease | .leave | .signalGet | .signalDel | .outerRelease | .outerFail =>
    isTrue trivial

instance (k : Keys τ) (y : Resume) (e : ResumeStep) : Decidable (ResumeSafe k y e) :=
  match e with
  | .clearGatePending => inferInstanceAs (Decidable (_ → _))
  | .raised _ => inferInstanceAs (Decidable (_ ∨ _))
  | .prepare | .acquire | .begin | .completed _ | .suspended | .stopped | .clearTurnActive | .check | .finalize
  | .outer _ => isTrue trivial

instance (k : Keys τ) (q : Abort τ) (e : AbortStep τ) : Decidable (AbortSafe k q e) :=
  match e with
  | .raised _ => inferInstanceAs (Decidable (_ ∨ _))
  | .load _ | .checkGate | .resolve | .resolvePending | .resolveLock | .signal | .resolveGate | .cleanup
  | .persistClose => isTrue trivial

instance (E : ι → τ) (s : State τ ρ ι) (a : Action τ ρ ι) : Decidable (Safe E s a) :=
  match a with
  | .turns (.start _) => inferInstanceAs (Decidable (_ → _ → _ ∧ _))
  | .turns (.exec t e) => inferInstanceAs (Decidable (ExecSafe s.turns.keys (s.turns.exec t) s.Cleaning e))
  | .turns (.abort r e) => inferInstanceAs (Decidable (AbortSafe s.turns.keys (s.turns.abort r) e))
  | .turns .dropGate => inferInstanceAs (Decidable (_ → _))
  | .resume _ .acquire => inferInstanceAs (Decidable (_ → _ ∧ _))
  | .resume i (.raised f) => inferInstanceAs (Decidable (ResumeSafe s.turns.keys (s.resume i) (.raised f)))
  | .resume i .clearGatePending => inferInstanceAs (Decidable (ResumeSafe s.turns.keys (s.resume i) .clearGatePending))
  | .resume _ .prepare | .resume _ .begin | .resume _ (.completed _) | .resume _ .suspended | .resume _ .stopped
  | .resume _ .clearTurnActive | .resume _ .check | .resume _ .finalize | .resume _ (.outer _) => isTrue trivial

end Decide

section Runs

local instance neZero_one : NeZero 1 := ⟨Nat.succ_ne_zero 0⟩

local instance neZero_two : NeZero 2 := ⟨Nat.succ_ne_zero 1⟩

/-- One resume of the turn `0`. -/
def oneGate : Fin 1 → Fin 2 := fun _ => 0

/-- The turn `0` runs up to its gate, and gives the lock up. -/
def upToGate : List (Action (Fin 2) (Fin 1) (Fin 1)) :=
  [.turns (.start 0), .turns (.exec 0 .setRunning), .turns (.exec 0 .markTurnActive), .turns (.exec 0 .setGatePending),
    .turns (.exec 0 (.leaveStream true)), .turns (.exec 0 .release), .turns (.exec 0 .serviceRelease)]

/-- The gate of the turn is submitted, and the agent runs again. -/
def again : List (Action (Fin 2) (Fin 1) (Fin 1)) :=
  [.resume 0 .prepare, .resume 0 .acquire, .resume 0 (.outer .setRunning), .resume 0 .begin]

/-- The turn completes in its resume. -/
theorem cleared_after_resume :
    ∃ s : State (Fin 2) (Fin 1) (Fin 1), (conversation oneGate).Reach (Safe oneGate) s ∧ s.Quiet ∧
      s.turns.keys.activeTurnId = none := by
  obtain ⟨s, -, hr, hp⟩ := Machine.reach_of_exec (M := conversation oneGate) (C := Safe oneGate) (s := fresh)
    (p := fun s => decide (s.Quiet ∧ s.turns.keys.gateTurn = none))
    (upToGate ++ again ++ [.resume 0 (.completed false), .resume 0 .clearGatePending, .resume 0 .clearTurnActive,
      .resume 0 .check, .resume 0 (.outer .serviceRelease)]) rfl (by decide)
  obtain ⟨hq, hg⟩ := of_decide_eq_true hp
  exact ⟨s, hr, hq, (marked_of_safe hr).cleared hq hg⟩

/-- The gate ends with a failed tool in the resume: the gate is cleared, the turn stays marked. -/
theorem not_marked :
    ¬ ∀ s : State (Fin 2) (Fin 1) (Fin 1), (conversation oneGate).Reach Free s → Marked oneGate Free s := by
  intro hall
  obtain ⟨s, -, hr, hp⟩ := Machine.reach_of_exec (M := conversation oneGate) (C := Free) (s := fresh)
    (p := fun s => decide (s.Quiet ∧ s.turns.keys.gateTurn = none ∧ s.turns.keys.activeTurnId = some 0))
    (upToGate ++ again ++ [.resume 0 (.completed true), .resume 0 .clearGatePending, .resume 0 .check,
      .resume 0 (.outer .serviceRelease)]) rfl (by decide)
  obtain ⟨hq, hg, hm⟩ := of_decide_eq_true hp
  have hnone : s.turns.keys.activeTurnId = none := (hall s hr).cleared hq hg
  rw [hm] at hnone
  cases hnone

end Runs

end NexusStudio.ActiveTurn
