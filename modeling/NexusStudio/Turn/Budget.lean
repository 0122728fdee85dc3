import NexusStudio.Turn.EngineEvents
import NexusStudio.Turn.EngineSpec
import NexusStudio.Turn.Guards

/-!
# The budget of a turn

* (recovery) `recoverEmptyAnswer` asks the model for an answer without tools, at most as often as model steps are left;
  every attempt counts as a model step.
* (surroundings) `Guarded`: the guards of the engine are `TurnGuards`, the hook spends on recoveries only, and nothing
  else changes them.
* (run) `within_budget`: no turn spends more model steps or reports more finished tools than its guards allow.
-/

namespace NexusStudio.Turn

open Handlers EventBus

/-! ### Recovery -/

/-- How an attempt of `recover_empty_answer` goes: the first two before the model is called, the others after. -/
inductive Attempt
  | cancelledBefore
  | late
  | cancelled
  | timeout
  | raised
  | noGeneration
  | invalidMessage
  | message (toolCalls : List ToolCall) (content : String)

structure EmptyRecoveryResult where
  text : Option String
  attempts : ℕ
  failureReason : Option String
  deriving DecidableEq, Repr

def stripTrailingEmptyAssistant (messages : List Message) : List Message :=
  messages.rdropWhile fun
    | .ai m => m.toolCalls = [] ∧ strip m.content = ""
    | _ => false

/-- The loop over the attempts, of which `left` may still be made. -/
def recoverLoop (go : ℕ → Attempt) : ℕ → ℕ → String → EmptyRecoveryResult
  | 0, started, reason => ⟨none, started, some reason⟩
  | left + 1, started, _ =>
    match go started with
    | .cancelledBefore => ⟨none, started, some "cancelled"⟩
    | .late => ⟨none, started, some "timeout"⟩
    | .cancelled => ⟨none, started + 1, some "cancelled"⟩
    | .timeout => ⟨none, started + 1, some "timeout"⟩
    | .raised => recoverLoop go left (started + 1) "gateway_error"
    | .noGeneration => recoverLoop go left (started + 1) "no_generation"
    | .invalidMessage => recoverLoop go left (started + 1) "invalid_message"
    | .message toolCalls content =>
      if toolCalls ≠ [] then recoverLoop go left (started + 1) "unexpected_tool_calls"
      else if strip content = "" then recoverLoop go left (started + 1) "empty"
      else ⟨some (strip content), started + 1, none⟩

def recoverEmptyAnswer (go : ℕ → Attempt) (messages : List Message) (maxAttempts : ℤ) : EmptyRecoveryResult :=
  if stripTrailingEmptyAssistant messages = [] then ⟨none, 0, some "no_context"⟩
  else if maxAttempts ≤ 0 then ⟨none, 0, some "disabled"⟩
  else recoverLoop go maxAttempts.toNat 0 "empty"

/-- The attempts that `_attempt_recovery` allows; `blocked` when the turn is cancelled or out of time. -/
def TurnGuards.recoveryAttempts (g : TurnGuards) (emptyRecoveryAttempts : ℤ) (blocked : Bool) : ℤ :=
  if blocked then 0 else min emptyRecoveryAttempts (max 0 (g.maxModelSteps - g.modelSteps))

/-- The part of `_attempt_recovery` that the guards see: every attempt is a model step. -/
def TurnGuards.attemptRecovery (g : TurnGuards) (go : ℕ → Attempt) (messages : List Message)
    (emptyRecoveryAttempts : ℤ) (blocked : Bool) : EmptyRecoveryResult × TurnGuards :=
  let result := recoverEmptyAnswer go messages (g.recoveryAttempts emptyRecoveryAttempts blocked)
  (result, (List.range result.attempts).foldl (fun g _ => g.onModelStepFinished) g)

theorem recoverLoop_attempts_le (go : ℕ → Attempt) (left started : ℕ) (reason : String) :
    (recoverLoop go left started reason).attempts ≤ started + left := by
  induction left generalizing started reason with
  | zero => exact Nat.le_refl _
  | succ left ih =>
    have hnext : ∀ reason, (recoverLoop go left (started + 1) reason).attempts ≤ started + (left + 1) := by
      intro reason
      have := ih (started + 1) reason
      omega
    rw [recoverLoop]
    split
    · exact Nat.le_add_right _ _
    · exact Nat.le_add_right _ _
    · exact Nat.add_le_add_left (Nat.le_add_left 1 left) _
    · exact Nat.add_le_add_left (Nat.le_add_left 1 left) _
    · exact hnext _
    · exact hnext _
    · exact hnext _
    · split
      · exact hnext _
      · split
        · exact hnext _
        · exact Nat.add_le_add_left (Nat.le_add_left 1 left) _

theorem recoverEmptyAnswer_attempts_le (go : ℕ → Attempt) (messages : List Message) (maxAttempts : ℤ) :
    ((recoverEmptyAnswer go messages maxAttempts).attempts : ℤ) ≤ max 0 maxAttempts := by
  unfold recoverEmptyAnswer
  split_ifs with hempty hnone
  · exact Int.le_max_left _ _
  · exact Int.le_max_left _ _
  · have := recoverLoop_attempts_le go maxAttempts.toNat 0 "empty"
    omega

/-- An answer of a recovery is not blank. -/
theorem text_of_recoverLoop {go : ℕ → Attempt} {left started : ℕ} {reason text : String}
    (h : (recoverLoop go left started reason).text = some text) : text ≠ "" := by
  induction left generalizing started reason with
  | zero => cases h
  | succ left ih =>
    rw [recoverLoop] at h
    split at h
    · cases h
    · cases h
    · cases h
    · cases h
    · exact ih h
    · exact ih h
    · exact ih h
    · split at h
      · exact ih h
      · split at h
        · exact ih h
        · next hne =>
          cases h
          exact hne

theorem foldl_onModelStepFinished (g : TurnGuards) (n : ℕ) :
    (List.range n).foldl (fun g _ => g.onModelStepFinished) g = { g with modelSteps := g.modelSteps + n } := by
  induction n with
  | zero => rfl
  | succ n ih =>
    rw [List.range_succ, List.foldl_append, ih]
    rfl

/-! ### What is spent -/

/-- The guards of a turn with limits `a` and `b` that has reported `n` finished tools. -/
structure Spent (a b : ℤ) (g : TurnGuards) (n : ℕ) : Prop where
  maxModelSteps : g.maxModelSteps = a
  maxToolCalls : g.maxToolCalls = b
  toolCalls : g.toolCalls = n
  modelSteps_le : (g.modelSteps : ℤ) ≤ max 1 a
  toolCalls_le : (n : ℤ) ≤ max 1 b

/-- The same, with something left. -/
structure Left (a b : ℤ) (g : TurnGuards) (n : ℕ) : Prop extends Spent a b g n where
  modelSteps_lt : (g.modelSteps : ℤ) < max 1 a
  toolCalls_lt : (n : ℤ) < max 1 b

variable {a b : ℤ} {g : TurnGuards} {n : ℕ}

theorem left_new (a b c : ℤ) : Left a b (.new a b c) 0 := by
  have hstart : ((0 : ℕ) : ℤ) < max 1 a ∧ ((0 : ℕ) : ℤ) < max 1 b := by omega
  exact ⟨⟨rfl, rfl, rfl, hstart.1.le, hstart.2.le⟩, hstart.1, hstart.2⟩

/-- A model step takes the guards to their limit, unless they say so. -/
theorem Left.onModelStepFinished (h : Left a b g n) :
    Spent a b g.onModelStepFinished n ∧
      (g.onModelStepFinished.exceededModelSteps = false → Left a b g.onModelStepFinished n) := by
  have hsteps : ((g.onModelStepFinished.modelSteps : ℕ) : ℤ) = g.modelSteps + 1 := Int.natCast_succ _
  have hlt := h.modelSteps_lt
  have hspent : Spent a b g.onModelStepFinished n :=
    ⟨h.maxModelSteps, h.maxToolCalls, h.toolCalls, by omega, h.toolCalls_le⟩
  refine ⟨hspent, fun hno => ⟨hspent, ?_, h.toolCalls_lt⟩⟩
  have hno' : ¬ g.maxModelSteps ≤ g.onModelStepFinished.modelSteps := of_decide_eq_false hno
  rw [h.maxModelSteps] at hno'
  omega

/-- An attempt of a recovery does not spend more model steps than there are. -/
theorem Spent.attemptRecovery (h : Spent a b g n) (go : ℕ → Attempt) (messages : List Message) (limit : ℤ)
    (blocked : Bool) : Spent a b (g.attemptRecovery go messages limit blocked).2 n := by
  have hattempts := recoverEmptyAnswer_attempts_le go messages (g.recoveryAttempts limit blocked)
  have hallowed : g.recoveryAttempts limit blocked ≤ max 0 (a - g.modelSteps) := by
    unfold TurnGuards.recoveryAttempts
    rw [h.maxModelSteps]
    split <;> omega
  have hle := h.modelSteps_le
  set attempts := (recoverEmptyAnswer go messages (g.recoveryAttempts limit blocked)).attempts
  change Spent a b ((List.range attempts).foldl (fun g _ => g.onModelStepFinished) g) n
  rw [foldl_onModelStepFinished]
  refine ⟨h.maxModelSteps, h.maxToolCalls, h.toolCalls, ?_, h.toolCalls_le⟩
  rw [Int.natCast_add]
  omega

/-- What every surface's guards do after a tool: they count it, and let it through below the budget only. -/
structure Fair (policy : GuardPolicy) : Prop where
  maxModelSteps : ∀ g name e, (policy g name e).2.maxModelSteps = g.maxModelSteps
  maxToolCalls : ∀ g name e, (policy g name e).2.maxToolCalls = g.maxToolCalls
  modelSteps : ∀ g name e, (policy g name e).2.modelSteps = g.modelSteps
  toolCalls : ∀ g name e, (policy g name e).2.toolCalls = g.toolCalls + 1
  continues : ∀ g name e, (policy g name e).1 = .continue_ → (g.toolCalls + 1 : ℤ) < g.maxToolCalls

theorem Fair.spends {policy : GuardPolicy} (hf : Fair policy) (h : Left a b g n) (name : String) (e : Option String) :
    Spent a b (policy g name e).2 (n + 1) ∧
      ((policy g name e).1 = .continue_ → Left a b (policy g name e).2 (n + 1)) := by
  have hn := h.toolCalls_lt
  have hspent : Spent a b (policy g name e).2 (n + 1) := by
    refine ⟨(hf.maxModelSteps ..).trans h.maxModelSteps, (hf.maxToolCalls ..).trans h.maxToolCalls,
      (hf.toolCalls ..).trans (congrArg (· + 1) h.toolCalls), ?_, by omega⟩
    rw [hf.modelSteps]
    exact h.modelSteps_le
  refine ⟨hspent, fun hgo => ⟨hspent, ?_, ?_⟩⟩
  · rw [hf.modelSteps]
    exact h.modelSteps_lt
  · have hlt := hf.continues g name e hgo
    rw [h.toolCalls, h.maxToolCalls] at hlt
    omega

/-- The parts of the guards that the fuse leaves alone. -/
def TurnGuards.budget (g : TurnGuards) : ℤ × ℤ × ℕ × ℕ := (g.maxModelSteps, g.maxToolCalls, g.modelSteps, g.toolCalls)

theorem budget_countError (g : TurnGuards) (name : String) (limit : ℤ) : (g.countError name limit).2.budget = g.budget := by
  unfold TurnGuards.countError
  dsimp only
  split <;> rfl

theorem budget_applyRepeatFuse (eligible : String → Option String → Bool) (g : TurnGuards) (name : String)
    (e : Option String) : (g.applyRepeatFuse eligible name e).2.budget = g.budget := by
  unfold TurnGuards.applyRepeatFuse
  split
  · exact budget_countError ..
  · split <;> rfl

theorem fair_of_budget {policy : GuardPolicy} (hbudget : ∀ g name e, (policy g name e).2.budget = g.noteToolCall.budget)
    (hstop : ∀ g name e, g.maxToolCalls ≤ ((g.toolCalls + 1 : ℕ) : ℤ) → (policy g name e).1 ≠ .continue_) : Fair policy where
  maxModelSteps g name e := congrArg (fun p => p.1) (hbudget g name e)
  maxToolCalls g name e := congrArg (fun p => p.2.1) (hbudget g name e)
  modelSteps g name e := congrArg (fun p => p.2.2.1) (hbudget g name e)
  toolCalls g name e := congrArg (fun p => p.2.2.2) (hbudget g name e)
  continues g name e hgo := by
    by_contra hmax
    exact hstop g name e (by omega) hgo

/-- The guards of a gate's abort, where no error counts for the fuse. -/
def neverRepeat : String → Option String → Bool := fun _ _ => false

inductive Surface
  | abort
  | chat
  | canvas
  deriving DecidableEq, Repr

/-- The guards that a surface mounts; the workshop mounts those of the chat. -/
def Surface.policy : Surface → GuardPolicy
  | abort => TurnGuards.onToolFinished neverRepeat
  | chat => chatOnToolFinished
  | canvas => canvasOnToolFinished

theorem fair_policy (s : Surface) : Fair s.policy := by
  cases s with
  | abort =>
    refine fair_of_budget (fun g name e => ?_) fun g name e hmax => ?_
    · change (TurnGuards.onToolFinished neverRepeat g name e).2.budget = _
      unfold TurnGuards.onToolFinished
      dsimp only
      split
      · rfl
      · exact budget_applyRepeatFuse ..
    · have hstop : TurnGuards.onToolFinished neverRepeat g name e = g.noteToolCall.stop "max_tools" := if_pos hmax
      change (TurnGuards.onToolFinished neverRepeat g name e).1 ≠ _
      rw [hstop]
      exact nofun
  | chat =>
    refine fair_of_budget (fun g name e => ?_) fun g name e hmax => ?_
    · change (chatOnToolFinished g name e).2.budget = _
      unfold chatOnToolFinished
      dsimp only
      split
      · rfl
      · split
        · rfl
        · split
          · have hcount := budget_countError g.noteToolCall name 1
            generalize g.noteToolCall.countError name 1 = r at hcount ⊢
            obtain ⟨action, g'⟩ := r
            cases action with
            | continue_ => exact (budget_applyRepeatFuse ..).trans hcount
            | stopTurn | browserBlocked => exact hcount
          · exact budget_applyRepeatFuse ..
    · change (chatOnToolFinished g name e).1 ≠ _
      unfold chatOnToolFinished
      dsimp only
      split
      · exact nofun
      · rw [if_pos (show g.noteToolCall.maxToolCalls ≤ g.noteToolCall.toolCalls from hmax)]
        exact nofun
  | canvas =>
    refine fair_of_budget (fun g name e => ?_) fun g name e hmax => ?_
    · change (canvasOnToolFinished g name e).2.budget = _
      unfold canvasOnToolFinished
      dsimp only
      split
      · rfl
      · split
        · exact budget_countError ..
        · rfl
    · have hstop : canvasOnToolFinished g name e = g.noteToolCall.stop "max_tools" := if_pos hmax
      change (canvasOnToolFinished g name e).1 ≠ _
      rw [hstop]
      exact nofun

/-! ### The engine's surroundings -/

section Engine

variable {ω κ α : Type} {S : Surroundings ω κ} {view : ω → TurnGuards} {policy : GuardPolicy}

/-- The surroundings without guards and hook. -/
def Surroundings.unguarded (S : Surroundings ω κ) : Surroundings ω κ :=
  { S with
    recoveryHook := none
    onModelStepFinished := pure ()
    exceededModelSteps := pure false
    onToolFinished := fun _ _ => pure .continue_ }

theorem meet_unguarded (e : TurnEvent) (l : List κ) (w : ω) : S.unguarded.meet e l w = S.meet e l w := by
  induction l generalizing w with
  | nil => rfl
  | cons k l ih =>
    simp only [Surroundings.meet, ih]
    rfl

theorem barrier_unguarded (e : TurnEvent) : barrier S.unguarded e = barrier S e := by
  simp only [barrier, meet_unguarded]
  rfl

theorem fail_unguarded (error : String) (errorClass : Option String) (step : Option Nat) :
    fail S.unguarded error errorClass step = fail S error errorClass step := by
  simp only [fail, barrier_unguarded]

/-- A call of a hook attempts one recovery at most. -/
def HookRecovers (view : ω → TurnGuards) (call : ω → HookCall × ω) : Prop :=
  ∀ w, view (call w).2 = view w ∨
    ∃ go messages limit blocked, view (call w).2 = ((view w).attemptRecovery go messages limit blocked).2

/-- The guards of the engine are the `TurnGuards` in `view`. -/
structure Guarded (S : Surroundings ω κ) (view : ω → TurnGuards) (policy : GuardPolicy) : Prop where
  onModelStepFinished : ∀ w, view (exec S.onModelStepFinished w).2 = (view w).onModelStepFinished
  exceededModelSteps : ∀ w, exec S.exceededModelSteps w = (.ok (view w).exceededModelSteps, w)
  onToolFinished : ∀ name e w, ∃ w', exec (S.onToolFinished name e) w = (.ok (policy (view w) name e).1, w') ∧
    view w' = (policy (view w) name e).2
  afterModelStep : ∀ h, S.recoveryHook = some h → ∀ step m l r, HookLeaves view (h.afterModelStep step m l r)
  beforeComplete : ∀ h, S.recoveryHook = some h → ∀ step messages r, HookRecovers view (h.beforeComplete step messages r)
  onStreamBreak : ∀ h, S.recoveryHook = some h → ∀ t r, HookRecovers view (h.onStreamBreak t r)
  -- nothing else has to do with them
  others : S.unguarded.Leaves view

/-- A finished tool that the agent has reported; a synthetic one stands for an invalid call. -/
def TurnEvent.isReal : TurnEvent → Bool
  | toolFinished _ _ _ _ _ _ synthetic => !synthetic
  | _ => false

/-- The finished tools that a run has reported. -/
def reportedTools (r : Run ω κ) : ℕ := r.ops.countP fun o => o.event.isReal

/-- The guards and the finished tools of a run. -/
def ledger (view : ω → TurnGuards) (r : Run ω κ) : TurnGuards × ℕ := (view r.world, reportedTools r)

/-- What `p` says of the guards and the finished tools holds of a run. -/
def Account (view : ω → TurnGuards) (p : TurnGuards → ℕ → Prop) (r : Run ω κ) : Prop := p (view r.world) (reportedTools r)

theorem sources_plain (S : Surroundings ω κ) : Sources S [] fun e => e.isReal = false where
  plain e he := by
    cases e with
    | toolFinished => exact absurd rfl he
    | _ => rfl
  finished step callId name args text error errorClass h := absurd h List.not_mem_nil
  invalid step c := rfl

theorem keeps_ledger {x : Handler (Run ω κ) Exn α} (hx : Keeps (worldPart view) x)
    (hputs : Puts (fun e => e.isReal = false) x) : Keeps (ledger view) x :=
  hx.prod (hputs.keeps_count fun _ h => h)

theorem keeps_ledger_modify {f : Run ω κ → Run ω κ} (hworld : ∀ r, (f r).world = r.world)
    (hops : ∀ r, (f r).ops = r.ops) : Keeps (ledger view) (modify f : Handler (Run ω κ) Exn Unit) :=
  keeps_modify fun r => by simp only [ledger, reportedTools, hworld, hops]

/-- What leaves the ledger alone keeps every account. -/
theorem account_of_keeps {x : Handler (Run ω κ) Exn α} (hx : Keeps (ledger view) x) (p : TurnGuards → ℕ → Prop) :
    Triple (Account view p) x (fun _ => Account view p) fun _ => Account view p :=
  hx.triple fun l => p l.1 l.2

theorem keeps_ask {x : Handler ω Exn α} (hx : Keeps view x) :
    Keeps (ledger view) (ask x : Handler (Run ω κ) Exn α) :=
  keeps_ledger (leaves_world (leaves_ask hx)) (puts_ask x)

theorem keeps_broadcast {e : TurnEvent} (he : e.isReal = false) :
    Keeps (ledger view) (broadcast e : Handler (Run ω κ) Exn Unit) :=
  keeps_ledger (leaves_world (leaves_broadcast e)) (puts_broadcast he)

theorem keeps_setTerminatedBy (t : TerminatedBy) :
    Keeps (ledger view) (setTerminatedBy t : Handler (Run ω κ) Exn Unit) :=
  keeps_ledger_modify (fun _ => rfl) fun _ => rfl

theorem keeps_noteTerminatedBy (t : Option TerminatedBy) :
    Keeps (ledger view) (noteTerminatedBy t : Handler (Run ω κ) Exn Unit) :=
  keeps_ledger_modify (fun _ => rfl) fun _ => rfl

theorem keeps_putAnswers (step : Nat) (l : List String) :
    Keeps (ledger view) (putAnswers step l : Handler (Run ω κ) Exn Unit) := by
  induction l with
  | nil => exact keeps_pure _
  | cons text l ih =>
    have hput : Keeps (ledger view) (putAnswer step text : Handler (Run ω κ) Exn Unit) :=
      Keeps.bind (keeps_ledger_modify (fun _ => rfl) fun _ => rfl) fun _ => keeps_broadcast rfl
    exact hput.bind fun _ => ih

theorem keeps_callHook {f : RecoveryHook ω → RunState → ω → HookCall × ω}
    (hf : ∀ h, S.recoveryHook = some h → ∀ r, HookLeaves view (f h r)) : Keeps (ledger view) (callHook S f) := by
  intro r
  rw [callHook, exec_bind_ok _ exec_get]
  cases hh : S.recoveryHook with
  | none => rfl
  | some h =>
    dsimp only
    rw [exec_bind_ok _ (exec_modify _)]
    refine (((keeps_putAnswers 0 _).bind fun _ => keeps_ledger (keeps_orRaise _) (puts_orRaise _)) _).trans ?_
    exact Prod.ext (hf h hh r.toRunState r.world) rfl

/-- A hook that attempts a recovery stays within the budget. -/
theorem account_callHook {f : RecoveryHook ω → RunState → ω → HookCall × ω}
    (hf : ∀ h, S.recoveryHook = some h → ∀ r, HookRecovers view (f h r)) :
    Triple (Account view (Spent a b)) (callHook S f) (fun _ => Account view (Spent a b))
      fun _ => Account view (Spent a b) := by
  intro r hr
  rw [callHook, exec_bind_ok _ exec_get]
  cases hh : S.recoveryHook with
  | none => exact hr
  | some h =>
    dsimp only
    rw [exec_bind_ok _ (exec_modify _)]
    have hworld : Spent a b (view (f h r.toRunState r.world).2) (reportedTools r) := by
      rcases hf h hh r.toRunState r.world with hsame | ⟨go, messages, limit, blocked, hspent⟩
      · exact hsame ▸ hr
      · exact hspent ▸ Spent.attemptRecovery hr go messages limit blocked
    refine account_of_keeps ?_ (Spent a b) _ hworld
    exact (keeps_putAnswers 0 _).bind fun _ => keeps_ledger (keeps_orRaise _) (puts_orRaise _)

/-- What a handler leaves: something of the budget where the turn goes on. -/
def Spends (view : ω → TurnGuards) (a b : ℤ) (result : HandlerResult) (r : Run ω κ) : Prop :=
  Account view (Spent a b) r ∧ ∀ t, result = .continue_ t → Account view (Left a b) r

theorem spends_of_keeps {x : Handler (Run ω κ) Exn HandlerResult} (hx : Keeps (ledger view) x) :
    Triple (Account view (Left a b)) x (Spends view a b) fun _ => Account view (Spent a b) :=
  (account_of_keeps hx (Left a b)).mono (fun _ h => h) (fun _ _ h => ⟨h.toSpent, fun _ _ => h⟩) fun _ _ h => h.toSpent

theorem spends_stopped {result : HandlerResult} (hresult : ∀ t, result ≠ .continue_ t) :
    Triple (Account view (Spent a b)) (pure result : Handler (Run ω κ) Exn HandlerResult) (Spends view a b)
      fun _ => Account view (Spent a b) :=
  triple_pure fun _ h => ⟨h, fun t ht => absurd ht (hresult t)⟩

variable (hS : Guarded S view policy)
include hS

theorem keeps_fail (error : String) (errorClass : Option String) (step : Option Nat) :
    Keeps (ledger view) (fail S error errorClass step) :=
  keeps_ledger (fail_unguarded (S := S) error errorClass step ▸
    leaves_world (leaves_fail hS.others.toLeavesMidTurn error errorClass step))
    (puts_fail (sources_plain S) error errorClass step)

theorem keeps_barrier {e : TurnEvent} (he : e.isReal = false) : Keeps (ledger view) (barrier S e) :=
  keeps_ledger (barrier_unguarded (S := S) e ▸ leaves_world (leaves_barrier fun k hk => hS.others.onEvent k hk e))
    (puts_barrier he)

theorem keeps_reportCompleted (messages : List Message) : Keeps (ledger view) (reportCompleted S messages) :=
  keeps_get.bind fun _ => (keeps_barrier hS rfl).bind fun _ => keeps_broadcast rfl

theorem keeps_settleCompleted (step : Nat) : Keeps (ledger view) (settleCompleted S step) := by
  refine keeps_get.bind fun r => ?_
  split
  · exact (keeps_fail hS _ _ _).bind fun _ => keeps_pure _
  · exact Keeps.ite ((keeps_setTerminatedBy _).bind fun _ => keeps_pure _)
      ((keeps_setTerminatedBy _).bind fun _ => keeps_pure _)

theorem keeps_finishModelStep (step : Nat) (m : AiMessage) (l : List InvalidToolCall) :
    Keeps (ledger view) (finishModelStep S step m l) := by
  refine (keeps_callHook fun h hh r => hS.afterModelStep h hh step m l r).bind fun o => ?_
  cases o with
  | some t => exact (keeps_fail hS _ _ _).bind fun _ => keeps_pure _
  | none =>
    refine Keeps.bind (keeps_ledger (leaves_world (leaves_backfillStepAnswer step m)) ?_) fun _ => keeps_pure _
    exact puts_backfillStepAnswer (sources_plain S) step m

theorem spends_modelStepFinished (step : Nat) (m : AiMessage) (l : List InvalidToolCall) :
    Triple (Account view (Left a b)) (handleModelStepFinished S step m l) (Spends view a b)
      fun _ => Account view (Spent a b) := by
  -- a step has been counted, and what the guards say of it decides
  set P : TurnGuards → ℕ → Prop := fun g n => Spent a b g n ∧ (g.exceededModelSteps = false → Left a b g n)
  have hcount : Triple (Account view (Left a b)) (ask S.onModelStepFinished : Handler (Run ω κ) Exn Unit)
      (fun _ => Account view P) fun _ => Account view P := by
    intro r hr
    have hworld : view (exec S.onModelStepFinished r.world).2 = _ := hS.onModelStepFinished r.world
    have hcounted : P (view (exec S.onModelStepFinished r.world).2) (reportedTools r) := by
      rw [hworld]
      exact Left.onModelStepFinished hr
    rw [ask, exec_onPart]
    generalize exec S.onModelStepFinished r.world = c at hcounted ⊢
    rcases c with ⟨x | u, w⟩
    · exact hcounted
    · exact hcounted
  have hasked : Triple (Account view P) (ask S.exceededModelSteps : Handler (Run ω κ) Exn Bool)
      (fun exceeded r => Account view (Spent a b) r ∧ (exceeded = false → Account view (Left a b) r))
      fun _ => Account view (Spent a b) := by
    intro r hr
    rw [ask, exec_onPart, hS.exceededModelSteps]
    exact ⟨hr.1, hr.2⟩
  refine Triple.bind (hcount.err fun _ _ h => h.1) fun _ => ?_
  refine Triple.bind ((account_of_keeps (keeps_broadcast rfl) P).err fun _ _ h => h.1) fun _ => ?_
  refine Triple.bind hasked fun exceeded => ?_
  refine Triple.ite (fun _ => Triple.pre (spends_stopped fun _ h => by cases h) fun _ h => h.1) fun hno => ?_
  -- the rest of the step leaves the account
  refine (spends_of_keeps ?_).pre fun _ h => h.2 (Bool.eq_false_of_not_eq_true hno)
  refine Keeps.bind (Keeps.doIf (keeps_ledger (leaves_world (leaves_broadcastInvalidToolCalls step l)) ?_)) fun _ => ?_
  · exact puts_broadcastInvalidToolCalls (sources_plain S) step l
  · cases l with
    | nil => exact keeps_finishModelStep hS step m []
    | cons first l =>
      exact Keeps.ite ((keeps_fail hS _ _ _).bind fun _ => keeps_pure _) (keeps_finishModelStep hS step m _)

theorem spends_toolFinished (hpolicy : Fair policy) (step : Nat) (callId name text : String) (error : Bool)
    (errorClass : Option String) :
    Triple (Account view (Left a b)) (handleToolFinished S step callId name text error errorClass) (Spends view a b)
      fun _ => Account view (Spent a b) := by
  -- the event is on the bus, and the guards are still to count it
  set P : TurnGuards → ℕ → Prop := fun g n => ∃ m, n = m + 1 ∧ Left a b g m
  have hput : Triple (Account view (Left a b))
      (broadcast (.toolFinished step callId name text error errorClass false) : Handler (Run ω κ) Exn Unit)
      (fun _ => Account view P) fun _ => Account view (Spent a b) := by
    refine triple_modify fun r hr => ⟨reportedTools r, ?_, hr⟩
    rw [reportedTools, List.countP_append]
    rfl
  have hcounted : Triple (Account view P) (modify fun r => { r with toolCallsCount := r.toolCallsCount + 1 } :
      Handler (Run ω κ) Exn Unit) (fun _ => Account view P) fun _ => Account view (Spent a b) :=
    triple_modify fun r hr => hr
  have hasked : Triple (Account view P) (ask (S.onToolFinished name errorClass) : Handler (Run ω κ) Exn GuardAction)
      (fun action r => Account view (Spent a b) r ∧ (action = .continue_ → Account view (Left a b) r))
      fun _ => Account view (Spent a b) := by
    rintro r ⟨m, hm, hleft⟩
    obtain ⟨w, hw, hview⟩ := hS.onToolFinished name errorClass r.world
    rw [ask, exec_onPart, hw]
    have hspends := hpolicy.spends hleft name errorClass
    rw [← hview, ← hm] at hspends
    exact hspends
  refine Triple.bind hput fun _ => Triple.bind hcounted fun _ => ?_
  refine Triple.bind hasked fun action => ?_
  cases action with
  | continue_ => exact triple_pure fun r h => ⟨h.1, fun _ _ => h.2 rfl⟩
  | browserBlocked => exact Triple.pre (spends_stopped fun _ h => by cases h) fun _ h => h.1
  | stopTurn =>
    refine Triple.pre (Triple.bind (account_of_keeps (keeps_ask hS.others.lastStopReason) (Spent a b)) fun reason => ?_)
      fun _ h => h.1
    exact spends_stopped fun _ h => by cases h

theorem spends_turnCompleted (step : Nat) (messages : List Message) :
    Triple (Account view (Spent a b)) (handleTurnCompleted S step messages) (fun _ => Account view (Spent a b))
      fun _ => Account view (Spent a b) := by
  have hkeeps : ∀ {α : Type} {x : Handler (Run ω κ) Exn α}, Keeps (ledger view) x →
      Triple (Account view (Spent a b)) x (fun _ => Account view (Spent a b)) fun _ => Account view (Spent a b) :=
    fun hx => account_of_keeps hx (Spent a b)
  have hbackfill : Keeps (ledger view) (backfillFinalAnswer messages : Handler (Run ω κ) Exn Unit) :=
    keeps_ledger (leaves_world (leaves_backfillFinalAnswer messages)) (puts_backfillFinalAnswer (sources_plain S) messages)
  refine Triple.bind (hkeeps hbackfill) fun _ => ?_
  refine Triple.bind (account_callHook fun h hh r => hS.beforeComplete h hh step messages r) fun o => ?_
  split
  · exact hkeeps (keeps_pure _)
  · exact hkeeps ((keeps_reportCompleted hS _).bind fun _ => (keeps_setTerminatedBy _).bind fun _ => keeps_pure _)
  · exact hkeeps ((keeps_fail hS _ _ _).bind fun _ => keeps_pure _)
  · exact hkeeps ((keeps_reportCompleted hS _).bind fun _ => keeps_settleCompleted hS _)

theorem spends_dispatch (hpolicy : Fair policy) {e : AgentEvent} (he : e.isCompleted = false) :
    Triple (Account view (Left a b)) (dispatch S e) (Spends view a b) fun _ => Account view (Spent a b) := by
  cases e with
  | modelToken step channel text =>
    refine spends_of_keeps (Keeps.bind (Keeps.doIf (keeps_ledger_modify (fun _ => rfl) fun _ => rfl)) fun _ => ?_)
    exact (keeps_broadcast rfl).bind fun _ => keeps_pure _
  | modelStepFinished step m l => exact spends_modelStepFinished hS step m l
  | toolStarted step callId name args => exact spends_of_keeps ((keeps_broadcast rfl).bind fun _ => keeps_pure _)
  | toolFinished step callId name args text error errorClass =>
    exact spends_toolFinished hS hpolicy step callId name text error errorClass
  | turnCompleted step messages => cases he
  | turnFailed step error errorClass => exact spends_of_keeps ((keeps_fail hS _ _ _).bind fun _ => keeps_pure _)

/-- The loop, by induction on the agent's events, of which a completion is the last. -/
theorem spends_loop (hpolicy : Fair policy) (raised : Option Exn) {l : List AgentEvent} (hl : CompletesLast l) :
    Triple (Account view (Left a b)) (loop S raised l) (fun _ => Account view (Spent a b))
      fun _ => Account view (Spent a b) := by
  have hnil : Triple (Account view (Spent a b)) (loop S raised []) (fun _ => Account view (Spent a b))
      fun _ => Account view (Spent a b) := by
    cases raised with
    | none => exact triple_pure fun _ h => h
    | some x => exact triple_throw fun _ h => h
  have hset : ∀ (t : TerminatedBy) (returned : Bool), Triple (Account view (Left a b))
      (do setTerminatedBy t; return returned : Handler (Run ω κ) Exn Bool) (fun _ => Account view (Spent a b))
      fun _ => Account view (Spent a b) := fun t returned =>
    (account_of_keeps ((keeps_setTerminatedBy t).bind fun _ => keeps_pure returned) (Left a b)).mono (fun _ h => h)
      (fun _ _ h => h.toSpent) fun _ _ h => h.toSpent
  have hask : ∀ {x : Handler ω Exn Bool}, Keeps view x → Triple (Account view (Left a b))
      (ask x : Handler (Run ω κ) Exn Bool) (fun _ => Account view (Left a b)) fun _ => Account view (Spent a b) :=
    fun hx => (account_of_keeps (keeps_ask hx) (Left a b)).err fun _ _ h => h.toSpent
  have hnote : ∀ (t : Option TerminatedBy) (returned : Bool), Triple (Account view (Spent a b))
      (do noteTerminatedBy t; return returned : Handler (Run ω κ) Exn Bool) (fun _ => Account view (Spent a b))
      fun _ => Account view (Spent a b) := fun t returned =>
    account_of_keeps ((keeps_noteTerminatedBy t).bind fun _ => keeps_pure returned) (Spent a b)
  induction l with
  | nil => exact hnil.pre fun _ h => h.toSpent
  | cons e l ih =>
    refine Triple.bind (hask hS.others.cancelEvent) fun c => Triple.ite (fun _ => hset _ _) fun _ => ?_
    refine Triple.bind (hask hS.others.checkWallClock) fun c => Triple.ite (fun _ => hset _ _) fun _ => ?_
    cases he : e.isCompleted with
    | false =>
      refine Triple.bind (spends_dispatch hS hpolicy he) fun result => ?_
      cases result with
      | continue_ t => exact (ih hl.2).pre fun _ h => h.2 t rfl
      | break_ t => exact (hnote t _).pre fun _ h => h.1
      | return_ t => exact (hnote t _).pre fun _ h => h.1
    | true =>
      -- nothing comes after the completion
      obtain rfl := hl.1 he
      cases e with
      | turnCompleted step messages =>
        refine Triple.bind ((spends_turnCompleted hS step messages).pre fun _ h => h.toSpent) fun result => ?_
        cases result with
        | continue_ t => exact hnil
        | break_ t => exact hnote t _
        | return_ t => exact hnote t _
      | _ => cases he

theorem keeps_failUnlessCancelled : Keeps (ledger view) (failUnlessCancelled S) :=
  keeps_get.bind fun _ => Keeps.ite (keeps_pure _)
    ((keeps_ask hS.others.cancelEvent).bind fun _ => Keeps.ite (keeps_pure _) (keeps_fail hS _ _ _))

theorem spends_afterLoop : Triple (Account view (Spent a b)) (afterLoop S) (fun _ => Account view (Spent a b))
    fun _ => Account view (Spent a b) := by
  have hkeeps : ∀ {α : Type} {x : Handler (Run ω κ) Exn α}, Keeps (ledger view) x →
      Triple (Account view (Spent a b)) x (fun _ => Account view (Spent a b)) fun _ => Account view (Spent a b) :=
    fun hx => account_of_keeps hx (Spent a b)
  have hinterrupts : Keeps (ledger view) (emitInterrupts S) := by
    refine (keeps_ask hS.others.collectInterrupts).bind fun o => ?_
    cases o with
    | none => exact keeps_pure _
    | some actions => exact (keeps_barrier hS rfl).bind fun _ => keeps_pure _
  refine Triple.bind (hkeeps hinterrupts) fun interrupted => Triple.ite (fun _ => hkeeps (keeps_setTerminatedBy _)) ?_
  intro _
  refine Triple.bind (hkeeps keeps_get) fun r => Triple.ite (fun _ => hkeeps (keeps_pure _)) fun _ => ?_
  refine Triple.bind (hkeeps (keeps_ask hS.others.cancelEvent)) fun c => Triple.ite (fun _ => hkeeps (keeps_pure _)) ?_
  intro _
  refine Triple.bind (hkeeps keeps_get) fun r => ?_
  refine Triple.bind (account_callHook fun h hh r' => hS.onStreamBreak h hh r.terminatedBy r') fun o => ?_
  cases o with
  | none => exact hkeeps (keeps_failUnlessCancelled hS)
  | some t =>
    refine Triple.bind (hkeeps (keeps_setTerminatedBy t)) fun _ => ?_
    split
    · exact hkeeps (keeps_pure _)
    · exact hkeeps (keeps_pure _)
    · exact hkeeps (keeps_fail hS _ _ _)
    · exact hkeeps (keeps_failUnlessCancelled hS)

theorem keeps_startTurn : Keeps (ledger view) (startTurn S) := by
  have hstart : ∀ l ⊆ S.subscribers, Keeps (ledger view) (startSubscribers S l) := by
    intro l
    induction l with
    | nil => exact fun _ => keeps_pure _
    | cons k l ih =>
      intro hl
      refine (keeps_ask (hS.others.start k (hl List.mem_cons_self))).bind fun _ => ?_
      exact ih fun x hx => hl (List.mem_cons_of_mem _ hx)
  refine (hstart _ fun _ h => h).bind fun _ => (keeps_barrier hS rfl).bind fun _ => ?_
  refine (leaves_quietly (keeps_ask hS.others.onTurnStartRepair)).doIf.bind fun _ => (keeps_broadcast rfl).bind fun _ => ?_
  exact keeps_ledger_modify (fun _ => rfl) fun _ => rfl

theorem keeps_finishTurn : Keeps (ledger view) (finishTurn S) :=
  keeps_get.bind fun _ => (leaves_quietly (keeps_ask hS.others.onTurnCleanupRepair)).doIf.bind fun _ => keeps_broadcast rfl

theorem spends_run (hpolicy : Fair policy) {events : List AgentEvent} (hevents : CompletesLast events)
    (raised : Option Exn) :
    Triple (Account view (Left a b)) (run S events raised) (fun _ => Account view (Spent a b))
      fun _ => Account view (Spent a b) := by
  have hexception : ∀ x, Keeps (ledger view) (handleRunException S x) := fun x =>
    (keeps_setTerminatedBy _).bind fun _ => leaves_quietly (keeps_fail hS _ _ _)
  have hdrive : Triple (Account view (Left a b)) (driveAgentStream S events raised)
      (fun _ => Account view (Spent a b)) fun _ => Account view (Spent a b) := by
    refine Triple.bind (spends_loop hS hpolicy raised hevents) fun returned => Triple.ite (fun _ => ?_) fun _ => ?_
    · exact account_of_keeps (keeps_pure _) (Spent a b)
    · exact spends_afterLoop hS
  refine Triple.bind (Triple.tryCatch (Triple.bind ?_ fun _ => hdrive) fun x => ?_) fun _ => ?_
  · exact (account_of_keeps (keeps_startTurn hS) (Left a b)).err fun _ _ h => h.toSpent
  · exact account_of_keeps (hexception x) (Spent a b)
  · exact account_of_keeps (keeps_finishTurn hS) (Spent a b)

end Engine

/-! ### A turn -/

/-- Whatever the agent does, a turn with fresh guards counts no more model steps than these allow, recoveries included,
and reports no more finished tools; a limit that is not positive allows one. -/
theorem within_budget {ω κ : Type} (s : Surface) {S : Surroundings ω κ} {view : ω → TurnGuards}
    (hS : Guarded S view s.policy) {events : List AgentEvent} (hevents : CompletesLast events) (raised : Option Exn)
    {world : ω} {a b c : ℤ} (hnew : view world = .new a b c) :
    ((view (runTurn S events raised world).world).modelSteps : ℤ) ≤ max 1 a ∧
      (reportedTools (runTurn S events raised world) : ℤ) ≤ max 1 b ∧
      (view (runTurn S events raised world).world).toolCalls = reportedTools (runTurn S events raised world) := by
  have hstart : Account view (Left a b) ({ RunState.init with ops := [], world } : Run ω κ) := by
    change Left a b (view world) 0
    rw [hnew]
    exact left_new a b c
  have hspent : Account view (Spent a b) (runTurn S events raised world) :=
    (spends_run hS (fair_policy s) hevents raised).final hstart
  exact ⟨hspent.modelSteps_le, hspent.toolCalls_le, hspent.toolCalls⟩

/-- A hook that recovers a turn without an answer with the model's next one. -/
def recoveringHook : RecoveryHook TurnGuards where
  afterModelStep _ _ _ _ g := (⟨[], .ok none⟩, g)
  beforeComplete _ messages _ g :=
    let r := g.attemptRecovery (fun _ => .message [] "Done.") messages 2 false
    (⟨r.1.text.toList, .ok none⟩, r.2)
  onStreamBreak _ _ g := (⟨[], .ok none⟩, g)
  forceFailed _ := none
  forceInterrupted _ := false

/-- Surroundings that are nothing but the guards of the chat and this hook. -/
def metered : Surroundings TurnGuards Unit where
  subscribers := []
  barrierEvents _ _ := false
  broadcastEvents _ _ := false
  start _ := pure ()
  handle _ _ := pure ()
  recoveryHook := some recoveringHook
  cancelEvent := pure false
  checkWallClock := pure true
  onModelStepFinished := modify TurnGuards.onModelStepFinished
  exceededModelSteps := return (← get).exceededModelSteps
  onToolFinished name e := do
    let g ← get
    modify fun _ => (chatOnToolFinished g name e).2
    return (chatOnToolFinished g name e).1
  lastStopReason := return (← get).lastStopReason
  emitInvalidToolCallFrames := true
  healInvalidToolCalls := true
  isResume := false
  onTurnStartRepair := pure ()
  onTurnCleanupRepair := pure ()
  collectInterrupts := pure none
  toToolMessage r := r.output

theorem guarded_metered : Guarded metered id chatOnToolFinished where
  onModelStepFinished _ := rfl
  exceededModelSteps _ := rfl
  onToolFinished _ _ _ := ⟨_, rfl, rfl⟩
  afterModelStep h hh := by
    cases hh
    exact fun _ _ _ _ _ => rfl
  beforeComplete h hh := by
    cases hh
    exact fun _ messages _ _ => .inr ⟨fun _ => .message [] "Done.", messages, 2, false, rfl⟩
  onStreamBreak h hh := by
    cases hh
    exact fun _ _ _ => .inl rfl
  others := by
    refine ⟨⟨nofun, nofun, nofun, ?_, ?_, ?_, ?_, ?_, ?_, ?_, ?_, ?_⟩, nofun⟩
    all_goals intros
    all_goals exact fun _ => rfl

/-- A turn that searches twice. -/
def searchTurn : List AgentEvent :=
  [.modelStepFinished 0 ⟨"", [⟨"c1", "web_search", []⟩, ⟨"c2", "web_search", []⟩]⟩ [],
    .toolFinished 1 "c1" "web_search" [] "" false none, .toolFinished 1 "c2" "web_search" [] "" false none,
    .turnCompleted 1 [.human]]

/-- One of the two searches is reported where one is allowed. -/
theorem within_budget_search :
    let r := runTurn metered searchTurn none (.new 2 1 3)
    (r.world.modelSteps : ℤ) ≤ max 1 2 ∧ (reportedTools r : ℤ) ≤ max 1 1 ∧ r.world.toolCalls = reportedTools r := by
  have hcompletes : CompletesLast searchTurn := ⟨nofun, nofun, nofun, fun _ => rfl, trivial⟩
  exact within_budget .chat guarded_metered hcompletes none rfl

end NexusStudio.Turn
