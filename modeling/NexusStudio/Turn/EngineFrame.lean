import NexusStudio.Turn.Engine

/-!
# What the engine leaves of the world

The engine has to do with the world through its surroundings only.

* (surroundings) `LeavesMidTurn`: no hook, guard or checkpoint changes the part `f` of the world, and no subscriber
  does, unless the turn starts or completes. `Leaves`: no subscriber does at all.
* (mid turn) Then no event but the completion changes it, or the reason that the turn has to end with:
  `leaves_dispatch_mid`.
* (run) A whole run leaves what its surroundings leave: `leaves_run`.
-/

namespace NexusStudio.Turn

open Handlers

variable {ω κ α γ : Type} {S : Surroundings ω κ} {f : ω → γ}

/-- A call of a hook leaves `f` of the world alone. -/
def HookLeaves (f : ω → γ) (call : ω → HookCall × ω) : Prop :=
  ∀ w, f (call w).2 = f w

structure RecoveryHook.Leaves (h : RecoveryHook ω) (f : ω → γ) : Prop where
  afterModelStep : ∀ step m l r, HookLeaves f (h.afterModelStep step m l r)
  beforeComplete : ∀ step messages r, HookLeaves f (h.beforeComplete step messages r)
  onStreamBreak : ∀ t r, HookLeaves f (h.onStreamBreak t r)

structure Surroundings.LeavesMidTurn (S : Surroundings ω κ) (f : ω → γ) : Prop where
  start : ∀ k ∈ S.subscribers, Keeps f (S.start k)
  handle : ∀ k ∈ S.subscribers, ∀ e, S.barrierEvents k e.kind → e.kind ≠ .turnStarting → e.kind ≠ .turnCompleted →
    Keeps f (S.handle k e)
  recoveryHook : ∀ h, S.recoveryHook = some h → h.Leaves f
  cancelEvent : Keeps f S.cancelEvent
  checkWallClock : Keeps f S.checkWallClock
  onModelStepFinished : Keeps f S.onModelStepFinished
  exceededModelSteps : Keeps f S.exceededModelSteps
  onToolFinished : ∀ toolName errorClass, Keeps f (S.onToolFinished toolName errorClass)
  lastStopReason : Keeps f S.lastStopReason
  onTurnStartRepair : Keeps f S.onTurnStartRepair
  onTurnCleanupRepair : Keeps f S.onTurnCleanupRepair
  collectInterrupts : Keeps f S.collectInterrupts

structure Surroundings.Leaves (S : Surroundings ω κ) (f : ω → γ) : Prop extends S.LeavesMidTurn f where
  onEvent : ∀ k ∈ S.subscribers, ∀ e, S.barrierEvents k e.kind → Keeps f (S.handle k e)

/-- The part `f` of the world that a run finds. -/
def worldPart (f : ω → γ) (r : Run ω κ) : γ := f r.world

/-- The same, with the reason that the turn has to end with so far. -/
def stagePart (f : ω → γ) (r : Run ω κ) : TerminatedBy × γ := (r.terminatedBy, f r.world)

theorem leaves_world {x : Handler (Run ω κ) Exn α} (hx : Keeps (stagePart f) x) : Keeps (worldPart f) x :=
  fun r => congrArg Prod.snd (hx r)

theorem leaves_ask {x : Handler ω Exn α} (hx : Keeps f x) : Keeps (stagePart f) (ask x : Handler (Run ω κ) Exn α) :=
  fun r => Prod.ext rfl (hx r.world)

/-- What the surroundings do to the world, the engine's question does. -/
theorem triple_ask {P : ω → Prop} {Q : α → ω → Prop} {F : Exn → ω → Prop} {x : Handler ω Exn α}
    (hx : Triple P x Q F) :
    Triple (fun r : Run ω κ => P r.world) (ask x) (fun a r => Q a r.world) fun e r => F e r.world := by
  refine triple_onPart (fun r a w hr h => ?_) fun r e w hr h => ?_
  · have hw := hx r.world hr
    rwa [h] at hw
  · have hw := hx r.world hr
    rwa [h] at hw

theorem leaves_quietly {γ : Type} {g : Run ω κ → γ} {x : Handler (Run ω κ) Exn Unit} (hx : Keeps g x) :
    Keeps g (quietly x) := by
  intro r
  have h := hx r
  rw [quietly, exec_tryCatch]
  generalize exec x r = o at h ⊢
  rcases o with ⟨e | a, s⟩
  · exact h
  · exact h

theorem leaves_setTerminatedBy (t : TerminatedBy) :
    Keeps (worldPart f) (setTerminatedBy t : Handler (Run ω κ) Exn Unit) :=
  keeps_modify fun _ => rfl

theorem leaves_noteTerminatedBy (t : Option TerminatedBy) :
    Keeps (worldPart f) (noteTerminatedBy t : Handler (Run ω κ) Exn Unit) :=
  keeps_modify fun _ => rfl

theorem leaves_broadcast (e : TurnEvent) : Keeps (stagePart f) (broadcast e : Handler (Run ω κ) Exn Unit) :=
  keeps_modify fun _ => rfl

theorem leaves_putAnswers (step : Nat) (l : List String) :
    Keeps (stagePart f) (putAnswers step l : Handler (Run ω κ) Exn Unit) := by
  induction l with
  | nil => exact keeps_pure _
  | cons text l ih =>
    have hp : Keeps (stagePart f) (putAnswer step text : Handler (Run ω κ) Exn Unit) :=
      Keeps.bind (keeps_modify fun _ => rfl) fun _ => leaves_broadcast _
    exact hp.bind fun _ => ih

theorem leaves_backfillFinalAnswer (messages : List Message) :
    Keeps (stagePart f) (backfillFinalAnswer messages : Handler (Run ω κ) Exn Unit) := by
  refine keeps_get.bind fun r => Keeps.ite (keeps_pure _) ?_
  split
  · exact leaves_putAnswers _ _
  · exact keeps_pure _

theorem leaves_backfillStepAnswer (step : Nat) (m : AiMessage) :
    Keeps (stagePart f) (backfillStepAnswer step m : Handler (Run ω κ) Exn Unit) :=
  keeps_get.bind fun _ => Keeps.ite (keeps_pure _) (leaves_putAnswers _ _)

theorem leaves_broadcastInvalidToolCalls (step : Nat) (l : List InvalidToolCall) :
    Keeps (stagePart f) (broadcastInvalidToolCalls S step l) := by
  induction l with
  | nil => exact keeps_pure _
  | cons c l ih => exact (leaves_broadcast _).bind fun _ => (leaves_broadcast _).bind fun _ => ih

theorem leaves_meet {e : TurnEvent} (he : ∀ k ∈ S.subscribers, S.barrierEvents k e.kind → Keeps f (S.handle k e))
    (l : List κ) (hl : ∀ k ∈ l, k ∈ S.subscribers) (w : ω) : f (S.meet e l w).2.2 = f w := by
  induction l generalizing w with
  | nil => rfl
  | cons k l ih =>
    have ih := ih fun x hx => hl x (List.mem_cons_of_mem _ hx)
    rw [Surroundings.meet]
    split
    · next hb =>
      have hk := he k (hl k List.mem_cons_self) hb w
      generalize exec (S.handle k e) w = o at hk ⊢
      rcases o with ⟨x | a, u⟩
      · exact hk
      · exact (ih u).trans hk
    · exact ih w

theorem leaves_barrier {e : TurnEvent}
    (he : ∀ k ∈ S.subscribers, S.barrierEvents k e.kind → Keeps f (S.handle k e)) :
    Keeps (stagePart f) (barrier S e) := by
  intro r
  rw [barrier, exec_bind_ok _ exec_get, exec_bind_ok _ (exec_modify _), exec_orRaise]
  exact Prod.ext rfl (leaves_meet he S.subscribers (fun _ hk => hk) r.world)

/-! ### Mid turn -/

section

variable (h : S.LeavesMidTurn f)
include h

theorem leaves_fail (error : String) (errorClass : Option String) (step : Option Nat) :
    Keeps (stagePart f) (fail S error errorClass step) := by
  refine keeps_get.bind fun _ => Keeps.ite (keeps_pure _) ?_
  refine Keeps.bind (keeps_modify fun _ => rfl) fun _ => leaves_barrier fun k hk hb => ?_
  exact h.handle k hk _ hb nofun nofun

theorem leaves_callHook {c : RecoveryHook ω → RunState → ω → HookCall × ω}
    (hc : ∀ x, x.Leaves f → ∀ r, HookLeaves f (c x r)) : Keeps (stagePart f) (callHook S c) := by
  intro r
  rw [callHook, exec_bind_ok _ exec_get]
  cases hx : S.recoveryHook with
  | none => rfl
  | some x =>
    dsimp only
    rw [exec_bind_ok _ (exec_modify _)]
    have hw : f (c x r.toRunState r.world).2 = f r.world := hc x (h.recoveryHook x hx) r.toRunState r.world
    exact (((leaves_putAnswers 0 _).bind fun _ => keeps_orRaise _) _).trans (Prod.ext rfl hw)

theorem leaves_finishModelStep (step : Nat) (m : AiMessage) (l : List InvalidToolCall) :
    Keeps (stagePart f) (finishModelStep S step m l) := by
  refine (leaves_callHook h fun x hx r => hx.afterModelStep step m l r).bind fun o => ?_
  cases o with
  | some t => exact (leaves_fail h _ _ _).bind fun _ => keeps_pure _
  | none => exact (leaves_backfillStepAnswer _ _).bind fun _ => keeps_pure _

theorem leaves_handleModelStepFinished (step : Nat) (m : AiMessage) (l : List InvalidToolCall) :
    Keeps (stagePart f) (handleModelStepFinished S step m l) := by
  refine (leaves_ask h.onModelStepFinished).bind fun _ => (leaves_broadcast _).bind fun _ => ?_
  refine (leaves_ask h.exceededModelSteps).bind fun _ => Keeps.ite (keeps_pure _) ?_
  refine (leaves_broadcastInvalidToolCalls step l).doIf.bind fun _ => ?_
  cases l with
  | nil => exact leaves_finishModelStep h _ _ _
  | cons c l => exact Keeps.ite ((leaves_fail h _ _ _).bind fun _ => keeps_pure _) (leaves_finishModelStep h _ _ _)

theorem leaves_handleToolFinished (step : Nat) (callId toolName toolResult : String) (toolError : Bool)
    (errorClass : Option String) :
    Keeps (stagePart f) (handleToolFinished S step callId toolName toolResult toolError errorClass) := by
  refine (leaves_broadcast _).bind fun _ => Keeps.bind (keeps_modify fun _ => rfl) fun _ => ?_
  refine (leaves_ask (h.onToolFinished _ _)).bind fun a => ?_
  cases a with
  | continue_ | browserBlocked => exact keeps_pure _
  | stopTurn => exact (leaves_ask h.lastStopReason).bind fun _ => keeps_pure _

/-- Whatever event comes before the completion. -/
theorem leaves_dispatch_mid (e : AgentEvent) (he : ∀ step messages, e ≠ .turnCompleted step messages) :
    Keeps (stagePart f) (dispatch S e) := by
  cases e with
  | modelToken step channel text =>
    refine Keeps.bind (Keeps.doIf (keeps_modify fun _ => rfl)) fun _ => ?_
    exact (leaves_broadcast _).bind fun _ => keeps_pure _
  | toolStarted step callId toolName toolArgs => exact (leaves_broadcast _).bind fun _ => keeps_pure _
  | modelStepFinished step m l => exact leaves_handleModelStepFinished h step m l
  | toolFinished step callId toolName toolArgs toolResult toolError errorClass =>
    exact leaves_handleToolFinished h _ _ _ _ _ _
  | turnFailed step error errorClass => exact (leaves_fail h _ _ _).bind fun _ => keeps_pure _
  | turnCompleted step messages => exact absurd rfl (he step messages)

theorem leaves_emitInterrupts : Keeps (stagePart f) (emitInterrupts S) := by
  refine (leaves_ask h.collectInterrupts).bind fun o => ?_
  cases o with
  | none => exact keeps_pure _
  | some actions =>
    refine (leaves_barrier fun k hk hb => ?_).bind fun _ => keeps_pure _
    exact h.handle k hk _ hb nofun nofun

theorem leaves_failUnlessCancelled : Keeps (stagePart f) (failUnlessCancelled S) :=
  keeps_get.bind fun _ => Keeps.ite (keeps_pure _)
    ((leaves_ask h.cancelEvent).bind fun _ => Keeps.ite (keeps_pure _) (leaves_fail h _ _ _))

theorem leaves_recoverStreamBreak : Keeps (worldPart f) (recoverStreamBreak S) := by
  refine keeps_get.bind fun r => ?_
  refine (leaves_world (leaves_callHook h fun x hx r => hx.onStreamBreak _ r)).bind fun o => ?_
  cases o with
  | none => exact leaves_world (leaves_failUnlessCancelled h)
  | some t =>
    refine (leaves_setTerminatedBy t).bind fun _ => ?_
    split
    · exact keeps_pure _
    · exact keeps_pure _
    · exact leaves_world (leaves_fail h _ _ _)
    · exact leaves_world (leaves_failUnlessCancelled h)

theorem leaves_afterLoop : Keeps (worldPart f) (afterLoop S) := by
  refine (leaves_world (leaves_emitInterrupts h)).bind fun b => Keeps.ite (leaves_setTerminatedBy _) ?_
  refine keeps_get.bind fun r => Keeps.ite (keeps_pure _) ?_
  refine (leaves_world (leaves_ask h.cancelEvent)).bind fun c => ?_
  exact Keeps.ite (keeps_pure _) (leaves_recoverStreamBreak h)

theorem leaves_startSubscribers (l : List κ) (hl : ∀ k ∈ l, k ∈ S.subscribers) :
    Keeps (stagePart f) (startSubscribers S l) := by
  induction l with
  | nil => exact keeps_pure _
  | cons k l ih =>
    have ih := ih fun x hx => hl x (List.mem_cons_of_mem _ hx)
    exact (leaves_ask (h.start k (hl k List.mem_cons_self))).bind fun _ => ih

theorem leaves_handleRunException (x : Exn) : Keeps (worldPart f) (handleRunException S x) :=
  (leaves_setTerminatedBy _).bind fun _ => leaves_quietly (leaves_world (leaves_fail h _ _ _))

theorem leaves_finishTurn : Keeps (stagePart f) (finishTurn S) :=
  keeps_get.bind fun _ => (leaves_quietly (leaves_ask h.onTurnCleanupRepair)).doIf.bind fun _ => leaves_broadcast _

end

/-! ### A whole run -/

section

variable (h : S.Leaves f)
include h

theorem leaves_reportCompleted (messages : List Message) : Keeps (stagePart f) (reportCompleted S messages) :=
  keeps_get.bind fun _ => (leaves_barrier fun k hk => h.onEvent k hk _).bind fun _ => leaves_broadcast _

theorem leaves_settleCompleted (step : Nat) : Keeps (worldPart f) (settleCompleted S step) := by
  refine keeps_get.bind fun r => ?_
  split
  · exact leaves_world ((leaves_fail h.toLeavesMidTurn _ _ _).bind fun _ => keeps_pure _)
  · refine Keeps.ite ?_ ?_
    · exact (leaves_setTerminatedBy _).bind fun _ => keeps_pure _
    · exact (leaves_setTerminatedBy _).bind fun _ => keeps_pure _

theorem leaves_handleTurnCompleted (step : Nat) (messages : List Message) :
    Keeps (worldPart f) (handleTurnCompleted S step messages) := by
  have hm := h.toLeavesMidTurn
  refine (leaves_world (leaves_backfillFinalAnswer messages)).bind fun _ => ?_
  refine (leaves_world (leaves_callHook hm fun x hx r => hx.beforeComplete step messages r)).bind fun o => ?_
  split
  · exact keeps_pure _
  · refine (leaves_world (leaves_reportCompleted h messages)).bind fun _ => ?_
    exact (leaves_setTerminatedBy _).bind fun _ => keeps_pure _
  · exact leaves_world ((leaves_fail hm _ _ _).bind fun _ => keeps_pure _)
  · exact (leaves_world (leaves_reportCompleted h messages)).bind fun _ => leaves_settleCompleted h step

theorem leaves_dispatch (e : AgentEvent) : Keeps (worldPart f) (dispatch S e) := by
  cases e with
  | turnCompleted step messages => exact leaves_handleTurnCompleted h step messages
  | _ => exact leaves_world (leaves_dispatch_mid h.toLeavesMidTurn _ nofun)

theorem leaves_loop (raised : Option Exn) (events : List AgentEvent) :
    Keeps (worldPart f) (loop S raised events) := by
  induction events with
  | nil =>
    cases raised with
    | none => exact keeps_pure _
    | some x => exact keeps_throw _
  | cons e l ih =>
    refine (leaves_world (leaves_ask h.cancelEvent)).bind fun c => Keeps.ite ?_ ?_
    · exact (leaves_setTerminatedBy _).bind fun _ => keeps_pure _
    · refine (leaves_world (leaves_ask h.checkWallClock)).bind fun b => Keeps.ite ?_ ?_
      · exact (leaves_setTerminatedBy _).bind fun _ => keeps_pure _
      · refine (leaves_dispatch h e).bind fun a => ?_
        cases a with
        | continue_ b => exact ih
        | break_ b | return_ b => exact (leaves_noteTerminatedBy _).bind fun _ => keeps_pure _

theorem leaves_startTurn : Keeps (stagePart f) (startTurn S) := by
  refine (leaves_startSubscribers h.toLeavesMidTurn S.subscribers fun _ hk => hk).bind fun _ => ?_
  refine (leaves_barrier fun k hk => h.onEvent k hk _).bind fun _ => ?_
  refine (leaves_quietly (leaves_ask h.onTurnStartRepair)).doIf.bind fun _ => ?_
  exact (leaves_broadcast _).bind fun _ => keeps_modify fun _ => rfl

/-- A run leaves alone what its surroundings leave alone. -/
theorem leaves_run (events : List AgentEvent) (raised : Option Exn) : Keeps (worldPart f) (run S events raised) := by
  have hm := h.toLeavesMidTurn
  have hb : Keeps (worldPart f) (startTurn S >>= fun _ => driveAgentStream S events raised) :=
    (leaves_world (leaves_startTurn h)).bind fun _ =>
      (leaves_loop h raised events).bind fun _ => Keeps.ite (keeps_pure _) (leaves_afterLoop hm)
  refine Keeps.bind (fun r => ?_) fun _ => leaves_world (leaves_finishTurn hm)
  have hr := hb r
  rw [exec_tryCatch]
  generalize exec (startTurn S >>= fun _ => driveAgentStream S events raised) r = o at hr ⊢
  rcases o with ⟨x | a, s⟩
  · exact (leaves_handleRunException hm x s).trans hr
  · exact hr

end

end NexusStudio.Turn
