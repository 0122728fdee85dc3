import NexusStudio.Turn.EngineFrame

/-!
# Where the results on the bus come from

* (rules) `Puts q x`: the handler `x` appends commands with `q` only.
* (sources) The results that the engine puts on the bus are those of the agent's events and the synthetic ones for
  invalid tool calls: `puts_run`.
-/

namespace NexusStudio.Turn

open Handlers EventBus

variable {ω κ α β : Type} {S : Surroundings ω κ} {q : TurnEvent → Prop}

/-- The handler leaves the commands so far and appends such with `q`. -/
def Puts (q : TurnEvent → Prop) (x : Handler (Run ω κ) Exn α) : Prop :=
  ∀ r, ∃ l, (exec x r).2.ops = r.ops ++ l ∧ ∀ o ∈ l, q o.event

theorem puts_of_ops {x : Handler (Run ω κ) Exn α} (h : ∀ r, (exec x r).2.ops = r.ops) : Puts q x :=
  fun r => ⟨[], by rw [h, List.append_nil], nofun⟩

theorem puts_pure (a : α) : Puts q (pure a : Handler (Run ω κ) Exn α) := puts_of_ops fun _ => rfl

theorem puts_throw (x : Exn) : Puts q (throw x : Handler (Run ω κ) Exn α) := puts_of_ops fun _ => rfl

theorem puts_get : Puts q (get : Handler (Run ω κ) Exn (Run ω κ)) := puts_of_ops fun _ => rfl

theorem puts_orRaise (o : Except Exn α) : Puts q (orRaise o : Handler (Run ω κ) Exn α) := puts_of_ops fun _ => rfl

theorem puts_modify {g : Run ω κ → Run ω κ} (h : ∀ r, (g r).ops = r.ops) :
    Puts q (modify g : Handler (Run ω κ) Exn Unit) := puts_of_ops h

theorem puts_ask (x : Handler ω Exn α) : Puts q (ask x : Handler (Run ω κ) Exn α) := puts_of_ops fun _ => rfl

theorem Puts.after {x : Handler (Run ω κ) Exn α} {k : Except Exn α → Handler (Run ω κ) Exn β} (hx : Puts q x)
    (hk : ∀ a, Puts q (k a)) (r : Run ω κ) :
    ∃ l, (exec (k (exec x r).1) (exec x r).2).2.ops = r.ops ++ l ∧ ∀ o ∈ l, q o.event := by
  obtain ⟨l, hl, hq⟩ := hx r
  obtain ⟨m, hm, hq'⟩ := hk (exec x r).1 (exec x r).2
  refine ⟨l ++ m, by rw [hm, hl, List.append_assoc], fun o ho => ?_⟩
  exact (List.mem_append.1 ho).elim (hq o) (hq' o)

theorem Puts.bind {x : Handler (Run ω κ) Exn α} {k : α → Handler (Run ω κ) Exn β} (hx : Puts q x)
    (hk : ∀ a, Puts q (k a)) : Puts q (x >>= k) := by
  intro r
  have hafter := hx.after (k := fun | .ok a => k a | .error e => throw e)
    (fun | .ok a => hk a | .error e => puts_throw e) r
  rw [exec_bind]
  generalize exec x r = c at hafter ⊢
  rcases c with ⟨e | a, s⟩
  · exact hafter
  · exact hafter

theorem Puts.tryCatch {x : Handler (Run ω κ) Exn α} {c : Exn → Handler (Run ω κ) Exn α} (hx : Puts q x)
    (hc : ∀ e, Puts q (c e)) : Puts q (tryCatch x c) := by
  intro r
  have hafter := hx.after (k := fun | .ok a => pure a | .error e => c e)
    (fun | .ok a => puts_pure a | .error e => hc e) r
  rw [exec_tryCatch]
  generalize exec x r = o at hafter ⊢
  rcases o with ⟨e | a, s⟩
  · exact hafter
  · exact hafter

theorem Puts.ite {p : Prop} [Decidable p] {x y : Handler (Run ω κ) Exn α} (hx : Puts q x) (hy : Puts q y) :
    Puts q (if p then x else y) := by
  split
  · exact hx
  · exact hy

theorem Puts.doIf {p : Prop} [Decidable p] {x : Handler (Run ω κ) Exn Unit} (hx : Puts q x) : Puts q (doIf p x) :=
  hx.ite (puts_pure _)

theorem puts_quietly {x : Handler (Run ω κ) Exn Unit} (hx : Puts q x) : Puts q (quietly x) :=
  hx.tryCatch fun _ => puts_pure _

theorem puts_one {x : Handler (Run ω κ) Exn α} {e : TurnEvent} (he : q e)
    (h : ∀ r, ∃ o : BusOp κ, (exec x r).2.ops = r.ops ++ [o] ∧ o.event = e) : Puts q x := by
  intro r
  obtain ⟨o, ho, rfl⟩ := h r
  refine ⟨[o], ho, fun o' ho' => ?_⟩
  obtain rfl := List.mem_singleton.1 ho'
  exact he

theorem puts_broadcast {e : TurnEvent} (he : q e) : Puts q (broadcast e : Handler (Run ω κ) Exn Unit) :=
  puts_one he fun _ => ⟨.broadcast e, rfl, rfl⟩

theorem puts_barrier {e : TurnEvent} (he : q e) : Puts q (barrier S e) :=
  puts_one he fun _ => ⟨.barrier e _, rfl, rfl⟩

/-- What no appended event counts as, has the same number before and after. -/
theorem Puts.keeps_count {x : Handler (Run ω κ) Exn α} (hx : Puts q x) {p : TurnEvent → Bool}
    (hp : ∀ e, q e → p e = false) : Keeps (fun r => r.ops.countP fun o => p o.event) x := by
  intro r
  obtain ⟨l, hl, hq⟩ := hx r
  have hnone : l.countP (fun o => p o.event) = 0 := List.countP_eq_zero.2 fun o ho => by simp [hp _ (hq o ho)]
  simp only [hl, List.countP_append, hnone, Nat.add_zero]

/-! ### Sources -/

/-- Where the results on the bus come from: `q` holds of them, and of all other events. -/
structure Sources (S : Surroundings ω κ) (events : List AgentEvent) (q : TurnEvent → Prop) : Prop where
  plain : ∀ e : TurnEvent, e.kind ≠ .toolFinished → q e
  finished : ∀ step callId name args text error errorClass,
    AgentEvent.toolFinished step callId name args text error errorClass ∈ events →
      q (.toolFinished step callId name text error errorClass false)
  invalid : ∀ step (c : InvalidToolCall), q (.toolFinished step c.callId c.name
    (S.toToolMessage (.fail "invalid_arguments" (invalidToolCallDetail c))) true (some "invalid_arguments") true)

variable {events : List AgentEvent}

theorem puts_putAnswers (hq : Sources S events q) (step : Nat) (l : List String) :
    Puts q (putAnswers step l : Handler (Run ω κ) Exn Unit) := by
  induction l with
  | nil => exact puts_pure _
  | cons text l ih =>
    have hput : Puts q (putAnswer step text : Handler (Run ω κ) Exn Unit) :=
      Puts.bind (puts_modify fun _ => rfl) fun _ => puts_broadcast (hq.plain _ nofun)
    exact hput.bind fun _ => ih

theorem puts_fail (hq : Sources S events q) (error : String) (errorClass : Option String) (step : Option Nat) :
    Puts q (fail S error errorClass step) :=
  puts_get.bind fun _ => Puts.ite (puts_pure _) <| Puts.bind (puts_modify fun _ => rfl) fun _ => puts_barrier (hq.plain _ nofun)

theorem puts_callHook (hq : Sources S events q) (f : RecoveryHook ω → RunState → ω → HookCall × ω) :
    Puts q (callHook S f) := by
  refine puts_get.bind fun r => ?_
  cases S.recoveryHook with
  | none => exact puts_pure _
  | some h =>
    dsimp only
    exact Puts.bind (puts_modify fun _ => rfl) fun _ => (puts_putAnswers hq 0 _).bind fun _ => puts_orRaise _

theorem puts_backfillStepAnswer (hq : Sources S events q) (step : Nat) (m : AiMessage) :
    Puts q (backfillStepAnswer step m : Handler (Run ω κ) Exn Unit) :=
  puts_get.bind fun _ => Puts.ite (puts_pure _) (puts_putAnswers hq _ _)

theorem puts_backfillFinalAnswer (hq : Sources S events q) (messages : List Message) :
    Puts q (backfillFinalAnswer messages : Handler (Run ω κ) Exn Unit) := by
  refine puts_get.bind fun _ => Puts.ite (puts_pure _) ?_
  split
  · exact puts_putAnswers hq _ _
  · exact puts_pure _

theorem puts_broadcastInvalidToolCalls (hq : Sources S events q) (step : Nat) (l : List InvalidToolCall) :
    Puts q (broadcastInvalidToolCalls S step l) := by
  induction l with
  | nil => exact puts_pure _
  | cons c l ih =>
    exact Puts.bind (puts_broadcast (hq.plain _ nofun)) fun _ => (puts_broadcast (hq.invalid step c)).bind fun _ => ih

theorem puts_finishModelStep (hq : Sources S events q) (step : Nat) (m : AiMessage) (l : List InvalidToolCall) :
    Puts q (finishModelStep S step m l) := by
  refine (puts_callHook hq _).bind fun o => ?_
  cases o with
  | some t => exact (puts_fail hq _ _ _).bind fun _ => puts_pure _
  | none => exact (puts_backfillStepAnswer hq _ _).bind fun _ => puts_pure _

theorem puts_handleModelStepFinished (hq : Sources S events q) (step : Nat) (m : AiMessage)
    (l : List InvalidToolCall) : Puts q (handleModelStepFinished S step m l) := by
  refine (puts_ask _).bind fun _ => Puts.bind (puts_broadcast (hq.plain _ nofun)) fun _ => (puts_ask _).bind fun b => ?_
  refine Puts.ite (puts_pure _) ((puts_broadcastInvalidToolCalls hq _ _).doIf.bind fun _ => ?_)
  cases l with
  | nil => exact puts_finishModelStep hq _ _ _
  | cons c l => exact Puts.ite ((puts_fail hq _ _ _).bind fun _ => puts_pure _) (puts_finishModelStep hq _ _ _)

theorem puts_reportCompleted (hq : Sources S events q) (messages : List Message) :
    Puts q (reportCompleted S messages) :=
  puts_get.bind fun _ => Puts.bind (puts_barrier (hq.plain _ nofun)) fun _ => puts_broadcast (hq.plain _ nofun)

theorem puts_settleCompleted (hq : Sources S events q) (step : Nat) : Puts q (settleCompleted S step) := by
  refine puts_get.bind fun r => ?_
  split
  · exact (puts_fail hq _ _ _).bind fun _ => puts_pure _
  · exact Puts.ite (Puts.bind (puts_modify fun _ => rfl) fun _ => puts_pure _)
      (Puts.bind (puts_modify fun _ => rfl) fun _ => puts_pure _)

theorem puts_handleTurnCompleted (hq : Sources S events q) (step : Nat) (messages : List Message) :
    Puts q (handleTurnCompleted S step messages) := by
  refine (puts_backfillFinalAnswer hq messages).bind fun _ => (puts_callHook hq _).bind fun o => ?_
  split
  · exact puts_pure _
  · exact (puts_reportCompleted hq messages).bind fun _ => Puts.bind (puts_modify fun _ => rfl) fun _ => puts_pure _
  · exact (puts_fail hq _ _ _).bind fun _ => puts_pure _
  · exact (puts_reportCompleted hq messages).bind fun _ => puts_settleCompleted hq step

theorem puts_dispatch (hq : Sources S events q) {e : AgentEvent} (he : e ∈ events) : Puts q (dispatch S e) := by
  cases e with
  | modelToken step channel text =>
    exact Puts.bind (Puts.doIf (puts_modify fun _ => rfl)) fun _ => Puts.bind (puts_broadcast (hq.plain _ nofun)) fun _ => puts_pure _
  | modelStepFinished step m l => exact puts_handleModelStepFinished hq step m l
  | toolStarted step callId name args => exact Puts.bind (puts_broadcast (hq.plain _ nofun)) fun _ => puts_pure _
  | toolFinished step callId name args text error errorClass =>
    refine (puts_broadcast (hq.finished _ _ _ _ _ _ _ he)).bind fun _ => Puts.bind (puts_modify fun _ => rfl) fun _ => ?_
    refine (puts_ask _).bind fun a => ?_
    cases a with
    | continue_ | browserBlocked => exact puts_pure _
    | stopTurn => exact (puts_ask _).bind fun _ => puts_pure _
  | turnCompleted step messages => exact puts_handleTurnCompleted hq step messages
  | turnFailed step error errorClass => exact (puts_fail hq _ _ _).bind fun _ => puts_pure _

theorem puts_loop (hq : Sources S events q) (raised : Option Exn) {l : List AgentEvent} (hl : l ⊆ events) :
    Puts q (loop S raised l) := by
  have hset : ∀ t, Puts q (setTerminatedBy t : Handler (Run ω κ) Exn Unit) := fun t => puts_modify fun _ => rfl
  induction l with
  | nil =>
    cases raised with
    | none => exact puts_pure _
    | some x => exact puts_throw x
  | cons e l ih =>
    refine (puts_ask _).bind fun b => Puts.ite ((hset _).bind fun _ => puts_pure _) ?_
    refine (puts_ask _).bind fun b => Puts.ite ((hset _).bind fun _ => puts_pure _) ?_
    refine (puts_dispatch hq (hl List.mem_cons_self)).bind fun a => ?_
    cases a with
    | continue_ t => exact ih fun x hx => hl (List.mem_cons_of_mem _ hx)
    | break_ t | return_ t => exact Puts.bind (puts_modify fun _ => rfl) fun _ => puts_pure _

theorem puts_failUnlessCancelled (hq : Sources S events q) : Puts q (failUnlessCancelled S) :=
  puts_get.bind fun _ => Puts.ite (puts_pure _) <| (puts_ask _).bind fun _ => Puts.ite (puts_pure _) (puts_fail hq _ _ _)

theorem puts_afterLoop (hq : Sources S events q) : Puts q (afterLoop S) := by
  have hset : ∀ t, Puts q (setTerminatedBy t : Handler (Run ω κ) Exn Unit) := fun t => puts_modify fun _ => rfl
  have hinterrupts : Puts q (emitInterrupts S) := by
    refine (puts_ask _).bind fun o => ?_
    cases o with
    | none => exact puts_pure _
    | some actions => exact Puts.bind (puts_barrier (hq.plain _ nofun)) fun _ => puts_pure _
  refine hinterrupts.bind fun b => (hset _).ite (puts_get.bind fun r => Puts.ite (puts_pure _) ?_)
  refine (puts_ask _).bind fun b => Puts.ite (puts_pure _) (puts_get.bind fun r => (puts_callHook hq _).bind fun o => ?_)
  cases o with
  | none => exact puts_failUnlessCancelled hq
  | some t =>
    refine (hset t).bind fun _ => ?_
    split
    · exact puts_pure _
    · exact puts_pure _
    · exact puts_fail hq _ _ _
    · exact puts_failUnlessCancelled hq

theorem puts_startTurn (hq : Sources S events q) : Puts q (startTurn S) := by
  have hstart : ∀ l, Puts q (startSubscribers S l) := by
    intro l
    induction l with
    | nil => exact puts_pure _
    | cons k l ih => exact (puts_ask _).bind fun _ => ih
  refine (hstart _).bind fun _ => Puts.bind (puts_barrier (hq.plain _ nofun)) fun _ => ?_
  refine (puts_quietly (puts_ask _)).doIf.bind fun _ => Puts.bind (puts_broadcast (hq.plain _ nofun)) fun _ => ?_
  exact puts_modify fun _ => rfl

/-- Whatever a run puts on the bus has one of the sources. -/
theorem puts_run (hq : Sources S events q) (raised : Option Exn) : Puts q (run S events raised) := by
  have hdrive : Puts q (driveAgentStream S events raised) :=
    (puts_loop hq raised fun _ h => h).bind fun _ => Puts.ite (puts_pure _) (puts_afterLoop hq)
  have hexception : ∀ x, Puts q (handleRunException S x) := fun x =>
    Puts.bind (puts_modify fun _ => rfl) fun _ => puts_quietly (puts_fail hq _ _ _)
  refine (((puts_startTurn hq).bind fun _ => hdrive).tryCatch hexception).bind fun _ => ?_
  refine puts_get.bind fun r => (puts_quietly (puts_ask _)).doIf.bind fun _ => ?_
  exact puts_broadcast (hq.plain _ nofun)

end NexusStudio.Turn
