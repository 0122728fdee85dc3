import NexusStudio.Turn.Engine

/-!
# What the engine puts on the bus

The run is seen through a `View`: what the SSE subscriber gets to hear, next to what the engine itself keeps.

* (ledger) `Balanced`: the answer parts are the answer that was broadcast, the flag counts the failures, and the
  turn has not ended.
* (stages) `Going`, `Settled`, `Over` and `Broken`: what else holds in the loop, after it, at the end of the stream
  and where an exception leaves it.
* (run) `runTurn_spec`: after all that, the end of the turn is the last broadcast.

Two conditions stand for the parts of the statements that need them: `p` that the reasons given to the engine are
`ProperReasons`, `f` that the agent's events are `CompletesLast`.
-/

namespace NexusStudio.Turn

open Handlers EventBus

variable {ω κ α β : Type} [DecidableEq κ] {S : Surroundings ω κ}

/-- Events that neither add to the answer nor fail, report or end the turn. -/
def TurnEvent.Neutral (e : TurnEvent) : Prop :=
  e.answer = "" ∧ e.isFailed = false ∧ e.reported = none ∧ e.isEnded = false

/-! ### Views -/

structure View where
  -- the answer text and the number of failures that the SSE subscriber gets to hear
  answer : String
  failures : Nat
  parts : String
  failedEmitted : Bool
  terminatedBy : TerminatedBy
  -- the answer texts of all `TurnCompleted`
  reports : List String
  ended : Bool

/-- What the SSE subscriber gets from the commands so far. -/
def Surroundings.heard (S : Surroundings ω κ) (r : Run ω κ) : List TurnEvent :=
  due S.hears none r.ops

/-- The answer texts that a list of commands reports. -/
def reports (ops : List (BusOp κ)) : List String :=
  ops.filterMap fun o => o.event.reported

def Surroundings.view (S : Surroundings ω κ) (r : Run ω κ) : View where
  answer := answerText (S.heard r)
  failures := (S.heard r).countP TurnEvent.isFailed
  parts := String.join r.answerParts
  failedEmitted := r.failedEmitted
  terminatedBy := r.terminatedBy
  reports := reports r.ops
  ended := r.ops.any fun o => o.event.isEnded

/-- The view after one more event, which the SSE subscriber may hear or not. -/
def View.add (v : View) (heard : Bool) (e : TurnEvent) : View :=
  { v with
    answer := if heard then v.answer ++ e.answer else v.answer
    failures := if heard && e.isFailed then v.failures + 1 else v.failures
    reports := v.reports ++ e.reported.toList
    ended := v.ended || e.isEnded }

theorem View.add_neutral {e : TurnEvent} (h : e.Neutral) (v : View) (heard : Bool) : v.add heard e = v := by
  obtain ⟨ha, hf, hr, he⟩ := h
  simp [View.add, ha, hf, hr, he]

theorem answerText_append (l m : List TurnEvent) : answerText (l ++ m) = answerText l ++ answerText m := by
  simp [answerText, String.join_append]

theorem view_append (r : Run ω κ) (o : BusOp κ) {heard : Bool}
    (h : o.due S.hears none = if heard then [o.event] else []) :
    S.view { r with ops := r.ops ++ [o] } = (S.view r).add heard o.event := by
  have hh : S.heard { r with ops := r.ops ++ [o] } = S.heard r ++ if heard then [o.event] else [] := by
    rw [← h]
    exact due_concat none r.ops o
  simp only [Surroundings.view, hh, View.add, reports]
  cases heard with
  | false => cases hr : o.event.reported <;> simp [hr]
  | true =>
    simp only [if_true, answerText_append, List.countP_append, Bool.true_and]
    cases hr : o.event.reported <;> cases hf : o.event.isFailed <;> simp [hr, hf, answerText]

theorem due_broadcast (e : TurnEvent) :
    (Op.broadcast e : BusOp κ).due S.hears none = if Sse.hears e.kind then [e] else [] := rfl

theorem due_barrier (e : TurnEvent) (l : List κ) :
    (Op.barrier e (reachedBy e l) : BusOp κ).due S.hears none = if Sse.meets e.kind then [e] else [] := by
  have h : none ∉ l.map some := by simp
  simp only [reachedBy]
  cases Sse.meets e.kind with
  | false => exact Op.due_barrier_of_notMem h
  | true => exact Op.due_barrier_cons h

/-! ### Triples over views -/

/-- A triple about what the view shows. -/
abbrev Sees (S : Surroundings ω κ) (P : View → Prop) (x : Handler (Run ω κ) Exn α) (Q : α → View → Prop)
    (E : View → Prop) : Prop :=
  Triple (fun r => P (S.view r)) x (fun a r => Q a (S.view r)) fun _ r => E (S.view r)

variable {P E : View → Prop} {Q : α → View → Prop}

theorem sees_ask (x : Handler ω Exn α) (h : ∀ v, P v → E v) : Sees S P (ask x) (fun _ => P) E :=
  triple_onPart (fun _ _ _ hr _ => hr) fun _ _ _ hr _ => h _ hr

theorem sees_pure {a : α} (h : ∀ v, P v → Q a v) : Sees S P (pure a) Q E :=
  triple_pure fun _ hr => h _ hr

theorem sees_quietly {x : Handler (Run ω κ) Exn Unit} {R : View → Prop} (hx : Sees S P x (fun _ => R) R) :
    Sees S P (quietly x) (fun _ => R) E :=
  Triple.tryCatch hx fun _ => sees_pure fun _ h => h

theorem sees_doIf {p : Prop} [Decidable p] {x : Handler (Run ω κ) Exn Unit} (hx : Sees S P x (fun _ => P) E) :
    Sees S P (doIf p x) (fun _ => P) E :=
  Triple.ite (fun _ => hx) fun _ => sees_pure fun _ h => h

theorem sees_setTerminatedBy {R : View → Prop} (t : TerminatedBy)
    (h : ∀ v, P v → R { v with terminatedBy := t }) : Sees S P (setTerminatedBy t) (fun _ => R) E :=
  triple_modify fun r hr => h (S.view r) hr

theorem sees_broadcast {R : View → Prop} (e : TurnEvent) (h : ∀ v, P v → R (v.add (Sse.hears e.kind) e)) :
    Sees S P (broadcast e) (fun _ => R) E := by
  refine triple_modify fun r hr => ?_
  rw [view_append r _ (due_broadcast e)]
  exact h _ hr

theorem sees_broadcast_neutral {e : TurnEvent} (he : e.Neutral) : Sees S P (broadcast e) (fun _ => P) E :=
  sees_broadcast e fun v hv => by rwa [View.add_neutral he]

theorem sees_barrier {R : View → Prop} (e : TurnEvent) (h : ∀ v, P v → R (v.add (Sse.meets e.kind) e)) :
    Sees S P (barrier S e) (fun _ => R) R := by
  refine triple_get_bind fun r => Triple.bind (Q := fun _ s => R (S.view s)) ?_ fun _ s hs => ?_
  · rintro s ⟨hs, rfl⟩
    rw [exec_modify]
    have hv := view_append { s with world := (S.meet e S.subscribers s.world).2.2 } _
      (due_barrier (S := S) e (S.meet e S.subscribers s.world).1)
    show R _
    rw [hv]
    exact h (S.view s) hs
  · rw [exec_orRaise]
    cases (S.meet e S.subscribers r.world).2.1 <;> exact hs

theorem sees_barrier_neutral {e : TurnEvent} (he : e.Neutral) : Sees S P (barrier S e) (fun _ => P) P :=
  sees_barrier e fun v hv => by rwa [View.add_neutral he]

/-! ### Stages -/

/-- The SSE subscriber hears what the engine keeps. -/
structure Balanced (v : View) : Prop where
  answer : v.answer = v.parts
  failures : v.failures = v.failedEmitted.toNat
  notEnded : v.ended = false

/-- Every completion was reported with the answer. -/
def Faithful (v : View) : Prop :=
  ∀ text ∈ v.reports, text = v.parts

variable {p f : Prop}

/-- Where an exception leaves the turn. -/
structure Broken (f : Prop) (v : View) : Prop where
  balanced : Balanced v
  faithful : f → Faithful v

/-- In the loop: nothing has failed, and while more events are to come nothing is reported. -/
structure Going (f : Prop) (v : View) : Prop where
  balanced : Balanced v
  quiet : v.failedEmitted = false
  notInterrupted : v.terminatedBy ≠ .interrupted
  unreported : f → v.reports = []

/-- Nothing has failed. -/
structure Quiet (f : Prop) (v : View) : Prop where
  balanced : Balanced v
  quiet : v.failedEmitted = false
  faithful : f → Faithful v

/-- After the loop: only a completed turn has reported its answer. -/
structure Settled (f : Prop) (v : View) : Prop extends Quiet f v where
  notInterrupted : v.terminatedBy ≠ .interrupted
  completed : f → v.reports ≠ [] → v.terminatedBy = .completed

/-- The turn ends with the reason `t`. -/
structure Over (p f : Prop) (t : TerminatedBy) (v : View) : Prop where
  balanced : Balanced v
  faithful : f → Faithful v
  failing : p → v.failedEmitted = true → t ≠ .completed ∧ t ≠ .interrupted

theorem faithful_of_nil {v : View} (h : v.reports = []) : Faithful v := by
  intro text ht
  rw [h] at ht
  cases ht

theorem Going.settled {v : View} (h : Going f v) : Settled f v where
  balanced := h.balanced
  quiet := h.quiet
  notInterrupted := h.notInterrupted
  faithful hf := faithful_of_nil (h.unreported hf)
  completed hf hr := absurd (h.unreported hf) hr

theorem Quiet.broken {v : View} (h : Quiet f v) : Broken f v :=
  ⟨h.balanced, h.faithful⟩

theorem Going.broken {v : View} (h : Going f v) : Broken f v := h.settled.broken

/-- Without a failure any reason will do. -/
theorem Quiet.over {v : View} (h : Quiet f v) (t : TerminatedBy) : Over p f t v :=
  ⟨h.balanced, h.faithful, fun _ hf => absurd hf (by rw [h.quiet]; decide)⟩

theorem Broken.over {v : View} {t : TerminatedBy} (h : Broken f v)
    (ht : p → t ≠ .completed ∧ t ≠ .interrupted) : Over p f t v :=
  ⟨h.balanced, h.faithful, fun hp _ => ht hp⟩

theorem Settled.going {v : View} (h : Settled f v) (ht : f → v.terminatedBy ≠ .completed) : Going f v where
  balanced := h.balanced
  quiet := h.quiet
  notInterrupted := h.notInterrupted
  unreported hf := by
    by_contra hr
    exact ht hf (h.completed hf hr)

/-- The reason is no part of what a stage says about the bus. -/
theorem Going.setTerminatedBy {v : View} {t : TerminatedBy} (h : Going f v) (ht : t ≠ .interrupted) :
    Going f { v with terminatedBy := t } :=
  ⟨⟨h.balanced.answer, h.balanced.failures, h.balanced.notEnded⟩, h.quiet, ht, h.unreported⟩

theorem Quiet.setTerminatedBy {v : View} (h : Quiet f v) (t : TerminatedBy) :
    Quiet f { v with terminatedBy := t } :=
  ⟨⟨h.balanced.answer, h.balanced.failures, h.balanced.notEnded⟩, h.quiet, h.faithful⟩

theorem Over.setTerminatedBy {v : View} {t u : TerminatedBy} (h : Over p f t v) :
    Over p f t { v with terminatedBy := u } :=
  ⟨⟨h.balanced.answer, h.balanced.failures, h.balanced.notEnded⟩, h.faithful, h.failing⟩

/-! ### Answer, failure, hook -/

/-- A text goes into the answer parts and onto the bus. -/
def View.put (v : View) (text : String) : View :=
  { v with answer := v.answer ++ text, parts := v.parts ++ text }

theorem Going.put {v : View} (h : Going f v) (text : String) : Going f (v.put text) where
  balanced := ⟨congrArg (· ++ text) h.balanced.answer, h.balanced.failures, h.balanced.notEnded⟩
  quiet := h.quiet
  notInterrupted := h.notInterrupted
  unreported := h.unreported

theorem view_parts (r : Run ω κ) (text : String) :
    S.view { r with answerParts := r.answerParts ++ [text] } =
      { S.view r with parts := (S.view r).parts ++ text } := by
  simp [Surroundings.view, Surroundings.heard, String.join_append]

/-- A text is in the answer parts and not yet on the bus. -/
def HalfPut (f : Prop) (text : String) (v : View) : Prop :=
  ∃ u, Going f u ∧ v = { u with parts := u.parts ++ text }

theorem sees_appendPart (text : String) :
    Sees S (Going f) (modify fun r => { r with answerParts := r.answerParts ++ [text] })
      (fun _ => HalfPut f text) E :=
  triple_modify fun r hr => ⟨S.view r, hr, view_parts r text⟩

theorem sees_answerToken (step : Nat) (text : String) :
    Sees S (HalfPut f text) (broadcast (.modelToken step .answer text)) (fun _ => Going f) E := by
  refine sees_broadcast _ ?_
  rintro _ ⟨v, hv, rfl⟩
  have hadd : View.add { v with parts := v.parts ++ text } (Sse.hears TurnEventKind.modelToken)
      (.modelToken step .answer text) = v.put text := by
    simp [View.add, View.put, Sse.hears, TurnEvent.answer, TurnEvent.isFailed, TurnEvent.reported, TurnEvent.isEnded]
  exact hadd ▸ hv.put text

theorem sees_putAnswers (step : Nat) (l : List String) :
    Sees S (Going f) (putAnswers step l) (fun _ => Going f) E := by
  induction l with
  | nil => exact sees_pure fun _ h => h
  | cons text l ih =>
    exact Triple.bind (Triple.bind (sees_appendPart text) fun _ => sees_answerToken step text) fun _ => ih

/-- A failure is put on the bus once, and changes no reason. -/
theorem sees_fail (error : String) (errorClass : Option String) (step : Option Nat) (t : TerminatedBy) :
    Sees S (fun v => Broken f v ∧ v.terminatedBy = t) (fail S error errorClass step)
      (fun _ v => Broken f v ∧ v.terminatedBy = t) fun v => Broken f v ∧ v.terminatedBy = t := by
  refine triple_get_bind fun r => Triple.ite (fun _ => triple_pure fun s hs => hs.1) fun hr => ?_
  refine Triple.bind (Q := fun _ s => ∃ v, Broken f v ∧ v.terminatedBy = t ∧ v.failedEmitted = false ∧
    S.view s = { v with failedEmitted := true }) (triple_modify ?_) fun _ => ?_
  · rintro s ⟨⟨hb, ht⟩, rfl⟩
    exact ⟨S.view s, hb, ht, Bool.eq_false_of_not_eq_true hr, rfl⟩
  · refine sees_barrier (P := fun u => ∃ v, Broken f v ∧ v.terminatedBy = t ∧ v.failedEmitted = false ∧
      u = { v with failedEmitted := true }) (R := fun v => Broken f v ∧ v.terminatedBy = t) _ ?_
    rintro _ ⟨v, hb, ht, hq, rfl⟩
    have hfail : v.failures = 0 := by rw [hb.balanced.failures, hq]; rfl
    refine ⟨⟨⟨?_, ?_, ?_⟩, fun hf text hm => ?_⟩, ht⟩
    · simpa [View.add, TurnEvent.answer] using hb.balanced.answer
    · simp [View.add, Sse.meets, TurnEvent.kind, TurnEvent.isFailed, hfail]
    · simpa [View.add, TurnEvent.isEnded] using hb.balanced.notEnded
    · exact hb.faithful hf text (by simpa [View.add, TurnEvent.reported] using hm)

/-- A call of the hook may add to the answer, and what it returns is what the hook returns. -/
theorem sees_callHook (g : RecoveryHook ω → RunState → ω → HookCall × ω) {R : TerminatedBy → Prop}
    (hR : ∀ h, S.recoveryHook = some h → ∀ st w t, (g h st w).1.result = .ok (some t) → R t) :
    Sees S (Going f) (callHook S g) (fun a v => Going f v ∧ ∀ t, a = some t → R t) (Broken f) := by
  refine triple_get_bind fun r => ?_
  split
  · exact triple_pure fun s hs => ⟨hs.1, nofun⟩
  · next h hh =>
    refine Triple.bind (Q := fun _ s => Going f (S.view s)) (triple_modify fun s hs => hs.1) fun _ => ?_
    refine Triple.bind (sees_putAnswers 0 _) fun _ s hs => ?_
    rw [exec_orRaise]
    cases hres : (g h r.toRunState r.world).1.result with
    | error x => exact hs.broken
    | ok a =>
      refine ⟨hs, fun t ht => ?_⟩
      subst ht
      exact hR h hh _ _ t hres

/-! ### Handlers -/

/-- The reasons that the hook and the agent give the engine are ones it can end the turn with: what it is to fail
with is no completion and no interrupt. -/
structure ProperReasons (S : Surroundings ω κ) (events : List AgentEvent) : Prop where
  afterModelStep : ∀ h, S.recoveryHook = some h → ∀ step m inv st w t,
    (h.afterModelStep step m inv st w).1.result = .ok (some t) → t ≠ .completed ∧ t ≠ .interrupted
  beforeComplete : ∀ h, S.recoveryHook = some h → ∀ step ms st w t,
    (h.beforeComplete step ms st w).1.result = .ok (some t) → t ≠ .completed
  onStreamBreak : ∀ h, S.recoveryHook = some h → ∀ b st w t,
    (h.onStreamBreak b st w).1.result = .ok (some t) → t ≠ .interrupted
  turnFailed : ∀ step error c, AgentEvent.turnFailed step error c ∈ events →
    terminatedByForErrorClass (some c) ≠ .completed ∧ terminatedByForErrorClass (some c) ≠ .interrupted

/-- What holds when a handler returns; `C` where the loop goes on. -/
def Handled (p f : Prop) (C : View → Prop) : HandlerResult → View → Prop
  | .continue_ _, v => C v
  | .break_ t, v => Going f v ∧ t ≠ some .interrupted
  | .return_ t, v => ∃ u, t = some u ∧ Over p f u v

/-- A handler that fails the turn returns with the failure's reason. -/
theorem sees_failed {C : View → Prop} (error : String) (errorClass : Option String) (step : Option Nat)
    (t : TerminatedBy) (ht : p → t ≠ .completed ∧ t ≠ .interrupted) :
    Sees S (Broken f) (do fail S error errorClass step; return .return_ (some t)) (Handled p f C) (Broken f) := by
  refine Triple.bind (Q := fun _ r => Broken f (S.view r)) (fun r hr => ?_) fun _ => sees_pure fun v hv =>
    ⟨t, rfl, hv.over ht⟩
  have h := sees_fail error errorClass step (S.view r).terminatedBy r ⟨hr, rfl⟩
  generalize exec (fail S error errorClass step) r = x at h ⊢
  rcases x with ⟨e | a, s⟩ <;> exact h.1

theorem sees_handleModelToken (step : Nat) (channel : Channel) (text : String) :
    Sees S (Going f) (handleModelToken step channel text) (Handled p f (Going f)) (Broken f) := by
  cases channel with
  | answer =>
    exact Triple.bind (sees_appendPart text) fun _ => Triple.bind (sees_answerToken step text) fun _ =>
      sees_pure fun _ h => h
  | think =>
    exact Triple.bind (sees_pure fun _ h => h) fun _ => Triple.bind (sees_broadcast_neutral ⟨rfl, rfl, rfl, rfl⟩)
      fun _ => sees_pure fun _ h => h

theorem sees_handleToolStarted (step : Nat) (callId toolName : String) (toolArgs : ToolArgs) :
    Sees S (Going f) (handleToolStarted step callId toolName toolArgs) (Handled p f (Going f)) (Broken f) :=
  Triple.bind (sees_broadcast_neutral ⟨rfl, rfl, rfl, rfl⟩) fun _ => sees_pure fun _ h => h

theorem sees_broadcastInvalidToolCalls (step : Nat) (l : List InvalidToolCall) :
    Sees S P (broadcastInvalidToolCalls S step l) (fun _ => P) E := by
  induction l with
  | nil => exact sees_pure fun _ h => h
  | cons c l ih =>
    exact Triple.bind (sees_broadcast_neutral ⟨rfl, rfl, rfl, rfl⟩) fun _ =>
      Triple.bind (sees_broadcast_neutral ⟨rfl, rfl, rfl, rfl⟩) fun _ => ih

theorem sees_backfillStepAnswer (step : Nat) (m : AiMessage) :
    Sees S (Going f) (backfillStepAnswer step m) (fun _ => Going f) E :=
  triple_get_bind fun _ => Triple.ite (fun _ => triple_pure fun _ h => h.1) fun _ =>
    (sees_putAnswers step _).pre fun _ h => h.1

theorem sees_backfillFinalAnswer (messages : List Message) :
    Sees S (Going f) (backfillFinalAnswer messages) (fun _ => Going f) E := by
  refine triple_get_bind fun _ => Triple.ite (fun _ => triple_pure fun _ h => h.1) fun _ => ?_
  split
  · exact (sees_putAnswers 0 _).pre fun _ h => h.1
  · exact triple_pure fun _ h => h.1

variable {events : List AgentEvent}

theorem sees_finishModelStep (hp : p → ProperReasons S events) (step : Nat) (m : AiMessage)
    (inv : List InvalidToolCall) :
    Sees S (Going f) (finishModelStep S step m inv) (Handled p f (Going f)) (Broken f) := by
  refine Triple.bind (sees_callHook _ (R := fun t => p → t ≠ .completed ∧ t ≠ .interrupted)
    fun h hh st w t ht hp' => (hp hp').afterModelStep h hh step m inv st w t ht) fun a => ?_
  cases a with
  | some t =>
    intro r hr
    exact sees_failed _ _ _ t (hr.2 t rfl) r hr.1.broken
  | none =>
    refine Triple.pre (P := fun r => Going f (S.view r)) ?_ fun r hr => hr.1
    exact Triple.bind (sees_backfillStepAnswer step m) fun _ => sees_pure fun _ h => h

theorem sees_handleModelStepFinished (hp : p → ProperReasons S events) (step : Nat) (m : AiMessage)
    (inv : List InvalidToolCall) :
    Sees S (Going f) (handleModelStepFinished S step m inv) (Handled p f (Going f)) (Broken f) := by
  refine Triple.bind (sees_ask _ fun _ h => h.broken) fun _ => ?_
  refine Triple.bind (sees_broadcast_neutral ⟨rfl, rfl, rfl, rfl⟩) fun _ => ?_
  refine Triple.bind (sees_ask _ fun _ h => h.broken) fun exceeded => ?_
  refine Triple.ite (fun _ => sees_pure fun v h => ⟨h, nofun⟩) fun _ => ?_
  refine Triple.bind (sees_doIf (sees_broadcastInvalidToolCalls step inv)) fun _ => ?_
  split
  · refine Triple.ite (fun _ => ?_) fun _ => sees_finishModelStep hp step m _
    exact (sees_failed _ _ _ .toolParseFatal fun _ => ⟨nofun, nofun⟩).pre fun _ h => h.broken
  · exact sees_finishModelStep hp step m _

theorem sees_handleToolFinished (step : Nat) (callId toolName toolResult : String) (toolError : Bool)
    (errorClass : Option String) :
    Sees S (Going f) (handleToolFinished S step callId toolName toolResult toolError errorClass)
      (Handled p f (Going f)) (Broken f) := by
  refine Triple.bind (sees_broadcast_neutral ⟨rfl, rfl, rfl, rfl⟩) fun _ => ?_
  refine Triple.bind (Q := fun _ r => Going f (S.view r)) (triple_modify fun r hr => hr) fun _ => ?_
  refine Triple.bind (sees_ask _ fun _ h => h.broken) fun action => ?_
  cases action with
  | browserBlocked => exact sees_pure fun v h => ⟨h, nofun⟩
  | stopTurn =>
    refine Triple.bind (sees_ask _ fun _ h => h.broken) fun reason => sees_pure fun v h => ⟨h, ?_⟩
    split <;> nofun
  | continue_ => exact sees_pure fun v h => h

theorem sees_handleTurnFailed (hp : p → ProperReasons S events) (step : Nat) (error errorClass : String)
    (he : AgentEvent.turnFailed step error errorClass ∈ events) :
    Sees S (Going f) (handleTurnFailed S step error errorClass) (Handled p f (Going f)) (Broken f) :=
  (sees_failed _ _ _ _ fun h => (hp h).turnFailed step error errorClass he).pre fun _ h => h.broken

/-- A report with the answer of the moment keeps the reports faithful. -/
theorem Quiet.report {v : View} {messages : List Message} {text : String} {n : Nat} (h : Quiet f v)
    (ht : text = v.parts) : Quiet f (v.add false (.turnCompleted messages text n)) where
  balanced := ⟨h.balanced.answer, h.balanced.failures, by simpa [View.add, TurnEvent.isEnded] using h.balanced.notEnded⟩
  quiet := h.quiet
  faithful hf text' hm := by
    rcases List.mem_append.1 hm with hm | hm
    · exact h.faithful hf text' hm
    · exact (List.mem_singleton.1 hm).trans ht

theorem sees_reportCompleted (messages : List Message) :
    Sees S (Quiet f) (reportCompleted S messages) (fun _ => Quiet f) (Broken f) := by
  refine triple_get_bind fun r => ?_
  have hpre : ∀ s : Run ω κ, Quiet f (S.view s) ∧ s = r →
      Quiet f (S.view s) ∧ String.join r.answerParts = (S.view s).parts := by
    rintro s ⟨hs, rfl⟩
    exact ⟨hs, rfl⟩
  refine Triple.pre (P := fun s => Quiet f (S.view s) ∧ String.join r.answerParts = (S.view s).parts) ?_ hpre
  refine Triple.bind (Q := fun _ s => Quiet f (S.view s) ∧ String.join r.answerParts = (S.view s).parts) ?_ fun _ => ?_
  · refine (sees_barrier (P := fun v => Quiet f v ∧ String.join r.answerParts = v.parts)
      (R := fun v => Quiet f v ∧ String.join r.answerParts = v.parts) _ fun v hv => ?_).err fun _ _ h => h.1.broken
    exact ⟨hv.1.report hv.2, hv.2⟩
  · exact sees_broadcast (P := fun v => Quiet f v ∧ String.join r.answerParts = v.parts) _
      fun v hv => hv.1.report hv.2

theorem sees_settleCompleted (step : Nat) :
    Sees S (Quiet f) (settleCompleted S step) (Handled p f (Settled f)) (Broken f) := by
  refine triple_get_bind fun r => Triple.pre (P := fun s => Quiet f (S.view s)) ?_ fun _ h => h.1
  split
  · exact (sees_failed _ _ _ .turnFailed fun _ => ⟨nofun, nofun⟩).pre fun _ h => h.broken
  · refine Triple.ite (fun _ => ?_) fun _ => ?_
    · exact Triple.bind (sees_setTerminatedBy .interrupted fun v hv => hv.setTerminatedBy _) fun _ =>
        sees_pure fun v hv => ⟨.interrupted, rfl, hv.over _⟩
    · exact Triple.bind (sees_setTerminatedBy (R := Settled f) .completed fun v hv =>
        ⟨hv.setTerminatedBy _, nofun, fun _ _ => rfl⟩) fun _ => sees_pure fun v hv => hv

theorem sees_handleTurnCompleted (hp : p → ProperReasons S events) (step : Nat) (messages : List Message) :
    Sees S (Going f) (handleTurnCompleted S step messages) (Handled p f (Settled f)) (Broken f) := by
  refine Triple.bind (sees_backfillFinalAnswer messages) fun _ => ?_
  refine Triple.bind (sees_callHook _ (R := fun t => p → t ≠ .completed)
    fun h hh st w t ht hp' => (hp hp').beforeComplete h hh step messages st w t ht) fun a => ?_
  refine Triple.pre (P := fun r => Quiet f (S.view r) ∧ ∀ t, a = some t → p → t ≠ .completed) ?_
    fun r hr => ⟨hr.1.settled.toQuiet, hr.2⟩
  split
  · exact triple_pure fun r hr => ⟨.cancelled, rfl, hr.1.over _⟩
  · refine Triple.pre (P := fun r => Quiet f (S.view r)) ?_ fun r hr => hr.1
    refine Triple.bind (sees_reportCompleted messages) fun _ => ?_
    exact Triple.bind (sees_setTerminatedBy .interrupted fun v hv => hv.setTerminatedBy _) fun _ =>
      sees_pure fun v hv => ⟨.interrupted, rfl, hv.over _⟩
  · next t _ hi =>
    intro r hr
    exact sees_failed _ _ _ t (fun hp' => ⟨hr.2 t rfl hp', hi⟩) r hr.1.broken
  · refine Triple.pre (P := fun r => Quiet f (S.view r)) ?_ fun r hr => hr.1
    exact Triple.bind (sees_reportCompleted messages) fun _ => sees_settleCompleted step

/-! ### Run -/

def AgentEvent.isCompleted : AgentEvent → Bool
  | turnCompleted .. => true
  | _ => false

/-- `TurnCompleted` is the last event of the agent. -/
def CompletesLast : List AgentEvent → Prop
  | [] => True
  | e :: l => (e.isCompleted → l = []) ∧ CompletesLast l

theorem sees_dispatch (hp : p → ProperReasons S events) (e : AgentEvent) (he : e ∈ events) :
    Sees S (Going f) (dispatch S e) (Handled p f fun v => Settled f v ∧ (e.isCompleted = false → Going f v))
      (Broken f) := by
  have hgoing : ∀ r v, Handled p f (Going f) r v →
      Handled p f (fun v => Settled f v ∧ (e.isCompleted = false → Going f v)) r v := by
    intro r v h
    cases r with
    | continue_ t => exact ⟨Going.settled h, fun _ => h⟩
    | break_ t => exact h
    | return_ t => exact h
  cases e with
  | modelToken step channel text =>
    exact (sees_handleModelToken step channel text).post fun _ _ h => hgoing _ _ h
  | toolStarted step callId toolName toolArgs =>
    exact (sees_handleToolStarted step callId toolName toolArgs).post fun _ _ h => hgoing _ _ h
  | modelStepFinished step m inv =>
    exact (sees_handleModelStepFinished hp step m inv).post fun _ _ h => hgoing _ _ h
  | toolFinished step callId toolName toolArgs toolResult toolError errorClass =>
    exact (sees_handleToolFinished step callId toolName toolResult toolError errorClass).post fun _ _ h => hgoing _ _ h
  | turnFailed step error errorClass =>
    exact (sees_handleTurnFailed hp step error errorClass he).post fun _ _ h => hgoing _ _ h
  | turnCompleted step messages =>
    refine (sees_handleTurnCompleted hp step messages).post fun r s h => ?_
    cases r with
    | continue_ t => exact ⟨h, nofun⟩
    | break_ t => exact h
    | return_ t => exact h

/-- What the loop leaves: the end of the turn where it returned, a settled turn elsewhere. -/
def Looped (p f : Prop) (returned : Bool) (v : View) : Prop :=
  if returned then Over p f v.terminatedBy v else Settled f v

theorem sees_noteTerminatedBy (t : Option TerminatedBy) {R : View → Prop}
    (h : ∀ v, P v → R { v with terminatedBy := t.getD v.terminatedBy }) :
    Sees S P (noteTerminatedBy t) (fun _ => R) E :=
  triple_modify fun r hr => h (S.view r) hr

theorem sees_loop_nil (raised : Option Exn) :
    Sees S (Settled f) (loop S raised []) (Looped p f) (Broken f) := by
  cases raised with
  | some x => exact triple_throw fun _ h => Settled.toQuiet h |>.broken
  | none => exact sees_pure fun v h => h

/-- The loop, by induction on the agent's events: a handler that goes on leaves the turn going, or has completed it
and saw the last event. -/
theorem sees_loop (hp : p → ProperReasons S events) (raised : Option Exn) (l : List AgentEvent) (hl : l ⊆ events)
    (hf : f → CompletesLast l) : Sees S (Going f) (loop S raised l) (Looped p f) (Broken f) := by
  induction l with
  | nil => exact (sees_loop_nil raised).pre fun _ h => h.settled
  | cons e l ih =>
    refine Triple.bind (sees_ask _ fun _ h => h.broken) fun cancelled => Triple.ite (fun _ => ?_) fun _ => ?_
    · exact Triple.bind (sees_setTerminatedBy (R := Settled f) .cancelled
        fun v hv => (hv.setTerminatedBy (t := .cancelled) nofun).settled) fun _ => sees_pure fun v hv => hv
    refine Triple.bind (sees_ask _ fun _ h => h.broken) fun inTime => Triple.ite (fun _ => ?_) fun _ => ?_
    · exact Triple.bind (sees_setTerminatedBy (R := Settled f) .wallClock
        fun v hv => (hv.setTerminatedBy (t := .wallClock) nofun).settled) fun _ => sees_pure fun v hv => hv
    refine Triple.bind (sees_dispatch hp e (hl (List.mem_cons_self ..))) fun result => ?_
    cases result with
    | return_ t =>
      refine Triple.bind (sees_noteTerminatedBy t (R := fun v => Over p f v.terminatedBy v) ?_) fun _ =>
        triple_pure fun r hr => hr
      rintro v ⟨u, rfl, hv⟩
      exact hv.setTerminatedBy
    | break_ t =>
      refine Triple.bind (sees_noteTerminatedBy t (R := Settled f) fun v hv => ?_) fun _ => sees_pure fun v hv => hv
      refine (hv.1.setTerminatedBy ?_).settled
      cases t with
      | none => exact hv.1.notInterrupted
      | some u => exact fun h => hv.2 (congrArg some h)
    | continue_ t =>
      have hgo := ih (fun _ h => hl (List.mem_cons_of_mem _ h)) fun h => (hf h).2
      intro r hr
      by_cases hc : f ∧ e.isCompleted = true
      · -- the completion was the last event
        rw [(hf hc.1).1 hc.2]
        exact sees_loop_nil raised r hr.1
      · refine hgo r ?_
        by_cases h : f
        · exact hr.2 (Bool.eq_false_of_not_eq_true fun he => hc ⟨h, he⟩)
        · exact hr.1.going fun hf' => absurd hf' h

theorem sees_emitInterrupts (h : ∀ v, P v → E v) : Sees S P (emitInterrupts S) (fun _ => P) E := by
  refine Triple.bind (sees_ask _ h) fun actions => ?_
  cases actions with
  | none => exact sees_pure fun _ h => h
  | some a =>
    exact Triple.bind ((sees_barrier_neutral ⟨rfl, rfl, rfl, rfl⟩).err fun _ _ hv => h _ hv) fun _ =>
      sees_pure fun _ h => h

/-- The turn is over, with its own reason. -/
def Ended (p f : Prop) (v : View) : Prop :=
  Over p f v.terminatedBy v

theorem sees_failWith (t : TerminatedBy) (ht : p → t ≠ .completed ∧ t ≠ .interrupted) :
    Sees S (fun v => Broken f v ∧ v.terminatedBy = t) (failWith S t none) (fun _ => Ended p f) (Broken f) := by
  refine (sees_fail _ _ _ t).mono (fun _ h => h) (fun _ r h => ?_) fun _ _ h => h.1
  have hv := h.1.over (p := p) ht
  rwa [← h.2] at hv

theorem sees_failUnlessCancelled :
    Sees S (fun v => Quiet f v ∧ (p → v.terminatedBy ≠ .interrupted)) (failUnlessCancelled S)
      (fun _ => Ended p f) (Broken f) := by
  refine triple_get_bind fun r => Triple.ite (fun _ => triple_pure fun s h => h.1.1.over _) fun hc => ?_
  refine Triple.pre (P := fun s => (Quiet f (S.view s) ∧ (p → (S.view s).terminatedBy ≠ .interrupted)) ∧
    (S.view s).terminatedBy = r.terminatedBy) ?_ fun s h => ⟨h.1, by rw [h.2]; rfl⟩
  refine Triple.bind (sees_ask (P := fun v => (Quiet f v ∧ (p → v.terminatedBy ≠ .interrupted)) ∧
    v.terminatedBy = r.terminatedBy) _ fun _ h => h.1.1.broken) fun cancelled => ?_
  refine Triple.ite (fun _ => triple_pure fun s h => h.1.1.over _) fun _ s hs => ?_
  exact sees_failWith _ (fun hp => ⟨hc, hs.2 ▸ hs.1.2 hp⟩) s ⟨hs.1.1.broken, hs.2⟩

theorem sees_recoverStreamBreak (hp : p → ProperReasons S events) :
    Sees S (Going f) (recoverStreamBreak S) (fun _ => Ended p f) (Broken f) := by
  refine triple_get_bind fun r => Triple.pre (P := fun s => Going f (S.view s)) ?_ fun _ h => h.1
  refine Triple.bind (sees_callHook _ (R := fun t => p → t ≠ .interrupted)
    fun h hh st w t ht hp' => (hp hp').onStreamBreak h hh _ st w t ht) fun a => ?_
  cases a with
  | none =>
    exact sees_failUnlessCancelled.pre fun _ h => ⟨h.1.settled.toQuiet, fun _ => h.1.notInterrupted⟩
  | some t =>
    refine Triple.bind (Q := fun _ s => (Quiet f (S.view s) ∧ (p → (S.view s).terminatedBy ≠ .interrupted)) ∧
      (S.view s).terminatedBy = t) (triple_modify fun s hs => ?_) fun _ => ?_
    · exact ⟨⟨hs.1.settled.toQuiet.setTerminatedBy t, hs.2 t rfl⟩, rfl⟩
    split
    · exact triple_pure fun s hs => hs.1.1.over _
    · exact triple_pure fun s hs => hs.1.1.over _
    · exact (sees_failWith .agentRecoveryExhausted fun _ => ⟨nofun, nofun⟩).pre fun s hs => ⟨hs.1.1.broken, hs.2⟩
    · exact sees_failUnlessCancelled.pre fun _ h => h.1

theorem sees_afterLoop (hp : p → ProperReasons S events) :
    Sees S (Settled f) (afterLoop S) (fun _ => Ended p f) (Broken f) := by
  refine Triple.bind (sees_emitInterrupts fun _ h => h.toQuiet.broken) fun interrupted =>
    Triple.ite (fun _ => ?_) fun _ => ?_
  · exact sees_setTerminatedBy .interrupted fun v hv => (hv.toQuiet.setTerminatedBy _).over _
  refine triple_get_bind fun r => Triple.ite (fun _ => triple_pure fun s h => h.1.toQuiet.over _) fun hc => ?_
  refine Triple.pre (P := fun s => Going f (S.view s)) ?_ fun s h => h.1.going fun _ => h.2 ▸ hc
  refine Triple.bind (sees_ask _ fun _ h => h.broken) fun cancelled => Triple.ite (fun _ => ?_) fun _ => ?_
  · exact sees_pure fun v hv => hv.settled.toQuiet.over _
  · exact sees_recoverStreamBreak hp

theorem sees_driveAgentStream (hp : p → ProperReasons S events) (hf : f → CompletesLast events)
    (raised : Option Exn) :
    Sees S (Going f) (driveAgentStream S events raised) (fun _ => Ended p f) (Broken f) := by
  refine Triple.bind (sees_loop hp raised events (List.Subset.refl _) hf) fun returned => ?_
  cases returned with
  | true => exact sees_pure fun v hv => hv
  | false => exact sees_afterLoop hp

theorem sees_startSubscribers (l : List κ) (h : ∀ v, P v → E v) :
    Sees S P (startSubscribers S l) (fun _ => P) E := by
  induction l with
  | nil => exact sees_pure fun _ h => h
  | cons k l ih => exact Triple.bind (sees_ask _ h) fun _ => ih

theorem sees_startTurn : Sees S (Going f) (startTurn S) (fun _ => Going f) (Broken f) := by
  refine Triple.bind (sees_startSubscribers _ fun _ h => h.broken) fun _ => ?_
  refine Triple.bind ((sees_barrier_neutral ⟨rfl, rfl, rfl, rfl⟩).err fun _ _ h => h.broken) fun _ => ?_
  refine Triple.bind (sees_doIf (sees_quietly (sees_ask _ fun _ h => h))) fun _ => ?_
  exact Triple.bind (sees_broadcast_neutral ⟨rfl, rfl, rfl, rfl⟩) fun _ => triple_modify fun r hr => hr

theorem sees_handleRunException (x : Exn) :
    Sees S (Broken f) (handleRunException S x) (fun _ => Ended p f) E := by
  refine Triple.bind (sees_setTerminatedBy (R := fun v => Broken f v ∧ v.terminatedBy = .internal) .internal
    fun v hv => ⟨⟨⟨hv.balanced.answer, hv.balanced.failures, hv.balanced.notEnded⟩, hv.faithful⟩, rfl⟩) fun _ => ?_
  refine (sees_quietly (sees_fail _ _ _ .internal)).post fun _ r h => ?_
  exact h.1.over fun _ => by rw [h.2]; exact ⟨nofun, nofun⟩

omit [DecidableEq κ] in
theorem exec_quietly_ask (x : Handler ω Exn Unit) (r : Run ω κ) :
    ∃ w, exec (quietly (ask x)) r = (.ok (), { r with world := w }) := by
  simp only [quietly, exec_tryCatch, ask, exec_onPart]
  rcases exec x r.world with ⟨_ | _, w⟩
  · exact ⟨w, rfl⟩
  · exact ⟨w, rfl⟩

omit [DecidableEq κ] in
/-- The end is put on the bus with the reason and the flag of the moment. -/
theorem exec_finishTurn (r : Run ω κ) : ∃ w, exec (finishTurn S) r = (.ok (), { r with
    world := w, ops := r.ops ++ [.broadcast (.turnEnded r.terminatedBy r.failedEmitted)] }) := by
  obtain ⟨w, hw⟩ : ∃ w, exec (doIf (r.agentStarted ∧ r.terminatedBy ≠ .completed ∧ r.terminatedBy ≠ .interrupted)
      (quietly (ask S.onTurnCleanupRepair))) r = (.ok (), { r with world := w }) := by
    unfold doIf
    split
    · exact exec_quietly_ask S.onTurnCleanupRepair r
    · exact ⟨r.world, rfl⟩
  exact ⟨w, (exec_bind_ok _ exec_get).trans (exec_bind_ok _ hw)⟩

theorem going_init (world : ω) : Going f (S.view { RunState.init with ops := [], world }) where
  balanced := ⟨rfl, rfl, rfl⟩
  quiet := rfl
  notInterrupted := nofun
  unreported _ := rfl

/-- A run ends with the broadcast of `TurnEnded`, in a state that is over. -/
theorem runTurn_spec (hp : p → ProperReasons S events) (hf : f → CompletesLast events) (raised : Option Exn)
    (world : ω) :
    ∃ r : Run ω κ, Ended p f (S.view r) ∧ (runTurn S events raised world).toRunState = r.toRunState ∧
      (runTurn S events raised world).ops = r.ops ++ [.broadcast (.turnEnded r.terminatedBy r.failedEmitted)] := by
  have hbody := (Triple.tryCatch (Triple.bind sees_startTurn fun _ => sees_driveAgentStream hp hf raised)
    fun x => sees_handleRunException (E := fun _ => False) x) _ (going_init world)
  rcases hx : exec (tryCatch (startTurn S >>= fun _ => driveAgentStream S events raised) (handleRunException S))
    { RunState.init with ops := [], world } with ⟨x | u, r⟩
  · rw [hx] at hbody
    exact hbody.elim
  · rw [hx] at hbody
    obtain ⟨w, hw⟩ := exec_finishTurn (S := S) r
    have hrun : runTurn S events raised world = { r with
        world := w, ops := r.ops ++ [.broadcast (.turnEnded r.terminatedBy r.failedEmitted)] } :=
      congrArg Prod.snd ((exec_bind_ok (fun _ => finishTurn S) hx).trans hw)
    exact ⟨r, hbody, by rw [hrun], by rw [hrun]⟩

end NexusStudio.Turn
