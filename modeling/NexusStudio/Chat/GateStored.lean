import NexusStudio.Chat.GateTurn
import NexusStudio.Turn.EngineFrame

/-!
# Gates that are shown and stored

* (condition) `Safe`: what a turn that stops at a gate has to be spared.
* (emission) what the persistence subscriber does where the gates are not in doubt.
* (engine) what the parts of the engine do with a turn that has stopped.
* (runs) `kept_of_safe`: in runs of safe steps every gate that the graph has stopped at is kept.
* (workshop turns) `workshop_not_kept`: no run of a workshop turn keeps a gate.
* (limits) `not_kept`: a chat turn that has published a file loses its gate.
-/

namespace NexusStudio.GateTurn

open Handlers Turn Gate Concurrent
open Streaming (StreamFrame)

/-! ### Condition -/

/-- A payload that `UserGateInterrupt` accepts. -/
def GatePayload.Valid (p : GatePayload) : Prop :=
  (GateType.ofText p.gateType).isSome = true ∧ p.gateId ≠ "" ∧ p.prompt ≠ ""

instance (p : GatePayload) : Decidable p.Valid := inferInstanceAs (Decidable (_ ∧ _))

/-- All gates of a list are valid and have one id. -/
structure OneGate (l : List GatePayload) : Prop where
  valid : ∀ p ∈ l, p.Valid
  same : ∀ p ∈ l, ∀ q ∈ l, p.gateId = q.gateId

instance (l : List GatePayload) : Decidable (OneGate l) :=
  decidable_of_iff ((∀ p ∈ l, p.Valid) ∧ ∀ p ∈ l, ∀ q ∈ l, p.gateId = q.gateId)
    ⟨fun h => ⟨h.1, h.2⟩, fun h => ⟨h.valid, h.same⟩⟩

/-- When the turn is reported as completed, nothing that the mount looks at first stands before the gates. -/
def World.Open (w : World) : Mount → Prop
  | .chat =>
    w.browserBlocked = false ∧ w.recoveryCancelled = false ∧ w.finalPersisted = false ∧ w.publishedArtifacts = [] ∧
      w.lastText = none
  | .resume => w.gateResumeFailed = none
  | .workshop .. => False

instance (w : World) : (m : Mount) → Decidable (w.Open m)
  | .chat => inferInstanceAs (Decidable (_ ∧ _))
  | .resume => inferInstanceAs (Decidable (_ = _))
  | .workshop .. => inferInstanceAs (Decidable False)

/-- An event after the stop that leaves the engine in its loop. -/
def World.Passes (w : World) : AgentEvent → Prop
  | .modelStepFinished .. => w.exceeded = false
  | .toolFinished .. => w.toolAction = .continue_
  | .turnFailed .. => False
  | _ => True

instance (w : World) : (e : AgentEvent) → Decidable (w.Passes e)
  | .modelStepFinished .. => inferInstanceAs (Decidable (_ = _))
  | .toolFinished .. => inferInstanceAs (Decidable (_ = _))
  | .turnFailed .. => inferInstanceAs (Decidable False)
  | .modelToken .. | .toolStarted .. | .turnCompleted .. => inferInstanceAs (Decidable True)

/-- The stores that are needed to show and store the gates can be reached. -/
structure World.Reachable (w : World) : Prop where
  checkpoint : .checkpoint ∉ w.down
  redis : .redis ∉ w.down
  database : .database ∉ w.down ∨ w.unmatchedCalls = []

instance (w : World) : Decidable w.Reachable :=
  decidable_of_iff (.checkpoint ∉ w.down ∧ .redis ∉ w.down ∧ (.database ∉ w.down ∨ w.unmatchedCalls = []))
    ⟨fun h => ⟨h.1, h.2.1, h.2.2⟩, fun h => ⟨h.checkpoint, h.redis, h.database⟩⟩

/-- What the engine finds at its next part, after the stop. -/
def State.Ready (s : State) : Pc → Prop
  | .completing .. =>
    s.turn.mount = .chat → .checkpoint ∈ s.world.down → HasAnswer s.run.toRunState s.world
  | .reporting .. => s.world.Reachable ∧ s.world.Open s.turn.mount
  | _ => True

instance (s : State) : (pc : Pc) → Decidable (s.Ready pc)
  | .completing .. => inferInstanceAs (Decidable (_ → _ → _))
  | .reporting .. => inferInstanceAs (Decidable (_ ∧ _))
  | .looping | .settling .. | .afterLoop | .finishing | .closing | .over => inferInstanceAs (Decidable True)

/-- The completion of the turn is not yet reported. -/
def Pc.isOpen : Pc → Bool
  | looping | completing .. | reporting .. => true
  | _ => false

/-- The condition on a step. -/
def Safe (s : State) : Action → Prop
  | .commit interrupts _ =>
    gatesOf interrupts ≠ [] → s.pc.isOpen = true ∧ s.turn.mount.isWorkshop = false ∧ OneGate (gatesOf interrupts) ∧
      s.world.cancelled = false ∧ s.world.observationSnapshot = true
  | .background b => s.stoppedAt ≠ [] → b ≠ .cancel ∧ b ≠ .expireSnapshot
  | .event e => s.stoppedAt ≠ [] → s.world.timedOut = false ∧ s.world.Passes e
  | .complete .. => s.stoppedAt ≠ [] → s.world.timedOut = false
  | .endStream _ => s.stoppedAt = []
  | .advance => s.stoppedAt ≠ [] → s.Ready s.pc
  | .pump => True
  | .close => True

instance (s : State) : (a : Action) → Decidable (Safe s a)
  | .commit .. | .background _ | .event _ | .complete .. | .advance => inferInstanceAs (Decidable (_ → _))
  | .endStream _ => inferInstanceAs (Decidable (_ = _))
  | .pump | .close => inferInstanceAs (Decidable True)

/-! ### Emission -/

theorem parse_valid {p : GatePayload} (h : p.Valid) :
    ∃ g, parseUserGateInterrupt (.gate p) = .ok (some g) ∧ g.gateId.1 = p.gateId := by
  obtain ⟨t, ht⟩ := Option.isSome_iff_exists.1 h.1
  exact ⟨_, by rw [parseUserGateInterrupt, ht]; exact dif_pos h.2, rfl⟩

theorem exec_call {n : StoreName} {w : World} (h : n ∉ w.down) : exec (call n) w = (.ok (), w) := by
  rw [call, exec_bind_ok _ exec_get, if_neg h]
  rfl

theorem exec_agetState {w : World} (h : .checkpoint ∉ w.down) : exec agetState w = (.ok w.interrupts, w) := by
  rw [agetState, exec_bind_ok _ (exec_call h)]
  rfl

theorem anyGate_valid {l : List InterruptValue} (h : ∀ p ∈ gatesOf l, p.Valid) :
    anyGate l = .ok (decide (gatesOf l ≠ [])) := by
  induction l with
  | nil => rfl
  | cons v l ih =>
    cases v with
    | gate p =>
      obtain ⟨g, hg, -⟩ := parse_valid (h p (List.mem_cons_self ..))
      rw [anyGate, hg]
      simp [gatesOf]
    | upgradeInvite i => exact ih h
    | toolApproval actions => exact ih h

/-- The stored record names the turn and one of the gates. -/
def Names (t : TurnInfo) (l : List GatePayload) (r : Option RawGate) : Prop :=
  ∃ p ∈ l, ∃ g : GatePending, r = some (.object (dump g)) ∧ g.turnId = t.turnId ∧ g.gateId.1 = p.gateId

/-- The frames for the gates. -/
def frames (l : List GatePayload) : List StreamFrame :=
  l.map fun p => .userGateRequired p.gateId

theorem exec_emit (f : StreamFrame) (w : World) : exec (emit f) w = (.ok (), { w with out := w.out ++ [f] }) := rfl

theorem exec_setGatePending {t : TurnInfo} {w : World} (g : UserGateInterrupt) (h : .redis ∉ w.down) :
    exec (setGatePending t g) w = (.ok (), { w with gatePending := some (.object (dump (pendingRecord t g))) }) := by
  rw [setGatePending, exec_bind_ok _ (exec_call h)]
  rfl

theorem exec_emitGates {t : TurnInfo} {l : List InterruptValue} {w : World} (h : ∀ p ∈ gatesOf l, p.Valid)
    (hr : .redis ∉ w.down) : ∃ r, (gatesOf l = [] ∧ r = w.gatePending ∨ Names t (gatesOf l) r) ∧
      exec (emitGates t l) w =
        (.ok (decide (gatesOf l ≠ [])), { w with out := w.out ++ frames (gatesOf l), gatePending := r }) := by
  induction l generalizing w with
  | nil => exact ⟨w.gatePending, .inl ⟨rfl, rfl⟩, by simp [emitGates, gatesOf, frames]⟩
  | cons v l ih =>
    cases v with
    | gate p =>
      obtain ⟨g, hg, hid⟩ := parse_valid (h p (List.mem_cons_self ..))
      obtain ⟨r, hr', he⟩ := ih (w := { w with
        out := w.out ++ [.userGateRequired g.gateId]
        gatePending := some (.object (dump (pendingRecord t g))) }) (fun q hq => h q (List.mem_cons_of_mem _ hq)) hr
      refine ⟨r, .inr ?_, ?_⟩
      · rcases hr' with ⟨-, rfl⟩ | ⟨q, hq, hn⟩
        · exact ⟨p, List.mem_cons_self .., _, rfl, rfl, hid⟩
        · exact ⟨q, List.mem_cons_of_mem _ hq, hn⟩
      · have hs := exec_setGatePending (t := t) (w := { w with out := w.out ++ [.userGateRequired g.gateId] }) g hr
        rw [emitGates, hg, exec_bind_ok _ (exec_orRaise _)]
        dsimp only
        rw [exec_bind_ok _ (exec_emit _ w), exec_bind_ok _ hs, exec_bind_ok _ he]
        simp [gatesOf, frames, hid]
    | upgradeInvite i => exact ih h hr
    | toolApproval actions => exact ih h hr

theorem collectGates_valid {l : List InterruptValue} (h : ∀ p ∈ gatesOf l, p.Valid) :
    ∃ gs, collectGates l = .ok gs := by
  induction l with
  | nil => exact ⟨[], rfl⟩
  | cons v l ih =>
    cases v with
    | gate p =>
      obtain ⟨g, hg, -⟩ := parse_valid (h p (List.mem_cons_self ..))
      obtain ⟨gs, hgs⟩ := ih fun q hq => h q (List.mem_cons_of_mem _ hq)
      exact ⟨_, by rw [collectGates, hg, hgs]; rfl⟩
    | upgradeInvite i | toolApproval actions =>
      obtain ⟨gs, hgs⟩ := ih h
      exact ⟨_, by rw [collectGates, hgs]; rfl⟩

theorem exec_persistRows {w : World} (rows : List (String × String)) (h : .database ∉ w.down) :
    exec (persistRows rows) w = (.ok (), { w with suspended := w.suspended ++ rows }) := by
  induction rows generalizing w with
  | nil => simp [persistRows]
  | cons row rows ih =>
    have hi := ih (w := { w with suspended := w.suspended ++ [row] }) h
    rw [persistRows, exec_bind_ok _ (exec_call h), exec_bind_ok _ (exec_modify _), hi]
    simp

theorem exec_persistGateSuspendToolResults {w : World} (hr : w.Reachable) (h : ∀ p ∈ gatesOf w.interrupts, p.Valid) :
    ∃ rows, exec persistGateSuspendToolResults w = (.ok (), { w with suspended := rows }) := by
  obtain ⟨gs, hgs⟩ := collectGates_valid h
  have hp : ∃ rows, exec (persistRows (suspendRows gs w.unmatchedCalls)) w = (.ok (), { w with suspended := rows }) := by
    rcases hr.database with hd | hd
    · exact ⟨_, exec_persistRows _ hd⟩
    · have hs : suspendRows gs w.unmatchedCalls = [] := by rw [hd]; rfl
      rw [hs]
      exact ⟨w.suspended, rfl⟩
  obtain ⟨rows, hp⟩ := hp
  refine ⟨rows, ?_⟩
  rw [persistGateSuspendToolResults, exec_bind_ok _ (exec_agetState hr.checkpoint), hgs,
    exec_bind_ok _ (exec_orRaise _), exec_bind_ok _ exec_get, hp]

/-- From `w` to `u` the gates in the checkpoint have been shown and stored, and the turn is to be interrupted. -/
structure Suspended (t : TurnInfo) (w u : World) : Prop where
  out : u.out = w.out ++ frames (gatesOf w.interrupts)
  names : Names t (gatesOf w.interrupts) u.gatePending
  gateInterrupted : u.gateInterrupted = true
  forceInterrupted : u.forceInterrupted = true
  forceFailed : u.forceFailed = w.forceFailed
  interrupts : u.interrupts = w.interrupts
  cancelled : u.cancelled = w.cancelled
  snapshot : u.observationSnapshot = w.observationSnapshot

/-- In the world `w` the graph has stopped at valid gates, and they can be shown and stored. -/
structure Stopped (w : World) : Prop where
  reachable : w.Reachable
  gates : gatesOf w.interrupts ≠ []
  valid : ∀ p ∈ gatesOf w.interrupts, p.Valid

variable {t : TurnInfo} {w : World}

theorem exec_suspendAtGates (h : Stopped w) :
    ∃ u, exec (suspendAtGates t) w = (.ok true, u) ∧ Suspended t w u := by
  obtain ⟨r, hr, he⟩ := exec_emitGates (t := t) h.valid h.reachable.redis
  have hu : exec (emitUserGates t) w = (.ok true,
      { w with out := w.out ++ frames (gatesOf w.interrupts), gatePending := r }) := by
    rw [emitUserGates, exec_bind_ok _ (exec_agetState h.reachable.checkpoint), he, decide_eq_true h.gates]
  obtain ⟨rows, hp⟩ := exec_persistGateSuspendToolResults (w := { w with
    out := w.out ++ frames (gatesOf w.interrupts), gatePending := r, gateInterrupted := true })
    ⟨h.reachable.checkpoint, h.reachable.redis, h.reachable.database⟩ h.valid
  have hn : Names t (gatesOf w.interrupts) r := hr.resolve_left fun hr => h.gates hr.1
  refine ⟨{ w with out := w.out ++ frames (gatesOf w.interrupts), gatePending := r, gateInterrupted := true
                   suspended := rows, forceInterrupted := true }, ?_, ⟨rfl, hn, rfl, rfl, rfl, rfl, rfl, rfl⟩⟩
  rw [suspendAtGates, exec_bind_ok _ hu, exec_bind_ok _ (exec_modify _)]
  dsimp only
  rw [if_pos rfl, exec_bind_ok _ hp, exec_bind_ok _ (exec_modify _), exec_pure]

theorem exec_handleCompleted (h : Stopped w) (ho : w.Open .chat) :
    ∃ u, exec (handleCompleted t) w = (.ok (), u) ∧ Suspended t w u := by
  obtain ⟨hb, hc, hf, hp, hl⟩ := ho
  obtain ⟨u, he, hu⟩ := exec_suspendAtGates (t := t) h
  have hd : exec finalizeDeliverables w = (.ok (), w) := by
    rw [finalizeDeliverables, exec_bind_ok _ exec_get, if_pos (.inr hp)]
    rfl
  have hm : exec finalizeLastMessage w = (.ok (), w) := by
    rw [finalizeLastMessage, exec_bind_ok _ exec_get]
    simp [hf, hl]
  have hs : exec (suspendUnlessFinal t) w = (.ok true, u) := by
    have hg : exec hasPendingUserGate w = (.ok true, w) := by
      rw [hasPendingUserGate, exec_bind_ok _ (exec_agetState h.reachable.checkpoint), anyGate_valid h.valid,
        decide_eq_true h.gates, exec_orRaise]
    rw [suspendUnlessFinal, exec_bind_ok _ exec_get]
    simp only [hf, Bool.false_eq_true, if_false]
    rw [exec_bind_ok _ hg]
    exact he
  refine ⟨u, ?_, hu⟩
  rw [handleCompleted, exec_bind_ok _ exec_get]
  simp only [hb, hc, Bool.false_eq_true, or_self, if_false]
  rw [exec_bind_ok _ hd, exec_bind_ok _ hm, exec_bind_ok _ hs]
  rfl

theorem exec_handleResumed (h : Stopped w) (ho : w.Open .resume) :
    ∃ u, exec (handleResumed t) w = (.ok (), u) ∧ Suspended t w u := by
  obtain ⟨u, he, hu⟩ := exec_suspendAtGates (t := t) h
  refine ⟨u, ?_, hu⟩
  have hf : w.gateResumeFailed = none := ho
  rw [handleResumed, exec_bind_ok _ exec_get, hf]
  dsimp only
  rw [exec_bind_ok _ he]
  rfl

/-! ### Engine -/

section Engine

variable {α : Type} {r : Run World Subscriber} {k : Subscriber} {e : AgentEvent}

/-- The run finds the world `w`. -/
def At (w : World) (r : Run World Subscriber) : Prop := r.world = w

theorem exec_ask {x : Act α} {a : α} (h : exec x r.world = (.ok a, r.world)) : exec (ask x) r = (.ok a, r) := by
  rw [ask, exec_onPart, h]

theorem at_ask {x : Act α} {a : α} {E : Exn → Run World Subscriber → Prop} (h : exec x w = (.ok a, w)) :
    Triple (At w) (ask x) (fun b r => b = a ∧ At w r) E := by
  rintro r rfl
  rw [exec_ask h]
  exact ⟨rfl, rfl⟩

theorem at_broadcast {E : Exn → Run World Subscriber → Prop} (e : TurnEvent) :
    Triple (At w) (broadcast e) (fun _ => At w) E :=
  triple_modify fun _ hr => hr

theorem at_putAnswers {E : Exn → Run World Subscriber → Prop} (step : Nat) (l : List String) :
    Triple (At w) (putAnswers step l) (fun _ => At w) E := by
  induction l with
  | nil => exact triple_pure fun _ hr => hr
  | cons text l ih =>
    have hp : Triple (At w) (putAnswer step text) (fun _ => At w) E :=
      Triple.bind (triple_modify fun _ hr => hr) fun _ => at_broadcast _
    exact Triple.bind hp fun _ => ih

/-- Nobody does anything about a failed turn. -/
theorem exec_handle_turnFailed (k : Subscriber) (error : String) (errorClass : Option String) (step : Option Nat)
    (w : World) : exec (handle t k (.turnFailed error errorClass step)) w = (.ok (), w) := by
  cases k <;> rfl

theorem meet_turnFailed (l : List Subscriber) (error : String) (errorClass : Option String) (step : Option Nat)
    (w : World) : ((surroundings t).meet (.turnFailed error errorClass step) l w).2 = (.ok (), w) := by
  induction l with
  | nil => rfl
  | cons k l ih =>
    have hk := exec_handle_turnFailed (t := t) k error errorClass step w
    rw [Surroundings.meet]
    split
    · change exec ((surroundings t).handle k _) w = _ at hk
      rw [hk]
      exact ih
    · exact ih

theorem at_fail {E : Exn → Run World Subscriber → Prop} (error : String) (errorClass : Option String)
    (step : Option Nat) : Triple (At w) (fail (surroundings t) error errorClass step) (fun _ => At w) E := by
  refine triple_get_bind fun s => Triple.ite (fun _ => triple_pure fun _ hr => hr.1) fun _ => ?_
  refine Triple.bind (Q := fun _ => At w) (triple_modify fun _ hr => hr.1) fun _ => ?_
  rintro r rfl
  rw [barrier, exec_bind_ok _ exec_get, exec_bind_ok _ (exec_modify _), meet_turnFailed, exec_orRaise]
  rfl

theorem at_broadcastInvalidToolCalls {E : Exn → Run World Subscriber → Prop} (step : Nat)
    (l : List InvalidToolCall) :
    Triple (At w) (broadcastInvalidToolCalls (surroundings t) step l) (fun _ => At w) E := by
  induction l with
  | nil => exact triple_pure fun _ hr => hr
  | cons c l ih => exact Triple.bind (at_broadcast _) fun _ => Triple.bind (at_broadcast _) fun _ => ih

/-- A call of a hook that neither publishes nor writes. -/
theorem exec_callHook {f : RecoveryHook World → RunState → World → HookCall × World} {o : Option TerminatedBy}
    (h : ∀ x, t.mount.recoveryHook = some x → f x r.toRunState r.world = (⟨[], .ok o⟩, r.world))
    (hn : t.mount.recoveryHook = none → o = none) : exec (callHook (surroundings t) f) r = (.ok o, r) := by
  rw [callHook, exec_bind_ok _ exec_get]
  cases hx : t.mount.recoveryHook with
  | none =>
    have hs : (surroundings t).recoveryHook = none := hx
    rw [hs, hn hx]
    rfl
  | some x =>
    have hs : (surroundings t).recoveryHook = some x := hx
    rw [hs]
    dsimp only
    rw [h x hx, exec_bind_ok _ (exec_modify _)]
    rfl

theorem exec_afterModelStep (step : Nat) (m : AiMessage) (l : List InvalidToolCall) :
    exec (callHook (surroundings t) fun h => h.afterModelStep step m l) r = (.ok none, r) := by
  refine exec_callHook (fun x hx => ?_) fun _ => rfl
  cases hm : t.mount with
  | chat | resume =>
    rw [hm, Mount.recoveryHook, Option.some.injEq] at hx
    subst hx
    rfl
  | workshop p i o b =>
    rw [hm, Mount.recoveryHook] at hx
    cases hx

theorem at_backfillStepAnswer {E : Exn → Run World Subscriber → Prop} (step : Nat) (m : AiMessage) :
    Triple (At w) (backfillStepAnswer step m) (fun _ => At w) E := by
  refine triple_get_bind fun s => ?_
  refine Triple.ite (fun _ => ?_) fun _ => ?_
  · exact triple_pure fun _ hr => hr.1
  · exact (at_putAnswers _ _).pre fun _ hr => hr.1

theorem at_afterModelStep {E : Exn → Run World Subscriber → Prop} (step : Nat) (m : AiMessage)
    (l : List InvalidToolCall) : Triple (At w) (callHook (surroundings t) fun h => h.afterModelStep step m l)
      (fun o r => o = none ∧ At w r) E := by
  intro r hr
  rw [exec_afterModelStep step m l]
  exact ⟨rfl, hr⟩

theorem at_finishModelStep {E : Exn → Run World Subscriber → Prop} (step : Nat) (m : AiMessage)
    (l : List InvalidToolCall) : Triple (At w) (finishModelStep (surroundings t) step m l)
      (fun a r => a = .continue_ none ∧ At w r) E := by
  refine Triple.bind (at_afterModelStep step m l) fun o => triple_assume fun ho => ?_
  rw [ho]
  exact Triple.bind (at_backfillStepAnswer step m) fun _ => triple_pure fun _ hr => ⟨rfl, hr⟩

/-- What is left of an event: the world as it was, and the loop goes on if the event passes. -/
def Dispatched (w : World) (e : AgentEvent) (a : HandlerResult) (r : Run World Subscriber) : Prop :=
  (w.Passes e → ∃ b, a = .continue_ b) ∧ At w r

theorem dispatched_continue {E : Exn → Run World Subscriber → Prop} (b : Option TerminatedBy) :
    Triple (At w) (pure (.continue_ b)) (Dispatched w e) E :=
  triple_pure fun _ hr => ⟨fun _ => ⟨b, rfl⟩, hr⟩

/-- By the cases of the event: those that do not complete the turn only give commands to the bus. -/
theorem at_dispatch (he : isCompletion e = false) :
    Triple (At w) (dispatch (surroundings t) e) (Dispatched w e) fun _ _ => False := by
  cases e with
  | modelToken step channel text =>
    refine Triple.bind (Q := fun _ => At w) (Triple.ite (fun _ => ?_) fun _ => triple_pure fun _ hr => hr) fun _ =>
      Triple.bind (at_broadcast _) fun _ => dispatched_continue _
    exact triple_modify fun _ hr => hr
  | toolStarted step callId toolName toolArgs => exact Triple.bind (at_broadcast _) fun _ => dispatched_continue _
  | modelStepFinished step m l =>
    have hf : Triple (At w) (finishModelStep (surroundings t) step m l)
        (Dispatched w (.modelStepFinished step m l)) fun _ _ => False :=
      (at_finishModelStep step m l).post fun a r h => ⟨fun _ => ⟨none, h.1⟩, h.2⟩
    refine Triple.bind (at_ask rfl) fun _ => triple_assume fun _ => ?_
    refine Triple.bind (at_broadcast _) fun _ => ?_
    refine Triple.bind (at_ask (a := w.exceeded) rfl) fun x => triple_assume fun hx => ?_
    refine Triple.ite (fun hy => triple_pure fun r hr => ⟨fun hp => ?_, hr⟩) fun _ => ?_
    · have hp : w.exceeded = false := hp
      rw [hx, hp] at hy
      cases hy
    · refine Triple.bind (Triple.ite (fun _ => at_broadcastInvalidToolCalls step l)
        fun _ => triple_pure fun _ hr => hr) fun _ => ?_
      cases l with
      | nil => exact hf
      | cons c l => exact Triple.ite (fun hn => absurd rfl hn.2) fun _ => hf
  | toolFinished step callId toolName toolArgs toolResult toolError errorClass =>
    refine Triple.bind (at_broadcast _) fun _ => ?_
    refine Triple.bind (Q := fun _ => At w) (triple_modify fun _ hr => hr) fun _ => ?_
    refine Triple.bind (at_ask (a := w.toolAction) rfl) fun x => triple_assume fun hx => ?_
    have hno : ∀ b r, x ≠ .continue_ → At w r →
        Dispatched w (.toolFinished step callId toolName toolArgs toolResult toolError errorClass) (.break_ b) r :=
      fun b r hne hr => ⟨fun hp => absurd (hx.trans hp) hne, hr⟩
    cases x with
    | continue_ => exact dispatched_continue _
    | browserBlocked => exact triple_pure fun r hr => hno _ r nofun hr
    | stopTurn =>
      refine Triple.bind (at_ask (a := w.stopReason) rfl) fun _ => triple_assume fun _ => ?_
      exact triple_pure fun r hr => hno _ r nofun hr
  | turnFailed step error errorClass =>
    exact Triple.bind (at_fail _ _ _) fun _ => triple_pure fun _ hr => ⟨fun hp => hp.elim, hr⟩
  | turnCompleted step messages => cases he

/-! ### The completion -/

/-- A barrier that one subscriber meets. -/
theorem exec_barrier {S : Surroundings World Subscriber} {u : World} {e : TurnEvent} (hs : S.subscribers = [k])
    (hb : S.barrierEvents k e.kind = true) (hh : exec (S.handle k e) r.world = (.ok (), u)) :
    ∃ ops, exec (barrier S e) r = (.ok (), { r with world := u, ops := ops }) := by
  have hm : S.meet e S.subscribers r.world = ([k], .ok (), u) := by
    rw [hs, Surroundings.meet, if_pos hb, hh]
    rfl
  refine ⟨r.ops ++ [.barrier e (reachedBy e [k])], ?_⟩
  rw [barrier, exec_bind_ok _ exec_get, exec_bind_ok _ (exec_modify _), hm, exec_orRaise]

/-- The persistence subscriber of a chat turn or a resumed turn. -/
theorem exec_handle_turnCompleted (hw : Stopped w) (ho : w.Open t.mount) (messages : List Message) (text : String)
    (n : Nat) : ∃ k u, t.mount.subscribers = [k] ∧ TurnEventKind.turnCompleted ∈ barrierEvents k ∧
      exec (handle t k (.turnCompleted messages text n)) w = (.ok (), u) ∧ Suspended t w u := by
  cases hm : t.mount with
  | chat =>
    obtain ⟨u, he, hu⟩ := exec_handleCompleted (t := t) hw (hm ▸ ho)
    exact ⟨.chatPersistence, u, rfl, by decide, he, hu⟩
  | resume =>
    obtain ⟨u, he, hu⟩ := exec_handleResumed (t := t) hw (hm ▸ ho)
    exact ⟨.chatResume, u, rfl, by decide, he, hu⟩
  | workshop p i o b =>
    rw [hm] at ho
    exact ho.elim

theorem exec_reportCompleted (hw : Stopped r.world) (ho : r.world.Open t.mount) (messages : List Message) :
    ∃ s, exec (reportCompleted (surroundings t) messages) r = (.ok (), s) ∧ Suspended t r.world s.world := by
  obtain ⟨k, u, hs, hk, he, hu⟩ :=
    exec_handle_turnCompleted hw ho messages (String.join r.answerParts) r.toolCallsCount
  obtain ⟨ops, hb⟩ := exec_barrier (S := surroundings t) (r := r)
    (e := .turnCompleted messages (String.join r.answerParts) r.toolCallsCount) hs (decide_eq_true hk) he
  refine ⟨{ r with world := u, ops := ops ++
    [.broadcast (.turnCompleted messages (String.join r.answerParts) r.toolCallsCount)] }, ?_, hu⟩
  rw [reportCompleted, exec_bind_ok _ exec_get, exec_bind_ok _ hb]
  rfl

/-- The world makes the engine settle for an interrupted turn. -/
structure Forced (m : Mount) (w : World) : Prop where
  interrupted : w.forceInterrupted = true
  notFailed : m = .resume → w.forceFailed = none

theorem exec_settle (hm : t.mount.isWorkshop = false) (hw : Forced t.mount r.world) (step : Nat)
    (interrupted : Bool) : ∃ s, exec (settle (surroundings t) step interrupted) r = (.ok .return_, s) ∧
      s.world = r.world ∧ s.terminatedBy = .interrupted := by
  refine ⟨{ r with terminatedBy := .interrupted }, ?_, rfl, rfl⟩
  cases interrupted with
  | true => rfl
  | false =>
    have hf : (surroundings t).recoveryHook.bind (fun h => h.forceFailed r.world) = none := by
      change t.mount.recoveryHook.bind _ = _
      cases ht : t.mount with
      | chat => rfl
      | resume => exact hw.notFailed ht
      | workshop p i o b => rfl
    have hi : ((surroundings t).recoveryHook.any fun h => h.forceInterrupted r.world) = true := by
      change t.mount.recoveryHook.any _ = _
      cases ht : t.mount with
      | chat | resume => exact hw.interrupted
      | workshop p i o b =>
        rw [ht] at hm
        cases hm
    rw [settle, if_neg (by decide), settleCompleted]
    simp only [bind_assoc]
    rw [exec_bind_ok _ exec_get, hf]
    dsimp only
    rw [if_pos hi]
    rfl

/-- An engine that goes on after a resumed turn has completed has found no failure in the control hook. -/
theorem at_settle (hm : t.mount = .resume) (step : Nat) (interrupted : Bool) :
    Triple (At w) (settle (surroundings t) step interrupted) (fun n r => n = .goOn → r.world.forceFailed = none)
      fun _ _ => True := by
  cases interrupted with
  | true =>
    refine Triple.bind (Q := fun _ _ => True) (triple_modify fun _ _ => trivial) fun _ => ?_
    exact Triple.bind (Q := fun _ _ => True) (triple_modify fun _ _ => trivial) fun _ => triple_pure fun _ _ => nofun
  | false =>
    have hf : ∀ a, Triple (fun r => ∀ b, a = .continue_ b → r.world.forceFailed = none) (follow a)
        (fun n r => n = .goOn → r.world.forceFailed = none) fun (_ : Exn) (_ : Run World Subscriber) => True := by
      intro a
      cases a with
      | continue_ b => exact triple_pure fun r hr _ => hr b rfl
      | break_ b | return_ b =>
        exact Triple.bind (Q := fun _ _ => True) (triple_modify fun _ _ => trivial) fun _ => triple_pure fun _ _ => nofun
    refine Triple.bind ?_ hf
    refine triple_get_bind fun s => ?_
    have hs : (surroundings t).recoveryHook.bind (fun h => h.forceFailed s.world) = s.world.forceFailed := by
      change t.mount.recoveryHook.bind _ = _
      rw [hm]
      rfl
    rw [hs]
    cases hx : s.world.forceFailed with
    | some x =>
      exact Triple.bind ((at_fail _ _ _).pre fun _ h => h.1) fun _ => triple_pure fun _ _ _ => nofun
    | none =>
      have hk : ∀ r, At w r ∧ r = s → r.world.forceFailed = none := fun r hr => by rw [hr.2, hx]
      refine Triple.ite (fun _ => ?_) fun _ => ?_
      · exact Triple.bind (Q := fun _ r => r.world.forceFailed = none) (triple_modify hk) fun _ =>
          triple_pure fun _ hr _ _ => hr
      · exact Triple.bind (Q := fun _ r => r.world.forceFailed = none) (triple_modify hk) fun _ =>
          triple_pure fun _ hr _ _ => hr

/-! ### The loop and the hook -/

/-- A turn that is neither cancelled nor out of time stays in its loop. -/
theorem exec_checkLoop (hc : r.world.cancelled = false) (ht : r.world.timedOut = false) :
    exec (checkLoop (surroundings t)) r = (.ok true, r) := by
  have h₁ : exec (ask (surroundings t).cancelEvent) r = (.ok false, r) := by
    rw [← hc]
    exact exec_ask rfl
  have h₂ : exec (ask (surroundings t).checkWallClock) r = (.ok true, r) := by
    have h := exec_ask (r := r) (x := (surroundings t).checkWallClock) (a := !r.world.timedOut) rfl
    rwa [ht] at h
  rw [checkLoop, exec_bind_ok _ h₁, if_neg (by decide), exec_bind_ok _ h₂]
  rfl

theorem at_checkLoop {E : Exn → Run World Subscriber → Prop} :
    Triple (At w) (checkLoop (surroundings t)) (fun _ => At w) E := by
  refine Triple.bind (at_ask (a := w.cancelled) rfl) fun _ => triple_assume fun _ => ?_
  refine Triple.ite (fun _ => ?_) fun _ => ?_
  · exact Triple.bind (Q := fun _ => At w) (triple_modify fun _ hr => hr) fun _ => triple_pure fun _ hr => hr
  · refine Triple.bind (at_ask (a := !w.timedOut) rfl) fun _ => triple_assume fun _ => ?_
    refine Triple.ite (fun _ => ?_) fun _ => triple_pure fun _ hr => hr
    exact Triple.bind (Q := fun _ => At w) (triple_modify fun _ hr => hr) fun _ => triple_pure fun _ hr => hr

theorem at_follow {E : Exn → Run World Subscriber → Prop} (a : HandlerResult) :
    Triple (At w) (follow a) (fun _ => At w) E := by
  cases a with
  | continue_ b => exact triple_pure fun _ hr => hr
  | break_ b | return_ b =>
    exact Triple.bind (Q := fun _ => At w) (triple_modify fun _ hr => hr) fun _ => triple_pure fun _ hr => hr

theorem at_passEvent (he : isCompletion e = false) :
    Triple (At w) (passEvent (surroundings t) e) (fun _ => At w) fun _ _ => False := by
  refine Triple.bind at_checkLoop fun b => Triple.ite (fun _ => ?_) fun _ => triple_pure fun _ hr => hr
  have hd : Triple (At w) (dispatch (surroundings t) e) (fun _ => At w) fun _ _ => False :=
    (at_dispatch he).post fun _ _ h => h.2
  exact Triple.bind (Triple.bind hd at_follow) fun _ => triple_pure fun _ hr => hr

/-- An event that passes leaves the turn in its loop. -/
theorem exec_passEvent (he : isCompletion e = false) (hc : r.world.cancelled = false)
    (ht : r.world.timedOut = false) (hp : r.world.Passes e) :
    ∃ s, exec (passEvent (surroundings t) e) r = (.ok .looping, s) ∧ s.world = r.world := by
  have hd := at_dispatch (t := t) (w := r.world) he r rfl
  rcases hx : exec (dispatch (surroundings t) e) r with ⟨x | a, s⟩
  · rw [hx] at hd
    exact hd.elim
  · rw [hx] at hd
    obtain ⟨b, rfl⟩ := hd.1 hp
    refine ⟨s, ?_, hd.2⟩
    rw [passEvent, exec_bind_ok _ (exec_checkLoop hc ht), if_pos rfl, bind_assoc, exec_bind_ok _ hx]
    rfl

theorem at_backfillFinalAnswer {E : Exn → Run World Subscriber → Prop} (messages : List Message) :
    Triple (At w) (backfillFinalAnswer messages) (fun _ => At w) E := by
  refine triple_get_bind fun s => Triple.ite (fun _ => triple_pure fun _ hr => hr.1) fun _ => ?_
  split
  · exact (at_putAnswers _ _).pre fun _ hr => hr.1
  · exact triple_pure fun _ hr => hr.1

theorem at_passCompleted {E : Exn → Run World Subscriber → Prop} (step : Nat) (messages : List Message) :
    Triple (At w) (passCompleted (surroundings t) step messages) (fun _ => At w) E := by
  refine Triple.bind at_checkLoop fun b => Triple.ite (fun _ => ?_) fun _ => triple_pure fun _ hr => hr
  exact Triple.bind (at_backfillFinalAnswer messages) fun _ => triple_pure fun _ hr => hr

theorem exec_passCompleted (hc : r.world.cancelled = false) (ht : r.world.timedOut = false) (step : Nat)
    (messages : List Message) : ∃ s, exec (passCompleted (surroundings t) step messages) r =
      (.ok (.completing step messages), s) ∧ s.world = r.world := by
  have hb := at_backfillFinalAnswer (w := r.world) (E := fun _ _ => False) messages r rfl
  rcases hx : exec (backfillFinalAnswer messages) r with ⟨x | a, s⟩
  · rw [hx] at hb
    exact hb.elim
  · rw [hx] at hb
    refine ⟨s, ?_, hb⟩
    rw [passCompleted, exec_bind_ok _ (exec_checkLoop hc ht), if_pos rfl, exec_bind_ok _ hx, exec_pure]

/-- The chat hook attempts no recovery where the graph has stopped at a gate. -/
theorem beforeComplete_stopped {s : RunState} (hn : .checkpoint ∈ w.down → HasAnswer s w)
    (hv : ∀ p ∈ gatesOf w.interrupts, p.Valid) (hg : gatesOf w.interrupts ≠ []) :
    ∃ o, (o = none ∨ o = some .interrupted) ∧ beforeComplete s w = (⟨[], .ok o⟩, w) := by
  by_cases hf : HasAnswer s w
  · refine ⟨none, .inl rfl, ?_⟩
    have hb : exec (beforeAttempt s) w = (.ok (some none), w) := by
      rw [beforeAttempt, exec_bind_ok _ exec_get, if_pos hf, exec_pure]
    rw [beforeComplete, hb]
  · refine ⟨some .interrupted, .inr rfl, ?_⟩
    have hp : exec hasPendingUserGate w = (.ok true, w) := by
      rw [hasPendingUserGate, exec_bind_ok _ (exec_agetState (mt hn hf)), anyGate_valid hv, decide_eq_true hg,
        exec_orRaise]
    have hb : exec (beforeAttempt s) w = (.ok (some (some .interrupted)), w) := by
      rw [beforeAttempt, exec_bind_ok _ exec_get, if_neg hf, exec_bind_ok _ hp]
      rfl
    rw [beforeComplete, hb]

/-- Where the graph has stopped at a gate the hook lets the completion be reported. -/
theorem exec_askHook (hm : t.mount.isWorkshop = false)
    (hn : t.mount = .chat → .checkpoint ∈ r.world.down → HasAnswer r.toRunState r.world)
    (hv : ∀ p ∈ gatesOf r.world.interrupts, p.Valid) (hg : gatesOf r.world.interrupts ≠ []) (step : Nat)
    (messages : List Message) :
    ∃ b, exec (askHook (surroundings t) step messages) r = (.ok (.reporting step messages b), r) := by
  have hc : ∃ o, (o = none ∨ o = some .interrupted) ∧
      exec (callHook (surroundings t) fun h => h.beforeComplete step messages) r = (.ok o, r) := by
    cases ht : t.mount with
    | chat =>
      obtain ⟨o, ho, he⟩ := beforeComplete_stopped (hn ht) hv hg
      refine ⟨o, ho, exec_callHook (fun x hx => ?_) fun hx => ?_⟩
      · rw [ht, Mount.recoveryHook, Option.some.injEq] at hx
        subst hx
        exact he
      · rw [ht] at hx
        cases hx
    | resume =>
      refine ⟨none, .inl rfl, exec_callHook (fun x hx => ?_) fun _ => rfl⟩
      rw [ht, Mount.recoveryHook, Option.some.injEq] at hx
      subst hx
      rfl
    | workshop p i o b =>
      rw [ht] at hm
      cases hm
  obtain ⟨o, ho, he⟩ := hc
  rcases ho with rfl | rfl
  · exact ⟨false, by rw [askHook, bind_assoc, exec_bind_ok _ he]; rfl⟩
  · exact ⟨true, by rw [askHook, bind_assoc, exec_bind_ok _ he]; rfl⟩

/-- The control hook of a resumed turn has no say before the completion. -/
theorem exec_askHook_resume (ht : t.mount = .resume) (step : Nat) (messages : List Message) :
    exec (askHook (surroundings t) step messages) r = (.ok (.reporting step messages false), r) := by
  have he : exec (callHook (surroundings t) fun h => h.beforeComplete step messages) r = (.ok none, r) := by
    refine exec_callHook (fun x hx => ?_) fun _ => rfl
    rw [ht, Mount.recoveryHook, Option.some.injEq] at hx
    subst hx
    rfl
  rw [askHook, bind_assoc, exec_bind_ok _ he]
  rfl

/-- The end of an interrupted turn repairs nothing. -/
theorem exec_finishTurn (h : r.terminatedBy = .interrupted) :
    ∃ s, exec (finishTurn (surroundings t)) r = (.ok (), s) ∧ s.world = r.world ∧ s.terminatedBy = .interrupted := by
  refine ⟨{ r with ops := r.ops ++ [.broadcast (.turnEnded r.terminatedBy r.failedEmitted)] }, ?_, rfl, h⟩
  have hi : ¬ (r.agentStarted ∧ r.terminatedBy ≠ .completed ∧ r.terminatedBy ≠ .interrupted) := fun hx => hx.2.2 h
  rw [finishTurn, exec_bind_ok _ exec_get, doIf_of_not hi]
  rfl

end Engine

/-! ### Invariant -/

/-- The graph has stopped at the gates `l`, whose checkpoint and snapshot are there. -/
structure AtGate (t : TurnInfo) (l : List GatePayload) (w : World) : Prop where
  mount : t.mount.isWorkshop = false
  gates : gatesOf w.interrupts = l
  one : OneGate l
  notCancelled : w.cancelled = false
  snapshot : w.observationSnapshot = true

/-- The gates `l` are shown, in the log or on their way to it, and stored. -/
structure Stored (t : TurnInfo) (l : List GatePayload) (log : List StreamFrame) (w : World) : Prop where
  shown : ∀ p ∈ l, .userGateRequired p.gateId ∈ log ++ w.out
  names : Names t l w.gatePending
  gateInterrupted : w.gateInterrupted = true

/-- How far a turn that has stopped at a gate has come. -/
def State.Progress (s : State) : Pc → Prop
  | .looping | .completing .. | .reporting .. => True
  | .settling .. => Stored s.turn s.stoppedAt s.log s.world ∧ Forced s.turn.mount s.world
  | .afterLoop => False
  | .finishing | .closing => Stored s.turn s.stoppedAt s.log s.world ∧ s.run.terminatedBy = .interrupted
  | .over =>
    Stored s.turn s.stoppedAt s.log s.world ∧ s.run.terminatedBy = .interrupted ∧ s.world.out = []

structure Inv (s : State) : Prop where
  unfailed : s.pc.isOpen = true → s.turn.mount = .resume → s.world.forceFailed = none
  held : s.stoppedAt ≠ [] → AtGate s.turn s.stoppedAt s.world ∧ s.Progress s.pc

theorem AtGate.congr {l : List GatePayload} {u : World} (h : AtGate t l w) (hi : u.interrupts = w.interrupts)
    (hc : u.cancelled = w.cancelled) (hs : u.observationSnapshot = w.observationSnapshot) : AtGate t l u :=
  ⟨h.mount, hi ▸ h.gates, h.one, hc ▸ h.notCancelled, hs ▸ h.snapshot⟩

theorem AtGate.stopped {l : List GatePayload} (h : AtGate t l w) (hl : l ≠ []) (hr : w.Reachable) : Stopped w :=
  ⟨hr, h.gates ▸ hl, h.gates ▸ h.one.valid⟩

theorem Suspended.stored {l : List GatePayload} {u : World} (h : Suspended t w u) (hg : gatesOf w.interrupts = l)
    (log : List StreamFrame) : Stored t l log u where
  shown p hp := by
    have hf : StreamFrame.userGateRequired p.gateId ∈ frames l := List.mem_map.2 ⟨p, hp, rfl⟩
    rw [h.out, hg]
    exact List.mem_append_right _ (List.mem_append_right _ hf)
  names := hg ▸ h.names
  gateInterrupted := h.gateInterrupted

/-- What is stored of the gates does not depend on the rest of the world. -/
theorem Stored.congr {l : List GatePayload} {log : List StreamFrame} {u : World} (h : Stored t l log w)
    (ho : u.out = w.out) (hg : u.gatePending = w.gatePending) (hi : u.gateInterrupted = w.gateInterrupted) :
    Stored t l log u :=
  ⟨ho ▸ h.shown, hg ▸ h.names, hi ▸ h.gateInterrupted⟩

/-- A turn whose loop still runs has stored nothing yet. -/
theorem progress_open {s : State} {pc : Pc} (h : pc.isOpen = true) : s.Progress pc := by
  cases pc with
  | looping | completing _ _ | reporting _ _ _ => trivial
  | _ => cases h

/-- How far a turn has come survives what keeps the stored gates and the flags of the hook. -/
theorem State.Progress.congr {s u : State} {pc : Pc} (h : s.Progress pc) (hov : pc ≠ .over)
    (hs : Stored s.turn s.stoppedAt s.log s.world → Stored u.turn u.stoppedAt u.log u.world)
    (hf : Forced s.turn.mount s.world → Forced u.turn.mount u.world)
    (ht : u.run.terminatedBy = s.run.terminatedBy) : u.Progress pc := by
  cases pc with
  | looping | completing _ _ | reporting _ _ _ => trivial
  | settling _ _ => exact ⟨hs h.1, hf h.2⟩
  | afterLoop => exact h
  | finishing | closing => exact ⟨hs h.1, ht.trans h.2⟩
  | _ => exact absurd rfl hov

theorem perform_ok {s : State} {x : Handler (Run World Subscriber) Exn Pc} {pc : Pc} {r : Run World Subscriber}
    (h : exec x s.run = (.ok pc, r)) : s.perform x = { s with run := r, pc } := by
  rw [State.perform, h]

/-- A part of the engine that returns, and where the machine is then. -/
theorem perform_then {α : Type} {s : State} {x : Handler (Run World Subscriber) Exn α} {a : α}
    {r : Run World Subscriber} (h : exec x s.run = (.ok a, r)) (f : α → Pc) :
    s.perform (x >>= fun a => pure (f a)) = { s with run := r, pc := f a } := by
  have hx := exec_bind_ok (fun a => pure (f a)) h
  rw [exec_pure] at hx
  exact perform_ok hx

/-- Nothing but the graph changes the gates that it has stopped at. -/
theorem perform_stoppedAt (s : State) (x : Handler (Run World Subscriber) Exn Pc) :
    (s.perform x).stoppedAt = s.stoppedAt ∧ (s.perform x).turn = s.turn := by
  rw [State.perform]
  split <;> exact ⟨rfl, rfl⟩

/-- What the rest of the world, once it is set, leaves of the invariant. -/
theorem apply_kept (b : Background) (w : World) :
    (b.apply w).interrupts = w.interrupts ∧ (b.apply w).out = w.out ∧ (b.apply w).gatePending = w.gatePending ∧
      (b.apply w).gateInterrupted = w.gateInterrupted ∧ (b.apply w).forceInterrupted = w.forceInterrupted ∧
      (b.apply w).forceFailed = w.forceFailed := by
  cases b <;> exact ⟨rfl, rfl, rfl, rfl, rfl, rfl⟩

theorem apply_gate {b : Background} (hc : b ≠ .cancel) (hs : b ≠ .expireSnapshot) (w : World) :
    (b.apply w).cancelled = w.cancelled ∧ (b.apply w).observationSnapshot = w.observationSnapshot := by
  cases b with
  | cancel => exact absurd rfl hc
  | expireSnapshot => exact absurd rfl hs
  | _ => exact ⟨rfl, rfl⟩

/-! ### Steps -/

section Steps

variable {s u : State}

theorem inv_commit {interrupts : List InterruptValue} {unmatchedCalls : List String} (hi : Inv s)
    (hC : Safe s (.commit interrupts unmatchedCalls)) (h : step s (.commit interrupts unmatchedCalls) = some u) :
    Inv u := by
  simp only [step, Option.ite_none_right_eq_some, Option.some.injEq] at h
  obtain ⟨-, rfl⟩ := h
  refine ⟨hi.unfailed, fun hl => ?_⟩
  obtain ⟨hpc, hm, ho, hc, hs⟩ := hC hl
  exact ⟨⟨hm, rfl, ho, hc, hs⟩, progress_open hpc⟩

theorem inv_background {b : Background} (hi : Inv s) (hC : Safe s (.background b))
    (h : step s (.background b) = some u) : Inv u := by
  simp only [step, Option.ite_none_right_eq_some, Option.some.injEq] at h
  obtain ⟨hov, rfl⟩ := h
  obtain ⟨k₁, k₂, k₃, k₄, k₅, k₆⟩ := apply_kept b s.world
  refine ⟨fun hp hm => k₆.trans (hi.unfailed hp hm), fun hl => ?_⟩
  obtain ⟨ha, hp⟩ := hi.held hl
  obtain ⟨g₁, g₂⟩ := apply_gate (hC hl).1 (hC hl).2 s.world
  refine ⟨ha.congr k₁ g₁ g₂, hp.congr hov (fun h => h.congr k₂ k₃ k₄) (fun h => ?_) rfl⟩
  exact ⟨k₅.trans h.interrupted, fun hm => k₆.trans (h.notFailed hm)⟩

/-- A part of the engine that leaves the world alone, and a turn that has stopped open. -/
theorem inv_perform {x : Handler (Run World Subscriber) Exn Pc} (hi : Inv s) (hpc : s.pc.isOpen = true)
    (hx : Triple (At s.world) x (fun _ => At s.world) fun _ _ => False)
    (hs : s.stoppedAt ≠ [] → ∃ pc r, exec x s.run = (.ok pc, r) ∧ pc.isOpen = true ∧ r.world = s.world) :
    Inv (s.perform x) := by
  have ht := hx s.run rfl
  rcases he : exec x s.run with ⟨e | pc, r⟩
  · rw [he] at ht
    exact ht.elim
  · rw [he] at ht
    have hw : r.world = s.world := ht
    rw [perform_ok he]
    refine ⟨fun _ hm => ?_, fun hl => ?_⟩
    · change r.world.forceFailed = none
      rw [hw]
      exact hi.unfailed hpc hm
    · obtain ⟨pc', r', he', ho, -⟩ := hs hl
      rw [he] at he'
      simp only [Prod.mk.injEq, Except.ok.injEq] at he'
      obtain ⟨rfl, rfl⟩ := he'
      exact ⟨(hi.held hl).1.congr (congrArg _ hw) (congrArg _ hw) (congrArg _ hw), progress_open ho⟩

theorem inv_event {e : AgentEvent} (hi : Inv s) (hC : Safe s (.event e)) (h : step s (.event e) = some u) :
    Inv u := by
  simp only [step, Option.ite_none_right_eq_some, Option.some.injEq] at h
  obtain ⟨⟨hpc, he⟩, rfl⟩ := h
  refine inv_perform hi (by rw [hpc]; rfl) (at_passEvent he) fun hl => ?_
  obtain ⟨r, hr, hw⟩ := exec_passEvent (t := s.turn) he (hi.held hl).1.notCancelled (hC hl).1 (hC hl).2
  exact ⟨.looping, r, hr, rfl, hw⟩

theorem inv_complete {step' : Nat} {messages : List Message} (hi : Inv s) (hC : Safe s (.complete step' messages))
    (h : step s (.complete step' messages) = some u) : Inv u := by
  simp only [step, Option.ite_none_right_eq_some, Option.some.injEq] at h
  obtain ⟨hpc, rfl⟩ := h
  refine inv_perform hi (by rw [hpc]; rfl) (at_passCompleted _ _) fun hl => ?_
  obtain ⟨r, hr, hw⟩ := exec_passCompleted (t := s.turn) (hi.held hl).1.notCancelled (hC hl) step' messages
  exact ⟨.completing step' messages, r, hr, rfl, hw⟩

/-- Where the graph has not stopped at a gate, only a failure that is set too early could break the invariant. -/
theorem inv_perform_running {x : Handler (Run World Subscriber) Exn Pc} (hl : s.stoppedAt = [])
    (h : s.turn.mount = .resume → (s.perform x).pc.isOpen = true → (s.perform x).world.forceFailed = none) :
    Inv (s.perform x) := by
  obtain ⟨hs, ht⟩ := perform_stoppedAt s x
  refine ⟨fun hp hm => h (ht ▸ hm) hp, fun hl' => ?_⟩
  rw [hs] at hl'
  exact absurd hl hl'

theorem inv_endStream {raised : Option Exn} (hC : Safe s (.endStream raised))
    (h : step s (.endStream raised) = some u) : Inv u := by
  simp only [step, Option.ite_none_right_eq_some, Option.some.injEq] at h
  obtain ⟨-, rfl⟩ := h
  refine inv_perform_running hC fun _ hp => ?_
  cases raised <;> cases hp

/-- A part of the engine that ends in `pc`, or with an exception. -/
theorem perform_closed {x : Handler (Run World Subscriber) Exn Unit} {pc : Pc} (hpc : pc.isOpen = false) :
    (s.perform (x >>= fun _ => pure pc)).pc.isOpen = false := by
  rw [State.perform]
  rcases he : exec x s.run with ⟨e | a, r⟩
  · rw [exec_bind_error _ he]
    rfl
  · rw [exec_bind_ok _ he, exec_pure]
    exact hpc

theorem inv_perform_closed {x : Handler (Run World Subscriber) Exn Unit} {pc : Pc} (hpc : pc.isOpen = false)
    (hl : s.stoppedAt = []) : Inv (s.perform (x >>= fun _ => pure pc)) := by
  refine inv_perform_running hl fun _ hp => ?_
  rw [perform_closed hpc] at hp
  cases hp

theorem inv_askHook {n : Nat} {messages : List Message} (hi : Inv s) (hpc : s.pc = .completing n messages)
    (hC : s.stoppedAt ≠ [] → s.Ready s.pc) : Inv (s.perform (askHook (surroundings s.turn) n messages)) := by
  have hopen : s.pc.isOpen = true := by rw [hpc]; rfl
  by_cases hl : s.stoppedAt = []
  · refine inv_perform_running hl fun hm _ => ?_
    rw [perform_ok (exec_askHook_resume hm n messages)]
    exact hi.unfailed hopen hm
  · obtain ⟨ha, -⟩ := hi.held hl
    have hn := hC hl
    rw [hpc] at hn
    obtain ⟨b, he⟩ := exec_askHook ha.mount hn (ha.gates ▸ ha.one.valid) (ha.gates ▸ hl) n messages
    rw [perform_ok he]
    exact ⟨fun _ hm => hi.unfailed hopen hm, fun _ => ⟨ha, trivial⟩⟩

theorem inv_report {n : Nat} {messages : List Message} {b : Bool} (hi : Inv s)
    (hpc : s.pc = .reporting n messages b) (hC : s.stoppedAt ≠ [] → s.Ready s.pc) :
    Inv (s.perform (reportCompleted (surroundings s.turn) messages >>= fun _ => pure (.settling n b))) := by
  by_cases hl : s.stoppedAt = []
  · exact inv_perform_closed rfl hl
  · obtain ⟨ha, -⟩ := hi.held hl
    have hr := hC hl
    rw [hpc] at hr
    obtain ⟨r, he, hu⟩ := exec_reportCompleted (t := s.turn) (ha.stopped hl hr.1) hr.2 messages
    rw [perform_then he]
    refine ⟨nofun, fun _ => ⟨ha.congr hu.interrupts hu.cancelled hu.snapshot, hu.stored ha.gates s.log, ?_⟩⟩
    exact ⟨hu.forceInterrupted, fun hm => hu.forceFailed.trans (hi.unfailed (by rw [hpc]; rfl) hm)⟩

theorem inv_settle {n : Nat} {b : Bool} (hi : Inv s) (hpc : s.pc = .settling n b) :
    Inv (s.perform (settle (surroundings s.turn) n b >>= fun a => pure a.pc)) := by
  by_cases hl : s.stoppedAt = []
  · refine inv_perform_running hl fun hm hp => ?_
    have ht := at_settle (w := s.world) hm n b s.run rfl
    rcases he : exec (settle (surroundings s.turn) n b) s.run with ⟨e | a, r⟩
    · have hx := exec_bind_error (fun a => pure (Next.pc a)) he
      rw [State.perform, hx] at hp
      cases hp
    · rw [he] at ht
      rw [perform_then he] at hp ⊢
      cases a with
      | goOn => exact ht rfl
      | leave | return_ => cases hp
  · obtain ⟨ha, hp⟩ := hi.held hl
    rw [hpc] at hp
    obtain ⟨r, he, hw, ht⟩ := exec_settle (t := s.turn) (r := s.run) ha.mount hp.2 n b
    rw [perform_then he]
    have hs : Stored s.turn s.stoppedAt s.log r.world := by
      rw [hw]
      exact hp.1
    refine ⟨nofun, fun _ => ⟨?_, hs, ht⟩⟩
    exact ha.congr (congrArg _ hw) (congrArg _ hw) (congrArg _ hw)

theorem inv_finish (hi : Inv s) (hpc : s.pc = .finishing) :
    Inv (s.perform (finishTurn (surroundings s.turn) >>= fun _ => pure .closing)) := by
  by_cases hl : s.stoppedAt = []
  · exact inv_perform_closed rfl hl
  · obtain ⟨ha, hp⟩ := hi.held hl
    rw [hpc] at hp
    obtain ⟨r, he, hw, ht⟩ := exec_finishTurn (t := s.turn) hp.2
    rw [perform_then he]
    have hs : Stored s.turn s.stoppedAt s.log r.world := by
      rw [hw]
      exact hp.1
    refine ⟨nofun, fun _ => ⟨?_, hs, ht⟩⟩
    exact ha.congr (congrArg _ hw) (congrArg _ hw) (congrArg _ hw)

theorem inv_advance (hi : Inv s) (hC : Safe s .advance) (h : step s .advance = some u) : Inv u := by
  simp only [step] at h
  cases hpc : s.pc with
  | completing n messages =>
    rw [hpc] at h
    obtain rfl := Option.some.inj h
    exact inv_askHook hi hpc hC
  | reporting n messages b =>
    rw [hpc] at h
    obtain rfl := Option.some.inj h
    exact inv_report hi hpc hC
  | settling n b =>
    rw [hpc] at h
    obtain rfl := Option.some.inj h
    exact inv_settle hi hpc
  | afterLoop =>
    rw [hpc] at h
    obtain rfl := Option.some.inj h
    refine inv_perform_closed rfl ?_
    by_contra hl
    have hp := (hi.held hl).2
    rw [hpc] at hp
    exact hp
  | finishing =>
    rw [hpc] at h
    obtain rfl := Option.some.inj h
    exact inv_finish hi hpc
  | _ =>
    rw [hpc] at h
    cases h

theorem inv_pump (hi : Inv s) (h : step s .pump = some u) : Inv u := by
  simp only [step] at h
  cases ho : s.world.out with
  | nil =>
    rw [ho] at h
    cases h
  | cons f l =>
    rw [ho] at h
    simp only [Option.ite_none_right_eq_some, Option.some.injEq] at h
    obtain ⟨⟨-, hov⟩, rfl⟩ := h
    refine ⟨hi.unfailed, fun hl => ?_⟩
    obtain ⟨ha, hp⟩ := hi.held hl
    refine ⟨⟨ha.mount, ha.gates, ha.one, ha.notCancelled, ha.snapshot⟩, ?_⟩
    refine hp.congr hov (fun hs => ⟨fun p hm => ?_, hs.names, hs.gateInterrupted⟩)
      (fun h => ⟨h.interrupted, h.notFailed⟩) rfl
    have hm := hs.shown p hm
    rw [ho] at hm
    change StreamFrame.userGateRequired p.gateId ∈ (s.log ++ [f]) ++ l
    simpa using hm

/-- The end of the stream of a turn that has stored its gate. -/
theorem closeTurn_gate (ht : t.mount.isWorkshop = false) (hc : w.cancelled = false)
    (hg : w.gateInterrupted = true) : closeTurn t w = w := by
  cases hm : t.mount with
  | chat => simp [closeTurn, hm, hc, hg]
  | resume => simp [closeTurn, hm, hc]
  | workshop p i o b =>
    rw [hm] at ht
    cases ht

theorem inv_close (hi : Inv s) (h : step s .close = some u) : Inv u := by
  simp only [step, Option.ite_none_right_eq_some, Option.some.injEq] at h
  obtain ⟨⟨hpc, ho⟩, rfl⟩ := h
  refine ⟨nofun, fun hl => ?_⟩
  obtain ⟨ha, hp⟩ := hi.held hl
  rw [hpc] at hp
  have hw := closeTurn_gate ha.mount ha.notCancelled hp.1.gateInterrupted
  have hout : s.world.out = [] := ho.resolve_right (by rw [ha.notCancelled]; decide)
  have hk : AtGate s.turn s.stoppedAt (closeTurn s.turn s.world) ∧
      Stored s.turn s.stoppedAt s.log (closeTurn s.turn s.world) ∧ s.run.terminatedBy = .interrupted ∧
      (closeTurn s.turn s.world).out = [] := by
    rw [hw]
    exact ⟨ha, hp.1, hp.2, hout⟩
  exact hk

end Steps

theorem inv_step (s : State) (a : Action) (u : State) (hi : Inv s) (hC : Safe s a) (h : machine.step s a = some u) :
    Inv u := by
  cases a with
  | commit interrupts unmatchedCalls => exact inv_commit hi hC h
  | background b => exact inv_background hi hC h
  | event e => exact inv_event hi hC h
  | complete n messages => exact inv_complete hi hC h
  | endStream raised => exact inv_endStream hC h
  | advance => exact inv_advance hi hC h
  | pump => exact inv_pump hi h
  | close => exact inv_close hi h

theorem inv_init (s : State) (h : machine.init s) : Inv s := by
  obtain ⟨⟨m, c, i, k⟩, w, hf, rfl⟩ := h
  refine ⟨fun _ hm => ?_, fun hl => absurd rfl hl⟩
  obtain rfl : m = .resume := hm
  exact hf.hook.2.2.2

/-! ### Runs -/

theorem inv_reach {s : State} (h : machine.Reach Safe s) : Inv s :=
  h.induct inv_init inv_step

section Workshop

variable {S : Surroundings World Subscriber} {γ : Type} {f : World → γ}

theorem leaves_checkLoop (h : S.Leaves f) : Keeps (worldPart f) (checkLoop S) := by
  refine (leaves_world (leaves_ask h.cancelEvent)).bind fun _ => Keeps.ite ?_ ?_
  · exact (leaves_setTerminatedBy _).bind fun _ => keeps_pure _
  · refine (leaves_world (leaves_ask h.checkWallClock)).bind fun _ => Keeps.ite ?_ (keeps_pure _)
    exact (leaves_setTerminatedBy _).bind fun _ => keeps_pure _

theorem leaves_follow (a : HandlerResult) :
    Keeps (worldPart f) (follow a : Handler (Run World Subscriber) Exn Next) := by
  cases a with
  | continue_ b => exact keeps_pure _
  | break_ b | return_ b => exact (leaves_noteTerminatedBy b).bind fun _ => keeps_pure _

theorem leaves_passEvent (h : S.Leaves f) (e : AgentEvent) : Keeps (worldPart f) (passEvent S e) := by
  refine (leaves_checkLoop h).bind fun _ => Keeps.ite ?_ (keeps_pure _)
  exact ((leaves_dispatch h e).bind leaves_follow).bind fun _ => keeps_pure _

theorem leaves_passCompleted (h : S.Leaves f) (step : Nat) (messages : List Message) :
    Keeps (worldPart f) (passCompleted S step messages) := by
  refine (leaves_checkLoop h).bind fun _ => Keeps.ite ?_ (keeps_pure _)
  exact (leaves_world (leaves_backfillFinalAnswer messages)).bind fun _ => keeps_pure _

theorem leaves_answerHook (h : S.Leaves f) (step : Nat) (o : Option TerminatedBy) :
    Keeps (worldPart f) (answerHook S step o) := by
  cases o with
  | none => exact keeps_pure _
  | some b =>
    cases b with
    | cancelled => exact (leaves_noteTerminatedBy _).bind fun _ => keeps_pure _
    | interrupted => exact keeps_pure _
    | _ =>
      refine (leaves_world (leaves_fail h.toLeavesMidTurn _ _ _)).bind fun _ => ?_
      exact (leaves_noteTerminatedBy _).bind fun _ => keeps_pure _

theorem leaves_askHook (h : S.Leaves f) (step : Nat) (messages : List Message) :
    Keeps (worldPart f) (askHook S step messages) := by
  have hc := leaves_world (leaves_callHook h.toLeavesMidTurn fun x hx r => hx.beforeComplete step messages r)
  refine (hc.bind (leaves_answerHook h step)).bind fun o => ?_
  cases o with
  | none => exact keeps_pure _
  | some b => exact keeps_pure _

theorem leaves_settle (h : S.Leaves f) (step : Nat) (interrupted : Bool) :
    Keeps (worldPart f) (settle S step interrupted) :=
  Keeps.ite ((leaves_setTerminatedBy _).bind fun _ => leaves_follow _)
    ((leaves_settleCompleted h step).bind leaves_follow)

theorem leaves_part (h : S.Leaves f) {pc : Pc} {x : Handler (Run World Subscriber) Exn Pc}
    (hx : part S pc = some x) : Keeps (worldPart f) x := by
  cases pc with
  | completing n messages =>
    obtain rfl := Option.some.inj hx
    exact leaves_askHook h n messages
  | reporting n messages b =>
    obtain rfl := Option.some.inj hx
    exact (leaves_world (leaves_reportCompleted h messages)).bind fun _ => keeps_pure _
  | settling n b =>
    obtain rfl := Option.some.inj hx
    exact (leaves_settle h n b).bind fun _ => keeps_pure _
  | afterLoop =>
    obtain rfl := Option.some.inj hx
    exact (leaves_afterLoop h.toLeavesMidTurn).bind fun _ => keeps_pure _
  | finishing =>
    obtain rfl := Option.some.inj hx
    exact (leaves_world (leaves_finishTurn h.toLeavesMidTurn)).bind fun _ => keeps_pure _
  | _ => cases hx

theorem keeps_call (n : StoreName) : Keeps f (call n) :=
  keeps_get.bind fun _ => Keeps.ite (keeps_throw _) (keeps_pure _)

theorem keeps_handle_workshop {t : TurnInfo} (ht : t.mount.isWorkshop = true) (k : Subscriber)
    (hk : k ∈ t.mount.subscribers) (e : TurnEvent) : Keeps World.out ((surroundings t).handle k e) := by
  cases hm : t.mount with
  | chat | resume =>
    rw [hm] at ht
    cases ht
  | workshop p i o b =>
    rw [hm] at hk
    obtain rfl : k = .workshopPersistence := by
      cases b with
      | false => cases hk
      | true => exact List.mem_singleton.1 hk
    cases e with
    | turnCompleted turnId answerText messages =>
      refine keeps_get.bind fun w => Keeps.ite (keeps_pure _) ?_
      refine Keeps.bind ?_ fun _ => keeps_modify fun _ => rfl
      exact (keeps_call _).bind fun _ => keeps_modify fun _ => rfl
    | _ => exact keeps_pure _

/-- No subscriber of the workshop mount shows a frame. -/
theorem leaves_workshop {t : TurnInfo} (ht : t.mount.isWorkshop = true) : (surroundings t).Leaves World.out where
  start _ _ := keeps_pure _
  handle k hk e _ _ _ := keeps_handle_workshop ht k hk e
  onEvent k hk e _ := keeps_handle_workshop ht k hk e
  recoveryHook x hx := by
    have hx : t.mount.recoveryHook = some x := hx
    cases hm : t.mount with
    | chat | resume =>
      rw [hm] at ht
      cases ht
    | workshop p i o b =>
      rw [hm] at hx
      cases hx
  cancelEvent := keeps_get.bind fun _ => keeps_pure _
  checkWallClock := keeps_get.bind fun _ => keeps_pure _
  onModelStepFinished := keeps_pure _
  exceededModelSteps := keeps_get.bind fun _ => keeps_pure _
  onToolFinished _ _ := keeps_get.bind fun _ => keeps_pure _
  lastStopReason := keeps_get.bind fun _ => keeps_pure _
  onTurnStartRepair := keeps_pure _
  onTurnCleanupRepair := keeps_pure _
  collectInterrupts :=
    ((keeps_call _).bind fun _ => keeps_get.bind fun _ => keeps_pure _).bind fun _ => keeps_pure _

theorem perform_leaves {s : State} {x : Handler (Run World Subscriber) Exn Pc} (h : (surroundings s.turn).Leaves f)
    (hx : Keeps (worldPart f) x) : f (s.perform x).world = f s.world ∧ (s.perform x).log = s.log := by
  have hr := hx s.run
  rw [State.perform]
  generalize exec x s.run = o at hr ⊢
  rcases o with ⟨e | pc, r⟩
  · exact ⟨(leaves_handleRunException h.toLeavesMidTurn e r).trans hr, rfl⟩
  · exact ⟨hr, rfl⟩

theorem closeTurn_workshop {t : TurnInfo} {w : World} (ht : t.mount.isWorkshop = true) : closeTurn t w = w := by
  cases hm : t.mount with
  | chat | resume =>
    rw [hm] at ht
    cases ht
  | workshop p i o b => simp [closeTurn, hm]

/-- A workshop turn shows no frame of its mount's. -/
def Silent (s : State) : Prop :=
  s.turn.mount.isWorkshop = true → s.world.out = [] ∧ s.log = []

theorem silent_perform {s : State} {x : Handler (Run World Subscriber) Exn Pc} (hi : Silent s)
    (hx : (surroundings s.turn).Leaves World.out → Keeps (worldPart World.out) x) : Silent (s.perform x) := by
  intro hm
  rw [(perform_stoppedAt s x).2] at hm
  have hw := leaves_workshop hm
  obtain ⟨ho, hl⟩ := perform_leaves hw (hx hw)
  exact ⟨ho.trans (hi hm).1, hl.trans (hi hm).2⟩

theorem silent_step (s : State) (a : Action) (u : State) (hi : Silent s) (_ : Free s a)
    (h : machine.step s a = some u) : Silent u := by
  change step s a = some u at h
  cases a with
  | commit interrupts unmatchedCalls =>
    simp only [step, Option.ite_none_right_eq_some, Option.some.injEq] at h
    obtain ⟨-, rfl⟩ := h
    exact hi
  | background b =>
    simp only [step, Option.ite_none_right_eq_some, Option.some.injEq] at h
    obtain ⟨-, rfl⟩ := h
    intro hm
    exact ⟨(apply_kept b s.world).2.1.trans (hi hm).1, (hi hm).2⟩
  | event e =>
    simp only [step, Option.ite_none_right_eq_some, Option.some.injEq] at h
    obtain ⟨-, rfl⟩ := h
    exact silent_perform hi fun hw => leaves_passEvent hw e
  | complete n messages =>
    simp only [step, Option.ite_none_right_eq_some, Option.some.injEq] at h
    obtain ⟨-, rfl⟩ := h
    exact silent_perform hi fun hw => leaves_passCompleted hw n messages
  | endStream raised =>
    simp only [step, Option.ite_none_right_eq_some, Option.some.injEq] at h
    obtain ⟨-, rfl⟩ := h
    refine silent_perform hi fun _ => ?_
    cases raised with
    | none => exact keeps_pure _
    | some x => exact keeps_throw _
  | advance =>
    obtain ⟨x, hx, rfl⟩ := Option.map_eq_some_iff.1 h
    exact silent_perform hi fun hw => leaves_part hw hx
  | pump =>
    simp only [step] at h
    split at h
    · rename_i f l ho
      simp only [Option.ite_none_right_eq_some, Option.some.injEq] at h
      obtain ⟨-, rfl⟩ := h
      intro hm
      have hout := (hi hm).1
      rw [ho] at hout
      cases hout
    · cases h
  | close =>
    simp only [step, Option.ite_none_right_eq_some, Option.some.injEq] at h
    obtain ⟨-, rfl⟩ := h
    intro hm
    exact ⟨(congrArg World.out (closeTurn_workshop hm)).trans (hi hm).1, (hi hm).2⟩

theorem silent_init (s : State) (h : machine.init s) : Silent s := by
  obtain ⟨t, w, hf, rfl⟩ := h
  intro hm
  exact ⟨(leaves_world (leaves_startTurn (leaves_workshop hm)) _).trans hf.out, rfl⟩

end Workshop

/-- A workshop turn keeps no gate, in whatever run. -/
theorem workshop_not_kept {s : State} (h : machine.Reach Free s) (hm : s.turn.mount.isWorkshop = true)
    (p : GatePayload) : ¬ s.Kept p := by
  intro hk
  have hl : s.log = [] := (h.induct silent_init silent_step hm).2
  have hs := hk.shown
  rw [hl] at hs
  exact List.not_mem_nil hs

/-! ### Limits -/

def confirmGate : GatePayload := ⟨"g1", "confirm", "Go on?", [], ""⟩

def gateCall : AiMessage := ⟨"One moment.", [⟨"c1", "request_user_gate", []⟩]⟩

def chatTurn : TurnInfo := ⟨.chat, 7, ⟨"t1", by decide⟩, ⟨"m1", by decide⟩⟩

/-- The world of a turn that begins. -/
def freshWorld (snapshot : Bool) : World where
  interrupts := []
  unmatchedCalls := []
  finalPersisted := false
  lastModelMessage := none
  publishedArtifacts := []
  browserBlocked := false
  gateInterrupted := false
  gateResumeFailed := none
  recoveryCancelled := false
  recoveryExhausted := false
  forceInterrupted := false
  forceFailed := none
  exceeded := false
  toolAction := .continue_
  stopReason := none
  cancelled := false
  timedOut := false
  recovery := .failed
  down := []
  pendingProposals := []
  gatePending := none
  observationSnapshot := snapshot
  assistantTexts := []
  suspended := []
  out := []

theorem init_fresh (t : TurnInfo) : machine.init (State.enter t (freshWorld (!t.mount.isWorkshop))) :=
  ⟨t, _, ⟨⟨rfl, rfl, rfl⟩, ⟨rfl, rfl, rfl⟩, ⟨rfl, rfl, rfl, rfl⟩, rfl, rfl⟩, rfl⟩

/-- A chat turn says something, asks for a confirmation and is reported as completed. -/
def askedRun : List Action :=
  [.event (.modelToken 0 .answer "One moment."), .event (.modelStepFinished 0 gateCall []),
    .background (.recordModelStep gateCall true), .event (.toolStarted 1 "c1" "request_user_gate" []),
    .commit [.gate confirmGate] ["c1"], .complete 1 [.human, .ai gateCall], .advance, .advance, .advance]

end NexusStudio.GateTurn
