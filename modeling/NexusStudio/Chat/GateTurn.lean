import NexusStudio.Turn.Engine
import NexusStudio.Chat.GatePending
import NexusStudio.Streaming.Publisher
import NexusStudio.Lib.Machine

/-!
# Turns that stop at a user gate

What the mounts of chat turns, resumed turns and workshop turns add to the turn engine, as far as it concerns the
interrupts of the checkpoint.

* (interrupts) `parseUserGateInterrupt` and `emitUserGates`, which shows and stores the gates.
* (mounts) the persistence subscribers and the recovery hooks, together the `surroundings` of the engine.
* (turn) the machine of one turn: the engine runs with its handlers cut at their awaits, and in between the graph
  writes its checkpoint and the background changes what the mount looks at.

The frames of the SSE subscriber, the title of the conversation, the usage records, what a failed turn persists and
the repairs of the messages in the checkpoint are left out.
-/

namespace NexusStudio.GateTurn

open Handlers Turn Gate
open Streaming (StreamFrame)

/-! ### Interrupts -/

/-- The members of `gate_type`. -/
inductive GateType
  | loginMethod
  | credentials
  | phoneOtp
  | qrScan
  | imageCaptcha
  | confirm
  | sessionBridge
  deriving DecidableEq, Repr

namespace GateType

def text : GateType → String
  | loginMethod => "login_method"
  | credentials => "credentials"
  | phoneOtp => "phone_otp"
  | qrScan => "qr_scan"
  | imageCaptcha => "image_captcha"
  | confirm => "confirm"
  | sessionBridge => "session_bridge"

def ofText (s : String) : Option GateType :=
  [loginMethod, credentials, phoneOtp, qrScan, imageCaptcha, confirm, sessionBridge].find? fun t => t.text = s

theorem text_ne (t : GateType) : t.text ≠ "" := by
  cases t <;> decide

end GateType

/-- What `request_user_gate` interrupts with. `rest` stands for the choices, the assets, the phase and the domain. -/
structure GatePayload where
  gateId : String
  gateType : String
  prompt : String
  fields : List FieldDef
  rest : String
  deriving DecidableEq, Repr

/-- The value of an interrupt: a dict with a `gate_type`, one with `upgrade_invite`, or the approval of tool calls. -/
inductive InterruptValue
  | gate (p : GatePayload)
  | upgradeInvite (proposalId : Nat)
  | toolApproval (actions : List PendingToolAction)
  deriving DecidableEq, Repr

/-- `UserGateInterrupt`. -/
structure UserGateInterrupt where
  gateId : RequiredString
  gateType : GateType
  prompt : RequiredString
  fields : List FieldDef
  rest : String

/-- `_parse_user_gate_interrupt`. -/
def parseUserGateInterrupt : InterruptValue → Except Exn (Option UserGateInterrupt)
  | .gate p =>
    match GateType.ofText p.gateType with
    | some t =>
      if h : p.gateId ≠ "" ∧ p.prompt ≠ "" then .ok (some ⟨⟨p.gateId, h.1⟩, t, ⟨p.prompt, h.2⟩, p.fields, p.rest⟩)
      else .error "user gate interrupt violates contract"
    | none => .error "user gate interrupt violates contract"
  | _ => .ok none

/-- `_parse_upgrade_invite_interrupt`, of whose checks only that on the proposal is kept. -/
def parseUpgradeInviteInterrupt : InterruptValue → Except Exn (Option Nat)
  | .upgradeInvite i => if i = 0 then .error "upgrade invite interrupt violates contract" else .ok (some i)
  | _ => .ok none

/-- The gates among the interrupts. -/
def gatesOf (l : List InterruptValue) : List GatePayload :=
  l.filterMap fun
    | .gate p => some p
    | _ => none

/-! ### World -/

/-- The stores that a call can find unreachable. -/
inductive StoreName
  | checkpoint
  | database
  | redis
  deriving DecidableEq, Repr

/-- How `recover_empty_answer` ends. -/
inductive EmptyRecovery
  | text (s : String)
  | cancelled
  | failed
  deriving DecidableEq, Repr

/-- What the mount of a turn reads and writes. -/
structure World where
  -- the checkpoint: its interrupts and the calls of the gate tool that have no result
  interrupts : List InterruptValue
  unmatchedCalls : List String
  -- the recorder and the tool context
  finalPersisted : Bool
  lastModelMessage : Option AiMessage
  publishedArtifacts : List String
  -- the session of a chat turn or the subscriber of a resumed turn
  browserBlocked : Bool
  gateInterrupted : Bool
  gateResumeFailed : Option (String × String)
  -- the recovery hook or the control hook
  recoveryCancelled : Bool
  recoveryExhausted : Bool
  forceInterrupted : Bool
  forceFailed : Option (String × String)
  -- what the guards, the cancel event, the clock and the recovery model answer
  exceeded : Bool
  toolAction : GuardAction
  stopReason : Option String
  cancelled : Bool
  timedOut : Bool
  recovery : EmptyRecovery
  -- the stores
  down : List StoreName
  pendingProposals : List Nat
  gatePending : Option RawGate
  observationSnapshot : Bool
  assistantTexts : List String
  suspended : List (String × String)
  -- the frames that are not yet in the log
  out : List StreamFrame

abbrev Act := Handler World Exn

/-- A call of a store. -/
def call (n : StoreName) : Act Unit := do
  let w ← get
  if n ∈ w.down then throw "store unavailable"
  else return

/-- `agent.aget_state`, as to the interrupts. -/
def agetState : Act (List InterruptValue) := do
  call .checkpoint
  let w ← get
  return w.interrupts

/-! ### Gates -/

/-- One of the interrupts is a user gate. -/
def anyGate : List InterruptValue → Except Exn Bool
  | [] => .ok false
  | v :: l =>
    match parseUserGateInterrupt v with
    | .error x => .error x
    | .ok (some _) => .ok true
    | .ok none => anyGate l

def hasPendingUserGate : Act Bool := do
  orRaise (anyGate (← agetState))

/-- A turn with its mount. -/
inductive Mount
  | chat
  | resume
  | workshop (projectId expertId : String) (taskId : Option String) (persistChatMessages : Bool)
  deriving DecidableEq, Repr

structure TurnInfo where
  mount : Mount
  conversationId : Nat
  turnId : RequiredString
  modelKey : RequiredString
  deriving DecidableEq, Repr

/-- `resolve_thread_id` of the mount, which is the thread of the turn's checkpoint. -/
def TurnInfo.threadId (t : TurnInfo) : String :=
  match t.mount with
  | .workshop projectId expertId (some taskId) _ => s!"workshop:{projectId}:expert:{expertId}:task:{taskId}"
  | .workshop projectId expertId none _ => s!"workshop:{projectId}:expert:{expertId}:idle"
  | _ => s!"chat-{t.conversationId}"

variable (t : TurnInfo)

/-- The record that `set_gate_pending` writes for a gate. -/
def pendingRecord (g : UserGateInterrupt) : GatePending where
  turnId := t.turnId
  gateId := g.gateId
  gateType := ⟨g.gateType.text, g.gateType.text_ne⟩
  modelKey := t.modelKey
  prompt := g.prompt
  status := .pending
  fields := normalizeFieldDefs (g.fields.map some)
  rest := g.rest

def setGatePending (g : UserGateInterrupt) : Act Unit := do
  call .redis
  modify fun w => { w with gatePending := some (.object (dump (pendingRecord t g))) }

def clearGatePending : Act Unit := do
  call .redis
  modify fun w => { w with gatePending := none }

def emit (f : StreamFrame) : Act Unit :=
  modify fun w => { w with out := w.out ++ [f] }

/-- The loop of `emit_user_gates`. -/
def emitGates : List InterruptValue → Act Bool
  | [] => return false
  | v :: l => do
    match ← orRaise (parseUserGateInterrupt v) with
    | none => emitGates l
    | some g =>
      emit (.userGateRequired g.gateId)
      setGatePending t g
      let _ ← emitGates l
      return true

def emitUserGates : Act Bool := do
  emitGates t (← agetState)

/-- `_collect_user_gate_interrupts`. -/
def collectGates : List InterruptValue → Except Exn (List UserGateInterrupt)
  | [] => .ok []
  | v :: l => do
    let g ← parseUserGateInterrupt v
    let gs ← collectGates l
    return (g.toList.filter fun g => strip g.gateId ≠ "") ++ gs

/-- The unmatched calls, each with the id of the gate that it is taken to wait for. -/
def suspendRows (gates : List UserGateInterrupt) (calls : List String) : List (String × String) :=
  calls.zipIdx.filterMap fun c => gates[min c.2 (gates.length - 1)]?.map fun g => (c.1, strip g.gateId)

def persistRows : List (String × String) → Act Unit
  | [] => return
  | row :: l => do
    call .database
    modify fun w => { w with suspended := w.suspended ++ [row] }
    persistRows l

def persistGateSuspendToolResults : Act Unit := do
  let gates ← orRaise (collectGates (← agetState))
  let w ← get
  persistRows (suspendRows gates w.unmatchedCalls)

/-! ### Upgrade invites -/

/-- The row of a proposal is there and waits for an answer. -/
def proposalPending (proposalId : Nat) : Act Bool := do
  call .database
  let w ← get
  return proposalId ∈ w.pendingProposals

/-- The loop of `has_pending_upgrade_invite`. -/
def anyInvite : List InterruptValue → Act Bool
  | [] => return false
  | v :: l => do
    match ← orRaise (parseUpgradeInviteInterrupt v) with
    | none => anyInvite l
    | some i => if ← proposalPending i then return true else anyInvite l

def hasPendingUpgradeInvite : Act Bool := do
  anyInvite (← agetState)

/-- The loop of `emit_upgrade_invite_proposals`. -/
def emitInvites : List InterruptValue → Act Bool
  | [] => return false
  | v :: l => do
    match ← orRaise (parseUpgradeInviteInterrupt v) with
    | none => emitInvites l
    | some i =>
      if ← proposalPending i then
        emit (.upgradeInviteProposed i)
        let _ ← emitInvites l
        return true
      else emitInvites l

def emitUpgradeInviteProposals : Act Bool := do
  emitInvites (← agetState)

/-- `clear_turn_active`, whose row is not kept here. -/
def clearTurnActive : Act Unit := call .database

/-- `finalize_upgrade_invite_checkpoint`: a checkpoint that is written back has no interrupts. -/
def finalizeUpgradeInviteCheckpoint : Act Unit := do
  if ← hasPendingUpgradeInvite then
    call .checkpoint
    modify fun w => { w with interrupts := [] }
  else return

/-! ### Answers -/

/-- `finalize_assistant`. -/
def finalizeAssistant (content : String) : Act Unit := do
  call .database
  modify fun w => { w with assistantTexts := w.assistantTexts ++ [content] }

/-- The text of the last model message, where it calls no tools. -/
def World.lastText (w : World) : Option String :=
  w.lastModelMessage.bind fun m => Message.finalText (.ai m)

/-- `finalize_published_deliverables` in `_handle_completed`. -/
def finalizeDeliverables : Act Unit := do
  let w ← get
  if w.finalPersisted ∨ w.publishedArtifacts = [] then return
  else
    let names := String.intercalate ", " w.publishedArtifacts
    finalizeAssistant s!"已完成，生成文件：{names}"
    modify fun w => { w with finalPersisted := true }

def finalizeLastMessage : Act Unit := do
  let w ← get
  if w.finalPersisted then return
  else
    match w.lastText with
    | some text =>
      finalizeAssistant text
      modify fun w => { w with finalPersisted := true }
    | none => return

/-! ### Subscribers -/

/-- Shows and stores the gates, and `true` where there were any. -/
def suspendAtGates : Act Bool := do
  let emitted ← emitUserGates t
  modify fun w => { w with gateInterrupted := emitted }
  if emitted then
    persistGateSuspendToolResults
    modify fun w => { w with forceInterrupted := true }
    return true
  else return false

/-- The part of `_handle_completed` on user gates. -/
def suspendUnlessFinal : Act Bool := do
  let w ← get
  if w.finalPersisted then return false
  else if ← hasPendingUserGate then suspendAtGates t
  else return false

/-- The part of `_handle_completed` on upgrade invites. -/
def inviteUnlessFinal : Act Unit := do
  let w ← get
  if w.finalPersisted then return
  else if ← hasPendingUpgradeInvite then
    if ← emitUpgradeInviteProposals then
      modify fun w => { w with gateInterrupted := true }
      clearTurnActive
      finalizeUpgradeInviteCheckpoint
      persistGateSuspendToolResults
      modify fun w => { w with forceInterrupted := true }
    else return
  else return

/-- `_handle_completed` of the chat mount. -/
def handleCompleted : Act Unit := do
  let w ← get
  if w.browserBlocked ∨ w.recoveryCancelled then return
  else
    finalizeDeliverables
    finalizeLastMessage
    if ← suspendUnlessFinal t then return
    else inviteUnlessFinal

/-- What the chat mount does on `TurnInterrupted`. -/
def handleInterrupted : Act Unit := do
  modify fun w => { w with gateInterrupted := true }
  if ← emitUpgradeInviteProposals then
    clearTurnActive
    finalizeUpgradeInviteCheckpoint
    modify fun w => { w with forceInterrupted := true }
  else persistGateSuspendToolResults

/-- `persist_turn_error`. -/
def persistTurnError (content : String) : Act Unit := do
  call .database
  modify fun w => { w with assistantTexts := w.assistantTexts ++ [content] }

def clearTurnObservationSnapshot : Act Unit := do
  call .redis
  modify fun w => { w with observationSnapshot := false }

/-- What the subscriber of a resumed turn does on `TurnCompleted`. -/
def handleResumed : Act Unit := do
  let w ← get
  match w.gateResumeFailed with
  | some (message, errorClass) =>
    persistTurnError message
    clearGatePending
    modify fun w => { w with forceFailed := some (message, errorClass) }
  | none =>
    if ← suspendAtGates t then return
    else
      call .redis
      let w ← get
      let _ ← orRaise (parseGatePendingRaw w.gatePending)
      clearGatePending
      clearTurnActive
      clearTurnObservationSnapshot

/-- What the workshop mount does on `TurnCompleted`. -/
def handleAnswered (answerText : String) : Act Unit := do
  let w ← get
  if w.finalPersisted ∨ strip answerText = "" then return
  else
    finalizeAssistant (strip answerText)
    modify fun w => { w with finalPersisted := true }

/-- The subscribers with barrier events. -/
inductive Subscriber
  | chatPersistence
  | chatResume
  | workshopPersistence
  deriving DecidableEq, Repr

def handle : Subscriber → TurnEvent → Act Unit
  | .chatPersistence, .turnCompleted .. => handleCompleted t
  | .chatPersistence, .turnInterrupted _ => handleInterrupted
  | .chatResume, .turnCompleted .. => handleResumed t
  | .chatResume, .turnInterrupted _ => modify fun w => { w with gateInterrupted := true }
  | .workshopPersistence, .turnCompleted _ answerText _ => handleAnswered answerText
  | _, _ => return

/-! ### Recovery -/

/-- `_attempt_recovery`. -/
def attemptRecovery : Act Bool := do
  let w ← get
  if w.recovery = .cancelled ∨ w.cancelled then
    call .database
    modify fun w => { w with finalPersisted := true, recoveryCancelled := true }
    return false
  else
    match w.recovery with
    | .text text =>
      finalizeAssistant text
      modify fun w => { w with finalPersisted := true }
      return true
    | _ =>
      finalizeAssistant (terminationMessage .agentRecoveryExhausted)
      modify fun w => { w with finalPersisted := true, recoveryExhausted := true }
      return false

/-- The pieces that `_attempt_recovery` publishes. -/
def World.recoveryPieces (w : World) : List String :=
  match w.recovery with
  | .text text => if w.cancelled then [] else chunkText text 160
  | _ => []

/-- What the hook answers after an attempt. -/
def answerRecovery (success other : Option TerminatedBy) (ok : Bool) : Act (Option TerminatedBy) := do
  let w ← get
  if ok then return success
  else if w.recoveryCancelled then return some .cancelled
  else if w.recoveryExhausted then return some .agentRecoveryExhausted
  else return other

/-- There is an answer, so that `before_complete` does not look at the checkpoint. -/
def HasAnswer (r : RunState) (w : World) : Prop :=
  w.finalPersisted = true ∨ strip (String.join r.answerParts) ≠ "" ∨ w.lastText ≠ none

instance (r : RunState) (w : World) : Decidable (HasAnswer r w) := inferInstanceAs (Decidable (_ ∨ _))

/-- What `before_complete` answers without an attempt, `none` where it makes one. -/
def beforeAttempt (r : RunState) : Act (Option (Option TerminatedBy)) := do
  let w ← get
  if HasAnswer r w then return some none
  else if ← hasPendingUserGate then return some (some .interrupted)
  else if ← hasPendingUpgradeInvite then return some (some .interrupted)
  else return none

/-- A call of a hook that publishes nothing. -/
def quietCall (x : Act (Option TerminatedBy)) (w : World) : HookCall × World :=
  (⟨[], (exec x w).1⟩, (exec x w).2)

/-- A call of a hook that attempts a recovery. -/
def recoveryCall (success other : Option TerminatedBy) (w : World) : HookCall × World :=
  let a := exec (attemptRecovery >>= answerRecovery success other) w
  (⟨w.recoveryPieces, a.1⟩, a.2)

/-- `before_complete` of the chat mount; an attempt after invalid tool calls is one like any other. -/
def beforeComplete (r : RunState) (w : World) : HookCall × World :=
  match exec (beforeAttempt r) w with
  | (.error x, w) => (⟨[], .error x⟩, w)
  | (.ok (some o), w) => (⟨[], .ok o⟩, w)
  | (.ok none, w) => recoveryCall none none w

/-- `on_stream_break` of the chat mount. -/
def onStreamBreak (terminatedBy : TerminatedBy) (w : World) : HookCall × World :=
  if terminatedBy ∉ [TerminatedBy.guardError, .maxTools] ∨ w.cancelled then quietCall (return none) w
  else
    match exec (call .checkpoint) w with
    | (.error x, w) => (⟨[], .error x⟩, w)
    | (.ok _, w) => recoveryCall (some .completed) (some terminatedBy) w

/-- `ChatRecoveryHook`, which has no `force_failed`. -/
def chatRecoveryHook : RecoveryHook World where
  afterModelStep _ _ _ _ := quietCall (return none)
  beforeComplete _ _ := beforeComplete
  onStreamBreak b _ := onStreamBreak b
  forceFailed _ := none
  forceInterrupted := World.forceInterrupted

/-- `ChatResumeControlHook`. -/
def chatResumeControlHook : RecoveryHook World where
  afterModelStep _ _ _ _ := quietCall (return none)
  beforeComplete _ _ _ := quietCall (return none)
  onStreamBreak _ _ := quietCall (return none)
  forceFailed := World.forceFailed
  forceInterrupted := World.forceInterrupted

/-! ### Mounts -/

def Mount.subscribers : Mount → List Subscriber
  | chat => [.chatPersistence]
  | resume => [.chatResume]
  | workshop _ _ _ persistChatMessages => if persistChatMessages then [.workshopPersistence] else []

def Mount.recoveryHook : Mount → Option (RecoveryHook World)
  | chat => some chatRecoveryHook
  | resume => some chatResumeControlHook
  | workshop .. => none

def barrierEvents : Subscriber → List TurnEventKind
  | .workshopPersistence => [.turnCompleted, .turnFailed]
  | _ => [.turnCompleted, .turnFailed, .turnInterrupted]

/-- The engine's surroundings in a turn. The subscribers that only hear broadcasts run in the background. -/
def surroundings : Surroundings World Subscriber where
  subscribers := t.mount.subscribers
  barrierEvents k e := e ∈ barrierEvents k
  broadcastEvents _ _ := false
  start _ := return
  handle := handle t
  recoveryHook := t.mount.recoveryHook
  cancelEvent := return (← get).cancelled
  checkWallClock := return !(← get).timedOut
  onModelStepFinished := return
  exceededModelSteps := return (← get).exceeded
  onToolFinished _ _ := return (← get).toolAction
  lastStopReason := return (← get).stopReason
  emitInvalidToolCallFrames := true
  healInvalidToolCalls := true
  isResume := t.mount = .resume
  onTurnStartRepair := return
  onTurnCleanupRepair := return
  collectInterrupts := do
    let l ← agetState
    return if l = [] then none else some (l.flatMap fun
      | .toolApproval actions => actions
      | _ => [])
  -- only the SSE subscriber shows the text of a synthetic result
  toToolMessage r := r.output

/-! ### The engine, cut at its awaits -/

section Cut

variable {ω κ : Type} (S : Surroundings ω κ)

/-- The checks at the head of the loop, `false` where it is left. -/
def checkLoop : Handler (Run ω κ) Exn Bool := do
  if ← ask S.cancelEvent then
    setTerminatedBy .cancelled
    return false
  else if !(← ask S.checkWallClock) then
    setTerminatedBy .wallClock
    return false
  else return true

/-- How the loop goes on after an event. -/
inductive Next
  | goOn
  | leave
  | return_
  deriving DecidableEq, Repr

def follow : HandlerResult → Handler (Run ω κ) Exn Next
  | .return_ b => do
    noteTerminatedBy b
    return .return_
  | .break_ b => do
    noteTerminatedBy b
    return .leave
  | .continue_ _ => return .goOn

theorem loop_cons (raised : Option Exn) (e : AgentEvent) (l : List AgentEvent) :
    loop S raised (e :: l) = do
      if ← checkLoop S then
        match ← dispatch S e >>= follow with
        | .goOn => loop S raised l
        | .leave => return false
        | .return_ => return true
      else return false := by
  simp only [loop, checkLoop, bind_assoc]
  refine bind_congr fun c => ?_
  cases c with
  | true => simp
  | false =>
    simp only [Bool.false_eq_true, if_false, bind_assoc]
    refine bind_congr fun d => ?_
    cases d with
    | false => simp
    | true =>
      simp only [Bool.not_true, Bool.false_eq_true, if_false, pure_bind, if_true]
      refine bind_congr fun r => ?_
      cases r <;> simp [follow]

/-- After `before_complete`: `none` where the handler returns, else whether the turn is already known to be
interrupted. -/
def answerHook (step : Nat) : Option TerminatedBy → Handler (Run ω κ) Exn (Option Bool)
  | some .cancelled => do
    noteTerminatedBy (some .cancelled)
    return none
  | some .interrupted => return some true
  | some b => do
    failWith S b (some step)
    noteTerminatedBy (some b)
    return none
  | none => return some false

/-- The end of `_handle_turn_completed`. -/
def settle (step : Nat) (interrupted : Bool) : Handler (Run ω κ) Exn Next := do
  if interrupted then
    setTerminatedBy .interrupted
    follow (.return_ (some .interrupted))
  else settleCompleted S step >>= follow

theorem handleTurnCompleted_follow (step : Nat) (messages : List Message) :
    handleTurnCompleted S step messages >>= follow = (do
      backfillFinalAnswer messages
      match ← callHook S (fun h => h.beforeComplete step messages) >>= answerHook S step with
      | none => return .return_
      | some interrupted =>
        reportCompleted S messages
        settle S step interrupted) := by
  simp only [handleTurnCompleted, bind_assoc]
  refine bind_congr fun _ => bind_congr fun o => ?_
  cases o with
  | none => simp [answerHook, settle]
  | some b => cases b <;> simp [answerHook, settle, follow]

end Cut

/-! ### Background -/

/-- What the other subscribers, the tools, the user and the stores do while the turn runs. -/
inductive Background
  -- `_record_model_step`
  | recordModelStep (m : AiMessage) (persisted : Bool)
  | publishArtifact (filename : String)
  -- the subscriber that hears of a blocked browser
  | blockBrowser (persisted : Bool)
  -- the subscriber of a resumed turn hears of a gate tool that failed for good
  | failGateResume (message errorClass : String)
  | guards (exceeded : Bool) (toolAction : GuardAction) (stopReason : Option String)
  | timeOut
  -- the user cancels, or the log takes no more frames
  | cancel
  | answerRecovery (r : EmptyRecovery)
  | outage (down : List StoreName)
  | setProposals (l : List Nat)
  | expireSnapshot
  deriving DecidableEq, Repr

def Background.apply (w : World) : Background → World
  | recordModelStep m persisted =>
    { w with lastModelMessage := some m
             finalPersisted := w.finalPersisted || persisted && (Message.finalText (.ai m)).isSome }
  | publishArtifact filename => { w with publishedArtifacts := w.publishedArtifacts ++ [filename] }
  | blockBrowser persisted => { w with browserBlocked := true, finalPersisted := w.finalPersisted || persisted }
  | failGateResume message errorClass => { w with gateResumeFailed := some (message, errorClass) }
  | guards exceeded toolAction stopReason => { w with exceeded, toolAction, stopReason }
  | timeOut => { w with timedOut := true }
  | cancel => { w with cancelled := true }
  | answerRecovery r => { w with recovery := r }
  | outage down => { w with down }
  | setProposals l => { w with pendingProposals := l }
  | expireSnapshot => { w with observationSnapshot := false }

/-! ### Machine -/

/-- Where a turn is. -/
inductive Pc
  | looping
  | completing (step : Nat) (messages : List Message)
  | reporting (step : Nat) (messages : List Message) (interrupted : Bool)
  | settling (step : Nat) (interrupted : Bool)
  | afterLoop
  | finishing
  | closing
  | over
  deriving DecidableEq, Repr

structure State where
  turn : TurnInfo
  run : Run World Subscriber
  pc : Pc
  -- the gates that the graph has stopped at in this turn
  stoppedAt : List GatePayload
  -- the replay log
  log : List StreamFrame

def State.world (s : State) : World := s.run.world

def State.setWorld (s : State) (w : World) : State :=
  { s with run := { s.run with world := w } }

/-- Runs a part of the engine; an exception goes to `_handle_run_exception`. -/
def State.perform (s : State) (x : Handler (Run World Subscriber) Exn Pc) : State :=
  match exec x s.run with
  | (.ok pc, r) => { s with run := r, pc }
  | (.error x, r) => { s with run := (exec (handleRunException (surroundings s.turn) x) r).2, pc := .finishing }

section Parts

variable (S : Surroundings World Subscriber)

def Next.pc : Next → Pc
  | goOn => .looping
  | leave => .afterLoop
  | return_ => .finishing

/-- An event that does not complete the turn. -/
def passEvent (e : AgentEvent) : Handler (Run World Subscriber) Exn Pc := do
  if ← checkLoop S then return (← dispatch S e >>= follow).pc
  else return .afterLoop

/-- `TurnCompletedEvent`, up to `before_complete`. -/
def passCompleted (step : Nat) (messages : List Message) : Handler (Run World Subscriber) Exn Pc := do
  if ← checkLoop S then
    backfillFinalAnswer messages
    return .completing step messages
  else return .afterLoop

def askHook (step : Nat) (messages : List Message) : Handler (Run World Subscriber) Exn Pc := do
  match ← callHook S (fun h => h.beforeComplete step messages) >>= answerHook S step with
  | none => return .finishing
  | some interrupted => return .reporting step messages interrupted

/-- What the engine does next, where it waits for no event. -/
def part : Pc → Option (Handler (Run World Subscriber) Exn Pc)
  | .completing step messages => some (askHook S step messages)
  | .reporting step messages interrupted => some do
    reportCompleted S messages
    return .settling step interrupted
  | .settling step interrupted => some do return (← settle S step interrupted).pc
  | .afterLoop => some do
    Turn.afterLoop S
    return .finishing
  | .finishing => some do
    finishTurn S
    return .closing
  | _ => none

end Parts

/-- `finalize_inflight_turn_abort`. -/
def finalizeInflightTurnAbort : Act Unit := do
  let w ← get
  doIf (w.finalPersisted = false) (call .database)
  clearGatePending

/-- The end of `stream_conversation_agent_turn` and `stream_chat_resume`, where errors are logged. -/
def closeTurn (w : World) : World :=
  match t.mount with
  | .chat =>
    if w.cancelled then (exec finalizeInflightTurnAbort w).2
    else if w.gateInterrupted then w
    else (exec (clearTurnActive >>= fun _ => clearTurnObservationSnapshot) w).2
  | .resume => if w.cancelled then (exec finalizeInflightTurnAbort w).2 else w
  | .workshop .. => w

inductive Action
  -- the graph writes a checkpoint, with interrupts or none
  | commit (interrupts : List InterruptValue) (unmatchedCalls : List String)
  | background (b : Background)
  | event (e : AgentEvent)
  | complete (step : Nat) (messages : List Message)
  | endStream (raised : Option Exn)
  | advance
  -- a frame goes to the log
  | pump
  | close
  deriving DecidableEq, Repr

/-- `TurnCompletedEvent`, for which the machine has an action of its own. -/
def isCompletion : AgentEvent → Bool
  | .turnCompleted .. => true
  | _ => false

def step (s : State) : Action → Option State
  | .commit interrupts unmatchedCalls =>
    if s.stoppedAt = [] ∧ s.pc ≠ .over then
      some { s.setWorld { s.world with interrupts, unmatchedCalls } with stoppedAt := gatesOf interrupts }
    else none
  | .background b => if s.pc ≠ .over then some (s.setWorld (b.apply s.world)) else none
  | .event e =>
    if s.pc = .looping ∧ isCompletion e = false then some (s.perform (passEvent (surroundings s.turn) e))
    else none
  | .complete step messages =>
    if s.pc = .looping then some (s.perform (passCompleted (surroundings s.turn) step messages)) else none
  | .endStream raised =>
    if s.pc = .looping then
      some (s.perform (match raised with
        | some x => throw x
        | none => pure .afterLoop))
    else none
  | .advance => (part (surroundings s.turn) s.pc).map s.perform
  | .pump =>
    match s.world.out with
    | f :: l =>
      if s.world.cancelled = false ∧ s.pc ≠ .over then
        some { s.setWorld { s.world with out := l } with log := s.log ++ [f] }
      else none
    | [] => none
  | .close =>
    if s.pc = .closing ∧ (s.world.out = [] ∨ s.world.cancelled = true) then
      some { s.setWorld (closeTurn s.turn s.world) with pc := .over }
    else none

def Mount.isWorkshop : Mount → Bool
  | workshop .. => true
  | _ => false

/-- Before a turn nothing is recorded, noted or shown; a chat has saved its observation snapshot. -/
structure World.Fresh (w : World) (m : Mount) : Prop where
  recorder : w.finalPersisted = false ∧ w.lastModelMessage = none ∧ w.publishedArtifacts = []
  session : w.browserBlocked = false ∧ w.gateInterrupted = false ∧ w.gateResumeFailed = none
  hook : w.recoveryCancelled = false ∧ w.recoveryExhausted = false ∧ w.forceInterrupted = false ∧ w.forceFailed = none
  snapshot : w.observationSnapshot = !m.isWorkshop
  out : w.out = []

/-- The turn as it enters the loop. -/
def State.enter (t : TurnInfo) (w : World) : State where
  turn := t
  run := (exec (startTurn (surroundings t)) { RunState.init with ops := [], world := w }).2
  pc := .looping
  stoppedAt := []
  log := []

def machine : Concurrent.Machine State Action where
  init s := ∃ t w, World.Fresh w t.mount ∧ s = State.enter t w
  step := step

/-! ### Resumption -/

/-- The checkpoint thread that a resume request of the turn `t` gets to: `prepare_resume_turn` looks for the pending
gate, `stream_chat_resume` for the snapshot. -/
def resumeThread (t : TurnInfo) (w : World) : Option String :=
  match parseGatePendingRaw w.gatePending with
  | .ok (some g) =>
    if g.turnId = t.turnId ∧ w.observationSnapshot = true then some s!"chat-{t.conversationId}" else none
  | _ => none

/-- The turn has ended interrupted, the gate is shown and stored, and a resume request gets to its checkpoint. -/
structure State.Kept (s : State) (p : GatePayload) : Prop where
  interrupted : s.run.terminatedBy = .interrupted
  shown : .userGateRequired p.gateId ∈ s.log
  stored : ∃ g, parseGatePendingRaw s.world.gatePending = .ok (some g) ∧ g.turnId = s.turn.turnId ∧
    g.gateId.1 = p.gateId
  resumed : resumeThread s.turn s.world = some s.turn.threadId

end NexusStudio.GateTurn
