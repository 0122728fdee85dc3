import NexusStudio.Lib.Handler
import NexusStudio.Lib.EventBus
import NexusStudio.Turn.Sse

/-!
# The turn engine

`TurnEngine._run` with `TurnEventHandlers`: the agent's events become commands for the bus of the turn.

* (surroundings) the side-effect subscribers, the recovery hook, the guards and the checkpoint. Nothing is assumed of
  them: each of them may answer anything, raise and change the rest of the world whenever it is called.
* (bus) `broadcast` and `barrier`, whose outcome the subscribers decide, and `fail`.
* (handlers) one for each agent event.
* (run) `driveAgentStream`, `finishTurn` and `run`.

A handler on a broadcast event runs by itself and reports to nobody, so what it does to the world is left to the
next call. A turn whose task is cancelled by force and a cleanup that runs out of time are not modelled.
-/

namespace NexusStudio.Turn

open Handlers EventBus

/-- The text of an exception. -/
abbrev Exn := String

structure RunState where
  answerParts : List String
  toolCallsCount : Nat
  terminatedBy : TerminatedBy
  agentStarted : Bool
  failedEmitted : Bool
  deriving DecidableEq, Repr

def RunState.init : RunState := ⟨[], 0, .turnFailed, false, false⟩

/-- A command for the bus of a turn, where `none` is the SSE subscriber and `some k` a side-effect subscriber. -/
abbrev BusOp (κ : Type) := Op (Option κ) TurnEvent

/-- The state of a run, the commands it has given and the rest of the world. -/
structure Run (ω κ : Type) extends RunState where
  ops : List (BusOp κ)
  world : ω

/-- What a call of the recovery hook publishes with `publish_answer_token`, and how it ends. -/
structure HookCall where
  published : List String
  result : Except Exn (Option TerminatedBy)

structure RecoveryHook (ω : Type) where
  afterModelStep : Nat → AiMessage → List InvalidToolCall → RunState → ω → HookCall × ω
  beforeComplete : Nat → List Message → RunState → ω → HookCall × ω
  onStreamBreak : TerminatedBy → RunState → ω → HookCall × ω
  -- the attributes `force_failed` and `force_interrupted`
  forceFailed : ω → Option (String × String)
  forceInterrupted : ω → Bool

inductive GuardAction
  | continue_
  | stopTurn
  | browserBlocked
  deriving DecidableEq, Repr

structure ToolResult where
  success : Bool
  output : String
  errorType : Option String
  errorDetail : Option String
  deriving DecidableEq, Repr

def ToolResult.fail (errorType detail : String) : ToolResult := ⟨false, "", some errorType, some detail⟩

structure Surroundings (ω κ : Type) where
  -- the side-effect subscribers, which the SSE subscriber stands before
  subscribers : List κ
  barrierEvents : κ → TurnEventKind → Bool
  broadcastEvents : κ → TurnEventKind → Bool
  start : κ → Handler ω Exn Unit
  handle : κ → TurnEvent → Handler ω Exn Unit
  recoveryHook : Option (RecoveryHook ω)
  -- `cancel_event.is_set()`
  cancelEvent : Handler ω Exn Bool
  -- the guards
  checkWallClock : Handler ω Exn Bool
  onModelStepFinished : Handler ω Exn Unit
  exceededModelSteps : Handler ω Exn Bool
  onToolFinished : String → Option String → Handler ω Exn GuardAction
  lastStopReason : Handler ω Exn (Option String)
  emitInvalidToolCallFrames : Bool
  healInvalidToolCalls : Bool
  isResume : Bool
  onTurnStartRepair : Handler ω Exn Unit
  onTurnCleanupRepair : Handler ω Exn Unit
  -- the actions of the interrupts in the checkpoint, `none` without interrupts
  collectInterrupts : Handler ω Exn (Option (List PendingToolAction))
  -- `ToolResult.to_tool_message`
  toToolMessage : ToolResult → String

variable {ω κ : Type} (S : Surroundings ω κ)

/-- Which broadcast events a subscriber hears. -/
def Surroundings.hears [DecidableEq κ] : Option κ → TurnEvent → Bool
  | none, e => Sse.hears e.kind
  | some k, e => decide (k ∈ S.subscribers) && S.broadcastEvents k e.kind

/-- Asks the surroundings. -/
def ask {α : Type} (x : Handler ω Exn α) : Handler (Run ω κ) Exn α :=
  onPart Run.world (fun r w => { r with world := w }) x

/-- Runs `x` and drops its error. -/
def quietly (x : Handler (Run ω κ) Exn Unit) : Handler (Run ω κ) Exn Unit :=
  tryCatch x fun _ => pure ()

def setTerminatedBy (t : TerminatedBy) : Handler (Run ω κ) Exn Unit :=
  modify fun r => { r with terminatedBy := t }

/-! ### Bus -/

def broadcast (e : TurnEvent) : Handler (Run ω κ) Exn Unit :=
  modify fun r => { r with ops := r.ops ++ [.broadcast e] }

/-- The side-effect subscribers that handle a barrier's event, up to the first that raises. -/
def Surroundings.meet (e : TurnEvent) : List κ → ω → List κ × Except Exn Unit × ω
  | [], w => ([], .ok (), w)
  | k :: l, w =>
    if S.barrierEvents k e.kind then
      match exec (S.handle k e) w with
      | (.ok _, w) =>
        let m := meet e l w
        (k :: m.1, m.2)
      | (.error x, w) => ([k], .error x, w)
    else meet e l w

/-- The subscribers that a barrier gets to: the SSE subscriber is the first of them. -/
def reachedBy (e : TurnEvent) (side : List κ) : List (Option κ) :=
  (if Sse.meets e.kind then [none] else []) ++ side.map some

def barrier (e : TurnEvent) : Handler (Run ω κ) Exn Unit := do
  let r ← get
  let m := S.meet e S.subscribers r.world
  modify fun r => { r with world := m.2.2, ops := r.ops ++ [.barrier e (reachedBy e m.1)] }
  orRaise m.2.1

/-- `_fail`, which reports the first failure only. -/
def fail (error : String) (errorClass : Option String) (step : Option Nat) : Handler (Run ω κ) Exn Unit := do
  let r ← get
  if r.failedEmitted then return
  else
    modify fun r => { r with failedEmitted := true }
    barrier S (.turnFailed error errorClass step)

/-- `fail` with the message of a reason. -/
def failWith (t : TerminatedBy) (step : Option Nat) : Handler (Run ω κ) Exn Unit :=
  fail S (terminationMessage t) (some t.value) step

/-- Appends a text to the answer and broadcasts its token. -/
def putAnswer (step : Nat) (text : String) : Handler (Run ω κ) Exn Unit := do
  modify fun r => { r with answerParts := r.answerParts ++ [text] }
  broadcast (.modelToken step .answer text)

def putAnswers (step : Nat) : List String → Handler (Run ω κ) Exn Unit
  | [] => return
  | text :: l => do
    putAnswer step text
    putAnswers step l

/-- Calls the recovery hook, if there is one. -/
def callHook (f : RecoveryHook ω → RunState → ω → HookCall × ω) : Handler (Run ω κ) Exn (Option TerminatedBy) := do
  let r ← get
  match S.recoveryHook with
  | none => return none
  | some h =>
    let c := f h r.toRunState r.world
    modify fun r => { r with world := c.2 }
    putAnswers 0 c.1.published
    orRaise c.1.result

/-! ### Handlers -/

inductive HandlerResult
  | continue_ (terminatedBy : Option TerminatedBy)
  | break_ (terminatedBy : Option TerminatedBy)
  | return_ (terminatedBy : Option TerminatedBy)
  deriving DecidableEq, Repr

/-- `chunk_text`. -/
def chunkText (text : String) (size : Nat) : List String :=
  (List.range ((text.toList.length + size - 1) / size)).map fun i =>
    String.ofList ((text.toList.drop (i * size)).take size)

/-- `_current_turn_message_slice`: what follows the last human message. -/
def currentTurnMessageSlice (messages : List Message) : List Message :=
  (messages.reverse.takeWhile fun m => m ≠ .human).reverse

/-- The text of a final answer. -/
def Message.finalText : Message → Option String
  | ai m => if m.toolCalls ≠ [] ∨ strip m.content = "" then none else some (strip m.content)
  | _ => none

def backfillStepAnswer (step : Nat) (aiMessage : AiMessage) : Handler (Run ω κ) Exn Unit := do
  let r ← get
  if strip aiMessage.content = "" ∨ aiMessage.toolCalls ≠ [] ∨ r.answerParts ≠ [] then return
  else putAnswers step (chunkText (strip aiMessage.content) 160)

def backfillFinalAnswer (messages : List Message) : Handler (Run ω κ) Exn Unit := do
  let r ← get
  if r.answerParts ≠ [] then return
  else
    match (currentTurnMessageSlice messages).reverse.findSome? Message.finalText with
    | some text => putAnswers 0 (chunkText text 160)
    | none => return

def handleModelToken (step : Nat) (channel : Channel) (text : String) : Handler (Run ω κ) Exn HandlerResult := do
  doIf (channel = .answer) (modify fun r => { r with answerParts := r.answerParts ++ [text] })
  broadcast (.modelToken step channel text)
  return .continue_ none

def handleToolStarted (step : Nat) (callId toolName : String) (toolArgs : ToolArgs) :
    Handler (Run ω κ) Exn HandlerResult := do
  broadcast (.toolStarted step callId toolName toolArgs false)
  return .continue_ none

/-- The detail that an invalid tool call is answered with; the raw arguments are cut after 300 characters. -/
def invalidToolCallDetail (c : InvalidToolCall) : String :=
  s!"参数解析失败: {c.parseError}\nraw: {String.ofList (c.rawArguments.toList.take 300)}"

def broadcastInvalidToolCalls (step : Nat) : List InvalidToolCall → Handler (Run ω κ) Exn Unit
  | [] => return
  | c :: l => do
    broadcast (.toolStarted step c.callId c.name [("parse_error", c.parseError)] true)
    broadcast (.toolFinished step c.callId c.name
      (S.toToolMessage (.fail "invalid_arguments" (invalidToolCallDetail c))) true (some "invalid_arguments") true)
    broadcastInvalidToolCalls step l

/-- The end of `_handle_model_step_finished`: the hook's word, then the backfill. -/
def finishModelStep (step : Nat) (aiMessage : AiMessage) (invalidToolCalls : List InvalidToolCall) :
    Handler (Run ω κ) Exn HandlerResult := do
  match ← callHook S fun h => h.afterModelStep step aiMessage invalidToolCalls with
  | some t =>
    failWith S t (some step)
    return .return_ (some t)
  | none =>
    backfillStepAnswer step aiMessage
    return .continue_ none

def handleModelStepFinished (step : Nat) (aiMessage : AiMessage) (invalidToolCalls : List InvalidToolCall) :
    Handler (Run ω κ) Exn HandlerResult := do
  ask S.onModelStepFinished
  broadcast (.modelStepFinished step aiMessage invalidToolCalls)
  let exceeded ← ask S.exceededModelSteps
  if exceeded then return .break_ (some .maxIterations)
  else
    doIf S.emitInvalidToolCallFrames (broadcastInvalidToolCalls S step invalidToolCalls)
    match invalidToolCalls with
    | first :: _ =>
      if aiMessage.toolCalls = [] ∧ ¬ S.healInvalidToolCalls then
        fail S s!"工具参数解析失败（{first.name}）" (some TerminatedBy.toolParseFatal.value) (some step)
        return .return_ (some .toolParseFatal)
      else finishModelStep S step aiMessage invalidToolCalls
    | [] => finishModelStep S step aiMessage invalidToolCalls

def handleToolFinished (step : Nat) (callId toolName toolResult : String) (toolError : Bool)
    (errorClass : Option String) : Handler (Run ω κ) Exn HandlerResult := do
  broadcast (.toolFinished step callId toolName toolResult toolError errorClass false)
  modify fun r => { r with toolCallsCount := r.toolCallsCount + 1 }
  match ← ask (S.onToolFinished toolName errorClass) with
  | .browserBlocked => return .break_ (some .completed)
  | .stopTurn =>
    let stopReason ← ask S.lastStopReason
    return .break_ (some (if stopReason = some "max_tools" then .maxTools else .guardError))
  | .continue_ => return .continue_ none

def handleTurnFailed (step : Nat) (error errorClass : String) : Handler (Run ω κ) Exn HandlerResult := do
  fail S error (some errorClass) (some step)
  return .return_ (some (terminatedByForErrorClass (some errorClass)))

/-- Puts `TurnCompleted` through a barrier and then broadcasts it. -/
def reportCompleted (messages : List Message) : Handler (Run ω κ) Exn Unit := do
  let r ← get
  barrier S (.turnCompleted messages (String.join r.answerParts) r.toolCallsCount)
  broadcast (.turnCompleted messages (String.join r.answerParts) r.toolCallsCount)

/-- The end of `_handle_turn_completed`, where a subscriber may have set an attribute of the hook. -/
def settleCompleted (step : Nat) : Handler (Run ω κ) Exn HandlerResult := do
  let r ← get
  match S.recoveryHook.bind fun h => h.forceFailed r.world with
  | some (error, errorClass) =>
    fail S error (some errorClass) (some step)
    return .return_ (some .turnFailed)
  | none =>
    if S.recoveryHook.any fun h => h.forceInterrupted r.world then
      setTerminatedBy .interrupted
      return .return_ (some .interrupted)
    else
      setTerminatedBy .completed
      return .continue_ (some .completed)

def handleTurnCompleted (step : Nat) (messages : List Message) : Handler (Run ω κ) Exn HandlerResult := do
  backfillFinalAnswer messages
  match ← callHook S fun h => h.beforeComplete step messages with
  | some .cancelled => return .return_ (some .cancelled)
  | some .interrupted =>
    -- an interrupt is no failure: the completion is reported, so that the gate can be shown
    reportCompleted S messages
    setTerminatedBy .interrupted
    return .return_ (some .interrupted)
  | some t =>
    failWith S t (some step)
    return .return_ (some t)
  | none =>
    reportCompleted S messages
    settleCompleted S step

def dispatch : AgentEvent → Handler (Run ω κ) Exn HandlerResult
  | .modelToken step channel text => handleModelToken step channel text
  | .toolStarted step callId toolName toolArgs => handleToolStarted step callId toolName toolArgs
  | .modelStepFinished step aiMessage invalidToolCalls => handleModelStepFinished S step aiMessage invalidToolCalls
  | .toolFinished step callId toolName _ toolResult toolError errorClass =>
    handleToolFinished S step callId toolName toolResult toolError errorClass
  | .turnFailed step error errorClass => handleTurnFailed S step error errorClass
  | .turnCompleted step messages => handleTurnCompleted S step messages

/-! ### Run -/

def noteTerminatedBy (t : Option TerminatedBy) : Handler (Run ω κ) Exn Unit :=
  modify fun r => { r with terminatedBy := t.getD r.terminatedBy }

/-- The loop over the agent's events, which end normally or with an exception; `true` where the loop returned. -/
def loop (raised : Option Exn) : List AgentEvent → Handler (Run ω κ) Exn Bool
  | [] =>
    match raised with
    | some x => throw x
    | none => return false
  | e :: l => do
    if ← ask S.cancelEvent then
      setTerminatedBy .cancelled
      return false
    else if !(← ask S.checkWallClock) then
      setTerminatedBy .wallClock
      return false
    else
      match ← dispatch S e with
      | .return_ t =>
        noteTerminatedBy t
        return true
      | .break_ t =>
        noteTerminatedBy t
        return false
      | .continue_ _ => loop raised l

def emitInterrupts : Handler (Run ω κ) Exn Bool := do
  match ← ask S.collectInterrupts with
  | none => return false
  | some actions =>
    barrier S (.turnInterrupted actions)
    return true

/-- The last lines of `_drive_agent_stream`. -/
def failUnlessCancelled : Handler (Run ω κ) Exn Unit := do
  let r ← get
  if r.terminatedBy = .completed then return
  else if ← ask S.cancelEvent then return
  else failWith S r.terminatedBy none

/-- What follows a stream that neither completed nor was interrupted. -/
def recoverStreamBreak : Handler (Run ω κ) Exn Unit := do
  let r ← get
  match ← callHook S fun h => h.onStreamBreak r.terminatedBy with
  | none => failUnlessCancelled S
  | some t =>
    setTerminatedBy t
    match t with
    | .completed => return
    | .cancelled => return
    | .agentRecoveryExhausted => failWith S t none
    | _ => failUnlessCancelled S

/-- What `_drive_agent_stream` does after its loop. -/
def afterLoop : Handler (Run ω κ) Exn Unit := do
  if ← emitInterrupts S then setTerminatedBy .interrupted
  else
    let r ← get
    if r.terminatedBy = .completed then return
    else if ← ask S.cancelEvent then return
    else recoverStreamBreak S

def driveAgentStream (events : List AgentEvent) (raised : Option Exn) : Handler (Run ω κ) Exn Unit := do
  if ← loop S raised events then return
  else afterLoop S

def startSubscribers : List κ → Handler (Run ω κ) Exn Unit
  | [] => return
  | k :: l => do
    ask (S.start k)
    startSubscribers l

def startTurn : Handler (Run ω κ) Exn Unit := do
  startSubscribers S S.subscribers
  barrier S .turnStarting
  doIf (¬ S.isResume) (quietly (ask S.onTurnStartRepair))
  broadcast .turnStarted
  modify fun r => { r with agentStarted := true }

def handleRunException (x : Exn) : Handler (Run ω κ) Exn Unit := do
  setTerminatedBy .internal
  quietly (fail S x (some TerminatedBy.internal.value) none)

def finishTurn : Handler (Run ω κ) Exn Unit := do
  let r ← get
  doIf (r.agentStarted ∧ r.terminatedBy ≠ .completed ∧ r.terminatedBy ≠ .interrupted)
    (quietly (ask S.onTurnCleanupRepair))
  broadcast (.turnEnded r.terminatedBy r.failedEmitted)

/-- `_run`. -/
def run (events : List AgentEvent) (raised : Option Exn) : Handler (Run ω κ) Exn Unit := do
  tryCatch (do startTurn S; driveAgentStream S events raised) (handleRunException S)
  finishTurn S

/-- A run from a given world. -/
def runTurn (events : List AgentEvent) (raised : Option Exn) (world : ω) : Run ω κ :=
  (exec (run S events raised) { RunState.init with ops := [], world }).2

end NexusStudio.Turn
