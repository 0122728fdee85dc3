import NexusStudio.Server.Errors

/-!
# Events of a turn

* (reasons) `TerminatedBy` with its values, `terminationErrorMessages`, the error codes of the stream.
* (agent) the events that the agent's runner yields.
* (bus) the events that the engine puts on the bus of a turn.

The turn id, which every event and frame of a turn repeats, is left out. Arguments of a tool are kept as names with
serialized values.
-/

namespace NexusStudio.Turn

/-! ### Reasons -/

/-- `TurnTerminatedBy`. -/
inductive TerminatedBy
  | completed
  | interrupted
  | cancelled
  | wallClock
  | maxIterations
  | maxTools
  | guardStop
  | guardError
  | turnFailed
  | toolParseFatal
  | internal
  | gatewayUpstreamTimeout
  | gatewayEmptyStream
  | gatewayUpstreamFailed
  | gatewayProtocolError
  | agentRecoveryExhausted
  | emptyResponse
  deriving DecidableEq, Repr

namespace TerminatedBy

def value : TerminatedBy → String
  | completed => "completed"
  | interrupted => "interrupted"
  | cancelled => "cancelled"
  | wallClock => "wall_clock"
  | maxIterations => "max_iterations"
  | maxTools => "max_tools"
  | guardStop => "guard_stop"
  | guardError => "error"
  | turnFailed => "turn_failed"
  | toolParseFatal => "tool_parse_fatal"
  | internal => "internal"
  | gatewayUpstreamTimeout => "gateway_upstream_timeout"
  | gatewayEmptyStream => "gateway_empty_stream"
  | gatewayUpstreamFailed => "gateway_upstream_failed"
  | gatewayProtocolError => "gateway_protocol_error"
  | agentRecoveryExhausted => "agent_recovery_exhausted"
  | emptyResponse => "empty_response"

def members : List TerminatedBy :=
  [completed, interrupted, cancelled, wallClock, maxIterations, maxTools, guardStop, guardError, turnFailed,
    toolParseFatal, internal, gatewayUpstreamTimeout, gatewayEmptyStream, gatewayUpstreamFailed,
    gatewayProtocolError, agentRecoveryExhausted, emptyResponse]

/-- `TurnTerminatedBy(value)`, `none` for a `ValueError`. -/
def ofValue (s : String) : Option TerminatedBy :=
  members.find? fun t => t.value = s

theorem ofValue_value (t : TerminatedBy) : ofValue t.value = some t := by
  cases t <;> decide

/-- The reasons that are a failure of the turn. -/
def Failing (t : TerminatedBy) : Prop :=
  t ≠ completed ∧ t ≠ interrupted ∧ t ≠ cancelled

instance (t : TerminatedBy) : Decidable t.Failing := inferInstanceAs (Decidable (_ ∧ _))

end TerminatedBy

/-- `TERMINATION_ERROR_MESSAGES`. -/
def terminationErrorMessages : TerminatedBy → Option String
  | .completed => none
  | .interrupted => none
  | .cancelled => some "request cancelled"
  | .wallClock => some "本轮执行超时，已终止"
  | .maxIterations => some "max model iterations exceeded"
  | .maxTools => some "max tool calls exceeded"
  | .guardError => some "repeated tool errors"
  | .guardStop => some "guard stopped turn"
  | .toolParseFatal => some "工具参数解析失败"
  | .turnFailed => some "turn failed"
  | .internal => some "internal error"
  | .gatewayUpstreamTimeout => some "模型服务暂时无响应，请重试"
  | .gatewayEmptyStream => some "模型服务暂时无响应，请重试"
  | .gatewayUpstreamFailed => some "模型服务暂时无响应，请重试"
  | .gatewayProtocolError => some "模型服务暂时无响应，请重试"
  | .agentRecoveryExhausted => some "本次回答生成失败，请重试"
  | .emptyResponse => some "模型未返回有效回答"

/-- `TERMINATION_ERROR_MESSAGES.get(terminated_by, str(terminated_by))`. -/
def terminationMessage (t : TerminatedBy) : String :=
  (terminationErrorMessages t).getD t.value

/-- `terminated_by_for_error_class`. -/
def terminatedByForErrorClass (errorClass : Option String) : TerminatedBy :=
  (errorClass.bind TerminatedBy.ofValue).getD .turnFailed

inductive StreamErrorCode
  | agentRecoveryExhausted
  | canvasDuplicateTurn
  | canvasEpisodeBusy
  | canvasSessionBusy
  | emptyResponse
  | executionLost
  | generationFailed
  | generationTimeout
  | gatewayUpstreamFailed
  | internal
  | maxIterations
  | toolParseFatal
  | turnFailed
  | wallClock
  deriving DecidableEq, Repr

namespace StreamErrorCode

def value : StreamErrorCode → String
  | agentRecoveryExhausted => "agent_recovery_exhausted"
  | canvasDuplicateTurn => "canvas_duplicate_turn"
  | canvasEpisodeBusy => "canvas_episode_busy"
  | canvasSessionBusy => "canvas_session_busy"
  | emptyResponse => "empty_response"
  | executionLost => "execution_lost"
  | generationFailed => "generation_failed"
  | generationTimeout => "generation_timeout"
  | gatewayUpstreamFailed => "gateway_upstream_failed"
  | internal => "internal"
  | maxIterations => "max_iterations"
  | toolParseFatal => "tool_parse_fatal"
  | turnFailed => "turn_failed"
  | wallClock => "wall_clock"

def members : List StreamErrorCode :=
  [agentRecoveryExhausted, canvasDuplicateTurn, canvasEpisodeBusy, canvasSessionBusy, emptyResponse, executionLost,
    generationFailed, generationTimeout, gatewayUpstreamFailed, internal, maxIterations, toolParseFatal, turnFailed,
    wallClock]

end StreamErrorCode

/-- `_GATEWAY_STREAM_ERROR_ALIASES`. -/
def gatewayStreamErrorAliases : List String :=
  ["gateway_empty_stream", "gateway_upstream_timeout", "gateway_upstream_failed"]

def normalizeStreamErrorCode (value : Option String) (fallback : StreamErrorCode) : StreamErrorCode :=
  match value with
  | none => fallback
  | some v =>
    if v ∈ gatewayStreamErrorAliases then .gatewayUpstreamFailed
    else (StreamErrorCode.members.find? fun c => c.value = v).getD fallback

/-! ### Agent events -/

inductive Channel
  | answer
  | think
  deriving DecidableEq, Repr

abbrev ToolArgs := List (String × String)

structure ToolCall where
  id : String
  name : String
  args : ToolArgs
  deriving DecidableEq, Repr

/-- An `AIMessage`: its content as text and its tool calls. -/
structure AiMessage where
  content : String
  toolCalls : List ToolCall
  deriving DecidableEq, Repr

/-- A message of the checkpoint. -/
inductive Message
  | human
  | ai (m : AiMessage)
  -- system and tool messages
  | other
  deriving DecidableEq, Repr

structure InvalidToolCall where
  callId : String
  name : String
  rawArguments : String
  parseError : String
  deriving DecidableEq, Repr

/-- What `run_agent_turn_stream` yields. -/
inductive AgentEvent
  | modelToken (step : Nat) (channel : Channel) (text : String)
  | modelStepFinished (step : Nat) (aiMessage : AiMessage) (invalidToolCalls : List InvalidToolCall)
  | toolStarted (step : Nat) (callId toolName : String) (toolArgs : ToolArgs)
  | toolFinished (step : Nat) (callId toolName : String) (toolArgs : ToolArgs) (toolResult : String)
      (toolError : Bool) (errorClass : Option String)
  | turnCompleted (step : Nat) (messages : List Message)
  | turnFailed (step : Nat) (error errorClass : String)
  deriving DecidableEq, Repr

/-! ### Bus events -/

/-- A tool call that waits for an approval. -/
structure PendingToolAction where
  callId : String
  name : String
  summary : String
  args : Option ToolArgs
  deriving DecidableEq, Repr

/-- The events of the bus. `turnInterrupted` carries what `parse_pending_tool_actions` reads from its interrupts and
pending calls. -/
inductive TurnEvent
  | turnStarting
  | turnStarted
  | modelToken (step : Nat) (channel : Channel) (text : String)
  | modelStepFinished (step : Nat) (aiMessage : AiMessage) (invalidToolCalls : List InvalidToolCall)
  | toolStarted (step : Nat) (callId toolName : String) (toolArgs : ToolArgs) (synthetic : Bool)
  | toolFinished (step : Nat) (callId toolName toolResult : String) (toolError : Bool) (errorClass : Option String)
      (synthetic : Bool)
  | turnInterrupted (actions : List PendingToolAction)
  | turnCompleted (messages : List Message) (answerText : String) (toolCallsCount : Nat)
  | turnFailed (error : String) (errorClass : Option String) (step : Option Nat)
  | turnEnded (terminatedBy : TerminatedBy) (failedEmitted : Bool)
  deriving DecidableEq, Repr

inductive TurnEventKind
  | turnStarting
  | turnStarted
  | modelToken
  | modelStepFinished
  | toolStarted
  | toolFinished
  | turnInterrupted
  | turnCompleted
  | turnFailed
  | turnEnded
  deriving DecidableEq, Repr

def TurnEvent.kind : TurnEvent → TurnEventKind
  | turnStarting => .turnStarting
  | turnStarted => .turnStarted
  | modelToken .. => .modelToken
  | modelStepFinished .. => .modelStepFinished
  | toolStarted .. => .toolStarted
  | toolFinished .. => .toolFinished
  | turnInterrupted .. => .turnInterrupted
  | turnCompleted .. => .turnCompleted
  | turnFailed .. => .turnFailed
  | turnEnded .. => .turnEnded

def TurnEvent.isFailed : TurnEvent → Bool
  | turnFailed .. => true
  | _ => false

def TurnEvent.isEnded : TurnEvent → Bool
  | turnEnded .. => true
  | _ => false

/-- The text that an event adds to the answer. -/
def TurnEvent.answer : TurnEvent → String
  | modelToken _ .answer text => text
  | _ => ""

/-- The answer text of a list of events. -/
def answerText (l : List TurnEvent) : String :=
  String.join (l.map TurnEvent.answer)

/-- The answer text that an event reports. -/
def TurnEvent.reported : TurnEvent → Option String
  | turnCompleted _ text _ => some text
  | _ => none

end NexusStudio.Turn
