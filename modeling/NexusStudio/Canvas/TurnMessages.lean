import Mathlib
import NexusStudio.Lib.Machine
import NexusStudio.Turn.EngineFrame
import NexusStudio.Turn.EngineSpec

/-!
# The messages of a canvas session

What the turns of a session leave in its table of messages: `CanvasPersistenceSubscriber` for started turns and
`CanvasResumeSubscriber` for resumed ones, on the turn engine.

* (port) `is_turn_completed`, `find_user_turn_message`, `append_canvas_message`.
* (turns) `start_turn` and `resume_turn` up to the execution, and the surroundings that the canvas mount gives to the
  engine. Everything else that they ask (`Environment`) may answer anything, change with each call and raise.
* (machine) One step is one request with its whole execution; the steps follow one another as the session lock has it.
* (condition) `Safe`: no resumed execution completes, and the empty client turn id is not used twice.
* (result) Under the condition the messages are those that the turns completed with: `recorded_of_safe`.
-/

namespace NexusStudio.TurnMessages

open Handlers Concurrent Turn

/-! ### Messages -/

inductive MessageRole
  | user
  | assistant
  deriving DecidableEq, Repr

/-- `CanvasToolStepMetadata`, as far as a tool's result does not decide it. -/
structure ToolStep where
  callId : String
  name : String
  ok : Bool
  errorType : Option String
  deriving DecidableEq, Repr

/-- `CanvasMessageMetadata`; the input is kept as the text of its snapshot. -/
structure MessageMetadata where
  turnId : String
  clientTurnId : Option String
  phase : Option String
  toolCallsCount : Option Nat
  toolStep : Option ToolStep
  input : Option String
  deriving DecidableEq, Repr

structure CanvasMessage where
  role : MessageRole
  content : String
  metadata : MessageMetadata
  deriving DecidableEq, Repr

/-- The messages of the session, and everything else. -/
structure World (ξ : Type) where
  messages : List CanvasMessage
  env : ξ

/-- What a mounted turn knows of itself. -/
structure TurnContext where
  turnId : String
  clientTurnId : Option String
  content : String
  modelKey : String
  enableTools : Bool
  input : Option String
  isResume : Bool
  deriving DecidableEq, Repr

/-- The rest of the application, with a state of its own. -/
structure Environment (ξ : Type) where
  -- `require_write_scope`, `_assert_episode_writable` and `require_owned_session`
  requireSession : Handler ξ Exn Unit
  -- the claim, the checks of the input, the lock and the preparation of the mount; `false` for a replay
  claim : Handler ξ Exn Bool
  -- the statements on the table of messages
  selectMessages : Handler ξ Exn Unit
  createMessage : Handler ξ Exn Unit
  -- the session exists and is active
  sessionActive : Handler ξ Exn Bool
  touchSession : Handler ξ Exn Unit
  touchEpisode : Handler ξ Exn Unit
  getSessionTitle : Handler ξ Exn (Option String)
  isAutoTitleEligible : String → Bool
  scheduleSessionTitle : Handler ξ Exn Unit
  scheduleMemoryExtract : Handler ξ Exn Unit
  cancelEvent : Handler ξ Exn Bool
  checkWallClock : Handler ξ Exn Bool
  onModelStepFinished : Handler ξ Exn Unit
  exceededModelSteps : Handler ξ Exn Bool
  -- `CanvasTurnGuards.on_tool_finished`, which stops the turn or lets it go on
  stopsTurn : String → Option String → Handler ξ Exn Bool
  lastStopReason : Handler ξ Exn (Option String)
  emitInvalidToolCallFrames : Bool
  healInvalidToolCalls : Bool
  checkpointRepair : Handler ξ Exn Unit
  collectInterrupts : Handler ξ Exn (Option (List PendingToolAction))
  toToolMessage : ToolResult → String

section Model

variable {ξ α : Type} (E : Environment ξ)

/-- A call into the environment. -/
def call (x : Handler ξ Exn α) : Handler (World ξ) Exn α :=
  onPart World.env (fun w e => { w with env := e }) x

/-! ### Port -/

/-- Some message of the role has the client turn id. -/
def hasMessage (role : MessageRole) (clientTurnId : String) (l : List CanvasMessage) : Bool :=
  l.any fun m => m.role = role ∧ m.metadata.clientTurnId = some clientTurnId

def isTurnCompleted (clientTurnId : String) : Handler (World ξ) Exn Bool := do
  call E.selectMessages
  let w ← get
  return hasMessage .assistant clientTurnId w.messages

def findUserTurnMessage (clientTurnId : String) : Handler (World ξ) Exn Bool := do
  call E.selectMessages
  let w ← get
  return hasMessage .user clientTurnId w.messages

def appendCanvasMessage (m : CanvasMessage) : Handler (World ξ) Exn Unit := do
  if ← call E.sessionActive then
    call E.createMessage
    modify fun w => { w with messages := w.messages ++ [m] }
  else throw "canvas session not found"

def countSessionUserMessages : Handler (World ξ) Exn Nat := do
  call E.selectMessages
  let w ← get
  return w.messages.countP fun m => m.role = .user

/-! ### Persistence -/

/-- The message of `CANVAS_DUPLICATE_TURN`. -/
def duplicateTurn : Exn := "canvas turn already completed"

/-- The check of `persist_canvas_user_message` and `start_turn`, for a client turn id that is not empty. -/
def requireNotCompleted (clientTurnId : Option String) : Handler (World ξ) Exn Unit := do
  match clientTurnId.filter (· ≠ "") with
  | none => return
  | some id =>
    if ← isTurnCompleted E id then throw duplicateTurn
    else return

def userMessage (t : TurnContext) : CanvasMessage :=
  ⟨.user, t.content, ⟨t.turnId, t.clientTurnId, none, none, none, t.input⟩⟩

def assistantMessage (t : TurnContext) (content : String) (toolCallsCount : Nat) : CanvasMessage :=
  ⟨.assistant, content, ⟨t.turnId, t.clientTurnId, none, some toolCallsCount, none, none⟩⟩

def toolStepMessage (t : TurnContext) (step : ToolStep) : CanvasMessage :=
  ⟨.assistant, "", ⟨t.turnId, none, some "tool_step", none, some step, none⟩⟩

/-- The search of `persist_canvas_user_message` for a message of an earlier attempt. -/
def findStoredUserMessage (clientTurnId : Option String) : Handler (World ξ) Exn Bool := do
  match clientTurnId.filter (· ≠ "") with
  | none => return false
  | some id => findUserTurnMessage E id

def persistCanvasUserMessage (t : TurnContext) : Handler (World ξ) Exn Bool := do
  requireNotCompleted E t.clientTurnId
  if ← findStoredUserMessage E t.clientTurnId then return false
  else
    appendCanvasMessage E (userMessage t)
    return true

/-- `_maybe_schedule_session_title`. -/
def maybeScheduleSessionTitle (t : TurnContext) : Handler (World ξ) Exn Unit := do
  if t.modelKey = "" ∨ strip t.content = "" then return
  else
    if (← countSessionUserMessages E) ≠ 1 then return
    else
      match ← call E.getSessionTitle with
      | none => return
      | some title => doIf (E.isAutoTitleEligible title) (call E.scheduleSessionTitle)

def persistCanvasToolStep (t : TurnContext) (callId toolName : String) (toolError : Bool)
    (errorClass : Option String) : Handler (World ξ) Exn Unit :=
  appendCanvasMessage E (toolStepMessage t ⟨callId, toolName, !toolError, errorClass⟩)

inductive Subscriber
  | persistence
  | resume
  deriving DecidableEq, Repr

/-- `CanvasPersistenceSubscriber.handle`. -/
def handlePersistence (t : TurnContext) : TurnEvent → Handler (World ξ) Exn Unit
  | .turnStarting => do
    let _ ← persistCanvasUserMessage E t
    call E.touchSession
  | .toolFinished _ callId toolName _ toolError errorClass _ =>
    doIf t.enableTools (persistCanvasToolStep E t callId toolName toolError errorClass)
  | .turnFailed .. => do
    maybeScheduleSessionTitle E t
    call E.touchEpisode
  | .turnCompleted _ answerText toolCallsCount => do
    maybeScheduleSessionTitle E t
    if strip answerText = "" then return
    else
      appendCanvasMessage E (assistantMessage t (strip answerText) toolCallsCount)
      call E.touchEpisode
      call E.scheduleMemoryExtract
  | _ => return

/-- `CanvasResumeSubscriber.handle`, which waits for `TurnCompleted` and does nothing then. -/
def handleResume (t : TurnContext) : TurnEvent → Handler (World ξ) Exn Unit
  | .toolFinished _ callId toolName _ toolError errorClass _ =>
    persistCanvasToolStep E t callId toolName toolError errorClass
  | _ => return

/-! ### The mount -/

/-- `CanvasEmptyAnswerHook`. -/
def emptyAnswerHook : RecoveryHook (World ξ) where
  afterModelStep _ _ _ _ w := (⟨[], .ok none⟩, w)
  beforeComplete _ _ r w :=
    (⟨[], .ok (if strip (String.join r.answerParts) = "" then some .emptyResponse else none)⟩, w)
  onStreamBreak _ _ w := (⟨[], .ok none⟩, w)
  forceFailed _ := none
  forceInterrupted _ := false

/-- `CANVAS_MOUNT`. -/
def surroundings (t : TurnContext) : Surroundings (World ξ) Subscriber where
  -- `_build_subscribers`
  subscribers := if t.isResume then [.resume] else [.persistence]
  barrierEvents k e :=
    match k with
    | .persistence => e = .turnStarting ∨ e = .turnCompleted ∨ e = .turnFailed
    | .resume => e = .turnCompleted
  broadcastEvents _ e := e = .toolFinished
  start _ := pure ()
  handle k e :=
    match k with
    | .persistence => handlePersistence E t e
    | .resume => handleResume E t e
  -- `_recovery`
  recoveryHook := if t.isResume then none else some emptyAnswerHook
  cancelEvent := call E.cancelEvent
  checkWallClock := call E.checkWallClock
  onModelStepFinished := call E.onModelStepFinished
  exceededModelSteps := call E.exceededModelSteps
  onToolFinished toolName errorClass := do
    return if ← call (E.stopsTurn toolName errorClass) then .stopTurn else .continue_
  lastStopReason := call E.lastStopReason
  emitInvalidToolCallFrames := E.emitInvalidToolCallFrames
  healInvalidToolCalls := E.healInvalidToolCalls
  isResume := t.isResume
  onTurnStartRepair := call E.checkpointRepair
  onTurnCleanupRepair := call E.checkpointRepair
  collectInterrupts := call E.collectInterrupts
  toToolMessage := E.toToolMessage

/-- What the subscribers do with the broadcasts of a run; an error of theirs is logged. -/
def serveBroadcasts (S : Surroundings (World ξ) Subscriber) (w : World ξ) : List (BusOp Subscriber) → World ξ
  | [] => w
  | .barrier .. :: l => serveBroadcasts S w l
  | .broadcast e :: l =>
    serveBroadcasts S (S.subscribers.foldl
      (fun w k => if S.broadcastEvents k e.kind then (exec (S.handle k e) w).2 else w) w) l

/-! ### Requests -/

/-- The body of a `CanvasTurnRequest` as `start_turn` has prepared it, with the proposed turn id. -/
structure TurnRequest where
  turnId : String
  clientTurnId : Option String
  content : String
  modelKey : String
  enableTools : Bool
  input : Option String
  deriving DecidableEq, Repr

def TurnRequest.context (q : TurnRequest) : TurnContext :=
  ⟨q.turnId, q.clientTurnId, q.content, q.modelKey, q.enableTools, q.input, false⟩

/-- The body of a `CanvasResumeRequest`, as far as the mount keeps it. -/
structure ResumeRequest where
  clientTurnId : String
  modelKey : String
  deriving DecidableEq, Repr

def ResumeRequest.context (q : ResumeRequest) : TurnContext :=
  ⟨q.clientTurnId, some q.clientTurnId, "", q.modelKey, true, none, true⟩

/-- The checks of `start_turn` up to that for a duplicate. -/
def requireFresh (clientTurnId : Option String) : Handler (World ξ) Exn Unit := do
  call E.requireSession
  requireNotCompleted E clientTurnId

/-- `start_turn` up to the execution; `false` for a request that is only replayed. -/
def startTurn (q : TurnRequest) : Handler (World ξ) Exn Bool := do
  requireFresh E q.clientTurnId
  call E.claim

/-- `resume_turn` up to the execution. -/
def resumeTurn (q : ResumeRequest) : Handler (World ξ) Exn Bool := do
  call E.requireSession
  if q.clientTurnId = "" then throw "client_turn_id is required"
  else call E.claim

/-! ### The machine -/

/-- What `run_agent_turn_stream` yields, and how it ends: a completion comes last, and the error classes of failures
are not that of a completion. -/
structure AgentStream where
  events : List AgentEvent
  raised : Option Exn
  completesLast : CompletesLast events
  failsProperly : ∀ step error c, AgentEvent.turnFailed step error c ∈ events →
    terminatedByForErrorClass (some c) ≠ .completed

/-- An execution that ended completed. -/
structure Completion where
  turnId : String
  clientTurnId : Option String
  answer : String
  deriving DecidableEq, Repr

structure State (ξ : Type) where
  world : World ξ
  -- the turn ids that `start_turn` has proposed
  turnIds : List String
  completed : List Completion

inductive Action
  | startTurn (q : TurnRequest) (x : AgentStream)
  | resumeTurn (q : ResumeRequest) (x : AgentStream)

/-- The execution of a turn. -/
def execution (t : TurnContext) (x : AgentStream) (w : World ξ) : Run (World ξ) Subscriber :=
  runTurn (surroundings E t) x.events x.raised w

/-- The state after an execution. -/
def State.execute (s : State ξ) (t : TurnContext) (x : AgentStream) : State ξ :=
  let r := execution E t x s.world
  { s with
    world := serveBroadcasts (surroundings E t) r.world r.ops
    completed :=
      if r.terminatedBy = .completed then s.completed ++ [⟨t.turnId, t.clientTurnId, String.join r.answerParts⟩]
      else s.completed }

/-- The state after a request that was admitted, replayed or refused. -/
def State.serve (s : State ξ) (entry : Handler (World ξ) Exn Bool) (t : TurnContext) (x : AgentStream) : State ξ :=
  match exec entry s.world with
  | (.ok true, w) => { s with world := w }.execute E t x
  | (_, w) => { s with world := w }

/-- One request. The turn id that `start_turn` proposes is new. -/
def step (s : State ξ) : Action → Option (State ξ)
  | .startTurn q x =>
    if q.turnId ∈ s.turnIds then none
    else some ({ s with turnIds := q.turnId :: s.turnIds }.serve E (startTurn E q) q.context x)
  | .resumeTurn q x => some (s.serve E (resumeTurn E q) q.context x)

/-- A session without messages. -/
def session : Machine (State ξ) Action where
  init s := ∃ env, s = ⟨⟨[], env⟩, [], []⟩
  step := step E

/-! ### The record -/

/-- The final messages of a turn are known by its client turn id, or by its turn id if it has none. -/
def Completion.owns (c : Completion) (m : CanvasMessage) : Bool :=
  decide (m.role = .assistant ∧ m.metadata.phase ≠ some "tool_step") &&
    match c.clientTurnId.filter (· ≠ "") with
    | some id => decide (m.metadata.clientTurnId = some id)
    | none => decide (m.metadata.turnId = c.turnId)

/-- A request with this client turn id is refused: as a duplicate, where the lookups before succeed. -/
def Refused (w : World ξ) (clientTurnId : Option String) : Prop :=
  ∃ e u, exec (requireFresh E clientTurnId) w = (.error e, u) ∧
    ∀ v v', exec E.requireSession w.env = (.ok (), v) → exec E.selectMessages v = (.ok (), v') → e = duplicateTurn

/-- The messages record the turns in the state `s`, for the requests that `C` allows from it. -/
structure RecordedAt (C : State ξ → Action → Prop) (s : State ξ) : Prop where
  answers : ∀ c ∈ s.completed, strip c.answer ≠ "" →
    ∃ m, s.world.messages.filter c.owns = [m] ∧ m.content = strip c.answer
  users : ∀ id, s.world.messages.countP (fun m => m.role = .user ∧ m.metadata.clientTurnId = some id) ≤ 1
  rejected : ∀ c ∈ s.completed, c.clientTurnId ≠ none → ∀ q x, q.clientTurnId = c.clientTurnId →
    C s (.startTurn q x) → Refused E s.world q.clientTurnId

/-- A resumed execution does not end completed, and no turn is started with the empty client turn id once a user
message has it. -/
def Safe (s : State ξ) : Action → Prop
  | .startTurn q _ => q.clientTurnId = some "" → hasMessage .user "" s.world.messages = false
  | .resumeTurn q x => (s.serve E (resumeTurn E q) q.context x).completed = s.completed

instance (s : State ξ) (a : Action) : Decidable (Safe E s a) :=
  match a with
  | .startTurn q _ => inferInstanceAs (Decidable (q.clientTurnId = some "" → _))
  | .resumeTurn .. => inferInstanceAs (Decidable (State.completed _ = _))

/-! ### The port -/

variable {E} {t : TurnContext} {l l' : List CanvasMessage}

theorem keeps_call (x : Handler ξ Exn α) : Keeps World.messages (call x) :=
  keeps_onPart fun _ _ => rfl

/-- What an environment's call leaves of the messages. -/
theorem triple_call (x : Handler ξ Exn α) (P : List CanvasMessage → Prop) :
    Triple (fun w => P w.messages) (call x) (fun _ w => P w.messages) fun _ w => P w.messages :=
  (keeps_call x).triple P

/-- No message of the role has the client turn id, unless it is empty or missing. -/
def Absent (role : MessageRole) (clientTurnId : Option String) (l : List CanvasMessage) : Prop :=
  ∀ id, clientTurnId.filter (· ≠ "") = some id → hasMessage role id l = false

theorem triple_requireNotCompleted (c : Option String) :
    Triple (fun w : World ξ => w.messages = l) (requireNotCompleted E c)
      (fun _ w => Absent .assistant c l ∧ w.messages = l) fun _ w => w.messages = l := by
  unfold requireNotCompleted Absent
  split
  · next hc =>
    refine triple_pure fun w hw => ⟨fun id hid => ?_, hw⟩
    rw [hc] at hid
    cases hid
  · next id hc =>
    refine Triple.bind (Q := fun b w => b = hasMessage .assistant id l ∧ w.messages = l) ?_ fun b => ?_
    · refine Triple.bind (triple_call _ (· = l)) fun _ => triple_get_bind fun w => triple_pure ?_
      rintro _ ⟨hw, rfl⟩
      exact ⟨by rw [hw], hw⟩
    · refine Triple.ite (fun _ => triple_throw fun w hw => hw.2) fun hb => triple_pure fun w hw => ⟨?_, hw.2⟩
      intro id' hid
      rw [hc] at hid
      obtain rfl := Option.some.inj hid
      rw [← hw.1]
      exact Bool.eq_false_of_not_eq_true hb

theorem triple_findStoredUserMessage (c : Option String) :
    Triple (fun w : World ξ => w.messages = l) (findStoredUserMessage E c)
      (fun b w => ((b = true → c ≠ some "") ∧ (b = false → Absent .user c l)) ∧ w.messages = l)
      fun _ w => w.messages = l := by
  unfold findStoredUserMessage Absent
  split
  · next hc =>
    refine triple_pure fun w hw => ⟨⟨nofun, fun _ id hid => ?_⟩, hw⟩
    rw [hc] at hid
    cases hid
  · next id hc =>
    refine Triple.bind (triple_call _ (· = l)) fun _ => triple_get_bind fun w => triple_pure ?_
    rintro _ ⟨hw, rfl⟩
    refine ⟨⟨fun _ hempty => ?_, fun hb id' hid => ?_⟩, hw⟩
    · rw [hempty] at hc
      cases hc
    · rw [hc] at hid
      obtain rfl := Option.some.inj hid
      rwa [hw] at hb

theorem triple_appendCanvasMessage (m : CanvasMessage) :
    Triple (fun w : World ξ => w.messages = l) (appendCanvasMessage E m) (fun _ w => w.messages = l ++ [m])
      fun _ w => w.messages = l := by
  refine Triple.bind (triple_call _ (· = l)) fun b => Triple.ite (fun _ => ?_) fun _ => triple_throw fun _ h => h
  exact Triple.bind (triple_call _ (· = l)) fun _ => triple_modify fun w hw => by rw [hw]

theorem keeps_maybeScheduleSessionTitle : Keeps World.messages (maybeScheduleSessionTitle E t) := by
  have hc : Keeps World.messages (countSessionUserMessages E) :=
    (keeps_call _).bind fun _ => keeps_get.bind fun _ => keeps_pure _
  refine Keeps.ite (keeps_pure _) (hc.bind fun n => Keeps.ite (keeps_pure _) ?_)
  refine (keeps_call _).bind fun o => ?_
  cases o with
  | none => exact keeps_pure _
  | some title => exact (keeps_call _).doIf

/-! ### The subscribers -/

/-- What the start of a turn leaves of the messages `l`. -/
structure Begun (t : TurnContext) (l l' : List CanvasMessage) : Prop where
  unanswered : Absent .assistant t.clientTurnId l
  stored : l' = l ∧ t.clientTurnId ≠ some "" ∨ l' = l ++ [userMessage t] ∧ Absent .user t.clientTurnId l

theorem triple_turnStarting :
    Triple (fun w : World ξ => w.messages = l) (handlePersistence E t .turnStarting)
      (fun _ w => Begun t l w.messages) fun _ w => w.messages = l ∨ Begun t l w.messages := by
  refine Triple.bind (Q := fun _ w => Begun t l w.messages) ?_ fun _ =>
    (triple_call _ (Begun t l)).err fun _ _ h => .inr h
  refine Triple.err (E := fun _ w => w.messages = l) ?_ fun _ _ h => .inl h
  refine Triple.bind (triple_requireNotCompleted _) fun _ => triple_assume fun ha => ?_
  refine Triple.bind (triple_findStoredUserMessage _) fun b => triple_assume fun hb => ?_
  cases b with
  | true => exact triple_pure fun w hw => ⟨ha, .inl ⟨hw, hb.1 rfl⟩⟩
  | false =>
    refine Triple.bind (triple_appendCanvasMessage _) fun _ => triple_pure fun w hw => ?_
    exact ⟨ha, .inr ⟨hw, hb.2 rfl⟩⟩

theorem triple_turnCompleted (messages : List Message) (answer : String) (n : Nat) (ha : strip answer ≠ "") :
    Triple (fun w : World ξ => w.messages = l) (handlePersistence E t (.turnCompleted messages answer n))
      (fun _ w => w.messages = l ++ [assistantMessage t (strip answer) n])
      fun _ w => w.messages = l ∨ w.messages = l ++ [assistantMessage t (strip answer) n] := by
  refine Triple.bind ((keeps_maybeScheduleSessionTitle.triple (· = l)).err fun _ _ h => .inl h) fun _ => ?_
  rw [if_neg ha]
  refine Triple.bind ((triple_appendCanvasMessage _).err fun _ _ h => .inl h) fun _ => ?_
  refine Triple.bind ((triple_call _ (· = l ++ [_])).err fun _ _ h => .inr h) fun _ => ?_
  exact (triple_call _ (· = l ++ [_])).err fun _ _ h => .inr h

theorem keeps_handlePersistence {e : TurnEvent} (hb : e.kind = .turnFailed) :
    Keeps World.messages (handlePersistence E t e) := by
  cases e with
  | turnFailed error errorClass step => exact keeps_maybeScheduleSessionTitle.bind fun _ => keeps_call _
  | _ => cases hb

theorem keeps_handleResume {e : TurnEvent} (hb : e.kind = .turnCompleted) :
    Keeps World.messages (handleResume E t e) := by
  cases e with
  | turnCompleted messages answer n => exact keeps_pure _
  | _ => cases hb

/-- Tool steps of the turn are added. -/
def Steps (t : TurnContext) (l l' : List CanvasMessage) : Prop :=
  ∃ steps, l' = l ++ steps ∧ ∀ m ∈ steps, ∃ step, m = toolStepMessage t step

theorem Steps.refl (t : TurnContext) (l : List CanvasMessage) : Steps t l l :=
  ⟨[], (List.append_nil l).symm, fun _ hm => absurd hm List.not_mem_nil⟩

theorem Steps.trans {l'' : List CanvasMessage} (h : Steps t l l') (h' : Steps t l' l'') : Steps t l l'' := by
  obtain ⟨s, rfl, hs⟩ := h
  obtain ⟨s', rfl, hs'⟩ := h'
  refine ⟨s ++ s', List.append_assoc .., fun m hm => ?_⟩
  rcases List.mem_append.1 hm with hm | hm
  · exact hs m hm
  · exact hs' m hm

theorem triple_toolFinished (k : Subscriber) {e : TurnEvent} (he : e.kind = .toolFinished) :
    Triple (fun w : World ξ => w.messages = l) ((surroundings E t).handle k e) (fun _ w => Steps t l w.messages)
      fun _ w => Steps t l w.messages := by
  cases e with
  | toolFinished step callId toolName result toolError errorClass synthetic =>
    have hnone : ∀ w : World ξ, w.messages = l → Steps t l w.messages := by
      rintro w rfl
      exact .refl t _
    have hstep : Triple (fun w : World ξ => w.messages = l)
        (persistCanvasToolStep E t callId toolName toolError errorClass) (fun _ w => Steps t l w.messages)
        fun _ w => Steps t l w.messages :=
      (triple_appendCanvasMessage _).mono (fun _ h => h)
        (fun _ w hw => ⟨_, hw, fun m hm => ⟨_, List.mem_singleton.1 hm⟩⟩) fun _ w hw => hnone w hw
    cases k with
    | persistence => exact Triple.ite (fun _ => hstep) fun _ => triple_pure hnone
    | resume => exact hstep
  | _ => cases he

theorem steps_serveBroadcasts (w : World ξ) (ops : List (BusOp Subscriber)) :
    Steps t w.messages (serveBroadcasts (surroundings E t) w ops).messages := by
  induction ops generalizing w with
  | nil => exact .refl t _
  | cons o ops ih =>
    cases o with
    | barrier e reached => exact ih w
    | broadcast e =>
      refine Steps.trans ?_ (ih _)
      generalize (surroundings E t).subscribers = ks
      induction ks generalizing w with
      | nil => exact .refl t _
      | cons k ks ihk =>
        rw [List.foldl_cons]
        refine Steps.trans ?_ (ihk _)
        split
        · next hb =>
          have he : e.kind = .toolFinished := of_decide_eq_true hb
          exact (triple_toolFinished (E := E) k he).final rfl
        · exact .refl t _

theorem leavesMidTurn : (surroundings E t).LeavesMidTurn World.messages where
  start _ _ := keeps_pure _
  handle k _ e hb hs hc := by
    cases k with
    | persistence => exact keeps_handlePersistence (((of_decide_eq_true hb).resolve_left hs).resolve_left hc)
    | resume => exact absurd (of_decide_eq_true hb) hc
  recoveryHook h hh := by
    have hh : (if t.isResume then none else some emptyAnswerHook) = some h := hh
    split at hh
    · cases hh
    · cases hh
      exact ⟨fun _ _ _ _ _ => rfl, fun _ _ _ _ => rfl, fun _ _ _ => rfl⟩
  cancelEvent := keeps_call _
  checkWallClock := keeps_call _
  onModelStepFinished := keeps_call _
  exceededModelSteps := keeps_call _
  onToolFinished _ _ := (keeps_call _).bind fun _ => keeps_pure _
  lastStopReason := keeps_call _
  onTurnStartRepair := keeps_call _
  onTurnCleanupRepair := keeps_call _
  collectInterrupts := keeps_call _

theorem leaves_resumed (ht : t.isResume = true) : (surroundings E t).Leaves World.messages where
  toLeavesMidTurn := leavesMidTurn
  onEvent k hk e hb := by
    have hk : k ∈ if t.isResume then [Subscriber.resume] else [.persistence] := hk
    rw [if_pos ht, List.mem_singleton] at hk
    subst hk
    exact keeps_handleResume (of_decide_eq_true hb)

/-! ### The execution of a started turn -/

/-- Before the completion: the messages are `l`. -/
def Going (l : List CanvasMessage) (r : Run (World ξ) Subscriber) : Prop :=
  r.world.messages = l ∧ r.terminatedBy ≠ .completed

/-- After the report of the completion: the answer is stored. -/
def Stored (t : TurnContext) (l : List CanvasMessage) (r : Run (World ξ) Subscriber) : Prop :=
  strip (String.join r.answerParts) ≠ "" ∧
    ∃ n, r.world.messages = l ++ [assistantMessage t (strip (String.join r.answerParts)) n]

/-- At the end: no answer is stored, or one, and a completed turn has stored its answer. -/
def Closed (t : TurnContext) (l : List CanvasMessage) (r : Run (World ξ) Subscriber) : Prop :=
  Going l r ∨ ∃ text n, text ≠ "" ∧ r.world.messages = l ++ [assistantMessage t text n] ∧
    (r.terminatedBy = .completed → text = strip (String.join r.answerParts))

/-- Where an exception leaves the turn. -/
def Broken (t : TurnContext) (l : List CanvasMessage) (r : Run (World ξ) Subscriber) : Prop :=
  r.world.messages = l ∨ ∃ text n, text ≠ "" ∧ r.world.messages = l ++ [assistantMessage t text n]

theorem Stored.closed {r : Run (World ξ) Subscriber} (h : Stored t l r) : Closed t l r := by
  obtain ⟨hs, n, hm⟩ := h
  exact .inr ⟨_, n, hs, hm, fun _ => rfl⟩

theorem Going.broken {r : Run (World ξ) Subscriber} (h : Going l r) : Broken t l r := .inl h.1

theorem Closed.broken {r : Run (World ξ) Subscriber} (h : Closed t l r) : Broken t l r := by
  rcases h with h | ⟨text, n, ht, hm, -⟩
  · exact h.broken
  · exact .inr ⟨text, n, ht, hm⟩

/-- A turn that has broken off ends with another reason. -/
theorem Broken.closed {r : Run (World ξ) Subscriber} (h : Broken t l r) {u : TerminatedBy} (hu : u ≠ .completed) :
    Closed t l { r with terminatedBy := u } := by
  rcases h with h | ⟨text, n, ht, hm⟩
  · exact .inl ⟨h, hu⟩
  · exact .inr ⟨text, n, ht, hm, fun h => absurd h hu⟩

/-- Whatever leaves the messages and the reason alone goes on. -/
theorem going_of_keeps {x : Handler (Run (World ξ) Subscriber) Exn α} (hx : Keeps (stagePart World.messages) x) :
    Triple (Going l) x (fun _ => Going l) fun _ => Going l :=
  hx.triple fun p => p.2 = l ∧ p.1 ≠ .completed

/-- A barrier with one subscriber runs its handler. -/
theorem triple_barrier {S : Surroundings (World ξ) Subscriber} {k : Subscriber} {e : TurnEvent}
    {P : World ξ → Prop} {Q F : World ξ → Prop} {R : RunState → Prop} (hk : S.subscribers = [k])
    (hb : S.barrierEvents k e.kind) (hx : Triple P (S.handle k e) (fun _ => Q) fun _ => F) :
    Triple (fun r : Run (World ξ) Subscriber => P r.world ∧ R r.toRunState) (barrier S e)
      (fun _ r => Q r.world ∧ R r.toRunState) fun _ r => F r.world ∧ R r.toRunState := by
  intro r hr
  rw [barrier, exec_bind_ok _ exec_get, exec_bind_ok _ (exec_modify _), exec_orRaise, hk]
  have h := hx r.world hr.1
  simp only [Surroundings.meet, hb, if_true]
  generalize exec (S.handle k e) r.world = o at h ⊢
  rcases o with ⟨x | a, w⟩
  · exact ⟨h, hr.2⟩
  · exact ⟨h, hr.2⟩

section Started

variable (ht : t.isResume = false)
include ht

theorem subscribers_started : (surroundings E t).subscribers = [.persistence] :=
  if_neg (by rw [ht]; decide)

theorem recoveryHook_started : (surroundings E t).recoveryHook = some emptyAnswerHook :=
  if_neg (by rw [ht]; decide)

theorem triple_startTurn :
    Triple (Going l) (Turn.startTurn (surroundings E t))
      (fun _ r => Begun t l r.world.messages ∧ r.terminatedBy ≠ .completed)
      fun _ r => r.world.messages = l ∨ Begun t l r.world.messages := by
  have hm : (surroundings E t).LeavesMidTurn World.messages := leavesMidTurn
  refine Triple.bind ((going_of_keeps (l := l) (leaves_startSubscribers hm _ fun _ hk => hk)).err
    fun _ _ h => .inl h.1) fun _ => ?_
  refine Triple.bind (Q := fun _ r => Begun t l r.world.messages ∧ r.terminatedBy ≠ .completed) ?_ fun _ => ?_
  · have hx : Triple _ ((surroundings E t).handle .persistence .turnStarting) _ _ := triple_turnStarting (l := l)
    exact (triple_barrier (R := fun s => s.terminatedBy ≠ .completed) (subscribers_started ht) rfl hx).err
      fun _ _ h => h.1
  · have hrest : Keeps (stagePart World.messages) (do
        doIf (¬ (surroundings E t).isResume) (quietly (ask (surroundings E t).onTurnStartRepair))
        broadcast .turnStarted
        modify fun r => { r with agentStarted := true } : Handler (Run (World ξ) Subscriber) Exn Unit) :=
      (leaves_quietly (leaves_ask hm.onTurnStartRepair)).doIf.bind fun _ =>
        (leaves_broadcast _).bind fun _ => keeps_modify fun _ => rfl
    exact (hrest.triple fun p => Begun t l p.2 ∧ p.1 ≠ .completed).err fun _ _ h => .inr h.1

/-- The hook rejects a blank answer and says nothing otherwise. -/
theorem exec_beforeComplete (step : Nat) (messages : List Message) (r : Run (World ξ) Subscriber) :
    exec (callHook (surroundings E t) fun h => h.beforeComplete step messages) r =
      (.ok (if strip (String.join r.answerParts) = "" then some .emptyResponse else none), r) := by
  rw [callHook, exec_bind_ok _ exec_get, recoveryHook_started ht]
  rfl

theorem triple_reportCompleted (messages : List Message) :
    Triple (fun r => Going l r ∧ strip (String.join r.answerParts) ≠ "")
      (reportCompleted (surroundings E t) messages) (fun _ => Stored t l) fun _ => Broken t l := by
  refine triple_get_bind fun r => ?_
  by_cases hs : strip (String.join r.answerParts) = ""
  · rintro s ⟨⟨-, hne⟩, rfl⟩
    exact absurd hs hne
  refine Triple.pre (P := fun s => s.world.messages = l ∧ s.toRunState = r.toRunState) ?_ ?_
  · refine Triple.bind (Q := fun _ => Stored t l) ?_ fun _ => ?_
    · refine (triple_barrier (R := (· = r.toRunState)) (subscribers_started ht) rfl
        (triple_turnCompleted messages _ r.toolCallsCount hs)).mono (fun _ h => h) ?_ ?_
      · rintro _ s ⟨hm, hr⟩
        have hp : s.answerParts = r.answerParts := congrArg RunState.answerParts hr
        exact ⟨hp ▸ hs, r.toolCallsCount, hp ▸ hm⟩
      · rintro _ s ⟨hm | hm, -⟩
        · exact .inl hm
        · exact .inr ⟨_, _, hs, hm⟩
    · exact triple_modify fun _ h => h
  · rintro s ⟨⟨hg, -⟩, rfl⟩
    exact ⟨hg.1, rfl⟩

/-- The loop is left, with a completion. -/
def Completes : HandlerResult → Prop
  | .continue_ _ => False
  | .break_ u => u = some .completed
  | .return_ u => u = some .completed

theorem triple_handleTurnCompleted (step : Nat) (messages : List Message) :
    Triple (Going l) (handleTurnCompleted (surroundings E t) step messages)
      (fun a r => (Going l r ∨ Stored t l r ∧ r.terminatedBy = .completed ∧ a = .continue_ (some .completed)) ∧
        ¬ Completes a) fun _ => Broken t l := by
  have hm : (surroundings E t).LeavesMidTurn World.messages := leavesMidTurn
  refine Triple.bind ((going_of_keeps (leaves_backfillFinalAnswer messages)).err fun _ _ h => h.broken) fun _ => ?_
  refine Triple.bind (triple_reads (exec_beforeComplete ht step messages)) fun o => ?_
  have hfailed : Triple (Going l) (do
      failWith (surroundings E t) .emptyResponse (some step)
      return .return_ (some .emptyResponse)) (fun a r => (Going l r ∨ Stored t l r ∧ r.terminatedBy = .completed ∧
        a = .continue_ (some .completed)) ∧ ¬ Completes a) fun _ => Broken t l := by
    refine Triple.bind ((going_of_keeps (leaves_fail hm _ _ _)).err fun _ _ h => h.broken) fun _ => ?_
    exact triple_pure fun s h => ⟨.inl h, by simp [Completes]⟩
  cases o with
  | some u =>
    by_cases hu : u = .emptyResponse
    · subst hu
      exact hfailed.pre fun _ h => h.1
    · refine Triple.pre (P := fun _ => False) (fun _ h => h.elim) fun r h => ?_
      have ho := h.2
      split at ho
      · exact hu (Option.some.inj ho)
      · cases ho
  | none =>
    refine Triple.pre (P := fun r => Going l r ∧ strip (String.join r.answerParts) ≠ "") ?_ fun r h => ⟨h.1, ?_⟩
    · refine Triple.bind (triple_reportCompleted ht messages) fun _ => triple_get_bind fun s => ?_
      rw [recoveryHook_started ht]
      refine Triple.bind (Q := fun _ u => Stored t l u ∧ u.terminatedBy = .completed) ?_ fun _ =>
        triple_pure fun u h => ⟨.inr ⟨h.1, h.2, rfl⟩, id⟩
      exact triple_modify fun u h => ⟨h.1, rfl⟩
    · intro hs
      have ho := h.2
      rw [if_pos hs] at ho
      cases ho

/-- No other event leaves the loop with a completion. -/
theorem triple_dispatch_mid (x : AgentStream) (e : AgentEvent) (he : e ∈ x.events) (hc : e.isCompleted = false) :
    Triple (fun _ => True) (dispatch (surroundings E t) e) (fun a _ => ¬ Completes a) fun _ _ => True := by
  cases e with
  | modelToken step channel text =>
    exact Triple.bind triple_true fun _ => Triple.bind triple_true fun _ => triple_pure fun _ _ => id
  | toolStarted step callId toolName toolArgs =>
    exact Triple.bind triple_true fun _ => triple_pure fun _ _ => id
  | modelStepFinished step m inv =>
    have hfail : ∀ u : TerminatedBy, u ≠ .completed → ∀ r : Run (World ξ) Subscriber, True →
        ¬ Completes (.return_ (some u)) := fun u hu _ _ h => hu (Option.some.inj h)
    have hfinish : Triple (fun _ => True) (finishModelStep (surroundings E t) step m inv)
        (fun a _ => ¬ Completes a) fun _ _ => True := by
      have hhook : ∀ r : Run (World ξ) Subscriber,
          exec (callHook (surroundings E t) fun h => h.afterModelStep step m inv) r = (.ok none, r) := by
        intro r
        rw [callHook, exec_bind_ok _ exec_get, recoveryHook_started ht]
        rfl
      refine Triple.bind (triple_reads hhook) fun o => triple_assume_right fun ho => ?_
      subst ho
      have hback : Triple (fun _ : Run (World ξ) Subscriber => True) (backfillStepAnswer step m) (fun _ _ => True)
        fun _ _ => True := triple_true
      exact Triple.bind hback fun _ => triple_pure fun _ _ => id
    refine Triple.bind triple_true fun _ => Triple.bind triple_true fun _ => Triple.bind triple_true fun b => ?_
    refine Triple.ite (fun _ => triple_pure fun _ _ h => by cases h) fun _ => Triple.bind triple_true fun _ => ?_
    cases inv with
    | nil => exact hfinish
    | cons c inv =>
      exact Triple.ite (fun _ => Triple.bind triple_true fun _ => triple_pure (hfail _ (by decide))) fun _ => hfinish
  | toolFinished step callId toolName toolArgs toolResult toolError errorClass =>
    refine Triple.bind triple_true fun _ => Triple.bind triple_true fun _ => ?_
    have hguard : Triple (fun _ : World ξ => True) ((surroundings E t).onToolFinished toolName errorClass)
        (fun a _ => a ≠ .browserBlocked) fun _ _ => True :=
      Triple.bind triple_true fun b => triple_pure fun _ _ => by cases b <;> exact fun h => by cases h
    refine Triple.bind (triple_ask hguard) fun a => ?_
    · cases a with
      | browserBlocked => exact fun r hr => absurd rfl hr
      | continue_ => exact triple_pure fun _ _ => id
      | stopTurn =>
        refine Triple.bind (triple_true.pre fun _ _ => trivial) fun o => triple_pure fun _ _ h => ?_
        split at h <;> cases h
  | turnFailed step error errorClass =>
    refine Triple.bind triple_true fun _ => triple_pure fun _ _ h => ?_
    exact x.failsProperly step error errorClass he (Option.some.inj h)
  | turnCompleted step messages => cases hc

/-- In the loop: a completed turn has stored its answer. -/
def Looped (t : TurnContext) (l : List CanvasMessage) (r : Run (World ξ) Subscriber) : Prop :=
  Going l r ∨ Stored t l r ∧ r.terminatedBy = .completed

theorem triple_dispatch (x : AgentStream) (e : AgentEvent) (he : e ∈ x.events) :
    Triple (Going l) (dispatch (surroundings E t) e)
      (fun a r => Looped t l r ∧ ¬ Completes a ∧ (Going l r ∨ e.isCompleted ∧ a = .continue_ (some .completed)))
      fun _ => Broken t l := by
  cases hc : e.isCompleted with
  | false =>
    have hmid : Keeps (stagePart World.messages) (dispatch (surroundings E t) e) := by
      refine leaves_dispatch_mid leavesMidTurn e fun step messages h => ?_
      rw [h] at hc
      cases hc
    refine ((going_of_keeps hmid).and (triple_dispatch_mid ht x e he hc)).mono (fun _ h => ⟨h, trivial⟩) ?_ ?_
    · exact fun a r h => ⟨.inl h.1, h.2, .inl h.1⟩
    · exact fun _ r h => h.1.broken
  | true =>
    cases e with
    | turnCompleted step messages =>
      refine (triple_handleTurnCompleted ht step messages).post ?_
      rintro a r ⟨hg | ⟨hs, htb, ha⟩, hn⟩
      · exact ⟨.inl hg, hn, .inl hg⟩
      · exact ⟨.inr ⟨hs, htb⟩, hn, .inr ⟨rfl, ha⟩⟩
    | _ => cases hc

omit ht in
theorem triple_loop_nil (raised : Option Exn) :
    Triple (Looped t l) (loop (surroundings E t) raised []) (fun _ => Looped t l) fun _ => Broken t l := by
  have hb : ∀ r : Run (World ξ) Subscriber, Looped t l r → Broken t l r := by
    rintro r (h | h)
    · exact h.broken
    · exact h.1.closed.broken
  cases raised with
  | some e => exact triple_throw hb
  | none => exact triple_pure fun _ h => h

/-- The loop, by induction on the events: a handler that goes on leaves the turn going, or it has stored the answer
and saw the last event. -/
theorem triple_loop (x : AgentStream) (events : List AgentEvent) (hsub : events ⊆ x.events)
    (hlast : CompletesLast events) :
    Triple (Going l) (loop (surroundings E t) x.raised events) (fun _ => Looped t l) fun _ => Broken t l := by
  have hm : (surroundings E t).LeavesMidTurn World.messages := leavesMidTurn
  induction events with
  | nil => exact (triple_loop_nil x.raised).pre fun _ h => .inl h
  | cons e events ih =>
    refine Triple.bind ((going_of_keeps (leaves_ask hm.cancelEvent)).err fun _ _ h => h.broken) fun cancelled => ?_
    refine Triple.ite (fun _ => ?_) fun _ => ?_
    · exact Triple.bind (Q := fun _ => Looped t l) (triple_modify fun r h => .inl ⟨h.1, nofun⟩) fun _ =>
        triple_pure fun _ h => h
    refine Triple.bind ((going_of_keeps (leaves_ask hm.checkWallClock)).err fun _ _ h => h.broken) fun inTime => ?_
    refine Triple.ite (fun _ => ?_) fun _ => ?_
    · exact Triple.bind (Q := fun _ => Looped t l) (triple_modify fun r h => .inl ⟨h.1, nofun⟩) fun _ =>
        triple_pure fun _ h => h
    refine Triple.bind (triple_dispatch ht x e (hsub List.mem_cons_self)) fun a => ?_
    have hnote : ∀ u : Option TerminatedBy, u ≠ some .completed →
        Triple (Going l) (noteTerminatedBy u : Handler (Run (World ξ) Subscriber) Exn Unit)
          (fun _ => Looped t l) fun _ => Broken t l := by
      refine fun u hu => triple_modify fun r h => .inl ⟨h.1, ?_⟩
      cases u with
      | none => exact h.2
      | some u => exact fun h => hu (congrArg some h)
    cases a with
    | continue_ u =>
      intro r hr
      rcases hr.2.2 with hg | ⟨he, -⟩
      · exact ih (fun _ h => hsub (List.mem_cons_of_mem _ h)) hlast.2 r hg
      · rw [hlast.1 he]
        exact triple_loop_nil x.raised r hr.1
    | break_ u | return_ u =>
      intro r hr
      have hg : Going l r := hr.2.2.resolve_right fun h => by cases h.2
      exact (Triple.bind (hnote u hr.2.1) fun _ => triple_pure fun _ h => h) r hg

omit ht in
theorem keeps_answerParts_barrier (S : Surroundings (World ξ) Subscriber) (e : TurnEvent) :
    Keeps (fun r => r.answerParts) (barrier S e) := by
  intro r
  rw [barrier, exec_bind_ok _ exec_get, exec_bind_ok _ (exec_modify _), exec_orRaise]

theorem triple_afterLoop :
    Triple (Looped t l) (afterLoop (surroundings E t)) (fun _ => Closed t l) fun _ => Broken t l := by
  have hm : (surroundings E t).LeavesMidTurn World.messages := leavesMidTurn
  have hlooped : ∀ r : Run (World ξ) Subscriber, Looped t l r → Closed t l r := by
    rintro r (h | h)
    · exact .inl h
    · exact h.1.closed
  have hparts : Keeps (fun r : Run (World ξ) Subscriber => r.answerParts) (emitInterrupts (surroundings E t)) := by
    refine Keeps.bind (keeps_onPart fun _ _ => rfl) fun o => ?_
    cases o with
    | none => exact keeps_pure _
    | some actions => exact (keeps_answerParts_barrier _ _).bind fun _ => keeps_pure _
  have hemit : Triple (Looped t l) (emitInterrupts (surroundings E t)) (fun _ => Looped t l) fun _ => Looped t l :=
    (hparts.prod (leaves_emitInterrupts hm)).triple fun p => (p.2.2 = l ∧ p.2.1 ≠ .completed) ∨
      (strip (String.join p.1) ≠ "" ∧ ∃ n, p.2.2 = l ++ [assistantMessage t (strip (String.join p.1)) n]) ∧
        p.2.1 = .completed
  refine Triple.bind (hemit.err fun _ _ h => (hlooped _ h).broken) fun interrupted => ?_
  refine Triple.ite (fun _ => triple_modify fun r h => (hlooped r h).broken.closed nofun) fun _ => ?_
  refine triple_get_bind fun r => Triple.ite (fun _ => triple_pure fun s h => hlooped s h.1) fun hc => ?_
  refine Triple.pre (P := Going l) ?_ fun s h => h.1.resolve_right fun hs => hc (h.2 ▸ hs.2)
  refine Triple.bind ((going_of_keeps (leaves_ask hm.cancelEvent)).err fun _ _ h => h.broken) fun cancelled => ?_
  refine Triple.ite (fun _ => triple_pure fun _ h => .inl h) fun _ => triple_get_bind fun u => ?_
  refine Triple.pre (P := Going l) ?_ fun s h => h.1
  have hhook : ∀ s : Run (World ξ) Subscriber,
      exec (callHook (surroundings E t) fun h => h.onStreamBreak u.terminatedBy) s = (.ok none, s) := by
    intro s
    rw [callHook, exec_bind_ok _ exec_get, recoveryHook_started ht]
    rfl
  refine Triple.bind (triple_reads hhook) fun o => triple_assume_right fun ho => ?_
  subst ho
  exact (going_of_keeps (leaves_failUnlessCancelled hm)).mono (fun _ h => h) (fun _ _ h => .inl h)
    fun _ _ h => h.broken

theorem triple_driveAgentStream (x : AgentStream) :
    Triple (Going l) (driveAgentStream (surroundings E t) x.events x.raised) (fun _ => Closed t l)
      fun _ => Broken t l := by
  refine Triple.bind (triple_loop ht x x.events (List.Subset.refl _) x.completesLast) fun returned => ?_
  refine Triple.ite (fun _ => triple_pure fun r h => ?_) fun _ => triple_afterLoop ht
  rcases h with h | h
  · exact .inl h
  · exact h.1.closed

omit ht in
/-- An exception leaves the messages alone, and the turn does not end completed. -/
theorem triple_handleRunException (x : Exn) (P : List CanvasMessage → Prop) :
    Triple (fun r => P r.world.messages) (handleRunException (surroundings E t) x)
      (fun _ r => P r.world.messages ∧ r.terminatedBy ≠ .completed) fun _ _ => False := by
  refine Triple.bind (Q := fun _ r => P r.world.messages ∧ r.terminatedBy ≠ .completed)
    (triple_modify fun r h => ⟨h, nofun⟩) fun _ => ?_
  have hfail := (leaves_fail (leavesMidTurn (E := E) (t := t)) x (some TerminatedBy.internal.value) none).triple
    fun p => P p.2 ∧ p.1 ≠ .completed
  exact hfail.tryCatch fun _ => triple_pure fun _ h => h

/-- What a started execution leaves: nothing, or the beginning and the end of its turn. -/
def Executed (t : TurnContext) (l : List CanvasMessage) (r : Run (World ξ) Subscriber) : Prop :=
  Going l r ∨ ∃ l', Begun t l l' ∧ Closed t l' r

theorem triple_body (x : AgentStream) :
    Triple (Going l) (tryCatch (do Turn.startTurn (surroundings E t)
                                   driveAgentStream (surroundings E t) x.events x.raised)
        (handleRunException (surroundings E t))) (fun _ => Executed t l) fun _ _ => False := by
  refine Triple.tryCatch (F := fun _ r => r.world.messages = l ∨
    ∃ l', Begun t l l' ∧ Broken t l' r) ?_ fun e => ?_
  · refine Triple.bind ((triple_startTurn ht).err fun _ r h => ?_) fun _ r hr => ?_
    · exact h.imp_right fun h => ⟨_, h, .inl rfl⟩
    · have hd := triple_driveAgentStream (E := E) ht (l := r.world.messages) x r ⟨rfl, hr.2⟩
      generalize exec (driveAgentStream (surroundings E t) x.events x.raised) r = o at hd ⊢
      rcases o with ⟨e | u, s⟩
      · exact .inr ⟨_, hr.1, hd⟩
      · exact .inr ⟨_, hr.1, hd⟩
  · refine (triple_handleRunException e fun m => m = l ∨ ∃ l', Begun t l l' ∧
      (m = l' ∨ ∃ text n, text ≠ "" ∧ m = l' ++ [assistantMessage t text n])).post ?_
    rintro _ r ⟨h | ⟨l', hbegun, hb⟩, hr⟩
    · exact .inl ⟨h, hr⟩
    · have hb : Broken t l' r := hb
      exact .inr ⟨l', hbegun, hb.closed hr⟩

theorem executed_execution (x : AgentStream) (w : World ξ) : Executed t w.messages (execution E t x w) := by
  have hbody := triple_body (E := E) ht x { RunState.init with ops := [], world := w } ⟨rfl, nofun⟩
  rcases hx : exec (tryCatch (do Turn.startTurn (surroundings E t)
                                 driveAgentStream (surroundings E t) x.events x.raised)
      (handleRunException (surroundings E t))) { RunState.init with ops := [], world := w } with ⟨e | u, r⟩
  · rw [hx] at hbody
    exact hbody.elim
  · rw [hx] at hbody
    have hm : (exec (finishTurn (surroundings E t)) r).2.world.messages = r.world.messages :=
      leaves_world (leaves_finishTurn (leavesMidTurn (E := E) (t := t))) r
    obtain ⟨v, hv⟩ := exec_finishTurn (S := surroundings E t) r
    have hrun : execution E t x w = { r with
        world := v, ops := r.ops ++ [.broadcast (.turnEnded r.terminatedBy r.failedEmitted)] } :=
      congrArg Prod.snd ((exec_bind_ok (fun _ => finishTurn (surroundings E t)) hx).trans hv)
    rw [hv] at hm
    rw [hrun]
    have hbody : Executed t w.messages r := hbody
    rcases hbody with ⟨hw, hr⟩ | ⟨l', hb, ⟨hw, hr⟩ | ⟨text, n, ht, hw, hr⟩⟩
    · exact .inl ⟨hm.trans hw, hr⟩
    · exact .inr ⟨l', hb, .inl ⟨hm.trans hw, hr⟩⟩
    · exact .inr ⟨l', hb, .inr ⟨text, n, ht, hm.trans hw, hr⟩⟩

end Started

theorem messages_resumed (ht : t.isResume = true) (x : AgentStream) (w : World ξ) :
    (execution E t x w).world.messages = w.messages :=
  leaves_run (leaves_resumed (E := E) ht) x.events x.raised _

/-! ### One request -/

theorem keeps_requireFresh (c : Option String) : Keeps World.messages (requireFresh E c) := by
  refine (keeps_call _).bind fun _ => ?_
  unfold requireNotCompleted
  split
  · exact keeps_pure _
  · refine Keeps.bind ?_ fun b => Keeps.ite (keeps_throw _) (keeps_pure _)
    exact (keeps_call _).bind fun _ => keeps_get.bind fun _ => keeps_pure _

theorem keeps_startTurn (q : TurnRequest) : Keeps World.messages (startTurn E q) :=
  (keeps_requireFresh _).bind fun _ => keeps_call _

theorem keeps_resumeTurn (q : ResumeRequest) : Keeps World.messages (resumeTurn E q) :=
  (keeps_call _).bind fun _ => Keeps.ite (keeps_throw _) (keeps_call _)

variable {s s' : State ξ}

/-- A request is answered without an execution, or executed from the messages that it found. -/
theorem serve_cases {entry : Handler (World ξ) Exn Bool} (hk : Keeps World.messages entry) (x : AgentStream) :
    (∃ w, s.serve E entry t x = { s with world := w } ∧ w.messages = s.world.messages) ∨
      ∃ w, s.serve E entry t x = { s with world := w }.execute E t x ∧ w.messages = s.world.messages := by
  have hm := hk s.world
  unfold State.serve
  split
  · next w h =>
    rw [h] at hm
    exact .inr ⟨w, rfl, hm⟩
  · next o w _ h =>
    rw [h] at hm
    exact .inl ⟨w, rfl, hm⟩

/-- What a request of `start_turn` does. -/
inductive Started (q : TurnRequest) (s s' : State ξ) : Prop
  -- nothing but tool steps is stored
  | none (h : Steps q.context s.world.messages s'.world.messages) (hc : s'.completed = s.completed)
  | begun (l : List CanvasMessage) (hb : Begun q.context s.world.messages l)
      (h : Steps q.context l s'.world.messages) (hc : s'.completed = s.completed)
  | answered (l : List CanvasMessage) (text : String) (n : Nat) (hb : Begun q.context s.world.messages l)
      (ht : text ≠ "") (h : Steps q.context (l ++ [assistantMessage q.context text n]) s'.world.messages)
      (hc : s'.completed = s.completed ∨
        ∃ answer, s'.completed = s.completed ++ [⟨q.turnId, q.clientTurnId, answer⟩] ∧ text = strip answer)

theorem started_step {q : TurnRequest} {x : AgentStream} (h : step E s (.startTurn q x) = some s') :
    q.turnId ∉ s.turnIds ∧ s'.turnIds = q.turnId :: s.turnIds ∧ Started q s s' := by
  simp only [step, Option.ite_none_left_eq_some, Option.some.injEq] at h
  obtain ⟨hq, rfl⟩ := h
  refine ⟨hq, ?_⟩
  rcases serve_cases (s := { s with turnIds := q.turnId :: s.turnIds }) (keeps_startTurn (E := E) q)
    (t := q.context) x with ⟨w, hs, hw⟩ | ⟨w, hs, hw⟩
  · rw [hs]
    refine ⟨rfl, .none ?_ rfl⟩
    rw [hw]
    exact .refl ..
  · rw [hs]
    refine ⟨rfl, ?_⟩
    have hex := executed_execution (E := E) (t := q.context) rfl x w
    have hsteps := steps_serveBroadcasts (E := E) (t := q.context) (execution E q.context x w).world
      (execution E q.context x w).ops
    rw [hw] at hex
    rcases hex with ⟨hm, hn⟩ | ⟨l, hb, ⟨hm, hn⟩ | ⟨text, n, ht, hm, hn⟩⟩
    · exact .none (by rw [← hm]; exact hsteps) (if_neg hn)
    · exact .begun l hb (by rw [← hm]; exact hsteps) (if_neg hn)
    · refine .answered l text n hb ht (by rw [← hm]; exact hsteps) ?_
      by_cases hc : (execution E q.context x w).terminatedBy = .completed
      · exact .inr ⟨_, if_pos hc, hn hc⟩
      · exact .inl (if_neg hc)

theorem resumed_step {q : ResumeRequest} {x : AgentStream} (h : step E s (.resumeTurn q x) = some s') :
    s'.turnIds = s.turnIds ∧ Steps q.context s.world.messages s'.world.messages := by
  obtain rfl := Option.some.inj h
  rcases serve_cases (s := s) (keeps_resumeTurn (E := E) q) (t := q.context) x with ⟨w, hs, hw⟩ | ⟨w, hs, hw⟩
  · rw [hs]
    exact ⟨rfl, hw ▸ .refl ..⟩
  · rw [hs]
    refine ⟨rfl, ?_⟩
    rw [← hw, ← messages_resumed (E := E) (t := q.context) rfl x w]
    exact steps_serveBroadcasts ..

/-! ### The invariant -/

/-- A final message of the turn id. -/
def CanvasMessage.finalOf (m : CanvasMessage) (turnId : String) : Bool :=
  m.role = .assistant ∧ m.metadata.phase ≠ some "tool_step" ∧ m.metadata.turnId = turnId

/-- A message of the role with the client turn id. -/
def CanvasMessage.has (role : MessageRole) (id : String) (m : CanvasMessage) : Bool :=
  m.role = role ∧ m.metadata.clientTurnId = some id

theorem countP_of_absent {role : MessageRole} {id : String} (h : hasMessage role id l = false) :
    l.countP (CanvasMessage.has role id) = 0 :=
  List.countP_eq_zero.2 (List.any_eq_false.1 h)

/-- The record of the turns is one for each client turn id and each turn id. -/
structure Inv (l : List CanvasMessage) (ids : List String) (done : List Completion) : Prop where
  users : ∀ id, l.countP (CanvasMessage.has .user id) ≤ 1
  answers : ∀ id, id ≠ "" → l.countP (CanvasMessage.has .assistant id) ≤ 1
  finals : ∀ id, l.countP (CanvasMessage.finalOf · id) ≤ if id ∈ ids then 1 else 0
  kept : ∀ c ∈ done, ∃ n, (⟨.assistant, strip c.answer, ⟨c.turnId, c.clientTurnId, none, n, none, none⟩⟩ :
    CanvasMessage) ∈ l
  empty : ∀ c ∈ done, c.clientTurnId = some "" → hasMessage .user "" l

variable {ids : List String} {done : List Completion}

theorem hasMessage_append {role : MessageRole} {id : String} (m : List CanvasMessage)
    (h : hasMessage role id l = true) : hasMessage role id (l ++ m) = true := by
  rw [hasMessage, List.any_append, Bool.or_eq_true]
  exact .inl h

theorem Inv.steps (hI : Inv l ids done) (h : Steps t l l') : Inv l' ids done := by
  obtain ⟨steps, rfl, hs⟩ := h
  have hzero : ∀ p : CanvasMessage → Bool, (∀ step, p (toolStepMessage t step) = false) → steps.countP p = 0 := by
    intro p hp
    refine List.countP_eq_zero.2 fun m hm => ?_
    obtain ⟨step, rfl⟩ := hs m hm
    rw [hp step]
    decide
  refine ⟨fun id => ?_, fun id hid => ?_, fun id => ?_, fun c hc => ?_, fun c hc hid => ?_⟩
  · rw [List.countP_append, hzero _ fun step => rfl]
    exact hI.users id
  · rw [List.countP_append, hzero _ fun step => rfl]
    exact hI.answers id hid
  · rw [List.countP_append, hzero _ fun step => by simp [CanvasMessage.finalOf, toolStepMessage]]
    exact hI.finals id
  · obtain ⟨n, hn⟩ := hI.kept c hc
    exact ⟨n, List.mem_append_left _ hn⟩
  · exact hasMessage_append _ (hI.empty c hc hid)

theorem Inv.grow (hI : Inv l ids done) (id : String) : Inv l (id :: ids) done where
  users := hI.users
  answers := hI.answers
  finals id' := by
    refine (hI.finals id').trans ?_
    by_cases h : id' ∈ ids
    · rw [if_pos h, if_pos (List.mem_cons_of_mem _ h)]
    · rw [if_neg h]
      exact Nat.zero_le _
  kept := hI.kept
  empty := hI.empty

/-- The beginning of a turn whose client turn id is not the empty one again. -/
theorem Inv.begun (hI : Inv l ids done) (h : Begun t l l')
    (hempty : t.clientTurnId = some "" → hasMessage .user "" l = false) : Inv l' ids done := by
  rcases h.stored with ⟨rfl, -⟩ | ⟨rfl, ha⟩
  · exact hI
  refine ⟨fun id => ?_, fun id hid => ?_, fun id => ?_, fun c hc => ?_, fun c hc hid => ?_⟩
  · rw [List.countP_append, List.countP_singleton]
    split
    · next hid =>
      have hid : t.clientTurnId = some id := (of_decide_eq_true hid).2
      have hno : hasMessage .user id l = false := by
        by_cases he : id = ""
        · subst he
          exact hempty hid
        · exact ha id (by rw [hid, Option.filter_some, if_pos (by simpa using he)])
      rw [countP_of_absent hno]
    · exact hI.users id
  · rw [List.countP_append, List.countP_singleton, if_neg (by simp [CanvasMessage.has, userMessage])]
    exact hI.answers id hid
  · rw [List.countP_append, List.countP_singleton, if_neg (by simp [CanvasMessage.finalOf, userMessage])]
    exact hI.finals id
  · obtain ⟨n, hn⟩ := hI.kept c hc
    exact ⟨n, List.mem_append_left _ hn⟩
  · exact hasMessage_append _ (hI.empty c hc hid)

/-- The answer of a turn with a new turn id. -/
theorem Inv.answered (hI : Inv l ids done) (ht : t.turnId ∉ ids) (ha : Absent .assistant t.clientTurnId l)
    (text : String) (n : Nat) : Inv (l ++ [assistantMessage t text n]) (t.turnId :: ids) done := by
  refine ⟨fun id => ?_, fun id hid => ?_, fun id => ?_, fun c hc => ?_, fun c hc hid => ?_⟩
  · rw [List.countP_append, List.countP_singleton, if_neg (by simp [CanvasMessage.has, assistantMessage])]
    exact hI.users id
  · rw [List.countP_append, List.countP_singleton]
    split
    · next h =>
      have h : t.clientTurnId = some id := (of_decide_eq_true h).2
      rw [countP_of_absent (ha id (by rw [h, Option.filter_some, if_pos (by simpa using hid)]))]
    · exact hI.answers id hid
  · have hid := hI.finals id
    rw [List.countP_append, List.countP_singleton]
    by_cases h : id = t.turnId
    · subst h
      rw [if_neg ht] at hid
      rw [Nat.le_zero.1 hid, if_pos List.mem_cons_self]
      split <;> decide
    · rw [if_neg (by simpa [CanvasMessage.finalOf, assistantMessage] using Ne.symm h)]
      refine hid.trans (le_of_eq ?_)
      simp [h]
  · obtain ⟨n, hn⟩ := hI.kept c hc
    exact ⟨n, List.mem_append_left _ hn⟩
  · exact hasMessage_append _ (hI.empty c hc hid)

theorem Begun.unanswered_after (h : Begun t l l') : Absent .assistant t.clientTurnId l' := by
  intro id hid
  have hl := h.unanswered id hid
  rcases h.stored with ⟨rfl, -⟩ | ⟨rfl, -⟩
  · exact hl
  · rw [hasMessage, List.any_append, Bool.or_eq_false_iff]
    exact ⟨hl, by simp [userMessage]⟩

theorem Begun.empty (h : Begun t l l') (ht : t.clientTurnId = some "") : hasMessage .user "" l' := by
  rcases h.stored with ⟨-, hne⟩ | ⟨rfl, -⟩
  · exact absurd ht hne
  · simp [hasMessage, userMessage, ht]

theorem Steps.mem (h : Steps t l l') {m : CanvasMessage} (hm : m ∈ l) : m ∈ l' := by
  obtain ⟨steps, rfl, -⟩ := h
  exact List.mem_append_left _ hm

theorem Steps.hasMessage (h : Steps t l l') {role : MessageRole} {id : String}
    (hm : hasMessage role id l = true) : TurnMessages.hasMessage role id l' = true := by
  obtain ⟨steps, rfl, -⟩ := h
  exact hasMessage_append _ hm

/-- Every request that meets the condition keeps the invariant. -/
theorem inv_step {a : Action} (hI : Inv s.world.messages s.turnIds s.completed) (hC : Safe E s a)
    (h : step E s a = some s') : Inv s'.world.messages s'.turnIds s'.completed := by
  cases a with
  | startTurn q x =>
    obtain ⟨hq, hids, heff⟩ := started_step h
    rw [hids]
    cases heff with
    | none hs hc =>
      rw [hc]
      exact (hI.grow q.turnId).steps hs
    | begun l hb hs hc =>
      rw [hc]
      exact ((hI.begun hb hC).grow q.turnId).steps hs
    | answered l text n hb ht hs hc =>
      have hI' := ((hI.begun hb hC).answered (t := q.context) hq hb.unanswered_after text n).steps hs
      rcases hc with hc | ⟨answer, hc, rfl⟩
      · rw [hc]
        exact hI'
      · rw [hc]
        have hm : assistantMessage q.context (strip answer) n ∈ s'.world.messages :=
          hs.mem (List.mem_append_right _ (List.mem_singleton_self _))
        refine ⟨hI'.users, hI'.answers, hI'.finals, fun c hmem => ?_, fun c hmem hid => ?_⟩
        · rcases List.mem_append.1 hmem with hmem | hmem
          · exact hI'.kept c hmem
          · rw [List.mem_singleton.1 hmem]
            exact ⟨some n, hm⟩
        · rcases List.mem_append.1 hmem with hmem | hmem
          · exact hI'.empty c hmem hid
          · rw [List.mem_singleton.1 hmem] at hid
            exact hs.hasMessage (hasMessage_append _ (hb.empty hid))
  | resumeTurn q x =>
    obtain ⟨hids, hs⟩ := resumed_step h
    obtain rfl := Option.some.inj h
    have hc : (s.serve E (resumeTurn E q) q.context x).completed = s.completed := hC
    rw [hids, hc]
    exact hI.steps hs

theorem inv_reach (h : (session E).Reach (Safe E) s) : Inv s.world.messages s.turnIds s.completed := by
  refine h.induct (P := fun s => Inv s.world.messages s.turnIds s.completed) ?_
    fun _ _ _ hI hC ht => inv_step hI hC ht
  rintro _ ⟨env, rfl⟩
  exact ⟨fun _ => Nat.zero_le _, fun _ _ => Nat.zero_le _, fun _ => Nat.zero_le _, nofun, nofun⟩

/-! ### The condition is enough -/

theorem filter_eq_singleton {p : CanvasMessage → Bool} {m : CanvasMessage} (hl : l.countP p ≤ 1) (hm : m ∈ l)
    (hp : p m = true) : l.filter p = [m] := by
  have hmem : m ∈ l.filter p := List.mem_filter.2 ⟨hm, hp⟩
  have hpos := List.length_pos_of_mem hmem
  rw [List.countP_eq_length_filter] at hl
  obtain ⟨x, hx⟩ := List.length_eq_one_iff.1 (Nat.le_antisymm hl hpos)
  rw [hx] at hmem ⊢
  rw [List.mem_singleton.1 hmem]

theorem owns_of_none {c : Completion} (hc : c.clientTurnId.filter (· ≠ "") = none) (m : CanvasMessage) :
    c.owns m = m.finalOf c.turnId := by
  rw [Completion.owns, hc]
  simp [CanvasMessage.finalOf, Bool.and_assoc]

theorem owns_of_some {c : Completion} {id : String} (hc : c.clientTurnId.filter (· ≠ "") = some id)
    (m : CanvasMessage) :
    c.owns m = (decide (m.metadata.phase ≠ some "tool_step") && m.has .assistant id) := by
  rw [Completion.owns, hc]
  simp [CanvasMessage.has, Bool.and_assoc, Bool.and_left_comm]

/-- The final messages of a turn are one at most. -/
theorem Inv.owned (hI : Inv l ids done) (c : Completion) : l.countP c.owns ≤ 1 := by
  cases hid : c.clientTurnId.filter (· ≠ "") with
  | none =>
    rw [funext (owns_of_none hid)]
    exact (hI.finals c.turnId).trans (by split <;> omega)
  | some id =>
    have hne : id ≠ "" := by simpa using (Option.filter_eq_some_iff.1 hid).2
    rw [funext (owns_of_some hid)]
    exact (List.countP_mono_left fun m _ h => (Bool.and_eq_true_iff.1 h).2).trans (hI.answers id hne)

/-- A request whose client turn id is answered is refused. -/
theorem refused_of_answered {w : World ξ} {id : String} (hid : id ≠ "")
    (h : hasMessage .assistant id w.messages = true) : Refused E w (some id) := by
  have hfilter : (some id).filter (· ≠ "") = some id := by simpa using hid
  have hcheck : requireFresh E (some id) = (do
      call E.requireSession
      if ← isTurnCompleted E id then throw duplicateTurn else return) := by
    rw [requireFresh, requireNotCompleted, hfilter]
  rw [Refused, hcheck]
  rcases hs : exec E.requireSession w.env with ⟨e | u, v⟩
  · refine ⟨e, { w with env := v }, exec_bind_error _ (by rw [call, exec_onPart, hs]), fun _ _ h => ?_⟩
    cases h
  rw [exec_bind_ok _ (show exec (call E.requireSession) w = (.ok u, { w with env := v }) by
    rw [call, exec_onPart, hs])]
  rcases hq : exec E.selectMessages v with ⟨e | u', v'⟩
  · refine ⟨e, { w with env := v' }, ?_, fun x x' hx hx' => ?_⟩
    · refine exec_bind_error _ (exec_bind_error _ ?_)
      rw [call, exec_onPart, hq]
    · cases hx
      rw [hq] at hx'
      cases hx'
  · refine ⟨duplicateTurn, { w with env := v' }, ?_, fun _ _ _ _ => rfl⟩
    have hdone : exec (isTurnCompleted E id) { w with env := v } = (.ok true, { w with env := v' }) := by
      rw [isTurnCompleted, exec_bind_ok _ (show exec (call E.selectMessages) { w with env := v } =
        (.ok u', { w with env := v' }) by rw [call, exec_onPart, hq]), exec_bind_ok _ exec_get, exec_pure, h]
    rw [exec_bind_ok _ hdone]
    rfl

/-- In every run that meets the condition, a completed turn has one final message, with its answer, no client turn id
has two user messages, and a turn that has completed is not started again. -/
theorem recorded_of_safe (h : (session E).Reach (Safe E) s) : RecordedAt E (Safe E) s where
  answers c hc _ := by
    have hI := inv_reach h
    obtain ⟨n, hn⟩ := hI.kept c hc
    refine ⟨_, filter_eq_singleton (hI.owned c) hn ?_, rfl⟩
    cases hid : c.clientTurnId.filter (· ≠ "") with
    | none => simp [owns_of_none hid, CanvasMessage.finalOf]
    | some id => simpa [owns_of_some hid, CanvasMessage.has] using (Option.filter_eq_some_iff.1 hid).1
  users := (inv_reach h).users
  rejected c hc hne q x hq hC := by
    have hI := inv_reach h
    obtain ⟨id, hid⟩ := Option.ne_none_iff_exists'.1 hne
    by_cases hempty : id = ""
    · subst hempty
      have hno := hC (hq.trans hid)
      rw [hI.empty c hc hid] at hno
      cases hno
    · rw [hq, hid]
      obtain ⟨n, hn⟩ := hI.kept c hc
      exact refused_of_answered hempty (List.any_eq_true.2 ⟨_, hn, by simpa using hid⟩)

/-! ### The condition is exact -/

/-- A resumed execution that completes stores no final message for its turn. -/
theorem unrecorded_of_not_safe {q : ResumeRequest} {x : AgentStream} (h : step E s (.resumeTurn q x) = some s')
    (hC : ¬ Safe E s (.resumeTurn q x)) :
    ∃ answer, s'.completed = s.completed ++ [⟨q.clientTurnId, some q.clientTurnId, answer⟩] ∧
      ∀ c : Completion, s'.world.messages.filter c.owns = s.world.messages.filter c.owns := by
  obtain ⟨-, steps, hsteps, hs⟩ := resumed_step h
  obtain rfl := Option.some.inj h
  have hfilter : ∀ c : Completion, steps.filter c.owns = [] := by
    refine fun c => List.filter_eq_nil_iff.2 fun m hm => ?_
    obtain ⟨step, rfl⟩ := hs m hm
    simp [Completion.owns, toolStepMessage]
  have hkept : ∀ c : Completion, (s.serve E (resumeTurn E q) q.context x).world.messages.filter c.owns =
      s.world.messages.filter c.owns := by
    intro c
    rw [hsteps, List.filter_append, hfilter c, List.append_nil]
  change ¬ (s.serve E (resumeTurn E q) q.context x).completed = s.completed at hC
  rcases serve_cases (s := s) (keeps_resumeTurn (E := E) q) (t := q.context) x with ⟨w, he, -⟩ | ⟨w, he, -⟩
  · rw [he] at hC
    exact absurd rfl hC
  · rw [he] at hC hkept ⊢
    simp only [State.execute] at hC hkept ⊢
    split at hC
    · next hc => exact ⟨_, if_pos hc, hkept⟩
    · exact absurd rfl hC

end Model

/-! ### Runs -/

/-- An environment where every call succeeds, and a tool call waits for its approval while the state says so. -/
def calm : Environment Bool where
  requireSession := pure ()
  claim := pure true
  selectMessages := pure ()
  createMessage := pure ()
  sessionActive := pure true
  touchSession := pure ()
  touchEpisode := pure ()
  getSessionTitle := pure none
  isAutoTitleEligible _ := true
  scheduleSessionTitle := pure ()
  scheduleMemoryExtract := pure ()
  cancelEvent := pure false
  checkWallClock := pure true
  onModelStepFinished := pure ()
  exceededModelSteps := pure false
  stopsTurn _ _ := pure false
  lastStopReason := pure none
  emitInvalidToolCallFrames := true
  healInvalidToolCalls := true
  checkpointRepair := pure ()
  collectInterrupts := do
    let waiting ← get
    set false
    return if waiting then some [⟨"call-1", "apply_canvas_patch", "", none⟩] else none
  toToolMessage r := r.output

/-- The agent says a text and comes to its end, or to an interrupt. -/
def answering (text : String) : AgentStream where
  events := [.modelToken 0 .answer text, .turnCompleted 0 [.human]]
  raised := none
  completesLast := ⟨nofun, fun _ => rfl, trivial⟩
  failsProperly step error c h := by simp at h

/-- A turn, and a resume of it. -/
def turnOne : TurnRequest := ⟨"turn-1", some "c1", "Draw a fox", "model", true, none⟩

def resumeOne : ResumeRequest := ⟨"c1", "model"⟩

/-- A turn completes and is started again. -/
theorem recorded_after_repeat :
    ∃ s, (session calm).Reach (Safe calm) s ∧ s.completed = [⟨"turn-1", some "c1", "Done"⟩] ∧
      RecordedAt calm (Safe calm) s := by
  obtain ⟨s, -, hr, hp⟩ := Machine.reach_of_exec (M := session calm) (C := Safe calm) (s := ⟨⟨[], false⟩, [], []⟩)
    (p := fun s => decide (s.completed = [⟨"turn-1", some "c1", "Done"⟩]))
    [.startTurn turnOne (answering "Done"), .startTurn { turnOne with turnId := "turn-2" } (answering "Done")] ⟨_, rfl⟩
    (by decide)
  exact ⟨s, hr, of_decide_eq_true hp, recorded_of_safe hr⟩

/-- A turn waits for an approval, is resumed and completes: its answer is not stored. -/
theorem not_recorded : ¬ ∀ s, (session calm).Reach Free s → RecordedAt calm Free s := by
  intro hall
  obtain ⟨s, -, hr, hp⟩ := Machine.reach_of_exec (M := session calm) (C := Free) (s := ⟨⟨[], true⟩, [], []⟩)
    (p := fun s => decide (s.completed = [⟨"c1", some "c1", "Done"⟩] ∧
      ∀ m ∈ s.world.messages, m.content ≠ "Done"))
    [.startTurn turnOne (answering "May I?"), .resumeTurn resumeOne (answering "Done")] ⟨_, rfl⟩ (by decide)
  obtain ⟨hc, hm⟩ := of_decide_eq_true hp
  obtain ⟨m, hf, hd⟩ := (hall s hr).answers ⟨"c1", some "c1", "Done"⟩ (hc ▸ List.mem_singleton_self _) (by decide)
  have hmem : m ∈ s.world.messages := (List.mem_filter.1 (hf ▸ List.mem_singleton_self m)).1
  exact hm m hmem (hd.trans (by decide))

end NexusStudio.TurnMessages
