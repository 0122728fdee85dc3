import NexusStudio.Chat.GatePending
import NexusStudio.Chat.Replay

/-!
# The requests that start a turn

* (store) the conversation rows, the gate state in Redis and in the workspace, the turn lock, the replay store.
* (service) `prepareTurn` and `prepareResumeTurn`.
* (endpoints) `streamMessage` and `resumeTurn`, which end in `claimAndStart`.

What is read from the deployment (model registry, asset rows, skills, the hash of a request) is a parameter.
-/

namespace NexusStudio.Chat

open Handlers Gate Replay

/-- The `details` of the errors raised here. -/
inductive Details
  | gatePending (g : GatePending)
  | upgradeInvitePending (proposalId : Nat)
  | activeTurn (turnId : String)
  deriving DecidableEq

abbrev Error := Failure Details

/-! ### Store -/

inductive ConversationStatus
  | active
  | closed
  deriving DecidableEq, Repr

/-- The entries of a `ChatConversations` row that are read here. -/
structure Conversation where
  userId : Nat
  status : ConversationStatus
  kind : String
  deriving DecidableEq, Repr

/-- A file `gate_{gate_id}*` of a workspace: which gate it belongs to, and the rest of its name. -/
structure GateAsset where
  gateId : String
  suffix : String
  deriving DecidableEq, Repr

/-- An execution that was handed to the background supervisor. -/
structure Execution where
  requestId : String
  conversationId : Nat
  turnId : String
  deriving DecidableEq, Repr

structure Store where
  conversations : Nat → Option Conversation
  -- `chat:gate_pending:{conversation_id}`
  gatePending : Nat → Option RawGate
  -- `chat:gate_meta:{gate_id}`, serialized
  gateMeta : String → Option String
  -- the gate files in the workspace of a user and a conversation
  gateAssets : Nat → Nat → List GateAsset
  -- the pending proposal of a user and a conversation
  upgradeInvites : Nat → Nat → Option Nat
  -- `chat:turn_lock:{conversation_id}`
  turnLock : Nat → Option String
  replay : ReplayKeys
  executions : List Execution

/-! ### Requests -/

/-- `TurnContentBlock` and `TurnMaterialBlock`. -/
inductive Block
  | text (text : String)
  | skill (path : String)
  | media (assetId : Nat)
  | node (nodeId : String)
  deriving DecidableEq, Repr

/-- `MessageStreamRequest` without its request id; `rest` stands for what is only handed to the execution. -/
structure StreamBody where
  conversationId : Nat
  content : List Block
  materials : List Block
  model : String
  projectId : Option Nat
  rest : String
  deriving DecidableEq, Repr

inductive ResumeAction
  | submit
  | cancel
  deriving DecidableEq, Repr

/-- `TurnResumeRequest` without its request id; `fields` is serialized. -/
structure ResumeBody where
  conversationId : Nat
  turnId : String
  gateId : String
  model : String
  action : ResumeAction
  fields : Option String
  deriving DecidableEq, Repr

inductive Body
  | stream (b : StreamBody)
  | resume (b : ResumeBody)

/-- A request of a user: its body, its request id and its header `Last-Event-ID`. -/
structure Request (β : Type) where
  userId : Nat
  requestId : String
  body : β
  lastEventId : Option String

/-- What the endpoints read beside the store. -/
structure Deployment where
  -- `get_model_spec` raises for a model whose capabilities are unknown
  getModelSpec : String → Except Error Unit
  -- `build_request_fingerprint`
  fingerprint : RequestKind → Nat → Nat → Body → String
  -- `enrich_turn_user_input` of a user, content, materials and project
  enrich : Nat → List Block → List Block → Option Nat → Except Error (List Block)
  -- `resolve_selected` of a user, a project and paths
  resolveSelected : Nat → Option Nat → List String → Except Error Unit

/-! ### Gate state -/

/-- What `get_gate_pending` finds under the key of a conversation. -/
def Store.stored (s : Store) (conversationId : Nat) : Except String (Option GatePending) :=
  parseGatePendingRaw (s.gatePending conversationId)

def getGatePending (conversationId : Nat) : Handler Store Error (Option GatePending) := do
  match (← get).stored conversationId with
  | .ok pending => return pending
  | .error message => throw (.value message)

def Store.setGatePending (s : Store) (conversationId : Nat) (raw : Option RawGate) : Store :=
  { s with gatePending := Function.update s.gatePending conversationId raw }

def updateGatePendingStatus (conversationId : Nat) (status : Gate.Status) : Handler Store Error Unit := do
  match ← getGatePending conversationId with
  | none => return
  | some g => modify fun s => s.setGatePending conversationId (some (.object (dump { g with status })))

/-- `delete_gate_assets` in the workspace of a user and a conversation. -/
def Store.deleteGateAssets (s : Store) (userId conversationId : Nat) (gateId : String) : Store :=
  { s with
    gateAssets := Function.update s.gateAssets userId (Function.update (s.gateAssets userId) conversationId
      ((s.gateAssets userId conversationId).filter fun f => f.gateId ≠ gateId)) }

def Store.clearGateMeta (s : Store) (gateId : String) : Store :=
  { s with gateMeta := Function.update s.gateMeta gateId none }

def clearStaleGateEphemeral (conversationId userId : Nat) : Handler Store Error Unit := do
  match ← getGatePending conversationId with
  | none => return
  | some g =>
    if g.status = .pending then return
    else
      modify fun s => s.setGatePending conversationId none
      modify fun s => s.deleteGateAssets userId conversationId g.gateId
      modify fun s => s.clearGateMeta g.gateId

/-! ### Service -/

def getOwnedConversation (userId conversationId : Nat) : Handler Store Error Conversation := do
  match (← get).conversations conversationId with
  | some row =>
    if row.userId = userId ∧ row.status = .active then return row
    else throw (.app .resourceNotFound "conversation not found" none)
  | none => throw (.app .resourceNotFound "conversation not found" none)

def requireTurnModel (d : Deployment) (model : Option String) : Except Error String := do
  let key := strip (model.getD "")
  if key = "" then throw (.app .invalidParams "model is required" none)
  d.getModelSpec key
  return key

/-- The gate check of `prepare_turn`. -/
def refusePendingGate (userId conversationId : Nat) : Handler Store Error Unit := do
  match ← getGatePending conversationId with
  | none => return
  | some g =>
    if g.status = .pending then
      throw (.app .conversationBusy s!"conversation {conversationId} awaiting user gate" (some (.gatePending g)))
    else clearStaleGateEphemeral conversationId userId

/-- The check of `prepare_turn` for an upgrade invite. -/
def refuseUpgradeInvite (userId conversationId : Nat) : Handler Store Error Unit := do
  match (← get).upgradeInvites userId conversationId with
  | none => return
  | some proposalId =>
    throw (.app .conversationBusy s!"conversation {conversationId} awaiting upgrade invite"
      (some (.upgradeInvitePending proposalId)))

def prepareTurn (d : Deployment) (userId conversationId : Nat) (model : Option String) :
    Handler Store Error (Conversation × String) := do
  let conversation ← getOwnedConversation userId conversationId
  refusePendingGate userId conversationId
  refuseUpgradeInvite userId conversationId
  let modelKey ← orRaise (requireTurnModel d model)
  return (conversation, modelKey)

def prepareResumeTurn (d : Deployment) (userId conversationId : Nat) (turnId : String) (model : Option String) :
    Handler Store Error (Conversation × String) := do
  let conversation ← getOwnedConversation userId conversationId
  match ← getGatePending conversationId with
  | none => throw (.app .resourceNotFound "no pending gate for this turn" none)
  | some g =>
    if g.turnId.1 ≠ turnId then throw (.app .resourceNotFound "no pending gate for this turn" none)
    else
      let modelKey ← orRaise (requireTurnModel d model)
      let pendingModel := strip g.modelKey
      if pendingModel ≠ "" ∧ pendingModel ≠ modelKey then
        throw (.app .invalidParams s!"model mismatch for turn resume: expected {pendingModel}" none)
      else return (conversation, modelKey)

/-- `ConversationTurnLock.acquire`. -/
def acquire (conversationId : Nat) (turnId : String) : Handler Store Error Unit := do
  match (← get).turnLock conversationId with
  | none => modify fun s => { s with turnLock := Function.update s.turnLock conversationId (some turnId) }
  | some active =>
    throw (.app .conversationBusy s!"conversation {conversationId} is busy" (some (.activeTurn active)))

/-! ### Input -/

def validateTurnUserInput (content materials : List Block) (allowNode : Bool) : Except Error Unit := do
  if ¬ content.any fun b => match b with | .text t => strip t ≠ "" | _ => false then
    throw (.value "content_required_after_skill_refs")
  if ¬ allowNode ∧ (content ++ materials).any fun b => match b with | .node _ => true | _ => false then
    throw (.value "node blocks are not supported on this surface")

/-- `extract_skill_paths`. -/
def extractSkillPaths (content : List Block) : List String :=
  (content.filterMap fun b => match b with | .skill path => some path | _ => none).eraseDups

inductive ConversationKind
  | chat
  | promptAssistant
  deriving DecidableEq, Repr

def parseConversationKind (raw : String) : Except Error ConversationKind :=
  if raw = "chat" then .ok .chat
  else if raw = "prompt_assistant" then .ok .promptAssistant
  else .error (.app .internalError s!"unknown conversation kind: '{raw}'" none)

/-- The `except ValueError` of the endpoint. -/
def asInvalidParams {α : Type} : Except Error α → Except Error α
  | .error (.value message) => .error (.app .invalidParams message none)
  | r => r

/-- What `stream_message` does with the user's input between the claim and the lock. -/
def prepareInput (d : Deployment) (userId : Nat) (conversation : Conversation) (b : StreamBody) :
    Except Error Unit := asInvalidParams do
  validateTurnUserInput b.content b.materials false
  let content ← d.enrich userId b.content b.materials b.projectId
  match ← parseConversationKind conversation.kind with
  | .promptAssistant => return
  | .chat => d.resolveSelected userId b.projectId (extractSkillPaths content)

/-! ### Endpoints -/

def claimReplay (r : ReplayMeta) : Handler Store Error ReplayClaim :=
  onPart Store.replay (fun s k => { s with replay := k }) (claim r)

def discardReplay (requestId : String) : Handler Store Error Unit :=
  onPart Store.replay (fun s k => { s with replay := k }) (discardStarting requestId)

/-- `background_supervisor.start`. -/
def startExecution (e : Execution) : Handler Store Error Unit :=
  modify fun s => { s with executions := s.executions ++ [e] }

/-- The metadata of a new request. -/
def newMeta (d : Deployment) (userId : Nat) (requestId : String) (conversationId : Nat) (turnId : String)
    (kind : RequestKind) (body : Body) : ReplayMeta where
  requestId := requestId
  userId := userId
  sessionId := conversationId
  turnId := turnId
  kind := kind
  fingerprint := d.fingerprint kind userId conversationId body
  status := .starting
  lastEventId := none

/-- What both endpoints do for a created claim: check the input, take the lock, start the execution. -/
def startClaimed (r : ReplayMeta) (input : Except Error Unit) : Handler Store Error Unit := do
  onError (orRaise input) (discardReplay r.requestId)
  onError (acquire r.sessionId r.turnId) (discardReplay r.requestId)
  startExecution { requestId := r.requestId, conversationId := r.sessionId, turnId := r.turnId }

/-- What both endpoints do with a claim, up to the response. -/
def answerClaim (r : ReplayMeta) (lastEventId : Option String) (input : Except Error Unit) (c : ReplayClaim) :
    Handler Store Error ReplayMeta := do
  onError (orRaise (validateReplayCursor c.claimed lastEventId))
    (doIf c.created (discardReplay r.requestId))
  doIf c.created (startClaimed r input)
  -- `_chat_stream_response`
  orRaise (validateReplayCursor c.claimed lastEventId)
  return c.claimed

/-- The common end of both endpoints. -/
def claimAndStart (r : ReplayMeta) (lastEventId : Option String) (input : Except Error Unit) :
    Handler Store Error ReplayMeta := do
  let c ← claimReplay r
  answerClaim r lastEventId input c

/-- The endpoint `/message/stream`; `proposedTurnId` is the fresh uuid. -/
def streamMessage (d : Deployment) (proposedTurnId : String) (q : Request StreamBody) :
    Handler Store Error ReplayMeta := do
  let (conversation, _) ← prepareTurn d q.userId q.body.conversationId (some q.body.model)
  claimAndStart
    (newMeta d q.userId q.requestId q.body.conversationId proposedTurnId .turn (.stream q.body)) q.lastEventId
    (prepareInput d q.userId conversation q.body)

/-- The endpoint `/turn/resume`, which has no input to check after the claim. -/
def resumeTurn (d : Deployment) (q : Request ResumeBody) : Handler Store Error ReplayMeta := do
  let _ ← prepareResumeTurn d q.userId q.body.conversationId q.body.turnId (some q.body.model)
  doIf (q.body.action = .submit) (updateGatePendingStatus q.body.conversationId .resuming)
  claimAndStart
    (newMeta d q.userId q.requestId q.body.conversationId q.body.turnId .resume (.resume q.body)) q.lastEventId
    (.ok ())

end NexusStudio.Chat
