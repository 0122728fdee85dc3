import NexusStudio.Generation.Task
import NexusStudio.Server.Errors

/-!
# Canvas nodes

The row of a canvas node and the transactions of the system that write its generation fields.

* (row) Status, task, error and assets are written by the system only, and every write raises the revision by one.
* (locked) A transaction on a deleted episode or a deleted node raises before it writes.
* (binding) A task in flight refuses a claim and the binding of another task.
-/

namespace NexusStudio.CanvasNodes

open Generation

inductive CanvasNodeKind
  | TEXT
  | IMAGE
  | VIDEO
  | AUDIO
  deriving DecidableEq, Repr

inductive CanvasNodeStatus
  | IDLE
  | WAITING_INPUTS
  | READY
  | RUNNING
  | SUCCESS
  | FAILED
  | CANCELLED
  deriving DecidableEq, Repr

/-- The keys of `config` that the system writes. -/
structure CanvasNodeConfig where
  model : Option String
  durationSec : Option Int
  duration : Option String
  deriving DecidableEq, Repr

structure CanvasNodeData where
  status : Option CanvasNodeStatus
  content : Option String
  config : Option CanvasNodeConfig
  model : Option String
  generateTaskId : Option Nat
  generateError : Option String
  outputAssetIds : Option (List Nat)
  assetId : Option Nat
  path : Option String
  deriving DecidableEq, Repr

structure CanvasNode where
  kind : CanvasNodeKind
  revision : Nat
  deleted : Bool
  data : CanvasNodeData
  deriving DecidableEq, Repr

/-- What the transactions raise. -/
inductive NodeError
  | episodeNotFound
  | nodeNotFound
  | revisionConflict (expected actual : Nat)
  | generationInProgress (taskId : Nat)
  deriving DecidableEq, Repr

/-! ### Data -/

/-- `data_status`. -/
def CanvasNodeData.dataStatus (d : CanvasNodeData) : CanvasNodeStatus := d.status.getD .IDLE

/-- `dict(payload.get("config") or {})` with the model. -/
def withModel (config : Option CanvasNodeConfig) (model : String) : CanvasNodeConfig :=
  { config.getD ⟨none, none, none⟩ with model := some model }

/-- `dict(payload.get("config") or {})` with the duration, as a number and as a text. -/
def withDuration (config : Option CanvasNodeConfig) (durationSec : Int) : CanvasNodeConfig :=
  { config.getD ⟨none, none, none⟩ with durationSec := some durationSec, duration := some (toString durationSec) }

/-- `apply_generation_to_data`: status, task and error are always overwritten, the others when they are given. -/
def applyGenerationToData (d : CanvasNodeData) (status : CanvasNodeStatus) (taskId : Option Nat)
    (error : Option String) (outputAssetIds : Option (List Nat)) (model : Option String) (durationSec : Option Int) :
    CanvasNodeData :=
  let config := (model.map (withModel d.config)).or d.config
  { d with
    status := some status
    generateTaskId := taskId
    generateError := error
    outputAssetIds := outputAssetIds.or d.outputAssetIds
    model := model.or d.model
    config := (durationSec.map (withDuration config)).or config }

/-- What `update_node_text_output` writes into the data. -/
def applyTextOutput (d : CanvasNodeData) (status : CanvasNodeStatus) (outputText error model : Option String) :
    CanvasNodeData :=
  { d with
    status := some status
    generateTaskId := none
    content := outputText.or d.content
    generateError := error.or d.generateError
    model := model.or d.model
    config := (model.map (withModel d.config)).or d.config }

/-- `merge_client_node_data`, given the client's fields after the merge. -/
def mergeClientNodeData (d : CanvasNodeData) (content model : Option String) (config : Option CanvasNodeConfig) :
    CanvasNodeData :=
  { d with content := content, model := model, config := config }

/-- `data_has_output_assets`. -/
def CanvasNodeData.hasOutputAssets (d : CanvasNodeData) : Bool :=
  (d.outputAssetIds.getD []).any (fun id => 0 < id) || d.assetId.any (fun id => 0 < id) ||
    d.path.any fun p => strip p ≠ ""

/-! ### Tasks -/

/-- `GenerateTask.filter(id=…, deleted_at__isnull=True).first()`. -/
def liveTask (tasks : Nat → Option GenerateTask) (id : Nat) : Option GenerateTask :=
  (tasks id).filter fun t => !t.deleted

/-- The task is there and `is_non_terminal`. -/
def inFlight (tasks : Nat → Option GenerateTask) (id : Nat) : Bool :=
  (liveTask tasks id).any fun t => !t.status.isTerminal

inductive NodeGenerateGate
  | idle
  | busy
  | done
  deriving DecidableEq, Repr

/-- `classify_node_generate_gate` of the data it has read and, where they have a task, of the live task. -/
def classifyNodeGenerateGate (d : CanvasNodeData) (task : Option GenerateTask) : NodeGenerateGate :=
  match d.generateTaskId, task with
  | some _, some t =>
    if t.status = .SUCCEEDED then .done
    else if t.status.isTerminal then .idle
    else .busy
  | _, _ => if d.hasOutputAssets then .done else .idle

/-- A gate that is not busy has seen no task in flight. -/
theorem not_busy {d : CanvasNodeData} {task : Option GenerateTask} (h : classifyNodeGenerateGate d task ≠ .busy)
    {id : Nat} (hid : d.generateTaskId = some id) : ∀ t, task = some t → t.status.isTerminal = true := by
  rintro t rfl
  by_contra hactive
  refine h ?_
  have hs : t.status ≠ .SUCCEEDED := by
    intro hs
    rw [hs] at hactive
    exact hactive rfl
  simp only [classifyNodeGenerateGate, hid]
  rw [if_neg hs, if_neg hactive]

/-! ### Transactions -/

/-- The row a transaction locks: `none` is an episode that is deleted, with its meta row and its nodes. -/
def lockNode (row : Option CanvasNode) : Except NodeError CanvasNode :=
  match row with
  | none => .error .episodeNotFound
  | some n => if n.deleted then .error .nodeNotFound else .ok n

/-- A transaction on the locked row: it is refused with an error, or it writes the row. -/
def transaction (row : Option CanvasNode) (refuse : CanvasNode → Option NodeError) (write : CanvasNode → CanvasNode) :
    Except NodeError CanvasNode :=
  match lockNode row with
  | .error e => .error e
  | .ok n =>
    match refuse n with
    | some e => .error e
    | none => .ok (write n)

/-- The check of `expected_revision`, which is left out when the caller has none. -/
def revisionConflict (expected : Option Nat) (n : CanvasNode) : Option NodeError :=
  match expected with
  | some r => if n.revision = r then none else some (.revisionConflict r n.revision)
  | none => none

/-- The check that no task other than `taskId` is in flight for the node. -/
def generationInProgress (tasks : Nat → Option GenerateTask) (taskId : Option Nat) (n : CanvasNode) :
    Option NodeError :=
  match n.data.generateTaskId with
  | some id => if some id ≠ taskId ∧ inFlight tasks id then some (.generationInProgress id) else none
  | none => none

/-- The data change and the revision goes up by one. -/
def CanvasNode.save (n : CanvasNode) (d : CanvasNodeData) : CanvasNode :=
  { n with data := d, revision := n.revision + 1 }

/-- `update_node_generation`, with the assets attached. -/
def updateNodeGeneration (row : Option CanvasNode) (taskId : Option Nat) (status : CanvasNodeStatus)
    (outputAssetIds : Option (List Nat)) (error model : Option String) (durationSec : Option Int)
    (expectedRevision : Option Nat) : Except NodeError CanvasNode :=
  transaction row (revisionConflict expectedRevision) fun n =>
    n.save (applyGenerationToData n.data status taskId error outputAssetIds model durationSec)

/-- `update_node_text_output`. -/
def updateNodeTextOutput (row : Option CanvasNode) (status : CanvasNodeStatus) (outputText error model : Option String)
    (expectedRevision : Option Nat) : Except NodeError CanvasNode :=
  transaction row (revisionConflict expectedRevision) fun n =>
    n.save (applyTextOutput n.data status outputText error model)

/-- `claim_node_for_generation` of the port, and its caller's refusal of a claim that was not given. -/
def claimNodeForGeneration (tasks : Nat → Option GenerateTask) (row : Option CanvasNode) :
    Except NodeError CanvasNode :=
  transaction row (generationInProgress tasks none) fun n =>
    n.save (applyGenerationToData n.data .RUNNING none (some "") none none none)

/-- The transaction of `bind_generate_task_to_node`. -/
def bindGenerateTaskToNode (tasks : Nat → Option GenerateTask) (row : Option CanvasNode) (taskId : Nat) :
    Except NodeError CanvasNode :=
  transaction row (generationInProgress tasks (some taskId)) fun n =>
    n.save { n.data with generateTaskId := some taskId }

/-- An `UpdateNodeOp` with the client's revision; the client's fields of the node are given after their merge. -/
def updateNodeOp (row : Option CanvasNode) (revision : Nat) (content model : Option String)
    (config : Option CanvasNodeConfig) : Except NodeError CanvasNode :=
  transaction row (revisionConflict (some revision)) fun n => n.save (mergeClientNodeData n.data content model config)

/-- A `DeleteNodeOp`. -/
def deleteNodeOp (row : Option CanvasNode) (expectedRevision : Nat) : Except NodeError CanvasNode :=
  transaction row (revisionConflict (some expectedRevision)) fun n => { n.save n.data with deleted := true }

section Transactions

variable {row : Option CanvasNode} {n' : CanvasNode}

theorem lockNode_ok : lockNode row = .ok n' ↔ row = some n' ∧ n'.deleted = false := by
  unfold lockNode
  cases row with
  | none => simp
  | some m =>
    simp only [Option.some.injEq]
    constructor
    · intro h
      split at h
      case isTrue => cases h
      case isFalse hm =>
        cases h
        exact ⟨rfl, by simpa using hm⟩
    · rintro ⟨rfl, hm⟩
      simp [hm]

/-- A transaction that commits has found a live row, and its check did not refuse it. -/
theorem transaction_ok {refuse : CanvasNode → Option NodeError} {write : CanvasNode → CanvasNode} :
    transaction row refuse write = .ok n' ↔
      ∃ n, row = some n ∧ n.deleted = false ∧ refuse n = none ∧ n' = write n := by
  unfold transaction
  constructor
  · intro h
    split at h
    case h_1 => cases h
    case h_2 n hn =>
      obtain ⟨hrow, hlive⟩ := lockNode_ok.1 hn
      split at h
      case h_1 => cases h
      case h_2 hok =>
        cases h
        exact ⟨n, hrow, hlive, hok, rfl⟩
  · rintro ⟨n, hrow, hlive, hok, rfl⟩
    rw [lockNode_ok.2 ⟨hrow, hlive⟩]
    simp only [hok]

/-- A patch of the user leaves the task of the node. -/
theorem task_of_updateNodeOp {revision : Nat} {content model : Option String} {config : Option CanvasNodeConfig}
    (h : updateNodeOp row revision content model config = .ok n') :
    ∃ n, row = some n ∧ n'.data.generateTaskId = n.data.generateTaskId := by
  obtain ⟨n, hn, -, -, rfl⟩ := transaction_ok.1 h
  exact ⟨n, hn, rfl⟩

theorem task_of_deleteNodeOp {revision : Nat} (h : deleteNodeOp row revision = .ok n') :
    ∃ n, row = some n ∧ n'.data.generateTaskId = n.data.generateTaskId := by
  obtain ⟨n, hn, -, -, rfl⟩ := transaction_ok.1 h
  exact ⟨n, hn, rfl⟩

@[simp] theorem revisionConflict_eq_none {expected : Option Nat} {n : CanvasNode} :
    revisionConflict expected n = none ↔ ∀ r, expected = some r → n.revision = r := by
  cases expected with
  | none => simp [revisionConflict]
  | some r => simp [revisionConflict]

@[simp] theorem generationInProgress_eq_none {tasks : Nat → Option GenerateTask} {taskId : Option Nat}
    {n : CanvasNode} : generationInProgress tasks taskId n = none ↔
      ∀ id, n.data.generateTaskId = some id → some id = taskId ∨ inFlight tasks id = false := by
  unfold generationInProgress
  cases hid : n.data.generateTaskId with
  | none => simp
  | some id =>
    simp only [ne_eq, ite_eq_right_iff, reduceCtorEq, imp_false, not_and_or, not_not, Bool.not_eq_true,
      Option.some.injEq, forall_eq']

end Transactions

end NexusStudio.CanvasNodes
