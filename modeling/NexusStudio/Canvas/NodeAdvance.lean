import NexusStudio.Canvas.Node
import NexusStudio.Lib.Machine
import Mathlib.Logic.Function.Basic

/-!
# Advancing a node

`advance_node` on one node, with submits of the user, projections of tasks and other advances of the same node.

* (reads) An advance reads the node, the gate and the node's inputs one after the other, with no lock.
* (writes) It writes the configuration, WAITING_INPUTS or FAILED with no expected revision, and a task it has read
  or none.
* (marks) For every advance it is marked whether a task was bound to the node or projected onto it since its read.
* (record) Every write of an advance is recorded with what it overwrites.
-/

set_option linter.unusedSectionVars false

namespace NexusStudio.NodeAdvance

open Concurrent CanvasNodes Generation

/-- Where a call of `submit` is. -/
inductive SubmitPc
  | assertWritable
  -- the reads of `assert_node_has_no_active_generate_task`
  | readNode
  | readTask (d : CanvasNodeData)
  | validate
  | create
  | submitToGateway (id : Nat)
  | markFailed (id : Nat) (reason message : String)
  | bindQueued (id unionTaskId : Nat)
  | bind (id : Nat)
  | publish (id : Nat)
  deriving DecidableEq, Repr

/-- Where a party is: an advance, a submit (`own` when an advance has called it) or a projection. -/
inductive Proc
  | idle
  | getNode
  -- the reads of `classify_node_generate_gate`
  | classifyRow (n : CanvasNode)
  | classifyTask (n : CanvasNode) (d : CanvasNodeData)
  | resolveConfig (n : CanvasNode)
  -- `_persist_generation_config`
  | persistRead (model : String) (duration : Option Int)
  | persistWritable (model : String) (duration : Option Int) (d : CanvasNodeData)
  | persistWrite (model : String) (duration : Option Int) (d : CanvasNodeData)
  | persistPublish (model : String) (duration : Option Int)
  | getNodeAgain (model : String) (duration : Option Int)
  | resolveInputs (model : String) (duration : Option Int) (n : CanvasNode)
  | waitingWritable (taskId : Option Nat) (error : String)
  | writeWaiting (taskId : Option Nat) (error : String)
  -- the `try` block and its handler
  | prepare
  | submit (own : Bool) (p : SubmitPc)
  | failedWritable (error : String)
  | writeFailed (error : String)
  | publishState
  -- `project_from_task` with the task it has read
  | reconcile (id : Nat) (t : GenerateTask)
  | sync (id : Nat) (t : GenerateTask)
  | project (id : Nat) (t : GenerateTask)
  | over
  deriving DecidableEq, Repr

/-- The row of the node, the tasks and the id of the next task. -/
structure Core where
  row : Option CanvasNode
  tasks : Nat → Option GenerateTask
  nextTask : Nat

/-- What has happened to the node since an advance first read it, and since it read the row to persist. -/
structure Marks where
  -- the node was given another task
  rebound : Bool
  -- a task was projected, and what it has written still shows
  shown : Bool
  rowRebound : Bool
  rowProjected : Bool
  deriving DecidableEq, Repr

/-- A write of an advance: the data before and after it, whether a task in flight was bound, and whether the data
before it showed a task that was projected after the advance had read the node. -/
structure Written where
  before : CanvasNodeData
  after : CanvasNodeData
  busy : Bool
  shown : Bool
  deriving DecidableEq, Repr

structure State (ι : Type*) where
  core : Core
  -- the exclusive mutex of the episode is taken
  fenced : Bool
  proc : ι → Proc
  marks : ι → Marks
  written : List Written

/-- The episode and the node of the calls. -/
structure Target where
  episodeId : Nat
  nodeId : String
  kind : GenerationKind

inductive Action (ι : Type*)
  | advance (i : ι)
  | submit (i : ι)
  | projectFromTask (i : ι) (id : Nat)
  -- the call under way returns
  | run (i : ι)
  | resolveConfig (i : ι) (firstModel : String) (defaultDuration : Int)
  | resolveInputs (i : ι) (localPrompt : String) (missingReasons : List String)
  | gatewayAccepts (i : ι) (unionTaskId : Nat)
  | gatewayDown (i : ι)
  | ensureResultAssets (i : ι) (assetIds : List Nat)
  -- the call under way raises
  | fail (i : ι) (message : String)
  | cancel (i : ι)
  | updateTask (id : Nat) (t : GenerateTask)
  | setFence (taken : Bool)
  | updateNode (revision : Nat) (content model : Option String) (config : Option CanvasNodeConfig)
  | deleteNode (revision : Nat)
  | deleteAll

/-! ### Reading -/

/-- `get_node` and the other reads of the row. -/
def Core.getNode (c : Core) : Option CanvasNode := c.row.filter fun n => !n.deleted

/-- `_node_for_task`. -/
def Core.nodeForTask (c : Core) (id : Nat) : Option CanvasNode :=
  c.getNode.filter fun n => n.data.generateTaskId = some id

/-- `data_model_id`. -/
def dataModelId (d : CanvasNodeData) : Option String :=
  (d.model.filter (· ≠ "")).or ((d.config.bind CanvasNodeConfig.model).filter (· ≠ ""))

/-- `data_duration_sec`. -/
def dataDurationSec (d : CanvasNodeData) : Option Int := d.config.bind CanvasNodeConfig.durationSec

/-- `data_generate_error`. -/
def dataGenerateError (d : CanvasNodeData) : Option String := d.generateError.filter (· ≠ "")

/-- `resolve_node_generation_config`, given the first model of the catalog and the default duration. -/
def resolveNodeGenerationConfig (n : CanvasNode) (firstModel : String) (defaultDuration : Int) :
    String × Option Int × Bool :=
  let own := strip ((dataModelId n.data).getD "")
  let model := if own = "" then firstModel else own
  let lacksDuration : Bool := n.kind = .VIDEO ∧ dataDurationSec n.data = none ∧ model ≠ ""
  (model, if lacksDuration then some defaultDuration else dataDurationSec n.data, own = "" || lacksDuration)

/-- `_missing_requirements`. -/
def missingRequirements (kind : CanvasNodeKind) (model : String) (duration : Option Int) (localPrompt : String)
    (missingReasons : List String) : List String :=
  (if model = "" then ["model_id_not_ready"] else []) ++
    (if strip localPrompt = "" then ["prompt_not_ready"] else []) ++
    (if kind = .VIDEO ∧ duration = none then ["duration_not_ready"] else []) ++ missingReasons

/-- `node_status_from_task`. -/
def nodeStatusFromTask (status : GatewayTaskStatus) : CanvasNodeStatus :=
  if status.isTerminal then (if status = .SUCCEEDED then .SUCCESS else .FAILED) else .RUNNING

/-- `canvas_node_needs_sync`. -/
def canvasNodeNeedsSync (d : CanvasNodeData) (t : GenerateTask) : Bool :=
  let expected := nodeStatusFromTask t.status
  d.dataStatus ≠ expected ||
    (expected = .SUCCESS && t.resultAssetIds.getD [] ≠ [] && d.outputAssetIds.getD [] = []) ||
    (expected = .FAILED && t.errorMessage.getD "" ≠ "" && d.generateError.getD "" = "")

/-- The message of the exception. -/
def NodeError.message (E : Target) : NodeError → String
  | .episodeNotFound => "episode not found"
  | .nodeNotFound => "node " ++ E.nodeId ++ " not found"
  | .revisionConflict .. => "revision conflict"
  | .generationInProgress _ => "该节点已有生成任务进行中。无需重复提交，等待该任务完成即可。不要重试，不要新建替代节点。"

def fencedMessage (E : Target) : String := "canvas episode " ++ toString E.episodeId ++ " is busy"

/-! ### Writing -/

/-- The columns of a projected task that an advance can overwrite are the same in the data. -/
def showsSame (d d' : CanvasNodeData) : Bool :=
  d.dataStatus = d'.dataStatus && dataGenerateError d = dataGenerateError d' && d.outputAssetIds = d'.outputAssetIds

/-- The write gives the node a task that it did not have. -/
def rebinds (d d' : CanvasNodeData) : Bool :=
  d'.generateTaskId ≠ d.generateTaskId && d'.generateTaskId ≠ none

/-- A bind or a write of an advance, which may give the node another task and overwrite what it shows. -/
def Marks.afterWrite (d d' : CanvasNodeData) (m : Marks) : Marks :=
  { m with
    rebound := m.rebound || rebinds d d'
    rowRebound := m.rowRebound || rebinds d d'
    shown := m.shown && showsSame d d' }

def Marks.afterProjection (d d' : CanvasNodeData) (m : Marks) : Marks :=
  { m.afterWrite d d' with shown := true, rowProjected := true }

def Core.boundTask (c : Core) : Option Nat := c.row.bind fun n => n.data.generateTaskId

/-- The node's task while it is in flight. -/
def Core.busyTask (c : Core) : Option Nat := c.boundTask.filter fun id => inFlight c.tasks id

def Core.setTask (c : Core) (id : Nat) (t : GenerateTask) : Core :=
  { c with tasks := Function.update c.tasks id (some t) }

/-- `create` of the task repository. -/
def Core.createTask (c : Core) (kind : GenerationKind) : Core :=
  { c.setTask c.nextTask ⟨kind, none, .CREATED, false, none, none, none, false⟩ with nextTask := c.nextTask + 1 }

/-- A write of a task row that finds the row. -/
def Core.modifyTask (c : Core) (id : Nat) (f : GenerateTask → GenerateTask) : Core :=
  match c.tasks id with
  | some t => c.setTask id (f t)
  | none => c

/-- Both updates of `bind_union_task_queued`. -/
def bindUnionTaskQueued (unionTaskId : Nat) (t : GenerateTask) : GenerateTask :=
  (t.bindQueued unionTaskId).getD { t with unionTaskId := some unionTaskId }

section Model

variable {ι : Type*} [DecidableEq ι]

namespace State

def setProc (s : State ι) (i : ι) (p : Proc) : State ι :=
  { s with proc := Function.update s.proc i p }

def setMarks (s : State ι) (i : ι) (m : Marks) : State ι :=
  { s with marks := Function.update s.marks i m }

/-- A transaction commits the row and all advances are marked. -/
def commit (s : State ι) (n : CanvasNode) (mark : CanvasNodeData → CanvasNodeData → Marks → Marks) : State ι :=
  match s.core.row with
  | some m => { s with core := { s.core with row := some n }, marks := fun j => mark m.data n.data (s.marks j) }
  | none => s

/-- The record of a write of an advance. -/
def record (s : State ι) (i : ι) (n : CanvasNode) : List Written :=
  match s.core.row with
  | some m => [⟨m.data, n.data, s.core.busyTask.isSome, (s.marks i).shown⟩]
  | none => []

/-- A write of an advance commits and is recorded, or the exception leaves `advance_node`. -/
def write (s : State ι) (i : ι) (r : Except NodeError CanvasNode) (next : Proc) : State ι :=
  match r with
  | .ok n => { (s.commit n Marks.afterWrite).setProc i next with written := s.written ++ s.record i n }
  | .error _ => s.setProc i .over

/-- A patch of the user commits, or it raises and changes nothing. -/
def patch (s : State ι) (r : Except NodeError CanvasNode) : State ι :=
  match r with
  | .ok n => { s with core := { s.core with row := some n } }
  | .error _ => s

end State

/-- The exception leaves `submit`: an advance catches it. -/
def raised (own : Bool) (message : String) : Proc := if own then .failedWritable message else .over

/-- The call under way of a submit returns, `none` where it waits for the gateway. -/
def runSubmit (E : Target) (s : State ι) (i : ι) (own : Bool) : SubmitPc → Option (State ι)
  | .assertWritable =>
    some (s.setProc i (if s.fenced then raised own (fencedMessage E) else .submit own .readNode))
  | .readNode =>
    some (s.setProc i (match s.core.getNode with
      | some n => .submit own (.readTask n.data)
      | none => raised own (NodeError.message E .nodeNotFound)))
  | .readTask d =>
    some (s.setProc i (match d.generateTaskId with
      | some id =>
        if classifyNodeGenerateGate d (liveTask s.core.tasks id) = .busy then
          raised own (NodeError.message E (.generationInProgress id))
        else .submit own .validate
      | none => .submit own .validate))
  | .validate => some (s.setProc i (.submit own .create))
  | .create =>
    some { s.setProc i (.submit own (.submitToGateway s.core.nextTask)) with core := s.core.createTask E.kind }
  | .submitToGateway _ => none
  | .markFailed id reason message =>
    some { s.setProc i (raised own message) with core := s.core.modifyTask id fun t => t.markFailedIfNonTerminal reason }
  | .bindQueued id unionTaskId =>
    some { s.setProc i (.submit own (.bind id)) with core := s.core.modifyTask id (bindUnionTaskQueued unionTaskId) }
  | .bind id =>
    match bindGenerateTaskToNode s.core.tasks s.core.row id with
    | .ok n => some ((s.commit n Marks.afterWrite).setProc i (.submit own (.publish id)))
    | .error e => some (s.setProc i (raised own (NodeError.message E e)))
  | .publish _ => some (s.setProc i .over)

/-- The call under way of a party returns, `none` where it waits for an answer or is over. -/
def run (E : Target) (s : State ι) (i : ι) : Option (State ι) :=
  match s.proc i with
  | .getNode =>
    match s.core.getNode with
    | some n =>
      if n.kind = .IMAGE ∨ n.kind = .VIDEO then
        some ((s.setMarks i ⟨false, false, false, false⟩).setProc i (.classifyRow n))
      else some (s.setProc i .over)
    | none => some (s.setProc i .over)
  | .classifyRow n =>
    some (s.setProc i (match s.core.getNode with
      | some m => .classifyTask n m.data
      | none => .over))
  | .classifyTask n d =>
    some (s.setProc i (if classifyNodeGenerateGate d (d.generateTaskId.bind (liveTask s.core.tasks)) = .idle then
      .resolveConfig n else .over))
  | .persistRead model duration =>
    match s.core.getNode with
    | some n =>
      some ((s.setMarks i { s.marks i with rowRebound := false, rowProjected := false }).setProc i
        (.persistWritable model duration n.data))
    | none => some (s.setProc i (.getNodeAgain model duration))
  | .persistWritable model duration d =>
    some (s.setProc i (if s.fenced then .over else .persistWrite model duration d))
  | .persistWrite model duration d =>
    some (s.write i (updateNodeGeneration s.core.row d.generateTaskId d.dataStatus none (dataGenerateError d)
      (some model) duration none) (.persistPublish model duration))
  | .persistPublish model duration => some (s.setProc i (.getNodeAgain model duration))
  | .getNodeAgain model duration =>
    some (s.setProc i (match s.core.getNode with
      | some n => .resolveInputs model duration n
      | none => .over))
  | .waitingWritable taskId error => some (s.setProc i (if s.fenced then .over else .writeWaiting taskId error))
  | .writeWaiting taskId error =>
    some (s.write i (updateNodeGeneration s.core.row taskId .WAITING_INPUTS none (some error) none none none)
      .publishState)
  | .prepare => some (s.setProc i (.submit true .assertWritable))
  | .submit own p => runSubmit E s i own p
  | .failedWritable error => some (s.setProc i (if s.fenced then .over else .writeFailed error))
  | .writeFailed error =>
    some (s.write i (updateNodeGeneration s.core.row none .FAILED none (some error) none none none) .publishState)
  | .publishState => some (s.setProc i .over)
  | .sync id t =>
    some (s.setProc i (match s.core.nodeForTask id with
      | some _ => .project id t
      | none => .over))
  | .project id t =>
    match updateNodeGeneration s.core.row (some id) (nodeStatusFromTask t.status) t.resultAssetIds t.errorMessage none
        none none with
    | .ok n => some ((s.commit n Marks.afterProjection).setProc i .over)
    | .error _ => some (s.setProc i .over)
  | .idle | .resolveConfig _ | .resolveInputs .. | .reconcile .. | .over => none

/-- The call under way of a party raises. -/
def fail (s : State ι) (i : ι) (message : String) : Option (State ι) :=
  match s.proc i with
  | .idle | .over => none
  | .prepare => some (s.setProc i (.failedWritable message))
  | .submit own (.submitToGateway id) => some (s.setProc i (.submit own (.markFailed id message message)))
  | .submit own _ => some (s.setProc i (raised own message))
  | _ => some (s.setProc i .over)

/-- One step of one party, `none` when the party is elsewhere in its code. -/
def step (E : Target) (s : State ι) : Action ι → Option (State ι)
  | .advance i => if s.proc i = .idle then some (s.setProc i .getNode) else none
  | .submit i => if s.proc i = .idle then some (s.setProc i (.submit false .assertWritable)) else none
  | .projectFromTask i id =>
    if s.proc i = .idle then
      some (s.setProc i (match liveTask s.core.tasks id with
        | some t => if t.status.isTerminal then .reconcile id t else .sync id t
        | none => .over))
    else none
  | .run i => run E s i
  | .resolveConfig i firstModel defaultDuration =>
    match s.proc i with
    | .resolveConfig n =>
      let (model, duration, changed) := resolveNodeGenerationConfig n firstModel defaultDuration
      some (s.setProc i (if changed then .persistRead model duration else .resolveInputs model duration n))
    | _ => none
  | .resolveInputs i localPrompt missingReasons =>
    match s.proc i with
    | .resolveInputs model duration n =>
      let missing := missingRequirements n.kind model duration localPrompt missingReasons
      some (s.setProc i (if missing = [] then .prepare
        else .waitingWritable n.data.generateTaskId ("; ".intercalate missing)))
    | _ => none
  | .gatewayAccepts i unionTaskId =>
    match s.proc i with
    | .submit own (.submitToGateway id) => some (s.setProc i (.submit own (.bindQueued id unionTaskId)))
    | _ => none
  | .gatewayDown i =>
    match s.proc i with
    | .submit own (.submitToGateway id) =>
      some (s.setProc i (.submit own (.markFailed id "upstream unavailable" "提交生成任务失败：上游服务暂不可用")))
    | _ => none
  | .ensureResultAssets i assetIds =>
    match s.proc i with
    | .reconcile id t =>
      match s.core.nodeForTask id with
      | some n =>
        if t.status = .SUCCEEDED ∧ t.resultAssetIds.getD [] = [] then
          let t' := { t with resultAssetIds := some assetIds }
          some { s.setProc i (if canvasNodeNeedsSync n.data t' then .sync id t' else .over) with
            core := s.core.modifyTask id fun r => { r with resultAssetIds := some assetIds } }
        else some (s.setProc i (if canvasNodeNeedsSync n.data t then .sync id t else .over))
      | none => some (s.setProc i .over)
    | _ => none
  | .fail i message => fail s i message
  | .cancel i => if s.proc i = .idle then none else some (s.setProc i .over)
  | .updateTask id t =>
    match s.core.tasks id with
    | some r =>
      -- a task that is over stays over, and a deleted one stays deleted
      if (r.status.isTerminal → t.status.isTerminal) ∧ (r.deleted → t.deleted) then
        some { s with core := s.core.setTask id t }
      else none
    | none => none
  | .setFence taken => some { s with fenced := taken }
  | .updateNode revision content model config =>
    some (s.patch (updateNodeOp s.core.row revision content model config))
  | .deleteNode revision => some (s.patch (deleteNodeOp s.core.row revision))
  | .deleteAll => some { s with core := { s.core with row := none } }

/-- Any node and any tasks, before the calls. -/
structure Initial (s : State ι) : Prop where
  proc : ∀ i, s.proc i = .idle
  written : s.written = []
  tasks : ∀ id, s.core.tasks id ≠ none → id < s.core.nextTask
  row : ∀ n, s.core.row = some n → ∀ id, n.data.generateTaskId = some id → id < s.core.nextTask

def advances (E : Target) : Machine (State ι) (Action ι) where
  init := Initial
  step := step E

/-! ### The result -/

/-- The write leaves a binding to a task in flight alone, and the status, the error and the assets of a task that was
projected after the advance had read the node. -/
def Written.Kept (w : Written) : Prop :=
  (w.busy → w.after.generateTaskId = w.before.generateTaskId) ∧ (w.shown → showsSame w.before w.after)

/-- Every write of an advance is such a one. -/
def Respectful (s : State ι) : Prop := ∀ w ∈ s.written, w.Kept

/-- The node's task in flight, if it has one, is the one that is written. -/
def Spares (c : Core) (taskId : Option Nat) : Prop := ∀ id, c.busyTask = some id → taskId = some id

/-- When an advance writes a node that is there, it shows no task that was projected since the advance has read what
it writes back; and if the node was given another task since then which is in flight, the advance writes that task. -/
def Safe (s : State ι) : Action ι → Prop
  | .run i =>
    (lockNode s.core.row).isOk →
      match s.proc i with
      | .persistWrite _ _ d =>
        ((s.marks i).shown → (s.marks i).rowProjected = false) ∧
          ((s.marks i).rowRebound → Spares s.core d.generateTaskId)
      | .writeWaiting taskId _ => (s.marks i).shown = false ∧ ((s.marks i).rebound → Spares s.core taskId)
      | .writeFailed _ => (s.marks i).shown = false ∧ ((s.marks i).rebound → Spares s.core none)
      | _ => True
  | _ => True

end Model

end NexusStudio.NodeAdvance
