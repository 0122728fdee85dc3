import NexusStudio.Canvas.NodeAdvance

/-!
# Advancing the targets of a node

After a node is done, `dispatch_node_terminal` advances the targets of its dependency edges one after the other.

* (graph) What a node waits for is read along the edges that come in.
* (machine) Any number of nodes are done in any order, each with the dispatch after it; every read, write and publish
  of a dispatch is one step, and each may raise.
* (owed) A target is owed an advance while its inputs are ready, its gate is idle, and it has neither a task nor the
  status FAILED.
* (defect) Only a submit is tried in `advance_node`: any other exception leaves it and ends the walk over the targets.
  The configuration and WAITING_INPUTS are written from earlier reads, over a newer task or FAILED.
* (condition) `Safe`: no exception ends a walk that has an owed target ahead, and no such write makes a target owed.
-/

set_option linter.unusedSectionVars false

namespace NexusStudio.Downstream

open Concurrent CanvasNodes Generation

/-! ### Inputs -/

inductive CanvasSourcePort
  | OUTPUT_TEXT
  | OUTPUT_ASSET
  deriving DecidableEq, Repr

inductive CanvasTargetPort
  | PROMPT_INPUT
  | REFERENCE_ASSET
  deriving DecidableEq, Repr

/-- A dependency edge, which is the only type there is. -/
structure Edge where
  source : String
  target : String
  sourcePort : CanvasSourcePort
  targetPort : CanvasTargetPort
  deriving DecidableEq, Repr

/-- The edges of an episode, and `data_prompt_text` of its nodes. -/
structure Graph where
  edges : List Edge
  promptText : String → String

abbrev Rows := String → Option CanvasNode

abbrev Tasks := Nat → Option GenerateTask

inductive CanvasInputWaitReason
  | SOURCE_MISSING
  | SOURCE_FAILED
  | TEXT_NOT_READY
  | ASSET_NOT_READY
  deriving DecidableEq, Repr

def CanvasInputWaitReason.value : CanvasInputWaitReason → String
  | SOURCE_MISSING => "source_missing"
  | SOURCE_FAILED => "source_failed"
  | TEXT_NOT_READY => "text_not_ready"
  | ASSET_NOT_READY => "asset_not_ready"

/-- `data_output_text`. -/
def outputText (d : CanvasNodeData) : String := d.content.getD ""

def getNode (rows : Rows) (id : String) : Option CanvasNode := (rows id).filter fun n => !n.deleted

/-- The reasons why an edge is waited for, given its source. -/
def edgeWaits (e : Edge) : Option CanvasNode → List CanvasInputWaitReason
  | none => [.SOURCE_MISSING]
  | some n =>
    if n.data.dataStatus = .FAILED then [.SOURCE_FAILED]
    else
      (if e.targetPort = .PROMPT_INPUT ∧ (e.sourcePort ≠ .OUTPUT_TEXT ∨ strip (outputText n.data) = "") then
          [.TEXT_NOT_READY]
        else []) ++
        if e.targetPort = .REFERENCE_ASSET ∧
            (e.sourcePort ≠ .OUTPUT_ASSET ∨ n.data.hasOutputAssets = false ∨ n.data.outputAssetIds.getD [] = []) then
          [.ASSET_NOT_READY]
        else []

section Model

variable (G : Graph)

/-- `missing_reasons` of `resolve_node_inputs`. -/
def missingReasons (rows : Rows) (id : String) : List String :=
  (G.edges.filter fun e => e.target = id).flatMap fun e =>
    (edgeWaits e (getNode rows e.source)).map fun reason => e.source ++ ":" ++ reason.value

def localPrompt (id : String) : String := strip (G.promptText id)

/-- `list_dependency_targets`. -/
def listDependencyTargets (source : String) : List String :=
  ((G.edges.filter fun e => e.source = source).map Edge.target).eraseDups

/-! ### The machine -/

/-- Where `advance_node` is. -/
inductive AdvancePc
  | getNode
  -- the reads of `classify_node_generate_gate`
  | classifyRow (n : CanvasNode)
  | classifyTask (n : CanvasNode) (d : CanvasNodeData)
  | resolveConfig (n : CanvasNode)
  -- `_persist_generation_config`
  | persistRead (model : String) (duration : Option Int)
  | persistWrite (model : String) (duration : Option Int) (d : CanvasNodeData)
  | persistPublish (model : String) (duration : Option Int)
  | getNodeAgain (model : String) (duration : Option Int)
  | resolveInputs (model : String) (duration : Option Int) (n : CanvasNode)
  | writeWaiting (taskId : Option Nat) (error : String)
  -- the `try` block and its handler
  | prepare
  | submit
  | writeFailed (error : String)
  | publishState
  deriving DecidableEq, Repr

/-- Where a call is: the end of a generation with its dispatch. -/
inductive Pc
  | idle
  -- the publish of the node's result, which a dispatch follows or not
  | publish (source : String) (dispatches : Bool)
  | listTargets (source : String)
  | advance (target : String) (todo : List String) (c : AdvancePc)
  | over
  deriving DecidableEq, Repr

structure State (ι : Type*) where
  rows : Rows
  tasks : Tasks
  nextTask : Nat
  pc : ι → Pc
  -- the nodes whose dispatch has begun
  dispatched : List String

inductive Action (ι : Type*)
  -- `project_from_task` of a terminal task that its node does not show yet, or of one that it does
  | project (i : ι) (node : String) (taskId : Nat)
  | observe (i : ι) (node : String)
  -- the last write of a text generation
  | writeText (i : ι) (node : String) (succeeds : Bool) (outputText error : Option String) (expectedRevision : Nat)
  -- the call under way returns
  | run (i : ι)
  | resolveConfig (i : ι) (firstModel : String) (defaultDuration : Int)
  | submitted (i : ι) (t : GenerateTask)
  -- the call under way raises
  | fail (i : ι) (message : String)
  | cancel (i : ι)
  | updateTask (id : Nat) (t : GenerateTask)
  -- any other write of a row: a patch of the user, a claim, a bind, a projection of a task under way
  | updateNode (node : String) (n : CanvasNode)

/-- The next target of a walk. -/
def walk : List String → Pc
  | [] => .over
  | t :: todo => .advance t todo .getNode

/-- The row that a write of `advance_node` on the target leaves. -/
def AdvancePc.write (row : Option CanvasNode) : AdvancePc → Except NodeError CanvasNode
  | persistWrite model duration d =>
    updateNodeGeneration row d.generateTaskId d.dataStatus none (NodeAdvance.dataGenerateError d) (some model) duration
      none
  | writeWaiting taskId error => updateNodeGeneration row taskId .WAITING_INPUTS none (some error) none none none
  | writeFailed error => updateNodeGeneration row none .FAILED none (some error) none none none
  | _ => .error .nodeNotFound

variable {ι : Type*} [DecidableEq ι]

namespace State

def setPc (s : State ι) (i : ι) (c : Pc) : State ι := { s with pc := Function.update s.pc i c }

def setRow (s : State ι) (id : String) (n : CanvasNode) : State ι :=
  { s with rows := Function.update s.rows id (some n) }

end State

/-- The call under way of an advance returns and leaves the rows alone; a read that must find the node is not enabled
without it. -/
def read (rows : Rows) (tasks : Tasks) (t : String) (todo : List String) : AdvancePc → Option Pc
  | .getNode =>
    match getNode rows t with
    | none => some (walk todo)
    | some n => some (if n.kind = .IMAGE ∨ n.kind = .VIDEO then .advance t todo (.classifyRow n) else walk todo)
  | .classifyRow n =>
    (getNode rows t).map fun m =>
      match m.data.generateTaskId with
      | some _ => .advance t todo (.classifyTask n m.data)
      | none =>
        if classifyNodeGenerateGate m.data none = .idle then .advance t todo (.resolveConfig n) else walk todo
  | .classifyTask n d =>
    some (if classifyNodeGenerateGate d (d.generateTaskId.bind (liveTask tasks)) = .idle then
        .advance t todo (.resolveConfig n)
      else walk todo)
  | .persistRead model duration =>
    some (.advance t todo (match getNode rows t with
      | some n => .persistWrite model duration n.data
      | none => .getNodeAgain model duration))
  | .persistPublish model duration => some (.advance t todo (.getNodeAgain model duration))
  | .getNodeAgain model duration =>
    some (match getNode rows t with
      | some n => .advance t todo (.resolveInputs model duration n)
      | none => walk todo)
  | .resolveInputs model duration n =>
    (getNode rows t).map fun _ =>
      let missing := NodeAdvance.missingRequirements n.kind model duration (localPrompt G t) (missingReasons G rows t)
      .advance t todo (if missing = [] then .prepare
        else .writeWaiting n.data.generateTaskId ("; ".intercalate missing))
  | .prepare =>
    (getNode rows t).map fun _ =>
      .advance t todo (if missingReasons G rows t ≠ [] then .writeFailed "节点输入未就绪"
        else if strip (localPrompt G t) = "" then .writeFailed "agent 提交需要非空 prompt"
        else .submit)
  | .publishState => some (walk todo)
  | .resolveConfig _ | .persistWrite .. | .writeWaiting .. | .submit | .writeFailed _ => none

/-- What follows a write. -/
def AdvancePc.written : AdvancePc → AdvancePc
  | persistWrite model duration _ => persistPublish model duration
  | _ => publishState

/-- The call under way returns. -/
def run (s : State ι) (i : ι) : Option (State ι) :=
  match s.pc i with
  | .publish n true => some { s.setPc i (.listTargets n) with dispatched := n :: s.dispatched }
  | .publish _ false => some (s.setPc i .over)
  | .listTargets n => some (s.setPc i (walk (listDependencyTargets G n)))
  | .advance t todo c =>
    match c.write (s.rows t) with
    | .ok n => some ((s.setRow t n).setPc i (.advance t todo c.written))
    | .error _ => (read G s.rows s.tasks t todo c).map (s.setPc i)
  | .idle | .over => none

/-- The call under way raises: in the `try` block its handler goes on. -/
def fail (s : State ι) (i : ι) (message : String) : Option (State ι) :=
  match s.pc i with
  | .advance t todo .prepare | .advance t todo .submit => some (s.setPc i (.advance t todo (.writeFailed message)))
  | .idle | .over => none
  | _ => some (s.setPc i .over)

def step (s : State ι) : Action ι → Option (State ι)
  | .project i node taskId =>
    match s.pc i, liveTask s.tasks taskId, getNode s.rows node with
    | .idle, some t, some n =>
      if t.status.isTerminal ∧ n.data.generateTaskId = some taskId then
        match updateNodeGeneration (s.rows node) (some taskId) (NodeAdvance.nodeStatusFromTask t.status)
            t.resultAssetIds t.errorMessage none none none with
        | .ok n => some ((s.setRow node n).setPc i (.publish node true))
        | .error _ => none
      else none
    | _, _, _ => none
  | .observe i node =>
    match s.pc i, getNode s.rows node with
    | .idle, some n =>
      if n.data.dataStatus = .SUCCESS then
        some { s.setPc i (.listTargets node) with dispatched := node :: s.dispatched }
      else none
    | _, _ => none
  | .writeText i node succeeds outputText error expectedRevision =>
    match s.pc i, getNode s.rows node with
    | .idle, some n =>
      if n.kind = .TEXT then
        match updateNodeTextOutput (s.rows node) (if succeeds then .SUCCESS else .FAILED) outputText error none
            (some expectedRevision) with
        | .ok n => some ((s.setRow node n).setPc i (.publish node succeeds))
        | .error _ => none
      else none
    | _, _ => none
  | .run i => run G s i
  | .resolveConfig i firstModel defaultDuration =>
    match s.pc i with
    | .advance t todo (.resolveConfig n) =>
      let (model, duration, changed) := NodeAdvance.resolveNodeGenerationConfig n firstModel defaultDuration
      -- an item of the catalog has an id
      if model = "" then none
      else
        some (s.setPc i (.advance t todo (if changed then .persistRead model duration
          else .resolveInputs model duration n)))
    | _ => none
  | .submitted i task =>
    match s.pc i with
    | .advance t todo .submit =>
      match bindGenerateTaskToNode s.tasks (s.rows t) s.nextTask with
      | .ok n =>
        some { (s.setRow t n).setPc i (walk todo) with
          tasks := Function.update s.tasks s.nextTask (some task)
          nextTask := s.nextTask + 1 }
      | .error _ => none
    | _ => none
  | .fail i message => fail s i message
  | .cancel i => if s.pc i = .idle then none else some (s.setPc i .over)
  | .updateTask id t => some { s with tasks := Function.update s.tasks id (some t) }
  | .updateNode node n => if (s.rows node).map CanvasNode.kind = some n.kind then some (s.setRow node n) else none

/-- The calls on a canvas with any nodes and any tasks. -/
def canvas : Machine (State ι) (Action ι) where
  init s := (∀ i, s.pc i = .idle) ∧ s.dispatched = []
  step := step G

/-! ### The law and its condition -/

/-- Nothing is missing from the inputs of the node. -/
def Ready (rows : Rows) (id : String) : Prop := strip (localPrompt G id) ≠ "" ∧ missingReasons G rows id = []

/-- The image or video is ready, its gate is idle, and it is neither submitted nor marked failed. -/
def Owed (rows : Rows) (tasks : Tasks) (id : String) : Prop :=
  ∃ n ∈ getNode rows id, (n.kind = .IMAGE ∨ n.kind = .VIDEO) ∧ Ready G rows id ∧
    classifyNodeGenerateGate n.data (n.data.generateTaskId.bind (liveTask tasks)) = .idle ∧
    n.data.generateTaskId = none ∧ n.data.dataStatus ≠ .FAILED

/-- The node is a target of a source whose dispatch has begun. -/
def Awaited (dispatched : List String) (id : String) : Prop :=
  ∃ source ∈ dispatched, id ∈ listDependencyTargets G source

/-- No target of a dispatched source is left out. -/
def Served (s : State ι) : Prop := ∀ id, Awaited G s.dispatched id → ¬ Owed G s.rows s.tasks id

/-- The advance is still to submit the target, or to mark it. -/
def AdvancePc.tries : AdvancePc → Bool
  | classifyTask .. | writeWaiting .. | publishState => false
  | _ => true

/-- The targets that a call has still ahead. -/
def Pc.ahead : Pc → List String
  | publish n true | listTargets n => listDependencyTargets G n
  | advance t todo c => if c.tries then t :: todo else todo
  | _ => []

/-- The walk of the call may end here. -/
def Spares (s : State ι) (i : ι) : Prop :=
  ∀ id ∈ (s.pc i).ahead G, Awaited G s.dispatched id → ¬ Owed G s.rows s.tasks id

/-- The write makes no awaited target owed. -/
def Settles (s : State ι) (t : String) (n : CanvasNode) : Prop :=
  ∀ source ∈ s.dispatched, ∀ id ∈ listDependencyTargets G source,
    Owed G (Function.update s.rows t (some n)) s.tasks id → Owed G s.rows s.tasks id

/-- An exception ends no walk that has an owed target ahead, and a write of the configuration or of WAITING_INPUTS makes
no target owed, nor does a write from outside. -/
def Safe (s : State ι) : Action ι → Prop
  | .fail i _ =>
    match s.pc i with
    | .advance _ _ .prepare | .advance _ _ .submit => True
    | _ => Spares G s i
  | .cancel i => Spares G s i
  | .run i =>
    match s.pc i with
    | .advance _ _ (.writeFailed _) => True
    | .advance t _ c => ∀ n ∈ (c.write (s.rows t)).toOption, Settles G s t n
    | _ => True
  | .updateNode node n => Settles G s node n
  | _ => True

instance (rows : Rows) (id : String) : Decidable (Ready G rows id) := inferInstanceAs (Decidable (_ ∧ _))

instance (rows : Rows) (tasks : Tasks) (id : String) : Decidable (Owed G rows tasks id) :=
  inferInstanceAs (Decidable (∃ n ∈ getNode rows id, _))

instance (dispatched : List String) (id : String) : Decidable (Awaited G dispatched id) :=
  inferInstanceAs (Decidable (∃ source ∈ dispatched, _))

instance (s : State ι) (i : ι) : Decidable (Spares G s i) :=
  inferInstanceAs (Decidable (∀ id ∈ (s.pc i).ahead G, _))

instance (s : State ι) (t : String) (n : CanvasNode) : Decidable (Settles G s t n) :=
  inferInstanceAs (Decidable (∀ source ∈ s.dispatched, _))

instance (s : State ι) (a : Action ι) : Decidable (Safe G s a) := by
  unfold Safe
  repeat' split
  all_goals infer_instance

/-! ### What is owed -/

variable {G : Graph} {rows : Rows} {tasks : Tasks} {id t : String} {n : CanvasNode}

theorem getNode_update (hlive : n.deleted = false) :
    getNode (Function.update rows t (some n)) id = if id = t then some n else getNode rows id := by
  unfold getNode
  by_cases hid : id = t
  · subst hid
    rw [Function.update_self, if_pos rfl, Option.filter_some, if_pos]
    rw [hlive]
    rfl
  · rw [Function.update_of_ne hid, if_neg hid]

theorem getNode_eq_some : getNode rows id = some n ↔ rows id = some n ∧ n.deleted = false := by
  rw [getNode, Option.filter_eq_some_iff, Bool.not_eq_true']

theorem mem_listDependencyTargets {source : String} :
    id ∈ listDependencyTargets G source ↔ ∃ e ∈ G.edges, e.source = source ∧ e.target = id := by
  rw [listDependencyTargets, List.mem_eraseDups, List.mem_map]
  constructor
  · rintro ⟨e, he, htarget⟩
    exact ⟨e, (List.mem_filter.1 he).1, of_decide_eq_true (List.mem_filter.1 he).2, htarget⟩
  · rintro ⟨e, he, hsource, htarget⟩
    exact ⟨e, List.mem_filter.2 ⟨he, decide_eq_true hsource⟩, htarget⟩

theorem missingReasons_eq_nil :
    missingReasons G rows id = [] ↔ ∀ e ∈ G.edges, e.target = id → edgeWaits e (getNode rows e.source) = [] := by
  rw [missingReasons, List.flatMap_eq_nil_iff]
  constructor
  · intro h e he htarget
    exact List.map_eq_nil_iff.1 (h e (List.mem_filter.2 ⟨he, decide_eq_true htarget⟩))
  · intro h e he
    obtain ⟨he, htarget⟩ := List.mem_filter.1 he
    exact List.map_eq_nil_iff.2 (h e he (of_decide_eq_true htarget))

/-- A target of a failed source is not ready. -/
theorem not_ready_of_failed (ht : getNode rows t = some n) (hfailed : n.data.dataStatus = .FAILED)
    (hid : id ∈ listDependencyTargets G t) : ¬ Ready G rows id := by
  obtain ⟨e, he, rfl, htarget⟩ := mem_listDependencyTargets.1 hid
  rintro ⟨-, hnil⟩
  have hwaits := missingReasons_eq_nil.1 hnil e he htarget
  rw [ht, edgeWaits, if_pos hfailed] at hwaits
  cases hwaits

/-- The tasks do not matter for a node without one. -/
theorem Owed.of_tasks {tasks' : Tasks} (h : Owed G rows tasks id) : Owed G rows tasks' id := by
  obtain ⟨n, hn, hkind, hready, hgate, hnone, hstatus⟩ := h
  refine ⟨n, hn, hkind, hready, ?_, hnone, hstatus⟩
  rw [hnone] at hgate ⊢
  exact hgate

/-- A write of a row matters to the row itself and to the targets of the node. -/
theorem Owed.of_update (hlive : n.deleted = false) (h : Owed G (Function.update rows t (some n)) tasks id) (hne : id ≠ t)
    (hwaits : ∀ e ∈ G.edges, e.source = t → e.target = id → edgeWaits e (some n) = [] →
      edgeWaits e (getNode rows t) = []) : Owed G rows tasks id := by
  obtain ⟨m, hm, hkind, ⟨hprompt, hnil⟩, hgate⟩ := h
  rw [getNode_update hlive, if_neg hne] at hm
  refine ⟨m, hm, hkind, ⟨hprompt, missingReasons_eq_nil.2 fun e he htarget => ?_⟩, hgate⟩
  have hedge := missingReasons_eq_nil.1 hnil e he htarget
  rw [getNode_update hlive] at hedge
  split at hedge
  · next hsource => exact hsource ▸ hwaits e he hsource htarget hedge
  · exact hedge

theorem Owed.of_update_other (hlive : n.deleted = false) (h : Owed G (Function.update rows t (some n)) tasks id)
    (hne : id ≠ t) (htarget : id ∉ listDependencyTargets G t) : Owed G rows tasks id :=
  h.of_update hlive hne fun e he hsource htarget' _ =>
    absurd (mem_listDependencyTargets.2 ⟨e, he, hsource, htarget'⟩) htarget

/-- A node that fails is not owed, and neither are its targets. -/
theorem Owed.of_failed (hlive : n.deleted = false) (hfailed : n.data.dataStatus = .FAILED)
    (h : Owed G (Function.update rows t (some n)) tasks id) : Owed G rows tasks id := by
  have ht : getNode (Function.update rows t (some n)) t = some n := by rw [getNode_update hlive, if_pos rfl]
  by_cases hne : id = t
  · subst hne
    obtain ⟨m, hm, -, -, -, -, hstatus⟩ := h
    cases hm.symm.trans ht
    exact absurd hfailed hstatus
  · refine h.of_update_other hlive hne fun htarget => ?_
    obtain ⟨m, -, -, hready, -⟩ := h
    exact not_ready_of_failed ht hfailed htarget hready

/-! ### What a write leaves -/

theorem updateNodeGeneration_ok {row : Option CanvasNode} {taskId : Option Nat} {status : CanvasNodeStatus}
    {assets : Option (List Nat)} {error model : Option String} {duration : Option Int} {revision : Option Nat}
    (h : updateNodeGeneration row taskId status assets error model duration revision = .ok n) :
    ∃ m, row = some m ∧ m.deleted = false ∧
      n = m.save (applyGenerationToData m.data status taskId error assets model duration) := by
  obtain ⟨m, hrow, hlive, -, rfl⟩ := transaction_ok.1 h
  exact ⟨m, hrow, hlive, rfl⟩

/-- The kind of a row, deleted or not. -/
def kindOf (rows : Rows) (id : String) : Option CanvasNodeKind := (rows id).map CanvasNode.kind

theorem kindOf_of_getNode (h : getNode rows t = some n) : kindOf rows t = some n.kind := by
  rw [kindOf, (getNode_eq_some.1 h).1]
  rfl

theorem kindOf_update (h : kindOf rows t = some n.kind) (id : String) :
    kindOf (Function.update rows t (some n)) id = kindOf rows id := by
  by_cases hid : id = t
  · subst hid
    rw [h, kindOf, Function.update_self]
    rfl
  · rw [kindOf, Function.update_of_ne hid]
    rfl

/-- A row that is written stays there, with its kind. -/
structure Writes (rows : Rows) (t : String) (n : CanvasNode) : Prop where
  live : n.deleted = false
  kind : kindOf rows t = some n.kind

theorem writes_of_save {m : CanvasNode} {d : CanvasNodeData} (hrow : rows t = some m) (hlive : m.deleted = false) :
    Writes rows t (m.save d) := by
  refine ⟨hlive, ?_⟩
  rw [kindOf, hrow]
  rfl

/-- A write of an advance is of the row of its target. -/
theorem writes_of_write {c : AdvancePc} (h : c.write (rows t) = .ok n) : Writes rows t n := by
  cases c with
  | persistWrite model duration d =>
    obtain ⟨m, hrow, hlive, rfl⟩ := updateNodeGeneration_ok h
    exact writes_of_save hrow hlive
  | writeWaiting taskId error =>
    obtain ⟨m, hrow, hlive, rfl⟩ := updateNodeGeneration_ok h
    exact writes_of_save hrow hlive
  | writeFailed error =>
    obtain ⟨m, hrow, hlive, rfl⟩ := updateNodeGeneration_ok h
    exact writes_of_save hrow hlive
  | _ => cases h

/-- The task that a submit binds is on the target; nothing else of the row changes. -/
theorem not_owed_of_bind {taskId : Nat} (h : bindGenerateTaskToNode tasks (rows t) taskId = .ok n) {tasks' : Tasks}
    (ho : Owed G (Function.update rows t (some n)) tasks' id) : Writes rows t n ∧ id ≠ t ∧ Owed G rows tasks' id := by
  obtain ⟨m, hrow, hlive, -, rfl⟩ := transaction_ok.1 h
  have hwrites : Writes rows t (m.save { m.data with generateTaskId := some taskId }) := writes_of_save hrow hlive
  have hne : id ≠ t := by
    rintro rfl
    obtain ⟨x, hx, -, -, -, hnone, -⟩ := ho
    rw [getNode_update hwrites.live, if_pos rfl] at hx
    cases hx
    cases hnone
  refine ⟨hwrites, hne, ho.of_update hwrites.live hne fun e _ _ _ hedge => ?_⟩
  rw [getNode_eq_some.2 ⟨hrow, hlive⟩]
  exact hedge

/-! ### The invariant -/

/-- What an advance knows of its target, of the kind `k`. -/
def AdvancePc.Fits (k : Option CanvasNodeKind) : AdvancePc → Prop
  | classifyRow n | classifyTask n _ | resolveConfig n => k = some n.kind
  | persistRead model duration | persistWrite model duration _ | persistPublish model duration
  | getNodeAgain model duration => model ≠ "" ∧ (k = some .VIDEO → duration ≠ none)
  | resolveInputs model duration n => k = some n.kind ∧ model ≠ "" ∧ (k = some .VIDEO → duration ≠ none)
  | _ => True

/-- Every target that is owed and awaited is ahead of a call. -/
structure Inv (G : Graph) (s : State ι) : Prop where
  cover : ∀ id, Awaited G s.dispatched id → Owed G s.rows s.tasks id → ∃ i, id ∈ (s.pc i).ahead G
  fits : ∀ i t todo a, s.pc i = .advance t todo a → a.Fits (kindOf s.rows t)

variable {s s' : State ι} {i : ι} {c : Pc}

/-- The invariant after a step of `i` to the position `c`: what is owed then was owed before and not ahead of `i`, or it
is ahead of `c`. -/
theorem inv_of (hI : Inv G s) (hpc : s'.pc = Function.update s.pc i c)
    (hkind : ∀ t, kindOf s'.rows t = kindOf s.rows t)
    (hfits : ∀ t todo a, c = .advance t todo a → a.Fits (kindOf s.rows t))
    (hcover : ∀ id, Awaited G s'.dispatched id → Owed G s'.rows s'.tasks id → id ∉ c.ahead G →
      Awaited G s.dispatched id ∧ Owed G s.rows s.tasks id ∧ id ∉ (s.pc i).ahead G) : Inv G s' := by
  have hown : s'.pc i = c := by rw [hpc, Function.update_self]
  have hother : ∀ j, j ≠ i → s'.pc j = s.pc j := fun j hj => by rw [hpc, Function.update_of_ne hj]
  refine ⟨fun id hawaited howed => ?_, fun j t todo a hj => ?_⟩
  · by_cases hahead : id ∈ c.ahead G
    · exact ⟨i, hown ▸ hahead⟩
    · obtain ⟨hawaited, howed, hnot⟩ := hcover id hawaited howed hahead
      obtain ⟨j, hj⟩ := hI.cover id hawaited howed
      have hji : j ≠ i := by
        rintro rfl
        exact hnot hj
      exact ⟨j, (hother j hji).symm ▸ hj⟩
  · rw [hkind]
    by_cases hji : j = i
    · exact hfits t todo a (hown.symm.trans (hji ▸ hj))
    · exact hI.fits j t todo a ((hother j hji).symm.trans hj)

/-- A step that changes no row: what it leaves behind is not owed. -/
theorem inv_setPc (hI : Inv G s) (hfits : ∀ t todo a, c = .advance t todo a → a.Fits (kindOf s.rows t))
    (hleave : ∀ id ∈ (s.pc i).ahead G, id ∉ c.ahead G → Awaited G s.dispatched id → ¬ Owed G s.rows s.tasks id) :
    Inv G (s.setPc i c) := by
  refine inv_of hI rfl (fun _ => rfl) hfits fun id hawaited howed hnot => ⟨hawaited, howed, fun hahead => ?_⟩
  exact hleave id hahead hnot hawaited howed

theorem walk_ahead (todo : List String) : (walk todo).ahead G = todo := by
  cases todo with
  | nil => rfl
  | cons t todo => rfl

theorem walk_fits {k : Option CanvasNodeKind} {todo todo' : List String} {a : AdvancePc}
    (h : walk todo = .advance t todo' a) : a.Fits k := by
  cases todo with
  | nil => cases h
  | cons u todo =>
    cases h
    trivial

theorem mem_ahead {todo : List String} {a : AdvancePc} :
    id ∈ (Pc.advance t todo a).ahead G ↔ id = t ∧ a.tries = true ∨ id ∈ todo := by
  rw [Pc.ahead]
  cases ha : a.tries with
  | true => simp
  | false => simp

variable {todo : List String} {a a' : AdvancePc}

/-- The advance goes on with its target, or leaves one that is not owed. -/
theorem inv_stay (hI : Inv G s) (hpc : s.pc i = .advance t todo a) (hfits : a'.Fits (kindOf s.rows t))
    (hleave : a'.tries = true ∨ ¬ Owed G s.rows s.tasks t) :
    Inv G (s.setPc i (.advance t todo a')) := by
  refine inv_setPc hI (fun u r b hb => ?_) fun id hid hnot _ => ?_
  · cases hb
    exact hfits
  · rw [hpc, mem_ahead] at hid
    rw [mem_ahead, not_or, not_and, Bool.not_eq_true] at hnot
    obtain ⟨hid, -⟩ := hid.resolve_right hnot.2
    subst hid
    exact hleave.resolve_left fun ha => Bool.false_ne_true ((hnot.1 rfl).symm.trans ha)

/-- The advance is done with its target. -/
theorem inv_skip (hI : Inv G s) (hpc : s.pc i = .advance t todo a)
    (hleave : a.tries = true → ¬ Owed G s.rows s.tasks t) : Inv G (s.setPc i (walk todo)) := by
  refine inv_setPc hI (fun u r b hb => walk_fits hb) fun id hid hnot _ => ?_
  rw [hpc, mem_ahead] at hid
  rw [walk_ahead] at hnot
  obtain ⟨hid, ha⟩ := hid.resolve_right hnot
  subst hid
  exact hleave ha

theorem missingRequirements_eq_nil {kind : CanvasNodeKind} {model prompt : String} {duration : Option Int}
    {reasons : List String} (hmodel : model ≠ "") (hprompt : strip prompt ≠ "")
    (hduration : kind = .VIDEO → duration ≠ none) (hreasons : reasons = []) :
    NodeAdvance.missingRequirements kind model duration prompt reasons = [] := by
  rw [NodeAdvance.missingRequirements, if_neg hmodel, if_neg hprompt, if_neg fun h => hduration h.1 h.2, hreasons]
  rfl

theorem inv_read (hI : Inv G s) (hpc : s.pc i = .advance t todo a) (h : read G s.rows s.tasks t todo a = some c) :
    Inv G (s.setPc i c) := by
  have hfits := hI.fits i t todo a hpc
  cases a with
  | getNode =>
    cases hget : getNode s.rows t with
    | none =>
      simp only [read, hget] at h
      cases h
      refine inv_skip hI hpc fun _ => ?_
      rintro ⟨n, hn, -⟩
      cases hget.symm.trans hn
    | some n =>
      simp only [read, hget] at h
      split at h
      · cases h
        exact inv_stay hI hpc (kindOf_of_getNode hget) (.inl rfl)
      · next hkind =>
        cases h
        refine inv_skip hI hpc fun _ => ?_
        rintro ⟨m, hm, hrun, -⟩
        cases hget.symm.trans hm
        exact hkind hrun
  | classifyRow n =>
    obtain ⟨m, hget, rfl⟩ := Option.map_eq_some_iff.1 h
    cases htask : m.data.generateTaskId with
    | some k =>
      refine inv_stay hI hpc hfits (.inr ?_)
      rintro ⟨x, hx, -, -, -, hnone, -⟩
      cases hget.symm.trans hx
      cases htask.symm.trans hnone
    | none =>
      dsimp only
      split
      · exact inv_stay hI hpc hfits (.inl rfl)
      · next hgate =>
        refine inv_skip hI hpc fun _ => ?_
        rintro ⟨x, hx, -, -, hidle, -⟩
        cases hget.symm.trans hx
        rw [htask] at hidle
        exact hgate hidle
  | classifyTask n d =>
    cases h
    split
    · exact inv_stay hI hpc hfits (.inl rfl)
    · exact inv_skip hI hpc nofun
  | persistRead model duration =>
    cases h
    refine inv_stay hI hpc ?_ (.inl ?_)
    · split
      · exact hfits
      · exact hfits
    · split
      · rfl
      · rfl
  | persistPublish model duration =>
    cases h
    exact inv_stay hI hpc hfits (.inl rfl)
  | getNodeAgain model duration =>
    cases hget : getNode s.rows t with
    | none =>
      simp only [read, hget] at h
      cases h
      refine inv_skip hI hpc fun _ => ?_
      rintro ⟨n, hn, -⟩
      cases hget.symm.trans hn
    | some n =>
      simp only [read, hget] at h
      cases h
      exact inv_stay hI hpc ⟨kindOf_of_getNode hget, hfits⟩ (.inl rfl)
  | resolveInputs model duration n =>
    obtain ⟨m, hget, rfl⟩ := Option.map_eq_some_iff.1 h
    dsimp only
    split
    · exact inv_stay hI hpc trivial (.inl rfl)
    · next hmissing =>
      refine inv_stay hI hpc trivial (.inr fun howed => hmissing ?_)
      obtain ⟨hkind, hmodel, hduration⟩ := hfits
      obtain ⟨x, -, -, ⟨hprompt, hnil⟩, -⟩ := howed
      exact missingRequirements_eq_nil hmodel hprompt (fun hv => hduration (hkind.trans (congrArg some hv))) hnil
  | prepare =>
    obtain ⟨m, hget, rfl⟩ := Option.map_eq_some_iff.1 h
    by_cases hmissing : missingReasons G s.rows t ≠ []
    · rw [if_pos hmissing]
      exact inv_stay hI hpc trivial (.inl rfl)
    · rw [if_neg hmissing]
      by_cases hprompt : strip (localPrompt G t) = ""
      · rw [if_pos hprompt]
        exact inv_stay hI hpc trivial (.inl rfl)
      · rw [if_neg hprompt]
        exact inv_stay hI hpc trivial (.inl rfl)
  | publishState =>
    cases h
    exact inv_skip hI hpc nofun
  | resolveConfig _ => cases h
  | persistWrite _ _ _ => cases h
  | writeWaiting _ _ => cases h
  | submit => cases h
  | writeFailed _ => cases h

/-- A write of a row, by a step of `i` that gets to `c`. -/
theorem inv_write (hI : Inv G s) (hw : Writes s.rows t n) (hrows : s'.rows = Function.update s.rows t (some n))
    (hpc : s'.pc = Function.update s.pc i c) (hdispatched : s'.dispatched = s.dispatched)
    (hfits : ∀ u todo a, c = .advance u todo a → a.Fits (kindOf s.rows u))
    (hcover : ∀ id, Awaited G s.dispatched id → Owed G (Function.update s.rows t (some n)) s.tasks id → id ∉ c.ahead G →
      Owed G s.rows s.tasks id ∧ id ∉ (s.pc i).ahead G) : Inv G s' := by
  refine inv_of hI hpc (fun u => hrows ▸ kindOf_update hw.kind u) hfits fun id hawaited howed hnot => ?_
  rw [hdispatched] at hawaited
  rw [hrows] at howed
  exact ⟨hawaited, hcover id hawaited howed.of_tasks hnot⟩

/-- The config that is resolved is complete. -/
theorem resolveNodeGenerationConfig_complete (n : CanvasNode) (firstModel : String) (defaultDuration : Int)
    (h : (NodeAdvance.resolveNodeGenerationConfig n firstModel defaultDuration).1 ≠ "") (hkind : n.kind = .VIDEO) :
    (NodeAdvance.resolveNodeGenerationConfig n firstModel defaultDuration).2.1 ≠ none := by
  unfold NodeAdvance.resolveNodeGenerationConfig at h ⊢
  dsimp only at h ⊢
  cases hduration : NodeAdvance.dataDurationSec n.data with
  | none =>
    rw [if_pos (decide_eq_true ⟨hkind, rfl, h⟩)]
    exact Option.some_ne_none _
  | some duration =>
    repeat' split
    all_goals exact Option.some_ne_none _

/-- A terminal write, whose publish is next: what it makes owed is a target of the node. -/
theorem inv_terminal (hI : Inv G s) (hpc : s.pc i = .idle) (hw : Writes s.rows t n) {dispatches : Bool}
    (howed : ∀ id, Owed G (Function.update s.rows t (some n)) s.tasks id → Owed G s.rows s.tasks id ∨
      id ∈ (Pc.publish t dispatches).ahead G) : Inv G ((s.setRow t n).setPc i (.publish t dispatches)) := by
  have hfits : ∀ u todo a, Pc.publish t dispatches = .advance u todo a → a.Fits (kindOf s.rows u) := by
    intro u todo a ha
    cases ha
  refine inv_write hI hw rfl rfl rfl hfits fun id _ ho hnot => ⟨(howed id ho).resolve_right hnot, ?_⟩
  rw [hpc]
  exact List.not_mem_nil

/-- A dispatch begins, where its targets are ahead from now on. -/
theorem inv_dispatch (hI : Inv G s) (hahead : ∀ id ∈ (s.pc i).ahead G, id ∈ listDependencyTargets G t) :
    Inv G ({ s.setPc i (.listTargets t) with dispatched := t :: s.dispatched } : State ι) := by
  have hfits : ∀ u todo a, Pc.listTargets t = .advance u todo a → a.Fits (kindOf s.rows u) := by
    intro u todo a ha
    cases ha
  refine inv_of (c := .listTargets t) hI rfl (fun _ => rfl) hfits fun id hawaited howed hnot => ?_
  obtain ⟨source, hsource, htarget⟩ := hawaited
  rcases List.mem_cons.1 hsource with rfl | hsource
  · exact absurd htarget hnot
  · exact ⟨⟨source, hsource, htarget⟩, howed, fun hid => hnot (hahead id hid)⟩

theorem written_fits {k : Option CanvasNodeKind} (h : a.Fits k) : a.written.Fits k := by
  cases a with
  | persistWrite model duration d => exact h
  | _ => trivial

/-- After a write the advance tries its target as before, or the target is not owed. -/
theorem written_tries (h : a.write (s.rows t) = .ok n) (ha : a.tries = true) :
    a.written.tries = true ∨ ¬ Owed G (Function.update s.rows t (some n)) s.tasks t := by
  cases a with
  | persistWrite model duration d => exact .inl rfl
  | writeWaiting taskId error => cases ha
  | writeFailed error =>
    obtain ⟨m, hrow, hlive, rfl⟩ := updateNodeGeneration_ok h
    refine .inr ?_
    rintro ⟨x, hx, -, -, -, -, hstatus⟩
    rw [getNode_update (n := m.save _) hlive, if_pos rfl] at hx
    cases hx
    exact hstatus rfl
  | _ => cases h

/-- A write of an advance makes no awaited target owed. -/
theorem write_keeps (hsafe : Safe G s (.run i)) (hpc : s.pc i = .advance t todo a)
    (h : a.write (s.rows t) = .ok n) (hawaited : Awaited G s.dispatched id)
    (howed : Owed G (Function.update s.rows t (some n)) s.tasks id) : Owed G s.rows s.tasks id := by
  obtain ⟨source, hsource, htarget⟩ := hawaited
  simp only [Safe, hpc] at hsafe
  cases a with
  | writeFailed error =>
    obtain ⟨m, hrow, hlive, rfl⟩ := updateNodeGeneration_ok h
    exact Owed.of_failed (n := m.save _) hlive rfl howed
  | persistWrite model duration d =>
    exact hsafe n (by rw [h]; rfl) source hsource id htarget howed
  | writeWaiting taskId error =>
    exact hsafe n (by rw [h]; rfl) source hsource id htarget howed
  | _ => cases h

theorem inv_run (hI : Inv G s) (hsafe : Safe G s (.run i)) (h : run G s i = some s') : Inv G s' := by
  cases hpc : s.pc i with
  | idle =>
    simp only [run, hpc] at h
    cases h
  | publish source dispatches =>
    cases dispatches with
    | true =>
      simp only [run, hpc] at h
      cases h
      refine inv_dispatch hI fun id hid => ?_
      rw [hpc] at hid
      exact hid
    | false =>
      simp only [run, hpc] at h
      cases h
      refine inv_setPc hI (fun u todo a ha => by cases ha) fun id hid => ?_
      rw [hpc] at hid
      exact absurd hid List.not_mem_nil
  | listTargets source =>
    simp only [run, hpc] at h
    cases h
    refine inv_setPc hI (fun u todo a ha => walk_fits ha) fun id hid hnot => ?_
    rw [hpc] at hid
    rw [walk_ahead] at hnot
    exact absurd hid hnot
  | advance t todo a =>
    simp only [run, hpc] at h
    cases hwrite : a.write (s.rows t) with
    | ok n =>
      rw [hwrite] at h
      cases h
      have hfits : ∀ u r b, Pc.advance t todo a.written = .advance u r b → b.Fits (kindOf s.rows u) := by
        intro u r b hb
        cases hb
        exact written_fits (hI.fits i t todo a hpc)
      refine inv_write hI (writes_of_write hwrite) rfl rfl rfl hfits fun id hawaited howed hnot => ?_
      refine ⟨write_keeps hsafe hpc hwrite hawaited howed, fun hid => ?_⟩
      rw [hpc, mem_ahead] at hid
      rw [mem_ahead, not_or, not_and] at hnot
      obtain ⟨rfl, ha⟩ := hid.resolve_right hnot.2
      exact (written_tries hwrite ha).elim (hnot.1 rfl) fun hn => hn howed
    | error e =>
      rw [hwrite] at h
      obtain ⟨c, hc, rfl⟩ := Option.map_eq_some_iff.1 h
      exact inv_read hI hpc hc
  | _ =>
    simp only [run, hpc] at h
    cases h

/-- A step that is no party's. -/
theorem inv_outside (hI : Inv G s) (hpc : s'.pc = s.pc) (hdispatched : s'.dispatched = s.dispatched)
    (hkind : ∀ t, kindOf s'.rows t = kindOf s.rows t)
    (howed : ∀ id, Awaited G s.dispatched id → Owed G s'.rows s'.tasks id → Owed G s.rows s.tasks id) : Inv G s' := by
  refine ⟨fun id hawaited ho => ?_, fun j t todo a hj => ?_⟩
  · rw [hdispatched] at hawaited
    rw [hpc]
    exact hI.cover id hawaited (howed id hawaited ho)
  · rw [hkind]
    exact hI.fits j t todo a (hpc ▸ hj)

/-- The walk of a call ends, and what is ahead of it is not owed. -/
theorem inv_over (hI : Inv G s) (hspares : Spares G s i) : Inv G (s.setPc i .over) :=
  inv_setPc hI (fun u todo a ha => by cases ha) fun id hid _ => hspares id hid

theorem inv_submitted (hI : Inv G s) (hpc : s.pc i = .advance t todo .submit) {taskId : Nat}
    (h : bindGenerateTaskToNode s.tasks (s.rows t) taskId = .ok n) (hrows : s'.rows = Function.update s.rows t (some n))
    (hpc' : s'.pc = Function.update s.pc i (walk todo))
    (hdispatched : s'.dispatched = s.dispatched) : Inv G s' := by
  have hkind : kindOf s.rows t = some n.kind := by
    obtain ⟨m, hrow, hlive, -, rfl⟩ := transaction_ok.1 h
    exact (writes_of_save (d := { m.data with generateTaskId := some taskId }) hrow hlive).kind
  refine inv_of hI hpc' (fun u => hrows ▸ kindOf_update hkind u) (fun u r b hb => walk_fits hb)
    fun id hawaited howed hnot => ?_
  rw [hrows] at howed
  rw [walk_ahead] at hnot
  obtain ⟨-, hne, ho⟩ := not_owed_of_bind h howed
  refine ⟨hdispatched ▸ hawaited, ho.of_tasks, fun hid => ?_⟩
  rw [hpc, mem_ahead] at hid
  exact hid.elim (fun hid => hne hid.1) hnot

/-- The `try` block goes on with its handler, and any other exception ends the walk. -/
theorem fail_cases {message : String} (h : fail s i message = some s') :
    (∃ t todo a, s.pc i = .advance t todo a ∧ s' = s.setPc i (.advance t todo (.writeFailed message)) ∧
      Safe G s (.fail i message)) ∨ s' = s.setPc i .over ∧ (Safe G s (.fail i message) ↔ Spares G s i) := by
  cases hpc : s.pc i with
  | idle =>
    simp only [fail, hpc] at h
    cases h
  | publish source dispatches =>
    simp only [fail, Safe, hpc] at h ⊢
    exact .inr ⟨(Option.some.inj h).symm, trivial⟩
  | listTargets source =>
    simp only [fail, Safe, hpc] at h ⊢
    exact .inr ⟨(Option.some.inj h).symm, trivial⟩
  | advance t todo a =>
    cases a with
    | prepare =>
      simp only [fail, Safe, hpc] at h ⊢
      exact .inl ⟨t, todo, .prepare, rfl, (Option.some.inj h).symm, trivial⟩
    | submit =>
      simp only [fail, Safe, hpc] at h ⊢
      exact .inl ⟨t, todo, .submit, rfl, (Option.some.inj h).symm, trivial⟩
    | _ =>
      simp only [fail, Safe, hpc] at h ⊢
      exact .inr ⟨(Option.some.inj h).symm, trivial⟩
  | _ =>
    simp only [fail, hpc] at h
    cases h

theorem inv_fail (hI : Inv G s) {message : String} (hsafe : Safe G s (.fail i message))
    (h : fail s i message = some s') : Inv G s' := by
  obtain ⟨t, todo, a, hpc, rfl, -⟩ | ⟨rfl, hiff⟩ := fail_cases (G := G) h
  · exact inv_stay hI hpc trivial (.inl rfl)
  · exact inv_over hI (hiff.1 hsafe)

/-- What a terminal write makes owed is a target of the node, unless it is the node itself. -/
theorem owed_after_terminal (hlive : n.deleted = false) (hself : ¬ Owed G (Function.update rows t (some n)) tasks t)
    (h : Owed G (Function.update rows t (some n)) tasks id) :
    Owed G rows tasks id ∨ id ∈ listDependencyTargets G t := by
  by_cases htarget : id ∈ listDependencyTargets G t
  · exact .inr htarget
  · refine .inl (h.of_update_other hlive ?_ htarget)
    rintro rfl
    exact hself h

/-- A step under the condition keeps the invariant. -/
theorem inv_step {p : Action ι} (hI : Inv G s) (hsafe : Safe G s p) (h : step G s p = some s') : Inv G s' := by
  cases p with
  | project i node taskId =>
    simp only [step] at h
    split at h
    · next t m hpc htask hm =>
      split at h
      · next hbound =>
        split at h
        · next n hn =>
          cases h
          obtain ⟨x, hrow, hlive, rfl⟩ := updateNodeGeneration_ok hn
          refine inv_terminal hI hpc (writes_of_save hrow hlive) fun id => owed_after_terminal hlive ?_
          rintro ⟨y, hy, -, -, -, hnone, -⟩
          rw [getNode_update (n := x.save _) hlive, if_pos rfl] at hy
          cases hy
          cases hnone
        · cases h
      · cases h
    · cases h
  | observe i node =>
    simp only [step] at h
    split at h
    · next n hpc hn =>
      split at h
      · cases h
        refine inv_dispatch hI fun id hid => ?_
        rw [hpc] at hid
        exact absurd hid List.not_mem_nil
      · cases h
    · cases h
  | writeText i node succeeds outputText error expectedRevision =>
    simp only [step] at h
    split at h
    · next m hpc hm =>
      split at h
      · next hkind =>
        split at h
        · next n hn =>
          cases h
          obtain ⟨x, hrow, hlive, -, rfl⟩ := transaction_ok.1 hn
          refine inv_terminal hI hpc (writes_of_save hrow hlive) fun id ho => ?_
          cases succeeds with
          | true =>
            refine owed_after_terminal (n := x.save _) hlive ?_ ho
            rintro ⟨y, hy, hrun, -⟩
            rw [getNode_update (n := x.save _) hlive, if_pos rfl] at hy
            cases hy
            cases hrow.symm.trans (getNode_eq_some.1 hm).1
            rcases hrun with hrun | hrun
            · cases hkind.symm.trans hrun
            · cases hkind.symm.trans hrun
          | false => exact .inl (Owed.of_failed (n := x.save _) hlive rfl ho)
        · cases h
      · cases h
    · cases h
  | run i => exact inv_run hI hsafe h
  | resolveConfig i firstModel defaultDuration =>
    simp only [step] at h
    split at h
    · next t todo n hpc =>
      have hfits : kindOf s.rows t = some n.kind := hI.fits i t todo _ hpc
      have hcomplete := resolveNodeGenerationConfig_complete n firstModel defaultDuration
      generalize NodeAdvance.resolveNodeGenerationConfig n firstModel defaultDuration = r at h hcomplete
      obtain ⟨model, duration, changed⟩ := r
      dsimp only at h hcomplete
      split at h
      · cases h
      · next hmodel =>
        have hduration : kindOf s.rows t = some .VIDEO → duration ≠ none := fun hv =>
          hcomplete hmodel (Option.some.inj (hfits.symm.trans hv))
        cases h
        cases changed with
        | true => exact inv_stay hI hpc ⟨hmodel, hduration⟩ (.inl rfl)
        | false => exact inv_stay hI hpc ⟨hfits, hmodel, hduration⟩ (.inl rfl)
    · cases h
  | submitted i task =>
    simp only [step] at h
    split at h
    · next t todo hpc =>
      split at h
      · next n hn =>
        cases h
        exact inv_submitted hI hpc hn rfl rfl rfl
      · cases h
    · cases h
  | fail i message => exact inv_fail hI hsafe h
  | cancel i =>
    simp only [step] at h
    split at h
    · cases h
    · cases h
      exact inv_over hI hsafe
  | updateTask id t =>
    cases h
    exact inv_outside hI rfl rfl (fun _ => rfl) fun _ _ ho => ho.of_tasks
  | updateNode node n =>
    simp only [step] at h
    split at h
    · next hkind =>
      cases h
      refine inv_outside hI rfl rfl (fun u => kindOf_update hkind u) fun id hawaited ho => ?_
      obtain ⟨source, hsource, htarget⟩ := hawaited
      exact hsafe source hsource id htarget ho
    · cases h

theorem inv_init (h : (canvas G).init s) : Inv G s := by
  obtain ⟨hidle, hdispatched⟩ := h
  refine ⟨fun id hawaited => ?_, fun i t todo a ha => ?_⟩
  · rw [hdispatched] at hawaited
    obtain ⟨source, hsource, -⟩ := hawaited
    exact absurd hsource List.not_mem_nil
  · cases (hidle i).symm.trans ha

/-! ### When no target is left out -/

/-- An exception or a cancel outside the condition leaves out a target that nothing serves any more once the other calls
are over. -/
theorem not_served_of_over (hover : ∀ j, j ≠ i → s.pc j = .idle ∨ s.pc j = .over) (h : ¬ Spares G s i) :
    (∀ j, (s.setPc i .over).pc j = .idle ∨ (s.setPc i .over).pc j = .over) ∧ ¬ Served G (s.setPc i .over) := by
  constructor
  · exact (Function.forall_update_iff s.pc fun _ c => c = .idle ∨ c = .over).2 ⟨.inr rfl, hover⟩
  · intro hserved
    exact h fun id _ hawaited => hserved id hawaited

theorem not_served_of_fail {message : String} (hover : ∀ j, j ≠ i → s.pc j = .idle ∨ s.pc j = .over)
    (hsafe : ¬ Safe G s (.fail i message)) (h : step G s (.fail i message) = some s') :
    (∀ j, s'.pc j = .idle ∨ s'.pc j = .over) ∧ ¬ Served G s' := by
  obtain ⟨t, todo, a, -, -, hsafe'⟩ | ⟨rfl, hiff⟩ := fail_cases (G := G) h
  · exact absurd hsafe' hsafe
  · exact not_served_of_over hover fun hspares => hsafe (hiff.2 hspares)

end Model

/-- A node of an image or a video. -/
def freshNode (kind : CanvasNodeKind) (config : Option CanvasNodeConfig) : CanvasNode :=
  ⟨kind, 1, false, ⟨some .IDLE, none, config, none, none, none, none, none, none⟩⟩

/-- A source under way and its targets: an image that has a model or not, and a video that has one. -/
def posterRows (model : Option String) : Rows
  | "sketch" => some ⟨.IMAGE, 1, false, ⟨some .RUNNING, none, none, none, some 1, none, none, none, none⟩⟩
  | "poster" => some (freshNode .IMAGE (some ⟨model, none, none⟩))
  | "trailer" => some (freshNode .VIDEO (some ⟨some "motion", some 5, none⟩))
  | _ => none

def posterGraph : Graph :=
  ⟨[⟨"sketch", "poster", .OUTPUT_ASSET, .REFERENCE_ASSET⟩, ⟨"sketch", "trailer", .OUTPUT_ASSET, .REFERENCE_ASSET⟩],
    fun _ => "a boat"⟩

/-- The task of the source, which has succeeded. -/
def sketchTask : GenerateTask := ⟨.IMAGE, some 10, .SUCCEEDED, true, none, none, some [7], false⟩

def posterStart (model : Option String) : State Unit :=
  ⟨posterRows model, fun id => if id = 1 then some sketchTask else none, 2, fun _ => .idle, []⟩

end NexusStudio.Downstream
