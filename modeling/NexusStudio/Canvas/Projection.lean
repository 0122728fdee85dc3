import NexusStudio.Canvas.NodeAdvance

/-!
# What a node shows of its task

Bindings of tasks to a node, patches of the user, and projections, one after the other.

* (binding) `bind_generate_task_to_node` writes the task and leaves status, assets and error as they are.
* (projection) The projection of a task that is over is left out when `canvas_node_needs_sync` finds the node in step;
  when it is made, assets that the task does not have are left.
* (law) After the projection of the node's task the node shows its status, assets and error.
* (defect) A node that is done with the assets of an earlier task is in step with every task that has succeeded, and one
  that has failed with an error is in step with every task that has failed.
* (condition) `Fits`: such a node shows the task already, and a task without assets finds no assets.
-/

set_option linter.unusedSectionVars false

namespace NexusStudio.Projection

open Concurrent CanvasNodes Generation NodeAdvance

/-! ### Projections -/

/-- A call of `project_from_task` or `reconcile_canvas_node_for_task`, with what it meets. -/
structure Call where
  id : Nat
  task : GenerateTask
  ensureAssets : Bool
  -- another live node has the task and is found first
  elsewhere : Bool
  ensureFails : Bool
  -- the assets are ready, and of the user and the project
  attaches : Bool

/-- The task that was projected, the assets, and the row of the node, `none` when the call raises. -/
structure Outcome where
  task : GenerateTask
  assets : List Asset
  row : Option (Option CanvasNode)

/-- The node is live and its task is `id`. -/
def holds (row : Option CanvasNode) (id : Nat) : Option CanvasNode :=
  (row.filter fun n => !n.deleted).filter fun n => n.data.generateTaskId = some id

section Model

variable (row : Option CanvasNode) (assets : List Asset) (c : Call)

/-- `_node_for_task`, as far as it finds this node. -/
def nodeForTask : Option CanvasNode := if c.elsewhere then none else holds row c.id

/-- `sync_canvas_node_from_generate_task`. -/
def syncCanvasNode (t : GenerateTask) : Option (Option CanvasNode) :=
  match nodeForTask row c with
  | none => some row
  | some _ =>
    if t.resultAssetIds.getD [] ≠ [] ∧ c.attaches = false then none
    else
      match updateNodeGeneration row (some c.id) (nodeStatusFromTask t.status) t.resultAssetIds t.errorMessage none none
        none with
      | .ok n => some (some n)
      | .error _ => none

/-- The task has succeeded and its assets have not been created. -/
def needsAssets : Bool := c.ensureAssets && c.task.status = .SUCCEEDED && c.task.resultAssetIds.getD [] = []

/-- The task with its assets. -/
def withAssets : GenerateTask × List Asset :=
  if needsAssets c then ensureResultAssets c.task assets else (c.task, assets)

/-- `reconcile_canvas_node_for_task` of a task that is over. -/
def reconcileCanvasNode : Outcome :=
  match nodeForTask row c with
  | none => ⟨c.task, assets, some row⟩
  | some n =>
    if needsAssets c && c.ensureFails then ⟨c.task, assets, none⟩
    else
      let (t, assets) := withAssets assets c
      ⟨t, assets, if canvasNodeNeedsSync n.data t then syncCanvasNode row c t else some row⟩

def projectFromTask : Outcome :=
  if c.task.status.isTerminal then reconcileCanvasNode row assets c
  else ⟨c.task, assets, syncCanvasNode row c c.task⟩

end Model

/-! ### The machine -/

structure State where
  row : Option CanvasNode
  tasks : Nat → Option GenerateTask
  assets : List Asset
  -- the task that is over and that was projected last since the node was bound
  projected : Option GenerateTask

inductive Action
  | bind (id : Nat)
  | updateNode (revision : Nat) (content model : Option String) (config : Option CanvasNodeConfig)
  | deleteNode (revision : Nat)
  | project (c : Call)
  -- others
  | setTask (id : Nat) (t : GenerateTask)
  | setAssets (assets : List Asset)

/-- A transaction commits its row, or raises. -/
def State.commit (s : State) (r : Except NodeError CanvasNode) (projected : Option GenerateTask) : State :=
  match r with
  | .ok n => { s with row := some n, projected }
  | .error _ => s

/-- A projection of the node's task is noted when it returns. -/
def State.project (s : State) (c : Call) : State :=
  let o := projectFromTask s.row s.assets c
  match o.row with
  | none => { s with assets := o.assets }
  | some row =>
    { s with
      row
      assets := o.assets
      projected :=
        if (holds s.row c.id).isSome then (if c.task.status.isTerminal then some o.task else none) else s.projected }

def step (s : State) : Action → Option State
  | .bind id => some (s.commit (bindGenerateTaskToNode s.tasks s.row id) none)
  | .updateNode revision content model config =>
    some (s.commit (updateNodeOp s.row revision content model config) s.projected)
  | .deleteNode revision => some (s.commit (deleteNodeOp s.row revision) s.projected)
  | .project c => some (s.project c)
  | .setTask id t => some { s with tasks := Function.update s.tasks id (some t) }
  | .setAssets assets => some { s with assets }

def nodes : Machine State Action where
  init s := s.projected = none
  step := step

/-! ### The law and its condition -/

/-- The node shows the task: no assets and no list of assets are the same, and so are no error and an empty one. -/
structure Shows (d : CanvasNodeData) (t : GenerateTask) : Prop where
  status : d.dataStatus = nodeStatusFromTask t.status
  assets : d.outputAssetIds.getD [] = t.resultAssetIds.getD []
  error : d.generateError.getD "" = t.errorMessage.getD ""

instance (d : CanvasNodeData) (t : GenerateTask) : Decidable (Shows d t) :=
  decidable_of_iff (d.dataStatus = nodeStatusFromTask t.status ∧ d.outputAssetIds.getD [] = t.resultAssetIds.getD [] ∧
    d.generateError.getD "" = t.errorMessage.getD "")
    ⟨fun ⟨hs, ha, he⟩ => ⟨hs, ha, he⟩, fun ⟨hs, ha, he⟩ => ⟨hs, ha, he⟩⟩

def Law (s : State) : Prop := ∀ t ∈ s.projected, ∀ n ∈ s.row, Shows n.data t

/-- The node is found behind the task, and has no assets when the task has no list of them; or it shows the task. -/
def Fits (d : CanvasNodeData) (t : GenerateTask) : Prop :=
  if canvasNodeNeedsSync d t then t.resultAssetIds = none → d.outputAssetIds.getD [] = [] else Shows d t

instance (d : CanvasNodeData) (t : GenerateTask) : Decidable (Fits d t) := by
  unfold Fits
  infer_instance

/-- The assets cannot be created, or the node needs assets that cannot be attached. -/
def raises (assets : List Asset) (c : Call) (d : CanvasNodeData) : Bool :=
  let t := (withAssets assets c).1
  (needsAssets c && c.ensureFails) || (canvasNodeNeedsSync d t && t.resultAssetIds.getD [] ≠ [] && !c.attaches)

/-- A projection of the node's task, which is over, fits the node that it finds, unless it raises; where another node is
found, the node shows the task already. -/
def Safe (s : State) : Action → Prop
  | .project c =>
    ∀ n ∈ holds s.row c.id, c.task.status.isTerminal = true →
      if c.elsewhere then Shows n.data c.task
      else raises s.assets c n.data = false → Fits n.data (withAssets s.assets c).1
  | _ => True

instance (s : State) (a : Action) : Decidable (Safe s a) := by
  unfold Safe
  split
  · infer_instance
  · infer_instance

/-! ### One step -/

variable {row : Option CanvasNode} {assets : List Asset} {c : Call} {n n' : CanvasNode} {t : GenerateTask}
  {s s' : State} {a : Action}

theorem holds_eq_some {id : Nat} :
    holds row id = some n ↔ row = some n ∧ n.deleted = false ∧ n.data.generateTaskId = some id := by
  unfold holds
  rw [Option.filter_eq_some_iff, Option.filter_eq_some_iff, and_assoc]
  simp

/-- A projection overwrites the assets only where the task has a list of them. -/
theorem shows_write_iff (d : CanvasNodeData) (id : Option Nat) :
    Shows (applyGenerationToData d (nodeStatusFromTask t.status) id t.errorMessage t.resultAssetIds none none) t ↔
      (t.resultAssetIds = none → d.outputAssetIds.getD [] = []) := by
  constructor
  · intro h hnone
    have hassets := h.assets
    simpa [applyGenerationToData, hnone] using hassets
  · intro h
    refine ⟨rfl, ?_, rfl⟩
    cases ht : t.resultAssetIds with
    | none => simpa [applyGenerationToData] using h ht
    | some ids => simp [applyGenerationToData]

theorem syncCanvasNode_eq (hn : holds row c.id = some n) (helsewhere : c.elsewhere = false) :
    syncCanvasNode row c t =
      if t.resultAssetIds.getD [] ≠ [] ∧ c.attaches = false then none
      else some (some (n.save (applyGenerationToData n.data (nodeStatusFromTask t.status) (some c.id) t.errorMessage
        t.resultAssetIds none none))) := by
  obtain ⟨rfl, hlive, -⟩ := holds_eq_some.1 hn
  have hfound : nodeForTask (some n) c = some n := by
    rw [nodeForTask, helsewhere]
    exact hn
  have hwrite : updateNodeGeneration (some n) (some c.id) (nodeStatusFromTask t.status) t.resultAssetIds t.errorMessage
      none none none = .ok (n.save (applyGenerationToData n.data (nodeStatusFromTask t.status) (some c.id)
        t.errorMessage t.resultAssetIds none none)) :=
    transaction_ok.2 ⟨n, rfl, hlive, rfl, rfl⟩
  simp only [syncCanvasNode, hfound, hwrite]

theorem project_not_held (hn : holds row c.id = none) : projectFromTask row assets c = ⟨c.task, assets, some row⟩ := by
  have hfound : nodeForTask row c = none := by
    unfold nodeForTask
    split
    · rfl
    · exact hn
  unfold projectFromTask reconcileCanvasNode syncCanvasNode
  rw [hfound]
  split
  · rfl
  · rfl

theorem project_elsewhere (helsewhere : c.elsewhere = true) :
    projectFromTask row assets c = ⟨c.task, assets, some row⟩ := by
  have hfound : nodeForTask row c = none := by
    rw [nodeForTask, helsewhere]
    rfl
  unfold projectFromTask reconcileCanvasNode syncCanvasNode
  rw [hfound]
  split
  · rfl
  · rfl

/-- The projection of the node's task, which is over. -/
theorem project_held (assets : List Asset) (hn : holds row c.id = some n) (helsewhere : c.elsewhere = false)
    (hterminal : c.task.status.isTerminal = true) :
    if raises assets c n.data then (projectFromTask row assets c).row = none
    else (projectFromTask row assets c).task = (withAssets assets c).1 ∧
      (projectFromTask row assets c).row = some (
        if canvasNodeNeedsSync n.data (withAssets assets c).1 then
          some (n.save (applyGenerationToData n.data (nodeStatusFromTask (withAssets assets c).1.status) (some c.id)
            (withAssets assets c).1.errorMessage (withAssets assets c).1.resultAssetIds none none))
        else row) := by
  have hfound : nodeForTask row c = some n := by
    rw [nodeForTask, helsewhere]
    exact hn
  unfold projectFromTask reconcileCanvasNode raises
  simp only [hterminal, if_true, hfound]
  rw [syncCanvasNode_eq hn helsewhere]
  cases hfails : needsAssets c && c.ensureFails with
  | true => simp
  | false =>
    cases hsync : canvasNodeNeedsSync n.data (withAssets assets c).1 with
    | false => simp
    | true =>
      by_cases hids : (withAssets assets c).1.resultAssetIds.getD [] = []
      · simp [hids]
      · cases hattaches : c.attaches with
        | true => simp
        | false => simp [hids]

theorem law_iff_shows (hrow : s.row = some n) (hprojected : s.projected = some t) : Law s ↔ Shows n.data t := by
  unfold Law
  rw [hrow, hprojected]
  exact ⟨fun h => h t rfl n rfl, fun h _ ht _ hn => Option.some.inj ht ▸ Option.some.inj hn ▸ h⟩

theorem law_of_none (hprojected : s.projected = none) : Law s := by
  unfold Law
  rw [hprojected]
  exact fun t ht => absurd ht nofun

/-- A patch of the user leaves what the node shows. -/
theorem law_commit (hL : Law s) {r : Except NodeError CanvasNode}
    (hr : ∀ n', r = .ok n' → ∃ n, s.row = some n ∧ ∀ t, Shows n.data t → Shows n'.data t) :
    Law (s.commit r s.projected) := by
  cases r with
  | error e => exact hL
  | ok n' =>
    obtain ⟨n, hn, hshows⟩ := hr n' rfl
    rintro t ht m hm
    obtain rfl := Option.some.inj hm
    exact hshows t (hL t ht n hn)

theorem project_raised (h : (projectFromTask s.row s.assets c).row = none) :
    s.project c = { s with assets := (projectFromTask s.row s.assets c).assets } := by
  simp only [State.project, h]

/-- A projection of the node's task that returns is noted. -/
theorem project_returned (hn : holds s.row c.id = some n) (h : (projectFromTask s.row s.assets c).row = some row) :
    (s.project c).row = row ∧ (s.project c).projected =
      if c.task.status.isTerminal then some (projectFromTask s.row s.assets c).task else none := by
  simp only [State.project, h, hn, Option.isSome_some, if_true, and_self]

theorem law_project (hL : Law s) : Law (s.project c) ↔ Safe s (.project c) := by
  cases hn : holds s.row c.id with
  | none =>
    have hsafe : Safe s (.project c) := by
      intro n hheld
      cases hn.symm.trans hheld
    refine ⟨fun _ => hsafe, fun _ => ?_⟩
    unfold State.project
    rw [project_not_held hn]
    simp only [hn, Option.isSome_none, Bool.false_eq_true, if_false]
    exact hL
  | some n =>
    obtain ⟨hrow, -, -⟩ := holds_eq_some.1 hn
    cases hterminal : c.task.status.isTerminal with
    | false =>
      refine ⟨fun _ m _ hm => ?_, fun _ => ?_⟩
      · cases hterminal.symm.trans hm
      · cases hreturns : (projectFromTask s.row s.assets c).row with
        | none =>
          rw [project_raised hreturns]
          exact hL
        | some row =>
          have hprojected := (project_returned hn hreturns).2
          rw [hterminal, if_neg Bool.false_ne_true] at hprojected
          exact law_of_none hprojected
    | true =>
      cases helsewhere : c.elsewhere with
      | true =>
        have hreturns : (projectFromTask s.row s.assets c).row = some s.row := by rw [project_elsewhere helsewhere]
        obtain ⟨hrow', hprojected⟩ := project_returned hn hreturns
        rw [hterminal, if_pos rfl, project_elsewhere helsewhere] at hprojected
        rw [law_iff_shows (hrow'.trans hrow) hprojected]
        simp only [Safe, hn, hterminal, helsewhere, Option.mem_def, Option.some.injEq, forall_eq', if_true,
          forall_const]
      | false =>
        have hproject := project_held s.assets hn helsewhere hterminal
        have hsafe : Safe s (.project c) ↔
            (raises s.assets c n.data = false → Fits n.data (withAssets s.assets c).1) := by
          simp only [Safe, hn, hterminal, helsewhere, Option.mem_def, Option.some.injEq, forall_eq', if_false,
            forall_const, Bool.false_eq_true]
        rw [hsafe]
        cases hraises : raises s.assets c n.data with
        | true =>
          rw [hraises, if_pos rfl] at hproject
          rw [project_raised hproject]
          exact ⟨fun _ h => (by cases h), fun _ => hL⟩
        | false =>
          rw [hraises, if_neg Bool.false_ne_true] at hproject
          obtain ⟨htask, hreturns⟩ := hproject
          obtain ⟨hrow', hprojected⟩ := project_returned hn hreturns
          rw [hterminal, if_pos rfl, htask] at hprojected
          rw [imp_iff_right rfl]
          unfold Fits
          cases hsync : canvasNodeNeedsSync n.data (withAssets s.assets c).1 with
          | true =>
            rw [hsync, if_pos rfl] at hrow'
            rw [if_pos rfl, ← shows_write_iff n.data (some c.id)]
            exact law_iff_shows hrow' hprojected
          | false =>
            rw [hsync, if_neg Bool.false_ne_true] at hrow'
            rw [if_neg Bool.false_ne_true]
            exact law_iff_shows (hrow'.trans hrow) hprojected

/-- A step from a state with the law keeps it exactly under the condition. -/
theorem law_step (hL : Law s) (h : step s a = some s') : Law s' ↔ Safe s a := by
  cases a with
  | bind id =>
    cases h
    refine ⟨fun _ => trivial, fun _ => ?_⟩
    unfold State.commit
    split
    · exact law_of_none rfl
    · exact hL
  | updateNode revision content model config =>
    cases h
    refine ⟨fun _ => trivial, fun _ => law_commit hL fun n' hn' => ?_⟩
    obtain ⟨n, hn, -, -, rfl⟩ := transaction_ok.1 hn'
    exact ⟨n, hn, fun t h => ⟨h.status, h.assets, h.error⟩⟩
  | deleteNode revision =>
    cases h
    refine ⟨fun _ => trivial, fun _ => law_commit hL fun n' hn' => ?_⟩
    obtain ⟨n, hn, -, -, rfl⟩ := transaction_ok.1 hn'
    exact ⟨n, hn, fun t h => h⟩
  | project c =>
    cases h
    exact law_project hL
  | setTask id t =>
    cases h
    exact ⟨fun _ => trivial, fun _ => hL⟩
  | setAssets assets =>
    cases h
    exact ⟨fun _ => trivial, fun _ => hL⟩

/-- In the runs that meet the condition the node shows the task that was projected last since it was bound, and so it
does after any one step exactly when that step meets the condition. -/
theorem shown_of_safe (h : nodes.Reach Safe s) : Law s ∧ ∀ a s', step s a = some s' → (Law s' ↔ Safe s a) := by
  have hL : Law s :=
    h.induct (fun _ => law_of_none) fun _ _ _ hL hsafe hstep => (law_step hL hstep).2 hsafe
  exact ⟨hL, fun _ _ hstep => law_step hL hstep⟩

/-! ### A node that is generated again -/

def succeeded (assetId : Nat) : GenerateTask := ⟨.IMAGE, some 7, .SUCCEEDED, true, none, none, some [assetId], false⟩

def projectionOf (id : Nat) (t : GenerateTask) : Action := .project ⟨id, t, true, false, false, true⟩

/-- A node without a task, and two tasks that are bound to it one after the other. -/
def twoTasks : State where
  row := some ⟨.IMAGE, 1, false, ⟨none, none, none, none, none, none, none, none, none⟩⟩
  tasks := fun id => if id = 1 then some (succeeded 10) else if id = 2 then some (succeeded 20) else none
  assets := []
  projected := none

/-- The first task is projected onto the node. -/
theorem shown_of_first : ∃ s : State, nodes.Reach Safe s ∧ s.projected = some (succeeded 10) ∧
    (s.row.bind fun n => n.data.outputAssetIds) = some [10] ∧ Law s ∧
      ∀ a s', step s a = some s' → (Law s' ↔ Safe s a) := by
  obtain ⟨s, -, hreach, hend⟩ := Machine.reach_of_exec (M := nodes) (C := Safe) (s := twoTasks)
    (p := fun s => s.projected = some (succeeded 10) ∧ (s.row.bind fun n => n.data.outputAssetIds) = some [10])
    [.bind 1, projectionOf 1 (succeeded 10)] rfl (by decide)
  obtain ⟨hprojected, hassets⟩ := of_decide_eq_true hend
  exact ⟨s, hreach, hprojected, hassets, shown_of_safe hreach⟩

/-- The second task is projected, and the node keeps the assets of the first. -/
theorem first_assets_kept : ∃ s : State, nodes.Reach Free s ∧ s.projected = some (succeeded 20) ∧
    (s.row.bind fun n => n.data.generateTaskId) = some 2 ∧
      (s.row.bind fun n => n.data.outputAssetIds) = some [10] ∧ ¬ Law s := by
  obtain ⟨s, -, hreach, hend⟩ := Machine.reach_of_exec (M := nodes) (C := Free) (s := twoTasks)
    (p := fun s => s.projected = some (succeeded 20) ∧ (s.row.bind fun n => n.data.generateTaskId) = some 2 ∧
      (s.row.bind fun n => n.data.outputAssetIds) = some [10])
    [.bind 1, projectionOf 1 (succeeded 10), .bind 2, projectionOf 2 (succeeded 20)] rfl (by decide)
  obtain ⟨hprojected, htask, hassets⟩ := of_decide_eq_true hend
  refine ⟨s, hreach, hprojected, htask, hassets, fun hL => ?_⟩
  obtain ⟨n, hn, hids⟩ := Option.bind_eq_some_iff.1 hassets
  have hshows := (hL _ hprojected n hn).assets
  rw [hids] at hshows
  cases hshows

end NexusStudio.Projection
