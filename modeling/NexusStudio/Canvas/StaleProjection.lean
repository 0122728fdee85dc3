import NexusStudio.Canvas.Projection

/-!
# Projections next to bindings

Any number of projections of tasks onto one node, with bindings of other tasks in between; every read and every
transaction is one step.

* (lookup) A projection finds the node by its task, twice for a task that is over, and writes it in a later transaction.
* (write) `update_node_generation` is called with no expected revision, and writes the task with the status.
* (law) The node keeps the task that was bound last, and no other task is written onto it.
* (condition) `Safe`: a projection that writes finds the node with its task.
-/

set_option linter.unusedSectionVars false

namespace NexusStudio.StaleProjection

open Concurrent CanvasNodes Generation NodeAdvance Projection

/-! ### The machine -/

/-- Where a party is. -/
inductive Pc
  | idle
  -- `project_from_task`
  | find (id : Nat) (t : GenerateTask)
  | ensure (id : Nat) (t : GenerateTask) (n : CanvasNode)
  | sync (id : Nat) (t : GenerateTask)
  | scope (id : Nat) (t : GenerateTask)
  | write (id : Nat) (t : GenerateTask)
  -- `bind_generate_task_to_node`
  | writeScope (id : Nat)
  | bind (id : Nat)
  deriving DecidableEq

structure State (ι : Type) where
  row : Option CanvasNode
  tasks : Nat → Option GenerateTask
  pc : ι → Pc
  -- the task that the node was bound to last, and the tasks that were written onto it when it was bound to another one
  bound : Option Nat
  strays : List Nat

inductive Action (ι : Type)
  | project (i : ι) (id : Nat) (t : GenerateTask)
  | bindTask (i : ι) (id : Nat)
  -- the call under way takes a step, with the assets of the task where it creates them
  | run (i : ι) (assetIds : List Nat)
  -- the call under way raises
  | fail (i : ι)
  -- others
  | updateNode (revision : Nat) (content model : Option String) (config : Option CanvasNodeConfig)
  | deleteNode (revision : Nat)
  | setTask (id : Nat) (t : GenerateTask)

section Model

variable {ι : Type} [DecidableEq ι]

def State.goto (s : State ι) (i : ι) (pc : Pc) : State ι := { s with pc := Function.update s.pc i pc }

/-- The write of a projection. -/
def State.project (s : State ι) (i : ι) (id : Nat) (n : CanvasNode) : State ι :=
  { s.goto i .idle with
    row := some n
    strays := if s.bound = some id then s.strays else id :: s.strays }

/-- The next step of the call under way. -/
def next (s : State ι) (i : ι) (assetIds : List Nat) : State ι :=
  match s.pc i with
  | .idle => s
  | .find id t =>
    match holds s.row id with
    | none => s.goto i .idle
    | some n => s.goto i (.ensure id t n)
  | .ensure id t n =>
    let t :=
      if t.status = .SUCCEEDED ∧ t.resultAssetIds.getD [] = [] then { t with resultAssetIds := some assetIds } else t
    s.goto i (if canvasNodeNeedsSync n.data t then .sync id t else .idle)
  | .sync id t =>
    match holds s.row id with
    | none => s.goto i .idle
    | some _ => s.goto i (.scope id t)
  | .scope id t => s.goto i (if s.row.isSome then .write id t else .idle)
  | .write id t =>
    match updateNodeGeneration s.row (some id) (nodeStatusFromTask t.status) t.resultAssetIds t.errorMessage none none
      none with
    | .ok n => s.project i id n
    | .error _ => s.goto i .idle
  | .writeScope id => s.goto i (.bind id)
  | .bind id =>
    match bindGenerateTaskToNode s.tasks s.row id with
    | .ok n => { s.goto i .idle with row := some n, bound := some id }
    | .error _ => s.goto i .idle

/-- A patch of the user commits, or raises. -/
def State.patch (s : State ι) (r : Except NodeError CanvasNode) : State ι :=
  match r with
  | .ok n => { s with row := some n }
  | .error _ => s

def step (s : State ι) : Action ι → Option (State ι)
  | .project i id t =>
    if s.pc i = .idle then some (s.goto i (if t.status.isTerminal then .find id t else .sync id t)) else none
  | .bindTask i id => if s.pc i = .idle then some (s.goto i (.writeScope id)) else none
  | .run i assetIds => if s.pc i = .idle then none else some (next s i assetIds)
  | .fail i => some (s.goto i .idle)
  | .updateNode revision content model config => some (s.patch (updateNodeOp s.row revision content model config))
  | .deleteNode revision => some (s.patch (deleteNodeOp s.row revision))
  | .setTask id t => some { s with tasks := Function.update s.tasks id (some t) }

/-- Any node, before the calls. -/
structure Initial (s : State ι) : Prop where
  pc : ∀ i, s.pc i = .idle
  bound : s.bound = s.row.bind fun n => n.data.generateTaskId
  strays : s.strays = []

def projections : Machine (State ι) (Action ι) where
  init := Initial
  step := step

/-- The node has the task that was bound last, and no other was written onto it. -/
structure Law (s : State ι) : Prop where
  bound : s.bound = s.row.bind fun n => n.data.generateTaskId
  strays : s.strays = []

/-- A projection that writes finds the node with its task. -/
def Safe (s : State ι) : Action ι → Prop
  | .run i _ =>
    match s.pc i with
    | .write id _ => ∀ n ∈ s.row, n.deleted = false → n.data.generateTaskId = some id
    | _ => True
  | _ => True

instance (s : State ι) (a : Action ι) : Decidable (Safe s a) := by
  unfold Safe
  repeat' split
  all_goals infer_instance

end Model

/-! ### One step -/

section Proofs

variable {ι : Type} [DecidableEq ι] {s t : State ι} {i : ι} {a : Action ι}

theorem law_init (h : Initial s) : Law s := ⟨h.bound, h.strays⟩

theorem law_goto (hL : Law s) (i : ι) (pc : Pc) : Law (s.goto i pc) := ⟨hL.bound, hL.strays⟩

/-- A patch of the user leaves the task of the node. -/
theorem law_patch (hL : Law s) {r : Except NodeError CanvasNode}
    (hr : ∀ n', r = .ok n' → ∃ n, s.row = some n ∧ n'.data.generateTaskId = n.data.generateTaskId) :
    Law (s.patch r) := by
  cases r with
  | error e => exact hL
  | ok n' =>
    obtain ⟨n, hn, htask⟩ := hr n' rfl
    refine ⟨?_, hL.strays⟩
    have hbound := hL.bound
    rw [hn] at hbound
    exact hbound.trans htask.symm

/-- The write of a projection keeps the law exactly where the node has its task. -/
theorem law_write (hL : Law s) {id : Nat} {task : GenerateTask} (hpc : s.pc i = .write id task) (assetIds : List Nat) :
    Law (next s i assetIds) ↔ Safe s (.run i assetIds) := by
  simp only [Safe, next, hpc]
  split
  · next n hn =>
    obtain ⟨m, hm, hlive, -, rfl⟩ := transaction_ok.1 hn
    have hbound : s.bound = m.data.generateTaskId := by
      have h := hL.bound
      rwa [hm] at h
    have hsafe : (∀ n ∈ s.row, n.deleted = false → n.data.generateTaskId = some id) ↔
        m.data.generateTaskId = some id := by
      rw [hm]
      exact ⟨fun h => h m rfl hlive, fun h n hn _ => Option.some.inj hn ▸ h⟩
    rw [hsafe, ← hbound]
    constructor
    · intro h
      have hstrays := h.strays
      by_contra hne
      simp only [State.project, if_neg hne] at hstrays
      cases hstrays
    · intro h
      refine ⟨h, ?_⟩
      simp only [State.project, if_pos h]
      exact hL.strays
  · next e he =>
    refine ⟨fun _ n hn hlive => ?_, fun _ => law_goto hL i _⟩
    have hok : ∃ n', updateNodeGeneration s.row (some id) (nodeStatusFromTask task.status) task.resultAssetIds
        task.errorMessage none none none = .ok n' := ⟨_, transaction_ok.2 ⟨n, hn, hlive, rfl, rfl⟩⟩
    obtain ⟨n', hn'⟩ := hok
    cases he.symm.trans hn'

theorem law_next (hL : Law s) (assetIds : List Nat) : Law (next s i assetIds) ↔ Safe s (.run i assetIds) := by
  cases hpc : s.pc i with
  | write id task => exact law_write hL hpc assetIds
  | bind id =>
    simp only [Safe, next, hpc, iff_true]
    split
    · next n hn =>
      obtain ⟨m, -, -, -, rfl⟩ := transaction_ok.1 hn
      exact ⟨rfl, hL.strays⟩
    · exact law_goto hL i _
  | find | sync =>
    simp only [Safe, next, hpc, iff_true]
    split
    · exact law_goto hL i _
    · exact law_goto hL i _
  | idle =>
    simp only [Safe, next, hpc, iff_true]
    exact hL
  | ensure | scope | writeScope =>
    simp only [Safe, next, hpc, iff_true]
    exact law_goto hL i _

/-- A step from a state with the law keeps it exactly under the condition. -/
theorem law_step (hL : Law s) (h : step s a = some t) : Law t ↔ Safe s a := by
  cases a with
  | project i id task =>
    obtain ⟨-, h⟩ := Option.ite_none_right_eq_some.1 h
    cases h
    exact ⟨fun _ => trivial, fun _ => law_goto hL i _⟩
  | bindTask i id =>
    obtain ⟨-, h⟩ := Option.ite_none_right_eq_some.1 h
    cases h
    exact ⟨fun _ => trivial, fun _ => law_goto hL i _⟩
  | run i assetIds =>
    obtain ⟨-, h⟩ := Option.ite_none_left_eq_some.1 h
    cases h
    exact law_next hL assetIds
  | fail i =>
    cases h
    exact ⟨fun _ => trivial, fun _ => law_goto hL i _⟩
  | updateNode revision content model config =>
    cases h
    exact ⟨fun _ => trivial, fun _ => law_patch hL fun _ => task_of_updateNodeOp⟩
  | deleteNode revision =>
    cases h
    exact ⟨fun _ => trivial, fun _ => law_patch hL fun _ => task_of_deleteNodeOp⟩
  | setTask id task =>
    cases h
    exact ⟨fun _ => trivial, fun _ => ⟨hL.bound, hL.strays⟩⟩

/-- In the runs that meet the condition the node keeps the task that was bound last and no other is written onto it, and
so it is after any one step exactly when that step meets the condition. -/
theorem binding_kept_of_safe (h : (projections (ι := ι)).Reach Safe s) :
    Law s ∧ ∀ a t, step s a = some t → (Law t ↔ Safe s a) := by
  have hL : Law s := h.induct (fun _ => law_init) fun _ _ _ hL hsafe hstep => (law_step hL hstep).2 hsafe
  exact ⟨hL, fun _ _ hstep => law_step hL hstep⟩

end Proofs

/-! ### A binding between lookup and write -/

/-- A node with a task that has succeeded, and one that is queued. -/
def regenerated : State Bool where
  row := some ⟨.IMAGE, 1, false, ⟨some .RUNNING, none, none, none, some 1, none, none, none, none⟩⟩
  tasks id :=
    if id = 1 then some (succeeded 10) else some { succeeded 20 with status := .QUEUED, resultAssetIds := none }
  pc _ := .idle
  bound := some 1
  strays := []

theorem initial_regenerated : Initial regenerated := ⟨fun _ => rfl, rfl, rfl⟩

/-- The first task is projected, and then the second is bound. -/
theorem binding_kept_of_order : ∃ s : State Bool, projections.Reach Safe s ∧ s.bound = some 2 ∧
    (s.row.bind fun n => n.data.outputAssetIds) = some [10] ∧ Law s ∧
      ∀ a t, step s a = some t → (Law t ↔ Safe s a) := by
  obtain ⟨s, -, hreach, hend⟩ := Machine.reach_of_exec (M := projections) (C := Safe) (s := regenerated)
    (p := fun s => s.bound = some 2 ∧ (s.row.bind fun n => n.data.outputAssetIds) = some [10])
    [.project true 1 (succeeded 10), .run true [], .run true [], .run true [], .run true [], .run true [],
      .bindTask false 2, .run false [], .run false []]
    initial_regenerated (by decide)
  obtain ⟨hbound, hassets⟩ := of_decide_eq_true hend
  exact ⟨s, hreach, hbound, hassets, binding_kept_of_safe hreach⟩

/-- The second task is bound when the projection of the first has found the node: its write brings the first task back,
with its status and its assets. -/
theorem binding_overwritten : ∃ s : State Bool, projections.Reach Free s ∧ s.bound = some 2 ∧
    (s.row.bind fun n => n.data.generateTaskId) = some 1 ∧ (s.row.bind fun n => n.data.status) = some .SUCCESS ∧
      (s.row.bind fun n => n.data.outputAssetIds) = some [10] ∧ ¬ Law s := by
  obtain ⟨s, -, hreach, hend⟩ := Machine.reach_of_exec (M := projections) (C := Free) (s := regenerated)
    (p := fun s => s.bound = some 2 ∧ (s.row.bind fun n => n.data.generateTaskId) = some 1 ∧
      (s.row.bind fun n => n.data.status) = some .SUCCESS ∧ (s.row.bind fun n => n.data.outputAssetIds) = some [10])
    [.project true 1 (succeeded 10), .run true [], .run true [], .run true [], .run true [],
      .bindTask false 2, .run false [], .run false [], .run true []]
    initial_regenerated (by decide)
  obtain ⟨hbound, htask, hstatus, hassets⟩ := of_decide_eq_true hend
  refine ⟨s, hreach, hbound, htask, hstatus, hassets, fun hL => ?_⟩
  cases hbound.symm.trans (hL.bound.trans htask)

end NexusStudio.StaleProjection
