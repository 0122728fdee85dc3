import NexusStudio.Workshop.Schedules
import NexusStudio.Lib.Machine
import Mathlib.Logic.Function.Basic
import Mathlib.Data.Fintype.Basic

/-!
# Deleting a workflow

`delete_workflow` next to manual runs, triggers of a schedule, ticks, tasks that are created for a schedule, and workers
that execute runs; every transaction is one step, and every call may raise between two of them.

* (calls) A run is cancelled by its revision, references are cleared, and the row is deleted, in commits of their own.
* (law) A delete that raises has changed no run and no reference; one that returns leaves no row of the workflow, and no
  node of it is started afterwards.
* (defect) A cancellation that loses its compare-and-set, or a task that comes to refer to a schedule, stops a call that
  has cancelled runs already; and nothing stops a worker that is between two nodes.
* (condition) `Safe`: what a delete that has changed something still needs is as it was read, and no worker has nodes
  left when the row is deleted.
-/

set_option linter.unusedSectionVars false

namespace NexusStudio.WorkflowDelete

open Concurrent Schedules

/-! ### The machine -/

/-- What a run is made for. -/
structure Job (κ : Type) where
  workflowId : String
  scheduleId : Option String
  trigger : RunTrigger
  externalAuth : List κ

/-- Where a party is. -/
inductive Pc (κ τ : Type)
  | idle
  -- `delete_workflow`, with whether it has changed a run or a reference
  | requireWorkflow (workflowId : String)
  | listActive (workflowId : String)
  | cancel (workflowId : String) (todo : List WorkflowRun) (changed : Bool)
  | clearRefs (workflowId : String) (changed : Bool)
  | deleteRow (workflowId : String) (changed : Bool)
  -- `trigger_schedule`
  | trigger (scheduleId triggerKey : String)
  | lookup (scheduleId : String)
  -- `tick_once`
  | claim (todo : List (Schedule κ τ))
  -- the end of a manual run, of a trigger, and of each fire of a tick
  | requireSaved (j : Job κ) (todo : List (Schedule κ τ))
  | createRun (j : Job κ) (w : Workflow) (todo : List (Schedule κ τ))
  | createTask (j : Job κ) (run : Nat) (todo : List (Schedule κ τ))
  | enqueue (run : Nat) (todo : List (Schedule κ τ))
  -- `create_task`
  | checkSchedule (t : Schedules.Task κ)
  | insertTask (t : Schedules.Task κ)
  -- `execute_run`
  | fetch (run : Nat)
  | load (r : WorkflowRun)
  | start (r : WorkflowRun) (w : Workflow)
  | reread (r : WorkflowRun) (w : Workflow)
  | graph (run revision : Nat) (workflowId : String) (nodes : List String)
  | finish (run revision : Nat) (status : RunStatus)

structure State (κ τ ι : Type) where
  db : Db κ τ
  -- the runs that messages are sent for; a `revoke` need not reach one
  queue : List Nat
  nextId : Nat
  pc : ι → Pc κ τ
  -- the workflows whose delete has returned, those whose delete has raised with something changed, and the runs of
  -- which a node was started after the delete of their workflow
  deleted : List String
  torn : List String
  late : List Nat

inductive Action (κ τ ι : Type)
  | delete (i : ι) (workflowId : String)
  | manualRun (i : ι) (workflowId : String) (authorized : List κ)
  | triggerSchedule (i : ι) (scheduleId triggerKey : String)
  | tick (i : ι) (now : τ) (batchSize : Nat)
  | createTask (i : ι) (t : Schedules.Task κ)
  | execute (i : ι) (run : Nat)
  -- the call under way returns, or raises where it must
  | run (i : ι)
  -- the graph ends before its last node, or the run does with its last one
  | stop (i : ι) (status : RunStatus)
  -- the row is locked by another transaction
  | locked (i : ι)
  -- the call under way raises, or the worker crashes
  | fail (i : ι)

section Model

variable {κ τ ι : Type} [LinearOrder τ] [DecidableEq ι] (C : Cron τ)

def State.goto (s : State κ τ ι) (i : ι) (pc : Pc κ τ) : State κ τ ι := { s with pc := Function.update s.pc i pc }

/-- The workflow whose delete has changed something and has not ended. -/
def Pc.half : Pc κ τ → Option String
  | .cancel w _ true | .clearRefs w true | .deleteRow w true => some w
  | _ => none

/-- The workflow of a graph with nodes left. -/
def Pc.inGraph : Pc κ τ → Option String
  | .graph _ _ w (_ :: _) => some w
  | _ => none

/-- The call under way raises. -/
def State.raise (s : State κ τ ι) (i : ι) : State κ τ ι :=
  { s.goto i .idle with torn := (s.pc i).half.toList ++ s.torn }

/-- `create_task` of the repository after its check, which raises without the schedule. -/
def insertTask (db : Db κ τ) (t : Schedules.Task κ) : Option (Db κ τ) :=
  if ∀ id ∈ t.scheduleId, (db.getSchedule id).isSome then some { db with tasks := db.tasks ++ [t] } else none

/-- The call under way returns, `none` where it raises. -/
def call (s : State κ τ ι) (i : ι) : Option (State κ τ ι) :=
  match s.pc i with
  | .idle => none
  | .requireWorkflow w => (s.db.getWorkflow w).map fun _ => s.goto i (.listActive w)
  | .listActive w => some (s.goto i (.cancel w (s.db.listActiveWorkflowRuns w) false))
  | .cancel w [] changed => some (s.goto i (.clearRefs w changed))
  | .cancel w (r :: todo) _ =>
    (s.db.cancelWorkflowRunCas r.id r.revision "workflow deleted").map fun db =>
      { s.goto i (.cancel w todo true) with db }
  | .clearRefs w changed =>
    some { s.goto i (.deleteRow w (changed || s.db.tasks.any fun t => s.db.Refers w t)) with
      db := s.db.clearTaskScheduleRefs w }
  | .deleteRow w _ =>
    (s.db.deleteWorkflow w).map fun db => { s.goto i .idle with db, deleted := w :: s.deleted }
  | .trigger scheduleId key =>
    (s.db.triggerScheduleRun scheduleId key s.nextId).map fun (_, db) =>
      { s.goto i (.lookup scheduleId) with db, nextId := s.nextId + 1 }
  | .lookup scheduleId =>
    (s.db.getSchedule scheduleId).map fun c =>
      s.goto i (.requireSaved ⟨c.workflowId, some scheduleId, .schedule, c.authorizedExternalCapabilities⟩ [])
  | .claim [] => some (s.goto i .idle)
  | .claim (c :: todo) =>
    match c.nextRunAt with
    | none => some (s.goto i (.claim todo))
    | some due =>
      (s.db.claimDueScheduleRun C c.id due s.nextId).map fun
        | (none, _) => s.goto i (.claim todo)
        | (some _, db) =>
          let j : Job κ := ⟨c.workflowId, some c.id, .schedule, c.authorizedExternalCapabilities⟩
          { s.goto i (.requireSaved j todo) with db, nextId := s.nextId + 1 }
  | .requireSaved j todo => (s.db.requireSaved j.workflowId).map fun w => s.goto i (.createRun j w todo)
  | .createRun j w todo =>
    (s.db.createWorkflowRun ⟨s.nextId, w.id, w.revision, j.scheduleId, j.trigger, .queued, none, 1⟩).map fun db =>
      { s.goto i (.createTask j s.nextId todo) with db, nextId := s.nextId + 1 }
  | .createTask j run todo =>
    (s.db.createExecutingTask j.workflowId run j.externalAuth).map fun db => { s.goto i (.enqueue run todo) with db }
  | .enqueue run todo => some { s.goto i (.claim todo) with queue := s.queue ++ [run] }
  | .checkSchedule t =>
    if ∀ id ∈ t.scheduleId, (s.db.getSchedule id).isSome then some (s.goto i (.insertTask t)) else none
  | .insertTask t => (insertTask s.db t).map fun db => { s.goto i .idle with db }
  | .fetch run =>
    (s.db.getWorkflowRun run).map fun r => s.goto i (if r.status.active then .load r else .idle)
  | .load r => (s.db.getWorkflow r.workflowId).map fun w => s.goto i (.start r w)
  | .start r w =>
    (s.db.updateWorkflowRunCas r.id r.revision .running none).map fun db =>
      { s.goto i (.reread r w) with db }
  -- the second half of `update_workflow_run_cas`
  | .reread r w =>
    (s.db.getWorkflowRun r.id).map fun own => s.goto i (.graph own.id own.revision r.workflowId w.nodes)
  | .graph run revision w (_ :: nodes) =>
    some { s.goto i (.graph run revision w nodes) with
      late := if w ∈ s.deleted then run :: s.late else s.late }
  | .graph run revision _ [] => some (s.goto i (.finish run revision .succeeded))
  | .finish run revision status =>
    (s.db.updateWorkflowRunCas run revision status none).map fun db => { s.goto i .idle with db }

/-- The start of a call. -/
def begin (s : State κ τ ι) (i : ι) (pc : Pc κ τ) : Option (State κ τ ι) :=
  match s.pc i with
  | .idle => some (s.goto i pc)
  | _ => none

def step (s : State κ τ ι) : Action κ τ ι → Option (State κ τ ι)
  | .delete i workflowId => begin s i (.requireWorkflow workflowId)
  | .manualRun i workflowId authorized => begin s i (.requireSaved ⟨workflowId, none, .manual, authorized⟩ [])
  | .triggerSchedule i scheduleId key => begin s i (.trigger scheduleId key)
  | .tick i now batchSize => if 1 ≤ batchSize then begin s i (.claim (s.db.listDueSchedules now batchSize)) else none
  | .createTask i t => begin s i (.checkSchedule t)
  | .execute i run => if run ∈ s.queue then begin s i (.fetch run) else none
  | .run i =>
    match s.pc i with
    | .idle => none
    | _ => some ((call C s i).getD (s.raise i))
  | .stop i status =>
    match s.pc i with
    | .graph run revision _ _ => if status.active then none else some (s.goto i (.finish run revision status))
    | _ => none
  | .locked i =>
    match s.pc i with
    | .claim (_ :: todo) => some (s.goto i (.claim todo))
    | _ => none
  | .fail i =>
    match s.pc i with
    | .idle => none
    | _ => some (s.raise i)

/-- Any tables whose keys hold, before the first delete. -/
structure Initial (s : State κ τ ι) : Prop where
  pc : ∀ i, s.pc i = .idle
  ghosts : s.deleted = [] ∧ s.torn = [] ∧ s.late = []
  ids : ∀ r ∈ s.db.workflowRuns, r.id < s.nextId
  unique : ∀ r ∈ s.db.workflowRuns, ∀ r' ∈ s.db.workflowRuns, r.id = r'.id → r.workflowId = r'.workflowId
  refs : ∀ t ∈ s.db.tasks, ∀ id ∈ t.scheduleId, ∃ c ∈ s.db.schedules, c.id = id

def workflows : Machine (State κ τ ι) (Action κ τ ι) where
  init := Initial
  step := step C

/-! ### The law and its condition -/

/-- No run, no schedule and no reference to a schedule of the workflow. -/
structure Gone (db : Db κ τ) (workflowId : String) : Prop where
  runs : ∀ r ∈ db.workflowRuns, r.workflowId ≠ workflowId
  schedules : ∀ c ∈ db.schedules, c.workflowId ≠ workflowId
  refs : ∀ t ∈ db.tasks, ∀ id ∈ t.scheduleId, ∃ c ∈ db.schedules, c.id = id ∧ c.workflowId ≠ workflowId

structure Law (s : State κ τ ι) : Prop where
  raised : s.torn = []
  returned : ∀ w ∈ s.deleted, Gone s.db w
  started : s.late = []

/-- The run that was read is active at its revision. -/
def Current (db : Db κ τ) (r : WorkflowRun) : Prop :=
  ∃ row ∈ db.workflowRuns, row.id = r.id ∧ row.revision = r.revision ∧ row.status.active = true

instance (db : Db κ τ) (r : WorkflowRun) : Decidable (Current db r) := inferInstanceAs (Decidable (∃ row ∈ _, _))

/-- The row is there, and no task refers to a schedule of it. -/
def Deletable (db : Db κ τ) (workflowId : String) : Prop :=
  (∃ w ∈ db.workflows, w.id = workflowId) ∧ ∀ t ∈ db.tasks, ¬ db.Refers workflowId t

instance (db : Db κ τ) (workflowId : String) : Decidable (Deletable db workflowId) :=
  inferInstanceAs (Decidable ((∃ w ∈ _, _) ∧ ∀ t ∈ _, _))

/-- Once a delete has changed something, the runs it cancels are as it has read them, its row can be deleted, and it
does not fail; and no worker is in the graph of a workflow whose row is deleted. -/
def Safe (s : State κ τ ι) : Action κ τ ι → Prop
  | .run i =>
    match s.pc i with
    | .cancel _ (r :: _) true => Current s.db r
    | .deleteRow w changed =>
      (changed = true → Deletable s.db w) ∧ (Deletable s.db w → ∀ j, (s.pc j).inGraph ≠ some w)
    | _ => True
  | .fail i => (s.pc i).half = none
  | _ => True

instance [Fintype ι] (s : State κ τ ι) (a : Action κ τ ι) : Decidable (Safe s a) := by
  unfold Safe
  repeat' split
  all_goals infer_instance

end Model

/-! ### What the transactions do -/

section Proofs

variable {κ τ ι : Type} [LinearOrder τ] [DecidableEq ι] {C : Cron τ} {db db' : Db κ τ} {n n' : Nat} {w : String}
  {deleted : List String}

def scheduleKey (c : Schedule κ τ) : String × String := (c.id, c.workflowId)

def runKey (r : WorkflowRun) : Nat × String := (r.id, r.workflowId)

/-- What every transaction but a delete does to the tables, with the numbers before and after it. -/
structure Extends (db : Db κ τ) (n : Nat) (db' : Db κ τ) (n' : Nat) : Prop where
  workflows : db'.workflows = db.workflows
  schedules : db'.schedules.map scheduleKey = db.schedules.map scheduleKey
  runs : db'.workflowRuns.map runKey = db.workflowRuns.map runKey ∨ ∃ r, db'.workflowRuns = db.workflowRuns ++ [r] ∧
    r.id = n ∧ n < n' ∧ ∃ row ∈ db.workflows, row.id = r.workflowId
  refs : ∀ t' ∈ db'.tasks, ∀ id ∈ t'.scheduleId,
    (∃ t ∈ db.tasks, id ∈ t.scheduleId) ∨ ∃ c ∈ db.schedules, c.id = id
  next : n ≤ n'

theorem extends_refl (db : Db κ τ) (n : Nat) : Extends db n db n :=
  ⟨rfl, rfl, .inl rfl, fun t ht _ hid => .inl ⟨t, ht, hid⟩, le_rfl⟩

/-- More numbers may have been given out. -/
theorem Extends.mono {m : Nat} (h : Extends db n db' n') (hm : n' ≤ m) : Extends db n db' m := by
  refine ⟨h.workflows, h.schedules, h.runs.imp_right ?_, h.refs, h.next.trans hm⟩
  rintro ⟨r, hr, hid, hlt, hrow⟩
  exact ⟨r, hr, hid, hlt.trans_le hm, hrow⟩

theorem scheduleKey_setNextRunAt (db : Db κ τ) (scheduleId : String) (next : τ) :
    (db.setNextRunAt scheduleId next).schedules.map scheduleKey = db.schedules.map scheduleKey := by
  rw [Db.setNextRunAt, List.map_map]
  refine List.map_congr_left fun c _ => ?_
  rw [Function.comp_apply]
  split
  · rfl
  · rfl

theorem extends_setNextRunAt (db : Db κ τ) (scheduleId : String) (next : τ) (n : Nat) :
    Extends db n (db.setNextRunAt scheduleId next) (n + 1) :=
  ⟨rfl, scheduleKey_setNextRunAt db scheduleId next, .inl rfl, fun t ht _ hid => .inl ⟨t, ht, hid⟩, n.le_succ⟩

/-- A task is added that refers to a schedule that is there, if to any. -/
theorem refs_append {tasks : List (Schedules.Task κ)} {t₀ : Schedules.Task κ}
    (h : ∀ id ∈ t₀.scheduleId, ∃ c ∈ db.schedules, c.id = id) : ∀ t' ∈ tasks ++ [t₀], ∀ id ∈ t'.scheduleId,
      (∃ t ∈ tasks, id ∈ t.scheduleId) ∨ ∃ c ∈ db.schedules, c.id = id := by
  intro t' ht' id hid
  rcases List.mem_append.1 ht' with ht' | ht'
  · exact .inl ⟨t', ht', hid⟩
  · rw [List.mem_singleton.1 ht'] at hid
    exact .inr (h id hid)

/-- A task is added, next to fires and to what a schedule keeps of its own. -/
theorem extends_addTask {t₀ : Schedules.Task κ} (hworkflows : db'.workflows = db.workflows)
    (hschedules : db'.schedules.map scheduleKey = db.schedules.map scheduleKey)
    (hruns : db'.workflowRuns = db.workflowRuns) (htasks : db'.tasks = db.tasks ++ [t₀])
    (hrefs : ∀ id ∈ t₀.scheduleId, ∃ c ∈ db.schedules, c.id = id) (hnext : n ≤ n') : Extends db n db' n' := by
  refine ⟨hworkflows, hschedules, .inl (by rw [hruns]), ?_, hnext⟩
  rw [htasks]
  exact refs_append hrefs

theorem extends_claim {scheduleId : String} {due : τ} {x : Option ScheduleRun}
    (h : db.claimDueScheduleRun C scheduleId due n = some (x, db')) : Extends db n db' (n + 1) := by
  rcases Db.claimDueScheduleRun_cases h with ⟨-, rfl⟩ | ⟨c, next, hrow, ⟨-, -, -, rfl⟩ | ⟨y, -, hinsert⟩⟩
  · exact (extends_refl db' n).mono n.le_succ
  · exact extends_setNextRunAt db scheduleId next n
  · obtain ⟨-, rfl⟩ := Db.insertScheduleTrigger_eq hinsert
    refine extends_addTask rfl (scheduleKey_setNextRunAt db scheduleId next) rfl rfl (fun id hid => ?_) n.le_succ
    exact ⟨c, (Db.dueRow_spec hrow).1, Option.some.inj hid⟩

theorem extends_trigger {scheduleId key : String} {x : ScheduleRun}
    (h : db.triggerScheduleRun scheduleId key n = some (x, db')) : Extends db n db' (n + 1) := by
  rcases Db.triggerScheduleRun_cases h with ⟨-, rfl⟩ | ⟨c, hrow, hinsert⟩
  · exact (extends_refl db' n).mono n.le_succ
  · obtain ⟨-, rfl⟩ := Db.insertScheduleTrigger_eq hinsert
    refine extends_addTask rfl rfl rfl rfl (fun id hid => ?_) n.le_succ
    exact ⟨c, List.mem_of_find?_eq_some hrow, Option.some.inj hid⟩

theorem extends_createWorkflowRun {r : WorkflowRun} (h : db.createWorkflowRun r = some db') (hid : r.id = n) :
    Extends db n db' (n + 1) := by
  obtain ⟨row, hrow, hdb⟩ := Option.map_eq_some_iff.1 h
  cases hdb
  have hw : row.id = r.workflowId :=
    of_decide_eq_true (List.find?_some (p := fun w : Workflow => decide (w.id = r.workflowId)) hrow)
  refine ⟨rfl, rfl, .inr ⟨r, rfl, hid, n.lt_succ_self, row, List.mem_of_find?_eq_some hrow, hw⟩, ?_, n.le_succ⟩
  exact fun t ht _ hid => .inl ⟨t, ht, hid⟩

theorem extends_createExecutingTask {workflowId : String} {taskId : Nat} {auth : List κ}
    (h : db.createExecutingTask workflowId taskId auth = some db') : Extends db n db' n := by
  obtain ⟨row, -, hdb⟩ := Option.map_eq_some_iff.1 h
  cases hdb
  exact extends_addTask rfl rfl rfl rfl nofun le_rfl

theorem extends_insertTask {t : Schedules.Task κ} (h : insertTask db t = some db') : Extends db n db' n := by
  obtain ⟨hrefs, hdb⟩ := Option.ite_none_right_eq_some.1 h
  cases hdb
  refine extends_addTask rfl rfl rfl rfl (fun id hid => ?_) le_rfl
  obtain ⟨c, hc⟩ := Option.isSome_iff_exists.1 (hrefs id hid)
  exact ⟨c, List.mem_of_find?_eq_some hc,
    of_decide_eq_true (List.find?_some (p := fun c : Schedule κ τ => decide (c.id = id)) hc)⟩

theorem extends_updateRunWhere {id revision : Nat} {p : WorkflowRun → Bool} {write : WorkflowRun → WorkflowRun}
    (h : db.updateRunWhere id revision p write = some db') (hwrite : ∀ r, runKey (write r) = runKey r) :
    Extends db n db' n := by
  obtain ⟨-, hdb⟩ := Option.ite_none_right_eq_some.1 h
  cases hdb
  refine ⟨rfl, rfl, .inl ?_, fun t ht _ hid => .inl ⟨t, ht, hid⟩, le_rfl⟩
  rw [List.map_map]
  refine List.map_congr_left fun r _ => ?_
  rw [Function.comp_apply]
  split
  · exact hwrite r
  · rfl

theorem extends_clearTaskScheduleRefs (db : Db κ τ) (w : String) (n : Nat) :
    Extends db n (db.clearTaskScheduleRefs w) n := by
  refine ⟨rfl, rfl, .inl rfl, fun t' ht' id hid => ?_, le_rfl⟩
  obtain ⟨t, ht, rfl⟩ := List.mem_map.1 ht'
  split at hid
  · cases hid
  · exact .inl ⟨t, ht, hid⟩

/-! ### The invariant of the tables -/

/-- No row of a workflow that was deleted, and keys that hold. -/
structure Sound (db : Db κ τ) (n : Nat) (deleted : List String) : Prop where
  workflows : ∀ w ∈ db.workflows, w.id ∉ deleted
  schedules : ∀ c ∈ db.schedules, c.workflowId ∉ deleted
  runs : ∀ r ∈ db.workflowRuns, r.workflowId ∉ deleted
  ids : ∀ r ∈ db.workflowRuns, r.id < n
  unique : ∀ r ∈ db.workflowRuns, ∀ r' ∈ db.workflowRuns, r.id = r'.id → r.workflowId = r'.workflowId
  refs : ∀ t ∈ db.tasks, ∀ id ∈ t.scheduleId, ∃ c ∈ db.schedules, c.id = id

/-- Every row with the id of the record is of its workflow, and will be. -/
structure Knows (db : Db κ τ) (n : Nat) (r : WorkflowRun) : Prop where
  old : r.id < n
  row : ∀ row ∈ db.workflowRuns, row.id = r.id → row.workflowId = r.workflowId

/-- A schedule after a transaction, from before. -/
theorem schedule_of_key {l l' : List (Schedule κ τ)} (h : l'.map scheduleKey = l.map scheduleKey) {c' : Schedule κ τ}
    (hc' : c' ∈ l') : ∃ c ∈ l, c.id = c'.id ∧ c.workflowId = c'.workflowId := by
  obtain ⟨c, hc, hkey⟩ := List.mem_map.1 (h ▸ List.mem_map_of_mem hc')
  exact ⟨c, hc, Prod.mk.inj hkey⟩

/-- A run after a transaction was there before, or is new. -/
theorem Extends.run (h : Extends db n db' n') {r' : WorkflowRun} (hr' : r' ∈ db'.workflowRuns) :
    (∃ r ∈ db.workflowRuns, r.id = r'.id ∧ r.workflowId = r'.workflowId) ∨
      db'.workflowRuns = db.workflowRuns ++ [r'] ∧ r'.id = n ∧ n < n' ∧
        ∃ row ∈ db.workflows, row.id = r'.workflowId := by
  rcases h.runs with hruns | ⟨r, hruns, hnew⟩
  · obtain ⟨r, hr, hkey⟩ := List.mem_map.1 (hruns ▸ List.mem_map_of_mem hr')
    exact .inl ⟨r, hr, Prod.mk.inj hkey⟩
  · rw [hruns] at hr'
    rcases List.mem_append.1 hr' with hr | hr
    · exact .inl ⟨r', hr, rfl, rfl⟩
    · obtain rfl := List.mem_singleton.1 hr
      exact .inr ⟨hruns, hnew⟩

theorem Sound.of_extends (hs : Sound db n deleted) (h : Extends db n db' n') : Sound db' n' deleted := by
  refine ⟨fun w hw => hs.workflows w (h.workflows ▸ hw), fun c' hc' => ?_, fun r' hr' => ?_, fun r' hr' => ?_,
    fun r hr r' hr' hid => ?_, fun t' ht' id hid => ?_⟩
  · obtain ⟨c, hc, -, hw⟩ := schedule_of_key h.schedules hc'
    exact hw ▸ hs.schedules c hc
  · rcases h.run hr' with ⟨r, hr, -, hw⟩ | ⟨-, -, -, row, hrow, hw⟩
    · exact hw ▸ hs.runs r hr
    · exact hw ▸ hs.workflows row hrow
  · rcases h.run hr' with ⟨r, hr, hid, -⟩ | ⟨-, hid, hlt, -⟩
    · exact hid ▸ Nat.lt_of_lt_of_le (hs.ids r hr) h.next
    · exact hid ▸ hlt
  · rcases h.run hr with ⟨r₀, hr₀, hid₀, hw₀⟩ | ⟨hruns, hnew, -⟩
    · rcases h.run hr' with ⟨r₁, hr₁, hid₁, hw₁⟩ | ⟨-, hnew, -⟩
      · rw [← hw₀, ← hw₁]
        exact hs.unique r₀ hr₀ r₁ hr₁ ((hid₀.trans hid).trans hid₁.symm)
      · exact absurd ((hid₀.trans hid).trans hnew) (Nat.ne_of_lt (hs.ids r₀ hr₀))
    · rw [hruns] at hr'
      rcases List.mem_append.1 hr' with hr' | hr'
      · exact absurd (hid.symm.trans hnew) (Nat.ne_of_lt (hs.ids r' hr'))
      · rw [List.mem_singleton.1 hr']
  · have hc : ∃ c ∈ db.schedules, c.id = id := by
      rcases h.refs t' ht' id hid with ⟨t, ht, hid⟩ | hc
      · exact hs.refs t ht id hid
      · exact hc
    obtain ⟨c, hc, rfl⟩ := hc
    obtain ⟨c', hc', hid', -⟩ := schedule_of_key h.schedules.symm hc
    exact ⟨c', hc', hid'⟩

theorem Knows.of_extends {r : WorkflowRun} (hk : Knows db n r) (h : Extends db n db' n') : Knows db' n' r := by
  refine ⟨Nat.lt_of_lt_of_le hk.old h.next, fun r' hr' hid => ?_⟩
  rcases h.run hr' with ⟨r₀, hr₀, hid₀, hw₀⟩ | ⟨-, hnew, -⟩
  · exact hw₀ ▸ hk.row r₀ hr₀ (hid₀.trans hid)
  · exact absurd (hid.symm.trans hnew) (Nat.ne_of_lt hk.old)

theorem Sound.knows {r : WorkflowRun} (hs : Sound db n deleted) (hr : r ∈ db.workflowRuns) : Knows db n r :=
  ⟨hs.ids r hr, fun row hrow hid => hs.unique row hrow r hr hid⟩

/-! ### The delete of a row -/

theorem deleteWorkflow_eq_none (h : db.deleteWorkflow w = none) : ¬ Deletable db w :=
  fun hd => Option.some_ne_none _ ((if_pos hd).symm.trans h)

/-- A delete leaves the rows of the other workflows, and no task refers to a schedule that it deletes. -/
theorem Sound.of_deleteWorkflow (hs : Sound db n deleted) (h : db.deleteWorkflow w = some db') :
    Deletable db w ∧ db'.workflowRuns ⊆ db.workflowRuns ∧ Sound db' n (w :: deleted) := by
  obtain ⟨hd, hdb⟩ := Option.ite_none_right_eq_some.1 h
  cases hdb
  have hruns : (db.workflowRuns.filter fun r => r.workflowId ≠ w) ⊆ db.workflowRuns :=
    fun _ hr => List.mem_of_mem_filter hr
  have hcons : ∀ v : String, v ≠ w → v ∉ deleted → v ∉ w :: deleted := fun v hv hdel hmem =>
    (List.mem_cons.1 hmem).elim hv hdel
  refine ⟨hd, hruns, fun row hrow => ?_, fun c hc => ?_, fun r hr => ?_, fun r hr => hs.ids r (hruns hr),
    fun r hr r' hr' => hs.unique r (hruns hr) r' (hruns hr'), fun t ht id hid => ?_⟩
  · obtain ⟨hrow, hne⟩ := List.mem_filter.1 hrow
    exact hcons row.id (of_decide_eq_true hne) (hs.workflows row hrow)
  · obtain ⟨hc, hne⟩ := List.mem_filter.1 hc
    exact hcons c.workflowId (of_decide_eq_true hne) (hs.schedules c hc)
  · obtain ⟨hr, hne⟩ := List.mem_filter.1 hr
    exact hcons r.workflowId (of_decide_eq_true hne) (hs.runs r hr)
  · obtain ⟨c, hc, rfl⟩ := hs.refs t ht id hid
    have hne : c.workflowId ≠ w := fun hw => hd.2 t ht ⟨c, hc, hw, hid⟩
    exact ⟨c, List.mem_filter.2 ⟨hc, decide_eq_true hne⟩, rfl⟩

/-! ### Steps -/

variable {s s' : State κ τ ι} {i : ι} {a : Action κ τ ι}

/-- The run record that a worker holds before it starts. -/
def Pc.record : Pc κ τ → Option WorkflowRun
  | .load r | .start r _ | .reread r _ => some r
  | _ => none

structure Inv (s : State κ τ ι) : Prop where
  sound : Sound s.db s.nextId s.deleted
  known : ∀ i, ∀ r ∈ (s.pc i).record, Knows s.db s.nextId r
  graph : ∀ i, ∀ w ∈ (s.pc i).inGraph, w ∉ s.deleted
  torn : s.torn = []
  late : s.late = []

theorem inv_put (hI : Inv s) {pc : Pc κ τ} (h : Extends s.db s.nextId db n)
    (hrecord : ∀ r ∈ pc.record, Knows s.db s.nextId r) (hgraph : ∀ w ∈ pc.inGraph, w ∉ s.deleted) :
    Inv { s.goto i pc with db, nextId := n } := by
  refine ⟨hI.sound.of_extends h, ?_, ?_, hI.torn, hI.late⟩
  · exact (Function.forall_update_iff s.pc fun _ pc => ∀ r ∈ pc.record, Knows db n r).2
      ⟨fun r hr => (hrecord r hr).of_extends h, fun j _ r hr => (hI.known j r hr).of_extends h⟩
  · exact (Function.forall_update_iff s.pc fun _ pc => ∀ w ∈ pc.inGraph, w ∉ s.deleted).2
      ⟨hgraph, fun j _ => hI.graph j⟩

/-- A party that holds no run moves on. -/
theorem inv_next (hI : Inv s) {pc : Pc κ τ} (h : Extends s.db s.nextId db n) (hrecord : pc.record = none)
    (hgraph : pc.inGraph = none) : Inv { s.goto i pc with db, nextId := n } :=
  inv_put hI h (fun r hr => by cases hrecord.symm.trans hr) fun w hw => by cases hgraph.symm.trans hw

theorem inv_goto (hI : Inv s) {pc : Pc κ τ} (hrecord : pc.record = none) (hgraph : pc.inGraph = none) :
    Inv (s.goto i pc) :=
  inv_next hI (extends_refl s.db s.nextId) hrecord hgraph

theorem inv_raise (hI : Inv s) (hhalf : (s.pc i).half = none) : Inv (s.raise i) := by
  have hgoto : Inv (s.goto i .idle) := inv_goto hI rfl rfl
  refine ⟨hgoto.sound, hgoto.known, hgoto.graph, ?_, hgoto.late⟩
  change (s.pc i).half.toList ++ s.torn = []
  rw [hhalf, hI.torn]
  rfl

theorem updateRunWhere_ne_none {id revision : Nat} {p : WorkflowRun → Bool} {write : WorkflowRun → WorkflowRun}
    {row : WorkflowRun} (hrow : row ∈ db.workflowRuns) (h : row.id = id ∧ row.revision = revision ∧ p row = true) :
    db.updateRunWhere id revision p write ≠ none := by
  have hany : (db.workflowRuns.any fun r => r.id = id ∧ r.revision = revision ∧ p r) = true :=
    List.any_eq_true.2 ⟨row, hrow, decide_eq_true h⟩
  rw [Db.updateRunWhere, if_pos hany]
  exact Option.some_ne_none _

/-- Under the condition a call raises only where it has changed nothing. -/
theorem half_of_call (h : call C s i = none) (hsafe : Safe s (.run i)) : (s.pc i).half = none := by
  cases hpc : s.pc i with
  | cancel w todo changed =>
    cases changed with
    | false => rfl
    | true =>
      cases todo with
      | nil =>
        simp only [call, hpc] at h
        cases h
      | cons r todo =>
        simp only [call, hpc] at h
        simp only [Safe, hpc] at hsafe
        obtain ⟨row, hrow, hcurrent⟩ := hsafe
        exact absurd (Option.map_eq_none_iff.1 h) (updateRunWhere_ne_none hrow hcurrent)
  | clearRefs w changed =>
    simp only [call, hpc] at h
    cases h
  | deleteRow w changed =>
    cases changed with
    | false => rfl
    | true =>
      simp only [call, hpc] at h
      simp only [Safe, hpc] at hsafe
      exact absurd (hsafe.1 trivial) (deleteWorkflow_eq_none (Option.map_eq_none_iff.1 h))
  | _ => rfl

/-- The row of a workflow is deleted, with no worker in its graph. -/
theorem inv_deleteRow (hI : Inv s) (h : s.db.deleteWorkflow w = some db)
    (hworkers : Deletable s.db w → ∀ j, (s.pc j).inGraph ≠ some w) :
    Inv { s.goto i .idle with db, deleted := w :: s.deleted } := by
  obtain ⟨hd, hruns, hsound⟩ := hI.sound.of_deleteWorkflow h
  refine ⟨hsound, ?_, ?_, hI.torn, hI.late⟩
  · refine (Function.forall_update_iff s.pc fun _ pc => ∀ r ∈ pc.record, Knows db s.nextId r).2
      ⟨fun r hr => (by cases hr), fun j _ r hr => ?_⟩
    have hk := hI.known j r hr
    exact ⟨hk.old, fun row hrow => hk.row row (hruns hrow)⟩
  · refine (Function.forall_update_iff s.pc fun _ pc => ∀ v ∈ pc.inGraph, v ∉ w :: s.deleted).2
      ⟨fun v hv => (by cases hv), fun j _ v hv hmem => ?_⟩
    rcases List.mem_cons.1 hmem with rfl | hmem
    · exact hworkers hd j hv
    · exact hI.graph j v hv hmem

/-- A run whose row is still there has been started, so its workflow was not deleted. -/
theorem inv_reread (hI : Inv s) {r own : WorkflowRun} {nodes : List String} (hk : Knows s.db s.nextId r)
    (h : s.db.getWorkflowRun r.id = some own) :
    Inv (s.goto i (.graph own.id own.revision r.workflowId nodes)) := by
  refine inv_put hI (extends_refl s.db s.nextId) (fun x hx => by cases hx) fun v hv => ?_
  have hown : own ∈ s.db.workflowRuns := List.mem_of_find?_eq_some h
  have hfound := List.find?_some h
  have hid : own.id = r.id := of_decide_eq_true hfound
  have hv : v = r.workflowId := by
    cases nodes with
    | nil => cases hv
    | cons _ _ => exact (Option.some.inj hv).symm
  rw [hv, ← hk.row own hown hid]
  exact hI.sound.runs own hown

theorem inv_call (hI : Inv s) (hsafe : Safe s (.run i)) (h : call C s i = some s') : Inv s' := by
  cases hpc : s.pc i with
  | idle =>
    simp only [call, hpc] at h
    cases h
  | requireWorkflow w =>
    simp only [call, hpc] at h
    obtain ⟨row, -, rfl⟩ := Option.map_eq_some_iff.1 h
    exact inv_goto hI rfl rfl
  | listActive w =>
    simp only [call, hpc] at h
    cases h
    exact inv_goto hI rfl rfl
  | cancel w todo changed =>
    cases todo with
    | nil =>
      simp only [call, hpc] at h
      cases h
      cases changed with
      | false | true => exact inv_goto hI rfl rfl
    | cons r todo =>
      simp only [call, hpc] at h
      obtain ⟨db, hdb, rfl⟩ := Option.map_eq_some_iff.1 h
      exact inv_next hI (extends_updateRunWhere hdb fun _ => rfl) rfl rfl
  | clearRefs w changed =>
    simp only [call, hpc] at h
    cases h
    exact inv_next hI (extends_clearTaskScheduleRefs s.db w s.nextId) rfl rfl
  | deleteRow w changed =>
    simp only [call, hpc] at h
    simp only [Safe, hpc] at hsafe
    obtain ⟨db, hdb, rfl⟩ := Option.map_eq_some_iff.1 h
    exact inv_deleteRow hI hdb hsafe.2
  | trigger scheduleId key =>
    simp only [call, hpc] at h
    obtain ⟨⟨x, db⟩, hdb, rfl⟩ := Option.map_eq_some_iff.1 h
    exact inv_next hI (extends_trigger hdb) rfl rfl
  | lookup scheduleId =>
    simp only [call, hpc] at h
    obtain ⟨c, -, rfl⟩ := Option.map_eq_some_iff.1 h
    exact inv_goto hI rfl rfl
  | claim todo =>
    cases todo with
    | nil =>
      simp only [call, hpc] at h
      cases h
      exact inv_goto hI rfl rfl
    | cons c todo =>
      simp only [call, hpc] at h
      split at h
      · cases h
        exact inv_goto hI rfl rfl
      · obtain ⟨⟨x, db⟩, hdb, rfl⟩ := Option.map_eq_some_iff.1 h
        cases x with
        | none => exact inv_goto hI rfl rfl
        | some x => exact inv_next hI (extends_claim hdb) rfl rfl
  | requireSaved j todo =>
    simp only [call, hpc] at h
    obtain ⟨row, -, rfl⟩ := Option.map_eq_some_iff.1 h
    exact inv_goto hI rfl rfl
  | createRun j w todo =>
    simp only [call, hpc] at h
    obtain ⟨db, hdb, rfl⟩ := Option.map_eq_some_iff.1 h
    exact inv_next hI (extends_createWorkflowRun hdb rfl) rfl rfl
  | createTask j run todo =>
    simp only [call, hpc] at h
    obtain ⟨db, hdb, rfl⟩ := Option.map_eq_some_iff.1 h
    exact inv_next hI (extends_createExecutingTask hdb) rfl rfl
  | enqueue run todo =>
    simp only [call, hpc] at h
    cases h
    have hgoto : Inv (s.goto i (.claim todo)) := inv_goto hI rfl rfl
    exact ⟨hgoto.sound, hgoto.known, hgoto.graph, hgoto.torn, hgoto.late⟩
  | checkSchedule t =>
    simp only [call, hpc] at h
    obtain ⟨-, hs⟩ := Option.ite_none_right_eq_some.1 h
    cases hs
    exact inv_goto hI rfl rfl
  | insertTask t =>
    simp only [call, hpc] at h
    obtain ⟨db, hdb, rfl⟩ := Option.map_eq_some_iff.1 h
    exact inv_next hI (extends_insertTask hdb) rfl rfl
  | fetch run =>
    simp only [call, hpc] at h
    obtain ⟨r, hr, rfl⟩ := Option.map_eq_some_iff.1 h
    split
    · refine inv_put hI (extends_refl s.db s.nextId) (fun x hx => ?_) fun w hw => by cases hw
      obtain rfl := Option.some.inj hx
      exact hI.sound.knows (List.mem_of_find?_eq_some hr)
    · exact inv_goto hI rfl rfl
  | load r =>
    simp only [call, hpc] at h
    obtain ⟨row, -, rfl⟩ := Option.map_eq_some_iff.1 h
    refine inv_put hI (extends_refl s.db s.nextId) (fun x hx => hI.known i x ?_) fun w hw => by cases hw
    rw [hpc]
    exact hx
  | start r w =>
    simp only [call, hpc] at h
    obtain ⟨db, hdb, rfl⟩ := Option.map_eq_some_iff.1 h
    refine inv_put hI (extends_updateRunWhere hdb fun _ => rfl) (fun x hx => hI.known i x ?_) fun w hw => by cases hw
    rw [hpc]
    exact hx
  | reread r w =>
    simp only [call, hpc] at h
    obtain ⟨own, hown, rfl⟩ := Option.map_eq_some_iff.1 h
    exact inv_reread hI (hI.known i r (by rw [hpc]; rfl)) hown
  | graph run revision w nodes =>
    cases nodes with
    | nil =>
      simp only [call, hpc] at h
      cases h
      exact inv_goto hI rfl rfl
    | cons node nodes =>
      simp only [call, hpc] at h
      cases h
      have hw : w ∉ s.deleted := hI.graph i w (by rw [hpc]; rfl)
      have hgoto : Inv (s.goto i (.graph run revision w nodes)) := by
        refine inv_put hI (extends_refl s.db s.nextId) (fun x hx => by cases hx) fun v hv => ?_
        cases nodes with
        | nil => cases hv
        | cons _ _ => exact Option.some.inj hv ▸ hw
      refine ⟨hgoto.sound, hgoto.known, hgoto.graph, hgoto.torn, ?_⟩
      change (if w ∈ s.deleted then run :: s.late else s.late) = []
      rw [if_neg hw]
      exact hI.late
  | finish run revision status =>
    simp only [call, hpc] at h
    obtain ⟨db, hdb, rfl⟩ := Option.map_eq_some_iff.1 h
    exact inv_next hI (extends_updateRunWhere hdb fun _ => rfl) rfl rfl

theorem inv_begin (hI : Inv s) {pc : Pc κ τ} (hrecord : pc.record = none) (hgraph : pc.inGraph = none)
    (h : begin s i pc = some s') : Inv s' := by
  unfold begin at h
  split at h
  · cases h
    exact inv_goto hI hrecord hgraph
  · cases h

theorem inv_step (hI : Inv s) (hsafe : Safe s a) (h : step C s a = some s') : Inv s' := by
  cases a with
  | delete i w => exact inv_begin hI rfl rfl h
  | manualRun i w authorized => exact inv_begin hI rfl rfl h
  | triggerSchedule i scheduleId key => exact inv_begin hI rfl rfl h
  | tick i now batchSize =>
    obtain ⟨-, h⟩ := Option.ite_none_right_eq_some.1 h
    exact inv_begin hI rfl rfl h
  | createTask i t => exact inv_begin hI rfl rfl h
  | execute i run =>
    obtain ⟨-, h⟩ := Option.ite_none_right_eq_some.1 h
    exact inv_begin hI rfl rfl h
  | run i =>
    have hs' : s' = (call C s i).getD (s.raise i) := by
      simp only [step] at h
      split at h
      · cases h
      · exact (Option.some.inj h).symm
    cases hcall : call C s i with
    | none =>
      rw [hs', hcall]
      exact inv_raise hI (half_of_call hcall hsafe)
    | some t =>
      rw [hs', hcall]
      exact inv_call hI hsafe hcall
  | stop i status =>
    simp only [step] at h
    split at h
    · obtain ⟨-, hs⟩ := Option.ite_none_left_eq_some.1 h
      cases hs
      exact inv_goto hI rfl rfl
    · cases h
  | locked i =>
    simp only [step] at h
    split at h
    · cases h
      exact inv_goto hI rfl rfl
    · cases h
  | fail i =>
    have hs' : s' = s.raise i := by
      simp only [step] at h
      split at h
      · cases h
      · exact (Option.some.inj h).symm
    rw [hs']
    exact inv_raise hI hsafe

theorem inv_init (h : Initial s) : Inv s := by
  obtain ⟨hdeleted, htorn, hlate⟩ := h.ghosts
  have hnone : ∀ v : String, v ∉ s.deleted := fun v => hdeleted ▸ List.not_mem_nil
  refine ⟨⟨fun _ _ => hnone _, fun _ _ => hnone _, fun _ _ => hnone _, h.ids, h.unique, h.refs⟩, fun i r hr => ?_,
    fun _ _ _ => hnone _, htorn, hlate⟩
  rw [h.pc i] at hr
  cases hr

/-- In every run whose steps all meet the condition a delete that raises has changed nothing, and one that returns
leaves no row and no reference of its workflow, of which no node is started. -/
theorem delete_whole_of_safe (h : (workflows C).Reach Safe s) : Law s := by
  have hI : Inv s := h.induct (fun _ => inv_init) fun _ _ _ hI hsafe hstep => inv_step hI hsafe hstep
  refine ⟨hI.torn, fun w hw => ⟨fun r hr he => hI.sound.runs r hr (he ▸ hw), fun c hc he =>
    hI.sound.schedules c hc (he ▸ hw), fun t ht id hid => ?_⟩, hI.late⟩
  obtain ⟨c, hc, hcid⟩ := hI.sound.refs t ht id hid
  exact ⟨c, hc, hcid, fun he => hI.sound.schedules c hc (he ▸ hw)⟩

theorem torn_of_raise (h : (s.pc i).half = some w) : (s.raise i).torn ≠ [] := by
  change (s.pc i).half.toList ++ s.torn ≠ []
  rw [h]
  exact List.cons_ne_nil w _

/-- A call under way that raises is the step of its party. -/
theorem raise_of_step (hpc : s.pc i ≠ .idle) (hcall : call C s i = none) (h : step C s (.run i) = some s') :
    s' = s.raise i := by
  simp only [step, hcall] at h
  exact (Option.some.inj h).symm

/-- A step that does not meet the condition is a delete that raises with something changed, or one that returns with a
worker in the graph of its workflow. -/
theorem broken_of_not_safe (hsafe : ¬ Safe s a) (h : step C s a = some s') :
    s'.torn ≠ [] ∨ ∃ w ∈ s'.deleted, ∃ j, (s'.pc j).inGraph = some w := by
  cases a with
  | run i =>
    cases hpc : s.pc i with
    | cancel w todo changed =>
      cases changed with
      | false => simp only [Safe, hpc, not_true] at hsafe
      | true =>
        cases todo with
        | nil => simp only [Safe, hpc, not_true] at hsafe
        | cons r todo =>
          simp only [Safe, hpc] at hsafe
          have hcall : call C s i = none := by
            have hnone : s.db.cancelWorkflowRunCas r.id r.revision "workflow deleted" = none := by
              refine if_neg fun hany => hsafe ?_
              obtain ⟨row, hrow, hrow'⟩ := List.any_eq_true.1 hany
              exact ⟨row, hrow, of_decide_eq_true hrow'⟩
            simp only [call, hpc, hnone]
            rfl
          rw [raise_of_step (by rw [hpc]; nofun) hcall h]
          exact .inl (torn_of_raise (by rw [hpc]; rfl))
    | deleteRow w changed =>
      simp only [Safe, hpc] at hsafe
      by_cases hd : Deletable s.db w
      · have hworker : ∃ j, (s.pc j).inGraph = some w := by
          by_contra hnone
          exact hsafe ⟨fun _ => hd, fun _ j hj => hnone ⟨j, hj⟩⟩
        obtain ⟨j, hj⟩ := hworker
        obtain ⟨db, hdb⟩ : ∃ db, s.db.deleteWorkflow w = some db := ⟨_, if_pos hd⟩
        have hs' : s' = { s.goto i .idle with db, deleted := w :: s.deleted } := by
          simp only [step, call, hpc, hdb] at h
          exact (Option.some.inj h).symm
        have hji : j ≠ i := by
          rintro rfl
          rw [hpc] at hj
          cases hj
        subst hs'
        refine .inr ⟨w, List.mem_cons_self, j, ?_⟩
        change ((Function.update s.pc i .idle) j).inGraph = some w
        rw [Function.update_of_ne hji]
        exact hj
      · have hchanged : changed = true := by
          by_contra hchanged
          exact hsafe ⟨fun hc => absurd hc hchanged, fun hd' => absurd hd' hd⟩
        have hnone : s.db.deleteWorkflow w = none := if_neg hd
        have hcall : call C s i = none := by
          simp only [call, hpc, hnone]
          rfl
        rw [raise_of_step (by rw [hpc]; nofun) hcall h]
        exact .inl (torn_of_raise (by rw [hpc, hchanged]; rfl))
    | _ => simp only [Safe, hpc, not_true] at hsafe
  | fail i =>
    have hs' : s' = s.raise i := by
      simp only [step] at h
      split at h
      · cases h
      · exact (Option.some.inj h).symm
    obtain ⟨w, hw⟩ := Option.ne_none_iff_exists'.1 hsafe
    rw [hs']
    exact .inl (torn_of_raise hw)
  | _ => exact absurd trivial hsafe

end Proofs

/-! ### A delete next to a worker -/

/-- Two queued runs of a workflow with two nodes, with a task that refers to its schedule. -/
def queuedDb : Db Unit Nat where
  workflows := [⟨"w", 1, true, ["n1", "n2"]⟩]
  schedules := [⟨"s", "w", "* * * * *", "UTC", true, [], some 60⟩]
  workflowRuns := [⟨1, "w", 1, none, .manual, .queued, none, 1⟩, ⟨2, "w", 1, none, .manual, .queued, none, 1⟩]
  tasks := [⟨0, some "s", true, []⟩]
  scheduleRuns := []

def everyMinute : Cron Nat := ⟨fun _ _ t => some (t + 60), fun t => toString t⟩

def queuedState : State Unit Nat Bool := ⟨queuedDb, [1, 2], 3, fun _ => .idle, [], [], []⟩

theorem initial_queuedState : Initial queuedState := by
  refine ⟨fun _ => rfl, ⟨rfl, rfl, rfl⟩, ?_, ?_, ?_⟩
  · decide
  · decide
  · decide

/-- A worker that comes to the second run after it was cancelled lets the delete return. -/
theorem delete_whole_of_two_runs : ∃ s : State Unit Nat Bool, (workflows everyMinute).Reach Safe s ∧
    s.deleted = ["w"] ∧ s.db.workflowRuns = [] ∧ Law s := by
  obtain ⟨s, -, hreach, hend⟩ := Machine.reach_of_exec (M := workflows everyMinute) (C := Safe) (s := queuedState)
    (p := fun s => s.deleted = ["w"] ∧ s.db.workflowRuns = [])
    [.delete false "w", .run false, .run false, .run false, .run false, .execute true 2, .run true, .run false,
      .run false, .run false]
    initial_queuedState (by decide)
  obtain ⟨hdeleted, hruns⟩ := of_decide_eq_true hend
  exact ⟨s, hreach, hdeleted, hruns, delete_whole_of_safe hreach⟩

/-- A worker starts the second run before it is cancelled: the delete raises, with the first run cancelled. Or it is in
the graph when the delete returns, and starts a node afterwards. -/
theorem delete_raises_half_done : ∃ s t : State Unit Nat Bool,
    ((workflows everyMinute).Reach Free s ∧ s.torn = ["w"] ∧ s.deleted = [] ∧
      s.db.workflowRuns.map (·.status) = [.cancelled, .running] ∧ ¬ Law s) ∧
    (workflows everyMinute).Reach Free t ∧ t.deleted = ["w"] ∧ t.late = [1] ∧ ¬ Law t := by
  obtain ⟨s, -, hs, hsend⟩ := Machine.reach_of_exec (M := workflows everyMinute) (C := Free) (s := queuedState)
    (p := fun s => s.torn = ["w"] ∧ s.deleted = [] ∧ s.db.workflowRuns.map (·.status) = [.cancelled, .running])
    [.delete false "w", .run false, .run false, .run false, .execute true 2, .run true, .run true, .run true,
      .run false]
    initial_queuedState (by decide)
  obtain ⟨t, -, ht, htend⟩ := Machine.reach_of_exec (M := workflows everyMinute) (C := Free) (s := queuedState)
    (p := fun s => s.deleted = ["w"] ∧ s.late = [1])
    [.execute true 1, .run true, .run true, .run true, .run true, .delete false "w", .run false, .run false, .run false,
      .run false, .run false, .run false, .run false, .run true]
    initial_queuedState (by decide)
  obtain ⟨htorn, hnone, hstatus⟩ := of_decide_eq_true hsend
  obtain ⟨hdeleted, hlate⟩ := of_decide_eq_true htend
  refine ⟨s, t, ⟨hs, htorn, hnone, hstatus, fun hlaw => ?_⟩, ht, hdeleted, hlate, fun hlaw => ?_⟩
  · cases htorn.symm.trans hlaw.raised
  · cases hlate.symm.trans hlaw.started

end NexusStudio.WorkflowDelete
