import NexusStudio.Server.Errors
import Mathlib.Data.List.Sort
import Mathlib.Order.Defs.LinearOrder

/-!
# Workflows, schedules and runs

The tables of a workshop that its schedules fire into, with the transactions of the repository.

* (rows) Instants are of a type `τ`, capabilities of a type `κ`; the ids of runs and tasks are numbers.
* (fires) A fire is a schedule with a trigger key; `claimDueScheduleRun` records it and advances `next_run_at`.
* (runs) A run and its task are inserted apart, and a run is updated by its revision.
* (keys) A run or a schedule needs its workflow, and a task that refers to a schedule keeps it from being deleted.
-/

set_option linter.unusedSectionVars false

namespace NexusStudio.Schedules

/-! ### Rows -/

structure Workflow where
  id : String
  revision : Nat
  saved : Bool
  -- in the order of `topological_order`
  nodes : List String
  deriving DecidableEq, Repr

structure Schedule (κ τ : Type) where
  id : String
  workflowId : String
  cron : String
  timezone : String
  enabled : Bool
  authorizedExternalCapabilities : List κ
  nextRunAt : Option τ
  deriving DecidableEq, Repr

inductive RunTrigger
  | manual
  | schedule
  deriving DecidableEq, Repr

inductive RunStatus
  | queued
  | running
  | succeeded
  | failed
  | blocked
  | cancelled
  deriving DecidableEq, Repr

def RunStatus.active : RunStatus → Bool
  | queued | running => true
  | succeeded | failed | blocked | cancelled => false

structure WorkflowRun where
  id : Nat
  workflowId : String
  workflowRevision : Nat
  scheduleId : Option String
  trigger : RunTrigger
  status : RunStatus
  errorMessage : Option String
  revision : Nat
  deriving DecidableEq, Repr

structure Task (κ : Type) where
  id : Nat
  scheduleId : Option String
  scheduleAuthorized : Bool
  externalAuth : List κ
  deriving DecidableEq, Repr

structure ScheduleRun where
  scheduleId : String
  triggerKey : String
  taskId : Nat
  deriving DecidableEq, Repr

/-- The unique key of `workshop_schedule_runs`. -/
structure Fire where
  scheduleId : String
  triggerKey : String
  deriving DecidableEq, Repr

def ScheduleRun.fire (r : ScheduleRun) : Fire := ⟨r.scheduleId, r.triggerKey⟩

structure Db (κ τ : Type) where
  workflows : List Workflow
  schedules : List (Schedule κ τ)
  workflowRuns : List WorkflowRun
  tasks : List (Task κ)
  scheduleRuns : List ScheduleRun

/-- What the code takes from elsewhere: the next fire of a cron expression in a time zone after an instant, and how an
instant is written. -/
structure Cron (τ : Type) where
  nextFire : String → String → τ → Option τ
  stamp : τ → String

/-- `schedule_trigger_key`. -/
def Cron.triggerKey {τ : Type} (C : Cron τ) (scheduleId : String) (due : τ) : String :=
  strip scheduleId ++ ":" ++ C.stamp due

namespace Db

variable {κ τ : Type} (db : Db κ τ)

/-! ### Reading -/

def getWorkflow (id : String) : Option Workflow := db.workflows.find? fun w => w.id = id

/-- `_require_saved`. -/
def requireSaved (id : String) : Option Workflow := (db.getWorkflow id).filter Workflow.saved

def getSchedule (id : String) : Option (Schedule κ τ) := db.schedules.find? fun s => s.id = id

def getWorkflowRun (id : Nat) : Option WorkflowRun := db.workflowRuns.find? fun r => r.id = id

/-- The row of a fire. -/
def scheduleRun (f : Fire) : Option ScheduleRun := db.scheduleRuns.find? fun r => r.fire = f

def listActiveWorkflowRuns (workflowId : String) : List WorkflowRun :=
  db.workflowRuns.filter fun r => r.workflowId = workflowId ∧ r.status.active

section Due

variable [LinearOrder τ]

def Due (now : τ) (s : Schedule κ τ) : Prop := s.enabled ∧ ∃ due ∈ s.nextRunAt, due ≤ now

instance (now : τ) (s : Schedule κ τ) : Decidable (Due now s) := inferInstanceAs (Decidable (_ ∧ ∃ due ∈ s.nextRunAt, _))

/-- By `next_run_at` and id. -/
def dueBefore (s t : Schedule κ τ) : Prop := s.nextRunAt = t.nextRunAt ∧ s.id ≤ t.id ∨
  ∃ a ∈ s.nextRunAt, ∃ b ∈ t.nextRunAt, a < b

instance (s t : Schedule κ τ) : Decidable (dueBefore s t) :=
  inferInstanceAs (Decidable (_ ∧ _ ∨ ∃ a ∈ s.nextRunAt, ∃ b ∈ t.nextRunAt, _))

def listDueSchedules (now : τ) (limit : Nat) : List (Schedule κ τ) :=
  ((db.schedules.filter fun s => Due now s).insertionSort dueBefore).take limit

end Due

/-! ### Fires -/

/-- `_insert_schedule_trigger`. -/
def insertScheduleTrigger (s : Schedule κ τ) (triggerKey : String) (taskId : Nat) : Option (ScheduleRun × Db κ τ) :=
  (db.requireSaved s.workflowId).map fun _ =>
    (⟨s.id, triggerKey, taskId⟩, { db with
      tasks := db.tasks ++ [⟨taskId, some s.id, true, s.authorizedExternalCapabilities⟩]
      scheduleRuns := db.scheduleRuns ++ [⟨s.id, triggerKey, taskId⟩] })

/-- `_load_trigger_bundle`. -/
def loadTriggerBundle (r : ScheduleRun) : Option ScheduleRun :=
  if db.tasks.any fun t => t.id = r.taskId then some r else none

def setNextRunAt (scheduleId : String) (next : τ) : Db κ τ :=
  { db with schedules := db.schedules.map fun s => if s.id = scheduleId then { s with nextRunAt := some next } else s }

variable [DecidableEq τ]

/-- The row that `claim_due_schedule_run` locks. -/
def dueRow (scheduleId : String) (expected : τ) : Option (Schedule κ τ) :=
  db.schedules.find? fun s => s.id = scheduleId ∧ s.enabled ∧ s.nextRunAt = some expected

/-- `claim_due_schedule_run`: `none` when it raises, and no fire when the row is not due any more. -/
def claimDueScheduleRun (C : Cron τ) (scheduleId : String) (expected : τ) (taskId : Nat) :
    Option (Option ScheduleRun × Db κ τ) :=
  match db.dueRow scheduleId expected with
  | none => some (none, db)
  | some s => do
    let triggerKey := C.triggerKey scheduleId expected
    let next ← C.nextFire s.cron s.timezone expected
    match db.scheduleRun ⟨scheduleId, triggerKey⟩ with
    | some r =>
      let r ← db.loadTriggerBundle r
      return (some r, db.setNextRunAt scheduleId next)
    | none =>
      let (r, db) ← (db.setNextRunAt scheduleId next).insertScheduleTrigger s triggerKey taskId
      return (some r, db)

/-- `trigger_schedule_run`. -/
def triggerScheduleRun (scheduleId triggerKey : String) (taskId : Nat) : Option (ScheduleRun × Db κ τ) :=
  match db.scheduleRun ⟨scheduleId, triggerKey⟩ with
  | some r => (db.loadTriggerBundle r).map fun r => (r, db)
  | none => do
    let s ← db.getSchedule scheduleId
    if s.enabled then db.insertScheduleTrigger s triggerKey taskId else none

/-! ### Runs -/

/-- `create_workflow_run`, which raises without its workflow. -/
def createWorkflowRun (r : WorkflowRun) : Option (Db κ τ) :=
  (db.getWorkflow r.workflowId).map fun _ => { db with workflowRuns := db.workflowRuns ++ [r] }

/-- `create_executing_task_from_workflow`. -/
def createExecutingTask (workflowId : String) (taskId : Nat) (externalAuth : List κ) : Option (Db κ τ) :=
  (db.requireSaved workflowId).map fun _ =>
    { db with tasks := db.tasks ++ [⟨taskId, none, false, externalAuth⟩] }

/-- The update of the run with an id and a revision that meets `p`, which raises unless there is one. -/
def updateRunWhere (id revision : Nat) (p : WorkflowRun → Bool) (write : WorkflowRun → WorkflowRun) :
    Option (Db κ τ) :=
  if db.workflowRuns.any fun r => r.id = id ∧ r.revision = revision ∧ p r then
    some { db with workflowRuns := db.workflowRuns.map fun r =>
      if r.id = id ∧ r.revision = revision ∧ p r then { write r with revision := revision + 1 } else r }
  else none

def updateWorkflowRunCas (id revision : Nat) (status : RunStatus) (error : Option String) : Option (Db κ τ) :=
  db.updateRunWhere id revision (fun _ => true) fun r => { r with status, errorMessage := error }

def cancelWorkflowRunCas (id revision : Nat) (reason : String) : Option (Db κ τ) :=
  db.updateRunWhere id revision (fun r => r.status.active) fun r =>
    { r with status := .cancelled, errorMessage := some reason }

/-! ### Deleting -/

/-- The task refers to a schedule of the workflow. -/
def Refers (workflowId : String) (t : Task κ) : Prop :=
  ∃ s ∈ db.schedules, s.workflowId = workflowId ∧ t.scheduleId = some s.id

instance (workflowId : String) (t : Task κ) : Decidable (db.Refers workflowId t) :=
  inferInstanceAs (Decidable (∃ s ∈ db.schedules, _))

def clearTaskScheduleRefs (workflowId : String) : Db κ τ :=
  { db with tasks := db.tasks.map fun t =>
      if db.Refers workflowId t then { t with scheduleId := none, scheduleAuthorized := false } else t }

/-- `delete_workflow` of the repository, with what the foreign keys delete and forbid. -/
def deleteWorkflow (workflowId : String) : Option (Db κ τ) :=
  if (∃ w ∈ db.workflows, w.id = workflowId) ∧ ∀ t ∈ db.tasks, ¬ db.Refers workflowId t then
    some { db with
      workflows := db.workflows.filter fun w => w.id ≠ workflowId
      schedules := db.schedules.filter fun s => s.workflowId ≠ workflowId
      workflowRuns := db.workflowRuns.filter fun r => r.workflowId ≠ workflowId
      scheduleRuns := db.scheduleRuns.filter fun r => ∀ s ∈ db.schedules, s.workflowId = workflowId → r.scheduleId ≠ s.id }
  else none

/-! ### What a fire writes -/

section Fires

variable {db} {db' : Db κ τ} {C : Cron τ} {scheduleId triggerKey : String} {due : τ} {taskId : Nat} {c : Schedule κ τ}

theorem dueRow_spec (h : db.dueRow scheduleId due = some c) : c ∈ db.schedules ∧ c.id = scheduleId :=
  ⟨List.mem_of_find?_eq_some h, (of_decide_eq_true (List.find?_some (p := fun s : Schedule κ τ =>
    decide (s.id = scheduleId ∧ s.enabled ∧ s.nextRunAt = some due)) h)).1⟩

theorem loadTriggerBundle_eq {r r' : ScheduleRun} (h : db.loadTriggerBundle r = some r') : r' = r :=
  (Option.some.inj (Option.ite_none_right_eq_some.1 h).2).symm

/-- A new fire is a task and the row of the fire. -/
theorem insertScheduleTrigger_eq {r : ScheduleRun} (h : db.insertScheduleTrigger c triggerKey taskId = some (r, db')) :
    r = ⟨c.id, triggerKey, taskId⟩ ∧ db' = { db with
      tasks := db.tasks ++ [⟨taskId, some c.id, true, c.authorizedExternalCapabilities⟩]
      scheduleRuns := db.scheduleRuns ++ [r] } := by
  obtain ⟨w, -, hw⟩ := Option.map_eq_some_iff.1 h
  cases hw
  exact ⟨rfl, rfl⟩

/-- A claim that returns has found no row that is due, or the fire, or it has recorded the fire. -/
theorem claimDueScheduleRun_cases {x : Option ScheduleRun}
    (h : db.claimDueScheduleRun C scheduleId due taskId = some (x, db')) :
    (x = none ∧ db' = db) ∨ ∃ c next, db.dueRow scheduleId due = some c ∧
      ((∃ y, db.scheduleRun ⟨scheduleId, C.triggerKey scheduleId due⟩ = some y ∧ x = some y ∧
          db' = db.setNextRunAt scheduleId next) ∨
        ∃ y, x = some y ∧ (db.setNextRunAt scheduleId next).insertScheduleTrigger c (C.triggerKey scheduleId due)
          taskId = some (y, db')) := by
  unfold claimDueScheduleRun at h
  cases hrow : db.dueRow scheduleId due with
  | none =>
    rw [hrow] at h
    cases h
    exact .inl ⟨rfl, rfl⟩
  | some c =>
    rw [hrow] at h
    obtain ⟨next, -, h⟩ := Option.bind_eq_some_iff.1 h
    refine .inr ⟨c, next, rfl, ?_⟩
    cases hfound : db.scheduleRun ⟨scheduleId, C.triggerKey scheduleId due⟩ with
    | some y =>
      rw [hfound] at h
      obtain ⟨z, hz, h⟩ := Option.bind_eq_some_iff.1 h
      cases h
      exact .inl ⟨y, rfl, congrArg some (loadTriggerBundle_eq hz), rfl⟩
    | none =>
      rw [hfound] at h
      obtain ⟨⟨y, db₁⟩, hy, h⟩ := Option.bind_eq_some_iff.1 h
      cases h
      exact .inr ⟨y, rfl, hy⟩

/-- A trigger that returns has found the fire, or it has recorded it. -/
theorem triggerScheduleRun_cases {r : ScheduleRun}
    (h : db.triggerScheduleRun scheduleId triggerKey taskId = some (r, db')) :
    (db.scheduleRun ⟨scheduleId, triggerKey⟩ = some r ∧ db' = db) ∨
      ∃ c, db.getSchedule scheduleId = some c ∧ db.insertScheduleTrigger c triggerKey taskId = some (r, db') := by
  unfold triggerScheduleRun at h
  cases hfound : db.scheduleRun ⟨scheduleId, triggerKey⟩ with
  | some y =>
    rw [hfound] at h
    obtain ⟨z, hz, h⟩ := Option.map_eq_some_iff.1 h
    cases h
    exact .inl ⟨congrArg some (loadTriggerBundle_eq hz).symm, rfl⟩
  | none =>
    rw [hfound] at h
    obtain ⟨c, hrow, h⟩ := Option.bind_eq_some_iff.1 h
    exact .inr ⟨c, hrow, (Option.ite_none_right_eq_some.1 h).2⟩

end Fires

end Db

end NexusStudio.Schedules
