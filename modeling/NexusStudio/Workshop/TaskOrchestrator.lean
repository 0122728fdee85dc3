import NexusStudio.Workshop.WeakAccept
import NexusStudio.Lib.Machine
import Mathlib.Logic.Function.Basic
import Mathlib.Data.List.Nodup

/-!
# The orchestrator of one task

The operations of `WorkshopTaskOrchestrator` and `complete_scheduled_run` on one task, by any number of calls; every
read, every CAS and every insert is one step.

* (operations) A transition reads the task, checks its status and writes by the revision and the status it has read.
* (log) What has taken effect, newest first, each with the revision that its call had read.
* (law) The task enters EXECUTING only after a `user_confirm_go` since it was last aligned, CANCELLED and FAILED are not
  left, DONE only to RE_ALIGNING, and every write of the task raises its revision by one.
-/

set_option linter.unusedSectionVars false

namespace NexusStudio.TaskOrchestrator

open Concurrent AuthorizedOperations

/-! ### The task -/

/-- `WorkshopTaskStatus`. -/
inductive TaskStatus
  | aligning
  | awaitingGo
  | authorized
  | executing
  | blocked
  | reAligning
  | reviewing
  | done
  | failed
  | cancelled
  deriving DecidableEq, Repr

def TaskStatus.value : TaskStatus → String
  | aligning => "aligning"
  | awaitingGo => "awaiting_go"
  | authorized => "authorized"
  | executing => "executing"
  | blocked => "blocked"
  | reAligning => "re_aligning"
  | reviewing => "reviewing"
  | done => "done"
  | failed => "failed"
  | cancelled => "cancelled"

structure TaskRecord where
  status : TaskStatus
  revision : Nat
  goals : List String
  requiredArtifacts : List String
  externalAuth : List Capability
  scheduleId : Option String
  scheduleAuthorized : Bool
  deriving DecidableEq, Repr

/-- The rows of one task. -/
structure Db where
  task : TaskRecord
  capabilityUses : List Capability
  artifacts : List ArtifactSubmission
  -- the capability, the kind and the payload of the task's authorized operations
  operations : List (Capability × String × String)
  deriving DecidableEq, Repr

namespace Db

variable (db : Db)

/-- `update_task_status_cas`. -/
def updateTaskStatusCas (expected : TaskRecord) (expectedStatus target : TaskStatus) : Option Db :=
  if db.task.revision = expected.revision ∧ db.task.status = expectedStatus then
    some { db with task := { db.task with status := target, revision := expected.revision + 1 } }
  else none

/-- `update_task_external_auth_cas`. -/
def updateTaskExternalAuthCas (expected : TaskRecord) (externalAuth : List Capability) : Option Db :=
  if db.task.revision = expected.revision ∧ db.task.status = expected.status then
    some { db with task := { db.task with externalAuth, revision := expected.revision + 1 } }
  else none

/-- `_insert_artifacts`, by the name. -/
def insertArtifacts (artifacts : List ArtifactSubmission) : Db :=
  { db with artifacts := artifacts.foldl (fun rows a =>
      rows.filter (fun row => strip row.name ≠ strip a.name) ++ [a]) db.artifacts }

/-- `complete_weak_accept`, and `complete_scheduled_success` but for its events. -/
def completeWeakAccept (expected : TaskRecord) (artifacts : List ArtifactSubmission) : Option Db :=
  (db.updateTaskStatusCas expected .reviewing .done).map fun db => db.insertArtifacts artifacts

end Db

/-! ### The operations -/

/-- What the transitions do: the statuses they accept, the status they write, and how they refuse. -/
structure Transition where
  allowed : TaskStatus → Bool
  target : TaskStatus
  refusal : String

def hostProposeGo : Transition := ⟨fun s => s = .aligning || s = .reAligning, .awaitingGo, "cannot propose go from"⟩

def userConfirmGo : Transition := ⟨fun s => s = .awaitingGo, .authorized, "cannot confirm go from"⟩

def beginExecution : Transition := ⟨fun s => s = .authorized, .executing, "cannot begin execution from"⟩

def markBlocked : Transition := ⟨fun s => s = .executing, .blocked, "cannot block from"⟩

def markReAligning : Transition :=
  ⟨fun s => s = .executing || s = .blocked || s = .reviewing, .reAligning, "cannot re-align from"⟩

def markReviewing : Transition := ⟨fun s => s = .executing, .reviewing, "cannot review from"⟩

def cancel : Transition := ⟨fun s => !(s = .done || s = .failed || s = .cancelled), .cancelled, "cannot cancel from"⟩

def fail : Transition := ⟨fun s => s = .executing || s = .blocked || s = .reviewing, .failed, "cannot fail from"⟩

def userRejectDone : Transition := ⟨fun s => s = .done, .reAligning, "cannot reject done from"⟩

def failReviewBlocked : Transition := ⟨fun s => s = .reviewing, .blocked, "cannot fail-review from"⟩

inductive TransitionName
  | hostProposeGo
  | userConfirmGo
  | beginExecution
  | markBlocked
  | markReAligning
  | markReviewing
  | cancel
  | fail
  | userRejectDone
  | failReviewBlocked
  deriving DecidableEq, Repr

def TransitionName.transition : TransitionName → Transition
  | hostProposeGo => TaskOrchestrator.hostProposeGo
  | userConfirmGo => TaskOrchestrator.userConfirmGo
  | beginExecution => TaskOrchestrator.beginExecution
  | markBlocked => TaskOrchestrator.markBlocked
  | markReAligning => TaskOrchestrator.markReAligning
  | markReviewing => TaskOrchestrator.markReviewing
  | cancel => TaskOrchestrator.cancel
  | fail => TaskOrchestrator.fail
  | userRejectDone => TaskOrchestrator.userRejectDone
  | failReviewBlocked => TaskOrchestrator.failReviewBlocked

/-- A check of the status that was read. -/
def checkStatus (allowed : TaskStatus → Bool) (refusal : String) (task : TaskRecord) : Except String Unit :=
  if allowed task.status then .ok () else .error s!"{refusal} {task.status.value}"

structure Acceptance where
  coveredGoals : List String
  artifacts : List ArtifactSubmission
  -- `complete_scheduled_run` in place of `weak_accept`
  scheduled : Bool
  deriving DecidableEq, Repr

inductive Call
  | transition (name : TransitionName)
  | grantExternalAuth (capabilities : List Capability)
  | recordCapabilityUse (capability : Capability)
  | authorizeOperation (capability : Capability) (operationKind payloadHash : String)
  | accept (a : Acceptance)
  deriving DecidableEq, Repr

/-- Where a call is: before a read of the task, or before a write with the task it has read. -/
inductive Pc
  | idle
  | get (c : Call)
  | update (name : TransitionName) (task : TaskRecord)
  | updateExternalAuth (capabilities : List Capability) (task : TaskRecord)
  | insertUse (capability : Capability) (task : TaskRecord)
  | appendOperation (operation : Capability × String × String) (task : TaskRecord)
  -- `mark_reviewing` of `complete_scheduled_run`, with the read after its CAS
  | getExecuting (a : Acceptance)
  | updateReviewing (a : Acceptance) (task : TaskRecord)
  | getReviewing (a : Acceptance)
  | listUses (a : Acceptance) (task : TaskRecord)
  | complete (a : Acceptance) (task : TaskRecord)
  | block (a : Acceptance) (task : TaskRecord)
  deriving DecidableEq, Repr

/-- The grant of capabilities and the authorization of an operation are refused from other statuses. -/
def grantable (s : TaskStatus) : Bool := s = .authorized || s = .executing || s = .blocked

/-- What an acceptance does with the task that it has read first. -/
def enterAccept (a : Acceptance) (task : TaskRecord) : Except String Pc :=
  if a.scheduled then
    if task.scheduleId = none ∨ task.scheduleAuthorized = false then
      .error "complete_scheduled_run requires schedule_id and schedule_authorized"
    else if task.status = .executing then .ok (.getExecuting a)
    else .ok (.listUses a task)
  else do
    checkStatus (fun s => s = .reviewing) "cannot weak-accept from" task
    return .listUses a task

/-- What a call does with the task that it has read first. -/
def enter (task : TaskRecord) : Call → Except String Pc
  | .transition name => do
    checkStatus name.transition.allowed name.transition.refusal task
    return .update name task
  | .grantExternalAuth capabilities =>
    if capabilities.any fun c => !isExternalCapability c then .error "non-external capability cannot be granted"
    else do
      checkStatus grantable "cannot grant external auth from" task
      return .updateExternalAuth capabilities task
  | .recordCapabilityUse capability => do
    checkStatus (fun s => s = .executing || s = .blocked) "cannot record capability use from" task
    return .insertUse capability task
  | .authorizeOperation capability operationKind payloadHash =>
    if isExternalCapability capability = false then .error "authorized operation requires external capability"
    else if strip payloadHash = "" ∨ strip operationKind = "" then .error "operation_kind and payload_hash required"
    else if capability ∉ task.externalAuth then .error "task external grant missing for capability"
    else do
      checkStatus grantable "cannot authorize operation from" task
      return .appendOperation (capability, strip operationKind, strip payloadHash) task
  | .accept a => enterAccept a task

/-! ### The machine -/

inductive EffectName
  | transition (name : TransitionName)
  | grantExternalAuth
  | recordCapabilityUse
  | authorizeOperation
  | accept (scheduled : Bool)
  -- `complete_scheduled_blocked`
  | block
  deriving DecidableEq, Repr

/-- A write that has taken effect: the revision that its call had read, and the task before and after it. -/
structure Effect where
  name : EffectName
  read : Nat
  before : TaskRecord
  after : TaskRecord
  deriving DecidableEq, Repr

structure State (ι : Type) where
  db : Db
  pc : ι → Pc
  log : List Effect

inductive Action (ι : Type)
  | call (i : ι) (c : Call)
  -- the read or the write that is next
  | run (i : ι)
  -- it raises or is rolled back, or the process ends
  | fail (i : ι)

section Model

variable {ι : Type} [DecidableEq ι] (deliverable : String → String → Bool)

def State.goto (s : State ι) (i : ι) (pc : Pc) : State ι := { s with pc := Function.update s.pc i pc }

/-- A write commits, and its call goes on. -/
def State.write (s : State ι) (i : ι) (pc : Pc) (name : EffectName) (read : TaskRecord) (db : Db) : State ι :=
  { s.goto i pc with db, log := ⟨name, read.revision, s.db.task, db.task⟩ :: s.log }

/-- `merged` of a grant. -/
def merged (task : TaskRecord) (capabilities : List Capability) : List Capability :=
  task.externalAuth ++ capabilities.filter fun c => c ∉ task.externalAuth

/-- What the acceptance makes of the uses that it has listed. -/
def judge (a : Acceptance) (task : TaskRecord) (uses : List Capability) : Pc :=
  if evaluateWeakAccept deliverable task.goals a.coveredGoals task.requiredArtifacts a.artifacts task.externalAuth
      uses = []
  then .complete a task
  else if a.scheduled then .block a task
  else .idle

/-- The next read or write, `none` where it raises. -/
def next (s : State ι) (i : ι) : Option (State ι) :=
  match s.pc i with
  | .idle => none
  | .get c => (enter s.db.task c).toOption.map fun pc => s.goto i pc
  | .update name task =>
    (s.db.updateTaskStatusCas task task.status name.transition.target).map fun db =>
      s.write i .idle (.transition name) task db
  | .updateExternalAuth capabilities task =>
    (s.db.updateTaskExternalAuthCas task (merged task capabilities)).map fun db =>
      s.write i .idle .grantExternalAuth task db
  | .insertUse capability task =>
    -- the unique key of the uses
    if capability ∈ s.db.capabilityUses then some (s.goto i .idle)
    else
      some (s.write i .idle .recordCapabilityUse task
        { s.db with capabilityUses := s.db.capabilityUses ++ [capability] })
  | .appendOperation operation task =>
    some (s.write i .idle .authorizeOperation task { s.db with operations := s.db.operations ++ [operation] })
  | .getExecuting a =>
    match checkStatus markReviewing.allowed markReviewing.refusal s.db.task with
    | .ok () => some (s.goto i (.updateReviewing a s.db.task))
    | .error _ => none
  | .updateReviewing a task =>
    (s.db.updateTaskStatusCas task task.status markReviewing.target).map fun db =>
      s.write i (.getReviewing a) (.transition .markReviewing) task db
  | .getReviewing a => some (s.goto i (.listUses a s.db.task))
  | .listUses a task => some (s.goto i (judge deliverable a task s.db.capabilityUses))
  | .complete a task =>
    (s.db.completeWeakAccept task a.artifacts).map fun db => s.write i .idle (.accept a.scheduled) task db
  | .block _ task =>
    (s.db.updateTaskStatusCas task .reviewing .blocked).map fun db => s.write i .idle .block task db

def step (s : State ι) : Action ι → Option (State ι)
  | .call i c =>
    match s.pc i with
    | .idle => some (s.goto i (.get c))
    | _ => none
  | .run i =>
    match s.pc i with
    | .idle => none
    | _ => some ((next deliverable s i).getD (s.goto i .idle))
  | .fail i =>
    match s.pc i with
    | .idle => none
    | _ => some (s.goto i .idle)

/-- A task as a proposal or a schedule creates it. -/
structure Initial (s : State ι) : Prop where
  pc : ∀ i, s.pc i = .idle
  status : s.db.task.status = .aligning ∨ s.db.task.status = .executing
  uses : s.db.capabilityUses = []
  log : s.log = []

def tasks : Machine (State ι) (Action ι) where
  init := Initial
  step := step deliverable

/-! ### The law -/

/-- The writes of the task itself. -/
def EffectName.writesTask : EffectName → Bool
  | recordCapabilityUse | authorizeOperation => false
  | transition _ | grantExternalAuth | accept _ | block => true

/-- The task enters a status. -/
def Effect.Enters (e : Effect) (status : TaskStatus) : Prop := e.before.status ≠ status ∧ e.after.status = status

instance (e : Effect) (status : TaskStatus) : Decidable (e.Enters status) := inferInstanceAs (Decidable (_ ∧ _))

/-- The task enters an aligning status. -/
def Effect.Aligns (e : Effect) : Prop := e.Enters .aligning ∨ e.Enters .reAligning

instance (e : Effect) : Decidable e.Aligns := inferInstanceAs (Decidable (_ ∨ _))

/-- The user has confirmed since the last entry into an aligning status. -/
def Confirmed (log : List Effect) : Prop :=
  ∃ e ∈ log.takeWhile fun e => ¬ e.Aligns, e.name = .transition .userConfirmGo

/-- Every entry into EXECUTING is confirmed. -/
def Orderly : List Effect → Prop
  | [] => True
  | e :: past => (e.Enters .executing → Confirmed past) ∧ Orderly past

/-- A write of the task raises its revision by one and leaves no final status, and DONE only to RE_ALIGNING. -/
structure Effect.Lawful (e : Effect) : Prop where
  keeps : e.name.writesTask = false → e.after = e.before
  raises : e.name.writesTask = true → e.read = e.before.revision ∧ e.after.revision = e.before.revision + 1
  final : e.name.writesTask = true → e.before.status ≠ .cancelled ∧ e.before.status ≠ .failed
  done : e.name.writesTask = true → e.before.status = .done → e.after.status = .reAligning
  executing : e.Enters .executing → e.before.status = .authorized
  authorized : e.Enters .authorized → e.name = .transition .userConfirmGo

/-- A step changes the task by nothing but a logged write. -/
def Moves (s t : State ι) : Prop :=
  t.log = s.log ∧ t.db.task = s.db.task ∨
    ∃ e : Effect, t.log = e :: s.log ∧ e.before = s.db.task ∧ e.after = t.db.task ∧ e.Lawful

/-- The revisions that the writes of the task had read. -/
def readRevisions (log : List Effect) : List Nat := (log.filter fun e => e.name.writesTask).map Effect.read

structure Law (s : State ι) : Prop where
  confirmed : Orderly s.log
  once : (readRevisions s.log).Nodup
  moves : ∀ a t, step deliverable s a = some t → Moves s t

end Model

/-! ### What the writes do -/

section Proofs

variable {ι : Type} [DecidableEq ι] {deliverable : String → String → Bool} {s t : State ι} {i : ι} {db : Db}
  {task : TaskRecord} {log : List Effect} {e : Effect}

theorem status_of_cas {expectedStatus target : TaskStatus}
    (h : s.db.updateTaskStatusCas task expectedStatus target = some db) :
    s.db.task.revision = task.revision ∧ s.db.task.status = expectedStatus ∧
      db = { s.db with task := { s.db.task with status := target, revision := task.revision + 1 } } := by
  obtain ⟨⟨hrevision, hstatus⟩, hdb⟩ := Option.ite_none_right_eq_some.1 h
  exact ⟨hrevision, hstatus, (Option.some.inj hdb).symm⟩

theorem auth_of_cas {auth : List Capability} (h : s.db.updateTaskExternalAuthCas task auth = some db) :
    s.db.task.revision = task.revision ∧ s.db.task.status = task.status ∧
      db = { s.db with task := { s.db.task with externalAuth := auth, revision := task.revision + 1 } } := by
  obtain ⟨⟨hrevision, hstatus⟩, hdb⟩ := Option.ite_none_right_eq_some.1 h
  exact ⟨hrevision, hstatus, (Option.some.inj hdb).symm⟩

/-- The transition table: from which statuses a transition leads where. -/
theorem transition_table (name : TransitionName) (status : TaskStatus) (h : name.transition.allowed status = true) :
    status ≠ .cancelled ∧ status ≠ .failed ∧ (status = .done → name.transition.target = .reAligning) ∧
      (name.transition.target = .executing → status = .authorized) ∧
      (name.transition.target = .authorized → name = .userConfirmGo) := by
  revert h
  cases name with
  | _ =>
    cases status with
    | _ => decide

/-- A write of the status, by what is known of the one that is left. -/
theorem lawful_status {name : EffectName} {expectedStatus target : TaskStatus} (hname : name.writesTask = true)
    (h : s.db.updateTaskStatusCas task expectedStatus target = some db)
    (hfinal : expectedStatus ≠ .cancelled ∧ expectedStatus ≠ .failed)
    (hdone : expectedStatus = .done → target = .reAligning)
    (hexecuting : target = .executing → expectedStatus = .authorized)
    (hauthorized : target = .authorized → name = .transition .userConfirmGo) :
    Effect.Lawful ⟨name, task.revision, s.db.task, db.task⟩ := by
  obtain ⟨hrevision, hstatus, rfl⟩ := status_of_cas h
  refine ⟨fun hn => ?_, fun _ => ⟨hrevision.symm, by rw [hrevision]⟩, fun _ => ?_, fun _ hd => ?_, fun hx => ?_,
    fun ha => ?_⟩
  · rw [hname] at hn
    cases hn
  · rw [hstatus]
    exact hfinal
  · exact hdone (hstatus.symm.trans hd)
  · exact hstatus.trans (hexecuting hx.2)
  · exact hauthorized ha.2

theorem lawful_transition {name : TransitionName} (hallowed : name.transition.allowed task.status = true)
    (h : s.db.updateTaskStatusCas task task.status name.transition.target = some db) :
    Effect.Lawful ⟨.transition name, task.revision, s.db.task, db.task⟩ := by
  obtain ⟨hcancelled, hfailed, hdone, hexecuting, hauthorized⟩ := transition_table name task.status hallowed
  exact lawful_status rfl h ⟨hcancelled, hfailed⟩ hdone hexecuting fun ht => congrArg _ (hauthorized ht)

theorem lawful_grant {auth : List Capability} (hgrantable : grantable task.status = true)
    (h : s.db.updateTaskExternalAuthCas task auth = some db) :
    Effect.Lawful ⟨.grantExternalAuth, task.revision, s.db.task, db.task⟩ := by
  obtain ⟨hrevision, hstatus, rfl⟩ := auth_of_cas h
  have hopen : ∀ status, grantable status = true → status ≠ .cancelled ∧ status ≠ .failed ∧ status ≠ .done := by
    intro status hs
    revert hs
    cases status with
    | _ => decide
  obtain ⟨hcancelled, hfailed, hdone⟩ := hopen _ (hstatus ▸ hgrantable)
  refine ⟨fun hn => (by cases hn), fun _ => ⟨hrevision.symm, by rw [hrevision]⟩, fun _ => ⟨hcancelled, hfailed⟩,
    fun _ hd => absurd hd hdone, fun hx => absurd hx.2 hx.1, fun ha => absurd ha.2 ha.1⟩

/-- A write of another table. -/
theorem lawful_other {name : EffectName} {read : Nat} (hname : name.writesTask = false) :
    Effect.Lawful ⟨name, read, s.db.task, s.db.task⟩ := by
  refine ⟨fun _ => rfl, fun hn => ?_, fun hn => ?_, fun hn => ?_, fun hx => absurd hx.2 hx.1,
    fun ha => absurd ha.2 ha.1⟩
  all_goals
    rw [hname] at hn
    cases hn

/-! ### Steps -/

/-- What a call has checked of the task that it writes by. -/
def Pc.Checked : Pc → Prop
  | .update name task => name.transition.allowed task.status = true
  | .updateExternalAuth _ task => grantable task.status = true
  | .updateReviewing _ task => markReviewing.allowed task.status = true
  | _ => True

/-- The task that a call holds. -/
def Pc.held : Pc → Option TaskRecord
  | .idle | .get _ | .getExecuting _ | .getReviewing _ => none
  | .update _ task | .updateExternalAuth _ task | .insertUse _ task | .appendOperation _ task | .updateReviewing _ task
  | .listUses _ task | .complete _ task | .block _ task => some task

theorem checkStatus_eq_ok {allowed : TaskStatus → Bool} {refusal : String}
    (h : checkStatus allowed refusal task = .ok ()) : allowed task.status = true := by
  unfold checkStatus at h
  split at h
  case isTrue ha => exact ha
  case isFalse => cases h

theorem checked_of_enterAccept {a : Acceptance} {pc : Pc} (h : enterAccept a task = .ok pc) :
    pc.Checked ∧ (∀ b u, pc ≠ .complete b u) ∧ (pc.held = some task ∨ pc.held = none) := by
  unfold enterAccept at h
  split at h
  · split at h
    · cases h
    · split at h
      · cases h
        exact ⟨trivial, nofun, .inr rfl⟩
      · cases h
        exact ⟨trivial, nofun, .inl rfl⟩
  · obtain ⟨_, -, hpc⟩ := bind_eq_ok.1 h
    cases hpc
    exact ⟨trivial, nofun, .inl rfl⟩

/-- The first read of a call, with what it has checked. -/
theorem checked_of_enter {c : Call} {pc : Pc} (h : enter task c = .ok pc) :
    pc.Checked ∧ (∀ b u, pc ≠ .complete b u) ∧ (pc.held = some task ∨ pc.held = none) := by
  cases c with
  | transition name =>
    obtain ⟨_, hcheck, hpc⟩ := bind_eq_ok.1 h
    cases hpc
    exact ⟨checkStatus_eq_ok hcheck, nofun, .inl rfl⟩
  | grantExternalAuth capabilities =>
    simp only [enter] at h
    split at h
    · cases h
    · obtain ⟨_, hcheck, hpc⟩ := bind_eq_ok.1 h
      cases hpc
      exact ⟨checkStatus_eq_ok hcheck, nofun, .inl rfl⟩
  | recordCapabilityUse capability =>
    obtain ⟨_, -, hpc⟩ := bind_eq_ok.1 h
    cases hpc
    exact ⟨trivial, nofun, .inl rfl⟩
  | authorizeOperation capability operationKind payloadHash =>
    simp only [enter] at h
    split at h
    · cases h
    · split at h
      · cases h
      · split at h
        · cases h
        · obtain ⟨_, -, hpc⟩ := bind_eq_ok.1 h
          cases hpc
          exact ⟨trivial, nofun, .inl rfl⟩
  | accept a => exact checked_of_enterAccept h

/-- What an acceptance has found, of uses that may have grown since. -/
def Pc.Judged (uses : List Capability) : Pc → Prop
  | .complete _ task => ∀ c ∈ uses, isExternalCapability c = true → c ∈ task.externalAuth
  | _ => True

/-- The call is about to write DONE, and nothing has written the task since its read. -/
def Pc.Decides (task : TaskRecord) : Pc → Prop
  | .complete _ read => read.revision = task.revision ∧ task.status = .reviewing
  | _ => False

/-- A read leaves the rows, and the call goes on with a task that it held or has just read. -/
def Reads (s t : State ι) (i : ι) : Prop :=
  ∃ pc : Pc, t = s.goto i pc ∧ pc.Checked ∧ pc.Judged s.db.capabilityUses ∧
    ∀ task ∈ pc.held, task ∈ (s.pc i).held ∨ task = s.db.task

/-- A write by the task that the call held: of a use, or of what leaves the uses; and of DONE where it was decided. -/
structure Commits (s : State ι) (i : ι) (name : EffectName) (task : TaskRecord) (db : Db) : Prop where
  lawful : Effect.Lawful ⟨name, task.revision, s.db.task, db.task⟩
  uses : db.capabilityUses = s.db.capabilityUses ∨ name = .recordCapabilityUse ∧
    ∃ c, s.pc i = .insertUse c task ∧ c ∉ s.db.capabilityUses ∧ db.capabilityUses = s.db.capabilityUses ++ [c]
  done : db.task.status = .done → s.db.task.status ≠ .done →
    (s.pc i).Decides s.db.task ∧ db.task.externalAuth = s.db.task.externalAuth

def Writes (s t : State ι) (i : ι) : Prop :=
  ∃ pc name task db, t = s.write i pc name task db ∧ pc.Checked ∧ pc.held = none ∧ Commits s i name task db

theorem reads_of_held_none (s : State ι) (i : ι) {pc : Pc} (hchecked : pc.Checked) (hheld : pc.held = none) :
    Reads s (s.goto i pc) i := by
  refine ⟨pc, rfl, hchecked, ?_, fun task ht => by cases hheld.symm.trans ht⟩
  cases pc with
  | complete a task => cases hheld
  | _ => trivial

/-- A write of another status than DONE. -/
theorem commits_of_status {name : EffectName} {expectedStatus target : TaskStatus} (htarget : target ≠ .done)
    (h : s.db.updateTaskStatusCas task expectedStatus target = some db)
    (he : Effect.Lawful ⟨name, task.revision, s.db.task, db.task⟩) : Commits s i name task db := by
  obtain ⟨-, -, rfl⟩ := status_of_cas h
  exact ⟨he, .inl rfl, fun hd => absurd hd htarget⟩

theorem target_ne_done (name : TransitionName) : name.transition.target ≠ .done := by
  cases name with
  | _ => decide

theorem next_cases (hchecked : (s.pc i).Checked) (h : next deliverable s i = some t) : Reads s t i ∨ Writes s t i := by
  cases hpc : s.pc i with
  | idle =>
    simp only [next, hpc] at h
    cases h
  | get c =>
    simp only [next, hpc] at h
    obtain ⟨pc, henter, rfl⟩ := Option.map_eq_some_iff.1 h
    have henter : enter s.db.task c = .ok pc := by
      cases he : enter s.db.task c with
      | error e =>
        rw [he] at henter
        cases henter
      | ok pc' =>
        rw [he] at henter
        cases henter
        rfl
    obtain ⟨hpcchecked, hjudged, hheld⟩ := checked_of_enter henter
    refine .inl ⟨pc, rfl, hpcchecked, ?_, fun task ht => .inr ?_⟩
    · cases pc with
      | complete a task => exact absurd rfl (hjudged a task)
      | _ => trivial
    · rcases hheld with hheld | hheld
      · exact (Option.some.inj (hheld.symm.trans ht)).symm
      · cases hheld.symm.trans ht
  | update name task =>
    rw [hpc] at hchecked
    simp only [next, hpc] at h
    obtain ⟨db, hdb, rfl⟩ := Option.map_eq_some_iff.1 h
    exact .inr ⟨_, _, _, _, rfl, trivial, rfl,
      commits_of_status (target_ne_done name) hdb (lawful_transition hchecked hdb)⟩
  | updateExternalAuth capabilities task =>
    rw [hpc] at hchecked
    simp only [next, hpc] at h
    obtain ⟨db, hdb, rfl⟩ := Option.map_eq_some_iff.1 h
    have he := lawful_grant hchecked hdb
    obtain ⟨-, -, rfl⟩ := auth_of_cas hdb
    exact .inr ⟨_, _, _, _, rfl, trivial, rfl, he, .inl rfl, fun hd hn => absurd hd hn⟩
  | insertUse capability task =>
    simp only [next, hpc] at h
    split at h
    case isTrue =>
      cases h
      exact .inl (reads_of_held_none s i trivial rfl)
    case isFalse hnew =>
      cases h
      exact .inr ⟨_, _, _, _, rfl, trivial, rfl, lawful_other rfl, .inr ⟨rfl, capability, hpc, hnew, rfl⟩,
        fun hd hn => absurd hd hn⟩
  | appendOperation operation task =>
    simp only [next, hpc] at h
    cases h
    exact .inr ⟨_, _, _, _, rfl, trivial, rfl, lawful_other rfl, .inl rfl, fun hd hn => absurd hd hn⟩
  | getExecuting a =>
    simp only [next, hpc] at h
    split at h
    case h_1 hcheck =>
      cases h
      exact .inl ⟨_, rfl, checkStatus_eq_ok hcheck, trivial, fun task ht => .inr (Option.some.inj ht).symm⟩
    case h_2 => cases h
  | updateReviewing a task =>
    rw [hpc] at hchecked
    simp only [next, hpc] at h
    obtain ⟨db, hdb, rfl⟩ := Option.map_eq_some_iff.1 h
    have he : Effect.Lawful ⟨.transition .markReviewing, task.revision, s.db.task, db.task⟩ :=
      lawful_transition hchecked hdb
    exact .inr ⟨_, _, _, _, rfl, trivial, rfl, commits_of_status (target_ne_done .markReviewing) hdb he⟩
  | getReviewing a =>
    simp only [next, hpc] at h
    cases h
    exact .inl ⟨_, rfl, trivial, trivial, fun task ht => .inr (Option.some.inj ht).symm⟩
  | listUses a task =>
    simp only [next, hpc] at h
    cases h
    unfold judge
    split
    case isTrue hpassed =>
      exact .inl ⟨_, rfl, trivial, granted_of_passed hpassed, fun u hu => .inl (by rw [hpc]; exact hu)⟩
    case isFalse =>
      split
      · exact .inl ⟨_, rfl, trivial, trivial, fun u hu => .inl (by rw [hpc]; exact hu)⟩
      · exact .inl (reads_of_held_none s i trivial rfl)
  | complete a task =>
    simp only [next, hpc] at h
    obtain ⟨db, hdb, rfl⟩ := Option.map_eq_some_iff.1 h
    obtain ⟨db', hdb', rfl⟩ := Option.map_eq_some_iff.1 hdb
    have he : Effect.Lawful ⟨.accept a.scheduled, task.revision, s.db.task, db'.task⟩ :=
      lawful_status rfl hdb' ⟨nofun, nofun⟩ nofun nofun nofun
    obtain ⟨hrevision, hstatus, rfl⟩ := status_of_cas hdb'
    refine .inr ⟨_, _, _, _, rfl, trivial, rfl, he, .inl rfl, fun _ _ => ⟨?_, rfl⟩⟩
    rw [hpc]
    exact ⟨hrevision.symm, hstatus⟩
  | block a task =>
    simp only [next, hpc] at h
    obtain ⟨db, hdb, rfl⟩ := Option.map_eq_some_iff.1 h
    have htarget : TaskStatus.blocked ≠ .done := nofun
    exact .inr ⟨_, _, _, _, rfl, trivial, rfl,
      commits_of_status htarget hdb (lawful_status rfl hdb ⟨nofun, nofun⟩ nofun nofun nofun)⟩

theorem step_cases {a : Action ι} (hchecked : ∀ i, (s.pc i).Checked) (h : step deliverable s a = some t) :
    ∃ i, Reads s t i ∨ a = .run i ∧ Writes s t i := by
  cases a with
  | call i c =>
    simp only [step] at h
    split at h
    · cases h
      exact ⟨i, .inl (reads_of_held_none s i trivial rfl)⟩
    · cases h
  | run i =>
    have ht : t = (next deliverable s i).getD (s.goto i .idle) := by
      simp only [step] at h
      split at h
      · cases h
      · exact (Option.some.inj h).symm
    cases hnext : next deliverable s i with
    | none =>
      rw [hnext] at ht
      rw [ht]
      exact ⟨i, .inl (reads_of_held_none s i trivial rfl)⟩
    | some u =>
      rw [hnext] at ht
      rw [ht]
      exact ⟨i, (next_cases (hchecked i) hnext).imp_right fun hw => ⟨rfl, hw⟩⟩
  | fail i =>
    simp only [step] at h
    split at h
    · cases h
    · cases h
      exact ⟨i, .inl (reads_of_held_none s i trivial rfl)⟩

/-! ### Runs -/

structure Inv (s : State ι) : Prop where
  checked : ∀ i, (s.pc i).Checked
  confirmed : s.db.task.status = .authorized → Confirmed s.log
  orderly : Orderly s.log
  reads : ∀ r ∈ readRevisions s.log, r < s.db.task.revision
  once : (readRevisions s.log).Nodup

theorem moves_of_reads (h : Reads s t i) : Moves s t := by
  obtain ⟨pc, rfl, -⟩ := h
  exact .inl ⟨rfl, rfl⟩

theorem moves_of_writes (h : Writes s t i) : Moves s t := by
  obtain ⟨pc, name, task, db, rfl, -, -, hcommits⟩ := h
  exact .inr ⟨_, rfl, rfl, rfl, hcommits.lawful⟩

/-- A logged write, on what has been logged. -/
theorem confirmed_cons (hlog : s.db.task.status = .authorized → Confirmed log) (he : e.Lawful)
    (hbefore : e.before = s.db.task) (hstatus : e.after.status = .authorized) : Confirmed (e :: log) := by
  have haligns : ¬ e.Aligns := by
    rintro (⟨-, h⟩ | ⟨-, h⟩)
    · cases h.symm.trans hstatus
    · cases h.symm.trans hstatus
  have htake : (e :: log).takeWhile (fun e => ¬ e.Aligns) = e :: log.takeWhile fun e => ¬ e.Aligns := by
    rw [List.takeWhile_cons, if_pos (decide_eq_true haligns)]
  unfold Confirmed
  rw [htake]
  by_cases hold : e.before.status = .authorized
  · obtain ⟨c, hc, hname⟩ := hlog (hbefore ▸ hold)
    exact ⟨c, List.mem_cons_of_mem _ hc, hname⟩
  · exact ⟨e, List.mem_cons_self, he.authorized ⟨hold, hstatus⟩⟩

theorem readRevisions_cons (h : e.name.writesTask = true) : readRevisions (e :: log) = e.read :: readRevisions log := by
  rw [readRevisions, List.filter_cons_of_pos (p := fun e : Effect => e.name.writesTask) h]
  rfl

theorem readRevisions_skip (h : e.name.writesTask = false) : readRevisions (e :: log) = readRevisions log := by
  have hskip : ¬ e.name.writesTask = true := by
    rw [h]
    exact Bool.false_ne_true
  rw [readRevisions, List.filter_cons_of_neg (p := fun e : Effect => e.name.writesTask) hskip]
  rfl

theorem inv_moves (hI : Inv s) (hchecked : ∀ i, (t.pc i).Checked) (hm : Moves s t) : Inv t := by
  rcases hm with ⟨hlog, htask⟩ | ⟨e, hlog, hbefore, hafter, he⟩
  · refine ⟨hchecked, ?_, ?_, ?_, ?_⟩
    · rw [hlog, htask]
      exact hI.confirmed
    · rw [hlog]
      exact hI.orderly
    · rw [hlog, htask]
      exact hI.reads
    · rw [hlog]
      exact hI.once
  · have horderly : Orderly (e :: s.log) :=
      ⟨fun hx => hI.confirmed (hbefore ▸ he.executing hx), hI.orderly⟩
    refine ⟨hchecked, fun hstatus => ?_, ?_, ?_, ?_⟩
    · rw [hlog]
      exact confirmed_cons hI.confirmed he hbefore (hafter ▸ hstatus)
    · rw [hlog]
      exact horderly
    · rw [hlog, ← hafter]
      cases hname : e.name.writesTask with
      | false =>
        rw [he.keeps hname, hbefore, readRevisions_skip hname]
        exact hI.reads
      | true =>
        obtain ⟨hread, hrevision⟩ := he.raises hname
        rw [readRevisions_cons hname, hrevision, hread, hbefore]
        intro r hr
        rcases List.mem_cons.1 hr with rfl | hr
        · exact Nat.lt_succ_self _
        · exact Nat.lt_succ_of_lt (hI.reads r hr)
    · rw [hlog]
      cases hname : e.name.writesTask with
      | false =>
        rw [readRevisions_skip hname]
        exact hI.once
      | true =>
        obtain ⟨hread, -⟩ := he.raises hname
        rw [readRevisions_cons hname]
        refine List.nodup_cons.2 ⟨fun hmem => ?_, hI.once⟩
        have hlt := hI.reads _ hmem
        rw [hread, hbefore] at hlt
        exact Nat.lt_irrefl _ hlt

theorem checked_goto (hI : ∀ i, (s.pc i).Checked) {pc : Pc} (hpc : pc.Checked) : ∀ j, ((s.goto i pc).pc j).Checked :=
  (Function.forall_update_iff s.pc fun _ pc => pc.Checked).2 ⟨hpc, fun j _ => hI j⟩

theorem inv_step {a : Action ι} (hI : Inv s) (h : step deliverable s a = some t) : Inv t := by
  obtain ⟨i, hr | ⟨-, hw⟩⟩ := step_cases hI.checked h
  · have hm := moves_of_reads hr
    obtain ⟨pc, rfl, hpc, -⟩ := hr
    exact inv_moves hI (checked_goto hI.checked hpc) hm
  · have hm := moves_of_writes hw
    obtain ⟨pc, name, task, db, rfl, hpc, -⟩ := hw
    exact inv_moves hI (checked_goto hI.checked hpc) hm

theorem inv_init (h : Initial s) : Inv s := by
  refine ⟨fun i => ?_, fun hstatus => ?_, ?_, ?_, ?_⟩
  · rw [h.pc i]
    trivial
  · rcases h.status with hs | hs
    · cases hs.symm.trans hstatus
    · cases hs.symm.trans hstatus
  · rw [h.log]
    trivial
  · rw [h.log]
    exact fun r hr => absurd hr List.not_mem_nil
  · rw [h.log]
    exact List.nodup_nil

theorem inv_reach {C : State ι → Action ι → Prop} (h : (tasks deliverable).Reach C s) : Inv s :=
  h.induct (fun _ => inv_init) fun _ _ _ hI _ hstep => inv_step hI hstep

/-- In every run the task is executed only after its confirmation, its final statuses are not left, and of the writes of
the task no two had read the same revision. -/
theorem orchestrated (h : (tasks deliverable).Reach Free s) : Law deliverable s := by
  have hI : Inv s := inv_reach h
  refine ⟨hI.orderly, hI.once, fun a t hstep => ?_⟩
  obtain ⟨i, hr | ⟨-, hw⟩⟩ := step_cases hI.checked hstep
  · exact moves_of_reads hr
  · exact moves_of_writes hw

end Proofs

/-! ### One task -/

def taskOf (status : TaskStatus) : TaskRecord := ⟨status, 1, ["report"], [], [], none, false⟩

def taskState (status : TaskStatus) : State Bool := ⟨⟨taskOf status, [], [], []⟩, fun _ => .idle, []⟩

theorem initial_aligning : Initial (taskState .aligning) := ⟨fun _ => rfl, .inl rfl, rfl, rfl⟩

theorem initial_executing : Initial (taskState .executing) := ⟨fun _ => rfl, .inr rfl, rfl, rfl⟩

/-- A call of one party that nobody interferes with. -/
def alone (i : Bool) (c : Call) : List (Action Bool) := [.call i c, .run i, .run i]

/-- A task is aligned, confirmed and executed. -/
theorem orchestrated_of_confirmed : ∃ s : State Bool, (tasks fun _ _ => true).Reach Free s ∧
    s.db.task.status = .executing ∧ s.db.task.revision = 4 ∧ Law (fun _ _ => true) s := by
  obtain ⟨s, -, hreach, hend⟩ := Machine.reach_of_exec (M := tasks (ι := Bool) fun _ _ => true) (C := Free)
    (s := taskState .aligning) (p := fun s => s.db.task.status = .executing ∧ s.db.task.revision = 4)
    (alone true (.transition .hostProposeGo) ++ alone true (.transition .userConfirmGo) ++
      alone false (.transition .beginExecution)) initial_aligning (by decide)
  obtain ⟨hstatus, hrevision⟩ := of_decide_eq_true hend
  exact ⟨s, hreach, hstatus, hrevision, orchestrated hreach⟩

/-- Two calls record a use each by the revision that both have read, which stays as it was. -/
theorem uses_share_revision : ∃ s : State Bool, (tasks fun _ _ => true).Reach Free s ∧
    s.db.capabilityUses = [.webSearch, .readUploads] ∧ s.log.map Effect.read = [1, 1] ∧
      (∀ e ∈ s.log, e.after.revision = e.before.revision) ∧ ¬ (s.log.map Effect.read).Nodup := by
  obtain ⟨s, -, hreach, hend⟩ := Machine.reach_of_exec (M := tasks (ι := Bool) fun _ _ => true) (C := Free)
    (s := taskState .executing)
    (p := fun s => s.db.capabilityUses = [.webSearch, .readUploads] ∧ s.log.map Effect.read = [1, 1] ∧
      ∀ e ∈ s.log, e.after.revision = e.before.revision)
    [.call false (.recordCapabilityUse .webSearch), .call true (.recordCapabilityUse .readUploads), .run false,
      .run true, .run false, .run true] initial_executing (by decide)
  obtain ⟨huses, hread, hrevision⟩ := of_decide_eq_true hend
  refine ⟨s, hreach, huses, hread, hrevision, ?_⟩
  rw [hread]
  decide

end NexusStudio.TaskOrchestrator
