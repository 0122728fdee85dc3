import NexusStudio.Lib.Machine
import NexusStudio.Workshop.TurnTools
import Mathlib.Data.List.Nodup

/-!
# The roster of a workshop project

Experts on a project's roster, those in its room and on its tasks, and the proposals of experts that the host makes.
Every call of the repository first selects what it needs and then writes; other calls run in between.

* (machine) One step is one statement, or the transaction that ends a call. A call may stop before any of them.
* (roster) The foreign keys know experts and tasks but not that they are of one project. `roster_kept`: they always are,
  since an expert's id is used in one project.
* (tenants) A call only changes rows of the project that it names, and its user owns that project:
  `foreign_rows_kept`.
-/

set_option linter.unusedSectionVars false

namespace NexusStudio.Roster

open Concurrent
open TurnTools (WorkshopExpertKind)

/-! ### Rows -/

structure WorkshopProject where
  id : String
  userId : ℕ
  deriving DecidableEq

structure PresetExpert where
  key : String
  name : String
  kind : WorkshopExpertKind
  deriving DecidableEq

structure RosterExpert where
  id : String
  projectId : String
  name : String
  kind : WorkshopExpertKind
  presetKey : Option String
  sourcePresetKey : Option String
  deriving DecidableEq

inductive WorkshopProposalStatus
  | pending
  | confirmed
  | declined
  deriving DecidableEq

structure ExpertProposal where
  id : String
  projectId : String
  name : String
  kind : WorkshopExpertKind
  sourcePresetKey : Option String
  status : WorkshopProposalStatus
  deriving DecidableEq

structure WorkshopTask where
  id : String
  projectId : String
  deriving DecidableEq

structure RoomMember where
  projectId : String
  expertId : String
  deriving DecidableEq

structure TaskExpert where
  projectId : String
  taskId : String
  expertId : String
  deriving DecidableEq

structure Db where
  projects : List WorkshopProject
  experts : List RosterExpert
  proposals : List ExpertProposal
  tasks : List WorkshopTask
  members : List RoomMember
  assignments : List TaskExpert

/-- `new_id("wp")`: the prefix and 32 digits. -/
def isProjectId (id : String) : Bool := "wp_".toList.isPrefixOf id.toList && id.length == 35

/-- `new_id("re_custom")`. -/
def isCustomId (id : String) : Bool := "re_custom_".toList.isPrefixOf id.toList

section Model

variable (hexdigest : String → String)

/-- `_preset_expert_id`. -/
def presetExpertId (projectId presetKey : String) : String :=
  let candidate := s!"{projectId}_{presetKey}"
  if candidate.length ≤ 64 then candidate
  else
    let suffix := (hexdigest presetKey).toList.take 16
    String.ofList (projectId.toList.take (64 - 1 - suffix.length) ++ '_' :: suffix)

def presetRow (projectId : String) (preset : PresetExpert) : RosterExpert :=
  ⟨presetExpertId hexdigest projectId preset.key, projectId, preset.name, preset.kind, some preset.key, none⟩

/-! ### Statements -/

inductive Raise
  | projectNotFound (projectId : String)
  | expertNotFound (expertId : String)
  | taskNotFound (taskId : String)
  | proposalNotFound (proposalId : String)
  | integrity (constraint : String)
  | doesNotExist
  deriving DecidableEq

namespace Db

variable (db : Db)

def hasProject (projectId : String) : Bool := db.projects.any (·.id = projectId)

def getExpert (projectId expertId : String) : Option RosterExpert :=
  db.experts.find? fun x => x.id = expertId ∧ x.projectId = projectId

def pendingProposal (projectId proposalId : String) : Option ExpertProposal :=
  db.proposals.find? fun q => q.id = proposalId ∧ q.projectId = projectId ∧ q.status = .pending

def insertExpert (x : RosterExpert) : Except Raise Db :=
  if db.experts.any (·.id = x.id) then .error (.integrity "workshop_experts_pkey")
  else if db.experts.any fun y => y.projectId = x.projectId ∧ y.presetKey = x.presetKey ∧ x.presetKey ≠ none then
    .error (.integrity "uk_workshop_experts_project_preset")
  else if db.hasProject x.projectId then .ok { db with experts := db.experts ++ [x] }
  else .error (.integrity "fk_workshop_experts_project")

def insertExperts (rows : List RosterExpert) : Except Raise Db := rows.foldlM insertExpert db

def insertProject (p : WorkshopProject) : Except Raise Db :=
  if db.hasProject p.id then .error (.integrity "workshop_projects_pkey")
  else .ok { db with projects := db.projects ++ [p] }

/-- One transaction. -/
def createProjectWithPresets (p : WorkshopProject) (presets : List PresetExpert) : Except Raise Db := do
  (← db.insertProject p).insertExperts (presets.map (presetRow hexdigest p.id))

def insertProposal (q : ExpertProposal) : Except Raise Db :=
  if db.proposals.any (·.id = q.id) then .error (.integrity "workshop_expert_proposals_pkey")
  else if db.hasProject q.projectId then .ok { db with proposals := db.proposals ++ [q] }
  else .error (.integrity "fk_workshop_expert_proposals_project")

/-- The update of a proposal that must still be pending; no row, no decision. -/
def decidePending (projectId proposalId : String) (status : WorkshopProposalStatus) : Except Raise Db :=
  let pending : ExpertProposal → Bool := fun q => q.id = proposalId ∧ q.projectId = projectId ∧ q.status = .pending
  if db.proposals.countP pending = 1 then
    .ok { db with proposals := db.proposals.map fun q => if pending q then { q with status } else q }
  else .error (.proposalNotFound proposalId)

def insertTask (t : WorkshopTask) : Except Raise Db :=
  if db.tasks.any (·.id = t.id) then .error (.integrity "workshop_tasks_pkey")
  else if db.hasProject t.projectId then .ok { db with tasks := db.tasks ++ [t] }
  else .error (.integrity "fk_workshop_tasks_project")

/-- The unique conflict is a success. -/
def insertMember (m : RoomMember) : Except Raise Db :=
  if m ∈ db.members then .ok db
  else if !db.hasProject m.projectId then .error (.integrity "fk_workshop_room_members_project")
  else if db.experts.any (·.id = m.expertId) then .ok { db with members := db.members ++ [m] }
  else .error (.integrity "fk_workshop_room_members_expert")

/-- The unique conflict, on the task and the expert alone, is a success. -/
def insertAssignment (a : TaskExpert) : Except Raise Db :=
  if db.assignments.any fun b => b.taskId = a.taskId ∧ b.expertId = a.expertId then .ok db
  else if !db.hasProject a.projectId then .error (.integrity "fk_workshop_task_experts_project")
  else if !db.tasks.any (·.id = a.taskId) then .error (.integrity "fk_workshop_task_experts_task")
  else if db.experts.any (·.id = a.expertId) then .ok { db with assignments := db.assignments ++ [a] }
  else .error (.integrity "fk_workshop_task_experts_expert")

/-- The three deletes of `remove_expert`. The last one takes along every row that refers to the expert. -/
def deleteExpert (projectId expertId : String) : Except Raise Db :=
  let row : RosterExpert → Bool := fun x => x.id = expertId ∧ x.projectId = projectId
  if db.experts.countP row = 1 then
    .ok { db with
      experts := db.experts.filter fun x => !row x
      members := db.members.filter (·.expertId ≠ expertId)
      assignments := db.assignments.filter (·.expertId ≠ expertId) }
  else .error (.expertNotFound expertId)

def deleteAssignment (a : TaskExpert) : Db := { db with assignments := db.assignments.filter (· ≠ a) }

end Db

/-! ### Calls -/

inductive Work
  | addCustomExpert (expertId name : String) (kind : WorkshopExpertKind) (sourcePresetKey : Option String)
  | addPresetExpert (preset : PresetExpert)
  | createExpertProposal (proposalId name : String) (kind : WorkshopExpertKind) (sourcePresetKey : Option String)
  | confirmExpertProposal (proposalId expertId : String)
  | declineExpertProposal (proposalId : String)
  | removeExpert (expertId : String)
  | addRoomMember (expertId : String)
  | assignTaskExpert (taskId expertId : String)
  | unassignTaskExpert (taskId expertId : String)
  | createTask (taskId : String)
  deriving DecidableEq

structure Call where
  projectId : String
  userId : ℕ
  work : Work
  deriving DecidableEq

inductive Select
  -- `require_project`
  | project
  | expert (expertId : String)
  | task (taskId : String)
  -- the first select of a confirmation
  | proposal (proposalId : String)
  -- `get_or_none` of `add_preset_expert`
  | preset (expertId : String)
  deriving DecidableEq

/-- The selects of a call in order; `get_expert` and `require_task` begin with the project. -/
def Call.selects (c : Call) : List Select :=
  match c.work with
  | .addCustomExpert .. | .createExpertProposal .. | .declineExpertProposal _ | .createTask _ => [.project]
  | .addPresetExpert preset => [.project, .preset (presetExpertId hexdigest c.projectId preset.key)]
  | .confirmExpertProposal proposalId _ => [.project, .proposal proposalId]
  | .removeExpert expertId | .addRoomMember expertId => [.project, .expert expertId]
  | .assignTaskExpert taskId expertId => [.project, .expert expertId, .project, .task taskId]
  | .unassignTaskExpert taskId _ => [.project, .task taskId]

abbrev Answer := Except Raise (Option RosterExpert)

/-- A select finds the proposal that it is for or nothing of use, or it ends the call. -/
def Db.select (db : Db) (c : Call) : Select → Except Answer (Option ExpertProposal)
  | .project =>
    if ⟨c.projectId, c.userId⟩ ∈ db.projects then .ok none else .error (.error (.projectNotFound c.projectId))
  | .expert expertId =>
    if (db.getExpert c.projectId expertId).isSome then .ok none else .error (.error (.expertNotFound expertId))
  | .task taskId => if ⟨taskId, c.projectId⟩ ∈ db.tasks then .ok none else .error (.error (.taskNotFound taskId))
  | .proposal proposalId =>
    match db.pendingProposal c.projectId proposalId with
    | some q => .ok (some q)
    | none => .error (.error (.proposalNotFound proposalId))
  | .preset expertId =>
    match db.getExpert c.projectId expertId with
    | some x => .error (.ok (some x))
    | none => .ok none

def customRow (c : Call) (expertId name : String) (kind : WorkshopExpertKind) (sourcePresetKey : Option String) :
    RosterExpert :=
  ⟨expertId, c.projectId, name, kind, none, sourcePresetKey⟩

/-- The row that a confirmation makes of the proposal it has read. -/
def confirmedRow (c : Call) (expertId : String) (q : ExpertProposal) : RosterExpert :=
  customRow c expertId q.name q.kind q.sourcePresetKey

/-- The transaction of a confirmation, after its first select. -/
def Db.confirm (db : Db) (c : Call) (proposalId expertId : String) :
    Option ExpertProposal → Except Raise (Db × Option RosterExpert)
  | none => .error (.proposalNotFound proposalId)
  | some q => do
    let x := confirmedRow c expertId q
    return (← (← db.decidePending c.projectId proposalId .confirmed).insertExpert x, some x)

/-- What a call writes in the end, with the row it returns. -/
def Db.write (db : Db) (c : Call) (read : Option ExpertProposal) : Except Raise (Db × Option RosterExpert) :=
  match c.work with
  | .addCustomExpert expertId name kind source =>
    let x := customRow c expertId name kind source
    return (← db.insertExpert x, some x)
  | .addPresetExpert preset =>
    let x := presetRow hexdigest c.projectId preset
    return (← db.insertExpert x, some x)
  | .createExpertProposal proposalId name kind source =>
    return (← db.insertProposal ⟨proposalId, c.projectId, name, kind, source, .pending⟩, none)
  | .confirmExpertProposal proposalId expertId => db.confirm c proposalId expertId read
  | .declineExpertProposal proposalId => return (← db.decidePending c.projectId proposalId .declined, none)
  | .removeExpert expertId => return (← db.deleteExpert c.projectId expertId, none)
  | .addRoomMember expertId => return (← db.insertMember ⟨c.projectId, expertId⟩, none)
  | .assignTaskExpert taskId expertId => return (← db.insertAssignment ⟨c.projectId, taskId, expertId⟩, none)
  | .unassignTaskExpert taskId expertId => return (db.deleteAssignment ⟨c.projectId, taskId, expertId⟩, none)
  | .createTask taskId => return (← db.insertTask ⟨taskId, c.projectId⟩, none)

/-! ### Runs -/

/-- What has become of a proposal: the expert of its confirmation, or none. -/
structure Decision where
  proposalId : String
  expert : Option RosterExpert
  deriving DecidableEq

/-- The decision that a call commits with its row. -/
def Call.decision (c : Call) (row : Option RosterExpert) : List Decision :=
  match c.work with
  | .confirmExpertProposal proposalId _ => [⟨proposalId, row⟩]
  | .declineExpertProposal proposalId => [⟨proposalId, none⟩]
  | _ => []

def Call.removal (c : Call) : List String :=
  match c.work with
  | .removeExpert expertId => [expertId]
  | _ => []

inductive Pc
  | idle
  -- the selects still to come, and the proposal that has been read
  | running (c : Call) (rest : List Select) (read : Option ExpertProposal)
  -- `get` of `add_preset_expert` after a conflict
  | rereads (projectId expertId : String)
  | returned (answer : Answer)
  | dropped
  deriving DecidableEq

structure State (ι : Type) where
  db : Db
  pc : ι → Pc
  -- the decisions and the removals that have been committed
  decisions : List Decision
  removed : List String

inductive Action (ι : Type)
  | create (projectId : String) (userId : ℕ) (presets : List PresetExpert)
  | start (i : ι) (c : Call)
  | next (i : ι)
  | crash (i : ι)
  deriving DecidableEq

/-- A preset whose row is there already is read again; every other error is raised. -/
def Call.afterRaise (c : Call) (e : Raise) : Pc :=
  match c.work, e with
  | .addPresetExpert preset, .integrity _ => .rereads c.projectId (presetExpertId hexdigest c.projectId preset.key)
  | _, _ => .returned (.error e)

def Db.reread (db : Db) (projectId expertId : String) : Answer :=
  match db.getExpert projectId expertId with
  | some x => .ok (some x)
  | none => .error .doesNotExist

variable {ι : Type} [DecidableEq ι]

namespace State

variable (s : State ι)

def setPc (i : ι) (pc : Pc) : State ι := { s with pc := Function.update s.pc i pc }

def selects (i : ι) (c : Call) (sel : Select) (rest : List Select) (read : Option ExpertProposal) : State ι :=
  match s.db.select c sel with
  | .ok found => s.setPc i (.running c rest (found <|> read))
  | .error answer => s.setPc i (.returned answer)

def writes (i : ι) (c : Call) (read : Option ExpertProposal) : State ι :=
  match s.db.write hexdigest c read with
  | .ok (db, row) =>
    ⟨db, Function.update s.pc i (.returned (.ok row)), s.decisions ++ c.decision row, s.removed ++ c.removal⟩
  | .error e => s.setPc i (c.afterRaise hexdigest e)

def creates (p : WorkshopProject) (presets : List PresetExpert) : State ι :=
  match s.db.createProjectWithPresets hexdigest p presets with
  | .ok db => { s with db }
  | .error _ => s

def next (i : ι) : Pc → Option (State ι)
  | .running c (sel :: rest) read => some (s.selects i c sel rest read)
  | .running c [] read => some (s.writes hexdigest i c read)
  | .rereads projectId expertId => some (s.setPc i (.returned (s.db.reread projectId expertId)))
  | .idle | .returned _ | .dropped => none

end State

def step (s : State ι) : Action ι → Option (State ι)
  | .create projectId userId presets => some (s.creates hexdigest ⟨projectId, userId⟩ presets)
  | .start i c => if s.pc i = .idle then some (s.setPc i (.running c (c.selects hexdigest) none)) else none
  | .next i => s.next hexdigest i (s.pc i)
  | .crash i => some (s.setPc i .dropped)

def machine : Machine (State ι) (Action ι) where
  init s := s = ⟨⟨[], [], [], [], [], []⟩, fun _ => .idle, [], []⟩
  step := step hexdigest

/-- The id that a call has drawn for an expert. -/
def Call.newExpertId (c : Call) : Option String :=
  match c.work with
  | .addCustomExpert expertId .. | .confirmExpertProposal _ expertId => some expertId
  | _ => none

/-- Ids are those of `new_id`: a project's is in its form, and an expert's in its form and drawn for one project. -/
def Issued (issued : String → String) : State ι → Action ι → Prop
  | _, .create projectId _ _ => isProjectId projectId
  | _, .start _ c => ∀ expertId ∈ c.newExpertId, isCustomId expertId ∧ issued expertId = c.projectId
  | _, .next _ | _, .crash _ => True

instance (issued : String → String) (s : State ι) (a : Action ι) : Decidable (Issued issued s a) :=
  match a with
  | .create .. => inferInstanceAs (Decidable (_ = true))
  | .start .. => inferInstanceAs (Decidable (∀ expertId ∈ _, _))
  | .next _ | .crash _ => .isTrue trivial

/-! ### Ids -/

/-- The project that an expert's id belongs to. -/
def home (issued : String → String) (expertId : String) : String :=
  if isCustomId expertId then issued expertId else String.ofList (expertId.toList.take 35)

variable {hexdigest} {issued : String → String}

theorem home_custom {expertId : String} (h : isCustomId expertId) : home issued expertId = issued expertId :=
  if_pos h

/-- A preset expert's id begins with its project's. -/
theorem take_presetExpertId {projectId presetKey : String} (h : projectId.length = 35) :
    (presetExpertId hexdigest projectId presetKey).toList.take 35 = projectId.toList := by
  have hlength : projectId.toList.length = 35 := by rw [String.length_toList, h]
  rw [presetExpertId]
  split
  · have htext : (s!"{projectId}_{presetKey}").toList = projectId.toList ++ '_' :: presetKey.toList := by
      simp [toString]
    rw [htext, List.take_append_of_le_length hlength.ge, List.take_of_length_le hlength.le]
  · have hsuffix : ((hexdigest presetKey).toList.take 16).length ≤ 16 := List.length_take_le ..
    rw [String.toList_ofList, List.take_of_length_le (l := projectId.toList) (by omega),
      List.take_append_of_le_length hlength.ge, List.take_of_length_le hlength.le]

theorem home_preset {projectId presetKey : String} (h : isProjectId projectId) :
    home issued (presetExpertId hexdigest projectId presetKey) = projectId := by
  rw [isProjectId, Bool.and_eq_true, beq_iff_eq] at h
  obtain ⟨hstart, hlength⟩ := h
  have htake : (presetExpertId hexdigest projectId presetKey).toList.take 35 = projectId.toList :=
    take_presetExpertId hlength
  have hnot : isCustomId (presetExpertId hexdigest projectId presetKey) = false := by
    rw [← Bool.not_eq_true, isCustomId, List.isPrefixOf_iff_prefix]
    rintro ⟨t, ht⟩
    obtain ⟨u, hu⟩ := List.isPrefixOf_iff_prefix.1 hstart
    rw [← ht, ← hu] at htake
    simp at htake
  rw [home, hnot, if_neg Bool.false_ne_true, htake, String.ofList_toList]

/-! ### The roster -/

def Db.OnRoster (db : Db) (projectId expertId : String) : Prop :=
  ∃ x ∈ db.experts, x.id = expertId ∧ x.projectId = projectId

/-- The room and the tasks hold experts of their project's roster, each once, and no preset is on a roster twice. -/
structure Db.Kept (db : Db) : Prop where
  members : ∀ m ∈ db.members, db.OnRoster m.projectId m.expertId
  assignments : ∀ a ∈ db.assignments, db.OnRoster a.projectId a.expertId ∧ ⟨a.taskId, a.projectId⟩ ∈ db.tasks
  ids : (db.experts.map RosterExpert.id).Nodup
  presets : db.experts.Pairwise fun x y => x.projectId = y.projectId → x.presetKey = y.presetKey → x.presetKey = none
  room : db.members.Nodup
  seats : (db.assignments.map fun a => (a.taskId, a.expertId)).Nodup

structure Db.Inv (issued : String → String) (db : Db) : Prop where
  projectIds : ∀ p ∈ db.projects, isProjectId p.id
  projectKeys : (db.projects.map WorkshopProject.id).Nodup
  homes : ∀ x ∈ db.experts, home issued x.id = x.projectId
  kept : db.Kept

/-- The rows of a project. -/
def Db.rows (db : Db) (q : String) : Db where
  projects := db.projects.filter (·.id = q)
  experts := db.experts.filter (·.projectId = q)
  proposals := db.proposals.filter (·.projectId = q)
  tasks := db.tasks.filter (·.projectId = q)
  members := db.members.filter (·.projectId = q)
  assignments := db.assignments.filter (·.projectId = q)

/-- A change of one project's rows, in which no project and no task is lost. -/
structure Db.Within (db db' : Db) (projectId : String) : Prop where
  projects : db.projects ⊆ db'.projects
  tasks : db.tasks ⊆ db'.tasks
  rows : ∀ q, q ≠ projectId → db'.rows q = db.rows q

variable {db db' : Db}

theorem Db.Within.refl (db : Db) (projectId : String) : db.Within db projectId :=
  ⟨fun _ h => h, fun _ h => h, fun _ _ => rfl⟩

theorem Db.Within.trans {db'' : Db} {projectId : String} (h : db.Within db' projectId)
    (h' : db'.Within db'' projectId) : db.Within db'' projectId :=
  ⟨fun _ hx => h'.projects (h.projects hx), fun _ hx => h'.tasks (h.tasks hx),
    fun q hq => by rw [h'.rows q hq, h.rows q hq]⟩

theorem Db.OnRoster.mono {projectId expertId : String} (h : db.OnRoster projectId expertId)
    (hexperts : db.experts ⊆ db'.experts) : db'.OnRoster projectId expertId := by
  obtain ⟨x, hx, hrow⟩ := h
  exact ⟨x, hexperts hx, hrow⟩

theorem hasProject_iff {projectId : String} : db.hasProject projectId = true ↔ ∃ p ∈ db.projects, p.id = projectId := by
  simp [Db.hasProject]

theorem insertExpert_ok {x : RosterExpert} (h : db.insertExpert x = .ok db') :
    (∀ y ∈ db.experts, y.id ≠ x.id) ∧
      (∀ y ∈ db.experts, y.projectId = x.projectId → y.presetKey = x.presetKey → x.presetKey = none) ∧
      db.hasProject x.projectId ∧ db' = { db with experts := db.experts ++ [x] } := by
  rw [Db.insertExpert] at h
  split at h
  · cases h
  · next hid =>
    split at h
    · cases h
    · next hpreset =>
      split at h
      · next hproject =>
        cases h
        simp only [List.any_eq_true, decide_eq_true_eq, not_exists, not_and, not_not] at hid hpreset
        exact ⟨hid, hpreset, hproject, rfl⟩
      · cases h

theorem insertExpert_spec {x : RosterExpert} (hdb : db.Inv issued) (hhome : home issued x.id = x.projectId)
    (h : db.insertExpert x = .ok db') : db'.Inv issued ∧ db.Within db' x.projectId := by
  obtain ⟨hid, hpreset, -, rfl⟩ := insertExpert_ok h
  have hexperts : db.experts ⊆ db.experts ++ [x] := List.subset_append_left ..
  refine ⟨⟨hdb.projectIds, hdb.projectKeys, ?_, ?_⟩, fun _ hy => hy, fun _ hy => hy, fun q hq => ?_⟩
  · intro y hy
    rcases List.mem_append.1 hy with hy | hy
    · exact hdb.homes y hy
    · rw [List.mem_singleton.1 hy]
      exact hhome
  · refine ⟨fun m hm => (hdb.kept.members m hm).mono hexperts,
      fun a ha => ⟨(hdb.kept.assignments a ha).1.mono hexperts, (hdb.kept.assignments a ha).2⟩, ?_, ?_,
      hdb.kept.room, hdb.kept.seats⟩
    · rw [List.map_append, List.nodup_append]
      refine ⟨hdb.kept.ids, List.nodup_singleton _, fun id hmem id' hmem' => ?_⟩
      obtain ⟨y, hy, rfl⟩ := List.mem_map.1 hmem
      rw [List.map_singleton, List.mem_singleton] at hmem'
      rw [hmem']
      exact hid y hy
    · rw [List.pairwise_append]
      refine ⟨hdb.kept.presets, List.pairwise_singleton _ _, fun y hy z hz hproject hkey => ?_⟩
      rw [List.mem_singleton.1 hz] at hproject hkey
      rw [hkey]
      exact hpreset y hy hproject hkey
  · simp [Db.rows, hq.symm]

/-- Proposals are outside what is kept. -/
theorem Db.Inv.withProposals (hdb : db.Inv issued) (proposals : List ExpertProposal) :
    ({ db with proposals } : Db).Inv issued :=
  ⟨hdb.projectIds, hdb.projectKeys, hdb.homes, hdb.kept.members, hdb.kept.assignments, hdb.kept.ids,
    hdb.kept.presets, hdb.kept.room, hdb.kept.seats⟩

theorem insertProposal_spec {q : ExpertProposal} (hdb : db.Inv issued) (h : db.insertProposal q = .ok db') :
    db'.Inv issued ∧ db.Within db' q.projectId := by
  rw [Db.insertProposal] at h
  split at h
  · cases h
  · split at h
    · cases h
      refine ⟨hdb.withProposals _, fun _ hy => hy, fun _ hy => hy, fun p hp => ?_⟩
      simp [Db.rows, hp.symm]
    · cases h

theorem filter_map_of_kept {α : Type} {f : α → α} {p : α → Bool} (h : ∀ a, p a = true → f a = a)
    (hback : ∀ a, p (f a) = true → p a = true) (l : List α) : (l.map f).filter p = l.filter p := by
  induction l with
  | nil => rfl
  | cons a l ih =>
    rw [List.map_cons, List.filter_cons, List.filter_cons, ih]
    by_cases ha : p a = true
    · rw [h a ha]
    · rw [if_neg fun hfa => ha (hback a hfa), if_neg ha]

theorem decidePending_spec {projectId proposalId : String} {status : WorkshopProposalStatus} (hdb : db.Inv issued)
    (h : db.decidePending projectId proposalId status = .ok db') : db'.Inv issued ∧ db.Within db' projectId := by
  rw [Db.decidePending] at h
  split at h
  · cases h
    refine ⟨hdb.withProposals _, fun _ hy => hy, fun _ hy => hy, fun q hq => ?_⟩
    have hproposals := filter_map_of_kept (l := db.proposals) (p := fun r => decide (r.projectId = q))
      (f := fun r => if decide (r.id = proposalId ∧ r.projectId = projectId ∧ r.status = .pending) = true
        then { r with status } else r)
      (fun r hr => if_neg fun hpending => hq
        ((of_decide_eq_true hr).symm.trans (of_decide_eq_true hpending).2.1))
      (fun r hr => by
        split at hr
        · exact hr
        · exact hr)
    simp only [Db.rows, hproposals]
  · cases h

theorem insertTask_spec {t : WorkshopTask} (hdb : db.Inv issued) (h : db.insertTask t = .ok db') :
    db'.Inv issued ∧ db.Within db' t.projectId := by
  rw [Db.insertTask] at h
  split at h
  · cases h
  · split at h
    · cases h
      have htasks : db.tasks ⊆ db.tasks ++ [t] := List.subset_append_left ..
      refine ⟨⟨hdb.projectIds, hdb.projectKeys, hdb.homes, ?_⟩, fun _ hy => hy, htasks, fun p hp => ?_⟩
      · exact ⟨hdb.kept.members, fun a ha => ⟨(hdb.kept.assignments a ha).1, htasks (hdb.kept.assignments a ha).2⟩,
          hdb.kept.ids, hdb.kept.presets, hdb.kept.room, hdb.kept.seats⟩
      · simp [Db.rows, hp.symm]
    · cases h

/-- An expert that is there is on the roster of the project that its id belongs to. -/
theorem onRoster_of_home {projectId expertId : String} (hdb : db.Inv issued) (hhome : home issued expertId = projectId)
    (h : db.experts.any (·.id = expertId) = true) : db.OnRoster projectId expertId := by
  obtain ⟨x, hx, hid⟩ := List.any_eq_true.1 h
  have hid : x.id = expertId := of_decide_eq_true hid
  exact ⟨x, hx, hid, by rw [← hdb.homes x hx, hid, hhome]⟩

theorem insertMember_spec {m : RoomMember} (hdb : db.Inv issued) (hhome : home issued m.expertId = m.projectId)
    (h : db.insertMember m = .ok db') : db'.Inv issued ∧ db.Within db' m.projectId := by
  rw [Db.insertMember] at h
  split at h
  · cases h
    exact ⟨hdb, .refl ..⟩
  · next hnew =>
    split at h
    · cases h
    · split at h
      · next hexpert =>
        cases h
        refine ⟨⟨hdb.projectIds, hdb.projectKeys, hdb.homes, ?_⟩, fun _ hy => hy, fun _ hy => hy, fun p hp => ?_⟩
        · refine ⟨fun n hn => ?_, hdb.kept.assignments, hdb.kept.ids, hdb.kept.presets, ?_, hdb.kept.seats⟩
          · rcases List.mem_append.1 hn with hn | hn
            · exact hdb.kept.members n hn
            · rw [List.mem_singleton.1 hn]
              exact (onRoster_of_home hdb hhome hexpert).mono fun _ hx => hx
          · exact List.nodup_append.2 ⟨hdb.kept.room, List.nodup_singleton m, fun n hn n' hn' heq =>
              hnew (List.mem_singleton.1 hn' ▸ heq ▸ hn)⟩
        · simp [Db.rows, hp.symm]
      · cases h

theorem insertAssignment_spec {a : TaskExpert} (hdb : db.Inv issued) (hhome : home issued a.expertId = a.projectId)
    (htask : ⟨a.taskId, a.projectId⟩ ∈ db.tasks) (h : db.insertAssignment a = .ok db') :
    db'.Inv issued ∧ db.Within db' a.projectId := by
  rw [Db.insertAssignment] at h
  split at h
  · cases h
    exact ⟨hdb, .refl ..⟩
  · next hnew =>
    split at h
    · cases h
    · split at h
      · cases h
      · split at h
        · next hexpert =>
          cases h
          refine ⟨⟨hdb.projectIds, hdb.projectKeys, hdb.homes, ?_⟩, fun _ hy => hy, fun _ hy => hy, fun p hp => ?_⟩
          · refine ⟨hdb.kept.members, fun b hb => ?_, hdb.kept.ids, hdb.kept.presets, hdb.kept.room, ?_⟩
            · rcases List.mem_append.1 hb with hb | hb
              · exact hdb.kept.assignments b hb
              · rw [List.mem_singleton.1 hb]
                exact ⟨(onRoster_of_home hdb hhome hexpert).mono fun _ hx => hx, htask⟩
            · rw [List.map_append, List.nodup_append]
              refine ⟨hdb.kept.seats, List.nodup_singleton _, fun seat hseat seat' hseat' => ?_⟩
              obtain ⟨b, hb, rfl⟩ := List.mem_map.1 hseat
              rw [List.map_singleton, List.mem_singleton] at hseat'
              rintro rfl
              obtain ⟨htaskId, hexpertId⟩ := Prod.mk.inj hseat'
              exact hnew (List.any_eq_true.2 ⟨b, hb, decide_eq_true ⟨htaskId, hexpertId⟩⟩)
          · simp [Db.rows, hp.symm]
        · cases h

/-- A deletion that leaves alone what is selected. -/
theorem filter_filter_of_imp {α : Type} {p q : α → Bool} {l : List α} (h : ∀ a ∈ l, q a = true → p a = true) :
    (l.filter p).filter q = l.filter q := by
  rw [List.filter_filter]
  refine List.filter_congr fun a ha => ?_
  cases hq : q a with
  | false => rfl
  | true => rw [h a ha hq, Bool.and_self]

/-- Other experts stay on their rosters. -/
theorem Db.OnRoster.of_delete {projectId expertId p e : String} (h : db.OnRoster p e) (hne : e ≠ expertId) :
    ∃ x ∈ db.experts.filter (fun x => !decide (x.id = expertId ∧ x.projectId = projectId)),
      x.id = e ∧ x.projectId = p := by
  obtain ⟨x, hx, hid, hproject⟩ := h
  refine ⟨x, List.mem_filter.2 ⟨hx, ?_⟩, hid, hproject⟩
  rw [Bool.not_eq_true', decide_eq_false_iff_not]
  exact fun hrow => hne (hid ▸ hrow.1)

theorem deleteExpert_spec {projectId expertId : String} (hdb : db.Inv issued)
    (h : db.deleteExpert projectId expertId = .ok db') : db'.Inv issued ∧ db.Within db' projectId := by
  rw [Db.deleteExpert] at h
  split at h
  · next hcount =>
    cases h
    -- the expert is on no other roster, so that what refers to it is in the project
    have hproject : ∀ q, db.OnRoster q expertId → q = projectId := by
      rintro q ⟨x, hx, hid, rfl⟩
      obtain ⟨y, hy, hrow⟩ := List.countP_pos_iff.1 (hcount ▸ Nat.one_pos)
      obtain ⟨hid', hproject⟩ := of_decide_eq_true hrow
      rw [← hdb.homes x hx, ← hproject, ← hdb.homes y hy, hid, hid']
    refine ⟨⟨hdb.projectIds, hdb.projectKeys, fun x hx => hdb.homes x (List.mem_filter.1 hx).1, ?_⟩,
      fun _ hy => hy, fun _ hy => hy, fun q hq => ?_⟩
    · refine ⟨fun m hm => ?_, fun a ha => ?_, ?_, ?_, ?_, ?_⟩
      · obtain ⟨hm, hne⟩ := List.mem_filter.1 hm
        exact (hdb.kept.members m hm).of_delete (of_decide_eq_true hne)
      · obtain ⟨ha, hne⟩ := List.mem_filter.1 ha
        exact ⟨(hdb.kept.assignments a ha).1.of_delete (of_decide_eq_true hne), (hdb.kept.assignments a ha).2⟩
      · exact hdb.kept.ids.sublist (List.filter_sublist.map _)
      · exact hdb.kept.presets.sublist List.filter_sublist
      · exact hdb.kept.room.sublist List.filter_sublist
      · exact hdb.kept.seats.sublist (List.filter_sublist.map _)
    · have hexperts : (db.experts.filter fun x => !decide (x.id = expertId ∧ x.projectId = projectId)).filter
          (·.projectId = q) = db.experts.filter (·.projectId = q) := by
        refine filter_filter_of_imp fun x _ hx => ?_
        rw [Bool.not_eq_true', decide_eq_false_iff_not]
        exact fun hrow => hq ((of_decide_eq_true hx).symm.trans hrow.2)
      have hmembers : (db.members.filter (·.expertId ≠ expertId)).filter (·.projectId = q) =
          db.members.filter (·.projectId = q) := by
        refine filter_filter_of_imp fun m hm hm' => decide_eq_true fun he => ?_
        have hrow : m.projectId = projectId := hproject m.projectId (he ▸ hdb.kept.members m hm)
        exact hq ((of_decide_eq_true hm').symm.trans hrow)
      have hassignments : (db.assignments.filter (·.expertId ≠ expertId)).filter (·.projectId = q) =
          db.assignments.filter (·.projectId = q) := by
        refine filter_filter_of_imp fun a ha ha' => decide_eq_true fun he => ?_
        have hrow : a.projectId = projectId := hproject a.projectId (he ▸ (hdb.kept.assignments a ha).1)
        exact hq ((of_decide_eq_true ha').symm.trans hrow)
      simp only [Db.rows, hexperts, hmembers, hassignments]
  · cases h

theorem deleteAssignment_spec (a : TaskExpert) (hdb : db.Inv issued) :
    (db.deleteAssignment a).Inv issued ∧ db.Within (db.deleteAssignment a) a.projectId := by
  refine ⟨⟨hdb.projectIds, hdb.projectKeys, hdb.homes, ?_⟩, fun _ hy => hy, fun _ hy => hy, fun q hq => ?_⟩
  · exact ⟨hdb.kept.members, fun b hb => hdb.kept.assignments b (List.mem_filter.1 hb).1, hdb.kept.ids,
      hdb.kept.presets, hdb.kept.room, hdb.kept.seats.sublist (List.filter_sublist.map _)⟩
  · have hassignments : (db.assignments.filter (· ≠ a)).filter (·.projectId = q) =
        db.assignments.filter (·.projectId = q) := by
      refine filter_filter_of_imp fun b _ hb => decide_eq_true fun hba => ?_
      exact hq ((of_decide_eq_true hb).symm.trans (congrArg TaskExpert.projectId hba))
    simp only [Db.rows, Db.deleteAssignment, hassignments]

theorem insertExperts_spec {projectId : String} (hproject : isProjectId projectId) (presets : List PresetExpert)
    (hdb : db.Inv issued) (h : db.insertExperts (presets.map (presetRow hexdigest projectId)) = .ok db') :
    db'.Inv issued ∧ db.Within db' projectId := by
  induction presets generalizing db with
  | nil =>
    cases h
    exact ⟨hdb, .refl ..⟩
  | cons preset presets ih =>
    rw [List.map_cons, Db.insertExperts, List.foldlM_cons] at h
    cases hx : db.insertExpert (presetRow hexdigest projectId preset) with
    | error e =>
      rw [hx] at h
      cases h
    | ok db₁ =>
      rw [hx] at h
      have hhome : home issued (presetRow hexdigest projectId preset).id = projectId := home_preset hproject
      obtain ⟨hdb₁, hwithin⟩ := insertExpert_spec hdb hhome hx
      obtain ⟨hdb', hwithin'⟩ := ih hdb₁ h
      exact ⟨hdb', hwithin.trans hwithin'⟩

theorem insertProject_spec {p : WorkshopProject} (hproject : isProjectId p.id) (hdb : db.Inv issued)
    (h : db.insertProject p = .ok db') : db'.Inv issued ∧ db.Within db' p.id ∧ db.hasProject p.id = false := by
  rw [Db.insertProject] at h
  split at h
  · cases h
  · next hnew =>
    cases h
    have hprojects : db.projects ⊆ db.projects ++ [p] := List.subset_append_left ..
    refine ⟨⟨fun r hr => ?_, ?_, hdb.homes, ?_⟩, ⟨hprojects, fun _ hy => hy, fun q hq => ?_⟩, Bool.eq_false_iff.2 hnew⟩
    · rcases List.mem_append.1 hr with hr | hr
      · exact hdb.projectIds r hr
      · rw [List.mem_singleton.1 hr]
        exact hproject
    · rw [List.map_append, List.nodup_append]
      refine ⟨hdb.projectKeys, List.nodup_singleton _, fun id hid id' hid' => ?_⟩
      obtain ⟨r, hr, rfl⟩ := List.mem_map.1 hid
      rw [List.map_singleton, List.mem_singleton] at hid'
      rintro rfl
      exact hnew (hasProject_iff.2 ⟨r, hr, hid'⟩)
    · exact ⟨hdb.kept.members, hdb.kept.assignments, hdb.kept.ids, hdb.kept.presets, hdb.kept.room, hdb.kept.seats⟩
    · simp [Db.rows, hq.symm]

theorem createProject_spec {p : WorkshopProject} (hproject : isProjectId p.id) {presets : List PresetExpert}
    (hdb : db.Inv issued) (h : db.createProjectWithPresets hexdigest p presets = .ok db') :
    db'.Inv issued ∧ db.Within db' p.id ∧ db.hasProject p.id = false := by
  rw [Db.createProjectWithPresets] at h
  cases hinsert : db.insertProject p with
  | error e =>
    rw [hinsert] at h
    cases h
  | ok db₁ =>
    rw [hinsert] at h
    obtain ⟨hdb₁, hwithin, hnew⟩ := insertProject_spec hproject hdb hinsert
    obtain ⟨hdb', hwithin'⟩ := insertExperts_spec hproject presets hdb₁ h
    exact ⟨hdb', hwithin.trans hwithin', hnew⟩

/-! ### Calls and runs -/

/-- What a select that a call has passed says from then on. -/
def Held (issued : String → String) (db : Db) (c : Call) : Select → Prop
  | .project => ⟨c.projectId, c.userId⟩ ∈ db.projects
  | .expert expertId => home issued expertId = c.projectId
  | .task taskId => ⟨taskId, c.projectId⟩ ∈ db.tasks
  | .proposal _ | .preset _ => True

/-- A call that runs: of its selects those that are not to come have been passed. -/
structure Running (hexdigest issued : String → String) (db : Db) (c : Call) (rest : List Select) : Prop where
  ids : ∀ expertId ∈ c.newExpertId, isCustomId expertId ∧ issued expertId = c.projectId
  held : ∀ sel ∈ c.selects hexdigest, sel ∈ rest ∨ Held issued db c sel

variable {c : Call} {rest : List Select} {read found : Option ExpertProposal}

theorem Held.mono {sel : Select} (h : Held issued db c sel) (hprojects : db.projects ⊆ db'.projects)
    (htasks : db.tasks ⊆ db'.tasks) : Held issued db' c sel := by
  cases sel with
  | project => exact hprojects h
  | expert expertId => exact h
  | task taskId => exact htasks h
  | proposal proposalId => exact h
  | preset expertId => exact h

theorem Running.mono (h : Running hexdigest issued db c rest) (hprojects : db.projects ⊆ db'.projects)
    (htasks : db.tasks ⊆ db'.tasks) : Running hexdigest issued db' c rest :=
  ⟨h.ids, fun sel hsel => (h.held sel hsel).imp_right fun hheld => hheld.mono hprojects htasks⟩

theorem Running.of_done (h : Running hexdigest issued db c []) {sel : Select} (hsel : sel ∈ c.selects hexdigest) :
    Held issued db c sel :=
  (h.held sel hsel).resolve_left List.not_mem_nil

theorem project_mem_selects (c : Call) : Select.project ∈ c.selects hexdigest := by
  rw [Call.selects]
  split <;> exact List.mem_cons_self

theorem of_getExpert {projectId expertId : String} {x : RosterExpert} (h : db.getExpert projectId expertId = some x) :
    x ∈ db.experts ∧ x.id = expertId ∧ x.projectId = projectId := by
  rw [Db.getExpert] at h
  have hrow := List.find?_some h
  exact ⟨List.mem_of_find?_eq_some h, of_decide_eq_true hrow⟩

theorem held_of_select {sel : Select} (hdb : db.Inv issued) (h : db.select c sel = .ok found) :
    Held issued db c sel := by
  cases sel with
  | project =>
    rw [Db.select] at h
    split at h
    · assumption
    · cases h
  | expert expertId =>
    rw [Db.select] at h
    split at h
    · next hsome =>
      obtain ⟨x, hx⟩ := Option.isSome_iff_exists.1 hsome
      obtain ⟨hmem, hid, hproject⟩ := of_getExpert hx
      rw [Held, ← hid, hdb.homes x hmem, hproject]
    · cases h
  | task taskId =>
    rw [Db.select] at h
    split at h
    · assumption
    · cases h
  | proposal proposalId => trivial
  | preset expertId => trivial

theorem of_bind_pure {m : Except Raise Db} {r row : Option RosterExpert}
    (h : (do return (← m, r)) = Except.ok (db', row)) : m = .ok db' ∧ row = r := by
  cases m with
  | error e => cases h
  | ok db₁ =>
    cases h
    exact ⟨rfl, rfl⟩

theorem confirm_ok {proposalId expertId : String} {row : Option RosterExpert}
    (h : db.confirm c proposalId expertId read = .ok (db', row)) :
    ∃ q db₁, read = some q ∧ db.decidePending c.projectId proposalId .confirmed = .ok db₁ ∧
      db₁.insertExpert (confirmedRow c expertId q) = .ok db' ∧ row = some (confirmedRow c expertId q) := by
  cases read with
  | none => cases h
  | some q =>
    rw [Db.confirm] at h
    cases hdecide : db.decidePending c.projectId proposalId .confirmed with
    | error e =>
      rw [hdecide] at h
      cases h
    | ok db₁ =>
      rw [hdecide] at h
      obtain ⟨hx, hrow⟩ := of_bind_pure h
      exact ⟨q, db₁, rfl, rfl, hx, hrow⟩

/-- What a call writes stays in its project and keeps the tables in order. -/
theorem write_spec {row : Option RosterExpert} (hdb : db.Inv issued) (hrun : Running hexdigest issued db c [])
    (h : db.write hexdigest c read = .ok (db', row)) : db'.Inv issued ∧ db.Within db' c.projectId := by
  have hcustom : ∀ expertId ∈ c.newExpertId, home issued expertId = c.projectId := by
    intro expertId hnew
    obtain ⟨hid, hissued⟩ := hrun.ids expertId hnew
    rw [home_custom hid, hissued]
  have hproject : isProjectId c.projectId := hdb.projectIds _ (hrun.of_done (project_mem_selects c))
  have hselect : ∀ sel ∈ c.selects hexdigest, Held issued db c sel := fun sel => hrun.of_done
  cases hwork : c.work with
  | addCustomExpert expertId name kind source =>
    rw [Db.write, hwork] at h
    obtain ⟨hx, -⟩ := of_bind_pure h
    exact insertExpert_spec hdb (hcustom expertId (by rw [Call.newExpertId, hwork]; rfl)) hx
  | addPresetExpert preset =>
    rw [Db.write, hwork] at h
    obtain ⟨hx, -⟩ := of_bind_pure h
    have hhome : home issued (presetRow hexdigest c.projectId preset).id = c.projectId := home_preset hproject
    exact insertExpert_spec hdb hhome hx
  | createExpertProposal proposalId name kind source =>
    rw [Db.write, hwork] at h
    obtain ⟨hq, -⟩ := of_bind_pure h
    exact insertProposal_spec hdb hq
  | confirmExpertProposal proposalId expertId =>
    rw [Db.write, hwork] at h
    obtain ⟨q, db₁, -, hdecide, hx, -⟩ := confirm_ok h
    obtain ⟨hdb₁, hwithin⟩ := decidePending_spec hdb hdecide
    have hhome : home issued (confirmedRow c expertId q).id = c.projectId :=
      hcustom expertId (by rw [Call.newExpertId, hwork]; rfl)
    obtain ⟨hdb', hwithin'⟩ := insertExpert_spec hdb₁ hhome hx
    exact ⟨hdb', hwithin.trans hwithin'⟩
  | declineExpertProposal proposalId =>
    rw [Db.write, hwork] at h
    obtain ⟨hdecide, -⟩ := of_bind_pure h
    exact decidePending_spec hdb hdecide
  | removeExpert expertId =>
    rw [Db.write, hwork] at h
    obtain ⟨hdelete, -⟩ := of_bind_pure h
    exact deleteExpert_spec hdb hdelete
  | addRoomMember expertId =>
    rw [Db.write, hwork] at h
    obtain ⟨hinsert, -⟩ := of_bind_pure h
    have hhome : Held issued db c (.expert expertId) := hselect _ (by rw [Call.selects, hwork]; simp)
    exact insertMember_spec (m := ⟨c.projectId, expertId⟩) hdb hhome hinsert
  | assignTaskExpert taskId expertId =>
    rw [Db.write, hwork] at h
    obtain ⟨hinsert, -⟩ := of_bind_pure h
    have hhome : Held issued db c (.expert expertId) := hselect _ (by rw [Call.selects, hwork]; simp)
    have htask : Held issued db c (.task taskId) := hselect _ (by rw [Call.selects, hwork]; simp)
    exact insertAssignment_spec (a := ⟨c.projectId, taskId, expertId⟩) hdb hhome htask hinsert
  | unassignTaskExpert taskId expertId =>
    rw [Db.write, hwork] at h
    cases h
    exact deleteAssignment_spec ⟨c.projectId, taskId, expertId⟩ hdb
  | createTask taskId =>
    rw [Db.write, hwork] at h
    obtain ⟨hinsert, -⟩ := of_bind_pure h
    exact insertTask_spec (t := ⟨taskId, c.projectId⟩) hdb hinsert

structure Inv (hexdigest issued : String → String) (s : State ι) : Prop where
  db : s.db.Inv issued
  running : ∀ i c rest read, s.pc i = .running c rest read → Running hexdigest issued s.db c rest

variable {s t : State ι} {i : ι}

/-- A step of one call over a change of the tables. -/
theorem Inv.advance (h : Inv hexdigest issued s) {pc : Pc} (decisions : List Decision) (removed : List String)
    (hdb : db'.Inv issued) (hprojects : s.db.projects ⊆ db'.projects) (htasks : s.db.tasks ⊆ db'.tasks)
    (hpc : ∀ c rest read, pc = .running c rest read → Running hexdigest issued db' c rest) :
    Inv hexdigest issued ⟨db', Function.update s.pc i pc, decisions, removed⟩ := by
  refine ⟨hdb, fun j c rest read hj => ?_⟩
  dsimp only at hj
  by_cases hji : j = i
  · rw [hji, Function.update_self] at hj
    exact hpc c rest read hj
  · rw [Function.update_of_ne hji] at hj
    exact (h.running j c rest read hj).mono hprojects htasks

theorem Inv.setPc (h : Inv hexdigest issued s) {pc : Pc}
    (hpc : ∀ c rest read, pc = .running c rest read → Running hexdigest issued s.db c rest) :
    Inv hexdigest issued (s.setPc i pc) :=
  h.advance s.decisions s.removed h.db (fun _ hx => hx) (fun _ hx => hx) hpc

theorem afterRaise_ne {c' : Call} (e : Raise) : c.afterRaise hexdigest e ≠ .running c' rest read := by
  unfold Call.afterRaise
  split <;> exact Pc.noConfusion

theorem Inv.selects {sel : Select} (h : Inv hexdigest issued s) (hpc : s.pc i = .running c (sel :: rest) read) :
    Inv hexdigest issued (s.selects i c sel rest read) := by
  rw [State.selects]
  split
  · next found hfound =>
    refine h.setPc fun c' rest' read' heq => ?_
    cases heq
    have hrun := h.running i c (sel :: rest) read hpc
    refine ⟨hrun.ids, fun sel' hsel' => ?_⟩
    rcases hrun.held sel' hsel' with hmem | hheld
    · rcases List.mem_cons.1 hmem with rfl | hrest
      · exact .inr (held_of_select h.db hfound)
      · exact .inl hrest
    · exact .inr hheld
  · exact h.setPc fun _ _ _ heq => by cases heq

theorem Inv.writes (h : Inv hexdigest issued s) (hpc : s.pc i = .running c [] read) :
    Inv hexdigest issued (s.writes hexdigest i c read) := by
  rw [State.writes]
  split
  · next db row hwrite =>
    obtain ⟨hdb, hwithin⟩ := write_spec h.db (h.running i c [] read hpc) hwrite
    exact h.advance _ _ hdb hwithin.projects hwithin.tasks fun _ _ _ heq => by cases heq
  · next e _ => exact h.setPc fun _ _ _ heq => absurd heq (afterRaise_ne e)

theorem Inv.creates (h : Inv hexdigest issued s) {p : WorkshopProject} (hproject : isProjectId p.id)
    (presets : List PresetExpert) : Inv hexdigest issued (s.creates hexdigest p presets) := by
  rw [State.creates]
  split
  · next db hcreate =>
    obtain ⟨hdb, hwithin, -⟩ := createProject_spec hproject h.db hcreate
    exact ⟨hdb, fun i c rest read hpc => (h.running i c rest read hpc).mono hwithin.projects hwithin.tasks⟩
  · exact h

/-- What a step can be. -/
theorem step_cases {a : Action ι} (h : step hexdigest s a = some t) :
    (∃ p presets, a = .create p.id p.userId presets ∧ t = s.creates hexdigest p presets) ∨
      (∃ i c, a = .start i c ∧ t = s.setPc i (.running c (c.selects hexdigest) none)) ∨
      (∃ i c sel rest read, s.pc i = .running c (sel :: rest) read ∧ t = s.selects i c sel rest read) ∨
      (∃ i c read, a = .next i ∧ s.pc i = .running c [] read ∧ t = s.writes hexdigest i c read) ∨
      ∃ i pc, (∀ c rest read, pc ≠ .running c rest read) ∧ t = s.setPc i pc := by
  cases a with
  | create projectId userId presets =>
    cases h
    exact .inl ⟨⟨projectId, userId⟩, presets, rfl, rfl⟩
  | start i c =>
    rw [step] at h
    split at h
    · cases h
      exact .inr (.inl ⟨i, c, rfl, rfl⟩)
    · cases h
  | next i =>
    rw [step] at h
    cases hpc : s.pc i with
    | running c rest read =>
      rw [hpc] at h
      cases rest with
      | nil =>
        cases h
        exact .inr (.inr (.inr (.inl ⟨i, c, read, rfl, hpc, rfl⟩)))
      | cons sel rest =>
        cases h
        exact .inr (.inr (.inl ⟨i, c, sel, rest, read, hpc, rfl⟩))
    | rereads projectId expertId =>
      rw [hpc] at h
      cases h
      have hne : ∀ c rest read, Pc.returned (s.db.reread projectId expertId) ≠ .running c rest read :=
        fun _ _ _ => Pc.noConfusion
      exact .inr (.inr (.inr (.inr ⟨i, _, hne, rfl⟩)))
    | idle | returned _ | dropped =>
      rw [hpc] at h
      cases h
  | crash i =>
    cases h
    have hne : ∀ c rest read, Pc.dropped ≠ .running c rest read := fun _ _ _ => Pc.noConfusion
    exact .inr (.inr (.inr (.inr ⟨i, _, hne, rfl⟩)))

theorem inv_step (h : Inv hexdigest issued s) {a : Action ι} (hissued : Issued issued s a)
    (hstep : step hexdigest s a = some t) : Inv hexdigest issued t := by
  rcases step_cases hstep with ⟨p, presets, rfl, rfl⟩ | ⟨i, c, rfl, rfl⟩ | ⟨i, c, sel, rest, read, hpc, rfl⟩ |
    ⟨i, c, read, -, hpc, rfl⟩ | ⟨i, pc, hpc, rfl⟩
  · have hproject : isProjectId p.id := hissued
    exact h.creates hproject presets
  · refine h.setPc fun c' rest read heq => ?_
    cases heq
    exact ⟨hissued, fun sel hsel => .inl hsel⟩
  · exact h.selects hpc
  · exact h.writes hpc
  · exact h.setPc fun c rest read heq => absurd heq (hpc c rest read)

theorem inv_init (h : (machine hexdigest).init s) : Inv hexdigest issued s := by
  cases h
  refine ⟨⟨?_, List.nodup_nil, ?_, ⟨?_, ?_, List.nodup_nil, List.Pairwise.nil, List.nodup_nil, List.nodup_nil⟩⟩, ?_⟩
  · exact fun p hp => absurd hp List.not_mem_nil
  · exact fun x hx => absurd hx List.not_mem_nil
  · exact fun m hm => absurd hm List.not_mem_nil
  · exact fun a ha => absurd ha List.not_mem_nil
  · exact fun i c rest read hpc => by cases hpc

theorem inv_reach (h : (machine hexdigest).Reach (Issued issued) s) : Inv hexdigest issued s :=
  h.induct (P := fun s => Inv hexdigest issued s) (fun _ hinit => inv_init hinit)
    fun _ _ _ hs hissued hstep => inv_step hs hissued hstep

/-- The id of a project. -/
def officeId : String := "wp_00000000000000000000000000000000"

/-- Whatever calls run side by side, everyone in a project's room and on its tasks is on the roster of that project,
the tasks are that project's, and no one is there twice. -/
theorem roster_kept (h : (machine hexdigest).Reach (Issued issued) s) : s.db.Kept :=
  (inv_reach h).db.kept

/-- An expert that is added and invited while the project is used. -/
theorem roster_kept_office :
    ∃ s, (machine (ι := Bool) fun _ => "").Reach (Issued fun _ => officeId) s ∧ s.db.members = [⟨officeId, "re_custom_1"⟩] ∧
      s.db.OnRoster officeId "re_custom_1" := by
  obtain ⟨s, -, hreach, hmembers⟩ := (machine (ι := Bool) fun _ => "").reach_of_exec (C := Issued fun _ => officeId)
    (p := fun s => decide (s.db.members = [⟨officeId, "re_custom_1"⟩]))
    ([.create officeId 1 [], .start false ⟨officeId, 1, .addCustomExpert "re_custom_1" "Writer" .executor none⟩,
      .next false, .next false, .start true ⟨officeId, 1, .addRoomMember "re_custom_1"⟩] ++ .replicate 3 (.next true))
    rfl (by decide)
  have hmembers : s.db.members = [⟨officeId, "re_custom_1"⟩] := of_decide_eq_true hmembers
  exact ⟨s, hreach, hmembers, (roster_kept hreach).members ⟨officeId, "re_custom_1"⟩ (hmembers ▸ List.mem_cons_self)⟩

end Model

end NexusStudio.Roster
