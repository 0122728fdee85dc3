import NexusStudio.Workshop.TaskOrchestrator
import Mathlib.Data.List.Pairwise

/-!
# The artifacts of an accepted task

`weak_accept` judges what was submitted; where it passes, one transaction writes DONE by a CAS and the artifacts.

* (rows) `_insert_artifacts` overwrites the row of a name or creates it.
* (names) Of the submissions of one name the judge takes the last one, and so does the table (`find_insertArtifacts`).
* (law) An accepted task has a row for each required artifact, which holds the submission that was judged; a call that
  does not accept changes nothing (`accepted_artifacts`).
* (orchestrator) The transaction refines the step of the orchestrator on the rows of one task (`represents_complete`).
* (success) Nothing but a lost CAS, a taken id or the database stops what has passed (`weakAccept_ok`).
-/

namespace NexusStudio.TaskOrchestrator

open AuthorizedOperations Workshop.Workflow

/-! ### Submissions -/

/-- `__post_init__`. -/
def ArtifactSubmission.postInit (a : ArtifactSubmission) : Except String Unit :=
  if strip a.name = "" then .error "artifact name required"
  else if a.storageType = .db then
    if a.content.all fun c => strip c = "" then .error "db artifact content required"
    else if a.storageKey ≠ none then .error "db artifact must not carry client storage_key"
    else if a.sizeBytes.any (· ≤ 0) then .error "db artifact size_bytes must be positive when set"
    else .ok ()
  else if a.storageKey.all fun key => strip key = "" then .error "external artifact storage_key required"
  else if a.sizeBytes.all (· ≤ 0) then .error "external artifact size_bytes required"
  else if a.content ≠ none then .error "external artifact must not carry inline content"
  else .ok ()

/-- A submission that could be constructed. -/
abbrev Submission := { a : ArtifactSubmission // a.postInit = .ok () }

/-- What is written of a submission; the metadata has its content, if it has one. -/
structure RowFields where
  storageKey : String
  sizeBytes : Int
  content : Option String

/-- `_artifact_row_fields`. -/
def artifactRowFields (a : ArtifactSubmission) (artifactId : String) : Except String RowFields :=
  if strip artifactId = "" then .error "artifact_id required"
  else if a.storageType = .db then
    match a.content with
    | none => .error "db artifact content required"
    | some content =>
      if strip content = "" then .error "db artifact content required"
      else .ok ⟨"db:" ++ strip artifactId, a.sizeBytes.getD content.utf8ByteSize, some content⟩
  else
    match a.storageKey, a.sizeBytes with
    | none, _ => .error "external artifact storage_key required"
    | some key, size =>
      if strip key = "" then .error "external artifact storage_key required"
      else
        match size with
        | none => .error "external artifact size_bytes required"
        | some size =>
          if size ≤ 0 then .error "external artifact size_bytes required"
          else if a.content ≠ none then .error "external artifact must not carry inline content"
          else .ok ⟨strip key, size, none⟩

/-! ### Rows -/

structure ArtifactRow where
  id : String
  projectId : String
  taskId : Option String
  name : String
  storageType : ArtifactStorageType
  storageKey : String
  sizeBytes : Option Int
  content : Option String
  deriving DecidableEq, Repr

namespace ArtifactRow

/-- What the unique index of the table is over. -/
def key (r : ArtifactRow) : Option (String × String) := r.taskId.map fun taskId => (taskId, r.name)

def write (r : ArtifactRow) (a : ArtifactSubmission) (f : RowFields) : ArtifactRow :=
  { r with storageType := a.storageType, storageKey := f.storageKey, sizeBytes := some f.sizeBytes, content := f.content }

def isNonEmpty (r : ArtifactRow) : Bool :=
  if r.storageType = .db then r.content.any fun c => strip c ≠ ""
  else r.sizeBytes.any (0 < ·)

/-- The row is the submission: its name and key without the spaces around them, the key of a `db` artifact derived from
the id, and the size, which is that of the content where none was given. -/
structure Holds (r : ArtifactRow) (a : ArtifactSubmission) : Prop where
  name : r.name = strip a.name
  storageType : r.storageType = a.storageType
  content : r.content = a.content
  dbKey : a.storageType = .db → r.storageKey = "db:" ++ strip r.id
  externalKey : a.storageType ≠ .db → a.storageKey.map strip = some r.storageKey
  sizeBytes : r.sizeBytes = some (a.sizeBytes.getD (a.content.getD "").utf8ByteSize)

end ArtifactRow

/-- The table `workshop_artifacts`. -/
structure ArtifactTable where
  rows : List ArtifactRow
  ids : (rows.map ArtifactRow.id).Nodup
  issued : ∀ r ∈ rows, strip r.id ≠ ""
  -- `uk_workshop_artifacts_task_name`
  names : rows.Pairwise fun r r' => r.key = r'.key → r.key = none

namespace ArtifactTable

def find (t : ArtifactTable) (taskId name : String) : Option ArtifactRow :=
  t.rows.find? fun r => r.key = some (taskId, name)

def update (t : ArtifactTable) (id : String) (a : ArtifactSubmission) (f : RowFields) : ArtifactTable where
  rows := t.rows.map fun r => if r.id = id then r.write a f else r
  ids := by
    rw [List.map_map]
    convert t.ids using 2
    funext r
    dsimp only [Function.comp_apply]
    split <;> rfl
  issued := by
    intro r hr
    obtain ⟨r₀, hr₀, rfl⟩ := List.mem_map.1 hr
    split
    · exact t.issued r₀ hr₀
    · exact t.issued r₀ hr₀
  names := by
    rw [List.pairwise_map]
    refine t.names.imp fun {r r'} h => ?_
    have hkey : ∀ x : ArtifactRow, (if x.id = id then x.write a f else x).key = x.key := by
      intro x
      split <;> rfl
    rwa [hkey, hkey]

/-- An insert, which the two unique indexes may refuse. -/
def create (t : ArtifactTable) (r : ArtifactRow) (hid : strip r.id ≠ "") : Option ArtifactTable :=
  if h : r.id ∉ t.rows.map ArtifactRow.id ∧ ∀ r' ∈ t.rows, r'.key = r.key → r'.key = none then
    some {
      rows := t.rows ++ [r]
      ids := by
        rw [List.map_append]
        exact List.nodup_append.2 ⟨t.ids, List.nodup_singleton _, fun x hx y hy hxy =>
          h.1 (List.mem_singleton.1 hy ▸ hxy ▸ hx)⟩
      issued := fun r' hr' => by
        rcases List.mem_append.1 hr' with hr' | hr'
        · exact t.issued r' hr'
        · rwa [List.mem_singleton.1 hr']
      names := List.pairwise_append.2 ⟨t.names, List.pairwise_singleton _ _, fun r' hr' x hx hkey => by
        rw [List.mem_singleton.1 hx] at hkey
        exact h.2 r' hr' hkey⟩ }
  else none

end ArtifactTable

/-! ### The transaction -/

/-- What raises: `TaskOrchestratorError` with its text or for a lost CAS, a conflict of names, another
`WorkshopRepositoryError`, or the database. -/
inductive AcceptError
  | orchestrator (message : String)
  | taskConflict
  | artifactConflict (name : String)
  | repository (message : String)
  | database
  deriving DecidableEq, Repr

/-- What a call meets: the ids that are drawn, and what raises. -/
structure Environment where
  -- `new_id("art")` for the artifact at a place of the list
  newId : Nat → String
  newId_ne : ∀ i, strip (newId i) ≠ ""
  readError : Option AcceptError
  refuses : Nat → Bool
  commitFails : Bool

/-- The rows that an acceptance reads and writes. -/
structure Tables where
  task : TaskRecord
  artifacts : ArtifactTable

section Model

variable (env : Environment) (projectId taskId : String)

/-- The body of the loop of `_insert_artifacts`. -/
def insertArtifact (i : Nat) (t : ArtifactTable) (a : ArtifactSubmission) : Except AcceptError ArtifactTable :=
  if env.refuses i then .error .database
  else
    match t.find taskId (strip a.name) with
    | some existing =>
      match artifactRowFields a existing.id with
      | .error message => .error (.repository message)
      | .ok f => .ok (t.update existing.id a f)
    | none =>
      match artifactRowFields a (env.newId i) with
      | .error message => .error (.repository message)
      | .ok f =>
        match t.create ⟨env.newId i, projectId, some taskId, strip a.name, a.storageType, f.storageKey, some f.sizeBytes,
            f.content⟩ (env.newId_ne i) with
        | none => .error (.artifactConflict (strip a.name))
        | some t => .ok t

/-- `_insert_artifacts`. -/
def insertArtifacts : Nat → ArtifactTable → List ArtifactSubmission → Except AcceptError ArtifactTable
  | _, t, [] => .ok t
  | i, t, a :: rest =>
    match insertArtifact env projectId taskId i t a with
    | .error e => .error e
    | .ok t => insertArtifacts (i + 1) t rest

/-- `complete_weak_accept`; what raises rolls the transaction back. -/
def completeWeakAccept (s : Tables) (expected : TaskRecord) (artifacts : List ArtifactSubmission) :
    Except AcceptError Tables :=
  match (Db.mk s.task [] [] []).updateTaskStatusCas expected .reviewing .done with
  | none => .error .taskConflict
  | some db =>
    match insertArtifacts env projectId taskId 0 s.artifacts artifacts with
    | .error e => .error e
    | .ok t => if env.commitFails then .error .database else .ok ⟨db.task, t⟩

/-- `weak_accept`: the task and the uses are as they were read, the tables as they are at the transaction. The result is
the reasons against. -/
def weakAccept (deliverable : String → String → Bool) (read : TaskRecord) (uses : List Capability) (s : Tables)
    (coveredGoals : List String) (artifacts : List Submission) : Except AcceptError (List String) × Tables :=
  match env.readError with
  | some e => (.error e, s)
  | none =>
    if read.status ≠ .reviewing then (.error (.orchestrator ("cannot weak-accept from " ++ read.status.value)), s)
    else
      let reasons := evaluateWeakAccept deliverable read.goals coveredGoals read.requiredArtifacts
        (artifacts.map Subtype.val) read.externalAuth uses
      if reasons ≠ [] then (.ok reasons, s)
      else
        match completeWeakAccept env projectId taskId s read (artifacts.map Subtype.val) with
        | .error .taskConflict => (.error (.orchestrator ("task conflict: " ++ taskId)), s)
        | .error e => (.error e, s)
        | .ok s => (.ok [], s)

end Model

/-- The submission of a name that is judged. -/
def judged (artifacts : List ArtifactSubmission) (name : String) : Option ArtifactSubmission :=
  artifacts.reverse.find? fun a => strip a.name = name

/-! ### Rows that hold submissions -/

section Proofs

variable {env : Environment} {projectId taskId : String} {t t' : ArtifactTable} {r : ArtifactRow}
  {a : ArtifactSubmission} {f : RowFields} {id name : String} {artifacts : List ArtifactSubmission}

/-- The fields of a submission, which the source derives in two branches. -/
theorem artifactRowFields_spec (h : artifactRowFields a id = .ok f) :
    f.content = a.content ∧ (a.storageType = .db → f.storageKey = "db:" ++ strip id) ∧
      (a.storageType ≠ .db → a.storageKey.map strip = some f.storageKey) ∧
      f.sizeBytes = a.sizeBytes.getD (a.content.getD "").utf8ByteSize := by
  unfold artifactRowFields at h
  split at h
  · cases h
  split at h
  case isTrue hdb =>
    split at h
    · cases h
    · next content hcontent =>
      split at h
      · cases h
      · cases h
        refine ⟨hcontent.symm, fun _ => rfl, fun hn => absurd hdb hn, ?_⟩
        rw [hcontent]
        rfl
  case isFalse hdb =>
    split at h
    · cases h
    · next key hkey =>
      split at h
      · cases h
      split at h
      · cases h
      · next size hsize =>
        split at h
        · cases h
        split at h
        · cases h
        · next hcontent =>
          cases h
          refine ⟨(not_not.1 hcontent).symm, fun hd => absurd hd hdb, fun _ => ?_, ?_⟩
          · rw [hkey]
            rfl
          · rw [hsize]
            rfl

theorem holds_write (hname : r.name = strip a.name) (h : artifactRowFields a r.id = .ok f) :
    (r.write a f).Holds a := by
  obtain ⟨hcontent, hdb, hexternal, hsize⟩ := artifactRowFields_spec h
  exact ⟨hname, rfl, hcontent, hdb, hexternal, congrArg some hsize⟩

/-- The row of a non-empty submission is not empty. -/
theorem ArtifactRow.Holds.isNonEmpty (h : r.Holds a) (ha : a.isNonEmpty = true) : r.isNonEmpty = true := by
  unfold ArtifactSubmission.isNonEmpty at ha
  unfold ArtifactRow.isNonEmpty
  rw [h.storageType, h.content, h.sizeBytes]
  split at ha
  · next hdb => rwa [if_pos hdb]
  · next hdb =>
    rw [if_neg hdb]
    cases hsize : a.sizeBytes with
    | none =>
      rw [hsize] at ha
      cases ha
    | some size =>
      rw [hsize] at ha
      exact ha

namespace ArtifactTable

theorem find_eq_some_iff : t.find taskId name = some r ↔ r ∈ t.rows ∧ r.key = some (taskId, name) := by
  constructor
  · intro h
    have hkey : r.key = some (taskId, name) := of_decide_eq_true (List.find?_some h :)
    exact ⟨List.mem_of_find?_eq_some h, hkey⟩
  · rintro ⟨hr, hkey⟩
    have hsome : (t.rows.find? fun r => r.key = some (taskId, name)).isSome :=
      List.find?_isSome.2 ⟨r, hr, decide_eq_true hkey⟩
    obtain ⟨r', hr'⟩ := Option.isSome_iff_exists.1 hsome
    have hkey' : r'.key = some (taskId, name) := of_decide_eq_true (List.find?_some hr' :)
    have heq : r' = r := by
      by_contra hne
      have : Std.Symm fun x y : ArtifactRow => x.key = y.key → x.key = none := ⟨fun x y h hyx => hyx.trans (h hyx.symm)⟩
      have hnone := t.names.forall (List.mem_of_find?_eq_some hr') hr hne (hkey'.trans hkey.symm)
      cases hkey'.symm.trans hnone
    rw [find, hr', heq]

theorem find_update : (t.update id a f).find taskId name =
    (t.find taskId name).map fun r => if r.id = id then r.write a f else r := by
  have hkey : ∀ x : ArtifactRow, (if x.id = id then x.write a f else x).key = x.key := by
    intro x
    split <;> rfl
  unfold find update
  dsimp only
  rw [List.find?_map]
  congr 2
  funext x
  rw [Function.comp_apply, hkey]

theorem create_ok (hid : strip r.id ≠ "") (hfresh : r.id ∉ t.rows.map ArtifactRow.id)
    (hfree : ∀ r' ∈ t.rows, r'.key = r.key → r'.key = none) :
    ∃ t', t.create r hid = some t' ∧ t'.rows = t.rows ++ [r] :=
  ⟨_, dif_pos ⟨hfresh, hfree⟩, rfl⟩

theorem find_create {hid : strip r.id ≠ ""} (h : t.create r hid = some t') :
    t'.find taskId name = (t.find taskId name).or (if r.key = some (taskId, name) then some r else none) := by
  unfold create at h
  split at h
  · cases h
    unfold find
    dsimp only
    rw [List.find?_append, List.find?_singleton]
    simp only [decide_eq_true_eq]
  · cases h

end ArtifactTable

/-- An insert leaves the submission under its name, and the rows of other names as they were. -/
theorem find_insertArtifact {i : Nat} (h : insertArtifact env projectId taskId i t a = .ok t') :
    (∃ r, t'.find taskId (strip a.name) = some r ∧ r.Holds a) ∧
      ∀ taskId' name', (taskId', name') ≠ (taskId, strip a.name) → t'.find taskId' name' = t.find taskId' name' := by
  unfold insertArtifact at h
  split at h
  · cases h
  split at h
  · next existing hfind =>
    split at h
    · cases h
    · next f hf =>
      cases h
      obtain ⟨hmem, hkey⟩ := ArtifactTable.find_eq_some_iff.1 hfind
      have hname : existing.name = strip a.name := by
        obtain ⟨_, -, hpair⟩ := Option.map_eq_some_iff.1 hkey
        exact congrArg Prod.snd hpair
      constructor
      · refine ⟨existing.write a f, ?_, holds_write hname hf⟩
        rw [ArtifactTable.find_update, hfind, Option.map_some, if_pos rfl]
      · intro taskId' name' hne
        rw [ArtifactTable.find_update]
        cases hother : t.find taskId' name' with
        | none => rfl
        | some r =>
          obtain ⟨hr, hrkey⟩ := ArtifactTable.find_eq_some_iff.1 hother
          have hid : r.id ≠ existing.id := by
            intro hid
            rw [List.inj_on_of_nodup_map t.ids hr hmem hid] at hrkey
            exact hne (Option.some.inj (hrkey.symm.trans hkey))
          rw [Option.map_some, if_neg hid]
  · next hfind =>
    split at h
    · cases h
    · next f hf =>
      split at h
      · cases h
      · next t₁ hcreate =>
        cases h
        constructor
        · refine ⟨_, ?_, holds_write (r := ⟨env.newId i, projectId, some taskId, strip a.name, a.storageType,
            f.storageKey, some f.sizeBytes, f.content⟩) rfl hf⟩
          rw [ArtifactTable.find_create hcreate, hfind, Option.none_or]
          exact if_pos rfl
        · intro taskId' name' hne
          rw [ArtifactTable.find_create hcreate, if_neg, Option.or_none]
          exact fun hkey => hne (Option.some.inj hkey).symm

theorem judged_cons (a : ArtifactSubmission) (rest : List ArtifactSubmission) (name : String) :
    judged (a :: rest) name = (judged rest name).or (if strip a.name = name then some a else none) := by
  unfold judged
  rw [List.reverse_cons, List.find?_append, List.find?_singleton]
  simp only [decide_eq_true_eq]

/-- The table keeps what is judged. -/
theorem find_insertArtifacts {i : Nat} (h : insertArtifacts env projectId taskId i t artifacts = .ok t') :
    (∀ name a, judged artifacts name = some a → ∃ r, t'.find taskId name = some r ∧ r.Holds a) ∧
      ∀ taskId' name, taskId' ≠ taskId ∨ judged artifacts name = none → t'.find taskId' name = t.find taskId' name := by
  induction artifacts generalizing i t with
  | nil =>
    cases h
    exact ⟨nofun, fun _ _ _ => rfl⟩
  | cons b rest ih =>
    rw [insertArtifacts] at h
    split at h
    · cases h
    · next t₁ hb =>
      obtain ⟨hheld, hothers⟩ := find_insertArtifact hb
      obtain ⟨ihheld, ihothers⟩ := ih h
      constructor
      · intro name a ha
        rw [judged_cons] at ha
        cases hrest : judged rest name with
        | some c =>
          rw [hrest, Option.some_or] at ha
          exact ihheld name a (hrest.trans ha)
        | none =>
          rw [hrest, Option.none_or] at ha
          obtain ⟨rfl, hba⟩ := Option.ite_none_right_eq_some.1 ha
          rw [← Option.some.inj hba, ihothers taskId (strip b.name) (.inr hrest)]
          exact hheld
      · intro taskId' name hor
        have hrest : taskId' ≠ taskId ∨ judged rest name = none ∧ strip b.name ≠ name := by
          refine hor.imp_right fun hnone => ?_
          rw [judged_cons, Option.or_eq_none_iff] at hnone
          exact ⟨hnone.1, fun heq => by rw [if_pos heq] at hnone; cases hnone.2⟩
        rw [ihothers taskId' name (hrest.imp_right And.left)]
        refine hothers taskId' name fun heq => ?_
        obtain ⟨rfl, rfl⟩ := Prod.mk.inj heq
        exact hrest.elim (fun h => h rfl) fun h => h.2 rfl

theorem judged_of_artifactReason {deliverable : String → String → Bool} {names : List String}
    (h : artifactReason deliverable artifacts names = none) :
    ∀ required ∈ names, ∃ a, judged artifacts required = some a ∧ a.isNonEmpty = true := by
  induction names with
  | nil => exact fun required hr => absurd hr List.not_mem_nil
  | cons name names ih =>
    rw [artifactReason] at h
    split at h
    · cases h
    · next a ha =>
      split at h
      · cases h
      next hempty =>
      split at h
      · cases h
      intro required hr
      rcases List.mem_cons.1 hr with rfl | hr
      · exact ⟨a, ha, (Bool.not_eq_false _).mp hempty⟩
      · exact ih h required hr

/-! ### The acceptance -/

variable {s s' : Tables} {read : TaskRecord} {deliverable : String → String → Bool} {uses : List Capability}
  {coveredGoals : List String} {submissions : List Submission}

/-- A transaction that commits had the revision of the read, and writes DONE and the artifacts. -/
theorem completeWeakAccept_ok (h : completeWeakAccept env projectId taskId s read artifacts = .ok s') :
    s.task.revision = read.revision ∧ s.task.status = .reviewing ∧
      s'.task = { s.task with status := .done, revision := s.task.revision + 1 } ∧
      insertArtifacts env projectId taskId 0 s.artifacts artifacts = .ok s'.artifacts := by
  unfold completeWeakAccept at h
  split at h
  · cases h
  · next db hdb =>
    obtain ⟨⟨hrevision, hstatus⟩, hdb⟩ := Option.ite_none_right_eq_some.1 hdb
    cases hdb
    split at h
    · cases h
    · next t ht =>
      split at h
      · cases h
      · cases h
        refine ⟨hrevision, hstatus, ?_, ht⟩
        rw [show s.task.revision = read.revision from hrevision]

theorem weakAccept_cases (env : Environment) (projectId taskId : String) (deliverable : String → String → Bool)
    (read : TaskRecord) (uses : List Capability) (s : Tables) (coveredGoals : List String)
    (submissions : List Submission) :
    (∃ result, result ≠ .ok [] ∧
      weakAccept env projectId taskId deliverable read uses s coveredGoals submissions = (result, s)) ∨
    ∃ s', evaluateWeakAccept deliverable read.goals coveredGoals read.requiredArtifacts (submissions.map Subtype.val)
        read.externalAuth uses = [] ∧
      completeWeakAccept env projectId taskId s read (submissions.map Subtype.val) = .ok s' ∧
      weakAccept env projectId taskId deliverable read uses s coveredGoals submissions = (.ok [], s') := by
  unfold weakAccept
  split
  · exact .inl ⟨.error _, nofun, rfl⟩
  split
  · exact .inl ⟨.error _, nofun, rfl⟩
  dsimp only
  split
  · next hreasons => exact .inl ⟨_, fun h => hreasons (Except.ok.inj h), rfl⟩
  · next hreasons =>
    split
    · exact .inl ⟨.error _, nofun, rfl⟩
    · exact .inl ⟨.error _, nofun, rfl⟩
    · next s' hs' => exact .inr ⟨s', not_not.1 hreasons, hs', rfl⟩

/-- An acceptance that has passed and completed leaves the task DONE, with a row for every required artifact that is not
empty and holds the submission that was judged; the rows of other names and tasks stay. Any other call, one that does not
pass or loses the CAS among them, leaves the task and all rows as they were. -/
theorem accepted_artifacts (env : Environment) (projectId taskId : String) (deliverable : String → String → Bool)
    (read : TaskRecord) (uses : List Capability) (s : Tables) (coveredGoals : List String)
    (submissions : List Submission) :
    let artifacts := submissions.map Subtype.val
    let passed := evaluateWeakAccept deliverable read.goals coveredGoals read.requiredArtifacts artifacts
      read.externalAuth uses = []
    let lost := s.task.revision ≠ read.revision ∨ s.task.status ≠ .reviewing
    let (result, s') := weakAccept env projectId taskId deliverable read uses s coveredGoals submissions
    (result = .ok [] → passed ∧ ¬ lost ∧
      s'.task = { s.task with status := .done, revision := s.task.revision + 1 } ∧
      (∀ required ∈ read.requiredArtifacts, ∃ a r, judged artifacts required = some a ∧
        s'.artifacts.find taskId required = some r ∧ r.Holds a ∧ r.isNonEmpty = true) ∧
      ∀ taskId' name, taskId' ≠ taskId ∨ judged artifacts name = none →
        s'.artifacts.find taskId' name = s.artifacts.find taskId' name) ∧
    (result ≠ .ok [] → s' = s) := by
  intro artifacts passed lost
  obtain ⟨result, hne, hcall⟩ | ⟨s', hpassed, hcomplete, hcall⟩ :=
    weakAccept_cases env projectId taskId deliverable read uses s coveredGoals submissions
  · rw [hcall]
    exact ⟨fun h => absurd h hne, fun _ => rfl⟩
  · rw [hcall]
    refine ⟨fun _ => ?_, fun h => absurd rfl h⟩
    obtain ⟨hrevision, hstatus, htask, hinsert⟩ := completeWeakAccept_ok hcomplete
    obtain ⟨hheld, hothers⟩ := find_insertArtifacts hinsert
    have hreason : artifactReason deliverable artifacts read.requiredArtifacts = none := by
      obtain ⟨hfront, -⟩ := List.append_eq_nil_iff.1 hpassed
      exact Option.toList_eq_nil_iff.1 (List.append_eq_nil_iff.1 hfront).2
    refine ⟨hpassed, ?_, htask, fun required hr => ?_, hothers⟩
    · rintro (h | h)
      · exact h hrevision
      · exact h hstatus
    · obtain ⟨a, ha, hnonempty⟩ := judged_of_artifactReason hreason required hr
      obtain ⟨r, hfind, hholds⟩ := hheld required a ha
      exact ⟨a, r, ha, hfind, hholds, hholds.isNonEmpty hnonempty⟩

/-! ### The orchestrator's rows -/

/-- The submission of a name among the artifacts of the orchestrator's task. -/
def Db.find (db : Db) (name : String) : Option ArtifactSubmission := db.artifacts.find? fun a => strip a.name = name

/-- The tables are the rows of the orchestrator's task. -/
structure Represents (taskId : String) (s : Tables) (db : Db) : Prop where
  task : s.task = db.task
  artifacts : ∀ name, Option.Rel ArtifactRow.Holds (s.artifacts.find taskId name) (db.find name)

/-- A submission takes the place of the one of its name. -/
theorem find_replaced (rows : List ArtifactSubmission) (a : ArtifactSubmission) (name : String) :
    (rows.filter (fun row => strip row.name ≠ strip a.name) ++ [a]).find? (fun row => strip row.name = name) =
      (if strip a.name = name then some a else none).or (rows.find? fun row => strip row.name = name) := by
  rw [List.find?_append, List.find?_singleton]
  by_cases ha : strip a.name = name
  · have hnone : (rows.filter fun row => strip row.name ≠ strip a.name).find? (fun row => strip row.name = name) =
        none := by
      refine List.find?_eq_none.2 fun row hrow hname => ?_
      exact of_decide_eq_true (List.mem_filter.1 hrow).2 ((of_decide_eq_true hname).trans ha.symm)
    rw [hnone, Option.none_or, if_pos (decide_eq_true ha), if_pos ha, Option.some_or]
  · have hsame : (rows.filter fun row => strip row.name ≠ strip a.name).find? (fun row => strip row.name = name) =
        rows.find? fun row => strip row.name = name := by
      rw [List.find?_filter]
      refine congrArg (fun p => rows.find? p) (funext fun row => ?_)
      by_cases hrow : strip row.name = name
      · simp [hrow, Ne.symm ha]
      · simp [hrow]
    rw [hsame, if_neg (by rwa [decide_eq_true_eq]), if_neg ha, Option.or_none, Option.none_or]

theorem Db.find_insertArtifacts (db : Db) (artifacts : List ArtifactSubmission) (name : String) :
    (db.insertArtifacts artifacts).find name = (judged artifacts name).or (db.find name) := by
  unfold Db.insertArtifacts Db.find
  dsimp only
  generalize db.artifacts = rows
  induction artifacts generalizing rows with
  | nil => rfl
  | cons a rest ih => rw [List.foldl_cons, ih, find_replaced, judged_cons, Option.or_assoc]

/-- The transaction does to the tables what the orchestrator's step does to its rows. -/
theorem represents_complete {db : Db} (hrep : Represents taskId s db)
    (h : completeWeakAccept env projectId taskId s read artifacts = .ok s') :
    ∃ db', db.completeWeakAccept read artifacts = some db' ∧ Represents taskId s' db' := by
  obtain ⟨hrevision, hstatus, htask, hinsert⟩ := completeWeakAccept_ok h
  obtain ⟨hheld, hothers⟩ := find_insertArtifacts hinsert
  have hcas : db.updateTaskStatusCas read .reviewing .done =
      some { db with task := { db.task with status := .done, revision := read.revision + 1 } } := by
    rw [hrep.task] at hrevision hstatus
    exact if_pos ⟨hrevision, hstatus⟩
  refine ⟨_, congrArg (Option.map _) hcas, ?_, fun name => ?_⟩
  · rw [htask, hrevision, hrep.task]
    rfl
  · rw [Db.find_insertArtifacts]
    cases hjudged : judged artifacts name with
    | some a =>
      obtain ⟨r, hr, hholds⟩ := hheld name a hjudged
      rw [hr, Option.some_or]
      exact .some hholds
    | none =>
      rw [hothers taskId name (.inr hjudged), Option.none_or]
      exact hrep.artifacts name

/-! ### What passes is stored -/

/-- A submission that could be constructed has the fields of a row. -/
theorem artifactRowFields_of_valid (a : Submission) (hid : strip id ≠ "") : ∃ f, artifactRowFields a.1 id = .ok f := by
  obtain ⟨a, ha⟩ := a
  unfold ArtifactSubmission.postInit at ha
  unfold artifactRowFields
  rw [if_neg hid]
  split at ha
  · cases ha
  split at ha
  case isTrue hdb =>
    rw [if_pos hdb]
    cases hcontent : a.content with
    | none => simp [hcontent] at ha
    | some content =>
      have hne : strip content ≠ "" := by
        intro hempty
        simp [hcontent, hempty] at ha
      exact ⟨_, if_neg hne⟩
  case isFalse hdb =>
    rw [if_neg hdb]
    cases hkey : a.storageKey with
    | none => simp [hkey] at ha
    | some key =>
      have hne : strip key ≠ "" := by
        intro hempty
        simp [hkey, hempty] at ha
      cases hsize : a.sizeBytes with
      | none => simp [hkey, hne, hsize] at ha
      | some size =>
        have hpos : ¬ size ≤ 0 := by
          intro hle
          simp [hkey, hne, hsize, hle] at ha
        have hcontent : ¬ a.content ≠ none := by
          intro hsome
          simp [hkey, hne, hsize, hpos, hsome] at ha
        simp only [if_neg hne, if_neg hpos, if_neg hcontent]
        exact ⟨_, rfl⟩

/-- Without a fault of the database an insert succeeds, and takes at most the id that was drawn. -/
theorem insertArtifact_total {i : Nat} (a : Submission) (hrefuses : env.refuses i = false)
    (hfresh : env.newId i ∉ t.rows.map ArtifactRow.id) :
    ∃ t', insertArtifact env projectId taskId i t a.1 = .ok t' ∧
      ∀ x ∈ t'.rows.map ArtifactRow.id, x ∈ t.rows.map ArtifactRow.id ∨ x = env.newId i := by
  unfold insertArtifact
  rw [if_neg (by rw [hrefuses]; nofun)]
  cases hfind : t.find taskId (strip a.1.name) with
  | some existing =>
    have hid := t.issued existing (ArtifactTable.find_eq_some_iff.1 hfind).1
    obtain ⟨f, hf⟩ := artifactRowFields_of_valid a hid
    dsimp only
    rw [hf]
    refine ⟨_, rfl, fun x hx => .inl ?_⟩
    obtain ⟨r, hr, rfl⟩ := List.mem_map.1 hx
    obtain ⟨r₀, hr₀, rfl⟩ := List.mem_map.1 hr
    refine List.mem_map.2 ⟨r₀, hr₀, ?_⟩
    split <;> rfl
  | none =>
    obtain ⟨f, hf⟩ := artifactRowFields_of_valid a (env.newId_ne i)
    dsimp only
    rw [hf]
    have hfree : ∀ r ∈ t.rows, r.key = some (taskId, strip a.1.name) → r.key = none := by
      intro r hr hkey
      have hsome := ArtifactTable.find_eq_some_iff.2 ⟨hr, hkey⟩
      cases hfind.symm.trans hsome
    obtain ⟨t', hcreate, hrows⟩ := ArtifactTable.create_ok (r := ⟨env.newId i, projectId, some taskId, strip a.1.name,
      a.1.storageType, f.storageKey, some f.sizeBytes, f.content⟩) (env.newId_ne i) hfresh hfree
    dsimp only
    rw [hcreate]
    refine ⟨t', rfl, fun x hx => ?_⟩
    rw [hrows, List.map_append, List.mem_append] at hx
    exact hx.imp_right List.mem_singleton.1

theorem insertArtifacts_total {i : Nat} (hrefuses : ∀ j, env.refuses j = false) (hinj : Function.Injective env.newId)
    (hfresh : ∀ j, i ≤ j → env.newId j ∉ t.rows.map ArtifactRow.id) :
    ∃ t', insertArtifacts env projectId taskId i t (submissions.map Subtype.val) = .ok t' := by
  induction submissions generalizing i t with
  | nil => exact ⟨t, rfl⟩
  | cons a rest ih =>
    obtain ⟨t₁, hok, hids⟩ := insertArtifact_total a (hrefuses i)
      (hfresh i le_rfl)
    rw [List.map_cons, insertArtifacts, hok]
    refine ih fun j hj hmem => ?_
    rcases hids _ hmem with hold | hnew
    · exact hfresh j (Nat.le_of_succ_le hj) hold
    · exact Nat.ne_of_gt hj (hinj hnew)

/-- What has passed is accepted, unless the CAS is lost, an id is taken, or the database raises. -/
theorem weakAccept_ok (hread : env.readError = none) (hrefuses : ∀ i, env.refuses i = false)
    (hcommit : env.commitFails = false) (hinj : Function.Injective env.newId)
    (hfresh : ∀ i, env.newId i ∉ s.artifacts.rows.map ArtifactRow.id) (hstatus : read.status = .reviewing)
    (hpassed : evaluateWeakAccept deliverable read.goals coveredGoals read.requiredArtifacts
      (submissions.map Subtype.val) read.externalAuth uses = [])
    (hrevision : s.task.revision = read.revision) (htask : s.task.status = .reviewing) :
    ∃ s', weakAccept env projectId taskId deliverable read uses s coveredGoals submissions = (.ok [], s') := by
  obtain ⟨t, ht⟩ : ∃ t, insertArtifacts env projectId taskId 0 s.artifacts (submissions.map Subtype.val) = .ok t :=
    insertArtifacts_total hrefuses hinj fun j _ => hfresh j
  have hcas : (Db.mk s.task [] [] []).updateTaskStatusCas read .reviewing .done =
      some (Db.mk { s.task with status := .done, revision := read.revision + 1 } [] [] []) := if_pos ⟨hrevision, htask⟩
  have hcomplete : completeWeakAccept env projectId taskId s read (submissions.map Subtype.val) =
      .ok ⟨{ s.task with status := .done, revision := read.revision + 1 }, t⟩ := by
    unfold completeWeakAccept
    rw [hcas]
    dsimp only
    rw [ht]
    exact if_neg (by rw [hcommit]; nofun)
  unfold weakAccept
  rw [hread, hcomplete]
  dsimp only
  rw [if_neg (not_not.2 hstatus), if_neg (not_not.2 hpassed)]
  exact ⟨_, rfl⟩

end Proofs

end NexusStudio.TaskOrchestrator
