import Mathlib
import NexusStudio.Lib.Machine
import NexusStudio.Lib.PathTree
import NexusStudio.Server.Errors
import NexusStudio.Files.Confinement

/-!
# The skill tree of a scope

Directories and files of one skill scope, changed by calls of `mkdir`, `write_file`, `move_path` and `remove_path`.

* (machine) Every statement on the table is one step of the call that runs it; the transactions of a move and of a
  removal are one step.
* (keys) Unique paths and revisions that grow hold in every run, and so no revision of a file is written over twice.
* (defect) Parents and limits are checked in statements before the write, and a removal cascades below the path at
  which the entry was found, so calls that overlap leave entries without a directory or exceed a limit.
* (condition) `Safe`: at the write, the parent is a directory and the limits leave room; nothing below a removed entry
  lies outside of the path that is removed.
-/

set_option linter.unusedSectionVars false

namespace NexusStudio.Skills

open Concurrent PathTrees

/-! ### Paths -/

def MAX_PATH_DEPTH : Nat := 64
def MAX_NODES : Nat := 200
def MAX_FILES : Nat := 50
def MAX_FILE_CHARS : Nat := 8000
def MAX_TOTAL_FILE_CHARS : Nat := 64000
def MAX_SEGMENT_LEN : Nat := 128
def MAX_NAME_LEN : Nat := 256

/-- A normalized path, by its segments. -/
@[ext]
structure SkillPath where
  segments : List String
  ne_nil : segments ≠ []
  deriving DecidableEq

/-- What a call raises. -/
inductive SkillFailure
  | app (code : ErrorCode) (message : String)
  | revisionConflict (id : Nat) (path : Option SkillPath)
  -- the unique key of the table, where no handler is
  | integrityError
  deriving DecidableEq

def invalid {β : Type} (message : String) : Except SkillFailure β := .error (.app .invalidParams message)

theorem parts_ne_nil (path : String) : Files.parts path ≠ [] := by
  rw [Files.parts, Ne, List.map_eq_nil_iff]
  exact List.splitOn_ne_nil '/' path.toList

theorem of_check {β : Type} {c : Prop} [Decidable c] {message : String} {x : Except SkillFailure β} {b : β}
    (h : (if c then invalid message else x) = .ok b) : x = .ok b := by
  by_cases hc : c
  · rw [if_pos hc] at h
    cases h
  · rw [if_neg hc] at h
    exact h

/-- `normalize_skill_path`. -/
def normalizeSkillPath (path : String) : Except SkillFailure SkillPath :=
  let raw := strip path
  if raw = "" then invalid "skill path required"
  else if raw.toList.head? = some '/' then invalid "skill path must not start with /"
  else if raw.toList.getLast? = some '/' then invalid "skill path must not end with /"
  else if "" ∈ Files.parts raw then invalid "skill path must not contain empty segments"
  else if ".." ∈ Files.parts raw ∨ "." ∈ Files.parts raw then invalid "skill path must not contain . or .."
  else if (Files.parts raw).length > MAX_PATH_DEPTH then invalid "skill path depth exceeds limit"
  else if (Files.parts raw).any fun segment => segment.length > MAX_SEGMENT_LEN then
    invalid "skill path segment too long"
  else .ok ⟨Files.parts raw, parts_ne_nil raw⟩

namespace SkillPath

/-- `parent_path`. -/
def parent (p : SkillPath) : Option SkillPath :=
  if h : p.segments.dropLast = [] then none else some ⟨p.segments.dropLast, h⟩

/-- `path__startswith` of the path with a slash. -/
abbrev Above (p q : SkillPath) : Prop := Below p.segments q.segments

/-- `is_prefix_path`. -/
abbrev IsPrefix (p q : SkillPath) : Prop := p.segments <+: q.segments

/-- The path with `source` replaced by `target` at its front. -/
def replace (source target p : SkillPath) : SkillPath :=
  ⟨target.segments ++ p.segments.drop source.segments.length, List.append_ne_nil_of_left_ne_nil target.ne_nil _⟩

def text (p : SkillPath) : String := "/".intercalate p.segments

/-- What the database compares as text, the model compares by segments. -/
theorem startsWith_iff {p q : SkillPath} (hp : ∀ part ∈ p.segments, '/' ∉ part.toList)
    (hq : ∀ part ∈ q.segments, '/' ∉ part.toList) : (p.text ++ "/").toList <+: q.text.toList ↔ p.Above q := by
  have hslashed : ∀ r : SkillPath, '/' :: r.text.toList = Files.Path.slashed r.segments := by
    intro r
    rw [← Files.text_slashed r.ne_nil]
    exact (String.toList_append (s := "/")).symm
  have hlast : '/' :: (p.text ++ "/").toList = Files.Path.slashed (p.segments ++ [""]) := by
    rw [Files.slashed_append, ← hslashed, String.toList_append]
    rfl
  have hcons : (p.text ++ "/").toList <+: q.text.toList ↔
      Files.Path.slashed (p.segments ++ [""]) <+: Files.Path.slashed q.segments := by
    rw [← hlast, ← hslashed, List.cons_prefix_cons]
    exact (and_iff_right rfl).symm
  rw [hcons, Files.slashed_prefix_iff hp List.not_mem_nil hq]
  constructor
  · rintro ⟨name, rest, heq, -⟩
    refine ⟨heq ▸ List.prefix_append _ _, fun hsame => ?_⟩
    rw [← hsame] at heq
    exact List.cons_ne_nil name rest (List.append_right_eq_self.1 heq.symm)
  · rintro ⟨⟨rest, heq⟩, hne⟩
    cases rest with
    | nil => exact absurd ((List.append_nil _).symm.trans heq) hne
    | cons name rest => exact ⟨name, rest, heq.symm, List.nil_prefix⟩

theorem slash_not_mem {path : String} {p : SkillPath} (h : normalizeSkillPath path = .ok p) :
    ∀ part ∈ p.segments, '/' ∉ part.toList := by
  have hparts : p.segments = Files.parts (strip path) := by
    unfold normalizeSkillPath at h
    iterate 7 replace h := of_check h
    have hp := Except.ok.inj h
    rw [← hp]
  intro part hpart
  rw [hparts] at hpart
  obtain ⟨chars, hchars, rfl⟩ := List.mem_map.1 hpart
  rw [String.toList_ofList]
  exact Files.not_mem_of_mem_splitOn _ chars hchars

end SkillPath

/-! ### Rows -/

structure FileText where
  name : String
  description : String
  content : String
  deriving DecidableEq

/-- A row of `user_skill_entries` in the scope; a directory has no text. -/
structure Row where
  id : Nat
  path : SkillPath
  file : Option FileText
  revision : Int
  deriving DecidableEq

def Row.isDir (r : Row) : Bool := r.file.isNone

def Row.chars (r : Row) : Nat := (r.file.map fun f => f.content.length).getD 0

/-- A row after `update_file_cas`. -/
def Row.overwrite (id : Nat) (revision : Int) (f : FileText) (r : Row) : Row :=
  if r.id = id ∧ r.revision = revision ∧ r.isDir = false then { r with file := some f, revision := revision + 1 } else r

abbrev Rows := List Row

namespace Rows

def getByPath (rows : Rows) (path : SkillPath) : Option Row := rows.find? fun r => r.path = path

def getById (rows : Rows) (id : Nat) : Option Row := rows.find? fun r => r.id = id

def countNodes (rows : Rows) : Nat := rows.length

def countFiles (rows : Rows) : Nat := (rows.filter fun r => !r.isDir).length

def sumFileChars (rows : Rows) (exclude : Option Nat) : Nat :=
  ((rows.filter fun r => some r.id ≠ exclude).map Row.chars).sum

/-- `create_dir` and `create_file`; the unique key refuses a path that is there. -/
def create (rows : Rows) (id : Nat) (path : SkillPath) (file : Option FileText) : Except SkillFailure Rows :=
  if rows.any fun r => r.path = path then invalid "skill path already exists"
  else .ok (rows ++ [⟨id, path, file, 1⟩])

/-- The update of `update_file_cas`, if it selects a row. -/
def updateFile (rows : Rows) (id : Nat) (revision : Int) (f : FileText) : Option Rows :=
  if rows.any fun r => r.id = id ∧ r.revision = revision ∧ r.isDir = false then
    some (rows.map (Row.overwrite id revision f))
  else none

/-- An update of one row that changes its path. -/
def setPath (rows : Rows) (row : Row) : Except SkillFailure Rows :=
  if rows.any fun r => r.id ≠ row.id ∧ r.path = row.path then .error .integrityError
  else .ok (rows.map fun r => if r.id = row.id then row else r)

/-- The loop of `move`. -/
def moveDescendants (source target : SkillPath) : Rows → Rows → Except SkillFailure Rows
  | rows, [] => .ok rows
  | rows, r :: todo =>
    match rows.setPath { r with path := SkillPath.replace source target r.path } with
    | .error e => .error e
    | .ok rows => moveDescendants source target rows todo

/-- The transaction of `move`. -/
def move (rows : Rows) (source target : SkillPath) (revision : Int) : Except SkillFailure Rows :=
  match rows.getByPath source with
  | none => .error (.app .resourceNotFound "user skill entry not found")
  | some r =>
    if r.revision ≠ revision then .error (.revisionConflict r.id source)
    else
      match rows.setPath { r with path := target, revision := revision + 1 } with
      | .error e => .error e
      | .ok rows =>
        match moveDescendants source target rows (rows.filter fun r => source.Above r.path) with
        | .error e => .error e
        | .ok rows =>
          if (rows.getByPath target).isNone then .error (.app .internalError "user skill move failed") else .ok rows

/-- The transaction of `delete_entry_cas`. -/
def deleteEntry (rows : Rows) (id : Nat) (revision : Int) (path : SkillPath) : Except SkillFailure Rows :=
  if rows.any fun r => r.id = id ∧ r.revision = revision then
    .ok (rows.filter fun r => r.id ≠ id ∧ ¬ path.Above r.path)
  else .error (.revisionConflict id (((rows.getById id).map Row.path).getD path))

end Rows

/-! ### The machine -/

inductive Call
  | mkdir (path : String)
  -- `description` is the one that `_ensure_description` resolves
  | writeFile (path name content description : String) (revision : Option Int) (entryId : Option Nat)
  | movePath (fromPath toPath : String) (revision : Int)
  | removePath (path : String) (revision : Int)
  deriving DecidableEq

/-- A move of a path that is not to a place at or below it. -/
structure Move where
  source : SkillPath
  target : SkillPath
  revision : Int
  apart : ¬ source.IsPrefix target
  deriving DecidableEq

/-- Where a call is: the statement that it runs next, with what it needs for it. -/
inductive Pc
  | start
  -- a new entry: its parent, the limits, the insert
  | parent (path : SkillPath) (file : Option FileText)
  | nodes (path : SkillPath) (file : Option FileText)
  | files (path : SkillPath) (file : FileText)
  | total (path : SkillPath) (file : FileText)
  | create (path : SkillPath) (file : Option FileText)
  -- a file that is written over: the limit, the update, and the read after it
  | totalExcept (id : Nat) (revision : Int) (file : FileText)
  | update (id : Nat) (revision : Int) (file : FileText)
  | conflict (id : Nat)
  | reread (id : Nat)
  | destination (m : Move)
  | destinationParent (m : Move)
  | move (m : Move)
  | remove (id : Nat) (revision : Int) (path : SkillPath)
  | done
  | failed (e : SkillFailure)
  deriving DecidableEq

structure State (ι : Type*) where
  rows : Rows
  nextId : Nat
  pc : ι → Pc
  -- the updates that have taken effect, each an entry with the revision that it replaced
  written : List (Nat × Int)

namespace Pc

def invalid (message : String) : Pc := failed (.app .invalidParams message)

def notFound (message : String) : Pc := failed (.app .resourceNotFound message)

/-- After the path is found free: the parent, unless the path is at the top. -/
def new (path : SkillPath) (file : Option FileText) : Pc :=
  if path.parent.isNone then nodes path file else parent path file

end Pc

def mkdir (rows : Rows) (path : String) : Pc :=
  match normalizeSkillPath path with
  | .error e => .failed e
  | .ok p => if (rows.getByPath p).isSome then .invalid "skill path already exists" else .new p none

/-- `_write_file_by_id`. -/
def writeFileById (rows : Rows) (id : Nat) (file : FileText) (revision : Option Int) : Pc :=
  match rows.getById id with
  | none => .notFound "user skill file not found"
  | some r =>
    if r.isDir then .notFound "user skill file not found"
    else
      match revision with
      | none => .invalid "revision required to overwrite existing skill file"
      | some revision => .totalExcept id revision file

/-- `_commit_file_write` up to the first statement. -/
def commitFileWrite (rows : Rows) (path : SkillPath) (file : FileText) (revision : Option Int) : Pc :=
  match revision, rows.getByPath path with
  | some _, none => .notFound "user skill file not found"
  | some revision, some r => if r.isDir then .invalid "skill path is a directory" else .totalExcept r.id revision file
  | none, some r =>
    if r.isDir then .invalid "skill path is a directory"
    else .invalid "revision required to overwrite existing skill file"
  | none, none => .new path (some file)

def writeFile (rows : Rows) (path name content description : String) (revision : Option Int) (entryId : Option Nat) :
    Pc :=
  match normalizeSkillPath path with
  | .error e => .failed e
  | .ok p =>
    if strip name = "" then .invalid "name required"
    else if (strip name).length > MAX_NAME_LEN then .invalid "name too long"
    else if content.length > MAX_FILE_CHARS then .invalid "skill content too long"
    else
      match entryId with
      | some id => writeFileById rows id ⟨strip name, description, content⟩ revision
      | none => commitFileWrite rows p ⟨strip name, description, content⟩ revision

def movePath (rows : Rows) (fromPath toPath : String) (revision : Int) : Pc :=
  match normalizeSkillPath fromPath, normalizeSkillPath toPath with
  | .error e, _ => .failed e
  | _, .error e => .failed e
  | .ok source, .ok target =>
    if source = target then .invalid "source and destination paths are identical"
    else if h : source.IsPrefix target then .invalid "cannot move directory into its descendant"
    else if (rows.getByPath source).isNone then .notFound "user skill entry not found"
    else .destination ⟨source, target, revision, h⟩

def removePath (rows : Rows) (path : String) (revision : Int) : Pc :=
  match normalizeSkillPath path with
  | .error e => .failed e
  | .ok p =>
    match rows.getByPath p with
    | none => .notFound "user skill entry not found"
    | some r => .remove r.id revision p

/-- The checks of a call and its first statement. -/
def Call.begin (rows : Rows) : Call → Pc
  | mkdir path => Skills.mkdir rows path
  | writeFile path name content description revision entryId =>
    Skills.writeFile rows path name content description revision entryId
  | movePath fromPath toPath revision => Skills.movePath rows fromPath toPath revision
  | removePath path revision => Skills.removePath rows path revision

/-- The path is there, as a directory. -/
def Rows.hasDir (rows : Rows) (path : SkillPath) : Bool := (rows.getByPath path).any Row.isDir

/-- A check of the parent. -/
def Rows.parentMissing (rows : Rows) (path : SkillPath) : Bool := path.parent.any fun p => !rows.hasDir p

/-- What follows a statement that only reads. -/
def read (rows : Rows) : Pc → Option Pc
  | .parent path file =>
    some (if rows.parentMissing path then .invalid "parent directory not found" else .nodes path file)
  | .nodes path file =>
    some (if rows.countNodes ≥ MAX_NODES then .invalid "skill node limit exceeded"
      else match file with
        | none => .create path none
        | some f => .files path f)
  | .files path file =>
    some (if rows.countFiles ≥ MAX_FILES then .invalid "skill file limit exceeded" else .total path file)
  | .total path file =>
    some (if rows.sumFileChars none + file.content.length > MAX_TOTAL_FILE_CHARS then
        .invalid "skill total content size exceeded"
      else .create path (some file))
  | .totalExcept id revision file =>
    some (if rows.sumFileChars (some id) + file.content.length > MAX_TOTAL_FILE_CHARS then
        .invalid "skill total content size exceeded"
      else .update id revision file)
  | .conflict id => some (.failed (.revisionConflict id ((rows.getById id).map Row.path)))
  | .reread id => some (if (rows.getById id).isNone then .notFound "user skill entry not found" else .done)
  | .destination m =>
    some (if (rows.getByPath m.target).isSome then .invalid "destination path already exists"
      else if m.target.parent.isNone then .move m
      else .destinationParent m)
  | .destinationParent m =>
    some (if rows.parentMissing m.target then .invalid "destination parent directory not found" else .move m)
  | _ => none

section Model

variable {ι : Type*} [DecidableEq ι]

def State.setPc (s : State ι) (i : ι) (c : Pc) : State ι := { s with pc := Function.update s.pc i c }

/-- The end of a call whose last statement gives the rows or fails. -/
def State.commit (s : State ι) (i : ι) : Except SkillFailure Rows → State ι
  | .error e => s.setPc i (.failed e)
  | .ok rows => { s.setPc i .done with rows := rows }

/-- The next statement of a call. -/
def step (R : ι → Call) (s : State ι) (i : ι) : Option (State ι) :=
  match s.pc i with
  | .start => some (s.setPc i ((R i).begin s.rows))
  | .create path file => some { s.commit i (s.rows.create s.nextId path file) with nextId := s.nextId + 1 }
  | .update id revision file =>
    match s.rows.updateFile id revision file with
    | none => some (s.setPc i (.conflict id))
    | some rows => some { s.setPc i (.reread id) with rows := rows, written := (id, revision) :: s.written }
  | .move m => some (s.commit i (s.rows.move m.source m.target m.revision))
  | .remove id revision path => some (s.commit i (s.rows.deleteEntry id revision path))
  | c => (read s.rows c).map (s.setPc i)

/-- The calls on an empty scope. -/
def skills (R : ι → Call) : Machine (State ι) ι where
  init s := s = ⟨[], 1, fun _ => .start, []⟩
  step := step R

/-! ### The law and its condition -/

/-- What every state of a scope has to meet. -/
structure Law (s : State ι) : Prop where
  distinct : (s.rows.map Row.path).Nodup
  parents : ∀ r ∈ s.rows, ∀ p, r.path.parent = some p → ∃ d ∈ s.rows, d.path = p ∧ d.isDir = true
  nodes : s.rows.countNodes ≤ MAX_NODES
  files : s.rows.countFiles ≤ MAX_FILES
  chars : s.rows.sumFileChars none ≤ MAX_TOTAL_FILE_CHARS
  once : s.written.Nodup

/-- What a call has checked still holds when it writes. -/
def Safe (s : State ι) (i : ι) : Prop :=
  match s.pc i with
  | .create path file =>
    s.rows.getByPath path = none →
      s.rows.parentMissing path = false ∧ s.rows.countNodes < MAX_NODES ∧
        ∀ f ∈ file, s.rows.countFiles < MAX_FILES ∧
          s.rows.sumFileChars none + f.content.length ≤ MAX_TOTAL_FILE_CHARS
  | .update id revision file =>
    (∃ r ∈ s.rows, r.id = id ∧ r.revision = revision ∧ r.isDir = false) →
      s.rows.sumFileChars (some id) + file.content.length ≤ MAX_TOTAL_FILE_CHARS
  | .move m =>
    (∃ r ∈ s.rows, r.path = m.source ∧ r.revision = m.revision) → s.rows.parentMissing m.target = false
  | .remove id revision path =>
    ∀ r ∈ s.rows, r.id = id → r.revision = revision → ∀ q ∈ s.rows, r.path.Above q.path → path.Above q.path
  | _ => True

instance (s : State ι) (i : ι) : Decidable (Safe s i) := by
  unfold Safe
  repeat' split
  all_goals infer_instance

/-! ### Keys -/

/-- The primary key and the unique key. -/
structure Keyed (rows : Rows) : Prop where
  ids : (rows.map Row.id).Nodup
  paths : (rows.map Row.path).Nodup

variable {rows rows' : Rows}

theorem Keyed.eq_of_id (h : Keyed rows) {r q : Row} (hr : r ∈ rows) (hq : q ∈ rows) (heq : r.id = q.id) : r = q :=
  List.inj_on_of_nodup_map h.ids hr hq heq

theorem Keyed.eq_of_path (h : Keyed rows) {r q : Row} (hr : r ∈ rows) (hq : q ∈ rows) (heq : r.path = q.path) :
    r = q :=
  List.inj_on_of_nodup_map h.paths hr hq heq

theorem Keyed.sublist (h : Keyed rows) (hs : rows'.Sublist rows) : Keyed rows' :=
  ⟨h.ids.sublist (hs.map _), h.paths.sublist (hs.map _)⟩

theorem Keyed.map {g : Row → Row} (h : Keyed rows) (hg : ∀ r, (g r).id = r.id ∧ (g r).path = r.path) :
    Keyed (rows.map g) := by
  have hids : (rows.map g).map Row.id = rows.map Row.id := by
    rw [List.map_map]
    exact List.map_congr_left fun r _ => (hg r).1
  have hpaths : (rows.map g).map Row.path = rows.map Row.path := by
    rw [List.map_map]
    exact List.map_congr_left fun r _ => (hg r).2
  exact ⟨hids ▸ h.ids, hpaths ▸ h.paths⟩

theorem setPath_ok {row : Row} (h : Keyed rows) (hok : rows.setPath row = .ok rows') :
    Keyed rows' ∧ rows' = rows.map fun r => if r.id = row.id then row else r := by
  unfold Rows.setPath at hok
  split at hok
  · cases hok
  · next hfree =>
    cases hok
    have hne : ∀ r ∈ rows, r.id ≠ row.id → r.path ≠ row.path := by
      intro r hr hid hpath
      exact hfree (List.any_eq_true.2 ⟨r, hr, decide_eq_true ⟨hid, hpath⟩⟩)
    refine ⟨⟨?_, ?_⟩, rfl⟩
    · have hids : (rows.map fun r => if r.id = row.id then row else r).map Row.id = rows.map Row.id := by
        rw [List.map_map]
        refine List.map_congr_left fun r _ => ?_
        rw [Function.comp_apply]
        split
        · next hid => exact hid.symm
        · rfl
      rw [hids]
      exact h.ids
    · rw [List.map_map]
      refine List.Nodup.map_on (fun r hr q hq heq => ?_) (List.Nodup.of_map _ h.ids)
      rw [Function.comp_apply, Function.comp_apply] at heq
      split at heq
      · next hid =>
        split at heq
        · next hid' => exact h.eq_of_id hr hq (hid.trans hid'.symm)
        · next hid' => exact absurd heq.symm (hne q hq hid')
      · next hid =>
        split at heq
        · exact absurd heq (hne r hr hid)
        · exact h.eq_of_path hr hq heq

theorem moveDescendants_ok {source target : SkillPath} {todo : Rows} (h : Keyed rows) (htodo : ∀ r ∈ todo, r ∈ rows)
    (hnodup : todo.Nodup) (hok : rows.moveDescendants source target todo = .ok rows') :
    Keyed rows' ∧
      rows' = rows.map fun r => if r ∈ todo then { r with path := SkillPath.replace source target r.path } else r := by
  induction todo generalizing rows with
  | nil =>
    cases hok
    refine ⟨h, ?_⟩
    simp
  | cons d todo ih =>
    unfold Rows.moveDescendants at hok
    split at hok
    · cases hok
    · next rows₁ hset =>
      obtain ⟨h₁, rfl⟩ := setPath_ok h hset
      have hd : d ∈ rows := htodo d List.mem_cons_self
      have hids : ∀ r ∈ todo, r.id ≠ d.id := by
        intro r hr heq
        have hrd : r = d := h.eq_of_id (htodo r (List.mem_cons_of_mem d hr)) hd heq
        exact (List.nodup_cons.1 hnodup).1 (hrd ▸ hr)
      have hrest : ∀ r ∈ todo, r ∈ rows.map fun x => if x.id = d.id then
          ({ d with path := SkillPath.replace source target d.path } : Row) else x :=
        fun r hr => List.mem_map.2 ⟨r, htodo r (List.mem_cons_of_mem d hr), if_neg (hids r hr)⟩
      obtain ⟨h₂, rfl⟩ := ih h₁ hrest (List.nodup_cons.1 hnodup).2 hok
      refine ⟨h₂, ?_⟩
      rw [List.map_map]
      refine List.map_congr_left fun r hr => ?_
      rw [Function.comp_apply]
      by_cases hrd : r = d
      · subst hrd
        have hnew : ({ r with path := SkillPath.replace source target r.path } : Row) ∉ todo :=
          fun hm => hids _ hm rfl
        rw [if_pos rfl, if_neg hnew, if_pos List.mem_cons_self]
      · have hid : r.id ≠ d.id := fun heq => hrd (h.eq_of_id hr hd heq)
        rw [if_neg hid]
        simp [hrd]

/-- A row after a move. -/
def moved (source target : SkillPath) (revision : Int) (r : Row) : Row :=
  if r.path = source then { r with path := target, revision := revision + 1 }
  else if source.Above r.path then { r with path := SkillPath.replace source target r.path }
  else r

theorem getByPath_eq_some {path : SkillPath} {r : Row} (h : rows.getByPath path = some r) :
    r ∈ rows ∧ r.path = path := by
  rw [Rows.getByPath] at h
  have hpath := List.find?_some h
  exact ⟨List.mem_of_find?_eq_some h, of_decide_eq_true hpath⟩

theorem getByPath_eq_none {path : SkillPath} : rows.getByPath path = none ↔ ∀ r ∈ rows, r.path ≠ path := by
  rw [Rows.getByPath, List.find?_eq_none]
  refine forall₂_congr fun r _ => ?_
  rw [decide_eq_true_eq]

theorem move_ok {source target : SkillPath} {revision : Int} (h : Keyed rows) (happart : ¬ source.IsPrefix target)
    (hok : rows.move source target revision = .ok rows') :
    Keyed rows' ∧ (∃ r ∈ rows, r.path = source ∧ r.revision = revision) ∧
      rows' = rows.map (moved source target revision) := by
  unfold Rows.move at hok
  split at hok
  · cases hok
  · next row hget =>
    obtain ⟨hrow, hpath⟩ := getByPath_eq_some hget
    split at hok
    · cases hok
    · next hrev =>
      rw [not_ne_iff] at hrev
      split at hok
      · cases hok
      · next rows₁ hset =>
        obtain ⟨h₁, rfl⟩ := setPath_ok h hset
        split at hok
        · cases hok
        · next rows₂ hloop =>
          obtain ⟨h₂, rfl⟩ := moveDescendants_ok h₁ (fun r hr => (List.mem_filter.1 hr).1)
            ((List.Nodup.of_map _ h₁.ids).filter _) hloop
          split at hok
          · cases hok
          · cases hok
            refine ⟨h₂, ⟨row, hrow, hpath, hrev⟩, ?_⟩
            rw [List.map_map]
            refine List.map_congr_left fun r hr => ?_
            rw [Function.comp_apply, moved]
            by_cases hr' : r = row
            · subst hr'
              rw [if_pos rfl, if_pos hpath]
              exact if_neg fun hm => happart (of_decide_eq_true (List.mem_filter.1 hm).2).1
            · have hid : r.id ≠ row.id := fun heq => hr' (h.eq_of_id hr hrow heq)
              have hne : r.path ≠ source := fun heq => hr' (h.eq_of_path hr hrow (heq.trans hpath.symm))
              rw [if_neg hid, if_neg hne]
              refine if_congr ?_ rfl rfl
              rw [List.mem_filter, decide_eq_true_eq]
              exact and_iff_right (List.mem_map.2 ⟨r, hr, if_neg hid⟩)

theorem create_ok {id : Nat} {path : SkillPath} {file : Option FileText} (hok : rows.create id path file = .ok rows') :
    rows.getByPath path = none ∧ rows' = rows ++ [⟨id, path, file, 1⟩] := by
  unfold Rows.create at hok
  split at hok
  · cases hok
  · next hfree =>
    cases hok
    refine ⟨getByPath_eq_none.2 fun r hr hpath => hfree (List.any_eq_true.2 ⟨r, hr, decide_eq_true hpath⟩), rfl⟩

theorem overwrite_eq (id : Nat) (revision : Int) (file : FileText) (r : Row) :
    (r.overwrite id revision file).id = r.id ∧ (r.overwrite id revision file).path = r.path ∧
      r.revision ≤ (r.overwrite id revision file).revision ∧ (r.overwrite id revision file).isDir = r.isDir := by
  unfold Row.overwrite
  split
  · next hsel => exact ⟨rfl, rfl, hsel.2.1 ▸ Int.le_add_one le_rfl, hsel.2.2.symm⟩
  · exact ⟨rfl, rfl, le_rfl, rfl⟩

theorem overwrite_self {r : Row} (hdir : r.isDir = false) (file : FileText) :
    r.overwrite r.id r.revision file = { r with file := some file, revision := r.revision + 1 } :=
  if_pos ⟨rfl, rfl, hdir⟩

theorem updateFile_eq_some {id : Nat} {revision : Int} {file : FileText}
    (h : rows.updateFile id revision file = some rows') :
    (∃ r ∈ rows, r.id = id ∧ r.revision = revision ∧ r.isDir = false) ∧
      rows' = rows.map (Row.overwrite id revision file) := by
  unfold Rows.updateFile at h
  split at h
  · next hany =>
    cases h
    obtain ⟨r, hr, hsel⟩ := List.any_eq_true.1 hany
    exact ⟨⟨r, hr, of_decide_eq_true hsel⟩, rfl⟩
  · cases h

theorem deleteEntry_ok {id : Nat} {revision : Int} {path : SkillPath}
    (hok : rows.deleteEntry id revision path = .ok rows') :
    (∃ r ∈ rows, r.id = id ∧ r.revision = revision) ∧ rows' = rows.filter fun r => r.id ≠ id ∧ ¬ path.Above r.path := by
  unfold Rows.deleteEntry at hok
  split at hok
  · next hany =>
    cases hok
    obtain ⟨r, hr, hsel⟩ := List.any_eq_true.1 hany
    exact ⟨⟨r, hr, of_decide_eq_true hsel⟩, rfl⟩
  · cases hok

/-- What a step of a call in the position `c` does to the table. -/
inductive Effect (s s' : State ι) : Pc → Prop
  | none (c : Pc) (hrows : s'.rows = s.rows) (hid : s.nextId ≤ s'.nextId) (hwritten : s'.written = s.written) :
      Effect s s' c
  | create (path : SkillPath) (file : Option FileText) (hfree : s.rows.getByPath path = none)
      (hrows : s'.rows = s.rows ++ [⟨s.nextId, path, file, 1⟩]) (hid : s'.nextId = s.nextId + 1)
      (hwritten : s'.written = s.written) : Effect s s' (.create path file)
  | update (id : Nat) (revision : Int) (file : FileText)
      (hrows : s.rows.updateFile id revision file = some s'.rows) (hid : s'.nextId = s.nextId)
      (hwritten : s'.written = (id, revision) :: s.written) : Effect s s' (.update id revision file)
  | move (m : Move) (hrows : s.rows.move m.source m.target m.revision = .ok s'.rows) (hid : s'.nextId = s.nextId)
      (hwritten : s'.written = s.written) : Effect s s' (.move m)
  | remove (id : Nat) (revision : Int) (path : SkillPath)
      (hrows : s.rows.deleteEntry id revision path = .ok s'.rows) (hid : s'.nextId = s.nextId)
      (hwritten : s'.written = s.written) : Effect s s' (.remove id revision path)

variable {R : ι → Call} {s s' : State ι} {i : ι}

theorem effect_of_step (h : step R s i = some s') : Effect s s' (s.pc i) := by
  have hread : ∀ c : Option Pc, c.map (s.setPc i) = some s' → Effect s s' (s.pc i) := by
    intro c hc
    obtain ⟨d, -, rfl⟩ := Option.map_eq_some_iff.1 hc
    exact .none _ rfl le_rfl rfl
  unfold step at h
  split at h
  · cases h
    exact .none _ rfl le_rfl rfl
  · next path file hpc =>
    rw [hpc]
    cases hrows : s.rows.create s.nextId path file with
    | error e =>
      rw [hrows] at h
      cases h
      exact .none _ rfl (Nat.le_succ _) rfl
    | ok rows =>
      rw [hrows] at h
      cases h
      obtain ⟨hfree, rfl⟩ := create_ok hrows
      exact .create path file hfree rfl rfl rfl
  · next id revision file hpc =>
    rw [hpc]
    split at h
    · cases h
      exact .none _ rfl le_rfl rfl
    · next rows hrows =>
      cases h
      exact .update id revision file hrows rfl rfl
  · next m hpc =>
    rw [hpc]
    cases hrows : s.rows.move m.source m.target m.revision with
    | error e =>
      rw [hrows] at h
      cases h
      exact .none _ rfl le_rfl rfl
    | ok rows =>
      rw [hrows] at h
      cases h
      exact .move m hrows rfl rfl
  · next id revision path hpc =>
    rw [hpc]
    cases hrows : s.rows.deleteEntry id revision path with
    | error e =>
      rw [hrows] at h
      cases h
      exact .none _ rfl le_rfl rfl
    | ok rows =>
      rw [hrows] at h
      cases h
      exact .remove id revision path hrows rfl rfl
  · exact hread _ h

/-- What holds in every run: unique keys, and revisions that are past the ones written over. -/
structure Keys (s : State ι) : Prop where
  keyed : Keyed s.rows
  fresh : ∀ r ∈ s.rows, r.id < s.nextId
  written : ∀ p ∈ s.written, p.1 < s.nextId ∧ ∀ r ∈ s.rows, r.id = p.1 → p.2 < r.revision
  once : s.written.Nodup

/-- A change of the rows that keeps their ids and does not lower their revisions. -/
theorem keys_map {g : Row → Row} (h : Keys s) (hkeyed : Keyed s'.rows) (hrows : s'.rows = s.rows.map g)
    (hid : s'.nextId = s.nextId) (hwritten : s'.written = s.written)
    (hg : ∀ r ∈ s.rows, (g r).id = r.id ∧ r.revision ≤ (g r).revision) : Keys s' := by
  refine ⟨hkeyed, fun r hr => ?_, fun p hp => ?_, hwritten ▸ h.once⟩
  · rw [hrows] at hr
    obtain ⟨q, hq, rfl⟩ := List.mem_map.1 hr
    rw [(hg q hq).1, hid]
    exact h.fresh q hq
  · rw [hwritten] at hp
    refine ⟨hid ▸ (h.written p hp).1, fun r hr heq => ?_⟩
    rw [hrows] at hr
    obtain ⟨q, hq, rfl⟩ := List.mem_map.1 hr
    rw [(hg q hq).1] at heq
    exact lt_of_lt_of_le ((h.written p hp).2 q hq heq) (hg q hq).2

theorem keyed_create (h : Keys s) {path : SkillPath} (file : Option FileText) (hfree : s.rows.getByPath path = none) :
    Keyed (s.rows ++ [⟨s.nextId, path, file, 1⟩]) := by
  constructor
  · rw [List.map_append]
    refine h.keyed.ids.append (List.nodup_singleton _) (List.disjoint_singleton.2 fun hm => ?_)
    obtain ⟨r, hr, heq⟩ := List.mem_map.1 hm
    exact absurd heq (h.fresh r hr).ne
  · rw [List.map_append]
    refine h.keyed.paths.append (List.nodup_singleton _) (List.disjoint_singleton.2 fun hm => ?_)
    obtain ⟨r, hr, heq⟩ := List.mem_map.1 hm
    exact getByPath_eq_none.1 hfree r hr heq

theorem keys_step (h : Keys s) (hstep : step R s i = some s') : Keys s' := by
  have heffect := effect_of_step hstep
  generalize s.pc i = c at heffect
  cases heffect with
  | none _ hrows hid hwritten =>
    refine ⟨hrows ▸ h.keyed, fun r hr => ?_, fun p hp => ?_, hwritten ▸ h.once⟩
    · exact (h.fresh r (hrows ▸ hr)).trans_le hid
    · obtain ⟨hlt, hrev⟩ := h.written p (hwritten ▸ hp)
      exact ⟨hlt.trans_le hid, fun r hr => hrev r (hrows ▸ hr)⟩
  | create path file hfree hrows hid hwritten =>
    refine ⟨hrows ▸ keyed_create h file hfree, fun r hr => ?_, fun p hp => ?_, hwritten ▸ h.once⟩
    · rw [hrows] at hr
      rw [hid]
      rcases List.mem_append.1 hr with hr | hr
      · exact (h.fresh r hr).trans (Nat.lt_succ_self _)
      · rw [List.mem_singleton.1 hr]
        exact Nat.lt_succ_self _
    · obtain ⟨hlt, hrev⟩ := h.written p (hwritten ▸ hp)
      refine ⟨hid ▸ hlt.trans (Nat.lt_succ_self _), fun r hr heq => ?_⟩
      rw [hrows] at hr
      rcases List.mem_append.1 hr with hr | hr
      · exact hrev r hr heq
      · rw [List.mem_singleton.1 hr] at heq
        exact absurd heq.symm hlt.ne
  | update id revision file hrows hid hwritten =>
    obtain ⟨⟨q, hq, rfl, rfl, hqdir⟩, hrows⟩ := updateFile_eq_some hrows
    have hg := overwrite_eq q.id q.revision file
    have hkeyed : Keyed s'.rows := hrows ▸ h.keyed.map fun r => ⟨(hg r).1, (hg r).2.1⟩
    have hnew : (q.id, q.revision) ∉ s.written := by
      intro hmem
      exact lt_irrefl _ ((h.written _ hmem).2 q hq rfl)
    have hkeys : Keys { s' with written := s.written } :=
      keys_map h hkeyed hrows hid rfl fun r _ => ⟨(hg r).1, (hg r).2.2.1⟩
    refine ⟨hkeyed, hkeys.fresh, fun p hp => ?_, hwritten ▸ List.nodup_cons.2 ⟨hnew, h.once⟩⟩
    rw [hwritten] at hp
    rcases List.mem_cons.1 hp with rfl | hp
    · refine ⟨hid ▸ h.fresh q hq, fun r hr heq => ?_⟩
      rw [hrows] at hr
      obtain ⟨x, hx, rfl⟩ := List.mem_map.1 hr
      have hxq : x = q := h.keyed.eq_of_id hx hq ((hg x).1.symm.trans heq)
      rw [hxq, overwrite_self hqdir]
      exact Int.lt_succ _
    · exact hkeys.written p hp
  | move m hrows hid hwritten =>
    obtain ⟨hkeyed, ⟨q, hq, hqpath, hqrev⟩, hmap⟩ := move_ok h.keyed m.apart hrows
    refine keys_map h hkeyed hmap hid hwritten fun r hr => ?_
    unfold moved
    split
    · next hpath =>
      have hrq : r = q := h.keyed.eq_of_path hr hq (hpath.trans hqpath.symm)
      refine ⟨rfl, ?_⟩
      rw [hrq, hqrev]
      exact Int.le_add_one le_rfl
    · split
      · exact ⟨rfl, le_rfl⟩
      · exact ⟨rfl, le_rfl⟩
  | remove id revision path hrows hid hwritten =>
    obtain ⟨-, hrows⟩ := deleteEntry_ok hrows
    have hsub : s'.rows.Sublist s.rows := hrows ▸ List.filter_sublist
    refine ⟨h.keyed.sublist hsub, fun r hr => hid ▸ h.fresh r (hsub.subset hr), fun p hp => ?_, hwritten ▸ h.once⟩
    obtain ⟨hlt, hrev⟩ := h.written p (hwritten ▸ hp)
    exact ⟨hid ▸ hlt, fun r hr => hrev r (hsub.subset hr)⟩

theorem keys_reach {C : State ι → ι → Prop} (h : (skills R).Reach C s) : Keys s := by
  refine Machine.Reach.induct ?_ (fun s i s' hs _ hstep => keys_step hs hstep) h
  rintro s rfl
  exact ⟨⟨List.nodup_nil, List.nodup_nil⟩, nofun, nofun, List.nodup_nil⟩

/-! ### The tree -/

theorem SkillPath.parent_eq_some {p q : SkillPath} : p.parent = some q ↔ ∃ a, p.segments = q.segments ++ [a] := by
  unfold SkillPath.parent
  constructor
  · intro h
    split at h
    · cases h
    · cases h
      exact ⟨p.segments.getLast p.ne_nil, (List.dropLast_append_getLast p.ne_nil).symm⟩
  · rintro ⟨a, ha⟩
    have hdrop : p.segments.dropLast = q.segments := by rw [ha, List.dropLast_concat]
    rw [dif_neg fun hnil => q.ne_nil (hdrop.symm.trans hnil)]
    obtain ⟨segments, hne⟩ := q
    simpa using hdrop

/-- The paths of the rows with `P`. -/
def pathsOf (P : Row → Prop) (rows : Rows) : Set (List String) := {p | ∃ r ∈ rows, P r ∧ r.path.segments = p}

abbrev pathSet (rows : Rows) : Set (List String) := pathsOf (fun _ => True) rows

abbrev dirSet (rows : Rows) : Set (List String) := pathsOf (fun r => r.isDir = true) rows

theorem dirSet_subset (rows : Rows) : dirSet rows ⊆ pathSet rows := by
  rintro p ⟨r, hr, -, rfl⟩
  exact ⟨r, hr, trivial, rfl⟩

theorem mem_dirSet {p : SkillPath} : p.segments ∈ dirSet rows ↔ ∃ d ∈ rows, d.path = p ∧ d.isDir = true := by
  constructor
  · rintro ⟨d, hd, hdir, heq⟩
    exact ⟨d, hd, SkillPath.ext heq, hdir⟩
  · rintro ⟨d, hd, rfl, hdir⟩
    exact ⟨d, hd, hdir, rfl⟩

theorem rooted_iff :
    Rooted (pathSet rows) (dirSet rows) ↔
      ∀ r ∈ rows, ∀ p, r.path.parent = some p → ∃ d ∈ rows, d.path = p ∧ d.isDir = true := by
  constructor
  · intro h r hr p hp
    obtain ⟨a, ha⟩ := SkillPath.parent_eq_some.1 hp
    exact mem_dirSet.1 (h p.segments a p.ne_nil ⟨r, hr, trivial, ha⟩)
  · rintro h p a hp ⟨r, hr, -, ha⟩
    exact mem_dirSet.2 (h r hr ⟨p, hp⟩ (SkillPath.parent_eq_some.2 ⟨a, ha⟩))

theorem hasDir_iff (h : Keyed rows) {p : SkillPath} :
    rows.hasDir p = true ↔ ∃ d ∈ rows, d.path = p ∧ d.isDir = true := by
  rw [Rows.hasDir, Option.any_eq_true]
  constructor
  · rintro ⟨d, hd, hdir⟩
    obtain ⟨hmem, hpath⟩ := getByPath_eq_some hd
    exact ⟨d, hmem, hpath, hdir⟩
  · rintro ⟨d, hd, hpath, hdir⟩
    cases hget : rows.getByPath p with
    | none => exact absurd hpath (getByPath_eq_none.1 hget d hd)
    | some e =>
      obtain ⟨he, hepath⟩ := getByPath_eq_some hget
      have hde : d = e := h.eq_of_path hd he (hpath.trans hepath.symm)
      exact ⟨e, rfl, hde ▸ hdir⟩

theorem parentMissing_eq_false (h : Keyed rows) {path : SkillPath} :
    rows.parentMissing path = false ↔ ∀ p a, p ≠ [] → path.segments = p ++ [a] → p ∈ dirSet rows := by
  rw [Rows.parentMissing, Option.any_eq_false]
  constructor
  · intro hall p a hp ha
    have hdir := hall ⟨p, hp⟩ (SkillPath.parent_eq_some.2 ⟨a, ha⟩)
    rw [Bool.not_eq_false', hasDir_iff h] at hdir
    exact (mem_dirSet (p := ⟨p, hp⟩)).2 hdir
  · intro hall p hp
    obtain ⟨a, ha⟩ := SkillPath.parent_eq_some.1 hp
    rw [Bool.not_eq_false', hasDir_iff h]
    exact mem_dirSet.1 (hall p.segments a p.ne_nil ha)

theorem pathSet_create (id : Nat) (path : SkillPath) (file : Option FileText) :
    pathSet (rows ++ [⟨id, path, file, 1⟩]) = insert path.segments (pathSet rows) := by
  ext p
  constructor
  · rintro ⟨r, hr, -, rfl⟩
    rcases List.mem_append.1 hr with hr | hr
    · exact .inr ⟨r, hr, trivial, rfl⟩
    · rw [List.mem_singleton.1 hr]
      exact .inl rfl
  · rintro (rfl | ⟨r, hr, -, rfl⟩)
    · exact ⟨_, List.mem_append_right _ (List.mem_singleton_self _), trivial, rfl⟩
    · exact ⟨r, List.mem_append_left _ hr, trivial, rfl⟩

theorem dirSet_subset_create (id : Nat) (path : SkillPath) (file : Option FileText) :
    dirSet rows ⊆ dirSet (rows ++ [⟨id, path, file, 1⟩]) := by
  rintro p ⟨r, hr, hdir, rfl⟩
  exact ⟨r, List.mem_append_left _ hr, hdir, rfl⟩

/-- Rows that are changed one by one. -/
theorem pathsOf_map {P : Row → Prop} {g : Row → Row} {f : List String → List String}
    (hg : ∀ r ∈ rows, (g r).path.segments = f r.path.segments ∧ (P (g r) ↔ P r)) :
    pathsOf P (rows.map g) = f '' pathsOf P rows := by
  ext p
  constructor
  · rintro ⟨r, hr, hP, rfl⟩
    obtain ⟨q, hq, rfl⟩ := List.mem_map.1 hr
    exact ⟨_, ⟨q, hq, (hg q hq).2.1 hP, rfl⟩, (hg q hq).1.symm⟩
  · rintro ⟨-, ⟨q, hq, hP, rfl⟩, rfl⟩
    exact ⟨g q, List.mem_map_of_mem hq, (hg q hq).2.2 hP, (hg q hq).1⟩

theorem moved_segments (source target : SkillPath) (revision : Int) (r : Row) :
    (moved source target revision r).path.segments = graft source.segments target.segments r.path.segments ∧
      (moved source target revision r).isDir = r.isDir := by
  unfold moved
  split
  · next hpath =>
    exact ⟨hpath ▸ graft_self.symm, rfl⟩
  · next hpath =>
    split
    · next habove =>
      refine ⟨?_, rfl⟩
      rw [graft, if_pos habove.1]
      rfl
    · next habove =>
      refine ⟨(graft_of_not fun hpre => habove ⟨hpre, fun heq => hpath ?_⟩).symm, rfl⟩
      exact SkillPath.ext heq.symm

/-- What a removal takes away. -/
def removed (q path : SkillPath) : Set (List String) := {p | p = q.segments ∨ Below path.segments p}

theorem pathsOf_filter (h : Keyed rows) {q : Row} (hq : q ∈ rows) (path : SkillPath) (P : Row → Prop) :
    pathsOf P (rows.filter fun r => r.id ≠ q.id ∧ ¬ path.Above r.path) = pathsOf P rows \ removed q.path path := by
  ext p
  constructor
  · rintro ⟨r, hr, hP, rfl⟩
    obtain ⟨hr, hstay⟩ := List.mem_filter.1 hr
    obtain ⟨hid, habove⟩ := of_decide_eq_true hstay
    refine ⟨⟨r, hr, hP, rfl⟩, ?_⟩
    rintro (heq | hbelow)
    · exact hid (congrArg Row.id (h.eq_of_path hr hq (SkillPath.ext heq)))
    · exact habove hbelow
  · rintro ⟨⟨r, hr, hP, rfl⟩, hstay⟩
    refine ⟨r, List.mem_filter.2 ⟨hr, decide_eq_true ⟨fun hid => hstay (.inl ?_), fun hb => hstay (.inr hb)⟩⟩, hP, rfl⟩
    rw [h.eq_of_id hr hq hid]

/-! ### One write -/

/-- The tree and the limits. -/
structure Sound (rows : Rows) : Prop where
  rooted : Rooted (pathSet rows) (dirSet rows)
  nodes : rows.countNodes ≤ MAX_NODES
  files : rows.countFiles ≤ MAX_FILES
  chars : rows.sumFileChars none ≤ MAX_TOTAL_FILE_CHARS

theorem law_iff (h : Keys s) : Law s ↔ Sound s.rows :=
  ⟨fun hl => ⟨rooted_iff.2 hl.parents, hl.nodes, hl.files, hl.chars⟩,
    fun hs => ⟨h.keyed.paths, rooted_iff.1 hs.rooted, hs.nodes, hs.files, hs.chars, h.once⟩⟩

theorem sumFileChars_none : rows.sumFileChars none = (rows.map Row.chars).sum := by
  rw [Rows.sumFileChars, List.filter_eq_self.2 fun r _ => decide_eq_true (Option.some_ne_none r.id)]

theorem rooted_create (hr : Rooted (pathSet rows) (dirSet rows)) (h : Keyed rows) (id : Nat) (path : SkillPath)
    (file : Option FileText) :
    Rooted (pathSet (rows ++ [⟨id, path, file, 1⟩])) (dirSet (rows ++ [⟨id, path, file, 1⟩])) ↔
      rows.parentMissing path = false := by
  rw [parentMissing_eq_false h, pathSet_create]
  constructor
  · intro hrooted p a hp hpath
    obtain ⟨d, hd, hdir, hdp⟩ := hrooted p a hp (hpath ▸ Set.mem_insert _ _)
    rcases List.mem_append.1 hd with hd | hd
    · exact ⟨d, hd, hdir, hdp⟩
    · rw [List.mem_singleton.1 hd] at hdp
      have hlen := congrArg List.length (hpath.symm.trans hdp)
      rw [List.length_append, List.length_singleton] at hlen
      omega
  · intro hparent
    exact rooted_insert hr (dirSet_subset_create id path file) hparent

theorem sound_create (hs : Sound rows) (h : Keyed rows) (id : Nat) (path : SkillPath) (file : Option FileText) :
    Sound (rows ++ [⟨id, path, file, 1⟩]) ↔
      rows.parentMissing path = false ∧ rows.countNodes < MAX_NODES ∧
        ∀ f ∈ file, rows.countFiles < MAX_FILES ∧ rows.sumFileChars none + f.content.length ≤ MAX_TOTAL_FILE_CHARS := by
  have hrooted := rooted_create hs.rooted h id path file
  have hnodes : Rows.countNodes (rows ++ [⟨id, path, file, 1⟩]) = rows.countNodes + 1 := List.length_append
  have hchars : Rows.sumFileChars (rows ++ [⟨id, path, file, 1⟩]) none =
      rows.sumFileChars none + (file.map fun f => f.content.length).getD 0 := by
    rw [sumFileChars_none, sumFileChars_none, List.map_append, List.sum_append]
    rfl
  cases file with
  | none =>
    have hfiles : Rows.countFiles (rows ++ [⟨id, path, none, 1⟩]) = rows.countFiles := by
      simp [Rows.countFiles, Row.isDir]
    rw [Option.map_none, Option.getD_none, Nat.add_zero] at hchars
    constructor
    · intro hnew
      exact ⟨hrooted.1 hnew.rooted, Nat.lt_of_succ_le (hnodes.ge.trans hnew.nodes), nofun⟩
    · rintro ⟨hparent, hlt, -⟩
      exact ⟨hrooted.2 hparent, hnodes ▸ hlt, hfiles ▸ hs.files, hchars ▸ hs.chars⟩
  | some f =>
    have hfiles : Rows.countFiles (rows ++ [⟨id, path, some f, 1⟩]) = rows.countFiles + 1 := by
      simp [Rows.countFiles, Row.isDir]
    rw [Option.map_some, Option.getD_some] at hchars
    constructor
    · intro hnew
      refine ⟨hrooted.1 hnew.rooted, Nat.lt_of_succ_le (hnodes.ge.trans hnew.nodes), ?_⟩
      intro g hg
      cases Option.mem_some_iff.1 hg
      exact ⟨Nat.lt_of_succ_le (hfiles.ge.trans hnew.files), hchars ▸ hnew.chars⟩
    · rintro ⟨hparent, hlt, hfile⟩
      obtain ⟨hfew, hsum⟩ := hfile f rfl
      exact ⟨hrooted.2 hparent, hnodes ▸ hlt, hfiles ▸ hfew, hchars ▸ hsum⟩

/-- The characters after a change of one row. -/
theorem sumFileChars_map {g : Row → Row} {q : Row} (hids : (rows.map Row.id).Nodup) (hq : q ∈ rows)
    (hg : ∀ r ∈ rows, r.id ≠ q.id → g r = r) :
    Rows.sumFileChars (rows.map g) none = rows.sumFileChars (some q.id) + (g q).chars := by
  rw [sumFileChars_none]
  induction rows with
  | nil => cases hq
  | cons r rows ih =>
    rw [List.map_cons, List.nodup_cons] at hids
    rw [List.map_cons, List.map_cons, List.sum_cons, Rows.sumFileChars, List.filter_cons]
    have hother : ∀ x ∈ rows, x.id ≠ r.id := fun x hx heq => hids.1 (List.mem_map.2 ⟨x, hx, heq⟩)
    rcases List.mem_cons.1 hq with rfl | hq
    · have hmap : rows.map g = rows := by
        have hsame : ∀ x ∈ rows, g x = x := fun x hx => hg x (List.mem_cons_of_mem q hx) (hother x hx)
        exact (List.map_congr_left hsame).trans (List.map_id' rows)
      have hfilter : (rows.filter fun x => some x.id ≠ some q.id) = rows :=
        List.filter_eq_self.2 fun x hx => decide_eq_true fun heq => hother x hx (Option.some.inj heq)
      rw [if_neg (by simp), hmap, hfilter, Nat.add_comm]
    · have hne : r.id ≠ q.id := fun heq => hother q hq heq.symm
      have hrest := ih hids.2 hq fun x hx => hg x (List.mem_cons_of_mem r hx)
      rw [Rows.sumFileChars] at hrest
      rw [if_pos (by simpa using hne), hg r List.mem_cons_self hne, hrest, List.map_cons, List.sum_cons, Nat.add_assoc]

theorem countFiles_map {g : Row → Row} (hg : ∀ r ∈ rows, (g r).isDir = r.isDir) :
    Rows.countFiles (rows.map g) = rows.countFiles := by
  rw [Rows.countFiles, Rows.countFiles, List.filter_map, List.length_map]
  refine congrArg List.length (List.filter_congr fun r hr => ?_)
  rw [Function.comp_apply, hg r hr]

theorem sound_update (hs : Sound rows) (h : Keyed rows) {q : Row} (hq : q ∈ rows) (hdir : q.isDir = false)
    (file : FileText) :
    Sound (rows.map (Row.overwrite q.id q.revision file)) ↔
      rows.sumFileChars (some q.id) + file.content.length ≤ MAX_TOTAL_FILE_CHARS := by
  have hg := overwrite_eq q.id q.revision file
  have hpaths : pathSet (rows.map (Row.overwrite q.id q.revision file)) = pathSet rows :=
    (pathsOf_map (f := id) fun r _ => ⟨congrArg SkillPath.segments (hg r).2.1, Iff.rfl⟩).trans (Set.image_id _)
  have hdirs : dirSet (rows.map (Row.overwrite q.id q.revision file)) = dirSet rows :=
    (pathsOf_map (f := id) fun r _ => ⟨congrArg SkillPath.segments (hg r).2.1, by rw [(hg r).2.2.2]⟩).trans
      (Set.image_id _)
  have hchars : Rows.sumFileChars (rows.map (Row.overwrite q.id q.revision file)) none =
      rows.sumFileChars (some q.id) + file.content.length := by
    have hother : ∀ r ∈ rows, r.id ≠ q.id → r.overwrite q.id q.revision file = r :=
      fun r _ hne => if_neg fun hsel => hne hsel.1
    rw [sumFileChars_map h.ids hq hother, overwrite_self hdir]
    rfl
  constructor
  · intro hnew
    exact hchars ▸ hnew.chars
  · intro hsum
    refine ⟨hpaths ▸ hdirs ▸ hs.rooted, ?_, ?_, hchars ▸ hsum⟩
    · rw [Rows.countNodes, List.length_map]
      exact hs.nodes
    · rw [countFiles_map fun r _ => (hg r).2.2.2]
      exact hs.files

theorem sound_move (hs : Sound rows) (h : Keyed rows) (m : Move) {q : Row} (hq : q ∈ rows) (hpath : q.path = m.source) :
    Sound (rows.map (moved m.source m.target m.revision)) ↔ rows.parentMissing m.target = false := by
  have hg := moved_segments m.source m.target m.revision
  have hpaths : pathSet (rows.map (moved m.source m.target m.revision)) =
      graft m.source.segments m.target.segments '' pathSet rows :=
    pathsOf_map fun r _ => ⟨(hg r).1, Iff.rfl⟩
  have hdirs : dirSet (rows.map (moved m.source m.target m.revision)) =
      graft m.source.segments m.target.segments '' dirSet rows :=
    pathsOf_map fun r _ => ⟨(hg r).1, by rw [(hg r).2]⟩
  have hchars : ∀ r : Row, (moved m.source m.target m.revision r).chars = r.chars := by
    intro r
    unfold moved
    split
    · rfl
    · split <;> rfl
  rw [parentMissing_eq_false h]
  constructor
  · intro hnew p a hp htarget
    have hrooted := hnew.rooted
    rw [hpaths, hdirs] at hrooted
    exact hrooted.of_graft ⟨q, hq, trivial, congrArg SkillPath.segments hpath⟩ hp htarget
  · intro hparent
    refine ⟨?_, ?_, ?_, ?_⟩
    · rw [hpaths, hdirs]
      exact rooted_graft hs.rooted m.source.ne_nil m.apart hparent
    · rw [Rows.countNodes, List.length_map]
      exact hs.nodes
    · rw [countFiles_map fun r _ => (hg r).2]
      exact hs.files
    · have hsame : (rows.map (moved m.source m.target m.revision)).map Row.chars = rows.map Row.chars := by
        rw [List.map_map]
        exact List.map_congr_left fun r _ => hchars r
      rw [sumFileChars_none, hsame, ← sumFileChars_none]
      exact hs.chars

theorem sound_remove (hs : Sound rows) (h : Keyed rows) {q : Row} (hq : q ∈ rows) (path : SkillPath) :
    Sound (rows.filter fun r => r.id ≠ q.id ∧ ¬ path.Above r.path) ↔
      ∀ r ∈ rows, q.path.Above r.path → path.Above r.path := by
  have hsub : (rows.filter fun r => r.id ≠ q.id ∧ ¬ path.Above r.path).Sublist rows := List.filter_sublist
  have hpaths : pathSet (rows.filter fun r => r.id ≠ q.id ∧ ¬ path.Above r.path) = pathSet rows \ removed q.path path :=
    pathsOf_filter h hq path _
  have hdirs : dirSet (rows.filter fun r => r.id ≠ q.id ∧ ¬ path.Above r.path) = dirSet rows \ removed q.path path :=
    pathsOf_filter h hq path _
  constructor
  · intro hnew r hr habove
    by_contra hnot
    have hrooted := hnew.rooted
    rw [hpaths, hdirs] at hrooted
    refine not_rooted_diff (dirSet_subset rows) q.path.ne_nil (.inl rfl) ⟨r, hr, trivial, rfl⟩ ?_ habove hrooted
    rintro (heq | hbelow)
    · exact habove.2 heq.symm
    · exact hnot hbelow
  · intro hbelow
    refine ⟨?_, hsub.length_le.trans hs.nodes, (hsub.filter _).length_le.trans hs.files, ?_⟩
    · rw [hpaths, hdirs]
      rintro p a hp ⟨hmem, hstay⟩
      refine rooted_diff hs.rooted (fun p a hgone hmem => ?_) p a hp ⟨hmem, hstay⟩
      obtain ⟨r, hr, -, hrp⟩ := hmem
      have hstep : Below p r.path.segments := hrp.symm ▸ below_concat_iff.2 (List.prefix_refl p)
      rw [← hrp]
      rcases hgone with rfl | hgone
      · exact .inr (hbelow r hr hstep)
      · exact .inr (hgone.trans_prefix hstep.1)
    · rw [sumFileChars_none]
      refine ((hsub.map Row.chars).sum_le_sum fun _ _ => Nat.zero_le _).trans ?_
      rw [← sumFileChars_none]
      exact hs.chars

/-! ### Runs -/

/-- A step that changes the table keeps the law exactly when it is safe. -/
theorem law_step_iff (h : Keys s) (hl : Law s) (hstep : step R s i = some s') (hwrites : s'.rows ≠ s.rows) :
    Law s' ↔ Safe s i := by
  have hs : Sound s.rows := (law_iff h).1 hl
  rw [law_iff (keys_step h hstep)]
  have heffect := effect_of_step hstep
  generalize hpc : s.pc i = c at heffect
  cases heffect with
  | none _ hrows => exact absurd hrows hwrites
  | create path file hfree hrows =>
    rw [hrows, sound_create hs h.keyed]
    simp only [Safe, hpc]
    exact ⟨fun hsafe _ => hsafe, fun hsafe => hsafe hfree⟩
  | update id revision file hrows =>
    obtain ⟨⟨q, hq, rfl, rfl, hdir⟩, hmap⟩ := updateFile_eq_some hrows
    rw [hmap, sound_update hs h.keyed hq hdir]
    simp only [Safe, hpc]
    exact ⟨fun hsafe _ => hsafe, fun hsafe => hsafe ⟨q, hq, rfl, rfl, hdir⟩⟩
  | move m hrows =>
    obtain ⟨-, ⟨q, hq, hpath, hrev⟩, hmap⟩ := move_ok h.keyed m.apart hrows
    rw [hmap, sound_move hs h.keyed m hq hpath]
    simp only [Safe, hpc]
    exact ⟨fun hsafe _ => hsafe, fun hsafe => hsafe ⟨q, hq, hpath, hrev⟩⟩
  | remove id revision path hrows =>
    obtain ⟨⟨q, hq, rfl, rfl⟩, hfilter⟩ := deleteEntry_ok hrows
    rw [hfilter, sound_remove hs h.keyed hq]
    simp only [Safe, hpc]
    constructor
    · intro hsafe r hr hid _
      rw [h.keyed.eq_of_id hr hq hid]
      exact hsafe
    · intro hsafe
      exact hsafe q hq rfl rfl

/-- In every run whose writes are safe, the scope is a tree within its limits, and no revision is written over twice. -/
theorem tree_of_safe (h : (skills R).Reach Safe s) : Law s := by
  have hinv : Keys s ∧ Law s := by
    refine Machine.Reach.induct (P := fun s => Keys s ∧ Law s) ?_ (fun s i s' hs hsafe hstep => ?_) h
    · intro s hinit
      have hkeys : Keys s := keys_reach (C := Safe) (.of_init hinit)
      subst hinit
      exact ⟨hkeys, ⟨List.nodup_nil, nofun, Nat.zero_le _, Nat.zero_le _, Nat.zero_le _, List.nodup_nil⟩⟩
    · have hkeys : Keys s' := keys_step hs.1 hstep
      refine ⟨hkeys, ?_⟩
      by_cases hwrites : s'.rows = s.rows
      · rw [law_iff hkeys, hwrites]
        exact (law_iff hs.1).1 hs.2
      · exact (law_step_iff hs.1 hs.2 hstep hwrites).2 hsafe
  exact hinv.2

end Model

/-! ### Two runs -/

def lampCalls : Fin 3 → Call
  | 0 => .mkdir "lamps"
  | 1 => .mkdir "lamps/desk"
  | 2 => .movePath "lamps" "lights" 1

/-- A directory with one in it is moved. -/
theorem tree_after_move :
    ∃ s, (skills lampCalls).Reach Safe s ∧ s.rows.map (fun r => r.path.segments) = [["lights"], ["lights", "desk"]] ∧
      Law s := by
  obtain ⟨s, -, hreach, hrows⟩ := Machine.reach_of_exec (M := skills lampCalls) (C := Safe)
    (s := ⟨[], 1, fun _ => .start, []⟩)
    (p := fun s => s.rows.map (fun r => r.path.segments) = [["lights"], ["lights", "desk"]])
    [0, 0, 0, 1, 1, 1, 1, 2, 2, 2] rfl (by decide)
  exact ⟨s, hreach, of_decide_eq_true hrows, tree_of_safe hreach⟩

def deskCalls : Fin 3 → Call
  | 0 => .mkdir "lamps"
  | 1 => .mkdir "lamps/desk"
  | 2 => .removePath "lamps" 1

/-- A directory is removed after a call has checked it as the parent of its new entry. -/
theorem orphan_after_remove :
    ∃ s, (skills deskCalls).Reach Free s ∧ (∀ i, s.pc i = .done) ∧ ¬ Law s := by
  obtain ⟨s, -, hreach, hend⟩ := Machine.reach_of_exec (M := skills deskCalls) (C := Free)
    (s := ⟨[], 1, fun _ => .start, []⟩)
    (p := fun s => (∀ i, s.pc i = .done) ∧ s.rows = [⟨2, ⟨["lamps", "desk"], List.cons_ne_nil _ _⟩, none, 1⟩])
    [0, 0, 0, 1, 1, 1, 2, 2, 1] rfl (by decide)
  obtain ⟨hdone, hrows⟩ := of_decide_eq_true hend
  refine ⟨s, hreach, hdone, fun hl => ?_⟩
  obtain ⟨d, hd, hpath, -⟩ := hl.parents _ (hrows ▸ List.mem_singleton_self _) ⟨["lamps"], List.cons_ne_nil _ _⟩ rfl
  rw [hrows, List.mem_singleton] at hd
  subst hd
  cases hpath

end NexusStudio.Skills
