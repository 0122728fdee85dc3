import NexusStudio.Lib.Machine
import NexusStudio.Lib.Sequence
import NexusStudio.Server.Errors
import Mathlib.Data.List.Nodup
import Mathlib.Logic.Function.Basic

/-!
# Episodes of projects

`ProjectService.create`, `EpisodeService.create` and `EpisodeService.delete`, each a transaction of several statements
on the tables of projects and episodes.

* (catalogue) What the tables are for: every change is one of three atomic ones, and keeps them `Lawful`.
* (transactions) Every statement is one step and reads what is committed; `select_for_update` takes the lock of a row,
  or waits for it, and the locks are held to the end. A statement that fails rolls its transaction back.
* (refinement) Every commit is a change of the catalogue: what a transaction has read under the lock of its project
  still holds when it commits.
-/

set_option linter.unusedSectionVars false

namespace NexusStudio.Projects

open Concurrent

/-! ### Tables -/

structure Project (υ : Type*) where
  id : Nat
  ownerUserId : υ
  name : String
  deriving DecidableEq, Repr

structure Episode where
  id : Nat
  projectId : Nat
  episodeNo : Nat
  name : String
  -- `deleted_at` is set
  deleted : Bool
  deriving DecidableEq, Repr

structure Db (υ : Type*) where
  projects : List (Project υ)
  episodes : List Episode

namespace Db

variable {υ : Type*} (db : Db υ)

/-- The episodes of a project, deleted ones included. -/
def episodesOf (projectId : Nat) : List Episode := db.episodes.filter fun e => e.projectId = projectId

def HasProject (projectId : Nat) : Prop := ∃ p ∈ db.projects, p.id = projectId

def countActive (projectId : Nat) : Nat := (db.episodesOf projectId).countP fun e => !e.deleted

def maxEpisodeNo (projectId : Nat) : Nat := (db.episodesOf projectId).foldr (fun e n => max e.episodeNo n) 0

def getActive (episodeId : Nat) : Option Episode := db.episodes.find? fun e => e.id = episodeId ∧ e.deleted = false

def getOwned [DecidableEq υ] (user : υ) (projectId : Nat) : Option (Project υ) :=
  db.projects.find? fun p => p.id = projectId ∧ p.ownerUserId = user

/-- The rows that an update with the filter of `soft_delete` touches. -/
def countSoftDelete (episodeId : Nat) : Nat := db.episodes.countP fun e => e.id = episodeId ∧ e.deleted = false

def softDelete (episodeId : Nat) : Db υ :=
  { db with episodes := db.episodes.map fun e => if e.id = episodeId then { e with deleted := true } else e }

end Db

/-! ### The catalogue -/

section Catalogue

variable {υ : Type*} {db db' : Db υ}

/-- A project is created with an episode, an episode gets the next number, or one of several is deleted. -/
inductive Change (db : Db υ) : Db υ → Prop
  | project (p : Project υ) (e : Episode) (hp : ¬ db.HasProject p.id) (he : e.id ∉ db.episodes.map Episode.id)
      (hpe : e.projectId = p.id) (hd : e.deleted = false) : Change db ⟨db.projects ++ [p], db.episodes ++ [e]⟩
  | episode (e : Episode) (hp : db.HasProject e.projectId) (he : e.id ∉ db.episodes.map Episode.id)
      (hn : e.episodeNo = db.maxEpisodeNo e.projectId + 1) (hd : e.deleted = false) :
      Change db ⟨db.projects, db.episodes ++ [e]⟩
  | delete (projectId episodeId : Nat) (he : ∃ e ∈ db.episodesOf projectId, e.id = episodeId ∧ e.deleted = false)
      (hc : 1 < db.countActive projectId) : Change db (db.softDelete episodeId)

/-- The tables of projects and episodes, changed atomically. -/
def catalogue (υ : Type*) : Spec (Db υ) where
  init db := db = ⟨[], []⟩
  next := Change

structure Lawful (db : Db υ) : Prop where
  owned : ∀ e ∈ db.episodes, db.HasProject e.projectId
  ids : (db.episodes.map Episode.id).Nodup
  alive : ∀ p ∈ db.projects, 0 < db.countActive p.id
  numbers : (db.episodes.map fun e => (e.projectId, e.episodeNo)).Nodup

theorem episodesOf_append (p : Nat) (l : List (Project υ)) (e : Episode) :
    Db.episodesOf ⟨l, db.episodes ++ [e]⟩ p = db.episodesOf p ++ if e.projectId = p then [e] else [] := by
  rw [Db.episodesOf, List.filter_append, List.filter_singleton]
  simp [Db.episodesOf]

theorem countActive_le_append (p : Nat) (l : List (Project υ)) (e : Episode) :
    db.countActive p ≤ Db.countActive ⟨l, db.episodes ++ [e]⟩ p := by
  rw [Db.countActive, Db.countActive, episodesOf_append, List.countP_append]
  exact Nat.le_add_right _ _

theorem le_maxEpisodeNo {e : Episode} (he : e ∈ db.episodes) : e.episodeNo ≤ db.maxEpisodeNo e.projectId := by
  have hmem : e ∈ db.episodesOf e.projectId := List.mem_filter.2 ⟨he, by simp⟩
  unfold Db.maxEpisodeNo
  generalize db.episodesOf e.projectId = l at hmem
  induction l with
  | nil => cases hmem
  | cons f l ih =>
    rw [List.foldr_cons]
    rcases List.mem_cons.1 hmem with rfl | h
    · exact Nat.le_max_left _ _
    · exact (ih h).trans (Nat.le_max_right _ _)

/-- Deleting an episode takes at most one from the active ones of a project. -/
theorem countActive_softDelete (h : Lawful db) (p id : Nat) :
    db.countActive p ≤ (db.softDelete id).countActive p + 1 := by
  have hone : db.episodes.countP (fun e => e.id = id) ≤ 1 := by
    have hc := List.nodup_iff_count_le_one.1 h.ids id
    rw [List.count, List.countP_map] at hc
    refine le_of_eq_of_le (List.countP_congr fun e _ => ?_) hc
    simp
  have hafter : (db.softDelete id).countActive p =
      db.episodes.countP fun e => !e.deleted && (e.projectId = p && !decide (e.id = id)) := by
    rw [Db.countActive, Db.episodesOf, Db.softDelete, List.countP_filter, List.countP_map]
    refine List.countP_congr fun e _ => ?_
    by_cases he : e.id = id <;> simp [he]
  have hbefore : db.countActive p = db.episodes.countP fun e => !e.deleted && e.projectId = p := by
    rw [Db.countActive, Db.episodesOf, List.countP_filter]
  rw [hafter, hbefore]
  refine le_trans ?_ (Nat.add_le_add_left hone _)
  induction db.episodes with
  | nil => exact le_refl _
  | cons e l ih =>
    simp only [List.countP_cons]
    by_cases he : e.id = id <;> cases e.deleted <;> by_cases hp : e.projectId = p <;> simp [he, hp] at ih ⊢ <;> omega

/-- A deletion changes no other column. -/
theorem map_softDelete {β : Type*} {id : Nat} (g : Episode → β) (hg : ∀ e b, g { e with deleted := b } = g e) :
    (db.softDelete id).episodes.map g = db.episodes.map g := by
  rw [Db.softDelete, List.map_map]
  refine List.map_congr_left fun e _ => ?_
  rw [Function.comp_apply]
  split
  · exact hg e true
  · rfl

/-- A deletion leaves the other projects alone. -/
theorem episodesOf_softDelete {p id : Nat} (h : ∀ e ∈ db.episodesOf p, e.id ≠ id) :
    (db.softDelete id).episodesOf p = db.episodesOf p := by
  have hfilter : ∀ e : Episode, (if e.id = id then { e with deleted := true } else e).projectId = e.projectId := by
    intro e
    split <;> rfl
  unfold Db.episodesOf at h ⊢
  rw [Db.softDelete, List.filter_map]
  have hp : (db.episodes.filter ((fun e : Episode => decide (e.projectId = p)) ∘ fun e =>
      if e.id = id then { e with deleted := true } else e)) = db.episodes.filter fun e => e.projectId = p :=
    List.filter_congr fun e _ => by rw [Function.comp_apply, hfilter e]
  rw [hp]
  exact (List.map_congr_left fun e he => if_neg (h e he)).trans (List.map_id' _)

theorem ne_of_otherProject (h : (db.episodes.map Episode.id).Nodup) {p q id : Nat}
    (he : ∃ e ∈ db.episodesOf p, e.id = id ∧ e.deleted = false) (hq : q ≠ p) : ∀ f ∈ db.episodesOf q, f.id ≠ id := by
  intro f hf hid
  obtain ⟨e, he, heid, -⟩ := he
  obtain ⟨hf, hfq⟩ := List.mem_filter.1 hf
  obtain ⟨he, hep⟩ := List.mem_filter.1 he
  obtain rfl := List.inj_on_of_nodup_map h hf he (hid.trans heid.symm)
  exact hq ((of_decide_eq_true hfq).symm.trans (of_decide_eq_true hep))

/-- Every change keeps the tables lawful. -/
theorem lawful_change (h : Lawful db) (hn : Change db db') : Lawful db' := by
  cases hn with
  | project p e hp he hpe hd =>
    have hnew : ∀ f ∈ db.episodes, f.projectId ≠ p.id := fun f hf hfp => hp (hfp ▸ h.owned f hf)
    refine ⟨fun f hf => ?_, ?_, fun q hq => ?_, ?_⟩
    · rcases List.mem_append.1 hf with hf | hf
      · obtain ⟨q, hq, hid⟩ := h.owned f hf
        exact ⟨q, List.mem_append_left _ hq, hid⟩
      · rw [List.mem_singleton.1 hf, hpe]
        exact ⟨p, List.mem_append_right _ (List.mem_singleton_self p), rfl⟩
    · rw [List.map_append]
      exact List.Nodup.append h.ids (List.nodup_singleton _) (List.disjoint_singleton.2 he)
    · rcases List.mem_append.1 hq with hq | hq
      · exact (h.alive q hq).trans_le (countActive_le_append q.id _ e)
      · rw [List.mem_singleton.1 hq, Db.countActive, episodesOf_append, if_pos hpe]
        simp [hd]
    · rw [List.map_append]
      refine List.Nodup.append h.numbers (List.nodup_singleton _) (List.disjoint_singleton.2 fun hm => ?_)
      obtain ⟨f, hf, hfe⟩ := List.mem_map.1 hm
      exact hnew f hf ((Prod.mk.inj hfe).1.trans hpe)
  | episode e hp he hn hd =>
    refine ⟨fun f hf => ?_, ?_, fun q hq => ?_, ?_⟩
    · rcases List.mem_append.1 hf with hf | hf
      · exact h.owned f hf
      · rw [List.mem_singleton.1 hf]
        exact hp
    · rw [List.map_append]
      exact List.Nodup.append h.ids (List.nodup_singleton _) (List.disjoint_singleton.2 he)
    · exact (h.alive q hq).trans_le (countActive_le_append q.id _ e)
    · rw [List.map_append]
      refine List.Nodup.append h.numbers (List.nodup_singleton _) (List.disjoint_singleton.2 fun hm => ?_)
      obtain ⟨f, hf, hfe⟩ := List.mem_map.1 hm
      obtain ⟨hfp, hfn⟩ := Prod.mk.inj hfe
      have hle := le_maxEpisodeNo hf
      rw [hfp, hfn, hn] at hle
      exact absurd hle (Nat.not_succ_le_self _)
  | delete p id he hc =>
    refine ⟨fun f hf => ?_, ?_, fun q hq => ?_, ?_⟩
    · have hf : f.projectId ∈ (db.softDelete id).episodes.map Episode.projectId := List.mem_map_of_mem hf
      rw [map_softDelete Episode.projectId fun _ _ => rfl] at hf
      obtain ⟨g, hg, hgf⟩ := List.mem_map.1 hf
      rw [← hgf]
      exact h.owned g hg
    · rw [map_softDelete Episode.id fun _ _ => rfl]
      exact h.ids
    · have hq : q ∈ db.projects := hq
      have hle := countActive_softDelete h q.id id
      by_cases hqp : q.id = p
      · rw [hqp] at hle ⊢
        omega
      · rw [Db.countActive, episodesOf_softDelete (ne_of_otherProject h.ids he hqp)]
        exact h.alive q hq
    · rw [map_softDelete (fun e => (e.projectId, e.episodeNo)) fun _ _ => rfl]
      exact h.numbers

theorem lawful_of_reach (h : (catalogue υ).Reach db) : Lawful db := by
  refine h.induct ?_ fun _ _ hl hn => lawful_change hl hn
  rintro _ rfl
  exact ⟨nofun, List.nodup_nil, nofun, List.nodup_nil⟩

end Catalogue

/-! ### Transactions -/

/-- A request with what it was given. -/
inductive Request (υ : Type*)
  | createProject (user : υ) (name : String)
  | createEpisode (user : υ) (projectId : Nat) (name : Option String)
  | deleteEpisode (user : υ) (episodeId : Nat)
  deriving DecidableEq, Repr

/-- Where a request is, and what its transaction has read and written. -/
inductive Pc (υ : Type*)
  | start
  -- `ProjectService.create`: the rows that are inserted, then the canvas is created
  | newProject (p : Project υ)
  | newProjectEpisode (p : Project υ) (e : Episode)
  | commitProject (p : Project υ) (e : Episode)
  -- `EpisodeService.create`: the project is locked, the number is read, the row is inserted, the canvas is created
  | projectLocked (projectId : Nat)
  | numbered (projectId episodeNo : Nat)
  | newEpisode (projectId : Nat) (e : Episode)
  | commitEpisode (projectId : Nat) (e : Episode)
  -- `EpisodeService.delete`: the snapshot, the locks, the count, the canvas, the update
  | snapshot (projectId : Nat)
  | ownerLocked (projectId : Nat)
  | episodeLocked (projectId episodeId : Nat)
  | counted (projectId episodeId : Nat)
  | cleared (projectId episodeId : Nat)
  | commitDelete (projectId episodeId : Nat)
  | returned
  | raised
  deriving DecidableEq, Repr

structure State (υ ι : Type*) where
  -- what is committed
  db : Db υ
  -- the sequences of the ids
  nextProject : Nat
  nextEpisode : Nat
  projectLock : Nat → Option ι
  episodeLock : Nat → Option ι
  pc : ι → Pc υ

inductive Action (ι : Type*)
  -- the next statement of the request, or the commit
  | next (i : ι)
  -- it fails
  | fail (i : ι)
  deriving DecidableEq, Repr

def defaultEpisodeName : String := "第 1 集"

/-- `clean_name` of `EpisodeService.create`. -/
def cleanName (name : Option String) (episodeNo : Nat) : String :=
  match name with
  | some n => if strip n ≠ "" then strip n else s!"第 {episodeNo} 集"
  | none => s!"第 {episodeNo} 集"

section Model

variable {υ ι : Type*} [DecidableEq υ] [DecidableEq ι]

namespace State

def setPc (s : State υ ι) (i : ι) (c : Pc υ) : State υ ι := { s with pc := Function.update s.pc i c }

/-- The end of the transaction: its locks are released. -/
def finish (s : State υ ι) (i : ι) (c : Pc υ) : State υ ι :=
  { s.setPc i c with
    projectLock := fun p => if s.projectLock p = some i then none else s.projectLock p
    episodeLock := fun e => if s.episodeLock e = some i then none else s.episodeLock e }

def rollback (s : State υ ι) (i : ι) : State υ ι := s.finish i .raised

/-- `get_owned_for_update`: no row, or its lock, or the wait for it. -/
def lockProject (s : State υ ι) (i : ι) (user : υ) (projectId : Nat) (c : Pc υ) : Option (State υ ι) :=
  match s.db.getOwned user projectId with
  | none => some (s.rollback i)
  | some _ =>
    if s.projectLock projectId = none then
      some { s.setPc i c with projectLock := Function.update s.projectLock projectId (some i) }
    else none

end State

/-- One statement of `ProjectService.create`. -/
def createProjectStep (s : State υ ι) (i : ι) (user : υ) (name : String) : Option (State υ ι) :=
  match s.pc i with
  | .start =>
    if strip name = "" then some (s.setPc i .raised)
    else
      let p := ⟨s.nextProject, user, strip name⟩
      some { s.setPc i (.newProject p) with nextProject := s.nextProject + 1 }
  | .newProject p =>
    let e := ⟨s.nextEpisode, p.id, 1, defaultEpisodeName, false⟩
    some { s.setPc i (.newProjectEpisode p e) with nextEpisode := s.nextEpisode + 1 }
  | .newProjectEpisode p e => some (s.setPc i (.commitProject p e))
  | .commitProject p e =>
    some { s.finish i .returned with db := ⟨s.db.projects ++ [p], s.db.episodes ++ [e]⟩ }
  | _ => none

/-- One statement of `EpisodeService.create`. -/
def createEpisodeStep (s : State υ ι) (i : ι) (user : υ) (projectId : Nat) (name : Option String) :
    Option (State υ ι) :=
  match s.pc i with
  | .start => s.lockProject i user projectId (.projectLocked projectId)
  | .projectLocked p => some (s.setPc i (.numbered p (s.db.maxEpisodeNo p + 1)))
  | .numbered p n =>
    if 255 < (cleanName name n).length then some (s.rollback i)
    else
      let e := ⟨s.nextEpisode, p, n, cleanName name n, false⟩
      some { s.setPc i (.newEpisode p e) with nextEpisode := s.nextEpisode + 1 }
  | .newEpisode p e => some (s.setPc i (.commitEpisode p e))
  | .commitEpisode _ e => some { s.finish i .returned with db := ⟨s.db.projects, s.db.episodes ++ [e]⟩ }
  | _ => none

/-- One statement of `EpisodeService.delete`. -/
def deleteStep (s : State υ ι) (i : ι) (user : υ) (episodeId : Nat) : Option (State υ ι) :=
  match s.pc i with
  | .start =>
    match s.db.getActive episodeId with
    | none => some (s.rollback i)
    | some e => some (s.setPc i (.snapshot e.projectId))
  | .snapshot p => s.lockProject i user p (.ownerLocked p)
  | .ownerLocked p =>
    match s.db.getActive episodeId with
    | none => some (s.rollback i)
    | some e =>
      if s.episodeLock episodeId ≠ none then none
      else if e.projectId ≠ p then some (s.rollback i)
      else
        some { s.setPc i (.episodeLocked p episodeId) with
          episodeLock := Function.update s.episodeLock episodeId (some i) }
  | .episodeLocked p e => if s.db.countActive p ≤ 1 then some (s.rollback i) else some (s.setPc i (.counted p e))
  | .counted p e => some (s.setPc i (.cleared p e))
  | .cleared p e =>
    if s.db.countSoftDelete e = 1 then some (s.setPc i (.commitDelete p e)) else some (s.rollback i)
  | .commitDelete _ e => some { s.finish i .returned with db := s.db.softDelete e }
  | _ => none

def step (R : ι → Request υ) (s : State υ ι) : Action ι → Option (State υ ι)
  | .next i =>
    match R i with
    | .createProject user name => createProjectStep s i user name
    | .createEpisode user projectId name => createEpisodeStep s i user projectId name
    | .deleteEpisode user episodeId => deleteStep s i user episodeId
  | .fail i => if s.pc i = .returned ∨ s.pc i = .raised then none else some (s.rollback i)

/-- The requests on empty tables. -/
def service (R : ι → Request υ) : Machine (State υ ι) (Action ι) where
  init s := s = ⟨⟨[], []⟩, 1, 1, fun _ => none, fun _ => none, fun _ => .start⟩
  step := step R

/-! ### What a transaction knows -/

/-- The project whose lock the transaction holds. -/
def Pc.holds : Pc υ → Option Nat
  | projectLocked p | numbered p _ | newEpisode p _ | commitEpisode p _ => some p
  | ownerLocked p | episodeLocked p _ | counted p _ | cleared p _ | commitDelete p _ => some p
  | start | newProject _ | newProjectEpisode .. | commitProject .. | snapshot _ | returned | raised => none

/-- The project that the transaction has inserted. -/
def Pc.insertedProject : Pc υ → Option Nat
  | newProject p | newProjectEpisode p _ | commitProject p _ => some p.id
  | _ => none

/-- The episode that the transaction has inserted. -/
def Pc.insertedEpisode : Pc υ → Option Nat
  | newProjectEpisode _ e | commitProject _ e | newEpisode _ e | commitEpisode _ e => some e.id
  | _ => none

/-- What the transaction has found out about the committed tables. -/
def Facts (db : Db υ) : Pc υ → Prop
  | .newProjectEpisode p e | .commitProject p e => e.projectId = p.id ∧ e.deleted = false
  | .numbered p n => n = db.maxEpisodeNo p + 1
  | .newEpisode p e | .commitEpisode p e =>
    e.projectId = p ∧ e.episodeNo = db.maxEpisodeNo p + 1 ∧ e.deleted = false
  | .episodeLocked p id => ∃ e ∈ db.episodesOf p, e.id = id ∧ e.deleted = false
  | .counted p id | .cleared p id | .commitDelete p id =>
    (∃ e ∈ db.episodesOf p, e.id = id ∧ e.deleted = false) ∧ 1 < db.countActive p
  | _ => True

/-- The facts are about the episodes of the project that is locked. -/
theorem facts_congr {db db' : Db υ} {c : Pc υ} (h : ∀ p, c.holds = some p → db'.episodesOf p = db.episodesOf p)
    (hf : Facts db c) : Facts db' c := by
  cases c with
  | numbered p n | newEpisode p e | commitEpisode p e | episodeLocked p id =>
    simp only [Facts, Db.maxEpisodeNo] at hf ⊢
    rw [h p rfl]
    exact hf
  | counted p id | cleared p id | commitDelete p id =>
    simp only [Facts, Db.countActive] at hf ⊢
    rw [h p rfl]
    exact hf
  | _ => exact hf

structure Inv (s : State υ ι) : Prop where
  ids : (s.db.episodes.map Episode.id).Nodup
  projectIds : Sequence s.nextProject s.db.HasProject fun i => (s.pc i).insertedProject
  episodeIds : Sequence s.nextEpisode (· ∈ s.db.episodes.map Episode.id) fun i => (s.pc i).insertedEpisode
  held : ∀ i p, (s.pc i).holds = some p → s.projectLock p = some i ∧ s.db.HasProject p
  facts : ∀ i, Facts s.db (s.pc i)

/-! ### One statement -/

variable {R : ι → Request υ} {s s' : State υ ι} {i : ι} {c : Pc υ}

/-- The locks of the other transactions stay. -/
def LocksKept (s s' : State υ ι) (i : ι) : Prop :=
  ∀ p j, j ≠ i → s.projectLock p = some j → s'.projectLock p = some j

/-- A statement of `i` that commits nothing. -/
structure Moves (s s' : State υ ι) (i : ι) (c : Pc υ) : Prop where
  db : s'.db = s.db
  pc : s'.pc = Function.update s.pc i c
  locks : LocksKept s s' i
  held : ∀ p, c.holds = some p → s'.projectLock p = some i ∧ s.db.HasProject p
  facts : Facts s.db c
  nextProject : s'.nextProject = s.nextProject + 1 ∧ c.insertedProject = some s.nextProject ∨
    s'.nextProject = s.nextProject ∧ ∀ p, c.insertedProject = some p → (s.pc i).insertedProject = some p
  nextEpisode : s'.nextEpisode = s.nextEpisode + 1 ∧ c.insertedEpisode = some s.nextEpisode ∨
    s'.nextEpisode = s.nextEpisode ∧ ∀ e, c.insertedEpisode = some e → (s.pc i).insertedEpisode = some e

/-- The commit of `i`. -/
structure Commits (s s' : State υ ι) (i : ι) : Prop where
  change : Change s.db s'.db
  pc : s'.pc = Function.update s.pc i .returned
  locks : LocksKept s s' i
  projects : ∀ p, s'.db.HasProject p ↔ s.db.HasProject p ∨ (s.pc i).insertedProject = some p
  episodes : s'.db.episodes.map Episode.id = s.db.episodes.map Episode.id ++ (s.pc i).insertedEpisode.toList
  others : ∀ p, s.db.HasProject p → (s.pc i).holds ≠ some p → s'.db.episodesOf p = s.db.episodesOf p
  next : s'.nextProject = s.nextProject ∧ s'.nextEpisode = s.nextEpisode

theorem locksKept_finish (c : Pc υ) : LocksKept s (s.finish i c) i := by
  intro p j hj hl
  simp only [State.finish, State.setPc]
  rw [if_neg fun h => hj (Option.some.inj (hl.symm.trans h)), hl]

/-- A rejected request and a rollback. -/
theorem moves_finish (hc : c = .raised) : Moves s (s.finish i c) i c := by
  subst hc
  exact ⟨rfl, rfl, locksKept_finish .returned, nofun, trivial, .inr ⟨rfl, nofun⟩, .inr ⟨rfl, nofun⟩⟩

/-- A statement that reads, and keeps what the transaction has locked and inserted. -/
theorem moves_setPc (hI : Inv s) (hh : ∀ p, c.holds = some p → (s.pc i).holds = some p) (hf : Facts s.db c)
    (hp : ∀ p, c.insertedProject = some p → (s.pc i).insertedProject = some p)
    (he : ∀ e, c.insertedEpisode = some e → (s.pc i).insertedEpisode = some e) : Moves s (s.setPc i c) i c :=
  ⟨rfl, rfl, fun _ _ _ h => h, fun p h => hI.held i p (hh p h), hf, .inr ⟨rfl, hp⟩, .inr ⟨rfl, he⟩⟩

theorem hasProject_of_getOwned {user : υ} {p : Nat} {r : Project υ} (h : s.db.getOwned user p = some r) :
    s.db.HasProject p := by
  have hr := List.find?_some h
  exact ⟨r, List.mem_of_find?_eq_some h, (of_decide_eq_true hr).1⟩

/-- The lock of a project of the user. -/
theorem moves_lockProject {user : υ} {p : Nat} (h : s.lockProject i user p c = some s') (hc : c.holds = some p)
    (hf : Facts s.db c) (hp : c.insertedProject = none) (he : c.insertedEpisode = none) : ∃ c, Moves s s' i c := by
  unfold State.lockProject at h
  split at h
  · obtain rfl := Option.some.inj h
    exact ⟨_, moves_finish rfl⟩
  · next r hr =>
    simp only [Option.ite_none_right_eq_some, Option.some.injEq] at h
    obtain ⟨hl, rfl⟩ := h
    refine ⟨c, rfl, rfl, fun q j _ hj => ?_, fun q hq => ?_, hf, .inr ⟨rfl, fun q hq => ?_⟩, .inr ⟨rfl, fun e hq => ?_⟩⟩
    · by_cases hqp : q = p
      · subst hqp
        rw [hl] at hj
        cases hj
      · exact (Function.update_of_ne hqp ..).trans hj
    · obtain rfl := Option.some.inj (hc.symm.trans hq)
      exact ⟨Function.update_self .., hasProject_of_getOwned hr⟩
    · rw [hp] at hq
      cases hq
    · rw [he] at hq
      cases hq

theorem mem_of_getActive {id : Nat} {e : Episode} (h : s.db.getActive id = some e) :
    e ∈ s.db.episodesOf e.projectId ∧ e.id = id ∧ e.deleted = false := by
  have he := List.find?_some h
  exact ⟨List.mem_filter.2 ⟨List.mem_of_find?_eq_some h, decide_eq_true rfl⟩, of_decide_eq_true he⟩

theorem createProjectStep_effect {user : υ} {name : String} (hI : Inv s)
    (h : createProjectStep s i user name = some s') : (∃ c, Moves s s' i c) ∨ Commits s s' i := by
  have hf := hI.facts i
  unfold createProjectStep at h
  split at h
  case h_1 hpc =>
    split at h
    · obtain rfl := Option.some.inj h
      exact .inl ⟨_, moves_setPc hI nofun trivial nofun nofun⟩
    · obtain rfl := Option.some.inj h
      exact .inl ⟨_, rfl, rfl, fun _ _ _ h => h, nofun, trivial, .inl ⟨rfl, rfl⟩, .inr ⟨rfl, nofun⟩⟩
  case h_2 p hpc =>
    obtain rfl := Option.some.inj h
    refine .inl ⟨_, rfl, rfl, fun _ _ _ h => h, nofun, ⟨rfl, rfl⟩, .inr ⟨rfl, fun q hq => ?_⟩, .inl ⟨rfl, rfl⟩⟩
    rw [hpc]
    exact hq
  case h_3 p e hpc =>
    obtain rfl := Option.some.inj h
    rw [hpc] at hf
    refine .inl ⟨_, moves_setPc hI nofun hf (fun q hq => ?_) fun q hq => ?_⟩
    · rw [hpc]
      exact hq
    · rw [hpc]
      exact hq
  case h_4 p e hpc =>
    obtain rfl := Option.some.inj h
    rw [hpc] at hf
    have hp := hI.projectIds.unused i p.id (by rw [hpc]; rfl)
    have he := hI.episodeIds.unused i e.id (by rw [hpc]; rfl)
    refine .inr ⟨.project p e hp he hf.1 hf.2, rfl, locksKept_finish .returned, fun q => ?_, ?_, fun q hq _ => ?_,
      rfl, rfl⟩
    · rw [hpc]
      simp [Db.HasProject, Pc.insertedProject, or_and_right, exists_or]
    · rw [hpc]
      simp [Pc.insertedEpisode]
    · rw [episodesOf_append, if_neg, List.append_nil]
      rintro rfl
      rw [hf.1] at hq
      exact hp hq
  case h_5 => cases h

theorem createEpisodeStep_effect {user : υ} {projectId : Nat} {name : Option String} (hI : Inv s)
    (h : createEpisodeStep s i user projectId name = some s') : (∃ c, Moves s s' i c) ∨ Commits s s' i := by
  have hf := hI.facts i
  unfold createEpisodeStep at h
  split at h
  case h_1 hpc => exact .inl (moves_lockProject h rfl trivial rfl rfl)
  case h_2 p hpc =>
    obtain rfl := Option.some.inj h
    refine .inl ⟨_, moves_setPc hI (fun q hq => ?_) rfl nofun nofun⟩
    rw [hpc]
    exact hq
  case h_3 p n hpc =>
    rw [hpc] at hf
    split at h
    · obtain rfl := Option.some.inj h
      exact .inl ⟨_, moves_finish rfl⟩
    · obtain rfl := Option.some.inj h
      refine .inl ⟨_, rfl, rfl, fun _ _ _ h => h, fun q hq => ?_, ⟨rfl, hf, rfl⟩, .inr ⟨rfl, nofun⟩, .inl ⟨rfl, rfl⟩⟩
      exact hI.held i q (by rw [hpc]; exact hq)
  case h_4 p e hpc =>
    obtain rfl := Option.some.inj h
    rw [hpc] at hf
    refine .inl ⟨_, moves_setPc hI (fun q hq => ?_) hf nofun fun q hq => ?_⟩
    · rw [hpc]
      exact hq
    · rw [hpc]
      exact hq
  case h_5 p e hpc =>
    obtain rfl := Option.some.inj h
    rw [hpc] at hf
    obtain ⟨rfl, hn, hd⟩ := hf
    have hp := hI.held i e.projectId (by rw [hpc]; rfl)
    have he := hI.episodeIds.unused i e.id (by rw [hpc]; rfl)
    refine .inr ⟨.episode e hp.2 he hn hd, rfl, locksKept_finish .returned, fun q => ?_, ?_, fun q _ hq => ?_, rfl, rfl⟩
    · rw [hpc]
      exact ⟨.inl, fun h => h.resolve_right nofun⟩
    · rw [hpc]
      simp [Pc.insertedEpisode]
    · rw [episodesOf_append, if_neg, List.append_nil]
      rintro rfl
      exact hq (by rw [hpc]; rfl)
  case h_6 => cases h

theorem deleteStep_effect {user : υ} {episodeId : Nat} (hI : Inv s)
    (h : deleteStep s i user episodeId = some s') : (∃ c, Moves s s' i c) ∨ Commits s s' i := by
  have hf := hI.facts i
  unfold deleteStep at h
  split at h
  case h_1 hpc =>
    split at h
    · obtain rfl := Option.some.inj h
      exact .inl ⟨_, moves_finish rfl⟩
    · obtain rfl := Option.some.inj h
      exact .inl ⟨_, moves_setPc hI nofun trivial nofun nofun⟩
  case h_2 p hpc => exact .inl (moves_lockProject h rfl trivial rfl rfl)
  case h_3 p hpc =>
    split at h
    · obtain rfl := Option.some.inj h
      exact .inl ⟨_, moves_finish rfl⟩
    · next e he =>
      simp only [ne_eq, Option.ite_none_left_eq_some] at h
      obtain ⟨-, h⟩ := h
      split at h
      · obtain rfl := Option.some.inj h
        exact .inl ⟨_, moves_finish rfl⟩
      · next hep =>
        obtain rfl := Option.some.inj h
        have hheld := hI.held i p (by rw [hpc]; rfl)
        have hmem := mem_of_getActive he
        rw [not_not.1 hep] at hmem
        refine .inl ⟨_, rfl, rfl, fun _ _ _ h => h, fun q hq => ?_, ⟨e, hmem⟩, .inr ⟨rfl, nofun⟩, .inr ⟨rfl, nofun⟩⟩
        obtain rfl := Option.some.inj hq
        exact hheld
  case h_4 p e hpc =>
    rw [hpc] at hf
    split at h
    · obtain rfl := Option.some.inj h
      exact .inl ⟨_, moves_finish rfl⟩
    · next hc =>
      obtain rfl := Option.some.inj h
      refine .inl ⟨_, moves_setPc hI (fun q hq => ?_) ⟨hf, not_le.1 hc⟩ nofun nofun⟩
      rw [hpc]
      exact hq
  case h_5 p e hpc =>
    obtain rfl := Option.some.inj h
    rw [hpc] at hf
    refine .inl ⟨_, moves_setPc hI (fun q hq => ?_) hf nofun nofun⟩
    rw [hpc]
    exact hq
  case h_6 p e hpc =>
    rw [hpc] at hf
    split at h
    · obtain rfl := Option.some.inj h
      refine .inl ⟨_, moves_setPc hI (fun q hq => ?_) hf nofun nofun⟩
      rw [hpc]
      exact hq
    · obtain rfl := Option.some.inj h
      exact .inl ⟨_, moves_finish rfl⟩
  case h_7 p e hpc =>
    obtain rfl := Option.some.inj h
    rw [hpc] at hf
    refine .inr ⟨.delete p e hf.1 hf.2, rfl, locksKept_finish .returned, fun q => ?_, ?_, fun q _ hq => ?_, rfl, rfl⟩
    · rw [hpc]
      exact ⟨.inl, fun h => h.resolve_right nofun⟩
    · rw [hpc, map_softDelete Episode.id fun _ _ => rfl]
      simp [Pc.insertedEpisode]
    · refine episodesOf_softDelete (ne_of_otherProject hI.ids hf.1 ?_)
      rintro rfl
      exact hq (by rw [hpc]; rfl)
  case h_8 => cases h

theorem step_effect {a : Action ι} (hI : Inv s) (h : step R s a = some s') :
    ∃ i, (∃ c, Moves s s' i c) ∨ Commits s s' i := by
  cases a with
  | next i =>
    refine ⟨i, ?_⟩
    simp only [step] at h
    split at h
    · exact createProjectStep_effect hI h
    · exact createEpisodeStep_effect hI h
    · exact deleteStep_effect hI h
  | fail i =>
    simp only [step, Option.ite_none_left_eq_some, Option.some.injEq] at h
    obtain ⟨-, rfl⟩ := h
    exact ⟨i, .inl ⟨_, moves_finish rfl⟩⟩

/-! ### The invariant -/

theorem inv_moves (hI : Inv s) (h : Moves s s' i c) : Inv s' := by
  obtain ⟨hdb, hpc, hlocks, hheld, hfacts, hproject, hepisode⟩ := h
  have hother : ∀ j, j ≠ i → s'.pc j = s.pc j := fun j hj => by rw [hpc, Function.update_of_ne hj]
  have hown : s'.pc i = c := by rw [hpc, Function.update_self]
  refine ⟨by rw [hdb]; exact hI.ids, ?_, ?_, ?_, ?_⟩
  · rw [hdb]
    rcases hproject with ⟨hn, hc⟩ | ⟨hn, hc⟩
    · rw [hn]
      exact hI.projectIds.draw (i := i) (by rw [hown]; exact hc) fun j hj => by rw [hother j hj]
    · rw [hn, hpc]
      exact hI.projectIds.keep ((Function.forall_update_iff s.pc fun j c => ∀ n, c.insertedProject = some n →
        (s.pc j).insertedProject = some n).2 ⟨hc, fun _ _ _ h => h⟩)
  · rw [hdb]
    rcases hepisode with ⟨hn, hc⟩ | ⟨hn, hc⟩
    · rw [hn]
      exact hI.episodeIds.draw (i := i) (by rw [hown]; exact hc) fun j hj => by rw [hother j hj]
    · rw [hn, hpc]
      exact hI.episodeIds.keep ((Function.forall_update_iff s.pc fun j c => ∀ n, c.insertedEpisode = some n →
        (s.pc j).insertedEpisode = some n).2 ⟨hc, fun _ _ _ h => h⟩)
  · rw [hpc, hdb]
    refine (Function.forall_update_iff s.pc fun j c => ∀ p, c.holds = some p →
      s'.projectLock p = some j ∧ s.db.HasProject p).2 ⟨hheld, fun j hj p hp => ?_⟩
    obtain ⟨hl, hd⟩ := hI.held j p hp
    exact ⟨hlocks p j hj hl, hd⟩
  · rw [hpc, hdb]
    exact (Function.forall_update_iff s.pc fun _ c => Facts s.db c).2 ⟨hfacts, fun j _ => hI.facts j⟩

/-- Another transaction that holds a lock holds that of another project. -/
theorem inv_commits (hI : Inv s) (h : Commits s s' i) : Inv s' := by
  obtain ⟨-, hpc, hlocks, hprojects, hepisodes, hothers, hnp, hne⟩ := h
  have hother : ∀ j, j ≠ i → s'.pc j = s.pc j := fun j hj => by rw [hpc, Function.update_of_ne hj]
  have hown : s'.pc i = .returned := by rw [hpc, Function.update_self]
  refine ⟨?_, ?_, ?_, ?_, ?_⟩
  · rw [hepisodes]
    refine List.Nodup.append hI.ids ?_ ?_
    · cases (s.pc i).insertedEpisode with
      | none => exact List.nodup_nil
      | some e => exact List.nodup_singleton e
    · intro e he hi
      exact hI.episodeIds.unused i e (Option.mem_toList.1 hi) he
  · rw [hnp]
    exact hI.projectIds.use (i := i) (fun p hp => (hprojects p).1 hp) (by rw [hown]; rfl)
      fun j hj => by rw [hother j hj]
  · rw [hne]
    refine hI.episodeIds.use (i := i) (fun e he => ?_) (by rw [hown]; rfl) fun j hj => by rw [hother j hj]
    rw [hepisodes] at he
    exact (List.mem_append.1 he).imp_right Option.mem_toList.1
  · rw [hpc]
    refine (Function.forall_update_iff s.pc fun j c => ∀ p, c.holds = some p →
      s'.projectLock p = some j ∧ s'.db.HasProject p).2 ⟨nofun, fun j hj p hp => ?_⟩
    obtain ⟨hl, hd⟩ := hI.held j p hp
    exact ⟨hlocks p j hj hl, (hprojects p).2 (.inl hd)⟩
  · rw [hpc]
    refine (Function.forall_update_iff s.pc fun _ c => Facts s'.db c).2 ⟨trivial, fun j hj => ?_⟩
    refine facts_congr (fun p hp => hothers p (hI.held j p hp).2 fun hi => hj ?_) (hI.facts j)
    exact Option.some.inj ((hI.held j p hp).1.symm.trans (hI.held i p hi).1)

theorem inv_reach {C : State υ ι → Action ι → Prop} (h : (service R).Reach C s) : Inv s := by
  refine h.induct ?_ fun s a s' hI _ ht => ?_
  · rintro _ rfl
    exact ⟨List.nodup_nil, ⟨nofun, nofun, nofun, nofun⟩, ⟨nofun, nofun, nofun, nofun⟩, nofun, fun _ => trivial⟩
  · obtain ⟨i, ⟨c, hm⟩ | hc⟩ := step_effect hI ht
    · exact inv_moves hI hm
    · exact inv_commits hI hc

/-! ### The refinement -/

/-- What is committed changes as the catalogue does. -/
theorem refines_catalogue (R : ι → Request υ) (C : State υ ι → Action ι → Prop) :
    Refines (service R) C (catalogue υ) State.db where
  init := by
    rintro _ rfl
    rfl
  step s a s' hs _ ht := by
    obtain ⟨i, ⟨c, hm⟩ | hc⟩ := step_effect (inv_reach hs) ht
    · exact .inl hm.db
    · exact .inr hc.change

/-- In every committed state each project has an active episode, and no number of a project is given twice. -/
theorem episodes_of_reach {C : State υ ι → Action ι → Prop} (h : (service R).Reach C s) :
    (∀ p ∈ s.db.projects, ∃ e ∈ s.db.episodes, e.projectId = p.id ∧ e.deleted = false) ∧
      (s.db.episodes.map fun e => (e.projectId, e.episodeNo)).Nodup := by
  have hl := lawful_of_reach ((refines_catalogue R C).reach h)
  refine ⟨fun p hp => ?_, hl.numbers⟩
  obtain ⟨e, he, hd⟩ := List.countP_pos_iff.1 (hl.alive p hp)
  obtain ⟨he, hep⟩ := List.mem_filter.1 he
  exact ⟨e, he, of_decide_eq_true hep, by simpa using hd⟩

end Model

/-! ### Runs -/

/-- A project, an episode of it, and the deletions of its two episodes. -/
def requests : Fin 4 → Request String
  | 0 => .createProject "ann" "Fox"
  | 1 => .createEpisode "ann" 1 none
  | 2 => .deleteEpisode "ann" 1
  | 3 => .deleteEpisode "ann" 2

/-- The first deletion waits for the lock that the creation holds, and the second finds the last episode. -/
theorem episodes_after_deletes :
    ∃ s, (service requests).Reach Free s ∧ s.pc 2 = .returned ∧ s.pc 3 = .raised ∧
      (∀ p ∈ s.db.projects, ∃ e ∈ s.db.episodes, e.projectId = p.id ∧ e.deleted = false) ∧
      (s.db.episodes.map fun e => (e.projectId, e.episodeNo)).Nodup := by
  obtain ⟨s, -, hr, hp⟩ := Machine.reach_of_exec (M := service requests) (C := Free)
    (s := ⟨⟨[], []⟩, 1, 1, fun _ => none, fun _ => none, fun _ => .start⟩)
    (p := fun s => decide (s.pc 2 = .returned ∧ s.pc 3 = .raised))
    ([.next 0, .next 0, .next 0, .next 0] ++ [.next 2, .next 1, .next 1, .next 1, .next 1, .next 1] ++
      [.next 3, .next 2, .next 2, .next 2, .next 2, .next 2, .next 2, .next 3, .next 3, .next 3]) rfl
    (by decide)
  obtain ⟨h₂, h₃⟩ := of_decide_eq_true hp
  exact ⟨s, hr, h₂, h₃, episodes_of_reach hr⟩

end NexusStudio.Projects
