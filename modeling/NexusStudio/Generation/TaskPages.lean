import NexusStudio.Lib.Paging
import NexusStudio.Generation.Task
import NexusStudio.Server.Errors
import Mathlib.Data.Prod.Lex
import Mathlib.Data.Int.Order.Basic

/-!
# The pages of a user's generation tasks

`list_tasks` reads one task more than a page holds, and gives the last task of the page as the cursor of the next one.

* (order) Tasks go from the newest to the oldest, by `created_at` and then by `id`; a cursor is a place in this order.
* (pages) A page is a page of the matching tasks by their keys (`page_eq`).
* (law) Followed from the first page, the pages hold every matching task once; tasks that are created in between hide
  no other task and repeat none (`task_pages_law`).
-/

namespace NexusStudio.TaskPages

open Paging
open Generation (GatewayTaskStatus GenerationKind)

/-- A row of the generation tasks; times are in microseconds. -/
structure Task where
  id : Nat
  createdAt : Int
  userId : Nat
  kind : GenerationKind
  status : GatewayTaskStatus
  prompt : String
  deletedAt : Option Int
  deriving DecidableEq, Repr

@[ext]
structure GenerateTaskCursor where
  createdAt : Int
  taskId : Nat
  deriving DecidableEq, Repr

/-- Cursors in the order of the times, and of the ids where the times are the same. -/
def GenerateTaskCursor.place (c : GenerateTaskCursor) : Int ×ₗ Nat := toLex (c.createdAt, c.taskId)

theorem GenerateTaskCursor.place_injective : Function.Injective place := by
  intro c d h
  have hpair := toLex.injective h
  exact GenerateTaskCursor.ext (congrArg Prod.fst hpair) (congrArg Prod.snd hpair)

instance : LinearOrder GenerateTaskCursor :=
  LinearOrder.lift' GenerateTaskCursor.place GenerateTaskCursor.place_injective

/-- The cursor at a task. -/
def Task.cursor (t : Task) : GenerateTaskCursor := ⟨t.createdAt, t.id⟩

structure GenerateTaskQuery where
  userId : Nat
  limit : Nat
  kind : Option GenerationKind
  statuses : List GatewayTaskStatus
  createdAfter : Option Int
  promptQuery : String
  taskIds : Option (List Nat)
  cursorCreatedAt : Option Int
  cursorTaskId : Option Nat

/-- `GenerateTaskListRequest`, whose page size is between 1 and 100. -/
structure GenerateTaskListRequest where
  kind : Option GenerationKind
  statuses : List GatewayTaskStatus
  createdAfter : Option Int
  query : String
  favoritesOnly : Bool
  pageSize : Nat
  pageSize_pos : 0 < pageSize
  pageSize_le : pageSize ≤ 100

structure GenerateTaskListResponse where
  items : List Task
  nextCursor : Option GenerateTaskCursor
  hasMore : Bool

/-- What a read finds: the tasks, and the tasks of the user's favorite assets. -/
structure Db where
  tasks : List Task
  favorites : List Nat
  ids : (tasks.map Task.id).Nodup

/-- The filters of a query but the cursor, where `icontains` tells whether a prompt contains a text. -/
def GenerateTaskQuery.Matches (q : GenerateTaskQuery) (icontains : String → String → Bool) (t : Task) : Bool :=
  t.userId = q.userId && t.deletedAt = none && q.kind.all (fun k => t.kind = k) &&
    (q.statuses = [] || t.status ∈ q.statuses) && q.createdAfter.all (fun at_ => at_ ≤ t.createdAt) &&
    (q.promptQuery = "" || icontains t.prompt q.promptQuery) && q.taskIds.all fun ids => t.id ∈ ids

/-- The filter of the cursor, which has both parts or none. -/
def GenerateTaskQuery.Behind (q : GenerateTaskQuery) (t : Task) : Bool :=
  match q.cursorCreatedAt, q.cursorTaskId with
  | some createdAt, some taskId => t.createdAt < createdAt || t.createdAt = createdAt && t.id < taskId
  | _, _ => true

/-- `order_by("-created_at", "-id")`. -/
def newestFirst (tasks : List Task) : List Task :=
  tasks.insertionSort fun a b => b.createdAt < a.createdAt ∨ b.createdAt = a.createdAt ∧ b.id ≤ a.id

def listByQuery (icontains : String → String → Bool) (tasks : List Task) (q : GenerateTaskQuery) : List Task :=
  if q.taskIds = some [] then []
  else (newestFirst (tasks.filter fun t => q.Matches icontains t && q.Behind t)).take q.limit

/-- The query of a request. -/
def GenerateTaskListRequest.toQuery (req : GenerateTaskListRequest) (userId : Nat) (taskIds : Option (List Nat))
    (cursor : Option GenerateTaskCursor) : GenerateTaskQuery :=
  ⟨userId, req.pageSize + 1, req.kind, req.statuses, req.createdAfter, strip req.query, taskIds,
    cursor.map GenerateTaskCursor.createdAt, cursor.map GenerateTaskCursor.taskId⟩

/-- `list_tasks`, up to what is observed and shown of each listed task. -/
def listTasks (icontains : String → String → Bool) (db : Db) (userId : Nat) (req : GenerateTaskListRequest)
    (cursor : Option GenerateTaskCursor) : GenerateTaskListResponse :=
  if req.favoritesOnly ∧ db.favorites = [] then ⟨[], none, false⟩
  else
    let taskIds := if req.favoritesOnly then some db.favorites else none
    let tasks := listByQuery icontains db.tasks (req.toQuery userId taskIds cursor)
    let hasMore := decide (req.pageSize < tasks.length)
    let listed := tasks.take req.pageSize
    ⟨listed, if hasMore then listed.getLast?.map Task.cursor else none, hasMore⟩

/-- The page that a reader gets, who goes on while there is more. -/
def page (icontains : String → String → Bool) (db : Db) (userId : Nat) (req : GenerateTaskListRequest)
    (cursor : Option GenerateTaskCursor) : Page Task GenerateTaskCursor :=
  let response := listTasks icontains db userId req cursor
  ⟨response.items, if response.hasMore then response.nextCursor else none⟩

/-! ### Matching tasks -/

/-- The task is one that the request asks for. -/
def Wanted (icontains : String → String → Bool) (db : Db) (userId : Nat) (req : GenerateTaskListRequest) (t : Task) :
    Bool :=
  (req.toQuery userId (if req.favoritesOnly then some db.favorites else none) none).Matches icontains t

/-- The wanted tasks from the newest to the oldest. -/
def wanted (icontains : String → String → Bool) (db : Db) (userId : Nat) (req : GenerateTaskListRequest) : List Task :=
  ordered Task.cursor (db.tasks.filter fun t => Wanted icontains db userId req t)

variable {icontains : String → String → Bool} {db : Db} {userId : Nat} {req : GenerateTaskListRequest}
  {cursor : Option GenerateTaskCursor}

theorem cursor_lt {c d : GenerateTaskCursor} :
    c < d ↔ c.createdAt < d.createdAt ∨ c.createdAt = d.createdAt ∧ c.taskId < d.taskId :=
  Prod.Lex.toLex_lt_toLex

theorem cursor_le {c d : GenerateTaskCursor} :
    c ≤ d ↔ c.createdAt < d.createdAt ∨ c.createdAt = d.createdAt ∧ c.taskId ≤ d.taskId :=
  Prod.Lex.toLex_le_toLex

theorem newestFirst_eq (tasks : List Task) : newestFirst tasks = ordered Task.cursor tasks := by
  unfold newestFirst ordered
  simp only [cursor_le]
  rfl

theorem behind_iff (taskIds : Option (List Nat)) (t : Task) :
    (req.toQuery userId taskIds cursor).Behind t = true ↔ After Task.cursor cursor t := by
  cases cursor with
  | none => exact iff_of_true rfl (after_none t)
  | some c =>
    rw [after_some, cursor_lt]
    simp [GenerateTaskListRequest.toQuery, GenerateTaskQuery.Behind, Task.cursor]

theorem cursors_nodup (db : Db) (p : Task → Bool) : ((db.tasks.filter p).map Task.cursor).Nodup := by
  have hids : ((db.tasks.map Task.cursor).map GenerateTaskCursor.taskId).Nodup := by
    rw [List.map_map]
    exact db.ids
  exact (List.Nodup.of_map _ hids).sublist (List.filter_sublist.map _)

theorem descending_wanted : Descending Task.cursor (wanted icontains db userId req) :=
  descending_ordered (cursors_nodup db _)

/-- Of the store, what a user wants depends on the favorites only. -/
theorem wanted_eq_of_favorites {db' : Db} (h : db'.favorites = db.favorites) (t : Task) :
    Wanted icontains db' userId req t = Wanted icontains db userId req t := by
  unfold Wanted
  rw [h]

theorem mem_wanted {t : Task} :
    t ∈ wanted icontains db userId req ↔ t ∈ db.tasks ∧ Wanted icontains db userId req t = true := by
  rw [wanted, mem_ordered, List.mem_filter]

/-- The tasks of a query with a cursor are the first ones of the wanted tasks behind it. -/
theorem listByQuery_eq (h : ¬ (req.favoritesOnly = true ∧ db.favorites = [])) :
    listByQuery icontains db.tasks (req.toQuery userId (if req.favoritesOnly then some db.favorites else none) cursor) =
      ((wanted icontains db userId req).filter fun t => After Task.cursor cursor t).take (req.pageSize + 1) := by
  have hids : (req.toQuery userId (if req.favoritesOnly then some db.favorites else none) cursor).taskIds ≠ some [] := by
    change (if req.favoritesOnly then some db.favorites else none) ≠ some []
    split
    · next hf => exact fun heq => h ⟨hf, Option.some.inj heq⟩
    · nofun
  have hfilter : (db.tasks.filter fun t =>
      (req.toQuery userId (if req.favoritesOnly then some db.favorites else none) cursor).Matches icontains t &&
        (req.toQuery userId (if req.favoritesOnly then some db.favorites else none) cursor).Behind t) =
      (db.tasks.filter fun t => Wanted icontains db userId req t).filter fun t => After Task.cursor cursor t := by
    rw [List.filter_filter]
    refine List.filter_congr fun t _ => ?_
    rw [Bool.and_comm]
    congr 1
    exact Bool.eq_iff_iff.2 ((behind_iff _ t).trans decide_eq_true_iff.symm)
  unfold listByQuery
  rw [if_neg hids, hfilter, newestFirst_eq, wanted, filter_ordered (cursors_nodup db _)]
  rfl

theorem page_eq : page icontains db userId req cursor =
    seek Task.cursor req.pageSize (wanted icontains db userId req) cursor := by
  by_cases h : req.favoritesOnly = true ∧ db.favorites = []
  · -- no favorites: nothing is wanted
    have hnone : wanted icontains db userId req = [] := by
      refine List.eq_nil_iff_forall_not_mem.2 fun t ht => ?_
      have hw := (mem_wanted.1 ht).2
      simp [Wanted, GenerateTaskQuery.Matches, GenerateTaskListRequest.toQuery, h.1, h.2] at hw
    rw [hnone]
    simp [page, listTasks, h, seek]
  · unfold page listTasks seek
    rw [if_neg h]
    dsimp only
    rw [listByQuery_eq h]
    generalize ((wanted icontains db userId req).filter fun t => decide (After Task.cursor cursor t)).take
      (req.pageSize + 1) = found
    by_cases hlt : req.pageSize < found.length
    · simp only [hlt, decide_true, if_true]
    · simp only [hlt, decide_false, if_false, Bool.false_eq_true]

/-! ### All pages -/

/-- Tasks have been created, and nothing else has changed for the request. -/
structure Grown (icontains : String → String → Bool) (userId : Nat) (req : GenerateTaskListRequest) (db db' : Db) :
    Prop where
  kept : ∀ t ∈ db.tasks, t ∈ db'.tasks
  wanted : ∀ t ∈ db.tasks, Wanted icontains db' userId req t = Wanted icontains db userId req t

/-- Following the pages from the first one until there is no more gives every wanted task once, from the newest to the
oldest. While tasks are created between the reads, the pages still go from newer to older tasks, hold nothing but wanted
tasks, and hold every task that was wanted at the first read, once. -/
theorem task_pages_law (icontains : String → String → Bool) (userId : Nat) (req : GenerateTaskListRequest) :
    (∀ db, ∃ ps, Walk (fun _ => page icontains db userId req) 0 none ps ∧
      (∀ qs, Walk (fun _ => page icontains db userId req) 0 none qs → qs = ps) ∧
      ps.flatten = wanted icontains db userId req ∧ Descending Task.cursor ps.flatten ∧
      ∀ t, t ∈ ps.flatten ↔ t ∈ db.tasks ∧ Wanted icontains db userId req t = true) ∧
    ∀ (db : ℕ → Db), (∀ i, Grown icontains userId req (db i) (db (i + 1))) →
      ∀ ps, Walk (fun i => page icontains (db i) userId req) 0 none ps →
        Descending Task.cursor ps.flatten ∧
        (∀ t ∈ ps.flatten, ∃ i, t ∈ (db i).tasks ∧ Wanted icontains (db i) userId req t = true) ∧
        ∀ t ∈ (db 0).tasks, Wanted icontains (db 0) userId req t = true → ps.flatten.count t = 1 := by
  constructor
  · intro db
    have hread : (fun _ : ℕ => page icontains db userId req) =
        fun _ => seek Task.cursor req.pageSize (wanted icontains db userId req) :=
      funext fun _ => funext fun _ => page_eq
    rw [hread]
    have hdesc : Descending Task.cursor (wanted icontains db userId req) := descending_wanted
    obtain ⟨ps, hw, hflat⟩ := Walk.of_constant req.pageSize_pos hdesc 0 none
    have hall : ps.flatten = wanted icontains db userId req := by
      rw [hflat]
      exact List.filter_eq_self.2 fun t _ => decide_eq_true (after_none t)
    refine ⟨ps, hw, fun qs hq => hq.unique hw, hall, ?_, ?_⟩
    · rw [hall]
      exact hdesc
    · rw [hall]
      exact fun t => mem_wanted
  · intro db hgrow ps hw
    have hread : (fun i => page icontains (db i) userId req) =
        fun i => seek Task.cursor req.pageSize (wanted icontains (db i) userId req) :=
      funext fun _ => funext fun _ => page_eq
    rw [hread] at hw
    obtain ⟨hdesc, hmem, hall⟩ := hw.of_growing req.pageSize_pos (fun i => descending_wanted) (fun i t ht => by
      obtain ⟨htask, hwanted⟩ := mem_wanted.1 ht
      exact mem_wanted.2 ⟨(hgrow i).kept t htask, ((hgrow i).wanted t htask).trans hwanted⟩)
    refine ⟨hdesc, fun t ht => ?_, fun t htask hwanted => ?_⟩
    · obtain ⟨-, i, -, hi⟩ := hmem t ht
      exact ⟨i, mem_wanted.1 hi⟩
    · exact List.count_eq_one_of_mem hdesc.nodup (hall t (mem_wanted.2 ⟨htask, hwanted⟩) (after_none t))

/-- A user's tasks: two of one time, and then one more. -/
def office (i : ℕ) : Db :=
  ⟨(if i = 0 then [] else [⟨3, 1, 7, .VIDEO, .QUEUED, "a fox", none⟩]) ++
    [⟨1, 0, 7, .IMAGE, .SUCCEEDED, "a cat", none⟩, ⟨2, 0, 7, .IMAGE, .FAILED, "a dog", none⟩], [],
    by split <;> decide⟩

/-- With one task a page, the two pages hold each of the older tasks once. -/
theorem office_listed : ∃ (req : GenerateTaskListRequest) (ps : List (List Task)),
    Walk (fun i => page (fun _ _ => true) (office i) 7 req) 0 none ps ∧
      ∀ t ∈ (office 0).tasks, ps.flatten.count t = 1 := by
  let req : GenerateTaskListRequest := ⟨none, [], none, "", false, 1, by decide, by decide⟩
  have hgrow : ∀ i, Grown (fun _ _ => true) 7 req (office i) (office (i + 1)) := by
    intro i
    refine ⟨fun t ht => ?_, fun t _ => wanted_eq_of_favorites rfl t⟩
    cases i with
    | zero => exact List.mem_append_right _ ht
    | succ i => exact ht
  have hfirst : (page (fun _ _ => true) (office 0) 7 req none).next = some ⟨0, 2⟩ := by decide
  have hsecond : (page (fun _ _ => true) (office 1) 7 req (some ⟨0, 2⟩)).next = none := by decide
  have hwalk : Walk (fun i => page (fun _ _ => true) (office i) 7 req) 0 none
      [(page (fun _ _ => true) (office 0) 7 req none).rows,
        (page (fun _ _ => true) (office 1) 7 req (some ⟨0, 2⟩)).rows] :=
    .more hfirst (.last hsecond)
  obtain ⟨-, -, hall⟩ := (task_pages_law (fun _ _ => true) 7 req).2 office hgrow _ hwalk
  have hwanted : ∀ t ∈ (office 0).tasks, Wanted (fun _ _ => true) (office 0) 7 req t = true := by
    intro t ht
    rcases List.mem_pair.1 ht with rfl | rfl
    · decide
    · decide
  exact ⟨req, _, hwalk, fun t ht => hall t ht (hwanted t ht)⟩

end NexusStudio.TaskPages
