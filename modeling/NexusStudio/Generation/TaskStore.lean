import NexusStudio.Generation.Writers
import NexusStudio.Server.Errors
import Mathlib.Data.List.Sort

/-!
# The tables of tasks and assets

* (results) The transaction of `apply_result`, which creates the assets of a result; a result that is too long for its
  columns rolls it back.
* (observations) What the queue and `get_task` say of the tasks that are not terminal, written as it is read.
* (query) `get_tasks_status` joins the requested tasks with the observations, their reference assets and the favourites.
* (steps) `store`: submits, callbacks, queries and deletions on the two tables.
-/

namespace NexusStudio.StatusQuery

open Concurrent
open Generation (GatewayTaskStatus GatewayReport GatewayResultItem GenerateTask GenerationKind GenerationTerminal Proc
  observeOneNonTerminalTask)
open Generation.GatewayTaskStatus Generation.GenerationKind

/-! ### Rows -/

/-- The columns of `generate_task` that a view shows, or that the query joins. -/
structure TaskRow extends GenerateTask where
  id : Nat
  userId : Nat
  prompt : String
  modelId : String
  ratio : Option String
  resolution : Option String
  duration : Option Nat
  referenceMode : Option Nat
  refAssetIds : Option (List Int)
  createdAt : Nat
  deriving DecidableEq, Repr

/-- A row of `assets`. -/
structure AssetRow where
  id : Nat
  userId : Nat
  storageKey : String
  filename : String
  mimeType : String
  assetType : String
  sourceType : String
  sourceId : Option String
  favorite : Bool
  deleted : Bool
  deriving DecidableEq, Repr

structure Db where
  tasks : List TaskRow
  assets : List AssetRow
  deriving DecidableEq

namespace Db

/-- `get_by_id_required` finds this row. -/
def task (db : Db) (id : Nat) : Option TaskRow := db.tasks.find? fun t => t.id = id

/-- The `UPDATE` of one task. -/
def setTask (db : Db) (row : TaskRow) : Db :=
  { db with tasks := db.tasks.map fun t => if t.id = row.id then row else t }

end Db

/-- What `get_by_id_required` raises without the row. -/
def doesNotExist : Failure (List Int) := .other "DoesNotExist"

/-! ### Results -/

/-- `kind.value`. -/
def kindValue : GenerationKind → String
  | IMAGE => "image"
  | VIDEO => "video"
  | AUDIO => "audio"

/-- `RESULT_MIME_BY_KIND` -/
def resultMimeByKind : GenerationKind → String
  | IMAGE => "image/png"
  | VIDEO => "video/mp4"
  | AUDIO => "audio/mpeg"

/-- `storage_key.rsplit("/", 1)[-1]`. -/
def lastPart (key : String) : String := String.ofList (key.toList.reverse.takeWhile (· ≠ '/')).reverse

/-- The columns `storage_key` and `filename` hold at most 1024 and 512 characters. The name that stands in for an empty
last part is short. -/
def FitsColumns (key : String) : Prop := key.length ≤ 1024 ∧ (lastPart key).length ≤ 512

instance (key : String) : Decidable (FitsColumns key) :=
  inferInstanceAs (Decidable (_ ∧ _))

/-- The row that `ensure_result_assets` asks for, still without an id. -/
def resultRow (t : TaskRow) (index : Nat) (item : GatewayResultItem) : AssetRow where
  id := 0
  userId := t.userId
  storageKey := item.url
  filename := if lastPart item.url = "" then s!"{kindValue t.kind}-{t.id}-{index}" else lastPart item.url
  mimeType := resultMimeByKind t.kind
  assetType := kindValue t.kind
  sourceType := "generate_result"
  sourceId := some (toString t.id)
  favorite := false
  deleted := false

/-- `create_asset` -/
def createAsset (assets : List AssetRow) (row : AssetRow) : Except (Failure (List Int)) (List AssetRow × Nat) :=
  match assets.find? fun a => a.userId = row.userId ∧ a.storageKey = row.storageKey ∧ a.sourceType = row.sourceType ∧
      a.sourceId = row.sourceId ∧ a.deleted = false with
  | some a => .ok (assets, a.id)
  | none =>
    if FitsColumns row.storageKey then
      .ok (assets ++ [{ row with id := assets.length + 1 }], assets.length + 1)
    else .error (.other "ValidationError")

/-- The loop of `ensure_result_assets`. -/
def createAssets (t : TaskRow) : Nat → List AssetRow → List GatewayResultItem →
    Except (Failure (List Int)) (List AssetRow × List Nat)
  | _, assets, [] => .ok (assets, [])
  | index, assets, item :: rest =>
    match createAsset assets (resultRow t index item) with
    | .error e => .error e
    | .ok (assets, id) =>
      match createAssets t (index + 1) assets rest with
      | .error e => .error e
      | .ok (assets, ids) => .ok (assets, id :: ids)

def ensureResultAssets (t : TaskRow) (assets : List AssetRow) :
    Except (Failure (List Int)) (List AssetRow × TaskRow) :=
  if t.hasNothingToEnsure then .ok (assets, t)
  else
    match createAssets t 0 assets (t.resultKeys.getD []) with
    | .error e => .error e
    | .ok (assets, ids) => .ok (assets, { t with resultAssetIds := some ids })

/-- The transaction of `apply_result`: the row after it, and whether the update has hit. -/
def applyResult (db : Db) (t : TaskRow) (expected : GatewayTaskStatus) (res : GenerationTerminal)
    (callbackSent : Bool) : Db × Except (Failure (List Int)) (TaskRow × Bool) :=
  match db.task t.id with
  | none => (db, .error doesNotExist)
  | some row =>
    match row.updateIfStatus expected res callbackSent with
    | none => (db, .ok (row, false))
    | some updated =>
      let row := { row with toGenerateTask := updated }
      if res.status = SUCCEEDED then
        match ensureResultAssets row db.assets with
        -- the transaction is rolled back
        | .error e => (db, .error e)
        | .ok (assets, row) => ({ db with assets := assets }.setTask row, .ok (row, true))
      else (db.setTask row, .ok (row, true))

/-! ### Observations -/

structure GatewayQueueItem where
  taskId : Nat
  status : Int
  position : Option Int
  total : Option Int
  estimatedWaitSeconds : Option Int
  deriving DecidableEq, Repr

/-- What the gateway answers during a query, `none` where the call raises. -/
structure Gateway where
  getTasksQueue : List Nat → Option (List GatewayQueueItem)
  -- the call for the row with the first id, and the union id of the task
  getTask : Nat → Nat → Option GatewayReport

structure GatewayQueueObservation where
  unionTaskId : Nat
  status : GatewayTaskStatus
  position : Option Int
  total : Option Int
  estimatedWaitSeconds : Option Int
  deriving DecidableEq, Repr

/-- `GatewayTaskStatus(number)`, `none` where it raises. -/
def statusOf (number : Int) : Option GatewayTaskStatus :=
  [CREATED, QUEUED, WAITING, RUNNING, SUCCEEDED, FAILED, CANCELLED].find? fun s => (s.rank : Int) = number

def fromQueueItem (item : GatewayQueueItem) : Option GatewayQueueObservation :=
  (statusOf item.status).map fun status =>
    ⟨item.taskId, status, item.position, item.total, item.estimatedWaitSeconds⟩

abbrev GatewayObservationBatch := List GatewayQueueObservation

/-- The last item of a task is the one that stays in the dictionary. -/
def forUnionTask (observations : GatewayObservationBatch) (unionTaskId : Nat) : Option GatewayQueueObservation :=
  observations.reverse.find? fun o => o.unionTaskId = unionTaskId

/-- `_fetch_observations`; an error of the gateway, or a status that there is not, leaves no observation. -/
def fetchObservations (gw : Gateway) (unionTaskIds : List Nat) : GatewayObservationBatch :=
  let uniqueIds := unionTaskIds.eraseDups
  if uniqueIds = [] then [] else ((gw.getTasksQueue uniqueIds).bind fun items => items.mapM fromQueueItem).getD []

def observationFor (t : TaskRow) (observations : GatewayObservationBatch) : Option GatewayQueueObservation :=
  t.unionTaskId.bind (forUnionTask observations)

/-- `_observe_one_non_terminal_task` up to its transaction. -/
def observed (gw : Gateway) (observations : GatewayObservationBatch) (t : TaskRow) : Proc :=
  match observationFor t observations with
  | none => .finished
  | some o => observeOneNonTerminalTask t.toGenerateTask o.status (t.unionTaskId.bind (gw.getTask t.id))

def observeOne (gw : Gateway) (observations : GatewayObservationBatch) (db : Db) (t : TaskRow) :
    Db × Except (Failure (List Int)) TaskRow :=
  match observed gw observations t with
  | .apply _ expected res callbackSent =>
    match applyResult db t expected res callbackSent with
    | (db, .error e) => (db, .error e)
    | (db, .ok (t, _)) => (db, .ok t)
  | _ => (db, .ok t)

/-- The loop of `_observe_non_terminal_tasks`. -/
def observeAll (gw : Gateway) (observations : GatewayObservationBatch) :
    Db → List TaskRow → Db × Except (Failure (List Int)) (List TaskRow)
  | db, [] => (db, .ok [])
  | db, t :: ts =>
    match observeOne gw observations db t with
    | (db, .error e) => (db, .error e)
    | (db, .ok t) =>
      match observeAll gw observations db ts with
      | (db, .error e) => (db, .error e)
      | (db, .ok ts) => (db, .ok (t :: ts))

/-- The union ids that are asked for. -/
def observable (tasks : List TaskRow) : List Nat :=
  (tasks.filter fun t => t.status.isTerminal = false).filterMap fun t => t.unionTaskId

/-! ### The query -/

structure GenerateRefMaterial where
  assetId : Nat
  filename : String
  mimeType : String
  url : String
  sourceType : String
  deriving DecidableEq, Repr

structure GenerateTaskView where
  taskId : Nat
  kind : GenerationKind
  status : GatewayTaskStatus
  prompt : String
  modelId : String
  ratio : Option String
  resolution : Option String
  duration : Option Nat
  referenceMode : Option Nat
  refMaterials : List GenerateRefMaterial
  resultCount : Nat
  resultUrls : List GatewayResultItem
  resultAssetIds : List Nat
  errorMessage : Option String
  isFavorited : Bool
  queuePosition : Option Int
  queueTotal : Option Int
  estimatedWaitSeconds : Option Int
  createdAt : Nat
  deriving DecidableEq, Repr

structure GenerateTasksStatusResponse where
  items : List GenerateTaskView
  missingTaskIds : List Int
  deriving DecidableEq, Repr

namespace TaskRow

/-- `task.ref_asset_ids or []` -/
def refs (t : TaskRow) : List Int := t.refAssetIds.getD []

/-- `task_result_asset_ids` -/
def resultAssets (t : TaskRow) : List Nat := t.resultAssetIds.getD []

end TaskRow

/-- `get_by_ids_for_user` -/
def getByIdsForUser (tasks : List TaskRow) (ids : List Int) (userId : Nat) : List TaskRow :=
  tasks.filter fun t => (t.id : Int) ∈ ids ∧ t.userId = userId ∧ t.deleted = false

/-- `get_active_by_ids_for_user` -/
def getActiveByIdsForUser (assets : List AssetRow) (ids : List Int) (userId : Nat) : List AssetRow :=
  assets.filter fun a => (a.id : Int) ∈ ids ∧ a.userId = userId ∧ a.deleted = false

/-- `collect_ref_asset_ids`, a set. -/
def collectRefAssetIds (tasks : List TaskRow) : List Int := (tasks.flatMap TaskRow.refs).eraseDups

def refMaterialFromAsset (presign : String → String) (a : AssetRow) : GenerateRefMaterial :=
  ⟨a.id, a.filename, a.mimeType, presign a.storageKey, a.sourceType⟩

/-- The reference materials of each task, under its id. -/
def loadReferenceMaterialsByTaskId (presign : String → String) (assets : List AssetRow) (tasks : List TaskRow)
    (userId : Nat) : Except (Failure (List Int)) (List (Nat × List GenerateRefMaterial)) :=
  let assetIds := collectRefAssetIds tasks
  if assetIds = [] then .ok []
  else
    let rows := getActiveByIdsForUser assets assetIds userId
    let missing := (assetIds.filter fun i => rows.all fun a => (a.id : Int) ≠ i).insertionSort (· ≤ ·)
    if missing ≠ [] then .error (.app .invalidParams s!"reference assets not found: {missing}" none)
    else
      .ok (tasks.map fun t =>
        (t.id, t.refs.eraseDups.filterMap fun i =>
          (rows.find? fun a => (a.id : Int) = i).map (refMaterialFromAsset presign)))

def loadFavoritedAssetIds (assets : List AssetRow) (tasks : List TaskRow) (userId : Nat) : List Nat :=
  let assetIds := tasks.flatMap TaskRow.resultAssets
  (assets.filter fun a => a.id ∈ assetIds ∧ a.userId = userId ∧ a.favorite ∧ a.deleted = false).map AssetRow.id

/-- `to_task_view` -/
def toTaskView (presign : String → String) (t : TaskRow) (observation : Option GatewayQueueObservation)
    (refMaterials : List GenerateRefMaterial) (favorited : List Nat) : GenerateTaskView where
  taskId := t.id
  kind := t.kind
  status := t.status
  prompt := t.prompt
  modelId := t.modelId
  ratio := t.ratio
  resolution := t.resolution
  duration := t.duration
  referenceMode := t.referenceMode
  refMaterials := refMaterials
  resultCount := (t.resultKeys.getD []).length
  resultUrls := (t.resultKeys.getD []).map fun item => { item with url := presign item.url }
  resultAssetIds := t.resultAssets
  errorMessage := t.errorMessage
  isFavorited := favorited.any fun i => i ∈ t.resultAssets
  queuePosition := observation.bind GatewayQueueObservation.position
  queueTotal := observation.bind GatewayQueueObservation.total
  estimatedWaitSeconds := observation.bind GatewayQueueObservation.estimatedWaitSeconds
  createdAt := t.createdAt

/-- The requested tasks that there are, in the order of the requests. -/
def selected (db : Db) (userId : Nat) (taskIds : List Int) : List TaskRow :=
  let requestedIds := taskIds.eraseDups
  let tasks := getByIdsForUser db.tasks requestedIds userId
  requestedIds.filterMap fun i => tasks.find? fun t => (t.id : Int) = i

/-- `get_tasks_status`: the tables after it, and what it returns or raises. -/
def getTasksStatus (presign : String → String) (gw : Gateway) (db : Db) (userId : Nat) (taskIds : List Int) :
    Db × Except (Failure (List Int)) GenerateTasksStatusResponse :=
  let ordered := selected db userId taskIds
  let observations := fetchObservations gw (observable ordered)
  let missing := taskIds.eraseDups.filter fun i =>
    (getByIdsForUser db.tasks taskIds.eraseDups userId).all fun t => (t.id : Int) ≠ i
  match observeAll gw observations db ordered with
  | (db, .error e) => (db, .error e)
  | (db, .ok tasks) =>
    match loadReferenceMaterialsByTaskId presign db.assets tasks userId with
    | .error e => (db, .error e)
    | .ok refs =>
      let favorited := loadFavoritedAssetIds db.assets tasks userId
      let items := tasks.map fun t =>
        toTaskView presign t (observationFor t observations) ((refs.lookup t.id).getD []) favorited
      (db, .ok ⟨items, missing⟩)

/-! ### The other steps -/

/-- The fields of `SubmitGenerateRequest` that the row takes over, and its references. -/
structure SubmitGenerateRequest where
  kind : GenerationKind
  prompt : String
  modelId : String
  ratio : Option String
  resolution : Option String
  duration : Option Nat
  referenceMode : Option Nat
  refAssetIds : List Int
  deriving DecidableEq, Repr

/-- `assets_to_gateway_materials`: the types and keys of the assets. -/
def assetsToGatewayMaterials (assets : List AssetRow) (userId : Nat) (assetIds : List Int) :
    Except (Failure (List Int)) (List (String × String)) :=
  let rows := getActiveByIdsForUser assets assetIds userId
  let missing := assetIds.eraseDups.filter fun i => rows.all fun a => (a.id : Int) ≠ i
  if missing ≠ [] then .error (.app .invalidParams "引用资产不存在或无权访问" (some missing))
  else
    let found := assetIds.eraseDups.filterMap fun i => rows.find? fun a => (a.id : Int) = i
    if found.any fun a => a.assetType ∉ ["image", "video", "audio"] then
      .error (.app .invalidParams "不支持将文本资产作为生成参考素材" none)
    else .ok (found.map fun a => (a.assetType, a.storageKey))

/-- `dedupe_materials` -/
def dedupeMaterials (materials : List (String × String)) : List (String × String) :=
  (materials.filter fun m => m.2 ≠ "").eraseDupsBy fun m m' => m.2 == m'.2

/-- `_load_reference_materials` up to the check of the materials. -/
def loadReferenceMaterials (assets : List AssetRow) (userId : Nat) (req : SubmitGenerateRequest) :
    Except (Failure (List Int)) (List (String × String)) :=
  let assetIds := (req.refAssetIds.filter fun i => 0 < i).eraseDups
  if assetIds = [] then .ok [] else (assetsToGatewayMaterials assets userId assetIds).map dedupeMaterials

/-- The row that `submit` creates. -/
def submittedRow (db : Db) (userId : Nat) (req : SubmitGenerateRequest) (createdAt : Nat) : TaskRow where
  kind := req.kind
  unionTaskId := none
  status := CREATED
  callbackSent := false
  resultKeys := none
  errorMessage := none
  resultAssetIds := none
  deleted := false
  id := db.tasks.length + 1
  userId := userId
  prompt := req.prompt
  modelId := req.modelId
  ratio := req.ratio
  resolution := req.resolution
  duration := if req.kind = VIDEO then req.duration else none
  referenceMode := if req.kind = VIDEO then req.referenceMode else none
  refAssetIds := if req.refAssetIds.eraseDups = [] then none else some req.refAssetIds.eraseDups
  createdAt := createdAt

/-- `submit` up to the call of the gateway. `admits` are the other checks of the request and its materials, which read
the capabilities of the model. -/
def submit (admits : SubmitGenerateRequest → List (String × String) → Bool) (db : Db) (userId : Nat)
    (req : SubmitGenerateRequest) (createdAt : Nat) : Option Db :=
  match if req.kind = AUDIO then .ok [] else loadReferenceMaterials db.assets userId req with
  | .error _ => none
  | .ok materials =>
    if admits req materials then some { db with tasks := db.tasks ++ [submittedRow db userId req createdAt] } else none

/-- `mark_failed_if_non_terminal` or `bind_union_task_queued`, when the gateway has answered. -/
def submitted (db : Db) (t : TaskRow) : Except String Nat → Db
  | .error message => db.setTask { t with toGenerateTask := t.markFailedIfNonTerminal message }
  | .ok unionTaskId =>
    db.setTask { t with
      toGenerateTask := (t.bindQueued unionTaskId).getD { t.toGenerateTask with unionTaskId := some unionTaskId } }

/-- `handle_callback` -/
def handleCallback (db : Db) (unionTaskId : Nat) (report : GatewayReport) : Db :=
  match db.tasks.filter fun t => t.unionTaskId = some unionTaskId with
  | [t] =>
    match Generation.handleCallback t.toGenerateTask unionTaskId report with
    | .apply _ expected res callbackSent =>
      match applyResult db t expected res callbackSent with
      | (db, .ok (row, false)) => db.setTask { row with toGenerateTask := row.markCallbackSent }
      | (db, _) => db
    | .markCallbackSent _ => db.setTask { t with toGenerateTask := t.markCallbackSent }
    | _ => db
  | _ => db

/-- `soft_delete_assets` -/
def softDeleteAssets (db : Db) (userId : Nat) (assetIds : List Int) : Db :=
  { db with assets := db.assets.map fun a =>
    if a.userId = userId ∧ (a.id : Int) ∈ assetIds then { a with deleted := true } else a }

/-- `set_favorite_for_user` -/
def setFavorite (db : Db) (userId : Nat) (assetIds : List Int) (favorited : Bool) : Db :=
  { db with assets := db.assets.map fun a =>
    if a.userId = userId ∧ (a.id : Int) ∈ assetIds ∧ a.deleted = false then { a with favorite := favorited } else a }

inductive Action
  -- a new asset of a user
  | upload (row : AssetRow)
  | submit (userId : Nat) (req : SubmitGenerateRequest) (createdAt : Nat)
  | submitted (taskId : Nat) (answer : Except String Nat)
  | callback (unionTaskId : Nat) (report : GatewayReport)
  | status (userId : Nat) (taskIds : List Int) (gw : Gateway)
  | cancel (userId taskId : Nat)
  | deleteTask (userId taskId : Nat)
  | deleteAssets (userId : Nat) (assetIds : List Int)
  | favorite (userId : Nat) (assetIds : List Int) (favorited : Bool)

/-- The undeleted task of the user. -/
def activeForUser (db : Db) (userId taskId : Nat) : Option TaskRow :=
  (db.task taskId).filter fun t => t.userId = userId ∧ t.deleted = false

def step (admits : SubmitGenerateRequest → List (String × String) → Bool) (presign : String → String) (db : Db) :
    Action → Option Db
  | .upload row =>
    let row := { row with id := db.assets.length + 1, favorite := false, deleted := false }
    some { db with assets := db.assets ++ [row] }
  | .submit userId req createdAt => submit admits db userId req createdAt
  | .submitted taskId answer => (db.task taskId).map fun t => submitted db t answer
  | .callback unionTaskId report => some (handleCallback db unionTaskId report)
  | .status userId taskIds gw => some (getTasksStatus presign gw db userId taskIds).1
  | .cancel userId taskId =>
    match activeForUser db userId taskId with
    | none => none
    | some t =>
      if t.kind = IMAGE then none
      else t.cancelIfNonTerminal.map fun g => db.setTask { t with toGenerateTask := g }
  | .deleteTask userId taskId =>
    (activeForUser db userId taskId).map fun t => db.setTask { t with deleted := true }
  | .deleteAssets userId assetIds => some (softDeleteAssets db userId assetIds)
  | .favorite userId assetIds favorited => some (setFavorite db userId assetIds favorited)

/-- The tables and everything that writes to them. -/
def store (admits : SubmitGenerateRequest → List (String × String) → Bool) (presign : String → String) :
    Machine Db Action where
  init db := db = ⟨[], []⟩
  step := step admits presign

end NexusStudio.StatusQuery
