import Mathlib.Data.List.Basic
import Mathlib.Data.List.Count

/-!
# Generation tasks

* (status) `GatewayTaskStatus` with its rank; the last three are terminal.
* (result) `normalize_gateway_terminal`, which turns what the gateway says into a `GenerationTerminal`.
* (row) The row of a task and its conditional updates.
* (assets) `create_asset` and `ensure_result_assets` on the live assets of one task.
-/

namespace NexusStudio.Generation

/-! ### Status -/

inductive GatewayTaskStatus
  | CREATED
  | QUEUED
  | WAITING
  | RUNNING
  | SUCCEEDED
  | FAILED
  | CANCELLED
  deriving DecidableEq, Repr

namespace GatewayTaskStatus

/-- The number of the status. -/
def rank : GatewayTaskStatus → Nat
  | CREATED => 1
  | QUEUED => 2
  | WAITING => 3
  | RUNNING => 4
  | SUCCEEDED => 5
  | FAILED => 6
  | CANCELLED => 7

def isTerminal : GatewayTaskStatus → Bool
  | SUCCEEDED | FAILED | CANCELLED => true
  | _ => false

theorem rank_lt_of_terminal {a b : GatewayTaskStatus} (ha : a.isTerminal = false) (hb : b.isTerminal = true) :
    a.rank < b.rank := by
  cases a <;> cases b <;> simp_all [isTerminal, rank]

end GatewayTaskStatus

open GatewayTaskStatus

/-! ### Results -/

/-- One result of the gateway; its url is the storage key. -/
structure GatewayResultItem where
  url : String
  type : Option Int
  width : Option Int
  height : Option Int
  deriving DecidableEq, Repr

structure GenerationTerminal where
  status : GatewayTaskStatus
  resultKeys : Option (List GatewayResultItem)
  errorMessage : Option String
  deriving DecidableEq, Repr

/-- What `normalize_gateway_terminal` raises as `GATEWAY_PROTOCOL_ERROR`. -/
inductive ProtocolError
  | missingReason
  | unexpectedUrls
  deriving DecidableEq, Repr

def ProtocolError.message : ProtocolError → String
  | missingReason => "失败终态缺少错误原因"
  | unexpectedUrls => "非成功终态不能携带生成结果"

/-- `normalize_gateway_terminal`; no urls and an empty list of urls are the same to it, and so are no reason and an
empty reason. -/
def normalizeGatewayTerminal (status : GatewayTaskStatus) (urls : Option (List GatewayResultItem))
    (reason : Option String) : Except ProtocolError GenerationTerminal :=
  if status = SUCCEEDED then
    match urls with
    | none | some [] => .ok ⟨FAILED, none, some "成功终态缺少生成结果"⟩
    | some (u :: us) => .ok ⟨SUCCEEDED, some (u :: us), reason⟩
  else if status = FAILED then
    if reason.getD "" = "" then .error .missingReason else .ok ⟨FAILED, none, reason⟩
  else if urls.getD [] ≠ [] then .error .unexpectedUrls
  else .ok ⟨status, none, reason⟩

/-- A normalized success has results. -/
theorem normalize_succeeded {status : GatewayTaskStatus} {urls : Option (List GatewayResultItem)}
    {reason : Option String} {res : GenerationTerminal} (h : normalizeGatewayTerminal status urls reason = .ok res)
    (hs : res.status = SUCCEEDED) : ∃ keys, res.resultKeys = some keys ∧ keys ≠ [] := by
  unfold normalizeGatewayTerminal at h
  split at h
  case isTrue =>
    split at h
    case h_1 | h_2 =>
      cases h
      cases hs
    case h_3 u us =>
      cases h
      exact ⟨u :: us, rfl, List.cons_ne_nil u us⟩
  case isFalse hne =>
    split at h
    case isTrue =>
      split at h
      · cases h
      · cases h
        cases hs
    case isFalse =>
      split at h
      · cases h
      · cases h
        exact absurd hs hne

/-- A terminal status stays terminal when it is normalized, and a status that is not terminal stays itself. -/
theorem normalize_status {status : GatewayTaskStatus} {urls : Option (List GatewayResultItem)}
    {reason : Option String} {res : GenerationTerminal} (h : normalizeGatewayTerminal status urls reason = .ok res) :
    res.status.isTerminal = status.isTerminal ∧ (status.isTerminal = false → res.status = status) := by
  unfold normalizeGatewayTerminal at h
  split at h
  case isTrue hs =>
    subst hs
    split at h <;> cases h <;> exact ⟨rfl, nofun⟩
  case isFalse =>
    split at h
    case isTrue hs =>
      subst hs
      split at h
      · cases h
      · cases h
        exact ⟨rfl, nofun⟩
    case isFalse =>
      split at h
      · cases h
      · cases h
        exact ⟨rfl, fun _ => rfl⟩

/-! ### The row -/

inductive GenerationKind
  | IMAGE
  | VIDEO
  | AUDIO
  deriving DecidableEq, Repr

/-- The columns of `generate_task` that its writers read or write. -/
structure GenerateTask where
  kind : GenerationKind
  unionTaskId : Option Nat
  status : GatewayTaskStatus
  callbackSent : Bool
  resultKeys : Option (List GatewayResultItem)
  errorMessage : Option String
  resultAssetIds : Option (List Nat)
  deleted : Bool
  deriving DecidableEq, Repr

namespace GenerateTask

/-- `update_fields` and the `UPDATE`: a field that is `None` is left out of it. -/
def update (t : GenerateTask) (res : GenerationTerminal) (callbackSent : Bool) : GenerateTask :=
  { t with status := res.status
           callbackSent := callbackSent
           resultKeys := res.resultKeys.or t.resultKeys
           errorMessage := res.errorMessage.or t.errorMessage }

/-- `update_if_status`: the row after it, `none` when no row was updated. -/
def updateIfStatus (t : GenerateTask) (expected : GatewayTaskStatus) (res : GenerationTerminal)
    (callbackSent : Bool) : Option GenerateTask :=
  if t.status = expected ∧ t.deleted = false then some (t.update res callbackSent) else none

/-- `mark_failed_if_non_terminal`. -/
def markFailedIfNonTerminal (t : GenerateTask) (message : String) : GenerateTask :=
  if t.status.isTerminal then t else { t with status := FAILED, errorMessage := some message }

/-- The first `UPDATE` of `bind_union_task_queued`. -/
def bindQueued (t : GenerateTask) (unionTaskId : Nat) : Option GenerateTask :=
  if t.status = CREATED then some { t with unionTaskId := some unionTaskId, status := QUEUED } else none

/-- `cancel_if_non_terminal`. -/
def cancelIfNonTerminal (t : GenerateTask) : Option GenerateTask :=
  if t.status.isTerminal then none else some { t with status := CANCELLED }

/-- `mark_callback_sent`. -/
def markCallbackSent (t : GenerateTask) : GenerateTask :=
  if t.deleted then t else { t with callbackSent := true }

end GenerateTask

/-! ### Assets -/

/-- A live asset with the source `generate_result` and the id of the task. -/
structure Asset where
  id : Nat
  storageKey : String
  deriving DecidableEq, Repr

/-- `create_asset`: an existing live asset with the key, or a new one. -/
def createAsset (assets : List Asset) (key : String) : List Asset × Nat :=
  match assets.find? fun a => a.storageKey == key with
  | some a => (assets, a.id)
  | none => (assets ++ [⟨assets.length, key⟩], assets.length)

/-- The loop of `ensure_result_assets`. -/
def createAssets (assets : List Asset) : List GatewayResultItem → List Asset × List Nat
  | [] => (assets, [])
  | item :: rest =>
    let (assets₁, id) := createAsset assets item.url
    let (assets₂, ids) := createAssets assets₁ rest
    (assets₂, id :: ids)

/-- The task has no results, or its assets are there already. -/
def GenerateTask.hasNothingToEnsure (t : GenerateTask) : Bool :=
  t.resultKeys.getD [] == [] || t.resultAssetIds.getD [] != []

/-- `ensure_result_assets` inside a transaction. -/
def ensureResultAssets (t : GenerateTask) (assets : List Asset) : GenerateTask × List Asset :=
  if t.hasNothingToEnsure then (t, assets)
  else
    let (assets', ids) := createAssets assets (t.resultKeys.getD [])
    ({ t with resultAssetIds := some ids }, assets')

@[simp] theorem ensureResultAssets_status (t : GenerateTask) (assets : List Asset) :
    (ensureResultAssets t assets).1.status = t.status := by
  unfold ensureResultAssets
  split <;> rfl

/-- How many live assets have the storage key. -/
def countKey (assets : List Asset) (key : String) : Nat :=
  assets.countP fun a => a.storageKey == key

private theorem find?_key_none {assets : List Asset} {key : String} :
    (assets.find? fun a => a.storageKey == key) = none ↔ countKey assets key = 0 := by
  rw [countKey, List.countP_eq_zero, List.find?_eq_none]

/-- `create_asset` adds an asset for its key if there was none, and changes nothing else. -/
theorem countKey_createAsset (assets : List Asset) (key key' : String) :
    countKey (createAsset assets key).1 key' =
      if key = key' ∧ countKey assets key' = 0 then 1 else countKey assets key' := by
  unfold createAsset
  cases hf : assets.find? fun a => a.storageKey == key with
  | some a =>
    have hne : countKey assets key ≠ 0 := by
      rw [ne_eq, ← find?_key_none, hf]
      nofun
    rw [if_neg]
    rintro ⟨rfl, h0⟩
    exact hne h0
  | none =>
    have h0 : countKey assets key = 0 := find?_key_none.1 hf
    by_cases hk : key = key'
    · subst hk
      rw [if_pos ⟨rfl, h0⟩]
      show (assets ++ [_]).countP _ = 1
      rw [List.countP_append, show assets.countP _ = 0 from h0]
      simp
    · rw [if_neg fun h => hk h.1]
      show (assets ++ [_]).countP _ = _
      rw [List.countP_append]
      simp [countKey, hk]

/-- The loop of `ensure_result_assets` leaves one asset for every key of its results that had none. -/
theorem countKey_createAssets (items : List GatewayResultItem) (assets : List Asset) (key : String) :
    countKey (createAssets assets items).1 key =
      if key ∈ items.map GatewayResultItem.url ∧ countKey assets key = 0 then 1 else countKey assets key := by
  induction items generalizing assets with
  | nil => simp [createAssets]
  | cons item rest ih =>
    show countKey (createAssets (createAsset assets item.url).1 rest).1 key = _
    rw [ih, countKey_createAsset]
    by_cases hk : item.url = key
    · by_cases h0 : countKey assets key = 0 <;> simp [hk, h0]
    · have hk' : key ≠ item.url := fun h => hk h.symm
      simp [hk, hk']

theorem createAssets_ids_length (items : List GatewayResultItem) (assets : List Asset) :
    (createAssets assets items).2.length = items.length := by
  induction items generalizing assets with
  | nil => rfl
  | cons item rest ih => exact congrArg (· + 1) (ih _)

end NexusStudio.Generation
