import NexusStudio.Workshop.AuthorizedOperations

/-!
# Publishing under an authorization

`assert_taobao_store_write_allowed` and the hash of the diff that is to be written to the shop.

* (hash) Diffs with one payload hash have the same content, up to the order of their SKU ids.
* (defect) The gate takes the hash that the diff carries, and computes it only where that is empty.
* (condition) The authorized hash is the one of the diff exactly if the diff carries none, or its own.
-/

namespace NexusStudio.PublishDiffs

open JsonText AuthorizedOperations

/-! ### Diffs -/

inductive Operation
  | publish
  | edit
  | list
  | unlist
  deriving DecidableEq, Repr

def Operation.text : Operation → String
  | publish => "publish"
  | edit => "edit"
  | list => "list"
  | unlist => "unlist"

theorem Operation.text_injective : Function.Injective Operation.text := by
  intro a b h
  cases a <;> cases b <;> first | rfl | exact absurd h (by decide)

/-- `before` and `after` are JSON values, which is how `json.dumps` sees them. -/
structure PublishChange (ν : Type) where
  path : String
  before : Value ν
  after : Value ν

structure PublishDiff (ν : Type) where
  operation : Operation
  shopConnectionId : String
  itemId : Option String
  skuIds : List String
  baseVersion : Option String
  targetVersion : String
  changes : List (PublishChange ν)
  idempotencyKey : String
  payloadHash : String

section Model

variable {ν τ : Type} (N : Numbers ν) (sha256 : String → String)

def PublishChange.payload (c : PublishChange ν) : List (String × Value ν) :=
  fieldsOf [("path", .string c.path), ("before", c.before), ("after", c.after)]

/-- The payload of `compute_publish_diff_payload_hash`. -/
def PublishDiff.payload (d : PublishDiff ν) : List (String × Value ν) := fieldsOf [
  ("operation", .string d.operation.text),
  ("shop_connection_id", .string d.shopConnectionId),
  ("item_id", stringOrNull d.itemId),
  ("sku_ids", strings (sorted d.skuIds)),
  ("base_version", stringOrNull d.baseVersion),
  ("target_version", .string d.targetVersion),
  ("changes", .array (d.changes.map fun c => .dict c.payload)),
  ("idempotency_key", .string d.idempotencyKey)]

def computePublishDiffPayloadHash (d : PublishDiff ν) : String := stablePayloadHash N sha256 d.payload

/-- A `TaobaoAdapterError`. -/
structure AdapterError where
  code : String
  message : String
  deriving DecidableEq, Repr

/-- `assert_taobao_store_write_allowed`. -/
def assertTaobaoStoreWriteAllowed (grantedExternal : List Capability) (authorizedOps : List (AuthorizedOperation τ))
    (d : PublishDiff ν) (taskId : String) : Except AdapterError (AuthorizedOperation τ) :=
  let payloadHash := if d.payloadHash = "" then computePublishDiffPayloadHash N sha256 d else d.payloadHash
  match authorizeOperation grantedExternal authorizedOps .taobaoStoreWrite payloadHash taskId with
  | .ok op => .ok op
  | .error message => .error ⟨"TAOBAO_AUTH_DENIED", message⟩

end Model

/-! ### Contents -/

/-- What is written to the shop, whatever hash the diff carries and in whatever order its SKU ids stand. -/
structure PublishDiff.SameContent {ν : Type} (d d' : PublishDiff ν) : Prop where
  operation : d.operation = d'.operation
  shopConnectionId : d.shopConnectionId = d'.shopConnectionId
  itemId : d.itemId = d'.itemId
  skuIds : d.skuIds.Perm d'.skuIds
  baseVersion : d.baseVersion = d'.baseVersion
  targetVersion : d.targetVersion = d'.targetVersion
  changes : d.changes = d'.changes
  idempotencyKey : d.idempotencyKey = d'.idempotencyKey

section Contents

variable {ν τ : Type} {N : Numbers ν} {sha256 : String → String} {d d' : PublishDiff ν}

theorem change_injective : Function.Injective fun c : PublishChange ν => Value.dict c.payload := by
  intro c c' h
  have hfields := Value.dict.inj h
  have hlookup : ∀ k, c.payload.lookup k = c'.payload.lookup k := fun k => congrArg (List.lookup k) hfields
  have hpath := hlookup "path"
  have hbefore := hlookup "before"
  have hafter := hlookup "after"
  simp [PublishChange.payload, fieldsOf, lookup_insertField] at hpath hbefore hafter
  cases c
  cases c'
  cases hpath
  cases hbefore
  cases hafter
  rfl

theorem perm_of_sorted {l l' : List String} (h : sorted l = sorted l') : l.Perm l' := by
  have hl : (sorted l).Perm l := List.perm_insertionSort _ l
  have hl' : (sorted l').Perm l' := List.perm_insertionSort _ l'
  exact hl.symm.trans (h ▸ hl')

/-- The fields of a payload, by their keys. -/
structure Fields (d : PublishDiff ν) (read : String → Option (Value ν)) : Prop where
  operation : read "operation" = some (.string d.operation.text)
  shopConnectionId : read "shop_connection_id" = some (.string d.shopConnectionId)
  itemId : read "item_id" = some (stringOrNull d.itemId)
  skuIds : read "sku_ids" = some (strings (sorted d.skuIds))
  baseVersion : read "base_version" = some (stringOrNull d.baseVersion)
  targetVersion : read "target_version" = some (.string d.targetVersion)
  changes : read "changes" = some (.array (d.changes.map fun c => .dict c.payload))
  idempotencyKey : read "idempotency_key" = some (.string d.idempotencyKey)

theorem fields_payload (d : PublishDiff ν) : Fields d fun k => d.payload.lookup k := by
  constructor <;> simp [PublishDiff.payload, fieldsOf, lookup_insertField]

theorem sameContent_of_payload (h : d.payload = d'.payload) : d.SameContent d' := by
  have hd := fields_payload d
  have hd' := fields_payload d'
  rw [h] at hd
  have hone : ∀ {k a b}, d'.payload.lookup k = some a → d'.payload.lookup k = some b → a = b := fun ha hb =>
    Option.some.inj (ha.symm.trans hb)
  constructor
  · exact Operation.text_injective (Value.string.inj (hone hd.operation hd'.operation))
  · exact Value.string.inj (hone hd.shopConnectionId hd'.shopConnectionId)
  · exact stringOrNull_injective (hone hd.itemId hd'.itemId)
  · exact perm_of_sorted (strings_injective (hone hd.skuIds hd'.skuIds))
  · exact stringOrNull_injective (hone hd.baseVersion hd'.baseVersion)
  · exact Value.string.inj (hone hd.targetVersion hd'.targetVersion)
  · exact List.map_injective_iff.2 change_injective (Value.array.inj (hone hd.changes hd'.changes))
  · exact Value.string.inj (hone hd.idempotencyKey hd'.idempotencyKey)

theorem sameContent_of_hash (hsha : Function.Injective sha256)
    (h : computePublishDiffPayloadHash N sha256 d = computePublishDiffPayloadHash N sha256 d') : d.SameContent d' :=
  sameContent_of_payload (payload_eq_of_hash hsha h)

/-! ### What an authorization covers -/

variable {grantedExternal grantedExternal' : List Capability} {authorizedOps authorizedOps' : List (AuthorizedOperation τ)}
  {taskId taskId' : String} {op : AuthorizedOperation τ}

/-- The diff carries no hash, or the one of its content. -/
def Honest (N : Numbers ν) (sha256 : String → String) (d : PublishDiff ν) : Prop :=
  d.payloadHash = "" ∨ d.payloadHash = computePublishDiffPayloadHash N sha256 d

theorem payloadHash_of_allowed
    (h : assertTaobaoStoreWriteAllowed N sha256 grantedExternal authorizedOps d taskId = .ok op) :
    op.payloadHash = if d.payloadHash = "" then computePublishDiffPayloadHash N sha256 d else d.payloadHash := by
  unfold assertTaobaoStoreWriteAllowed at h
  dsimp only at h
  split at h
  case h_1 found hfound =>
    cases h
    exact (matches_of_authorizeOperation hfound).2.2.2.2.1
  case h_2 => cases h

theorem hash_iff_of_allowed
    (h : assertTaobaoStoreWriteAllowed N sha256 grantedExternal authorizedOps d taskId = .ok op) :
    op.payloadHash = computePublishDiffPayloadHash N sha256 d ↔ Honest N sha256 d := by
  rw [payloadHash_of_allowed h, Honest]
  split
  case isTrue hempty => exact ⟨fun _ => .inl hempty, fun _ => rfl⟩
  case isFalse hcarried => exact ⟨.inr, fun hor => hor.resolve_left hcarried⟩

/-- The authorized hash is the one of the diff to be written exactly if the diff is honest, and honest diffs that one
authorization lets through have the same content. -/
theorem authorized_hash_iff_honest (hsha : Function.Injective sha256)
    (h : assertTaobaoStoreWriteAllowed N sha256 grantedExternal authorizedOps d taskId = .ok op) :
    (op.payloadHash = computePublishDiffPayloadHash N sha256 d ↔ Honest N sha256 d) ∧
      (Honest N sha256 d → Honest N sha256 d' →
        assertTaobaoStoreWriteAllowed N sha256 grantedExternal' authorizedOps' d' taskId' = .ok op →
          d.SameContent d') := by
  refine ⟨hash_iff_of_allowed h, fun hd hd' h' => ?_⟩
  have hhash := (hash_iff_of_allowed h).2 hd
  have hhash' := (hash_iff_of_allowed h').2 hd'
  exact sameContent_of_hash hsha (hhash.symm.trans hhash')

end Contents

/-! ### A diff that carries the hash of another one -/

def confirmedDiff : PublishDiff Int where
  operation := .edit
  shopConnectionId := "shop"
  itemId := some "item"
  skuIds := ["b", "a"]
  baseVersion := some "1"
  targetVersion := "2"
  changes := [⟨"price", .number 1000, .number 1200⟩]
  idempotencyKey := "key"
  payloadHash := ""

/-- A record of the user's confirmation of `confirmedDiff`. -/
def confirmation : AuthorizedOperation Nat where
  id := "aop_1"
  taskId := "task"
  capability := .taobaoStoreWrite
  operationKind := "publish_diff"
  payloadHash := computePublishDiffPayloadHash integers id confirmedDiff
  grantedBy := 1
  grantedAt := 0
  consumedAt := none
  revokedAt := none

/-- Another price under the hash that was confirmed. -/
def forgedDiff : PublishDiff Int :=
  { confirmedDiff with
    changes := [⟨"price", .number 1000, .number 1⟩]
    payloadHash := computePublishDiffPayloadHash integers id confirmedDiff }

theorem confirmed_allowed : assertTaobaoStoreWriteAllowed integers id [.taobaoStoreWrite] [confirmation] confirmedDiff
    "task" = .ok confirmation := by
  decide +kernel

theorem authorized_hash_iff_honest_confirmed :
    (confirmation.payloadHash = computePublishDiffPayloadHash integers id confirmedDiff ↔
        Honest integers id confirmedDiff) ∧
      (Honest integers id confirmedDiff → Honest integers id confirmedDiff →
        assertTaobaoStoreWriteAllowed integers id [.taobaoStoreWrite] [confirmation] confirmedDiff "task" =
          .ok confirmation → confirmedDiff.SameContent confirmedDiff) :=
  authorized_hash_iff_honest Function.injective_id confirmed_allowed

/-- The gate lets the forged diff through, with a hash that is not the one of its content. -/
theorem forged_diff_allowed :
    assertTaobaoStoreWriteAllowed integers id [.taobaoStoreWrite] [confirmation] forgedDiff "task" = .ok confirmation ∧
      confirmation.payloadHash ≠ computePublishDiffPayloadHash integers id forgedDiff ∧
      ¬ confirmedDiff.SameContent forgedDiff := by
  have hallowed : assertTaobaoStoreWriteAllowed integers id [.taobaoStoreWrite] [confirmation] forgedDiff "task" =
      .ok confirmation := by
    decide +kernel
  have hcontent : ¬ confirmedDiff.SameContent forgedDiff := by
    intro h
    have hchange := congrArg PublishChange.after (List.cons.inj h.changes).1
    cases hchange
  exact ⟨hallowed, fun h => hcontent (sameContent_of_hash Function.injective_id h), hcontent⟩

end NexusStudio.PublishDiffs
