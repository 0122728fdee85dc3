import NexusStudio.Lib.Json
import Mathlib.Data.List.Sort

/-!
# Authorized operations

The records by which a user confirms one operation with its parameters, and the gates that look for them.

* (hash) `stablePayloadHash` is the hash of a payload's JSON text with sorted keys.
* (gate) `authorizeOperation` finds the first live record of a task with the capability and the hash asked for.
-/

namespace NexusStudio.AuthorizedOperations

open JsonText

/-! ### Records -/

/-- `WorkshopToolCapability`. -/
inductive Capability
  | webSearch
  | webFetchReadonly
  | readUploads
  | writeTempWorkspace
  | readProjectFiles
  | writeProjectFiles
  | browserRead
  | browserWrite
  | sandboxExecute
  | mcp
  | draftWorkflow
  | confirmSaveWorkflow
  | createSchedule
  | startWorkflowExecution
  | stopWorkflowExecution
  | deleteWorkflow
  | manualRunWorkflow
  | requestExternalAuth
  | proposeInvite
  | inviteExpert
  | raiseAuthPopup
  | taobaoStoreWrite
  | generationListModels
  | generationSubmit
  deriving DecidableEq, Repr

structure AuthorizedOperation (τ : Type) where
  id : String
  taskId : String
  capability : Capability
  operationKind : String
  payloadHash : String
  grantedBy : Int
  grantedAt : τ
  consumedAt : Option τ
  revokedAt : Option τ
  deriving DecidableEq, Repr

/-! ### Hashes -/

section Hashes

variable {ν : Type} (N : Numbers ν) (sha256 : String → String)

/-- `stable_payload_hash`. -/
def stablePayloadHash (payload : List (String × Value ν)) : String :=
  sha256 (String.ofList (write N [' '] (.dict payload)))

variable {N sha256}

theorem payload_eq_of_hash (hsha : Function.Injective sha256) {l l' : List (String × Value ν)}
    (h : stablePayloadHash N sha256 l = stablePayloadHash N sha256 l') : l = l' :=
  Value.dict.inj (write_injective N [' '] (String.ofList_inj.1 (hsha h)))

/-- `sorted` of a list of strings. -/
def sorted (l : List String) : List String := l.insertionSort (· ≤ ·)

/-- A string or `None`. -/
def stringOrNull : Option String → Value ν
  | none => .null
  | some s => .string s

theorem stringOrNull_injective : Function.Injective (stringOrNull (ν := ν)) := by
  intro a b h
  cases a with
  | none => cases b with
    | none => rfl
    | some b => cases h
  | some a => cases b with
    | none => cases h
    | some b => rw [Value.string.inj h]

def strings (l : List String) : Value ν := .array (l.map .string)

theorem strings_injective : Function.Injective (strings (ν := ν)) := fun _ _ h =>
  List.map_injective_iff.2 (fun _ _ => Value.string.inj) (Value.array.inj h)

end Hashes

/-! ### The gate -/

section Gate

variable {τ : Type}

/-- The record is live and of the operation asked for. -/
def AuthorizedOperation.Matches (op : AuthorizedOperation τ) (capability : Capability) (payloadHash taskId : String) :
    Prop :=
  op.taskId = taskId ∧ op.capability = capability ∧ op.payloadHash = payloadHash ∧ op.revokedAt = none ∧
    op.consumedAt = none

instance (op : AuthorizedOperation τ) (capability : Capability) (payloadHash taskId : String) :
    Decidable (op.Matches capability payloadHash taskId) :=
  decidable_of_iff (op.taskId = taskId ∧ op.capability = capability ∧ op.payloadHash = payloadHash ∧
    op.revokedAt.isNone = true ∧ op.consumedAt.isNone = true) (by
      simp [AuthorizedOperation.Matches])

/-- `authorize_operation`, with the text of its error. -/
def authorizeOperation (grantedExternal : List Capability) (authorizedOps : List (AuthorizedOperation τ))
    (capability : Capability) (payloadHash taskId : String) : Except String (AuthorizedOperation τ) :=
  if capability ∉ grantedExternal then .error "task external grant missing for capability"
  else match authorizedOps.find? fun op => op.Matches capability payloadHash taskId with
    | some op => .ok op
    | none => .error "no matching live authorized operation"

variable {grantedExternal : List Capability} {authorizedOps : List (AuthorizedOperation τ)} {capability : Capability}
  {payloadHash taskId : String} {op : AuthorizedOperation τ}

/-- What the gate lets through is a live record of the list, and the capability is granted. -/
theorem matches_of_authorizeOperation
    (h : authorizeOperation grantedExternal authorizedOps capability payloadHash taskId = .ok op) :
    capability ∈ grantedExternal ∧ op ∈ authorizedOps ∧ op.Matches capability payloadHash taskId := by
  unfold authorizeOperation at h
  split at h
  case isTrue => cases h
  case isFalse hgranted =>
    split at h
    case h_1 found hfound =>
      cases h
      have hmatches := List.find?_some hfound
      exact ⟨not_not.1 hgranted, List.mem_of_find?_eq_some hfound, of_decide_eq_true hmatches⟩
    case h_2 => cases h

end Gate

end NexusStudio.AuthorizedOperations
