import NexusStudio.Workshop.AuthorizedOperations
import NexusStudio.Server.Errors
import NexusStudio.Lib.Machine

/-!
# The brief of a project

The JSON dict of a project, which three calls read as a whole, edit and write back as a whole.

* (edits) `appendAuthorizedOperation`, `consumeOperation` and `beginShopAuth` as functions on the dict.
* (calls) Any number of calls, each with a read and a write of its own.
* (law) What was appended stays, what was consumed stays consumed, and no operation is consumed twice.
* (defect) A write forgets what others have written since the read, and an operation can be consumed again.
* (condition) `Safe`: no operation is written between the read and the write of a call, nor a consumed one consumed.
-/

set_option linter.unusedSectionVars false

namespace NexusStudio.ProjectBrief

open Concurrent JsonText AuthorizedOperations

/-- The value of a `WorkshopToolCapability`. -/
def capabilityValue : Capability → String
  | .webSearch => "web_search"
  | .webFetchReadonly => "web_fetch_readonly"
  | .readUploads => "read_uploads"
  | .writeTempWorkspace => "write_temp_workspace"
  | .readProjectFiles => "read_project_files"
  | .writeProjectFiles => "write_project_files"
  | .browserRead => "browser_read"
  | .browserWrite => "browser_write"
  | .sandboxExecute => "sandbox_execute"
  | .mcp => "mcp"
  | .draftWorkflow => "draft_workflow"
  | .confirmSaveWorkflow => "confirm_save_workflow"
  | .createSchedule => "create_schedule"
  | .startWorkflowExecution => "start_workflow_execution"
  | .stopWorkflowExecution => "stop_workflow_execution"
  | .deleteWorkflow => "delete_workflow"
  | .manualRunWorkflow => "manual_run_workflow"
  | .requestExternalAuth => "request_external_auth"
  | .proposeInvite => "propose_invite"
  | .inviteExpert => "invite_expert"
  | .raiseAuthPopup => "raise_auth_popup"
  | .taobaoStoreWrite => "taobao_store_write"
  | .generationListModels => "generation_list_models"
  | .generationSubmit => "generation_submit"

/-! ### Edits -/

/-- The fields of a dict. -/
abbrev Fields (ν : Type) := List (String × Value ν)

section Edits

variable {ν τ : Type} (N : Numbers ν) (iso : τ → String) (str : Value ν → String)

/-- `AUTHORIZED_OPS_BRIEF_KEY`. -/
def briefKey : String := "authorized_operations"

/-- What is stored of an operation. -/
def record (op : AuthorizedOperation τ) : Fields ν := fieldsOf [
  ("id", .string op.id),
  ("task_id", .string op.taskId),
  ("capability", .string (capabilityValue op.capability)),
  ("operation_kind", .string op.operationKind),
  ("payload_hash", .string op.payloadHash),
  ("granted_by", .number (N.ofInt op.grantedBy)),
  ("granted_at", .string (iso op.grantedAt)),
  ("consumed_at", stringOrNull (op.consumedAt.map iso)),
  ("revoked_at", stringOrNull (op.revokedAt.map iso))]

/-- `list(x)`, `none` where it raises. -/
def listOf : Value ν → Option (List (Value ν))
  | .array l => some l
  | .dict fields => some (fields.map fun f => .string f.1)
  | .string s => some (s.toList.map fun d => .string (String.singleton d))
  | _ => none

/-- `append_authorized_operation`. -/
def appendAuthorizedOperation (op : AuthorizedOperation τ) (brief : Fields ν) : Option (Fields ν) :=
  (listOf ((brief.lookup briefKey).getD (.array []))).map fun existing =>
    insertField briefKey (.array (existing ++ [.dict (record N iso op)])) brief

/-- `str(item.get("id"))`; `str` is used for what is no string. -/
def idOf (item : Fields ν) : String :=
  match item.lookup "id" with
  | some (.string s) => s
  | some v => str v
  | none => "None"

/-- A record with the id gets its `consumed_at`. -/
def patch (operationId : String) (consumedAt : τ) : Value ν → Value ν
  | .dict item =>
    if idOf str item = operationId then .dict (insertField "consumed_at" (.string (iso consumedAt)) item)
    else .dict item
  | v => v

/-- The item is a record with the id. -/
def hasId (operationId : String) : Value ν → Bool
  | .dict item => idOf str item = operationId
  | _ => false

/-- `consume_operation`. -/
def consumeOperation (operationId : String) (consumedAt : τ) (brief : Fields ν) : Option (Fields ν) :=
  match (brief.lookup briefKey).getD (.array []) with
  | .array raw =>
    if raw.any (hasId str operationId) then
      some (insertField briefKey (.array (raw.map (patch iso str operationId consumedAt))) brief)
    else none
  | _ => none

/-- What `begin_shop_auth` writes; `newId` is the id it draws. -/
def beginShopAuth (newId : String) (brief : Fields ν) : Option (Fields ν) :=
  let shopConnection := match brief.lookup "shop_connection" with
    | some (.dict shop) => shop
    | _ => []
  let shopConnectionId := match shopConnection.lookup "shop_connection_id" with
    | some (.string existing) => if strip existing ≠ "" then strip existing else newId
    | _ => newId
  some (insertField "shop_connection" (.dict (insertField "status" (.string "authorizing")
    (insertField "shop_connection_id" (.string shopConnectionId) shopConnection))) brief)

end Edits

/-! ### The machine -/

/-- A call of the brief. -/
inductive Job (τ : Type)
  | append (op : AuthorizedOperation τ)
  | consume (operationId : String) (consumedAt : τ)
  | shopAuth (newId : String)

inductive Pc (ν τ : Type)
  | idle
  | reading (j : Job τ)
  -- with the new brief, and how many edits of the operations there were at the read
  | writing (j : Job τ) (brief : Fields ν) (edits : Nat)

structure State (ν τ ι : Type) where
  brief : Value ν
  pc : ι → Pc ν τ
  -- how many appends and consumptions have been written
  edits : Nat
  -- the operations whose append has returned, and the ids whose consumption has
  appended : List (AuthorizedOperation τ)
  consumed : List String

inductive Action (τ ι : Type)
  | call (i : ι) (j : Job τ)
  | run (i : ι)
  -- the call under way raises
  | fail (i : ι)

section Model

variable {ν τ ι : Type} [DecidableEq ι] (N : Numbers ν) (iso : τ → String) (str : Value ν → String)

def State.goto (s : State ν τ ι) (i : ι) (pc : Pc ν τ) : State ν τ ι := { s with pc := Function.update s.pc i pc }

/-- `get_project_brief`. -/
def State.fields (s : State ν τ ι) : Fields ν :=
  match s.brief with
  | .dict fields => fields
  | _ => []

def Job.edit : Job τ → Fields ν → Option (Fields ν)
  | append op => appendAuthorizedOperation N iso op
  | consume operationId consumedAt => consumeOperation iso str operationId consumedAt
  | shopAuth newId => beginShopAuth newId

/-- What a call that returns has done. -/
def State.returned (s : State ν τ ι) : Job τ → State ν τ ι
  | .append op => { s with appended := s.appended ++ [op], edits := s.edits + 1 }
  | .consume operationId _ => { s with consumed := s.consumed ++ [operationId], edits := s.edits + 1 }
  | .shopAuth _ => s

def step (s : State ν τ ι) : Action τ ι → Option (State ν τ ι)
  | .call i j =>
    match s.pc i with
    | .idle => some (s.goto i (.reading j))
    | _ => none
  | .run i =>
    match s.pc i with
    | .idle => none
    | .reading j =>
      match j.edit N iso str s.fields with
      | none => some (s.goto i .idle)
      | some brief => some (s.goto i (.writing j brief s.edits))
    | .writing j brief _ =>
      some ({ s.goto i .idle with brief := .dict brief }.returned j)
  | .fail i =>
    match s.pc i with
    | .idle => none
    | _ => some (s.goto i .idle)

/-- Any brief, before the first call. -/
structure Initial (s : State ν τ ι) : Prop where
  pc : ∀ i, s.pc i = .idle
  appended : s.appended = []
  consumed : s.consumed = []

def calls : Machine (State ν τ ι) (Action τ ι) where
  init := Initial
  step := step N iso str

/-! ### The law and its condition -/

/-- The items of `authorized_operations`. -/
def items (brief : Fields ν) : List (Value ν) :=
  match brief.lookup briefKey with
  | some (.array l) => l
  | _ => []

/-- `consumed_at` is not `None`. -/
def marked (item : Fields ν) : Bool :=
  match item.lookup "consumed_at" with
  | none | some .null => false
  | _ => true

def markedWith (operationId : String) : Value ν → Bool
  | .dict item => idOf str item = operationId && marked item
  | _ => false

/-- A record of the operation is marked consumed. -/
def Consumed (brief : Fields ν) (operationId : String) : Prop := (items brief).any (markedWith str operationId) = true

instance (brief : Fields ν) (operationId : String) : Decidable (Consumed str brief operationId) :=
  inferInstanceAs (Decidable (_ = true))

/-- The brief has a record of the operation, consumed or not. -/
def Kept (brief : Fields ν) (op : AuthorizedOperation τ) : Prop :=
  ∃ item, .dict item ∈ items brief ∧ ∀ k, k ≠ "consumed_at" → item.lookup k = (record N iso op).lookup k

structure Law (s : State ν τ ι) : Prop where
  kept : ∀ op ∈ s.appended, Kept N iso s.fields op
  consumed : ∀ operationId ∈ s.consumed, Consumed str s.fields operationId
  once : ∀ operationId, s.consumed.count operationId ≤ 1

/-- No append or consumption has been written since the read of a call that writes, and a consumption finds its
operation not consumed. -/
def Safe (s : State ν τ ι) : Action τ ι → Prop
  | .run i =>
    match s.pc i with
    | .reading (.consume operationId _) => ¬ Consumed str s.fields operationId
    | .writing _ _ edits => edits = s.edits
    | _ => True
  | _ => True

instance (s : State ν τ ι) (a : Action τ ι) : Decidable (Safe str s a) := by
  unfold Safe
  repeat' split
  all_goals infer_instance

end Model

/-! ### What an edit keeps -/

section Proofs

variable {ν τ ι : Type} [DecidableEq ι] {N : Numbers ν} {iso : τ → String} {str : Value ν → String}
  {brief brief' : Fields ν} {op : AuthorizedOperation τ} {operationId : String} {consumedAt : τ} {j : Job τ}

theorem items_insertField (l : List (Value ν)) : items (insertField briefKey (.array l) brief) = l := by
  rw [items, lookup_insertField_self]

theorem items_appendAuthorizedOperation (h : appendAuthorizedOperation N iso op brief = some brief') :
    ∃ existing, items brief ⊆ existing ∧ items brief' = existing ++ [.dict (record N iso op)] := by
  obtain ⟨existing, hexisting, rfl⟩ := Option.map_eq_some_iff.1 h
  refine ⟨existing, ?_, items_insertField _⟩
  unfold items
  split
  case h_1 l hl =>
    rw [hl] at hexisting
    cases hexisting
    exact List.Subset.refl _
  case h_2 => exact List.nil_subset _

theorem items_consumeOperation (h : consumeOperation iso str operationId consumedAt brief = some brief') :
    (items brief).any (hasId str operationId) = true ∧
      items brief' = (items brief).map (patch iso str operationId consumedAt) := by
  unfold consumeOperation at h
  cases hl : brief.lookup briefKey with
  | none =>
    rw [hl] at h
    cases h
  | some v =>
    rw [hl, Option.getD_some] at h
    cases v with
    | array raw =>
      have hitems : items brief = raw := by rw [items, hl]
      obtain ⟨hany, hbrief⟩ := Option.ite_none_right_eq_some.1 h
      cases hbrief
      rw [hitems]
      exact ⟨hany, items_insertField _⟩
    | _ => cases h

theorem items_beginShopAuth {newId : String} (h : beginShopAuth newId brief = some brief') :
    items brief' = items brief := by
  have hkey : briefKey ≠ "shop_connection" := by decide
  cases h
  rw [items, lookup_insertField_of_ne hkey, items]

/-- Only `consumed_at` of a record is written. -/
theorem patch_dict (iso : τ → String) (str : Value ν → String) (operationId : String) (consumedAt : τ)
    (item : Fields ν) : ∃ item',
      patch iso str operationId consumedAt (.dict item) = .dict item' ∧
        ∀ k, k ≠ "consumed_at" → item'.lookup k = item.lookup k := by
  by_cases hid : idOf str item = operationId
  · exact ⟨_, if_pos hid, fun _ hk => lookup_insertField_of_ne hk⟩
  · exact ⟨_, if_neg hid, fun _ _ => rfl⟩

theorem idOf_insertField (item : Fields ν) (v : Value ν) :
    idOf str (insertField "consumed_at" v item) = idOf str item := by
  have hkey : "id" ≠ "consumed_at" := by decide
  rw [idOf, lookup_insertField_of_ne hkey, idOf]

theorem marked_insertField (item : Fields ν) (s : String) :
    marked (insertField "consumed_at" (.string s) item) = true := by
  rw [marked, lookup_insertField_self]

/-- A record that the consumption names is marked. -/
theorem markedWith_patch_of_hasId {v : Value ν} (h : hasId str operationId v = true) :
    markedWith str operationId (patch iso str operationId consumedAt v) = true := by
  cases v with
  | dict item =>
    have hid : idOf str item = operationId := of_decide_eq_true h
    rw [patch, if_pos hid, markedWith, idOf_insertField, marked_insertField, hid, decide_eq_true rfl]
    rfl
  | _ => cases h

/-- A consumption leaves marked records marked. -/
theorem markedWith_patch {v : Value ν} {operationId' : String} (h : markedWith str operationId' v = true) :
    markedWith str operationId' (patch iso str operationId consumedAt v) = true := by
  cases v with
  | dict item =>
    by_cases hid : idOf str item = operationId
    · rw [patch, if_pos hid, markedWith, idOf_insertField, marked_insertField, Bool.and_true]
      exact (Bool.and_eq_true_iff.1 h).1
    · rw [patch, if_neg hid]
      exact h
  | _ => cases h

/-- What the edit of a call keeps and what it does. -/
structure Edited (N : Numbers ν) (iso : τ → String) (str : Value ν → String) (j : Job τ) (brief brief' : Fields ν) :
    Prop where
  kept : ∀ op : AuthorizedOperation τ, Kept N iso brief op → Kept N iso brief' op
  consumed : ∀ operationId, Consumed str brief operationId → Consumed str brief' operationId
  appends : ∀ op, j = .append op → Kept N iso brief' op
  consumes : ∀ operationId consumedAt, j = .consume operationId consumedAt → Consumed str brief' operationId
  same : ∀ newId, j = .shopAuth newId → items brief' = items brief

theorem kept_of_items (h : items brief' = items brief) (hkept : Kept N iso brief op) : Kept N iso brief' op := by
  rw [Kept, h]
  exact hkept

theorem consumed_of_items (h : items brief' = items brief) (hconsumed : Consumed str brief operationId) :
    Consumed str brief' operationId := by
  rw [Consumed, h]
  exact hconsumed

theorem edited_append (h : appendAuthorizedOperation N iso op brief = some brief') :
    Edited N iso str (.append op) brief brief' := by
  obtain ⟨existing, hsub, hitems⟩ := items_appendAuthorizedOperation h
  have hmem : ∀ v ∈ items brief, v ∈ items brief' := fun v hv => hitems ▸ List.mem_append_left _ (hsub hv)
  refine ⟨fun op' hkept => ?_, fun id hconsumed => ?_, fun op' hj => ?_, fun _ _ hj => (by cases hj),
    fun _ hj => (by cases hj)⟩
  · obtain ⟨item, hitem, hfields⟩ := hkept
    exact ⟨item, hmem _ hitem, hfields⟩
  · obtain ⟨v, hv, hmarked⟩ := List.any_eq_true.1 hconsumed
    exact List.any_eq_true.2 ⟨v, hmem v hv, hmarked⟩
  · cases hj
    exact ⟨record N iso op, hitems ▸ List.mem_append_right _ (List.mem_singleton_self _), fun _ _ => rfl⟩

theorem edited_consume (h : consumeOperation iso str operationId consumedAt brief = some brief') :
    Edited N iso str (.consume operationId consumedAt) brief brief' := by
  obtain ⟨hany, hitems⟩ := items_consumeOperation h
  have hmem : ∀ v ∈ items brief, patch iso str operationId consumedAt v ∈ items brief' := fun v hv =>
    hitems ▸ List.mem_map_of_mem hv
  refine ⟨fun op' hkept => ?_, fun id hconsumed => ?_, fun _ hj => (by cases hj), fun id at' hj => ?_,
    fun _ hj => (by cases hj)⟩
  · obtain ⟨item, hitem, hfields⟩ := hkept
    obtain ⟨item', hpatch, hsame⟩ := patch_dict iso str operationId consumedAt item
    exact ⟨item', hpatch ▸ hmem _ hitem, fun k hk => (hsame k hk).trans (hfields k hk)⟩
  · obtain ⟨v, hv, hmarked⟩ := List.any_eq_true.1 hconsumed
    exact List.any_eq_true.2 ⟨patch iso str operationId consumedAt v, hmem v hv, markedWith_patch hmarked⟩
  · cases hj
    obtain ⟨v, hv, hid⟩ := List.any_eq_true.1 hany
    exact List.any_eq_true.2 ⟨patch iso str operationId consumedAt v, hmem v hv, markedWith_patch_of_hasId hid⟩

theorem edited_shopAuth {newId : String} (h : beginShopAuth newId brief = some brief') :
    Edited N iso str (.shopAuth newId) brief brief' :=
  have hitems := items_beginShopAuth h
  ⟨fun _ => kept_of_items hitems, fun _ => consumed_of_items hitems, fun _ hj => (by cases hj),
    fun _ _ hj => (by cases hj), fun _ _ => hitems⟩

theorem edited (h : j.edit N iso str brief = some brief') : Edited N iso str j brief brief' := by
  cases j with
  | append op => exact edited_append h
  | consume operationId consumedAt => exact edited_consume h
  | shopAuth newId => exact edited_shopAuth h

/-- The operations of the brief read are all that an edit depends on. -/
theorem edited_of_items {brief₁ : Fields ν} (h : items brief₁ = items brief) (he : Edited N iso str j brief brief') :
    Edited N iso str j brief₁ brief' :=
  ⟨fun op hkept => he.kept op (kept_of_items h.symm hkept),
    fun id hconsumed => he.consumed id (consumed_of_items h.symm hconsumed), he.appends, he.consumes,
    fun newId hj => (he.same newId hj).trans h.symm⟩

/-! ### The invariant -/

variable {s s' : State ν τ ι} {a : Action τ ι}

/-- What a call is about to write is an edit of the operations as they are, and consumes none that is consumed. -/
structure Fresh (N : Numbers ν) (iso : τ → String) (str : Value ν → String) (s : State ν τ ι) (j : Job τ)
    (brief : Fields ν) : Prop where
  edited : Edited N iso str j s.fields brief
  unconsumed : ∀ operationId consumedAt, j = .consume operationId consumedAt → ¬ Consumed str s.fields operationId

structure Inv (N : Numbers ν) (iso : τ → String) (str : Value ν → String) (s : State ν τ ι) : Prop where
  law : Law N iso str s
  current : ∀ i j brief edits, s.pc i = .writing j brief edits →
    edits ≤ s.edits ∧ (edits = s.edits → Fresh N iso str s j brief)

theorem inv_goto (hI : Inv N iso str s) {i : ι} {pc : Pc ν τ}
    (hpc : ∀ j brief edits, pc = .writing j brief edits →
      edits ≤ s.edits ∧ (edits = s.edits → Fresh N iso str s j brief)) :
    Inv N iso str (s.goto i pc) := by
  refine ⟨⟨hI.law.kept, hI.law.consumed, hI.law.once⟩, ?_⟩
  refine (Function.forall_update_iff s.pc fun _ pc => ∀ j brief edits, pc = .writing j brief edits →
    edits ≤ s.edits ∧ (edits = s.edits → Fresh N iso str (s.goto i _) j brief)).2 ⟨fun j brief edits hj => ?_, ?_⟩
  · obtain ⟨hle, hfresh⟩ := hpc j brief edits hj
    exact ⟨hle, fun he => ⟨(hfresh he).edited, (hfresh he).unconsumed⟩⟩
  · intro k _ j brief edits hj
    obtain ⟨hle, hfresh⟩ := hI.current k j brief edits hj
    exact ⟨hle, fun he => ⟨(hfresh he).edited, (hfresh he).unconsumed⟩⟩

/-- The state after the write of a call. -/
def State.written (s : State ν τ ι) (i : ι) (j : Job τ) (brief : Fields ν) : State ν τ ι :=
  { s.goto i .idle with brief := .dict brief }.returned j

/-- After an append or a consumption no call that has read before is fresh. -/
theorem current_of_edits {i : ι} (hI : Inv N iso str s) (hpc : s'.pc = Function.update s.pc i .idle)
    (hedits : s'.edits = s.edits + 1) : ∀ k j brief edits, s'.pc k = .writing j brief edits →
      edits ≤ s'.edits ∧ (edits = s'.edits → Fresh N iso str s' j brief) := by
  rw [hpc, hedits]
  refine (Function.forall_update_iff s.pc fun _ pc => ∀ j brief edits, pc = .writing j brief edits →
    edits ≤ s.edits + 1 ∧ (edits = s.edits + 1 → Fresh N iso str s' j brief)).2 ⟨fun _ _ _ hj => (by cases hj), ?_⟩
  intro k _ j brief edits hj
  have hle := (hI.current k j brief edits hj).1
  exact ⟨by omega, fun he => by omega⟩

theorem inv_append {i : ι} (hI : Inv N iso str s) (hfresh : Fresh N iso str s (.append op) brief) :
    Inv N iso str (s.written i (.append op) brief) := by
  have he := hfresh.edited
  refine ⟨⟨fun op' hop => ?_, fun id hid => he.consumed id (hI.law.consumed id hid), hI.law.once⟩,
    current_of_edits hI rfl rfl⟩
  rcases List.mem_append.1 hop with hop | hop
  · exact he.kept op' (hI.law.kept op' hop)
  · rw [List.mem_singleton.1 hop]
    exact he.appends op rfl

theorem inv_consume {i : ι} (hI : Inv N iso str s)
    (hfresh : Fresh N iso str s (.consume operationId consumedAt) brief) :
    Inv N iso str (s.written i (.consume operationId consumedAt) brief) := by
  have he := hfresh.edited
  have hnot : operationId ∉ s.consumed := fun hid =>
    hfresh.unconsumed operationId consumedAt rfl (hI.law.consumed operationId hid)
  refine ⟨⟨fun op' hop => he.kept op' (hI.law.kept op' hop), fun id hid => ?_, fun id => ?_⟩,
    current_of_edits hI rfl rfl⟩
  · rcases List.mem_append.1 hid with hid | hid
    · exact he.consumed id (hI.law.consumed id hid)
    · rw [List.mem_singleton.1 hid]
      exact he.consumes operationId consumedAt rfl
  · change (s.consumed ++ [operationId]).count id ≤ 1
    rw [List.count_append]
    by_cases hid : id = operationId
    · rw [hid, List.count_eq_zero.2 hnot, List.count_singleton_self]
    · rw [List.count_eq_zero.2 fun hmem => hid (List.mem_singleton.1 hmem)]
      exact hI.law.once id

theorem inv_shopAuth {i : ι} {newId : String} (hI : Inv N iso str s)
    (hfresh : Fresh N iso str s (.shopAuth newId) brief) :
    Inv N iso str (s.written i (.shopAuth newId) brief) := by
  have he := hfresh.edited
  have hitems : items brief = items s.fields := he.same newId rfl
  refine ⟨⟨fun op' hop => he.kept op' (hI.law.kept op' hop), fun id hid => he.consumed id (hI.law.consumed id hid),
    hI.law.once⟩, ?_⟩
  refine (Function.forall_update_iff s.pc fun _ pc => ∀ j brief' edits, pc = .writing j brief' edits →
    edits ≤ s.edits ∧ (edits = s.edits → Fresh N iso str (s.written i (.shopAuth newId) brief) j brief')).2
      ⟨fun _ _ _ hj => (by cases hj), ?_⟩
  intro k _ j brief' edits hj
  obtain ⟨hle, hcurrent⟩ := hI.current k j brief' edits hj
  refine ⟨hle, fun hedits => ⟨edited_of_items hitems (hcurrent hedits).edited, fun id at' hconsume hconsumed => ?_⟩⟩
  exact (hcurrent hedits).unconsumed id at' hconsume (consumed_of_items hitems.symm hconsumed)

theorem inv_written {i : ι} (hI : Inv N iso str s) (hfresh : Fresh N iso str s j brief) :
    Inv N iso str (s.written i j brief) ∧ (s.written i j brief).fields = brief := by
  cases j with
  | append op => exact ⟨inv_append hI hfresh, rfl⟩
  | consume operationId consumedAt => exact ⟨inv_consume hI hfresh, rfl⟩
  | shopAuth newId => exact ⟨inv_shopAuth hI hfresh, rfl⟩

theorem inv_step (hI : Inv N iso str s) (hsafe : Safe str s a) (h : step N iso str s a = some s') :
    Inv N iso str s' ∧ ∀ operationId, Consumed str s.fields operationId → Consumed str s'.fields operationId := by
  cases a with
  | call i j =>
    simp only [step] at h
    split at h
    · cases h
      exact ⟨inv_goto hI fun _ _ _ h => (by cases h), fun _ => id⟩
    · cases h
  | fail i =>
    simp only [step] at h
    split at h
    · cases h
    · cases h
      exact ⟨inv_goto hI fun _ _ _ h => (by cases h), fun _ => id⟩
  | run i =>
    cases hpc : s.pc i with
    | idle =>
      simp only [step, hpc] at h
      cases h
    | reading j =>
      simp only [step, hpc] at h
      cases hedit : j.edit N iso str s.fields with
      | none =>
        rw [hedit] at h
        cases h
        exact ⟨inv_goto hI fun _ _ _ h => (by cases h), fun _ => id⟩
      | some brief =>
        rw [hedit] at h
        cases h
        refine ⟨inv_goto hI fun j' brief' edits hj => ?_, fun _ => id⟩
        cases hj
        refine ⟨Nat.le_refl _, fun _ => ⟨edited hedit, fun operationId consumedAt hj => ?_⟩⟩
        subst hj
        simp only [Safe, hpc] at hsafe
        exact hsafe
    | writing j brief edits =>
      simp only [step, hpc] at h
      simp only [Safe, hpc] at hsafe
      cases h
      have hfresh := (hI.current i j brief edits hpc).2 hsafe
      obtain ⟨hinv, hfields⟩ := inv_written (i := i) hI hfresh
      exact ⟨hinv, fun id hid => hfields.symm ▸ hfresh.edited.consumed id hid⟩

theorem inv_init (h : Initial s) : Inv N iso str s where
  law := by
    refine ⟨?_, ?_, ?_⟩
    · rw [h.appended]
      exact fun _ hop => (List.not_mem_nil hop).elim
    · rw [h.consumed]
      exact fun _ hid => (List.not_mem_nil hid).elim
    · rw [h.consumed]
      exact fun _ => Nat.zero_le _
  current i j brief edits hj := by
    rw [h.pc i] at hj
    cases hj

theorem inv_reach (h : (calls N iso str).Reach (Safe str) s) : Inv N iso str s :=
  h.induct (fun _ => inv_init) fun _ _ _ hI hsafe hstep => (inv_step hI hsafe hstep).1

/-- In every run whose steps are all safe, what was appended is kept, no operation is consumed twice, and what is
consumed stays so. -/
theorem brief_kept_of_safe {t : State ν τ ι} (h : (calls N iso str).Reach (Safe str) s)
    (hrun : (calls N iso str).Run (Safe str) s t) :
    Law N iso str s ∧ ∀ operationId, Consumed str s.fields operationId → Consumed str t.fields operationId :=
  ⟨(inv_reach h).law, Machine.Run.rel (P := Inv N iso str)
    (R := fun s t => ∀ operationId, Consumed str s.fields operationId → Consumed str t.fields operationId)
    (fun _ _ => id) (fun _ _ _ h₁ h₂ operationId hid => h₂ operationId (h₁ operationId hid))
    (fun _ _ _ hI hsafe hstep => (inv_step hI hsafe hstep).1)
    (fun _ _ _ hI hsafe hstep => (inv_step hI hsafe hstep).2) hrun (inv_reach h)⟩

end Proofs

/-! ### Runs -/

section Runs

/-- A submission that the user has confirmed. -/
def confirmed (id : String) : AuthorizedOperation ℕ where
  id
  taskId := "task"
  capability := .generationSubmit
  operationKind := "generation_submit"
  payloadHash := "hash"
  grantedBy := 1
  grantedAt := 0
  consumedAt := none
  revokedAt := none

/-- Two parties and an empty brief. -/
def start : State ℤ ℕ Bool where
  brief := .dict []
  pc _ := .idle
  edits := 0
  appended := []
  consumed := []

theorem start_initial : Initial start := ⟨fun _ => rfl, rfl, rfl⟩

/-- The call of a party from its start to its return, alone. -/
def alone (i : Bool) (j : Job ℕ) : List (Action ℕ Bool) := [.call i j, .run i, .run i]

/-- Two confirmed operations, and the consumption of one of them. -/
theorem brief_kept_of_one_consumption : ∃ s : State ℤ ℕ Bool,
    (calls integers toString fun _ => "").Reach (Safe fun _ => "") s ∧
      (s.consumed = ["first"] ∧ (items s.fields).length = 2) ∧ Law integers toString (fun _ => "") s := by
  obtain ⟨s, -, hreach, hend⟩ := Machine.reach_of_exec (M := calls integers toString fun _ => "")
    (C := Safe fun _ => "") (s := start) (p := fun s => s.consumed = ["first"] ∧ (items s.fields).length = 2)
    (alone true (.append (confirmed "first")) ++ alone false (.append (confirmed "second")) ++
      alone true (.consume "first" 5)) start_initial (by decide)
  exact ⟨s, hreach, of_decide_eq_true hend, (brief_kept_of_safe hreach .refl).1⟩

/-- An append that has read the brief before a consumption takes the mark away, and a consumed operation is consumed
again. -/
theorem consumption_lost : (∃ s : State ℤ ℕ Bool, (calls integers toString fun _ => "").Reach Free s ∧
      s.consumed = ["first"] ∧ ¬ Consumed (fun _ => "") s.fields "first" ∧ ¬ Law integers toString (fun _ => "") s) ∧
    ∃ s : State ℤ ℕ Bool, (calls integers toString fun _ => "").Reach Free s ∧
      s.consumed = ["first", "first"] ∧ ¬ Law integers toString (fun _ => "") s := by
  constructor
  · obtain ⟨s, -, hreach, hend⟩ := Machine.reach_of_exec (M := calls integers toString fun _ => "") (C := Free)
      (s := start) (p := fun s => s.consumed = ["first"] ∧ ¬ Consumed (fun _ => "") s.fields "first")
      (alone true (.append (confirmed "first")) ++ [.call false (.append (confirmed "second")), .run false] ++
        alone true (.consume "first" 5) ++ [.run false]) start_initial (by decide)
    obtain ⟨hconsumed, hnot⟩ := of_decide_eq_true hend
    exact ⟨s, hreach, hconsumed, hnot, fun hlaw => hnot (hlaw.consumed "first" (hconsumed ▸ List.mem_singleton_self _))⟩
  · obtain ⟨s, -, hreach, hend⟩ := Machine.reach_of_exec (M := calls integers toString fun _ => "") (C := Free)
      (s := start) (p := fun s => s.consumed = ["first", "first"])
      (alone true (.append (confirmed "first")) ++ alone true (.consume "first" 5) ++
        alone true (.consume "first" 6)) start_initial (by decide)
    have hconsumed := of_decide_eq_true hend
    refine ⟨s, hreach, hconsumed, fun hlaw => ?_⟩
    have hle := hlaw.once "first"
    rw [hconsumed] at hle
    exact absurd hle (by decide)

end Runs

end NexusStudio.ProjectBrief
