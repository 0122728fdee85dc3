import NexusStudio.Workshop.ProjectBrief

/-!
# Paid submissions under an authorization

`submit_generation_with_gates` and the operations that let its calls through.

* (gate) A call is let through by the first live operation of its list with the task and the hash of its request.
* (defect) Nothing marks that operation: the next call with the list is let through by it again.
* (condition) `Safe`: no operation that has let a call through is live and of the request in the list of a later one.
* (brief) Where the list is the one of a project's brief, a consumption between the calls is enough.
-/

namespace NexusStudio.GenerationSubmit

open Concurrent JsonText AuthorizedOperations

/-! ### Submissions -/

/-- What `generation_request_hash` reads. -/
structure Request (ν : Type) where
  kind : String
  model : String
  promptSummary : String
  references : List String
  count : Int
  parameters : List (String × Value ν)

/-- What the fake provider records of a submission. -/
structure Submission where
  generationTaskId : String
  kind : String
  model : String
  promptSummary : String
  count : Int
  storageKey : String
  status : String
  deriving DecidableEq, Repr

/-- `GenerationAssetRef`. -/
structure AssetRef (τ : Type) where
  schemaVersion : String
  projectId : String
  taskId : String
  expertId : String
  createdAt : τ
  sourceRefs : List String
  assetId : String
  skuId : String
  generationTaskId : String
  kind : String
  modelId : String
  requestHash : String
  storageKey : String
  version : Int
  status : String
  deriving DecidableEq, Repr

/-- The arguments of a call, with the clock and the two random ids that it reads. -/
structure Call (ν τ : Type) where
  projectId : String
  taskId : String
  expertId : String
  skuId : String
  request : Request ν
  grantedExternal : List Capability
  authorizedOps : List (AuthorizedOperation τ)
  now : τ
  submissionHex : String
  assetHex : String

section Model

variable {ν τ : Type} (N : Numbers ν) (sha256 : String → String)

def Request.payload (r : Request ν) : List (String × Value ν) := fieldsOf [
  ("kind", .string r.kind),
  ("model", .string r.model),
  ("prompt_summary", .string r.promptSummary),
  ("references", strings (sorted r.references)),
  ("count", .number (N.ofInt r.count)),
  ("parameters", .dict r.parameters)]

def generationRequestHash (r : Request ν) : String := stablePayloadHash N sha256 (r.payload N)

/-- `assert_generation_submit_allowed`, with the text of its `GenerationGateError`. -/
def assertGenerationSubmitAllowed (grantedExternal : List Capability) (authorizedOps : List (AuthorizedOperation τ))
    (requestHash taskId : String) : Except String (AuthorizedOperation τ) :=
  authorizeOperation grantedExternal authorizedOps .generationSubmit requestHash taskId

/-- `FakeWorkshopGenerationProvider.submit`: its record, which it keeps. -/
def providerSubmit (kind model promptSummary : String) (count : Int) (hex : String) : Submission where
  generationTaskId := "gen_" ++ hex
  kind
  model
  promptSummary
  count
  storageKey := "fake://generation/" ++ ("gen_" ++ hex)
  status := "succeeded"

/-- `submit_generation_with_gates`: what it returns, with the submissions that the provider has then. -/
def submitGenerationWithGates (c : Call ν τ) (submits : List Submission) :
    Except String (AssetRef τ × List Submission) :=
  let requestHash := generationRequestHash N sha256 c.request
  match assertGenerationSubmitAllowed c.grantedExternal c.authorizedOps requestHash c.taskId with
  | .error message => .error message
  | .ok _ =>
    let r := c.request
    let result := providerSubmit r.kind r.model r.promptSummary r.count c.submissionHex
    .ok ({
      schemaVersion := "ecom-v1"
      projectId := c.projectId
      taskId := c.taskId
      expertId := c.expertId
      createdAt := c.now
      sourceRefs := []
      assetId := "asset_" ++ c.assetHex
      skuId := c.skuId
      generationTaskId := result.generationTaskId
      kind := r.kind
      modelId := r.model
      requestHash
      storageKey := result.storageKey
      version := 1
      status := "ready" }, submits ++ [result])

/-- The operation that lets a call through. -/
def Call.operation (c : Call ν τ) : Option (AuthorizedOperation τ) :=
  (assertGenerationSubmitAllowed c.grantedExternal c.authorizedOps (generationRequestHash N sha256 c.request)
    c.taskId).toOption

end Model

/-! ### Sequences of calls -/

structure State (τ : Type) where
  -- `provider.submits`
  submits : List Submission
  -- the ids of the operations that have let calls through
  admitted : List String

section Sequences

variable {ν τ : Type} (N : Numbers ν) (sha256 : String → String)

/-- One call after the other; one that raises leaves the provider alone. -/
def step (s : State τ) (c : Call ν τ) : Option (State τ) :=
  match submitGenerationWithGates N sha256 c s.submits with
  | .error _ => some s
  | .ok (_, submits) => some ⟨submits, s.admitted ++ ((c.operation N sha256).map (·.id)).toList⟩

def sequence : Machine (State τ) (Call ν τ) where
  init s := s.submits = [] ∧ s.admitted = []
  step := step N sha256

/-- No operation that has let a call through is live and of the request in the list that this call is handed. -/
def Safe (s : State τ) (c : Call ν τ) : Prop :=
  ∀ op ∈ c.authorizedOps, op.id ∈ s.admitted →
    ¬ op.Matches .generationSubmit (generationRequestHash N sha256 c.request) c.taskId

instance (s : State τ) (c : Call ν τ) : Decidable (Safe N sha256 s c) := inferInstanceAs (Decidable (∀ op ∈ _, _))

end Sequences

section Proofs

variable {ν τ : Type} {N : Numbers ν} {sha256 : String → String} {s s' : State τ} {c : Call ν τ}

/-- A call submits exactly if an operation lets it through, and then once. -/
theorem submitGenerationWithGates_eq (N : Numbers ν) (sha256 : String → String) (c : Call ν τ) (submits : List Submission) :
    (∃ message, c.operation N sha256 = none ∧
      submitGenerationWithGates N sha256 c submits = .error message) ∨
    ∃ op asset record, c.operation N sha256 = some op ∧
      submitGenerationWithGates N sha256 c submits = .ok (asset, submits ++ [record]) := by
  simp only [submitGenerationWithGates, Call.operation]
  cases assertGenerationSubmitAllowed c.grantedExternal c.authorizedOps (generationRequestHash N sha256 c.request)
      c.taskId with
  | error message => exact .inl ⟨message, rfl, rfl⟩
  | ok op => exact .inr ⟨op, _, _, rfl, rfl⟩

theorem step_cases (h : step N sha256 s c = some s') :
    s' = s ∨ ∃ op record, c.operation N sha256 = some op ∧ s' = ⟨s.submits ++ [record], s.admitted ++ [op.id]⟩ := by
  unfold step at h
  rcases submitGenerationWithGates_eq N sha256 c s.submits with
    ⟨message, -, hcall⟩ | ⟨op, asset, record, hop, hcall⟩
  · rw [hcall] at h
    cases h
    exact .inl rfl
  · rw [hcall, hop] at h
    cases h
    exact .inr ⟨op, record, hop, rfl⟩

/-- The operation that lets a call through is live, of the request, and in the list. -/
theorem matches_of_operation {op : AuthorizedOperation τ} (h : c.operation N sha256 = some op) :
    op ∈ c.authorizedOps ∧ op.Matches .generationSubmit (generationRequestHash N sha256 c.request) c.taskId := by
  unfold Call.operation at h
  cases hgate : assertGenerationSubmitAllowed c.grantedExternal c.authorizedOps
      (generationRequestHash N sha256 c.request) c.taskId with
  | error message =>
    rw [hgate] at h
    cases h
  | ok found =>
    rw [hgate] at h
    cases h
    exact (matches_of_authorizeOperation hgate).2

/-- Every operation has admitted one submission at most, and every submission has its operation. -/
structure Law (s : State τ) : Prop where
  once : s.admitted.Nodup
  paid : s.submits.length = s.admitted.length

theorem law_step (hl : Law s) (hsafe : Safe N sha256 s c) (h : step N sha256 s c = some s') : Law s' := by
  rcases step_cases h with rfl | ⟨op, record, hop, rfl⟩
  · exact hl
  · obtain ⟨hmem, hmatches⟩ := matches_of_operation hop
    have hnew : op.id ∉ s.admitted := fun hid => hsafe op hmem hid hmatches
    refine ⟨?_, ?_⟩
    · exact List.nodup_append.2 ⟨hl.once, List.nodup_singleton _, fun a ha b hb hab =>
        hnew (List.mem_singleton.1 hb ▸ hab ▸ ha)⟩
    · rw [List.length_append, List.length_append, hl.paid]
      rfl

theorem law_init (h : s.submits = [] ∧ s.admitted = []) : Law s := by
  obtain ⟨hsubmits, hadmitted⟩ := h
  refine ⟨?_, ?_⟩
  · rw [hadmitted]
    exact List.nodup_nil
  · rw [hsubmits, hadmitted]
    rfl

/-- In every sequence of calls that all meet the condition no operation admits two submissions. -/
theorem admitted_once_of_safe (h : (sequence N sha256).Reach (Safe N sha256) s) :
    s.admitted.Nodup ∧ s.submits.length = s.admitted.length :=
  have hl : Law s := h.induct (fun _ => law_init) fun _ _ _ hl hsafe hstep => law_step hl hsafe hstep
  ⟨hl.once, hl.paid⟩

end Proofs

/-! ### Two calls with one confirmation -/

section Calls

def mainPicture : Request ℤ where
  kind := "image"
  model := "fake-image-v1"
  promptSummary := "main picture"
  references := ["ref1"]
  count := 1
  parameters := [("ratio", .string "1:1")]

/-- The confirmation of a request, consumed or not. -/
def confirmation (consumedAt : Option ℕ) : AuthorizedOperation ℕ where
  id := "aop_1"
  taskId := "task_1"
  capability := .generationSubmit
  operationKind := "generation_submit"
  payloadHash := generationRequestHash integers id mainPicture
  grantedBy := 1
  grantedAt := 0
  consumedAt
  revokedAt := none

def call (authorizedOps : List (AuthorizedOperation ℕ)) (hex : String) : Call ℤ ℕ where
  projectId := "wp_1"
  taskId := "task_1"
  expertId := "ecom_listing_planner_executor"
  skuId := "sku_1"
  request := mainPicture
  grantedExternal := [.generationSubmit]
  authorizedOps
  now := 1
  submissionHex := hex
  assetHex := hex

/-- The second call is handed the operation as consumed, and is refused. -/
theorem admitted_once_of_consumed : ∃ s : State ℕ, (sequence (ν := ℤ) integers id).Reach (Safe integers id) s ∧
    s.admitted = ["aop_1"] ∧ (s.admitted.Nodup ∧ s.submits.length = s.admitted.length) := by
  obtain ⟨s, -, hreach, hend⟩ := Machine.reach_of_exec (M := sequence (ν := ℤ) integers id) (C := Safe integers id)
    (s := ⟨[], []⟩) (p := fun s => s.admitted = ["aop_1"])
    [call [confirmation none] "000000000001", call [confirmation (some 2)] "000000000002"] ⟨rfl, rfl⟩
    (by decide +kernel)
  exact ⟨s, hreach, of_decide_eq_true hend, admitted_once_of_safe hreach⟩

/-- One confirmation pays for two submissions. -/
theorem operation_admits_two : ∃ s : State ℕ, (sequence (ν := ℤ) integers id).Reach Free s ∧
    s.admitted = ["aop_1", "aop_1"] ∧ s.submits.length = 2 ∧ ¬ s.admitted.Nodup := by
  obtain ⟨s, -, hreach, hend⟩ := Machine.reach_of_exec (M := sequence (ν := ℤ) integers id) (C := Free)
    (s := ⟨[], []⟩) (p := fun s => s.admitted = ["aop_1", "aop_1"] ∧ s.submits.length = 2)
    [call [confirmation none] "000000000001", call [confirmation none] "000000000002"] ⟨rfl, rfl⟩ (by decide +kernel)
  obtain ⟨hadmitted, hsubmits⟩ := of_decide_eq_true hend
  refine ⟨s, hreach, hadmitted, hsubmits, ?_⟩
  rw [hadmitted]
  decide

end Calls

/-! ### The operations of a brief -/

section Brief

open ProjectBrief

variable {ν τ : Type} (str : Value ν → String) (int : Value ν → Option Int) (fromIso : String → Option τ)

def capabilities : List Capability := [
  .webSearch, .webFetchReadonly, .readUploads, .writeTempWorkspace, .readProjectFiles, .writeProjectFiles,
  .browserRead, .browserWrite, .sandboxExecute, .mcp, .draftWorkflow, .confirmSaveWorkflow, .createSchedule,
  .startWorkflowExecution, .stopWorkflowExecution, .deleteWorkflow, .manualRunWorkflow, .requestExternalAuth,
  .proposeInvite, .inviteExpert, .raiseAuthPopup, .taobaoStoreWrite, .generationListModels, .generationSubmit]

/-- `str` of a JSON value. -/
def text : Value ν → String
  | .string s => s
  | v => str v

/-- A date that may be `None`; the outer `none` is a `ValueError`. -/
def optionalDate : Option (Value ν) → Option (Option τ)
  | none | some .null => some none
  | some v => (fromIso (text str v)).map some

/-- `_parse_operation`. -/
def parseOperation : Value ν → Option (AuthorizedOperation τ)
  | .dict item => do
    let capabilityText := ((item.lookup "capability").map (text str)).getD "None"
    let capability ← capabilities.find? fun c => capabilityValue c = capabilityText
    let id ← item.lookup "id"
    let taskId ← item.lookup "task_id"
    let operationKind ← item.lookup "operation_kind"
    let payloadHash ← item.lookup "payload_hash"
    let grantedBy ← (item.lookup "granted_by").bind int
    let grantedAt ← fromIso (((item.lookup "granted_at").map (text str)).getD "None")
    let consumedAt ← optionalDate str fromIso (item.lookup "consumed_at")
    let revokedAt ← optionalDate str fromIso (item.lookup "revoked_at")
    return ⟨text str id, text str taskId, capability, text str operationKind, text str payloadHash, grantedBy, grantedAt,
      consumedAt, revokedAt⟩
  | _ => none

/-- `list_authorized_operations`. -/
def listAuthorizedOperations (brief : Fields ν) : List (AuthorizedOperation τ) :=
  (items brief).filterMap (parseOperation str int fromIso)

variable {str int fromIso} {N : Numbers ν} {sha256 : String → String} {iso : τ → String} {brief brief' : Fields ν}
  {operationId : String} {consumedAt : τ} {op : AuthorizedOperation τ}

/-- What is parsed of a record: its id, and a consumption if it is marked. -/
theorem parseOperation_dict {item : Fields ν} (h : parseOperation str int fromIso (.dict item) = some op) :
    op.id = idOf str item ∧ (marked item = true → op.consumedAt ≠ none) := by
  simp only [parseOperation, Option.bind_eq_bind, Option.bind_eq_some_iff, Option.pure_def] at h
  obtain ⟨capability, -, id, hid, taskId, -, operationKind, -, payloadHash, -, grantedBy, -, grantedAt, -,
    consumedAt, hconsumedAt, revokedAt, -, hop⟩ := h
  cases hop
  refine ⟨?_, fun hmarked hnone => ?_⟩
  · unfold idOf
    rw [hid]
    cases id with
    | _ => rfl
  · change consumedAt = none at hnone
    subst hnone
    unfold marked at hmarked
    unfold optionalDate at hconsumedAt
    split at hconsumedAt
    case h_1 hl =>
      rw [hl] at hmarked
      cases hmarked
    case h_2 hl =>
      rw [hl] at hmarked
      cases hmarked
    case h_3 =>
      obtain ⟨date, -, hdate⟩ := Option.map_eq_some_iff.1 hconsumedAt
      cases hdate

/-- After a consumption the brief lists no live operation with the id. -/
theorem consumedAt_of_consumeOperation (h : consumeOperation iso str operationId consumedAt brief = some brief')
    (hop : op ∈ listAuthorizedOperations str int fromIso brief') (hid : op.id = operationId) : op.consumedAt ≠ none := by
  obtain ⟨v, hv, hparse⟩ := List.mem_filterMap.1 hop
  rw [(items_consumeOperation h).2] at hv
  obtain ⟨v, -, rfl⟩ := List.mem_map.1 hv
  cases v with
  | dict item =>
    by_cases hitem : idOf str item = operationId
    · rw [patch, if_pos hitem] at hparse
      exact (parseOperation_dict hparse).2 (marked_insertField item _)
    · rw [patch, if_neg hitem] at hparse
      exact absurd ((parseOperation_dict hparse).1.symm.trans hid) hitem
  | _ => cases hparse

/-- A call is safe where its list is the one of a brief that shows as consumed whatever has let a call through. -/
theorem safe_of_listed {s : State τ} {c : Call ν τ}
    (hlist : c.authorizedOps = listAuthorizedOperations str int fromIso brief)
    (hconsumed : ∀ op ∈ listAuthorizedOperations str int fromIso brief, op.id ∈ s.admitted → op.consumedAt ≠ none) :
    Safe N sha256 s c := by
  intro op hop hid hmatches
  exact hconsumed op (hlist ▸ hop) hid hmatches.2.2.2.2

end Brief

end NexusStudio.GenerationSubmit
