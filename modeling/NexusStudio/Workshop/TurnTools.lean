import NexusStudio.Workshop.AuthorizedOperations
import Mathlib.Data.List.Dedup

/-!
# The tools of a workshop turn

A turn of an expert gets the tools of the chat whose names its capabilities allow. The capabilities are those of the
expert's role that its profile lists, and of these the external ones only when the task has been granted them.

* (capabilities) `resolveEffectiveCapabilities`, and `capabilityToolNames` for the names of their tools.
* (names) An external capability shares no tool's name with another capability: `toolNames_exclusive`.
* (turns) `mountTools` gives an expert the tools that its prompt names, and no external one without its grant:
  `mounted_within`.
* (threads) Turns share a checkpoint thread when the project, the speaker and the task are the same, and else not:
  `thread_isolated`.
-/

namespace NexusStudio.TurnTools

open AuthorizedOperations (Capability sorted)

/-! ### Roles and profiles -/

inductive WorkshopRole
  | singleAgent
  | host
  | advisor
  | executor
  deriving DecidableEq, Repr

inductive WorkshopExpertKind
  | advisor
  | executor
  deriving DecidableEq, Repr

/-- `role_policy`. -/
def capabilitiesFor : WorkshopRole → List Capability
  | .singleAgent => [.webSearch, .webFetchReadonly, .readUploads, .writeTempWorkspace]
  | .host =>
    [.readProjectFiles, .inviteExpert, .raiseAuthPopup, .proposeInvite, .draftWorkflow, .confirmSaveWorkflow,
      .createSchedule, .startWorkflowExecution, .stopWorkflowExecution, .deleteWorkflow, .manualRunWorkflow]
  | .advisor => [.webSearch, .webFetchReadonly, .readUploads, .readProjectFiles, .browserRead, .proposeInvite]
  | .executor =>
    [.webSearch, .webFetchReadonly, .readUploads, .readProjectFiles, .writeProjectFiles, .writeTempWorkspace,
      .browserRead, .browserWrite, .sandboxExecute, .mcp, .requestExternalAuth, .proposeInvite, .taobaoStoreWrite,
      .generationListModels, .generationSubmit]

def externalCapabilities : List Capability := [.browserWrite, .mcp, .createSchedule, .taobaoStoreWrite, .generationSubmit]

def isExternalCapability (c : Capability) : Bool := decide (c ∈ externalCapabilities)

/-- What a turn reads of an `ExpertProfile`. -/
structure ExpertProfile where
  key : String
  kind : WorkshopExpertKind
  capabilityAllowlist : List Capability

/-- `_READ`. -/
def readCapabilities : List Capability :=
  [.webSearch, .webFetchReadonly, .readUploads, .readProjectFiles, .browserRead, .proposeInvite]

def ecomProfiles : List ExpertProfile :=
  [⟨"ecom_market_competitor_advisor", .advisor, readCapabilities⟩,
    ⟨"ecom_listing_planner_executor", .executor, readCapabilities ++
      [.writeProjectFiles, .writeTempWorkspace, .generationListModels, .generationSubmit, .sandboxExecute,
        .requestExternalAuth]⟩,
    ⟨"ecom_campaign_planner_executor", .executor, readCapabilities ++ [.writeProjectFiles, .writeTempWorkspace]⟩,
    ⟨"ecom_ads_strategy_analyzer_executor", .executor, readCapabilities ++
      [.writeProjectFiles, .writeTempWorkspace, .sandboxExecute]⟩,
    ⟨"ecom_ops_analytics_executor", .executor, readCapabilities ++
      [.writeProjectFiles, .writeTempWorkspace, .sandboxExecute, .requestExternalAuth]⟩,
    ⟨"ecom_taobao_store_ops_executor", .executor,
      [.readUploads, .readProjectFiles, .browserRead, .browserWrite, .taobaoStoreWrite, .requestExternalAuth,
        .proposeInvite]⟩]

/-- `get_ecom_profile`, `none` for the keys that are no presets of the shop. -/
def ecomProfile (key : String) : Option ExpertProfile := ecomProfiles.find? fun p => p.key = key

def profileForPreset (presetKey : Option String) : Option ExpertProfile := presetKey.bind ecomProfile

def expertKindToRole : WorkshopExpertKind → WorkshopRole
  | .advisor => .advisor
  | .executor => .executor

/-! ### Capabilities -/

/-- The ceiling of the role, of it what the profile lists, and of that what is internal or granted. -/
def resolveEffectiveCapabilities (role : WorkshopRole) (profileAllowlist grantedExternal : List Capability) :
    List Capability :=
  ((capabilitiesFor role).filter (· ∈ profileAllowlist)).filter fun c =>
    isExternalCapability c = false ∨ c ∈ grantedExternal

/-- `_CAPABILITY_TOOL_NAMES`. -/
def toolNames : Capability → List String
  | .webSearch => ["web_search"]
  | .webFetchReadonly => ["web_fetch"]
  | .readUploads | .readProjectFiles => ["read_file", "list_files"]
  | .writeTempWorkspace => ["write_file"]
  | .writeProjectFiles => ["write_file", "publish_file"]
  | .browserRead =>
    ["browser_capture_state", "browser_auth_status", "signal_browser_blocked", "browser_challenge_read_geometry",
      "browser_challenge_screenshot_element", "browser_challenge_wait_probe", "cv_image_info", "cv_match_template",
      "cv_find_gap_x", "browser_restore_session", "browser_end_session"]
  | .browserWrite =>
    ["browser_exec_script", "request_user_gate", "browser_trigger_otp_send",
      "browser_challenge_dispatch_pointer_trace"]
  | .sandboxExecute => ["execute_python"]
  | .mcp => ["mcp_invoke"]
  | .draftWorkflow => ["draft_workflow"]
  | .confirmSaveWorkflow => ["confirm_save_workflow"]
  | .createSchedule => ["create_schedule"]
  | .startWorkflowExecution => ["start_workflow_execution"]
  | .stopWorkflowExecution => ["stop_workflow_execution"]
  | .deleteWorkflow => ["delete_workflow"]
  | .manualRunWorkflow => ["manual_run_workflow"]
  | .requestExternalAuth => ["request_external_auth"]
  | .proposeInvite => ["propose_upgrade_and_invite"]
  | .inviteExpert => ["invite_experts"]
  | .raiseAuthPopup => []
  | .taobaoStoreWrite => ["taobao_store_write"]
  | .generationListModels => ["generation_list_models"]
  | .generationSubmit => ["generation_submit"]

def capabilityToolNames (capabilities : List Capability) : List String :=
  sorted (capabilities.flatMap toolNames).dedup

theorem mem_resolveEffectiveCapabilities {role : WorkshopRole} {allowlist granted : List Capability} {c : Capability} :
    c ∈ resolveEffectiveCapabilities role allowlist granted ↔
      c ∈ capabilitiesFor role ∧ c ∈ allowlist ∧ (isExternalCapability c = true → c ∈ granted) := by
  rw [resolveEffectiveCapabilities, List.mem_filter, List.mem_filter, decide_eq_true_iff, decide_eq_true_iff, and_assoc]
  cases isExternalCapability c <;> simp

theorem mem_capabilityToolNames {capabilities : List Capability} {toolName : String} :
    toolName ∈ capabilityToolNames capabilities ↔ ∃ c ∈ capabilities, toolName ∈ toolNames c := by
  rw [capabilityToolNames, sorted, List.mem_insertionSort, List.mem_dedup, List.mem_flatMap]

/-- The tools of an external capability are its own. -/
theorem toolNames_exclusive {c d : Capability} {toolName : String} (hc : isExternalCapability c = true)
    (hnc : toolName ∈ toolNames c) (hnd : toolName ∈ toolNames d) : c = d := by
  have htable : ∀ c ∈ externalCapabilities, ∀ n ∈ toolNames c, n ∈ toolNames d → c = d := by
    cases d <;> decide
  exact htable c (of_decide_eq_true hc) toolName hnc hnd

/-! ### Turns -/

/-- What the tools of a turn depend on. -/
structure WorkshopMountContext where
  projectId : String
  expertId : String
  taskId : Option String
  presetKey : Option String
  expertKind : WorkshopExpertKind
  grantedExternal : List Capability
  isHost : Bool

/-- The capabilities of the host in the prompt. -/
def hostAllowlist : List Capability :=
  [.readProjectFiles, .inviteExpert, .raiseAuthPopup, .proposeInvite, .draftWorkflow, .confirmSaveWorkflow,
    .createSchedule, .manualRunWorkflow]

def prepareTurnToolSnapshot (ctx : WorkshopMountContext) : List String :=
  if ctx.isHost then capabilityToolNames (resolveEffectiveCapabilities .host hostAllowlist ctx.grantedExternal)
  else match profileForPreset ctx.presetKey with
    | some profile =>
      capabilityToolNames (resolveEffectiveCapabilities (expertKindToRole profile.kind) profile.capabilityAllowlist
        ctx.grantedExternal)
    | none =>
      let role := expertKindToRole ctx.expertKind
      capabilityToolNames (resolveEffectiveCapabilities role (capabilitiesFor role) ctx.grantedExternal)

/-- `get_preset` raises a `KeyError` for every other key. -/
def profileToolNamesForWorkshopExpert (expertKey : String) (grantedExternal : List Capability) :
    Except String (List String) :=
  match ecomProfile expertKey with
  | some profile =>
    .ok (capabilityToolNames (resolveEffectiveCapabilities (expertKindToRole profile.kind) profile.capabilityAllowlist
      grantedExternal))
  | none => .error expertKey

section Mount

variable {τ : Type} (toolName : τ → String)

def intersectChatToolsWithProfile (tools : List τ) (allowedNames : List String) : List τ :=
  tools.filter fun t => toolName t ∈ allowedNames

/-- The tools of a turn and the names in its prompt, from the tools of the chat and those of the host. -/
def mountTools (ctx : WorkshopMountContext) (allTools hostTools : List τ) : Except String (List τ × List String) := do
  let names := prepareTurnToolSnapshot ctx
  if ctx.isHost then return (hostTools, hostTools.map toolName)
  else match ctx.presetKey.filter (· ≠ "") with
    | some key =>
      let allowed ← profileToolNamesForWorkshopExpert key ctx.grantedExternal
      return (intersectChatToolsWithProfile toolName allTools allowed, names)
    | none => return (intersectChatToolsWithProfile toolName allTools names, names)

/-- The role of the expert and the capabilities that its profile lists. -/
def WorkshopMountContext.expert (ctx : WorkshopMountContext) : WorkshopRole × List Capability :=
  match profileForPreset ctx.presetKey with
  | some profile => (expertKindToRole profile.kind, profile.capabilityAllowlist)
  | none => (expertKindToRole ctx.expertKind, capabilitiesFor (expertKindToRole ctx.expertKind))

theorem expertKindToRole_eq (kind : WorkshopExpertKind) :
    expertKindToRole kind = .advisor ∨ expertKindToRole kind = .executor := by
  cases kind with
  | advisor => exact .inl rfl
  | executor => exact .inr rfl

theorem WorkshopMountContext.expert_role (ctx : WorkshopMountContext) :
    ctx.expert.1 = .advisor ∨ ctx.expert.1 = .executor := by
  rw [WorkshopMountContext.expert]
  cases profileForPreset ctx.presetKey with
  | none => exact expertKindToRole_eq ctx.expertKind
  | some profile => exact expertKindToRole_eq profile.kind

variable {toolName} {ctx : WorkshopMountContext}

theorem snapshot_of_expert (hhost : ctx.isHost = false) : prepareTurnToolSnapshot ctx =
    capabilityToolNames (resolveEffectiveCapabilities ctx.expert.1 ctx.expert.2 ctx.grantedExternal) := by
  rw [prepareTurnToolSnapshot, hhost, if_neg Bool.false_ne_true, WorkshopMountContext.expert]
  cases profileForPreset ctx.presetKey <;> rfl

/-- The prompt names the tools that are mounted. -/
theorem mountTools_eq (hhost : ctx.isHost = false) {allTools hostTools tools : List τ} {names : List String}
    (h : mountTools toolName ctx allTools hostTools = .ok (tools, names)) :
    names = prepareTurnToolSnapshot ctx ∧ tools = allTools.filter fun t => toolName t ∈ names := by
  rw [mountTools, hhost, if_neg Bool.false_ne_true] at h
  split at h
  · next key hkey =>
    obtain ⟨hpreset, -⟩ := Option.filter_eq_some_iff.1 hkey
    rw [profileToolNamesForWorkshopExpert] at h
    cases hprofile : ecomProfile key with
    | none =>
      rw [hprofile] at h
      cases h
    | some profile =>
      have hsnapshot := snapshot_of_expert hhost
      rw [WorkshopMountContext.expert, hpreset, profileForPreset, Option.bind_some, hprofile] at hsnapshot
      rw [hprofile] at h
      cases h
      exact ⟨rfl, by rw [hsnapshot]; rfl⟩
  · cases h
    exact ⟨rfl, rfl⟩

/-- No external capability is an advisor's. -/
theorem internal_of_advisor : ∀ c ∈ capabilitiesFor .advisor, isExternalCapability c = false := by
  decide

/-- Whatever the chat's tools are, an expert's turn gets just those that its prompt names, in order. Each is a tool of a
capability of its role that its profile lists; a tool of an external capability is an executor's, and the task has been
granted that capability. -/
theorem mounted_within (hhost : ctx.isHost = false) {allTools hostTools tools : List τ} {names : List String}
    (h : mountTools toolName ctx allTools hostTools = .ok (tools, names)) :
    (tools = allTools.filter fun t => toolName t ∈ names) ∧
      (∀ t ∈ tools, ∃ c ∈ capabilitiesFor ctx.expert.1, c ∈ ctx.expert.2 ∧ toolName t ∈ toolNames c) ∧
      ∀ t ∈ tools, ∀ c, isExternalCapability c = true → toolName t ∈ toolNames c →
        c ∈ ctx.grantedExternal ∧ c ∈ ctx.expert.2 ∧ ctx.expert.1 = .executor := by
  obtain ⟨hnames, htools⟩ := mountTools_eq hhost h
  have hcapability : ∀ t ∈ tools, ∃ c ∈ resolveEffectiveCapabilities ctx.expert.1 ctx.expert.2 ctx.grantedExternal,
      toolName t ∈ toolNames c := by
    intro t ht
    rw [htools] at ht
    have hname : toolName t ∈ names := of_decide_eq_true (List.mem_filter.1 ht).2
    rw [hnames, snapshot_of_expert hhost] at hname
    exact mem_capabilityToolNames.1 hname
  refine ⟨htools, fun t ht => ?_, fun t ht c hc hname => ?_⟩
  · obtain ⟨c, hc, hname⟩ := hcapability t ht
    obtain ⟨hrole, hallowed, -⟩ := mem_resolveEffectiveCapabilities.1 hc
    exact ⟨c, hrole, hallowed, hname⟩
  · obtain ⟨d, hd, hnamed⟩ := hcapability t ht
    cases toolNames_exclusive hc hname hnamed
    obtain ⟨hrole, hallowed, hgranted⟩ := mem_resolveEffectiveCapabilities.1 hd
    refine ⟨hgranted hc, hallowed, ?_⟩
    rcases ctx.expert_role with hadvisor | hexecutor
    · rw [hadvisor] at hrole
      rw [internal_of_advisor c hrole] at hc
      cases hc
    · exact hexecutor

/-- A turn for the shop with a grant for the browser. -/
theorem mounted_within_shop :
    let ctx : WorkshopMountContext :=
      ⟨"wp_1", "wp_1_shop", some "task_1", some "ecom_taobao_store_ops_executor", .executor, [.browserWrite], false⟩
    ∃ tools names, mountTools id ctx ["web_search", "read_file", "browser_exec_script", "taobao_store_write"] [] =
        .ok (tools, names) ∧ tools = ["read_file", "browser_exec_script"] ∧
      ∀ t ∈ tools, ∀ c, isExternalCapability c = true → t ∈ toolNames c → c ∈ ctx.grantedExternal := by
  intro ctx
  obtain ⟨⟨tools, names⟩, hmount, htools⟩ : ∃ r, mountTools id ctx
      ["web_search", "read_file", "browser_exec_script", "taobao_store_write"] [] = .ok r ∧
      r.1 = ["read_file", "browser_exec_script"] := ⟨_, rfl, by decide⟩
  exact ⟨tools, names, hmount, htools, fun t ht c hc hname => ((mounted_within rfl hmount).2.2 t ht c hc hname).1⟩

end Mount

/-! ### Checkpoint threads -/

def workshopThreadId (projectId expertId taskId : String) : String :=
  s!"workshop:{projectId}:expert:{expertId}:task:{taskId}"

def workshopExpertIdleThreadId (projectId expertId : String) : String := s!"workshop:{projectId}:expert:{expertId}:idle"

def workshopHostIdleThreadId (projectId : String) : String := s!"workshop:{projectId}:host:idle"

def resolveThreadId (ctx : WorkshopMountContext) : String :=
  if ctx.isHost then workshopHostIdleThreadId ctx.projectId
  else match ctx.taskId with
    | none => workshopExpertIdleThreadId ctx.projectId ctx.expertId
    | some taskId => workshopThreadId ctx.projectId ctx.expertId taskId

/-- Who speaks in a turn: the host, or an expert with the task it works on. -/
inductive Speaker
  | host
  | expert (expertId : String) (taskId : Option String)
  deriving DecidableEq

def WorkshopMountContext.speaker (ctx : WorkshopMountContext) : Speaker :=
  if ctx.isHost then .host else .expert ctx.expertId ctx.taskId

/-- The parts of a thread's id. -/
def Speaker.parts (projectId : String) : Speaker → List String
  | .host => ["workshop", projectId, "host", "idle"]
  | .expert expertId none => ["workshop", projectId, "expert", expertId, "idle"]
  | .expert expertId (some taskId) => ["workshop", projectId, "expert", expertId, "task", taskId]

/-- No colon stands in an id of the turn. -/
def WorkshopMountContext.Plain (ctx : WorkshopMountContext) : Prop :=
  ':' ∉ ctx.projectId.toList ∧ ':' ∉ ctx.expertId.toList ∧ ∀ taskId ∈ ctx.taskId, ':' ∉ taskId.toList

variable {ctx ctx' : WorkshopMountContext}

theorem resolveThreadId_eq (ctx : WorkshopMountContext) :
    resolveThreadId ctx = ":".intercalate (ctx.speaker.parts ctx.projectId) := by
  apply String.toList_inj.1
  rw [String.toList_intercalate, resolveThreadId, WorkshopMountContext.speaker]
  cases ctx.isHost with
  | true => simp [workshopHostIdleThreadId, Speaker.parts, List.intercalate, toString]
  | false =>
    cases ctx.taskId with
    | none => simp [workshopExpertIdleThreadId, Speaker.parts, List.intercalate, toString]
    | some taskId => simp [workshopThreadId, Speaker.parts, List.intercalate, toString]

theorem colon_not_mem_parts (hplain : ctx.Plain) : ∀ part ∈ ctx.speaker.parts ctx.projectId, ':' ∉ part.toList := by
  obtain ⟨hproject, hexpert, htask⟩ := hplain
  have hwords : ∀ word ∈ ["workshop", "host", "expert", "task", "idle"], ':' ∉ word.toList := by decide
  intro part hpart
  have hcases : part ∈ ["workshop", "host", "expert", "task", "idle"] ∨ part = ctx.projectId ∨ part = ctx.expertId ∨
      part ∈ ctx.taskId := by
    rw [WorkshopMountContext.speaker] at hpart
    cases hhost : ctx.isHost with
    | true =>
      rw [hhost, if_pos rfl, Speaker.parts] at hpart
      simp only [List.mem_cons, List.not_mem_nil, or_false] at hpart ⊢
      tauto
    | false =>
      rw [hhost, if_neg Bool.false_ne_true] at hpart
      cases htaskId : ctx.taskId with
      | none =>
        rw [htaskId, Speaker.parts] at hpart
        simp only [List.mem_cons, List.not_mem_nil, or_false] at hpart ⊢
        tauto
      | some taskId =>
        rw [htaskId, Speaker.parts] at hpart
        simp only [List.mem_cons, List.not_mem_nil, or_false, Option.mem_def, Option.some.injEq] at hpart ⊢
        tauto
  rcases hcases with hword | rfl | rfl | htaskId
  · exact hwords part hword
  · exact hproject
  · exact hexpert
  · exact htask part htaskId

theorem parts_of_threadId (hplain : ctx.Plain) :
    (resolveThreadId ctx).toList.splitOn ':' = (ctx.speaker.parts ctx.projectId).map String.toList := by
  have hcolon : ∀ l ∈ (ctx.speaker.parts ctx.projectId).map String.toList, ':' ∉ l := by
    intro l hl
    obtain ⟨part, hpart, rfl⟩ := List.mem_map.1 hl
    exact colon_not_mem_parts hplain part hpart
  have hne : (ctx.speaker.parts ctx.projectId).map String.toList ≠ [] := by
    rw [Speaker.parts.eq_def]
    split <;> exact List.cons_ne_nil _ _
  rw [resolveThreadId_eq, String.toList_intercalate]
  exact List.splitOn_intercalate ':' hcolon hne

/-- The parts tell the project and the speaker. -/
theorem Speaker.parts_inj {p q : String} {s t : Speaker} (h : s.parts p = t.parts q) : p = q ∧ s = t := by
  cases s with
  | host =>
    cases t with
    | host =>
      cases h
      exact ⟨rfl, rfl⟩
    | expert expertId taskId => cases taskId <;> simp [Speaker.parts] at h
  | expert expertId taskId =>
    cases t with
    | host => cases taskId <;> simp [Speaker.parts] at h
    | expert expertId' taskId' =>
      cases taskId <;> cases taskId' <;> simp [Speaker.parts] at h ⊢ <;> tauto

/-- Two turns run on one checkpoint thread just when the project, the speaker and the speaker's task are the same: the
host, an expert without a task and an expert's tasks keep their histories apart. -/
theorem thread_isolated (hplain : ctx.Plain) (hplain' : ctx'.Plain) :
    resolveThreadId ctx = resolveThreadId ctx' ↔ ctx.projectId = ctx'.projectId ∧ ctx.speaker = ctx'.speaker := by
  constructor
  · intro h
    have hparts := parts_of_threadId hplain'
    rw [← h, parts_of_threadId hplain] at hparts
    exact Speaker.parts_inj (List.map_injective_iff.2 (fun _ _ => String.toList_inj.1) hparts)
  · rintro ⟨hproject, hspeaker⟩
    rw [resolveThreadId_eq, resolveThreadId_eq, hproject, hspeaker]

/-- A chat with the expert of the shop and its work on a task. -/
theorem thread_isolated_shop :
    let turn : Option String → WorkshopMountContext := fun taskId =>
      ⟨"wp_1", "wp_1_shop", taskId, some "ecom_taobao_store_ops_executor", .executor, [], false⟩
    resolveThreadId (turn none) ≠ resolveThreadId (turn (some "task_1")) := by
  intro turn h
  have hidle : (turn none).Plain := ⟨by decide, by decide, by decide⟩
  have htask : (turn (some "task_1")).Plain := ⟨by decide, by decide, by decide⟩
  obtain ⟨-, hspeaker⟩ := (thread_isolated hidle htask).1 h
  cases hspeaker

end NexusStudio.TurnTools
