import NexusStudio.Workshop.ProjectBrief
import NexusStudio.Workshop.Workflow
import NexusStudio.Workshop.Schedules
import Mathlib.Data.List.DropRight

/-!
# A call of `execute_run`

The stages of one call, with every point at which it may raise, next to others who write the row of the run.

* (definition) `parse_definition_graph` reads the JSON of the workflow before the run is moved to RUNNING.
* (graph) A node whose runner raises ends the run; the validation raises, and so does a call of the runner that is cut
  off.
* (law) A call that has lost no compare-and-set leaves its run in another status than RUNNING.
* (defect) Nothing between the two writes of the row catches what the graph raises.
* (condition) `Settles`: a call that starts the run raises nowhere up to its last write, and one that does not finds or
  leaves it in another status; or others have ended the run.
-/

set_option linter.unusedSectionVars false

namespace NexusStudio.RunExecution

open JsonText ProjectBrief AuthorizedOperations Schedules
open Workshop.Workflow hiding RunStatus

/-! ### The definition of a workflow -/

/-- What the source's language gives: `str`, the `repr` of a text, and which numbers are zero. -/
structure Python (ν : Type) where
  str : Value ν → String
  repr : String → String
  zero : ν → Bool

/-- What `parse_definition_graph` returns, but for the entry nodes. -/
structure Definition where
  nodes : List (WorkflowNode Capability)
  edges : List WorkflowEdge
  modelKey : String

section Parsing

variable {ν : Type} (P : Python ν)

def dict? : Value ν → Option (Fields ν)
  | .dict fields => some fields
  | _ => none

def list? : Value ν → Option (List (Value ν))
  | .array l => some l
  | _ => none

def falsy : Value ν → Bool
  | .null => true
  | .bool b => !b
  | .number n => P.zero n
  | .string s => s = ""
  | .array l => l.isEmpty
  | .dict fields => fields.isEmpty

/-- `str(fields.get(key, default))`. -/
def text (fields : Fields ν) (key default : String) : String := ((fields.lookup key).map P.str).getD default

/-- `fields.get(key) or []`. -/
def orEmpty (fields : Fields ν) (key : String) : Value ν :=
  match fields.lookup key with
  | none => .array []
  | some v => if falsy P v then .array [] else v

/-- The items are dicts, each of which is read; the others are noticed when all dicts are read. -/
def parseAll {α : Type} (parse : Fields ν → Except String α) (message : String) (items : List (Value ν)) :
    Except String (List α) := do
  let read ← (items.filterMap dict?).mapM parse
  if read.length ≠ items.length then throw message else return read

/-- `NodeInput`. -/
def parseInput (fields : Fields ν) : Except String NodeInput := do
  let kind := strip (text P fields "kind" "")
  let name := text P fields "name" ""
  let fromNodeId :=
    match fields.lookup "from_node_id" with
    | none | some .null => none
    | some v => some (P.str v)
  if kind = "project_brief" then return ⟨.projectBrief, name, fromNodeId⟩
  else if kind ≠ "artifact" then throw s!"unsupported input kind: {kind}"
  else if strip name = "" then throw "artifact input name required"
  else if (fromNodeId.map strip) = some "" then throw "from_node_id required when set"
  else return ⟨.artifact, strip name, fromNodeId.map strip⟩

/-- `NodeOutput`. -/
def parseOutput (fields : Fields ν) : Except String NodeOutput := do
  let storage := text P fields "storage_type" "None"
  if storage ∉ ["db", "oss", "filesystem"] then
    throw s!"{P.repr storage} is not a valid WorkshopArtifactStorageType"
  else if strip (text P fields "name" "") = "" then throw "output name required"
  else return ⟨strip (text P fields "name" "")⟩

/-- The members of `WorkshopToolCapability`. -/
def capabilities : List Capability :=
  [.webSearch, .webFetchReadonly, .readUploads, .writeTempWorkspace, .readProjectFiles, .writeProjectFiles,
    .browserRead, .browserWrite, .sandboxExecute, .mcp, .draftWorkflow, .confirmSaveWorkflow, .createSchedule,
    .startWorkflowExecution, .stopWorkflowExecution, .deleteWorkflow, .manualRunWorkflow, .requestExternalAuth,
    .proposeInvite, .inviteExpert, .raiseAuthPopup, .taobaoStoreWrite, .generationListModels, .generationSubmit]

def parseCapability (v : Value ν) : Except String Capability :=
  match capabilities.find? fun c => capabilityValue c = P.str v with
  | some c => .ok c
  | none => .error s!"{P.repr (P.str v)} is not a valid WorkshopToolCapability"

/-- An item of `nodes`, with the checks of `NodeAssignee` and `WorkflowNode`. -/
def parseNode (item : Value ν) : Except String (WorkflowNode Capability) := do
  let some fields := dict? item | throw "node must be object"
  let some assignee := (fields.lookup "assignee").bind dict? | throw "assignee required"
  let some inputsRaw := list? (orEmpty P fields "inputs") | throw "inputs/outputs must be lists"
  let some outputsRaw := list? (orEmpty P fields "outputs") | throw "inputs/outputs must be lists"
  let some capsRaw := list? (orEmpty P fields "external_capabilities") | throw "external_capabilities must be list"
  let inputs ← parseAll (parseInput P) "input must be object" inputsRaw
  let outputs ← parseAll (parseOutput P) "output must be object" outputsRaw
  let caps ← capsRaw.mapM (parseCapability P)
  let presetKey := strip (text P assignee "preset_key" "")
  let id := strip (text P fields "id" "")
  let onFailure := text P fields "on_failure" "fail_run"
  if presetKey = "" then throw "assignee.preset_key required"
  else if id = "" then throw "node id required"
  else if strip (text P fields "title" "") = "" then throw "node title required"
  else if strip (text P fields "instruction" "") = "" then throw "node instruction required"
  else if onFailure = "fail_run" then return ⟨id, presetKey, inputs, outputs, caps, .failRun⟩
  else if onFailure = "block" then return ⟨id, presetKey, inputs, outputs, caps, .block⟩
  else throw s!"unsupported on_failure: {onFailure}"

/-- `WorkflowEdge`. -/
def parseEdge (fields : Fields ν) : Except String WorkflowEdge := do
  let fromId := strip (text P fields "from" "")
  let toId := strip (text P fields "to" "")
  if fromId = "" ∨ toId = "" then throw "edge endpoints required"
  else if fromId = toId then throw "self-loop edge forbidden"
  else return ⟨fromId, toId⟩

/-- `parse_definition_graph` after the model key. -/
def parseGraph (fields : Fields ν) : Except String (List (WorkflowNode Capability) × List WorkflowEdge) := do
  let some (node :: nodesRaw) := (fields.lookup "nodes").bind list? | throw "nodes required"
  let some edgesRaw := (fields.lookup "edges").bind list? | throw "edges required"
  let nodes ← (node :: nodesRaw).mapM (parseNode P)
  let edges ← parseAll (parseEdge P) "edge must be object" edgesRaw
  match fields.lookup "entry_node_ids" with
  | none | some .null | some (.array _) => return (nodes, edges)
  | some _ => throw "entry_node_ids must be list"

def parseDefinitionGraph (raw : Value ν) : Except String Definition :=
  match dict? raw with
  | none => .error "definition must be object"
  | some fields =>
    let modelKey := strip (text P fields "model_key" "")
    if modelKey = "" then .error "model_key required"
    else (parseGraph P fields).map fun (nodes, edges) => ⟨nodes, edges, modelKey⟩

end Parsing

/-! ### The graph -/

section Graph

variable {κ : Type} [DecidableEq κ] (x : Execution κ) (cut : NodeRunContext κ → Bool)

/-- What the loop over the nodes hands to the runner for a node, when the inputs of the node are there. -/
def context (s : RunState κ) (n : WorkflowNode κ) : Option (NodeRunContext κ) :=
  match inputArtifacts s.artifacts n.inputs with
  | .error _ => none
  | .ok handed =>
    some ⟨x.runId, x.projectId, n, (handed.map fun h => (h.1.name, h.2.item)).eraseDups, strip x.modelKey⟩

/-- The loop comes to a call of the runner that is cut off. -/
def cutOff : RunState κ → List (WorkflowNode κ) → Bool
  | _, [] => false
  | s, n :: nodes =>
    (context x s n).any cut ||
      match runNode x s n with
      | .error _ => false
      | .ok s => cutOff s nodes

/-- `execute_workflow_graph` with a runner whose calls may be cut off, by what `except Exception` lets through. -/
def executeGraph (d : WorkflowDefinition κ) : Except String (RunState κ) :=
  match executeWorkflowGraph x d with
  | .error e => .error e
  | .ok s =>
    match topologicalOrder d.nodes d.edges with
    | .error _ => .ok s
    | .ok order => if cutOff x cut RunState.start order then .error "cancelled" else .ok s

/-- The loop calls the runner with `ctx`. -/
inductive Calls : RunState κ → List (WorkflowNode κ) → NodeRunContext κ → Prop
  | here {s n nodes ctx} (h : context x s n = some ctx) : Calls s (n :: nodes) ctx
  | later {s s' n nodes ctx} (h : runNode x s n = .ok s') (hcalls : Calls s' nodes ctx) : Calls s (n :: nodes) ctx

end Graph

/-! ### The call -/

/-- Where a statement raises: before it has an effect, or after. -/
inductive Fault
  | none
  | before
  | after
  deriving DecidableEq

/-- A call, with what it finds and what others do to the row meanwhile, who may delete it. -/
structure Call (ν : Type) where
  row : Option WorkflowRun
  -- the `steps` of the workflow, when its row is there
  steps : Option (Value ν)
  runId : String
  projectId : String
  presetKeys : List String
  presetAllowlists : String → Option (List Capability)
  -- `none` where the call is cut off
  runner : NodeRunContext Capability → Option (Except String (List ProducedArtifact))
  -- before the first write of the row, between that write and the read after it, and before the last write
  early : WorkflowRun → Option WorkflowRun
  between : WorkflowRun → Option WorkflowRun
  late : WorkflowRun → Option WorkflowRun
  fetchFails : Bool
  loadFails : Bool
  start : Fault
  finish : Fault

inductive Ending
  | returned (status : RunStatus)
  | raised (message : String)
  | lost
  deriving DecidableEq

structure Outcome where
  row : Option WorkflowRun
  ending : Ending
  deriving DecidableEq

/-- The update of `update_workflow_run_cas` on the row. -/
def updateCas (row : Option WorkflowRun) (revision : Nat) (status : RunStatus) (error : Option String) :
    Option WorkflowRun :=
  (row.filter fun r => r.revision = revision).map fun r =>
    { r with status, errorMessage := error, revision := revision + 1 }

def stored : Workshop.Workflow.RunStatus → RunStatus
  | .running => .running
  | .succeeded => .succeeded
  | .failed => .failed
  | .blocked => .blocked

section Execute

variable {ν : Type} (P : Python ν) (x : Call ν)

/-- `get_workflow`. -/
def Call.getWorkflow : Except String Definition :=
  match x.steps with
  | none => .error "workflow not found"
  | some raw => if x.loadFails then .error "database" else parseDefinitionGraph P raw

def Call.execution (d : Definition) : Execution Capability :=
  ⟨x.runId, x.projectId, d.modelKey, fun ctx => (x.runner ctx).getD (.error "cancelled")⟩

def Call.graph (d : Definition) : WorkflowDefinition Capability :=
  ⟨d.nodes, d.edges, x.presetKeys, x.presetAllowlists, none⟩

/-- From the first write of the row on, which has been made. -/
def afterStart (started : WorkflowRun) (d : Definition) : Outcome :=
  let row := x.between started
  if x.start = .after then ⟨row.bind x.late, .raised "database"⟩
  else
    match row with
    | none => ⟨none, .raised "unknown workflow run"⟩
    | some own =>
      let row := x.late own
      match executeGraph (x.execution d) (fun ctx => (x.runner ctx).isNone) (x.graph d) with
      | .error e => ⟨row, .raised e⟩
      | .ok state =>
        if x.finish = .before then ⟨row, .raised "database"⟩
        else
          match updateCas row own.revision (stored state.status) state.errorMessage with
          | none => ⟨row, .lost⟩
          | some ended =>
            ⟨some ended, if x.finish = .after then .raised "database" else .returned (stored state.status)⟩

/-- `execute_run`. -/
def executeRun : Outcome :=
  let row := x.row.bind x.early
  if x.fetchFails then ⟨row, .raised "database"⟩
  else
    match x.row with
    | none => ⟨none, .raised "unknown workflow run"⟩
    | some run =>
      if run.status.active = false then ⟨row, .returned run.status⟩
      else
        match x.getWorkflow P with
        | .error e => ⟨row, .raised e⟩
        | .ok d =>
          if x.start = .before then ⟨row, .raised "database"⟩
          else
            match updateCas row run.revision .running none with
            | none => ⟨row, .lost⟩
            | some started => afterStart x started d

/-! ### The law and its condition -/

/-- The run is not left RUNNING. -/
def Outcome.Left (o : Outcome) : Prop := ∀ r ∈ o.row, r.status ≠ .running

/-- The call comes to its first write of the row. -/
structure Starts (run : WorkflowRun) (d : Definition) : Prop where
  fetch : x.fetchFails = false
  row : x.row = some run
  active : run.status.active = true
  load : x.getWorkflow P = .ok d
  start : x.start ≠ .before

/-- From its first write to its last one nothing raises in the call. -/
structure Ends (d : Definition) : Prop where
  start : x.start ≠ .after
  definition : validateWorkflowDefinition (x.graph d) = .ok ()
  runner : ∀ order, topologicalOrder d.nodes d.edges = .ok order →
    ∀ ctx, Calls (x.execution d) RunState.start order ctx → x.runner ctx ≠ none
  finish : x.finish ≠ .before

/-- A call that comes to its first write comes to its last one too, or others have ended the run by then; for a call
that does not, the run is in another status than RUNNING. -/
structure Settles : Prop where
  started : ∀ run d, Starts P x run d →
    Ends x d ∨ ∀ started ∈ updateCas (x.row.bind x.early) run.revision .running none,
      ∀ r ∈ (x.between started).bind x.late, r.status ≠ .running
  idle : (∀ run d, ¬ Starts P x run d) → ∀ r ∈ x.row.bind x.early, r.status ≠ .running

end Execute

/-! ### The model key -/

/-- Only white space strips to the empty text. -/
theorem isSpace_of_strip {s : String} (h : strip s = "") : ∀ c ∈ s.toList, isSpace c = true := by
  have hl : (s.toList.dropWhile isSpace).rdropWhile isSpace = [] := by
    rw [← toList_strip, h]
    rfl
  have hall := List.rdropWhile_eq_nil_iff.1 hl
  have hnil : s.toList.dropWhile isSpace = [] := by
    cases hd : s.toList.dropWhile isSpace with
    | nil => rfl
    | cons c l =>
      have hself : (c :: l).dropWhile isSpace = c :: l := hd ▸ List.dropWhile_idempotent isSpace s.toList
      rw [List.dropWhile_cons_of_pos (hall c (hd ▸ List.mem_cons_self))] at hself
      have hlen := congrArg List.length hself
      have hle := (List.dropWhile_sublist (l := l) isSpace).length_le
      rw [List.length_cons] at hlen
      omega
  exact List.dropWhile_eq_nil_iff.1 hnil

theorem strip_strip_ne {s : String} (h : strip s ≠ "") : strip (strip s) ≠ "" := by
  intro hs
  have hne : (s.toList.dropWhile isSpace).rdropWhile isSpace ≠ [] := by
    rw [← toList_strip]
    exact fun hnil => h (String.toList_inj.1 hnil)
  refine List.rdropWhile_last_not isSpace _ hne (isSpace_of_strip hs _ ?_)
  rw [toList_strip]
  exact List.getLast_mem hne

theorem modelKey_ne {ν : Type} {P : Python ν} {raw : Value ν} {d : Definition}
    (h : parseDefinitionGraph P raw = .ok d) : strip d.modelKey ≠ "" := by
  unfold parseDefinitionGraph at h
  split at h
  · cases h
  · next fields _ =>
    dsimp only at h
    split at h
    · cases h
    · next hne =>
      cases hg : parseGraph P fields with
      | error e =>
        rw [hg] at h
        cases h
      | ok g =>
        rw [hg] at h
        cases h
        exact strip_strip_ne hne

/-! ### The graph -/

section Graph

variable {κ : Type} [DecidableEq κ] {x : Execution κ} {cut : NodeRunContext κ → Bool} {s t : RunState κ}

theorem cutOff_eq_true {nodes : List (WorkflowNode κ)} :
    cutOff x cut s nodes = true ↔ ∃ ctx, Calls x s nodes ctx ∧ cut ctx = true := by
  induction nodes generalizing s with
  | nil => exact ⟨fun h => (by cases h), fun ⟨_, h, _⟩ => (by cases h)⟩
  | cons n nodes ih =>
    rw [cutOff, Bool.or_eq_true, Option.any_eq_true]
    constructor
    · rintro (⟨ctx, hctx, hcut⟩ | h)
      · exact ⟨ctx, .here hctx, hcut⟩
      · split at h
        · cases h
        · next s' hs' =>
          obtain ⟨ctx, hcalls, hcut⟩ := ih.1 h
          exact ⟨ctx, .later hs' hcalls, hcut⟩
    · rintro ⟨ctx, hcalls, hcut⟩
      cases hcalls with
      | here hctx => exact .inl ⟨ctx, hctx, hcut⟩
      | later hs' hcalls =>
        rw [hs']
        exact .inr (ih.2 ⟨ctx, hcalls, hcut⟩)

theorem runNode_status {n : WorkflowNode κ} (h : runNode x s n = .error t) : t.status ≠ .running := by
  unfold runNode at h
  cases hin : inputArtifacts s.artifacts n.inputs with
  | error m =>
    simp only [hin, Except.error.injEq] at h
    subst h
    exact fun hrunning => (by cases hrunning)
  | ok handed =>
    simp only [hin] at h
    generalize x.runner _ = result at h
    cases result with
    | error m =>
      simp only [Except.error.injEq] at h
      subst h
      dsimp only
      split
      · exact fun hrunning => (by cases hrunning)
      · exact fun hrunning => (by cases hrunning)
    | ok produced =>
      cases hc : collect n.id s.artifacts produced with
      | error e =>
        simp only [RunState.called, hc, Except.error.injEq] at h
        subst h
        exact fun hrunning => (by cases hrunning)
      | ok artifacts => simp only [RunState.called, hc, reduceCtorEq] at h

theorem runNodes_status {nodes : List (WorkflowNode κ)} (h : runNodes x s nodes = .error t) : t.status ≠ .running := by
  induction nodes generalizing s with
  | nil => cases h
  | cons n nodes ih =>
    rw [runNodes] at h
    cases hn : runNode x s n with
    | error t' =>
      rw [hn] at h
      obtain rfl := Except.error.inj h
      exact runNode_status hn
    | ok s' =>
      rw [hn] at h
      exact ih h

/-- A graph that is executed to its end is not RUNNING. -/
theorem execute_status {d : WorkflowDefinition κ} (h : executeWorkflowGraph x d = .ok s) : s.status ≠ .running := by
  unfold executeWorkflowGraph at h
  split at h
  · obtain rfl := Except.ok.inj h
    exact fun hrunning => (by cases hrunning)
  · split at h
    · cases h
    · split at h
      · obtain rfl := Except.ok.inj h
        exact fun hrunning => (by cases hrunning)
      · split at h
        · next ht =>
          obtain rfl := Except.ok.inj h
          exact runNodes_status ht
        · split at h
          · obtain rfl := Except.ok.inj h
            exact fun hrunning => (by cases hrunning)
          · obtain rfl := Except.ok.inj h
            exact fun hrunning => (by cases hrunning)

theorem execute_ok_iff {d : WorkflowDefinition κ} (hkey : strip x.modelKey ≠ "") :
    (∃ s, executeWorkflowGraph x d = .ok s) ↔
      validateWorkflowDefinition { d with entryNodeIds := none } = .ok () := by
  unfold executeWorkflowGraph
  rw [if_neg hkey]
  cases validateWorkflowDefinition { d with entryNodeIds := none } with
  | error e => exact ⟨fun ⟨_, h⟩ => (by cases h), fun h => (by cases h)⟩
  | ok _ =>
    refine ⟨fun _ => rfl, fun _ => ?_⟩
    dsimp only
    split
    · exact ⟨_, rfl⟩
    · split
      · exact ⟨_, rfl⟩
      · split
        · exact ⟨_, rfl⟩
        · exact ⟨_, rfl⟩

/-- The graph is executed to its end exactly when its definition is accepted and no call of the runner is cut off. -/
theorem executeGraph_ok_iff {d : WorkflowDefinition κ} (hkey : strip x.modelKey ≠ "") :
    (∃ s, executeGraph x cut d = .ok s) ↔ validateWorkflowDefinition { d with entryNodeIds := none } = .ok () ∧
      ∀ order, topologicalOrder d.nodes d.edges = .ok order →
        ∀ ctx, Calls x RunState.start order ctx → cut ctx = false := by
  rw [← execute_ok_iff hkey]
  unfold executeGraph
  cases executeWorkflowGraph x d with
  | error e => exact ⟨fun ⟨_, h⟩ => (by cases h), fun ⟨⟨_, h⟩, _⟩ => (by cases h)⟩
  | ok s =>
    cases topologicalOrder d.nodes d.edges with
    | error m => exact ⟨fun _ => ⟨⟨s, rfl⟩, nofun⟩, fun _ => ⟨s, rfl⟩⟩
    | ok order =>
      dsimp only
      split
      · next hcut =>
        obtain ⟨ctx, hcalls, hctx⟩ := cutOff_eq_true.1 hcut
        refine ⟨fun ⟨_, h⟩ => (by cases h), fun ⟨_, h⟩ => ?_⟩
        cases hctx.symm.trans (h order rfl ctx hcalls)
      · next hcut =>
        refine ⟨fun _ => ⟨⟨s, rfl⟩, fun order' ho ctx hcalls => ?_⟩, fun _ => ⟨s, rfl⟩⟩
        cases ho
        by_contra hctx
        exact hcut (cutOff_eq_true.2 ⟨ctx, hcalls, eq_true_of_ne_false hctx⟩)

theorem executeGraph_status {d : WorkflowDefinition κ} (h : executeGraph x cut d = .ok s) : s.status ≠ .running := by
  unfold executeGraph at h
  split at h
  · cases h
  · next hs =>
    have hstatus := execute_status hs
    split at h
    · cases h
      exact hstatus
    · split at h
      · cases h
      · cases h
        exact hstatus

end Graph

/-! ### What a call leaves -/

section Left

variable {ν : Type} {P : Python ν} {x : Call ν} {d : Definition} {run started : WorkflowRun}

theorem ends_iff (hkey : strip d.modelKey ≠ "") : Ends x d ↔ x.start ≠ .after ∧
    (∃ s, executeGraph (x.execution d) (fun ctx => (x.runner ctx).isNone) (x.graph d) = .ok s) ∧
      x.finish ≠ .before := by
  have hkey : strip (x.execution d).modelKey ≠ "" := hkey
  rw [executeGraph_ok_iff hkey]
  constructor
  · intro h
    refine ⟨h.start, ⟨h.definition, fun order ho ctx hcalls => ?_⟩, h.finish⟩
    exact Option.isNone_eq_false_iff.2 (Option.ne_none_iff_isSome.1 (h.runner order ho ctx hcalls))
  · rintro ⟨hstart, ⟨hdefinition, hrunner⟩, hfinish⟩
    refine ⟨hstart, hdefinition, fun order ho ctx hcalls => ?_, hfinish⟩
    exact Option.ne_none_iff_isSome.2 (Option.isNone_eq_false_iff.1 (hrunner order ho ctx hcalls))

theorem left_some {row : Option WorkflowRun} {revision : Nat} {status : RunStatus} {error : Option String}
    {ended : WorkflowRun} (h : updateCas row revision status error = some ended) : ended.status = status := by
  obtain ⟨r, -, rfl⟩ := Option.map_eq_some_iff.1 h
  rfl

theorem stored_ne_running {status : Workshop.Workflow.RunStatus} (h : status ≠ .running) :
    stored status ≠ .running := by
  cases status with
  | running => exact absurd rfl h
  | succeeded | failed | blocked => nofun

/-- A call that has started the run leaves it RUNNING exactly when it raises before its last write and nobody else has
ended the run. -/
theorem afterStart_left (hkey : strip d.modelKey ≠ "") (hlost : (afterStart x started d).ending ≠ .lost) :
    (afterStart x started d).Left ↔
      Ends x d ∨ ∀ r ∈ (x.between started).bind x.late, r.status ≠ .running := by
  rw [ends_iff hkey]
  unfold afterStart at hlost ⊢
  dsimp only at hlost ⊢
  split at hlost
  · next hstart =>
    rw [if_pos hstart]
    exact ⟨.inr, fun h => h.elim (fun h => absurd hstart h.1) id⟩
  · next hstart =>
    rw [if_neg hstart]
    cases hown : x.between started with
    | none => exact ⟨fun _ => .inr nofun, fun _ => nofun⟩
    | some own =>
      simp only [hown] at hlost
      cases hgraph : executeGraph (x.execution d) (fun ctx => (x.runner ctx).isNone) (x.graph d) with
      | error e =>
        refine ⟨.inr, fun h => h.elim (fun ⟨_, ⟨_, hs⟩, _⟩ => ?_) id⟩
        cases hs
      | ok state =>
        simp only [hgraph] at hlost
        dsimp only
        split at hlost
        · next hfinish =>
          rw [if_pos hfinish]
          exact ⟨.inr, fun h => h.elim (fun h => absurd hfinish h.2.2) id⟩
        · next hfinish =>
          rw [if_neg hfinish]
          cases hcas : updateCas (x.late own) own.revision (stored state.status) state.errorMessage with
          | none =>
            simp only [hcas, ne_eq, not_true] at hlost
          | some ended =>
            refine ⟨fun _ => .inl ⟨hstart, ⟨state, rfl⟩, hfinish⟩, fun _ r hr => ?_⟩
            obtain rfl := Option.some.inj hr
            rw [left_some hcas]
            exact stored_ne_running (executeGraph_status hgraph)

theorem modelKey_of_getWorkflow (h : x.getWorkflow P = .ok d) : strip d.modelKey ≠ "" := by
  unfold Call.getWorkflow at h
  split at h
  · cases h
  · split at h
    · cases h
    · exact modelKey_ne h

/-- A call that does not come to its first write leaves the row to the others. -/
theorem executeRun_idle (h : ∀ run d, ¬ Starts P x run d) : (executeRun P x).row = x.row.bind x.early := by
  unfold executeRun
  dsimp only
  split
  · rfl
  · next hfetch =>
    cases hrow : x.row with
    | none => rfl
    | some run =>
      dsimp only
      split
      · rfl
      · next hactive =>
        cases hload : x.getWorkflow P with
        | error e => rfl
        | ok d =>
          dsimp only
          split
          · rfl
          · next hstart =>
            exact absurd ⟨eq_false_of_ne_true hfetch, hrow, eq_true_of_ne_false hactive, hload, hstart⟩ (h run d)

theorem executeRun_starts (h : Starts P x run d) : executeRun P x =
    match updateCas (x.row.bind x.early) run.revision .running none with
    | none => ⟨x.row.bind x.early, .lost⟩
    | some started => afterStart x started d := by
  unfold executeRun
  simp only [h.fetch, h.row, h.active, h.load, h.start, Bool.false_eq_true, Bool.true_eq_false, if_false]

/-- A call that has lost no compare-and-set leaves its run in another status than RUNNING exactly under the condition.
-/
theorem left_iff_settles (hlost : (executeRun P x).ending ≠ .lost) : (executeRun P x).Left ↔ Settles P x := by
  by_cases hstarts : ∃ run d, Starts P x run d
  · obtain ⟨run, d, h⟩ := hstarts
    rw [executeRun_starts h] at hlost ⊢
    cases hcas : updateCas (x.row.bind x.early) run.revision .running none with
    | none => simp only [hcas, ne_eq, not_true] at hlost
    | some started =>
      simp only [hcas] at hlost
      dsimp only
      rw [afterStart_left (modelKey_of_getWorkflow h.load) hlost]
      constructor
      · intro hleft
        refine ⟨fun run' d' h' => ?_, fun hn => absurd h (hn run d)⟩
        obtain rfl := Option.some.inj (h.row.symm.trans h'.row)
        obtain rfl := Except.ok.inj (h.load.symm.trans h'.load)
        rw [hcas]
        exact hleft.imp_right fun hleft started' hs => Option.some.inj hs ▸ hleft
      · intro hs
        exact (hs.started run d h).imp_right fun hleft => hleft started hcas
  · have hnone : ∀ run d, ¬ Starts P x run d := fun run d h => hstarts ⟨run, d, h⟩
    unfold Outcome.Left
    rw [executeRun_idle hnone]
    exact ⟨fun h => ⟨fun run d h' => absurd h' (hnone run d), fun _ => h⟩, fun h => h.idle hnone⟩

/-- With nobody else, a call that starts the run has to come to its last write, and one that does not must have found it
in another status than RUNNING. -/
theorem settles_alone (hearly : x.early = some) (hbetween : x.between = some) (hlate : x.late = some) :
    Settles P x ↔ (∀ run d, Starts P x run d → Ends x d) ∧
      ((∀ run d, ¬ Starts P x run d) → ∀ r ∈ x.row, r.status ≠ .running) := by
  have hrow : x.row.bind x.early = x.row := by rw [hearly, Option.bind_fun_some]
  constructor
  · intro h
    refine ⟨fun run d hstarts => (h.started run d hstarts).resolve_right fun hleft => ?_, fun hn => hrow ▸ h.idle hn⟩
    have hcas : updateCas (x.row.bind x.early) run.revision .running none =
        some { run with status := .running, errorMessage := none, revision := run.revision + 1 } := by
      rw [hrow, hstarts.row]
      simp [updateCas]
    refine hleft _ hcas { run with status := .running, errorMessage := none, revision := run.revision + 1 } ?_ rfl
    rw [hbetween, hlate]
    rfl
  · rintro ⟨hstarted, hidle⟩
    exact ⟨fun run d hstarts => .inl (hstarted run d hstarts), fun hn => hrow.symm ▸ hidle hn⟩

/-- In a table the ids of which are unique the update of a run is the one of its row. -/
theorem getWorkflowRun_updateCas {κ τ : Type} {db : Db κ τ} (hkeys : (db.workflowRuns.map WorkflowRun.id).Nodup)
    (id revision : Nat) (status : RunStatus) (error : Option String) :
    (db.updateWorkflowRunCas id revision status error).bind (fun db => db.getWorkflowRun id) =
      updateCas (db.getWorkflowRun id) revision status error := by
  unfold Db.updateWorkflowRunCas Db.updateRunWhere
  cases hr : db.getWorkflowRun id with
  | none =>
    rw [if_neg]
    · rfl
    · intro hany
      obtain ⟨row, hrow, hp⟩ := List.any_eq_true.1 hany
      have hid := (of_decide_eq_true hp).1
      exact List.find?_eq_none.1 hr row hrow (decide_eq_true hid)
  | some r =>
    have hmem : r ∈ db.workflowRuns := List.mem_of_find?_eq_some hr
    have hfound := List.find?_some hr
    have hid : r.id = id := of_decide_eq_true hfound
    by_cases hrevision : r.revision = revision
    · rw [if_pos (List.any_eq_true.2 ⟨r, hmem, decide_eq_true ⟨hid, hrevision, rfl⟩⟩), Option.bind_some]
      have hsame : ((fun r : WorkflowRun => decide (r.id = id)) ∘ fun r : WorkflowRun =>
          if r.id = id ∧ r.revision = revision ∧ true = true then
            { r with status, errorMessage := error, revision := revision + 1 } else r) =
              fun r => decide (r.id = id) := by
        funext r
        rw [Function.comp_apply]
        split
        · rfl
        · rfl
      unfold Db.getWorkflowRun at hr ⊢
      rw [List.find?_map, hsame, hr, Option.map_some, if_pos ⟨hid, hrevision, rfl⟩]
      simp [updateCas, hrevision]
    · rw [if_neg]
      · simp [updateCas, hrevision]
      · intro hany
        obtain ⟨row, hrow, hp⟩ := List.any_eq_true.1 hany
        obtain ⟨hid', hrevision', -⟩ := of_decide_eq_true hp
        obtain rfl := List.inj_on_of_nodup_map hkeys hrow hmem (hid'.trans hid.symm)
        exact hrevision hrevision'

end Left

/-! ### A preset that is not known any more -/

def python : Python Int where
  str
    | .string s => s
    | .null => "None"
    | _ => ""
  repr s := "'" ++ s ++ "'"
  zero n := n = 0

def queuedRun : WorkflowRun := ⟨0, "w", 1, none, .manual, .queued, none, 1⟩

/-- A call for a workflow of one node, with nobody else. -/
def callOf (presetKey : String) : Call Int where
  row := some queuedRun
  steps := some (.dict [("edges", .array []), ("model_key", .string "m"), ("nodes", .array [.dict
    [("assignee", .dict [("preset_key", .string presetKey)]), ("id", .string "n"), ("instruction", .string "write"),
      ("title", .string "copy")]])])
  runId := "0"
  projectId := "p"
  presetKeys := ["writer"]
  presetAllowlists _ := some []
  runner _ := some (.ok [⟨"copy", .oss, "", "key", none⟩])
  early := some
  between := some
  late := some
  fetchFails := false
  loadFails := false
  start := .none
  finish := .none

/-- The run succeeds. -/
theorem settles_of_writer :
    executeRun python (callOf "writer") =
      ⟨some { queuedRun with status := .succeeded, revision := 3 }, .returned .succeeded⟩ ∧
        ((executeRun python (callOf "writer")).Left ↔ Settles python (callOf "writer")) := by
  have h : executeRun python (callOf "writer") =
      ⟨some { queuedRun with status := .succeeded, revision := 3 }, .returned .succeeded⟩ := by decide
  exact ⟨h, left_iff_settles (h ▸ nofun)⟩

/-- The validation of the graph raises, and the run stays RUNNING. -/
theorem left_running_of_unknown_preset : executeRun python (callOf "retired") =
    ⟨some { queuedRun with status := .running, revision := 2 }, .raised "unknown preset: retired"⟩ ∧
      (executeRun python (callOf "retired")).ending ≠ .lost ∧ ¬ (executeRun python (callOf "retired")).Left := by
  have h : executeRun python (callOf "retired") =
      ⟨some { queuedRun with status := .running, revision := 2 }, .raised "unknown preset: retired"⟩ := by
    decide
  rw [h]
  exact ⟨rfl, nofun, fun hleft => hleft _ rfl rfl⟩

end NexusStudio.RunExecution
