import NexusStudio.Lib.Worklist
import NexusStudio.Server.Errors
import Mathlib.Data.List.Nodup
import Mathlib.Data.List.Sort

/-!
# Workflows of a workshop

`validate_workflow_definition` and `execute_workflow_graph`: nodes that hand artifacts to one another by name.

* (validation) A definition is accepted when its graph has no cycle and every artifact that a node binds comes from one
  of its ancestors, as far as the outputs are declared.
* (execution) The nodes are run in a topological order; what they return goes into one table of names, and a binding is
  looked up there by its name alone.
* (defect) `from_node_id` is checked by the validation and never read by the execution.
-/

set_option linter.unusedSectionVars false

namespace NexusStudio.Workshop.Workflow

/-! ### Definitions -/

inductive ArtifactStorageType
  | db
  | oss
  | filesystem
  deriving DecidableEq, Repr

inductive InputKind
  | artifact
  | projectBrief
  deriving DecidableEq, Repr

structure NodeInput where
  kind : InputKind
  name : String
  fromNodeId : Option String
  deriving DecidableEq, Repr

structure NodeOutput where
  name : String
  deriving DecidableEq, Repr

inductive OnFailure
  | failRun
  | block
  deriving DecidableEq, Repr

/-- A node, with the tool capabilities of type `κ`. -/
structure WorkflowNode (κ : Type*) where
  id : String
  presetKey : String
  inputs : List NodeInput
  outputs : List NodeOutput
  externalCapabilities : List κ
  onFailure : OnFailure
  deriving DecidableEq, Repr

structure WorkflowEdge where
  fromId : String
  toId : String
  deriving DecidableEq, Repr

structure WorkflowDefinition (κ : Type*) where
  nodes : List (WorkflowNode κ)
  edges : List WorkflowEdge
  knownPresetKeys : List String
  presetAllowlists : String → Option (List κ)
  entryNodeIds : Option (List String)

section Graph

variable (edges : List WorkflowEdge)

def arrows : List (String × String) := edges.map fun e => (e.fromId, e.toId)

/-- `a` is a strict ancestor of `b`. -/
def Ancestor (a b : String) : Prop := Relation.TransGen (Worklists.Edge (arrows edges)) a b

instance (a b : String) : Decidable (Ancestor edges a b) := inferInstanceAs (Decidable (Relation.TransGen _ a b))

/-- `_ancestors`. -/
def ancestors (nodeId : String) : List String := Worklists.above (arrows edges) nodeId

def incoming (nodeId : String) : List String := Worklists.preds (arrows edges) nodeId

def outgoing (nodeId : String) : List String := (edges.filter fun e => e.fromId = nodeId).map WorkflowEdge.toId

def indegree (nodeId : String) : Int := (edges.countP fun e => e.toId = nodeId : Nat)

variable {edges}

theorem mem_ancestors_iff {a b : String} : a ∈ ancestors edges b ↔ Ancestor edges a b := Worklists.mem_above_iff

end Graph

/-- The inner loop of both searches: every successor loses an edge, and joins the queue when it has lost its last. -/
def release (indegree : String → Int) (queue : List String) (next : List String) : (String → Int) × List String :=
  next.foldl (fun (degree, queue) n =>
    let degree := Function.update degree n (degree n - 1)
    (degree, if degree n = 0 then queue ++ [n] else queue)) (indegree, queue)

/-- The loop of `_has_cycle`. With more turns than nodes the count is wrong already. -/
def countVisited (edges : List WorkflowEdge) : Nat → (String → Int) → List String → Nat → Nat
  | 0, _, _, visited => visited
  | n + 1, degree, queue, visited =>
    match queue.getLast? with
    | none => visited
    | some current =>
      let (degree, queue) := release degree queue.dropLast (outgoing edges current)
      countVisited edges n degree queue (visited + 1)

def hasCycle (nodeIds : List String) (edges : List WorkflowEdge) : Bool :=
  countVisited edges (nodeIds.length + 1) (indegree edges) (nodeIds.filter fun i => indegree edges i = 0) 0
    ≠ nodeIds.length

/-- The loop of `topological_order`, with the smallest id of the queue next. -/
def ordered (edges : List WorkflowEdge) : Nat → (String → Int) → List String → List String
  | 0, _, _ => []
  | n + 1, degree, queue =>
    match queue.insertionSort (· ≤ ·) with
    | [] => []
    | current :: queue =>
      let (degree, queue) := release degree queue (outgoing edges current)
      current :: ordered edges n degree queue

section Model

variable {κ : Type*} [DecidableEq κ]

def topologicalOrder (nodes : List (WorkflowNode κ)) (edges : List WorkflowEdge) :
    Except String (List (WorkflowNode κ)) :=
  let ids := (nodes.map WorkflowNode.id).dedup
  if edges.any fun e => e.fromId ∉ ids ∨ e.toId ∉ ids then .error "edge endpoint unknown"
  else
    let order := ordered edges (nodes.length + 1) (indegree edges) (ids.filter fun i => indegree edges i = 0)
    if order.length ≠ nodes.length then .error "cycle in workflow graph"
    else .ok (order.filterMap fun i => nodes.reverse.find? fun n => n.id = i)

/-! ### Validation -/

/-- The declared outputs so far, with the nodes that declare them. -/
abbrev Owners := List (String × String)

def declareOutputs (nodeId : String) : Owners → List NodeOutput → Except String Owners
  | owners, [] => .ok owners
  | owners, o :: outputs =>
    if (owners.lookup o.name).isSome then .error s!"duplicate artifact name: {o.name}"
    else declareOutputs nodeId (owners ++ [(o.name, nodeId)]) outputs

def checkPreset (d : WorkflowDefinition κ) (n : WorkflowNode κ) : Except String Unit :=
  if n.presetKey ∉ d.knownPresetKeys then .error s!"unknown preset: {n.presetKey}"
  else
    match d.presetAllowlists n.presetKey with
    | none => .error s!"missing allowlist for preset: {n.presetKey}"
    | some allowlist =>
      if n.externalCapabilities.any fun c => c ∉ allowlist then
        .error "external_capabilities outside preset allowlist"
      else .ok ()

def checkInput (owners : Owners) (ancestors : List String) (i : NodeInput) : Except String Unit :=
  if i.kind ≠ .artifact then .ok ()
  else
    match owners.lookup i.name with
    | none =>
      match i.fromNodeId with
      | none => .error s!"unknown artifact input: {i.name}"
      | some f => if f ∉ ancestors then .error s!"artifact must come from ancestor: {i.name}" else .ok ()
    | some owner =>
      if i.fromNodeId.any fun f => f ≠ owner then .error s!"artifact owner mismatch: {i.name}"
      else if owner ∉ ancestors then .error s!"artifact must come from ancestor: {i.name}"
      else .ok ()

def checkInputs (owners : Owners) (ancestors : List String) : List NodeInput → Except String Unit
  | [] => .ok ()
  | i :: inputs =>
    match checkInput owners ancestors i with
    | .error e => .error e
    | .ok () => checkInputs owners ancestors inputs

def checkNode (d : WorkflowDefinition κ) (owners : Owners) (n : WorkflowNode κ) : Except String Owners :=
  match declareOutputs n.id owners n.outputs with
  | .error e => .error e
  | .ok owners =>
    match checkPreset d n with
    | .error e => .error e
    | .ok () =>
      match checkInputs owners (ancestors d.edges n.id) n.inputs with
      | .error e => .error e
      | .ok () => .ok owners

def checkNodes (d : WorkflowDefinition κ) : Owners → List (WorkflowNode κ) → Except String Unit
  | _, [] => .ok ()
  | owners, n :: nodes =>
    match checkNode d owners n with
    | .error e => .error e
    | .ok owners => checkNodes d owners nodes

def checkEntries (d : WorkflowDefinition κ) (roots : List String) : Except String Unit :=
  if roots = [] then .error "entry node required"
  else
    match d.entryNodeIds with
    | none => .ok ()
    | some ids =>
      let entries := ids.map strip
      if entries = [] ∨ "" ∈ entries then .error "entry_node_ids invalid"
      else if ¬ (entries ⊆ roots ∧ roots ⊆ entries) then .error "entry_node_ids must match roots"
      else .ok ()

def firstRepeated : List String → List String → Option String
  | _, [] => none
  | seen, i :: ids => if i ∈ seen then some i else firstRepeated (i :: seen) ids

def validateWorkflowDefinition (d : WorkflowDefinition κ) : Except String Unit :=
  let ids := d.nodes.map WorkflowNode.id
  if d.nodes = [] then .error "nodes required"
  else
    match firstRepeated [] ids with
    | some i => .error s!"duplicate node id: {i}"
    | none =>
      if d.edges.any fun e => e.fromId ∉ ids ∨ e.toId ∉ ids then .error "edge endpoint unknown"
      else if hasCycle ids d.edges then .error "cycle in workflow graph"
      else
        match checkEntries d (ids.filter fun i => incoming d.edges i = []) with
        | .error e => .error e
        | .ok () => checkNodes d [] d.nodes

/-! ### Execution -/

structure ProducedArtifact where
  name : String
  storageType : ArtifactStorageType
  content : String
  storageKey : String
  sizeBytes : Option Int
  deriving DecidableEq, Repr

def ProducedArtifact.isNonEmpty (a : ProducedArtifact) : Bool :=
  if a.storageType = .db then strip a.content ≠ ""
  else strip a.storageKey ≠ "" && a.sizeBytes.all (0 < ·)

/-- An entry of the table of artifacts, with the node that returned it. -/
structure Entry where
  producer : String
  item : ProducedArtifact
  deriving DecidableEq, Repr

/-- A call of the runner: what the node got for its bindings, and what it returned. -/
structure NodeRun (κ : Type*) where
  node : WorkflowNode κ
  handed : List (NodeInput × Entry)
  produced : List ProducedArtifact
  deriving DecidableEq, Repr

inductive RunStatus
  | running
  | succeeded
  | failed
  | blocked
  deriving DecidableEq, Repr

structure RunState (κ : Type*) where
  status : RunStatus
  currentNodeId : Option String
  errorMessage : Option String
  artifacts : List Entry
  completedNodeIds : List String
  -- the calls of the runner so far
  runs : List (NodeRun κ)
  deriving DecidableEq, Repr

structure NodeRunContext (κ : Type*) where
  runId : String
  projectId : String
  node : WorkflowNode κ
  inputArtifacts : List (String × ProducedArtifact)
  modelKey : String

/-- `run_node`: it returns artifacts, or raises with a text. -/
abbrev NodeRunner (κ : Type*) := NodeRunContext κ → Except String (List ProducedArtifact)

def getArtifact (artifacts : List Entry) (name : String) : Option Entry := artifacts.find? fun a => a.item.name = name

def inputArtifacts (artifacts : List Entry) : List NodeInput → Except String (List (NodeInput × Entry))
  | [] => .ok []
  | i :: inputs =>
    if i.kind ≠ .artifact then inputArtifacts artifacts inputs
    else
      match getArtifact artifacts i.name with
      | none => .error s!"missing input artifact: {i.name}"
      | some a => (inputArtifacts artifacts inputs).map fun handed => (i, a) :: handed

/-- The non-empty artifacts go into the table, up to the first whose name is taken. -/
def collect (producer : String) : List Entry → List ProducedArtifact → Except (String × List Entry) (List Entry)
  | artifacts, [] => .ok artifacts
  | artifacts, item :: produced =>
    if item.isNonEmpty = false then collect producer artifacts produced
    else if (getArtifact artifacts item.name).isSome then
      .error (s!"duplicate artifact name: {item.name}", artifacts)
    else collect producer (artifacts ++ [⟨producer, item⟩]) produced

/-- The fixed arguments of an execution. -/
structure Execution (κ : Type*) where
  runId : String
  projectId : String
  modelKey : String
  runner : NodeRunner κ

variable (x : Execution κ)

def RunState.called (s : RunState κ) (r : NodeRun κ) : RunState κ := { s with runs := s.runs ++ [r] }

/-- The body of the loop over the nodes: the state with which the execution returns, or goes on. -/
def runNode (s : RunState κ) (n : WorkflowNode κ) : Except (RunState κ) (RunState κ) :=
  let s := { s with currentNodeId := some n.id }
  match inputArtifacts s.artifacts n.inputs with
  | .error m => .error { s with status := .failed, errorMessage := some m }
  | .ok handed =>
    let inputs := (handed.map fun h => (h.1.name, h.2.item)).eraseDups
    let ctx : NodeRunContext κ := ⟨x.runId, x.projectId, n, inputs, strip x.modelKey⟩
    match x.runner ctx with
    | .error m =>
      .error { s.called ⟨n, handed, []⟩ with
        status := if n.onFailure = .block then .blocked else .failed
        errorMessage := some m }
    | .ok produced =>
      let s := s.called ⟨n, handed, produced⟩
      match collect n.id s.artifacts produced with
      | .error (m, artifacts) =>
        .error { s with status := .failed, errorMessage := some m, artifacts := artifacts }
      | .ok artifacts => .ok { s with artifacts := artifacts, completedNodeIds := s.completedNodeIds ++ [n.id] }

def runNodes : RunState κ → List (WorkflowNode κ) → Except (RunState κ) (RunState κ)
  | s, [] => .ok s
  | s, n :: nodes =>
    match runNode x s n with
    | .error s => .error s
    | .ok s => runNodes s nodes

def hasFinalFileDeliverable (artifacts : List Entry) : Bool :=
  artifacts.any fun a => a.item.storageType = .oss && a.item.isNonEmpty

def RunState.start : RunState κ := ⟨.running, none, none, [], [], []⟩

def executeWorkflowGraph (d : WorkflowDefinition κ) : Except String (RunState κ) :=
  if strip x.modelKey = "" then
    .ok { RunState.start with status := .failed, errorMessage := some "workflow model_key required" }
  else
    match validateWorkflowDefinition { d with entryNodeIds := none } with
    | .error e => .error e
    | .ok () =>
      match topologicalOrder d.nodes d.edges with
      | .error m => .ok { RunState.start with status := .failed, errorMessage := some m }
      | .ok order =>
        match runNodes x RunState.start order with
        | .error s => .ok s
        | .ok s =>
          if hasFinalFileDeliverable s.artifacts then .ok { s with status := .succeeded, currentNodeId := none }
          else
            .ok { s with
              status := .failed, errorMessage := some "missing final file deliverable", currentNodeId := none }

/-! ### Where an artifact comes from -/

variable {edges : List WorkflowEdge} {artifacts artifacts' : List Entry} {s s' : RunState κ} {x}

/-- The node that the binding names has produced the artifact, or an ancestor when it names none. -/
def NodeInput.From (edges : List WorkflowEdge) (consumer producer : String) (i : NodeInput) : Prop :=
  match i.fromNodeId with
  | some f => producer = f
  | none => Ancestor edges producer consumer

instance (consumer producer : String) (i : NodeInput) : Decidable (i.From edges consumer producer) := by
  unfold NodeInput.From
  split <;> infer_instance

def NodeRun.Sourced (edges : List WorkflowEdge) (r : NodeRun κ) : Prop :=
  ∀ h ∈ r.handed, h.1.From edges r.node.id h.2.producer

/-- The run `m` returns non-empty artifacts only under names that the node of `r` may have from there. -/
def NodeRun.Serves (edges : List WorkflowEdge) (m r : NodeRun κ) : Prop :=
  ∀ item ∈ m.produced, item.isNonEmpty → ∀ i ∈ r.node.inputs, i.kind = .artifact → i.name = item.name →
    i.From edges r.node.id m.node.id

instance (r : NodeRun κ) : Decidable (r.Sourced edges) := by
  unfold NodeRun.Sourced
  infer_instance

instance (m r : NodeRun κ) : Decidable (m.Serves edges r) := by
  unfold NodeRun.Serves
  infer_instance

/-- The runs get what they bind exactly when each serves those after it. -/
def Exact (edges : List WorkflowEdge) (runs : List (NodeRun κ)) : Prop :=
  (∀ r ∈ runs, r.Sourced edges) ↔ runs.Pairwise (NodeRun.Serves edges)

/-- The table holds what the runs have returned, and no name twice. -/
structure Inv (edges : List WorkflowEdge) (s : RunState κ) : Prop where
  names : (s.artifacts.map fun a => a.item.name).Nodup
  entries : ∀ a, a ∈ s.artifacts ↔ ∃ r ∈ s.runs, r.node.id = a.producer ∧ a.item ∈ r.produced ∧ a.item.isNonEmpty
  exact : Exact edges s.runs

theorem getArtifact_eq_some (hn : (artifacts.map fun a => a.item.name).Nodup) {name : String} {a : Entry} :
    getArtifact artifacts name = some a ↔ a ∈ artifacts ∧ a.item.name = name := by
  constructor
  · intro h
    have hname := List.find?_some h
    exact ⟨List.mem_of_find?_eq_some h, of_decide_eq_true hname⟩
  · rintro ⟨ha, rfl⟩
    obtain ⟨b, hb⟩ : ∃ b, getArtifact artifacts a.item.name = some b := by
      refine Option.isSome_iff_exists.1 (List.find?_isSome.2 ⟨a, ha, ?_⟩)
      exact decide_eq_true rfl
    have hname := List.find?_some hb
    rw [hb, List.inj_on_of_nodup_map hn (List.mem_of_find?_eq_some hb) ha (of_decide_eq_true hname)]

theorem mem_inputArtifacts {inputs : List NodeInput} {handed : List (NodeInput × Entry)}
    (h : inputArtifacts artifacts inputs = .ok handed) {i : NodeInput} {a : Entry} :
    (i, a) ∈ handed ↔ i ∈ inputs ∧ i.kind = .artifact ∧ getArtifact artifacts i.name = some a := by
  induction inputs generalizing handed with
  | nil =>
    obtain rfl := Except.ok.inj h
    simp
  | cons j inputs ih =>
    rw [inputArtifacts] at h
    split at h
    · next hj =>
      rw [ih h, List.mem_cons]
      constructor
      · rintro ⟨hi, hk⟩
        exact ⟨.inr hi, hk⟩
      · rintro ⟨rfl | hi, hk, ha⟩
        · exact absurd hk hj
        · exact ⟨hi, hk, ha⟩
    · next hj =>
      split at h
      · cases h
      · next b hb =>
        cases hr : inputArtifacts artifacts inputs with
        | error m =>
          rw [hr] at h
          cases h
        | ok rest =>
          rw [hr] at h
          obtain rfl := Except.ok.inj h
          rw [List.mem_cons, List.mem_cons, ih hr, Prod.mk.injEq]
          constructor
          · rintro (⟨rfl, rfl⟩ | ⟨hi, hk, ha⟩)
            · exact ⟨.inl rfl, not_not.1 hj, hb⟩
            · exact ⟨.inr hi, hk, ha⟩
          · rintro ⟨rfl | hi, hk, ha⟩
            · exact .inl ⟨rfl, Option.some.inj (ha.symm.trans hb)⟩
            · exact .inr ⟨hi, hk, ha⟩

theorem collect_effect {producer : String} {produced : List ProducedArtifact}
    (h : collect producer artifacts produced = .ok artifacts')
    (hn : (artifacts.map fun a => a.item.name).Nodup) :
    (artifacts'.map fun a => a.item.name).Nodup ∧
      ∀ a, a ∈ artifacts' ↔ a ∈ artifacts ∨ producer = a.producer ∧ a.item ∈ produced ∧ a.item.isNonEmpty := by
  induction produced generalizing artifacts with
  | nil =>
    obtain rfl := Except.ok.inj h
    exact ⟨hn, fun a => by simp⟩
  | cons item produced ih =>
    rw [collect] at h
    split at h
    · next he =>
      obtain ⟨hn', ha⟩ := ih h hn
      refine ⟨hn', fun a => ?_⟩
      rw [ha, List.mem_cons]
      constructor
      · rintro (ha | ⟨hp, hi, hne⟩)
        · exact .inl ha
        · exact .inr ⟨hp, .inr hi, hne⟩
      · rintro (ha | ⟨hp, rfl | hi, hne⟩)
        · exact .inl ha
        · rw [he] at hne
          cases hne
        · exact .inr ⟨hp, hi, hne⟩
    · next he =>
      split at h
      · cases h
      · next hfree =>
        have hfree : item.name ∉ artifacts.map fun a => a.item.name := by
          intro hm
          obtain ⟨a, ha, hname⟩ := List.mem_map.1 hm
          exact hfree (by rw [(getArtifact_eq_some hn).2 ⟨ha, hname⟩]; rfl)
        obtain ⟨hn', ha⟩ := ih h (by
          rw [List.map_append]
          exact hn.append (List.nodup_singleton _) (List.disjoint_singleton.2 hfree))
        refine ⟨hn', fun a => ?_⟩
        rw [ha, List.mem_append, List.mem_singleton, List.mem_cons]
        constructor
        · rintro ((ha | rfl) | ⟨hp, hi, hne⟩)
          · exact .inl ha
          · exact .inr ⟨rfl, .inl rfl, Bool.eq_true_of_not_eq_false he⟩
          · exact .inr ⟨hp, .inr hi, hne⟩
        · rintro (ha | ⟨rfl, rfl | hi, hne⟩)
          · exact .inl (.inl ha)
          · exact .inl (.inr rfl)
          · exact .inr ⟨rfl, hi, hne⟩

/-- A node gets what it binds exactly when the runs before it serve it. -/
theorem sourced_iff_serves (hI : Inv edges s) {n : WorkflowNode κ} {handed : List (NodeInput × Entry)}
    (h : inputArtifacts s.artifacts n.inputs = .ok handed) (produced : List ProducedArtifact) :
    NodeRun.Sourced edges ⟨n, handed, produced⟩ ↔ ∀ m ∈ s.runs, m.Serves edges ⟨n, handed, produced⟩ := by
  constructor
  · intro hs m hm item hitem hne i hi hk hname
    have hentry : ⟨m.node.id, item⟩ ∈ s.artifacts := (hI.entries _).2 ⟨m, hm, rfl, hitem, hne⟩
    have hget := (getArtifact_eq_some hI.names).2 ⟨hentry, hname.symm⟩
    exact hs _ ((mem_inputArtifacts h).2 ⟨hi, hk, hget⟩)
  · rintro hs ⟨i, a⟩ hia
    obtain ⟨hi, hk, hget⟩ := (mem_inputArtifacts h).1 hia
    obtain ⟨ha, hname⟩ := (getArtifact_eq_some hI.names).1 hget
    obtain ⟨m, hm, hp, hitem, hne⟩ := (hI.entries a).1 ha
    have hfrom := hs m hm a.item hitem hne i hi hk hname.symm
    rw [hp] at hfrom
    exact hfrom

theorem exact_append (hI : Inv edges s) {n : WorkflowNode κ} {handed : List (NodeInput × Entry)}
    (h : inputArtifacts s.artifacts n.inputs = .ok handed) (produced : List ProducedArtifact) :
    Exact edges (s.runs ++ [⟨n, handed, produced⟩]) := by
  have hexact : (∀ r ∈ s.runs, r.Sourced edges) ↔ s.runs.Pairwise (NodeRun.Serves edges) := hI.exact
  unfold Exact
  rw [List.forall_mem_append, List.forall_mem_singleton, hexact, sourced_iff_serves hI h produced,
    List.pairwise_append]
  simp

/-- One turn of the loop over the nodes. -/
theorem runNode_effect (hI : Inv edges s) (n : WorkflowNode κ) :
    match runNode x s n with
    | .error s' => Exact edges s'.runs
    | .ok s' => Inv edges s' := by
  unfold runNode
  cases hin : inputArtifacts s.artifacts n.inputs with
  | error m =>
    simp only [hin]
    exact hI.exact
  | ok handed =>
    simp only [hin]
    generalize x.runner _ = result
    cases result with
    | error m => exact exact_append hI hin []
    | ok produced =>
      cases hc : collect n.id s.artifacts produced with
      | error e =>
        simp only [RunState.called, hc]
        exact exact_append hI hin produced
      | ok artifacts =>
        simp only [RunState.called, hc]
        obtain ⟨hnames, hmem⟩ := collect_effect hc hI.names
        refine ⟨hnames, fun a => ?_, exact_append hI hin produced⟩
        rw [hmem, hI.entries]
        constructor
        · rintro (⟨r, hr, h⟩ | h)
          · exact ⟨r, List.mem_append_left _ hr, h⟩
          · exact ⟨_, List.mem_append_right _ (List.mem_singleton_self _), h⟩
        · rintro ⟨r, hr, h⟩
          rcases List.mem_append.1 hr with hr | hr
          · exact .inl ⟨r, hr, h⟩
          · rw [List.mem_singleton.1 hr] at h
            exact .inr h

/-- The whole loop, whether it returns early or not. -/
theorem exact_runNodes (hI : Inv edges s) {nodes : List (WorkflowNode κ)}
    (h : runNodes x s nodes = .error s' ∨ runNodes x s nodes = .ok s') : Exact edges s'.runs := by
  induction nodes generalizing s with
  | nil =>
    rcases h with h | h
    · cases h
    · obtain rfl := Except.ok.inj h
      exact hI.exact
  | cons n nodes ih =>
    have heffect := runNode_effect (x := x) hI n
    rw [runNodes] at h
    cases hn : runNode x s n with
    | error t =>
      rw [hn] at heffect h
      rcases h with h | h
      · obtain rfl := Except.error.inj h
        exact heffect
      · cases h
    | ok t =>
      rw [hn] at heffect h
      exact ih heffect h

theorem inv_start : Inv edges (RunState.start : RunState κ) :=
  ⟨List.nodup_nil, fun a => by simp [RunState.start], by simp [Exact, RunState.start]⟩

/-- An execution runs nothing, or the nodes of an accepted definition in a topological order. -/
theorem execute_cases {d : WorkflowDefinition κ} (h : executeWorkflowGraph x d = .ok s) :
    s.runs = [] ∨ ∃ order t, validateWorkflowDefinition { d with entryNodeIds := none } = .ok () ∧
      topologicalOrder d.nodes d.edges = .ok order ∧
      (runNodes x .start order = .error t ∨ runNodes x .start order = .ok t) ∧ s.runs = t.runs := by
  unfold executeWorkflowGraph at h
  split at h
  · obtain rfl := Except.ok.inj h
    exact .inl rfl
  · split at h
    · cases h
    · next hv =>
      split at h
      · obtain rfl := Except.ok.inj h
        exact .inl rfl
      · next order ho =>
        split at h
        · next t ht =>
          obtain rfl := Except.ok.inj h
          exact .inr ⟨order, _, hv, ho, .inl ht, rfl⟩
        · next t ht =>
          split at h
          · obtain rfl := Except.ok.inj h
            exact .inr ⟨order, t, hv, ho, .inr ht, rfl⟩
          · obtain rfl := Except.ok.inj h
            exact .inr ⟨order, t, hv, ho, .inr ht, rfl⟩

/-- Every binding of the run is handed what it names, or an artifact of an ancestor, exactly when no node returns a
non-empty artifact under a name that a node run later binds to another one. -/
theorem sourced_iff {d : WorkflowDefinition κ} (h : executeWorkflowGraph x d = .ok s) :
    (∀ r ∈ s.runs, r.Sourced d.edges) ↔ s.runs.Pairwise (NodeRun.Serves d.edges) := by
  rcases execute_cases h with hr | ⟨order, t, -, -, ht, hr⟩
  · rw [hr]
    exact inv_start.exact
  · rw [hr]
    exact exact_runNodes inv_start ht

/-! ### Declared outputs -/

/-- What the nodes declare, each name with its owner. -/
def declared (nodes : List (WorkflowNode κ)) : Owners := nodes.flatMap fun n => n.outputs.map fun o => (o.name, n.id)

theorem mem_declared {nodes : List (WorkflowNode κ)} {n : WorkflowNode κ} (hn : n ∈ nodes) {name : String}
    (h : name ∈ n.outputs.map NodeOutput.name) : (name, n.id) ∈ declared nodes := by
  obtain ⟨o, ho, rfl⟩ := List.mem_map.1 h
  exact List.mem_flatMap.2 ⟨n, hn, List.mem_map_of_mem ho⟩

theorem declareOutputs_ok {nodeId : String} {owners owners' : Owners} {outputs : List NodeOutput}
    (h : declareOutputs nodeId owners outputs = .ok owners') (hn : (owners.map Prod.fst).Nodup) :
    owners' = owners ++ outputs.map (fun o => (o.name, nodeId)) ∧ (owners'.map Prod.fst).Nodup := by
  induction outputs generalizing owners with
  | nil =>
    obtain rfl := Except.ok.inj h
    exact ⟨(List.append_nil _).symm, hn⟩
  | cons o outputs ih =>
    rw [declareOutputs] at h
    split at h
    · cases h
    · next hfree =>
      have hfree : o.name ∉ owners.map Prod.fst := by
        intro hm
        obtain ⟨p, hp, hname⟩ := List.mem_map.1 hm
        have hnone := List.lookup_eq_none_iff.1 (Option.not_isSome_iff_eq_none.1 hfree) p hp
        simp [hname] at hnone
      obtain ⟨rfl, hn'⟩ := ih h (by
        rw [List.map_append]
        exact hn.append (List.nodup_singleton _) (List.disjoint_singleton.2 hfree))
      exact ⟨by simp, hn'⟩

/-- The bindings of a node are checked against what is declared up to it. -/
theorem checkNodes_ok {d : WorkflowDefinition κ} {owners : Owners} {nodes : List (WorkflowNode κ)}
    (h : checkNodes d owners nodes = .ok ()) (hn : (owners.map Prod.fst).Nodup) :
    ((owners ++ declared nodes).map Prod.fst).Nodup ∧ ∀ l n l', nodes = l ++ n :: l' →
      checkInputs (owners ++ declared (l ++ [n])) (ancestors d.edges n.id) n.inputs = .ok () := by
  induction nodes generalizing owners with
  | nil => exact ⟨by simpa [declared] using hn, fun l n l' hl => by cases l <;> cases hl⟩
  | cons m nodes ih =>
    rw [checkNodes] at h
    split at h
    · cases h
    · next owners' hm =>
      unfold checkNode at hm
      split at hm
      · cases hm
      · next owners'' ho =>
        obtain ⟨rfl, hn'⟩ := declareOutputs_ok ho hn
        split at hm
        · cases hm
        · split at hm
          · cases hm
          · next hi =>
            obtain rfl := Except.ok.inj hm
            obtain ⟨hnodup, hrest⟩ := ih h hn'
            refine ⟨by simpa [declared] using hnodup, fun l n l' hl => ?_⟩
            cases l with
            | nil =>
              obtain ⟨rfl, rfl⟩ := List.cons.inj hl
              simpa [declared] using hi
            | cons k l =>
              obtain ⟨rfl, htail⟩ := List.cons.inj hl
              simpa [declared] using hrest l n l' htail

theorem validate_ok {d : WorkflowDefinition κ} (h : validateWorkflowDefinition d = .ok ()) :
    checkNodes d [] d.nodes = .ok () := by
  unfold validateWorkflowDefinition at h
  dsimp only at h
  split at h
  · cases h
  · split at h
    · cases h
    · split at h
      · cases h
      · split at h
        · cases h
        · split at h
          · cases h
          · exact h

theorem checkInput_of_checkInputs {owners : Owners} {anc : List String} {inputs : List NodeInput}
    (h : checkInputs owners anc inputs = .ok ()) : ∀ i ∈ inputs, checkInput owners anc i = .ok () := by
  induction inputs with
  | nil => nofun
  | cons j inputs ih =>
    rw [checkInputs] at h
    split at h
    · cases h
    · next hj =>
      intro i hi
      rcases List.mem_cons.1 hi with rfl | hi
      · exact hj
      · exact ih h i hi

/-- A binding of a declared name is one of its owner, and the owner an ancestor. -/
theorem from_of_checkInput {owners : Owners} {i : NodeInput} {consumer owner : String}
    (hn : (owners.map Prod.fst).Nodup) (h : checkInput owners (ancestors edges consumer) i = .ok ())
    (hk : i.kind = .artifact) (ho : (i.name, owner) ∈ owners) : i.From edges consumer owner := by
  have hlookup : owners.lookup i.name = some owner := by
    cases hl : owners.lookup i.name with
    | none =>
      have hnone := List.lookup_eq_none_iff.1 hl _ ho
      simp at hnone
    | some o =>
      obtain ⟨l, l', rfl, -⟩ := List.lookup_eq_some_iff.1 hl
      have hmem : (i.name, o) ∈ l ++ (i.name, o) :: l' := List.mem_append_right _ List.mem_cons_self
      rw [(Prod.mk.inj (List.inj_on_of_nodup_map hn hmem ho rfl)).2]
  simp only [checkInput, hk, hlookup, ne_eq, not_true_eq_false, if_false] at h
  split at h
  · cases h
  · next hown =>
    split at h
    · cases h
    · next hanc =>
      unfold NodeInput.From
      split
      · next f hf =>
        rw [hf] at hown
        simp only [Option.any_some, decide_eq_true_eq, not_not] at hown
        exact hown.symm
      · exact mem_ancestors_iff.1 (not_not.1 hanc)

theorem topologicalOrder_subset {nodes order : List (WorkflowNode κ)}
    (h : topologicalOrder nodes edges = .ok order) : order ⊆ nodes := by
  unfold topologicalOrder at h
  dsimp only at h
  split at h
  · cases h
  · split at h
    · cases h
    · obtain rfl := Except.ok.inj h
      intro n hn
      obtain ⟨i, -, hi⟩ := List.mem_filterMap.1 hn
      exact List.mem_reverse.1 (List.mem_of_find?_eq_some hi)

theorem runNode_runs {n : WorkflowNode κ} (h : runNode x s n = .error s' ∨ runNode x s n = .ok s') :
    ∀ r ∈ s'.runs, r ∈ s.runs ∨ r.node = n := by
  have hcalled : ∀ q : NodeRun κ, q.node = n → ∀ r ∈ s.runs ++ [q], r ∈ s.runs ∨ r.node = n := by
    intro q hq r hr
    refine (List.mem_append.1 hr).imp_right fun hr => ?_
    rw [List.mem_singleton.1 hr, hq]
  unfold runNode at h
  cases hin : inputArtifacts s.artifacts n.inputs with
  | error m =>
    simp only [hin, Except.error.injEq, reduceCtorEq, or_false] at h
    subst h
    exact fun r hr => .inl hr
  | ok handed =>
    simp only [hin] at h
    generalize x.runner _ = result at h
    cases result with
    | error m =>
      simp only [Except.error.injEq, reduceCtorEq, or_false] at h
      subst h
      exact hcalled _ rfl
    | ok produced =>
      cases hc : collect n.id s.artifacts produced with
      | error e =>
        simp only [RunState.called, hc, Except.error.injEq, reduceCtorEq, or_false] at h
        subst h
        exact hcalled _ rfl
      | ok artifacts =>
        simp only [RunState.called, hc, Except.ok.injEq, reduceCtorEq, false_or] at h
        subst h
        exact hcalled _ rfl

theorem runNodes_runs {nodes : List (WorkflowNode κ)}
    (h : runNodes x s nodes = .error s' ∨ runNodes x s nodes = .ok s') :
    ∀ r ∈ s'.runs, r ∈ s.runs ∨ r.node ∈ nodes := by
  induction nodes generalizing s with
  | nil =>
    rcases h with h | h
    · cases h
    · obtain rfl := Except.ok.inj h
      exact fun r hr => .inl hr
  | cons n nodes ih =>
    rw [runNodes] at h
    cases hn : runNode x s n with
    | error t =>
      rw [hn] at h
      rcases h with h | h
      · obtain rfl := Except.error.inj h
        intro r hr
        exact (runNode_runs (.inl hn) r hr).imp_right fun hr => List.mem_cons.2 (.inl hr)
      · cases h
    | ok t =>
      rw [hn] at h
      intro r hr
      rcases ih h r hr with hr | hr
      · exact (runNode_runs (.inr hn) r hr).imp_right fun hr => List.mem_cons.2 (.inl hr)
      · exact .inr (List.mem_cons_of_mem _ hr)

/-- Where every bound name is declared by the node itself or one listed before it, an accepted definition is enough for
a runner that keeps to the declared outputs. -/
theorem sourced_of_declared {d : WorkflowDefinition κ} (h : executeWorkflowGraph x d = .ok s)
    (hp : ∀ r ∈ s.runs, ∀ item ∈ r.produced, item.isNonEmpty → item.name ∈ r.node.outputs.map NodeOutput.name)
    (hl : ∀ l n l', d.nodes = l ++ n :: l' → ∀ i ∈ n.inputs, i.kind = .artifact →
      ∃ m ∈ l ++ [n], i.name ∈ m.outputs.map NodeOutput.name) : ∀ r ∈ s.runs, r.Sourced d.edges := by
  rw [sourced_iff h]
  rcases execute_cases h with hr | ⟨order, t, hv, ho, ht, hr⟩
  · rw [hr]
    exact .nil
  have hnodes : ∀ r ∈ s.runs, r.node ∈ d.nodes := by
    rw [hr]
    exact fun r hr => topologicalOrder_subset ho ((runNodes_runs ht r hr).resolve_left List.not_mem_nil)
  obtain ⟨hnodup, hchecked⟩ := checkNodes_ok (validate_ok hv) List.nodup_nil
  rw [List.nil_append] at hnodup
  refine List.pairwise_of_forall_mem_list fun m hm r hr item hitem hne i hi hk hname => ?_
  obtain ⟨l, l', hsplit⟩ := List.append_of_mem (hnodes r hr)
  obtain ⟨o, ho, hio⟩ := hl l r.node l' hsplit i hi hk
  have hchecked := checkInput_of_checkInputs (hchecked l r.node l' hsplit) i hi
  have hparts : declared d.nodes = declared (l ++ [r.node]) ++ declared l' := by
    rw [hsplit]
    simp [declared]
  have howner : (i.name, m.node.id) ∈ declared d.nodes := by
    rw [hname]
    exact mem_declared (hnodes m hm) (hp m hm item hitem hne)
  have hlisted := mem_declared ho hio
  have hlisted' : (i.name, o.id) ∈ declared d.nodes := by
    rw [hparts]
    exact List.mem_append_left _ hlisted
  have hsame : o.id = m.node.id := (Prod.mk.inj (List.inj_on_of_nodup_map hnodup hlisted' howner rfl)).2
  rw [hsame] at hlisted
  refine from_of_checkInput ?_ hchecked hk hlisted
  rw [hparts, List.map_append] at hnodup
  exact (List.nodup_append.1 hnodup).1

end Model

/-! ### Runs -/

/-- `copy` reads the brief of `audit`, and `brand` has nothing to do with either. -/
def copyAfterAudit : WorkflowDefinition String where
  nodes := [⟨"audit", "advisor", [], [], [], .failRun⟩, ⟨"brand", "advisor", [], [], [], .failRun⟩,
    ⟨"copy", "advisor", [⟨.artifact, "brief", some "audit"⟩], [], [], .failRun⟩]
  edges := [⟨"audit", "copy"⟩]
  knownPresetKeys := ["advisor"]
  presetAllowlists := fun _ => some []
  entryNodeIds := none

/-- The node `author` writes a brief, and `copy` the final file. -/
def briefFrom (author : String) : Execution String where
  runId := "run"
  projectId := "project"
  modelKey := "model"
  runner := fun ctx => .ok (
    if ctx.node.id = author then [⟨"brief", .db, "text", "", none⟩]
    else if ctx.node.id = "copy" then [⟨"copy.txt", .oss, "", "copy.txt", some 12⟩] else [])

theorem sourced_from_audit : ∃ s, executeWorkflowGraph (briefFrom "audit") copyAfterAudit = .ok s ∧
    s.status = .succeeded ∧ ∀ r ∈ s.runs, r.Sourced copyAfterAudit.edges := by
  obtain ⟨s, hs, hp⟩ := ok_of_any (r := executeWorkflowGraph (briefFrom "audit") copyAfterAudit)
    (p := fun s => decide (s.status = .succeeded ∧ s.runs.Pairwise (NodeRun.Serves copyAfterAudit.edges)))
    (by decide +kernel)
  obtain ⟨hstatus, hserves⟩ := of_decide_eq_true hp
  exact ⟨s, hs, hstatus, (sourced_iff hs).2 hserves⟩

/-- The brief of `brand` is handed to `copy` as the one of `audit`. -/
theorem not_sourced : ¬ ∀ (x : Execution String) (d : WorkflowDefinition String) (s : RunState String),
    executeWorkflowGraph x d = .ok s → ∀ r ∈ s.runs, r.Sourced d.edges := by
  intro h
  obtain ⟨s, hs, hp⟩ := ok_of_any (r := executeWorkflowGraph (briefFrom "brand") copyAfterAudit)
    (p := fun s => decide (s.status = .succeeded ∧ ¬ ∀ r ∈ s.runs, r.Sourced copyAfterAudit.edges))
    (by decide +kernel)
  exact (of_decide_eq_true hp).2 (h _ _ s hs)

end NexusStudio.Workshop.Workflow
