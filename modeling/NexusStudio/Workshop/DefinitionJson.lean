import Mathlib
import NexusStudio.Workshop.RunExecution

/-!
# The JSON of a workflow definition

`definition_to_jsonable` and `parse_definition_graph`, with the dataclasses of nodes and edges.

* (dataclasses) What a constructor leaves is part of the types: stripped texts that are not empty, known kinds, edges
  between different nodes. A constructor that gets the fields of a value gives the value back.
* (round trip) Every field is written, and read back by its own constructor; `from_node_id` is left out where there is
  none.
* (execution) What a run reads of a stored definition is the definition without its titles and instructions.
-/

namespace NexusStudio.DefinitionJson

open JsonText AuthorizedOperations
open ProjectBrief (Fields capabilityValue)
open RunExecution (Python text orEmpty falsy dict? list? parseAll parseCapability)
open Workshop.Workflow (ArtifactStorageType OnFailure)

/-! ### Texts -/

/-- What the checks of the dataclasses leave of a required text. -/
structure Name where
  text : String
  stripped : strip text = text
  nonempty : text ≠ ""
  deriving DecidableEq

def Name.new (message s : String) : Except String Name :=
  if h : strip s = "" then .error message else .ok ⟨strip s, strip_strip s, h⟩

@[simp] theorem Name.new_text (message : String) (n : Name) : Name.new message n.text = .ok n := by
  obtain ⟨s, hs, hne⟩ := n
  simp only [Name.new, hs, dif_neg hne]

/-! ### Dataclasses -/

inductive NodeInput
  | artifact (name : Name) (fromNodeId : Option Name)
  | projectBrief (name : String) (fromNodeId : Option String)
  deriving DecidableEq

namespace NodeInput

def kind : NodeInput → String
  | artifact .. => "artifact"
  | projectBrief .. => "project_brief"

def name : NodeInput → String
  | artifact name _ => name.text
  | projectBrief name _ => name

def fromNodeId : NodeInput → Option String
  | artifact _ fromNodeId => fromNodeId.map Name.text
  | projectBrief _ fromNodeId => fromNodeId

def new (kind name : String) (fromNodeId : Option String) : Except String NodeInput :=
  if strip kind = "project_brief" then .ok (projectBrief name fromNodeId)
  else if strip kind ≠ "artifact" then
    let kind := strip kind
    .error s!"unsupported input kind: {kind}"
  else do
    let name ← Name.new "artifact input name required" name
    match fromNodeId with
    | none => return artifact name none
    | some f => return artifact name (some (← Name.new "from_node_id required when set" f))

theorem new_self (i : NodeInput) : new i.kind i.name i.fromNodeId = .ok i := by
  have hbrief : strip "project_brief" = "project_brief" := by decide
  have hartifact : strip "artifact" = "artifact" := by decide
  cases i with
  | projectBrief name f => simp [new, kind, NodeInput.name, fromNodeId, hbrief]
  | artifact name f =>
    cases f with
    | none => simp [new, kind, NodeInput.name, fromNodeId, hartifact, bind, Except.bind, pure, Except.pure]
    | some f => simp [new, kind, NodeInput.name, fromNodeId, hartifact, bind, Except.bind, pure, Except.pure]

end NodeInput

structure NodeOutput where
  name : Name
  storageType : ArtifactStorageType
  required : Bool
  deriving DecidableEq

structure NodeAssignee where
  presetKey : Name
  deriving DecidableEq

structure WorkflowNode where
  id : Name
  title : Name
  instruction : Name
  assignee : NodeAssignee
  inputs : List NodeInput
  outputs : List NodeOutput
  externalCapabilities : List Capability
  onFailure : OnFailure
  deriving DecidableEq

structure WorkflowEdge where
  fromId : Name
  toId : Name
  distinct : fromId ≠ toId
  deriving DecidableEq

def NodeOutput.new (name : String) (storageType : ArtifactStorageType) (required : Bool) : Except String NodeOutput :=
  (Name.new "output name required" name).map fun name => ⟨name, storageType, required⟩

def NodeAssignee.new (presetKey : String) : Except String NodeAssignee :=
  (Name.new "assignee.preset_key required" presetKey).map fun presetKey => ⟨presetKey⟩

def onFailureText : OnFailure → String
  | .failRun => "fail_run"
  | .block => "block"

def WorkflowNode.new (id title instruction : String) (assignee : NodeAssignee) (inputs : List NodeInput)
    (outputs : List NodeOutput) (externalCapabilities : List Capability) (onFailure : String) :
    Except String WorkflowNode := do
  let id ← Name.new "node id required" id
  let title ← Name.new "node title required" title
  let instruction ← Name.new "node instruction required" instruction
  match [OnFailure.failRun, .block].find? fun f => onFailureText f = onFailure with
  | none => throw s!"unsupported on_failure: {onFailure}"
  | some onFailure => return ⟨id, title, instruction, assignee, inputs, outputs, externalCapabilities, onFailure⟩

def WorkflowEdge.new (fromId toId : String) : Except String WorkflowEdge := do
  let fromId ← Name.new "edge endpoints required" fromId
  let toId ← Name.new "edge endpoints required" toId
  if h : fromId = toId then throw "self-loop edge forbidden" else return ⟨fromId, toId, h⟩

theorem NodeOutput.new_self (o : NodeOutput) : new o.name.text o.storageType o.required = .ok o := by
  rw [new, Name.new_text]
  rfl

theorem NodeAssignee.new_self (a : NodeAssignee) : new a.presetKey.text = .ok a := by
  rw [new, Name.new_text]
  rfl

theorem WorkflowNode.new_self (n : WorkflowNode) : new n.id.text n.title.text n.instruction.text n.assignee n.inputs
    n.outputs n.externalCapabilities (onFailureText n.onFailure) = .ok n := by
  simp only [new, Name.new_text, bind, Except.bind]
  obtain ⟨_, _, _, _, _, _, _, onFailure⟩ := n
  cases onFailure with
  | failRun => rfl
  | block => rfl

theorem WorkflowEdge.new_self (e : WorkflowEdge) : new e.fromId.text e.toId.text = .ok e := by
  simp only [new, Name.new_text, bind, Except.bind, dif_neg e.distinct]
  rfl

/-! ### Writing -/

section Json

variable {ν : Type} (P : Python ν)

def storageText : ArtifactStorageType → String
  | .db => "db"
  | .oss => "oss"
  | .filesystem => "filesystem"

def inputJson (i : NodeInput) : Fields ν := fieldsOf (
  [("kind", .string i.kind), ("name", .string i.name)] ++
    i.fromNodeId.toList.map fun f => ("from_node_id", .string f))

def outputJson (o : NodeOutput) : Fields ν := fieldsOf [
  ("name", .string o.name.text),
  ("storage_type", .string (storageText o.storageType)),
  ("required", .bool o.required)]

def nodeJson (n : WorkflowNode) : Fields ν := fieldsOf [
  ("id", .string n.id.text),
  ("title", .string n.title.text),
  ("instruction", .string n.instruction.text),
  ("assignee", .dict (fieldsOf [("preset_key", .string n.assignee.presetKey.text)])),
  ("inputs", .array (n.inputs.map fun i => .dict (inputJson i))),
  ("outputs", .array (n.outputs.map fun o => .dict (outputJson o))),
  ("external_capabilities", .array (n.externalCapabilities.map fun c => .string (capabilityValue c))),
  ("on_failure", .string (onFailureText n.onFailure))]

def edgeJson (e : WorkflowEdge) : Fields ν := fieldsOf [
  ("from", .string e.fromId.text),
  ("to", .string e.toId.text)]

/-- What `parse_definition_graph` returns. -/
structure Definition where
  nodes : List WorkflowNode
  edges : List WorkflowEdge
  entryNodeIds : Option (List String)
  modelKey : String

def NodeInput.workflow : NodeInput → Workshop.Workflow.NodeInput
  | artifact name fromNodeId => ⟨.artifact, name.text, fromNodeId.map Name.text⟩
  | projectBrief name fromNodeId => ⟨.projectBrief, name, fromNodeId⟩

def WorkflowNode.workflow (n : WorkflowNode) : Workshop.Workflow.WorkflowNode Capability where
  id := n.id.text
  presetKey := n.assignee.presetKey.text
  inputs := n.inputs.map NodeInput.workflow
  outputs := n.outputs.map fun o => ⟨o.name.text⟩
  externalCapabilities := n.externalCapabilities
  onFailure := n.onFailure

def WorkflowEdge.workflow (e : WorkflowEdge) : Workshop.Workflow.WorkflowEdge := ⟨e.fromId.text, e.toId.text⟩

/-- The definition without its titles and instructions, as the validation knows it. -/
def Definition.workflow (d : Definition) (knownPresetKeys : List String)
    (presetAllowlists : String → Option (List Capability)) : Workshop.Workflow.WorkflowDefinition Capability where
  nodes := d.nodes.map WorkflowNode.workflow
  edges := d.edges.map WorkflowEdge.workflow
  knownPresetKeys := knownPresetKeys
  presetAllowlists := presetAllowlists
  entryNodeIds := d.entryNodeIds

def definitionToJsonable (d : Definition) : Except String (Fields ν) :=
  let key := strip d.modelKey
  if key = "" then .error "model_key required"
  else
    let payload := fieldsOf [
      ("model_key", .string key),
      ("nodes", .array (d.nodes.map fun n => .dict (nodeJson n))),
      ("edges", .array (d.edges.map fun e => .dict (edgeJson e)))]
    match d.entryNodeIds with
    | none => .ok payload
    | some ids => .ok (insertField "entry_node_ids" (.array (ids.map .string)) payload)

/-! ### Reading -/

def parseInput (fields : Fields ν) : Except String NodeInput :=
  NodeInput.new (text P fields "kind" "") (text P fields "name" "") (
    match fields.lookup "from_node_id" with
    | none | some .null => none
    | some v => some (P.str v))

def parseStorageType (s : String) : Except String ArtifactStorageType :=
  match [ArtifactStorageType.db, .oss, .filesystem].find? fun t => storageText t = s with
  | some t => .ok t
  | none =>
    let quoted := P.repr s
    .error s!"{quoted} is not a valid WorkshopArtifactStorageType"

def parseOutput (fields : Fields ν) : Except String NodeOutput := do
  let storageType ← parseStorageType P (text P fields "storage_type" "None")
  NodeOutput.new (text P fields "name" "") storageType (((fields.lookup "required").map fun v => !falsy P v).getD true)

def parseNode (item : Value ν) : Except String WorkflowNode := do
  let some fields := dict? item | throw "node must be object"
  let some assignee := (fields.lookup "assignee").bind dict? | throw "assignee required"
  let some inputsRaw := list? (orEmpty P fields "inputs") | throw "inputs/outputs must be lists"
  let some outputsRaw := list? (orEmpty P fields "outputs") | throw "inputs/outputs must be lists"
  let some capsRaw := list? (orEmpty P fields "external_capabilities") | throw "external_capabilities must be list"
  let inputs ← parseAll (parseInput P) "input must be object" inputsRaw
  let outputs ← parseAll (parseOutput P) "output must be object" outputsRaw
  let caps ← capsRaw.mapM (parseCapability P)
  let assignee ← NodeAssignee.new (text P assignee "preset_key" "")
  WorkflowNode.new (text P fields "id" "") (text P fields "title" "") (text P fields "instruction" "") assignee inputs
    outputs caps (text P fields "on_failure" "fail_run")

def parseEdge (fields : Fields ν) : Except String WorkflowEdge :=
  WorkflowEdge.new (text P fields "from" "") (text P fields "to" "")

def parseEntries (fields : Fields ν) : Except String (Option (List String)) :=
  match fields.lookup "entry_node_ids" with
  | none | some .null => .ok none
  | some (.array l) => .ok (some (l.map P.str))
  | some _ => .error "entry_node_ids must be list"

def parseDefinitionGraph (raw : Value ν) : Except String Definition := do
  let some fields := dict? raw | throw "definition must be object"
  let modelKey := strip (text P fields "model_key" "")
  if modelKey = "" then throw "model_key required"
  let some (node :: nodesRaw) := (fields.lookup "nodes").bind list? | throw "nodes required"
  let some edgesRaw := (fields.lookup "edges").bind list? | throw "edges required"
  let nodes ← (node :: nodesRaw).mapM (parseNode P)
  let edges ← parseAll (parseEdge P) "edge must be object" edgesRaw
  let entry ← parseEntries P fields
  return ⟨nodes, edges, entry, modelKey⟩

/-! ### Round trip -/

section RoundTrip

variable {P}

/-- A later entry of a dict display wins. -/
theorem lookup_fieldsOf (l : List (String × Value ν)) (k : String) : (fieldsOf l).lookup k = l.reverse.lookup k := by
  have hfold : ∀ d : List (String × Value ν),
      (l.foldl (fun d f => insertField f.1 f.2 d) d).lookup k = (l.reverse.lookup k).or (d.lookup k) := by
    induction l with
    | nil => exact fun d => rfl
    | cons f l ih =>
      intro d
      obtain ⟨k', v⟩ := f
      rw [List.foldl_cons, ih, List.reverse_cons, List.lookup_append, lookup_insertField, Option.or_assoc]
      by_cases hk : k = k'
      · rw [if_pos hk, hk, List.lookup_cons_self, Option.some_or]
      · rw [if_neg hk, List.lookup_cons, beq_false_of_ne hk, List.lookup_nil, Option.none_or]
  rw [fieldsOf, hfold, List.lookup_nil, Option.or_none]

theorem mapM_map {α β : Type} {f : α → β} {g : β → Except String α} {l : List α} (h : ∀ a ∈ l, g (f a) = .ok a) :
    (l.map f).mapM g = .ok l := by
  induction l with
  | nil => rfl
  | cons a l ih =>
    rw [List.map_cons, List.mapM_cons, h a List.mem_cons_self, ih fun b hb => h b (List.mem_cons_of_mem _ hb)]
    rfl

theorem parseAll_map {α : Type} {json : α → Fields ν} {parse : Fields ν → Except String α} {message : String}
    (h : ∀ a, parse (json a) = .ok a) (l : List α) :
    parseAll parse message (l.map fun a => .dict (json a)) = .ok l := by
  have hread : (l.map fun a => Value.dict (json a)).filterMap dict? = l.map json := by
    rw [List.filterMap_map]
    exact congrFun (List.filterMap_eq_map' (f := json)) l
  rw [parseAll, hread, mapM_map fun a _ => h a]
  simp [bind, Except.bind, pure, Except.pure]

variable (hstr : ∀ s, P.str (.string s) = s)
include hstr

theorem text_of_lookup {fields : Fields ν} {key default s : String} (h : fields.lookup key = some (.string s)) :
    text P fields key default = s := by
  rw [text, h, Option.map_some, hstr, Option.getD_some]

theorem parseInput_inputJson (i : NodeInput) : parseInput P (inputJson i) = .ok i := by
  have hkind : (inputJson (ν := ν) i).lookup "kind" = some (.string i.kind) := by
    rw [inputJson, lookup_fieldsOf]
    cases i.fromNodeId <;> rfl
  have hname : (inputJson (ν := ν) i).lookup "name" = some (.string i.name) := by
    rw [inputJson, lookup_fieldsOf]
    cases i.fromNodeId <;> rfl
  have hfrom : (inputJson (ν := ν) i).lookup "from_node_id" = i.fromNodeId.map .string := by
    rw [inputJson, lookup_fieldsOf]
    cases i.fromNodeId <;> rfl
  rw [parseInput, text_of_lookup hstr hkind, text_of_lookup hstr hname, hfrom]
  have hself := i.new_self
  cases hf : i.fromNodeId with
  | none => rwa [hf] at hself
  | some f =>
    rw [hf] at hself
    simpa only [Option.map_some, hstr] using hself

theorem parseOutput_outputJson (o : NodeOutput) : parseOutput P (outputJson o) = .ok o := by
  have hlookup := lookup_fieldsOf (ν := ν) [
    ("name", .string o.name.text), ("storage_type", .string (storageText o.storageType)),
    ("required", .bool o.required)]
  have hname : (outputJson (ν := ν) o).lookup "name" = some (.string o.name.text) := hlookup "name"
  have hstorage : (outputJson (ν := ν) o).lookup "storage_type" = some (.string (storageText o.storageType)) :=
    hlookup "storage_type"
  have hrequired : (outputJson (ν := ν) o).lookup "required" = some (.bool o.required) := hlookup "required"
  have htype : parseStorageType P (storageText o.storageType) = .ok o.storageType := by
    cases o.storageType <;> rfl
  rw [parseOutput, text_of_lookup hstr hname, text_of_lookup hstr hstorage, hrequired, htype]
  simp only [bind, Except.bind, Option.map_some, Option.getD_some, falsy, Bool.not_not]
  exact o.new_self

theorem parseCapability_value (c : Capability) : parseCapability P (.string (capabilityValue c)) = .ok c := by
  rw [parseCapability, hstr]
  cases c <;> rfl

omit hstr in
theorem orEmpty_of_lookup {fields : Fields ν} {key : String} {l : List (Value ν)}
    (h : fields.lookup key = some (.array l)) : orEmpty P fields key = .array l := by
  rw [orEmpty, h]
  cases l <;> rfl

theorem parseNode_nodeJson (n : WorkflowNode) : parseNode P (.dict (nodeJson n)) = .ok n := by
  have hlookup : ∀ k, (nodeJson (ν := ν) n).lookup k = _ := lookup_fieldsOf _
  have hid : (nodeJson (ν := ν) n).lookup "id" = some (.string n.id.text) := hlookup "id"
  have htitle : (nodeJson (ν := ν) n).lookup "title" = some (.string n.title.text) := hlookup "title"
  have hinstruction : (nodeJson (ν := ν) n).lookup "instruction" = some (.string n.instruction.text) :=
    hlookup "instruction"
  have hassignee : (nodeJson (ν := ν) n).lookup "assignee" =
    some (.dict (fieldsOf [("preset_key", .string n.assignee.presetKey.text)])) := hlookup "assignee"
  have hinputs : (nodeJson (ν := ν) n).lookup "inputs" = some (.array (n.inputs.map fun i => .dict (inputJson i))) :=
    hlookup "inputs"
  have houtputs : (nodeJson (ν := ν) n).lookup "outputs" =
    some (.array (n.outputs.map fun o => .dict (outputJson o))) := hlookup "outputs"
  have hcaps : (nodeJson (ν := ν) n).lookup "external_capabilities" =
    some (.array (n.externalCapabilities.map fun c => .string (capabilityValue c))) := hlookup "external_capabilities"
  have honFailure : (nodeJson (ν := ν) n).lookup "on_failure" = some (.string (onFailureText n.onFailure)) :=
    hlookup "on_failure"
  have hpreset : (fieldsOf [("preset_key", Value.string (ν := ν) n.assignee.presetKey.text)]).lookup "preset_key" =
    some (.string n.assignee.presetKey.text) := lookup_fieldsOf _ _
  simp only [parseNode, dict?, hassignee, Option.bind_some, orEmpty_of_lookup hinputs, orEmpty_of_lookup houtputs,
    orEmpty_of_lookup hcaps, list?, parseAll_map (parseInput_inputJson hstr),
    parseAll_map (parseOutput_outputJson hstr), mapM_map fun c _ => parseCapability_value hstr c,
    text_of_lookup hstr hpreset, n.assignee.new_self, text_of_lookup hstr hid, text_of_lookup hstr htitle,
    text_of_lookup hstr hinstruction, text_of_lookup hstr honFailure, bind, Except.bind]
  exact n.new_self

theorem parseEdge_edgeJson (e : WorkflowEdge) : parseEdge P (edgeJson e) = .ok e := by
  have hfrom : (edgeJson (ν := ν) e).lookup "from" = some (.string e.fromId.text) := lookup_fieldsOf _ _
  have hto : (edgeJson (ν := ν) e).lookup "to" = some (.string e.toId.text) := lookup_fieldsOf _ _
  rw [parseEdge, text_of_lookup hstr hfrom, text_of_lookup hstr hto]
  exact e.new_self

omit hstr in
/-- The fields of an encoded definition. -/
theorem payload_lookup {d : Definition} {fields : Fields ν} (h : definitionToJsonable d = .ok fields) :
    fields.lookup "model_key" = some (.string (strip d.modelKey)) ∧
      fields.lookup "nodes" = some (.array (d.nodes.map fun n => .dict (nodeJson n))) ∧
      fields.lookup "edges" = some (.array (d.edges.map fun e => .dict (edgeJson e))) ∧
      fields.lookup "entry_node_ids" = d.entryNodeIds.map fun ids => .array (ids.map .string) := by
  unfold definitionToJsonable at h
  dsimp only at h
  split at h
  · cases h
  · cases hentry : d.entryNodeIds with
    | none =>
      rw [hentry] at h
      obtain rfl := Except.ok.inj h
      exact ⟨lookup_fieldsOf _ _, lookup_fieldsOf _ _, lookup_fieldsOf _ _, lookup_fieldsOf _ _⟩
    | some ids =>
      rw [hentry] at h
      obtain rfl := Except.ok.inj h
      simp only [lookup_insertField]
      exact ⟨lookup_fieldsOf _ _, lookup_fieldsOf _ _, lookup_fieldsOf _ _, rfl⟩

theorem parse_payload {d : Definition} {fields : Fields ν} (hn : d.nodes ≠ []) (hk : strip d.modelKey ≠ "")
    (h : definitionToJsonable d = .ok fields) :
    parseDefinitionGraph P (.dict fields) = .ok { d with modelKey := strip d.modelKey } := by
  obtain ⟨hkey, hnodes, hedges, hentry⟩ := payload_lookup h
  have hentries : parseEntries P fields = .ok d.entryNodeIds := by
    rw [parseEntries, hentry]
    cases d.entryNodeIds with
    | none => rfl
    | some ids => simp [Function.comp_def, hstr]
  have hread := mapM_map (f := fun n => Value.dict (nodeJson n)) (l := d.nodes) fun n _ => parseNode_nodeJson hstr n
  obtain ⟨n, nodes, hcons⟩ := List.exists_cons_of_ne_nil hn
  rw [hcons, List.map_cons] at hread hnodes
  simp only [parseDefinitionGraph, dict?, text_of_lookup hstr hkey, strip_strip, if_neg hk, hnodes, hedges,
    Option.bind_some, list?, hread, parseAll_map (parseEdge_edgeJson hstr), hentries, bind, Except.bind, pure,
    Except.pure, hcons]

/-- What is written of a definition is read as the definition, with its model key stripped, and is written again of
that; so it is as valid as before. -/
theorem parse_definition (d : Definition) (hn : d.nodes ≠ []) (hk : strip d.modelKey ≠ "") :
    ∃ (fields : Fields ν) (parsed : Definition), definitionToJsonable d = .ok fields ∧
      parseDefinitionGraph P (.dict fields) = .ok parsed ∧ parsed = { d with modelKey := strip d.modelKey } ∧
      definitionToJsonable parsed = .ok fields ∧ ∀ keys allowlists,
        Workshop.Workflow.validateWorkflowDefinition (parsed.workflow keys allowlists) =
          Workshop.Workflow.validateWorkflowDefinition (d.workflow keys allowlists) := by
  have hwritten : ∃ fields : Fields ν, definitionToJsonable d = .ok fields := by
    simp only [definitionToJsonable, if_neg hk]
    cases d.entryNodeIds <;> exact ⟨_, rfl⟩
  obtain ⟨fields, hfields⟩ := hwritten
  refine ⟨fields, _, hfields, parse_payload hstr hn hk hfields, rfl, ?_, fun _ _ => rfl⟩
  rw [← hfields]
  simp only [definitionToJsonable, strip_strip]

end RoundTrip

/-! ### What a run reads -/

section Run

variable {P}

theorem Name.new_ok (message : String) {s : String} (h : strip s ≠ "") :
    ∃ n, Name.new message s = .ok n ∧ n.text = strip s :=
  ⟨⟨strip s, strip_strip s, h⟩, dif_neg h, rfl⟩

theorem Name.new_error {message s : String} (h : strip s = "") : Name.new message s = .error message := dif_pos h

theorem Name.new_cases (message s : String) : (strip s = "" ∧ Name.new message s = .error message) ∨
    ∃ n, Name.new message s = .ok n ∧ n.text = strip s ∧ strip s ≠ "" := by
  by_cases h : strip s = ""
  · exact .inl ⟨h, Name.new_error h⟩
  · obtain ⟨n, hn, htext⟩ := Name.new_ok message h
    exact .inr ⟨n, hn, htext, h⟩

theorem parseInput_workflow (fields : Fields ν) :
    RunExecution.parseInput P fields = (parseInput P fields).map NodeInput.workflow := by
  have hread : ∃ f : Option String, parseInput P fields =
      NodeInput.new (text P fields "kind" "") (text P fields "name" "") f ∧
      RunExecution.parseInput P fields =
        if strip (text P fields "kind" "") = "project_brief" then .ok ⟨.projectBrief, text P fields "name" "", f⟩
        else if strip (text P fields "kind" "") ≠ "artifact" then
          let kind := strip (text P fields "kind" "")
          .error s!"unsupported input kind: {kind}"
        else if strip (text P fields "name" "") = "" then .error "artifact input name required"
        else if f.map strip = some "" then .error "from_node_id required when set"
        else .ok ⟨.artifact, strip (text P fields "name" ""), f.map strip⟩ := by
    unfold parseInput RunExecution.parseInput
    cases fields.lookup "from_node_id" with
    | none => exact ⟨none, rfl, rfl⟩
    | some v =>
      cases v with
      | null => exact ⟨none, rfl, rfl⟩
      | _ => exact ⟨some _, rfl, rfl⟩
  obtain ⟨f, hparse, hrun⟩ := hread
  rw [hparse, hrun, NodeInput.new]
  by_cases hbrief : strip (text P fields "kind" "") = "project_brief"
  · rw [if_pos hbrief, if_pos hbrief]
    rfl
  rw [if_neg hbrief, if_neg hbrief]
  by_cases hkind : strip (text P fields "kind" "") ≠ "artifact"
  · rw [if_pos hkind, if_pos hkind]
    rfl
  rw [if_neg hkind, if_neg hkind]
  by_cases hname : strip (text P fields "name" "") = ""
  · rw [if_pos hname, Name.new_error hname]
    rfl
  rw [if_neg hname]
  obtain ⟨n, hn, htext⟩ := Name.new_ok "artifact input name required" hname
  rw [hn, ← htext]
  cases f with
  | none => rfl
  | some f =>
    by_cases hf : strip f = ""
    · rw [Option.map_some, hf, if_pos rfl]
      simp only [Name.new_error hf, bind, Except.bind]
      rfl
    · obtain ⟨m, hm, hmtext⟩ := Name.new_ok "from_node_id required when set" hf
      rw [if_neg (by simpa using hf)]
      simp only [hm, bind, Except.bind, Option.map_some, ← hmtext]
      rfl

theorem parseOutput_workflow (fields : Fields ν) :
    RunExecution.parseOutput P fields = (parseOutput P fields).map fun o => ⟨o.name.text⟩ := by
  unfold RunExecution.parseOutput parseOutput NodeOutput.new
  by_cases hs : text P fields "storage_type" "None" ∈ ["db", "oss", "filesystem"]
  · have htype : ∃ t, parseStorageType P (text P fields "storage_type" "None") = .ok t := by
      simp only [List.mem_cons, List.not_mem_nil, or_false] at hs
      rcases hs with hs | hs | hs <;> rw [hs] <;> exact ⟨_, rfl⟩
    obtain ⟨t, ht⟩ := htype
    rw [ht, if_neg (not_not.2 hs)]
    by_cases hname : strip (text P fields "name" "") = ""
    · rw [if_pos hname]
      simp only [Name.new_error hname, bind, Except.bind]
      rfl
    · obtain ⟨n, hn, htext⟩ := Name.new_ok "output name required" hname
      rw [if_neg hname]
      simp only [hn, ← htext, bind, Except.bind]
      rfl
  · have hnone : [ArtifactStorageType.db, .oss, .filesystem].find?
        (fun t => storageText t = text P fields "storage_type" "None") = none := by
      simp only [List.mem_cons, List.not_mem_nil, or_false, not_or] at hs
      simp [storageText, Ne.symm hs.1, Ne.symm hs.2.1, Ne.symm hs.2.2]
    rw [if_pos hs, parseStorageType, hnone]
    rfl

theorem parseEdge_workflow (fields : Fields ν) :
    RunExecution.parseEdge P fields = (parseEdge P fields).map WorkflowEdge.workflow := by
  unfold RunExecution.parseEdge parseEdge WorkflowEdge.new
  by_cases hfrom : strip (text P fields "from" "") = ""
  · rw [if_pos (.inl hfrom), Name.new_error hfrom]
    rfl
  obtain ⟨n, hn, hntext⟩ := Name.new_ok "edge endpoints required" hfrom
  by_cases hto : strip (text P fields "to" "") = ""
  · rw [if_pos (.inr hto), hn, Name.new_error hto]
    rfl
  obtain ⟨m, hm, hmtext⟩ := Name.new_ok "edge endpoints required" hto
  rw [if_neg (not_or.2 ⟨hfrom, hto⟩)]
  simp only [hn, hm, ← hntext, ← hmtext, bind, Except.bind]
  by_cases hsame : n = m
  · rw [if_pos (congrArg Name.text hsame), dif_pos hsame]
    rfl
  · have htexts : n.text ≠ m.text := fun h => hsame (by cases n; cases m; cases h; rfl)
    rw [if_neg htexts, dif_neg hsame]
    rfl

theorem mapM_workflow {α β γ : Type} {f : α → Except String γ} {g : α → Except String β} {w : β → γ}
    (h : ∀ a, f a = (g a).map w) (l : List α) : l.mapM f = (l.mapM g).map (List.map w) := by
  induction l with
  | nil => rfl
  | cons a l ih =>
    rw [List.mapM_cons, List.mapM_cons, h, ih]
    cases g a with
    | error e => rfl
    | ok b => cases l.mapM g <;> rfl

theorem parseAll_workflow {β γ : Type} {f : Fields ν → Except String γ} {g : Fields ν → Except String β} {w : β → γ}
    (h : ∀ a, f a = (g a).map w) (message : String) (items : List (Value ν)) :
    parseAll f message items = (parseAll g message items).map (List.map w) := by
  unfold parseAll
  rw [mapM_workflow h]
  cases (items.filterMap dict?).mapM g with
  | error e => rfl
  | ok read =>
    simp only [Except.map, bind, Except.bind, List.length_map]
    split <;> rfl

theorem parseNode_workflow (item : Value ν) :
    RunExecution.parseNode P item = (parseNode P item).map WorkflowNode.workflow := by
  unfold RunExecution.parseNode parseNode
  cases dict? item with
  | none => rfl
  | some fields =>
  dsimp only
  cases (fields.lookup "assignee").bind dict? with
  | none => rfl
  | some assignee =>
  dsimp only
  cases list? (orEmpty P fields "inputs") with
  | none => rfl
  | some inputsRaw =>
  dsimp only
  cases list? (orEmpty P fields "outputs") with
  | none => rfl
  | some outputsRaw =>
  dsimp only
  cases list? (orEmpty P fields "external_capabilities") with
  | none => rfl
  | some capsRaw =>
  dsimp only
  rw [parseAll_workflow parseInput_workflow, parseAll_workflow parseOutput_workflow]
  cases parseAll (parseInput P) "input must be object" inputsRaw with
  | error e => rfl
  | ok inputs =>
  cases parseAll (parseOutput P) "output must be object" outputsRaw with
  | error e => rfl
  | ok outputs =>
  cases capsRaw.mapM (parseCapability P) with
  | error e => rfl
  | ok caps =>
  simp only [Except.map, bind, Except.bind, NodeAssignee.new, WorkflowNode.new]
  rcases Name.new_cases "assignee.preset_key required" (text P assignee "preset_key" "") with
    ⟨hs, hk⟩ | ⟨key, hk, hs, hne⟩
  · simp only [hk, if_pos hs]
    rfl
  simp only [hk, if_neg hne]
  rcases Name.new_cases "node id required" (text P fields "id" "") with ⟨hs', hk⟩ | ⟨id, hk, hs', hne⟩
  · simp only [hk, if_pos hs']
    rfl
  simp only [hk, if_neg hne]
  rcases Name.new_cases "node title required" (text P fields "title" "") with ⟨hs'', hk⟩ | ⟨title, hk, -, hne⟩
  · simp only [hk, if_pos hs'']
    rfl
  simp only [hk, if_neg hne]
  rcases Name.new_cases "node instruction required" (text P fields "instruction" "") with
    ⟨hs'', hk⟩ | ⟨instruction, hk, -, hne⟩
  · simp only [hk, if_pos hs'']
    rfl
  simp only [hk, if_neg hne, ← hs, ← hs']
  by_cases hfail : text P fields "on_failure" "fail_run" = "fail_run"
  · rw [hfail]
    rfl
  rw [if_neg hfail]
  by_cases hblock : text P fields "on_failure" "fail_run" = "block"
  · rw [hblock]
    rfl
  have hnone : [OnFailure.failRun, .block].find? (fun f => onFailureText f = text P fields "on_failure" "fail_run") =
      none := by
    simp [onFailureText, Ne.symm hfail, Ne.symm hblock]
  rw [if_neg hblock, hnone]
  rfl

/-- A run reads the stored definition without its titles, its instructions and its entry nodes. -/
theorem parseDefinitionGraph_workflow (raw : Value ν) :
    RunExecution.parseDefinitionGraph P raw = (parseDefinitionGraph P raw).map fun d =>
      ⟨d.nodes.map WorkflowNode.workflow, d.edges.map WorkflowEdge.workflow, d.modelKey⟩ := by
  unfold RunExecution.parseDefinitionGraph parseDefinitionGraph RunExecution.parseGraph
  cases dict? raw with
  | none => rfl
  | some fields =>
  dsimp only
  by_cases hk : strip (text P fields "model_key" "") = ""
  · rw [if_pos hk, if_pos hk]
    rfl
  rw [if_neg hk, if_neg hk]
  cases (fields.lookup "nodes").bind list? with
  | none => rfl
  | some nodesRaw =>
  cases nodesRaw with
  | nil => rfl
  | cons node nodesRaw =>
  cases (fields.lookup "edges").bind list? with
  | none => rfl
  | some edgesRaw =>
  dsimp only
  rw [mapM_workflow parseNode_workflow, parseAll_workflow parseEdge_workflow]
  cases (node :: nodesRaw).mapM (parseNode P) with
  | error e => rfl
  | ok nodes =>
  cases parseAll (parseEdge P) "edge must be object" edgesRaw with
  | error e => rfl
  | ok edges =>
  simp only [Except.map, bind, Except.bind, parseEntries]
  cases fields.lookup "entry_node_ids" with
  | none => rfl
  | some v => cases v <;> rfl

end Run

end Json

/-! ### A stored definition -/

/-- `str` and `repr` of texts, where the other values do not matter. -/
def pythonTexts : Python Int where
  str
    | .string s => s
    | _ => ""
  repr s := s
  zero n := n = 0

def nameOf (s : String) (stripped : strip s = s) (nonempty : s ≠ "") : Name := ⟨s, stripped, nonempty⟩

/-- One node with a binding of each kind. -/
def auditDefinition : Definition where
  nodes := [{
    id := nameOf "audit" (by decide) (by decide)
    title := nameOf "Audit" (by decide) (by decide)
    instruction := nameOf "Read the brief" (by decide) (by decide)
    assignee := ⟨nameOf "advisor" (by decide) (by decide)⟩
    inputs := [.projectBrief " " none, .artifact (nameOf "brief" (by decide) (by decide)) none]
    outputs := [⟨nameOf "report" (by decide) (by decide), .db, false⟩]
    externalCapabilities := [.webSearch]
    onFailure := .block }]
  edges := []
  entryNodeIds := some ["audit "]
  modelKey := " model "

theorem parse_auditDefinition :
    ∃ (fields : Fields Int) (parsed : Definition), definitionToJsonable auditDefinition = .ok fields ∧
      parseDefinitionGraph pythonTexts (.dict fields) = .ok parsed ∧
      parsed = { auditDefinition with modelKey := strip auditDefinition.modelKey } ∧
      definitionToJsonable parsed = .ok fields ∧ ∀ keys allowlists,
        Workshop.Workflow.validateWorkflowDefinition (parsed.workflow keys allowlists) =
          Workshop.Workflow.validateWorkflowDefinition (auditDefinition.workflow keys allowlists) :=
  parse_definition (fun _ => rfl) auditDefinition (by decide) (by decide)

end NexusStudio.DefinitionJson
