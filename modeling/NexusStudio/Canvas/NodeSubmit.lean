import NexusStudio.Canvas.NodeData
import NexusStudio.Canvas.Downstream
import NexusStudio.Lib.KeepFirst
import NexusStudio.Lib.LastWins

/-!
# The references of a node submit

`prepare_node_submit` checks the references of a submit against the nodes that are wired to its node.

* (views) Manual mode takes the nodes and edges as they are read. Agent mode goes through `resolve_node_inputs`, which
  builds a view of its own along the edges. On both, the connected assets are `connectedAssets` (`pick_manual`,
  `pick_agent`).
* (order) The cursor of `_validate_agent_ref_asset_ids` accepts the sublists of the connected assets
  (`followsOrder_iff`).
* (law) Agent mode accepts these lists, appends the library of the node, and without a list agrees with manual mode;
  every slot has a source that is wired and owns its asset (`node_submit_law`).
-/

namespace NexusStudio.NodeSubmit

open KeepFirst
open CanvasNodes (CanvasNodeKind CanvasNodeStatus)
open CanvasNodes.CanvasNodeKind
open NodeData (CanvasNodeData Content ImagePromptLibraryRef Segment)
open Downstream (CanvasInputWaitReason CanvasSourcePort CanvasTargetPort Edge)

/-! ### The canvas -/

section Data

variable {φ δ : Type}

/-- `data_status` -/
def dataStatus (d : CanvasNodeData φ δ) : CanvasNodeStatus := (d.fields .status).getD .IDLE

/-- `data_output_asset_ids` -/
def dataOutputAssetIds (d : CanvasNodeData φ δ) : List Int := (d.fields .output_asset_ids).getD []

/-- `data_has_output_assets` -/
def dataHasOutputAssets (d : CanvasNodeData φ δ) : Bool :=
  (dataOutputAssetIds d).any (fun i => 0 < i) || (d.fields .asset_id).isSome ||
    (d.fields .path).any fun path => strip path ≠ ""

/-- `data_output_text` -/
def dataOutputText (d : CanvasNodeData φ δ) : String :=
  match d.fields .content with
  | some (.text s) => s
  | _ => ""

/-- `_segment_texts` -/
def segmentTexts (segments : List Segment) : String :=
  "\n".intercalate (segments.filterMap fun segment =>
    match segment with
    | .text text => if text = "" then none else some text
    | _ => none)

/-- `data_prompt_text` -/
def dataPromptText (d : CanvasNodeData φ δ) (kind : CanvasNodeKind) : String :=
  let prompt := strip ((d.fields .prompt).getD "")
  let fromPromptContent := strip (segmentTexts ((d.fields .prompt_content).getD []))
  if prompt ≠ "" then prompt
  else if fromPromptContent ≠ "" then fromPromptContent
  else if kind = TEXT then ""
  else
    match d.fields .content with
    | some (.segments segments) => strip (segmentTexts segments)
    | some (.text s) => strip s
    | none => ""

/-- `data.library_refs` -/
def libraryRefs (d : CanvasNodeData φ δ) : List ImagePromptLibraryRef := (d.fields .library_refs).getD []

end Data

/-- A row of `canvas_nodes`; its id is the canonical text of a UUID. -/
structure CanvasNode (φ δ : Type) where
  id : String
  kind : CanvasNodeKind
  data : CanvasNodeData φ δ

/-- The undeleted nodes and edges of an episode, in the order in which they are read. -/
structure Canvas (φ δ : Type) where
  nodes : List (CanvasNode φ δ)
  edges : List Edge
  hasMeta : Bool
  ids_nodup : (nodes.map CanvasNode.id).Nodup

structure CanvasGraph (φ δ : Type) where
  nodes : List (CanvasNode φ δ)
  edges : List Edge

/-- What `prepare_node_submit` raises. -/
inductive SubmitError
  | resourceNotFound (message : String)
  -- with the node and what it waits for, where it waits
  | invalidParams (message : String) (waiting : Option (String × String))
  | refMismatch (message nodeId : String) (expected got : List Int)
  | value (message : String)
  deriving DecidableEq, Repr

section Model

variable {φ δ : Type}

/-- `get_incoming_graph`; the target is read once more when an edge leads from it to itself. -/
def getIncomingGraph (C : Canvas φ δ) (nodeId : String) : Except SubmitError (CanvasGraph φ δ) :=
  match C.nodes.find? fun n => n.id = nodeId with
  | none => .error (.resourceNotFound s!"node {nodeId} not found")
  | some target =>
    let edges := C.edges.filter fun e => e.target = nodeId
    let sources := C.nodes.filter fun n => n.id ∈ edges.map Edge.source
    if C.hasMeta then .ok ⟨target :: sources, edges⟩
    else .error (.resourceNotFound "canvas episode meta not found")

/-! ### Collecting references -/

/-- What `graph_node_data` says of a node, as far as it is read. The edges say the same as before. -/
structure GraphNode where
  id : String
  outputText : String
  outputAssetIds : List Int
  libraryRefs : Option (List ImagePromptLibraryRef)

def graphNodeData (n : CanvasNode φ δ) : GraphNode where
  id := n.id
  outputText := dataOutputText n.data
  outputAssetIds := dataOutputAssetIds n.data
  libraryRefs := if libraryRefs n.data = [] then none else some (libraryRefs n.data)

/-- `{str(node["id"]): node for node in nodes}`, where the last one stays. -/
def nodeById (nodes : List GraphNode) (id : String) : Option GraphNode := nodes.reverse.find? fun n => n.id = id

/-- `_push_unique_id` -/
def pushUniqueId (ids : List Int) (value : Int) : List Int :=
  if value ≤ 0 ∨ value ∈ ids then ids else ids ++ [value]

/-- The edge brings the assets of its source to the target. -/
def feeds (nodeId : String) (e : Edge) : Bool :=
  e.target = nodeId ∧ e.targetPort = .REFERENCE_ASSET ∧ e.sourcePort = .OUTPUT_ASSET

def pickConnectedReferenceAssetIds (nodeId : String) (nodes : List GraphNode) (edges : List Edge) : List Int :=
  edges.foldl
    (fun ids e =>
      if feeds nodeId e then
        match nodeById nodes e.source with
        | none => ids
        | some source => source.outputAssetIds.foldl pushUniqueId ids
      else ids)
    []

/-- A segment of a `WorkflowPromptContent`. -/
structure PromptSegment where
  type : String
  assetId : Option Int
  deriving DecidableEq, Repr

def collectAssetIdsFromContent (content : List PromptSegment) : List Int :=
  content.foldl
    (fun ids s =>
      if s.type ∈ ["image_url", "video_url", "audio_url"] then (s.assetId.map (pushUniqueId ids)).getD ids else ids)
    []

/-- The ids of mentions or of manual references, pushed one by one; `message` is what is said of an id below one. -/
def pushChecked (message : Int → String) : List Int → List Int → Except SubmitError (List Int)
  | ids, [] => .ok ids
  | ids, i :: rest => if i ≤ 0 then .error (.value (message i)) else pushChecked message (pushUniqueId ids i) rest

def collectAssetIdsFromMentionItems (items : List Int) : Except SubmitError (List Int) :=
  pushChecked (fun i => s!"mention item asset_id must be >= 1, got {i}") [] items

def collectLibraryRefAssetIds (refs : List ImagePromptLibraryRef) : List Int :=
  (refs.map fun r => r.assetId.val).foldl pushUniqueId []

def collectSubmitMaterialRefs (content : List PromptSegment) (connectedAssetIds manualRefs previewMediaRefs : List Int)
    (libraryRefIds : List Int) : Except SubmitError (List Int) :=
  let ids := connectedAssetIds.foldl pushUniqueId []
  let ids := (collectAssetIdsFromContent content).foldl pushUniqueId ids
  match collectAssetIdsFromMentionItems previewMediaRefs with
  | .error e => .error e
  | .ok mentioned =>
    match pushChecked (fun i => s!"manual_ref asset_id must be >= 1, got {i}") (mentioned.foldl pushUniqueId ids)
      manualRefs with
    | .error e => .error e
    | .ok ids => .ok (libraryRefIds.foldl pushUniqueId ids)

/-- `_self_library_ref_asset_ids`, of the first node with the id. -/
def selfLibraryRefAssetIds (nodeId : String) (nodes : List GraphNode) : List Int :=
  match nodes.find? fun n => n.id = nodeId with
  | none => []
  | some n => collectLibraryRefAssetIds (n.libraryRefs.getD [])

/-- `_expected_refs_from_graph` -/
def expectedRefsFromGraph (nodeId : String) (nodes : List GraphNode) (edges : List Edge) (content : List PromptSegment)
    (manualRefs previewMediaRefs : List Int) : Except SubmitError (List Int) :=
  collectSubmitMaterialRefs content (pickConnectedReferenceAssetIds nodeId nodes edges) manualRefs previewMediaRefs
    (selfLibraryRefAssetIds nodeId nodes)

/-! ### Resolving the inputs -/

structure CanvasInputSource where
  nodeId : String
  kind : CanvasNodeKind
  status : CanvasNodeStatus
  sourcePort : CanvasSourcePort
  targetPort : CanvasTargetPort
  deriving DecidableEq, Repr

structure CanvasInputWait where
  reason : CanvasInputWaitReason
  sourceNodeId : String
  source : Option CanvasInputSource
  deriving DecidableEq, Repr

structure UpstreamText where
  text : String
  sourceNodeId : String
  deriving DecidableEq, Repr

structure RefSlot where
  slot : Nat
  label : String
  assetId : Int
  sourceNodeId : String
  kind : CanvasNodeKind
  deriving DecidableEq, Repr

structure ResolvedCanvasInputs where
  nodeId : String
  localPrompt : String
  upstreamTexts : List UpstreamText
  refs : List RefSlot
  libraryRefAssetIds : List Int
  waitingOn : List CanvasInputWait
  sources : List CanvasInputSource
  deriving DecidableEq, Repr

/-- What the loop over the edges has collected. -/
structure Walk (φ δ : Type) where
  waitingOn : List CanvasInputWait
  sources : List CanvasInputSource
  graphNodes : List GraphNode
  sourceRows : List (String × CanvasNode φ δ)

/-- `{node.id: node for node in graph.nodes}`, where the last one stays. -/
def nodesById (nodes : List (CanvasNode φ δ)) (id : String) : Option (CanvasNode φ δ) :=
  nodes.reverse.find? fun n => n.id = id

/-- What an edge waits for, given its source. -/
def edgeWaits (e : Edge) (source : CanvasNode φ δ) : List CanvasInputWaitReason :=
  if dataStatus source.data = .FAILED then [.SOURCE_FAILED]
  else
    (if e.targetPort = .PROMPT_INPUT ∧ (e.sourcePort ≠ .OUTPUT_TEXT ∨ strip (dataOutputText source.data) = "") then
        [.TEXT_NOT_READY]
      else []) ++
      if e.targetPort = .REFERENCE_ASSET ∧ (e.sourcePort ≠ .OUTPUT_ASSET ∨ dataHasOutputAssets source.data = false ∨
          dataOutputAssetIds source.data = []) then [.ASSET_NOT_READY]
      else []

/-- The nodes of the view, with a source that is not among them yet. -/
def addGraphNode (nodes : List GraphNode) (source : CanvasNode φ δ) : List GraphNode :=
  if nodes.all fun n => n.id ≠ source.id then nodes ++ [graphNodeData source] else nodes

/-- The body of the loop over the edges. -/
def visit (nodes : List (CanvasNode φ δ)) (w : Walk φ δ) (e : Edge) : Walk φ δ :=
  match nodesById nodes e.source with
  | none => { w with waitingOn := w.waitingOn ++ [⟨.SOURCE_MISSING, e.source, none⟩] }
  | some source =>
    let info : CanvasInputSource := ⟨source.id, source.kind, dataStatus source.data, e.sourcePort, e.targetPort⟩
    { waitingOn := w.waitingOn ++ (edgeWaits e source).map fun reason => ⟨reason, source.id, some info⟩
      sources := w.sources ++ [info]
      graphNodes := addGraphNode w.graphNodes source
      sourceRows := LastWins.put source.id source w.sourceRows }

/-- `_collect_upstream_texts`; the texts that were seen are those of the list. -/
def collectUpstreamTexts (nodeId : String) (nodes : List GraphNode) (edges : List Edge) : List UpstreamText :=
  edges.foldl
    (fun texts e =>
      if e.target = nodeId ∧ e.targetPort = .PROMPT_INPUT ∧ e.sourcePort = .OUTPUT_TEXT then
        let text := strip (((nodeById nodes e.source).map GraphNode.outputText).getD "")
        if text = "" ∨ text ∈ texts.map UpstreamText.text then texts else texts ++ [⟨text, e.source⟩]
      else texts)
    []

/-- `_find_ref_source` -/
def findRefSource (edges : List Edge) (sourceRows : List (String × CanvasNode φ δ)) (nodeId : String) (assetId : Int) :
    String × CanvasNodeKind :=
  let found := edges.findSome? fun e =>
    if feeds nodeId e then
      match sourceRows.lookup e.source with
      | none => none
      | some source => if assetId ∈ dataOutputAssetIds source.data then some (e.source, source.kind) else none
    else none
  found.getD ("", IMAGE)

/-- `node_kind_to_media_kind` and `MENTION_TYPE_LABEL` -/
def mediaLabel : CanvasNodeKind → String
  | VIDEO => "视频"
  | AUDIO => "音频"
  | TEXT => "文本"
  | IMAGE => "图片"

def refSlot (edges : List Edge) (sourceRows : List (String × CanvasNode φ δ)) (nodeId : String) (assetId : Int)
    (slot : Nat) : RefSlot :=
  let source := findRefSource edges sourceRows nodeId assetId
  ⟨slot, s!"{mediaLabel source.2}{slot}", assetId, source.1, source.2⟩

def resolveNodeInputs (C : Canvas φ δ) (nodeId : String) : Except SubmitError ResolvedCanvasInputs :=
  match getIncomingGraph C nodeId with
  | .error e => .error e
  | .ok graph =>
    match nodesById graph.nodes nodeId with
    | none => .error (.resourceNotFound s!"node {nodeId} not found")
    | some target =>
      let w := graph.edges.foldl (visit graph.nodes) ⟨[], [], [graphNodeData target], []⟩
      let connected := pickConnectedReferenceAssetIds nodeId w.graphNodes graph.edges
      .ok {
        nodeId := nodeId
        localPrompt := strip (dataPromptText target.data target.kind)
        upstreamTexts := collectUpstreamTexts nodeId w.graphNodes graph.edges
        refs := connected.zipIdx.map fun p => refSlot graph.edges w.sourceRows nodeId p.1 (p.2 + 1)
        libraryRefAssetIds := collectLibraryRefAssetIds (libraryRefs target.data)
        waitingOn := w.waitingOn
        sources := w.sources }

/-! ### Preparing a submit -/

inductive Mode
  | manual
  | agent
  deriving DecidableEq, Repr

structure PrepareNodeSubmitResult where
  prompt : String
  refAssetIds : List Int
  deriving DecidableEq, Repr

/-- The cursor moves behind the next place of the asset. -/
def advance (assetId : Int) : List Int → Option (List Int)
  | [] => none
  | i :: rest => if i ≠ assetId then advance assetId rest else some rest

/-- The loop of `_validate_agent_ref_asset_ids`, from the cursor on. -/
def followsOrder : List Int → List Int → Bool
  | _, [] => true
  | resolved, assetId :: got =>
    match advance assetId resolved with
    | none => false
    | some resolved => followsOrder resolved got

def validateAgentRefAssetIds (nodeId : String) (resolved : List Int) (gotAssetIds : Option (List Int)) :
    Except SubmitError (List Int) :=
  let got := gotAssetIds.getD []
  if got = [] then .ok resolved
  else if got = resolved then .ok got
  else if followsOrder resolved got then .ok got
  else .error (.refMismatch "ref_asset_ids 顺序必须与 resolve_node_inputs.refs 一致" nodeId resolved got)

/-- `_validate_ref_asset_ids` -/
def validateRefAssetIds (nodeId : String) (expected : List Int) (gotAssetIds : Option (List Int)) :
    Except SubmitError Unit :=
  if gotAssetIds.getD [] = expected then .ok ()
  else .error (.refMismatch "提交引用与画布状态不一致，请刷新后重试" nodeId expected (gotAssetIds.getD []))

/-- What a submit is prepared from, apart from the node. -/
structure SubmitArgs where
  prompt : Option String
  refAssetIds : Option (List Int)
  content : Option (List PromptSegment)
  manualRefs : Option (List Int)
  previewMediaRefs : Option (List Int)

def SubmitArgs.text (args : SubmitArgs) : String := strip (args.prompt.getD "")

def prepareManual (C : Canvas φ δ) (nodeId : String) (args : SubmitArgs) :
    Except SubmitError PrepareNodeSubmitResult := do
  let graph ← getIncomingGraph C nodeId
  let expected ← expectedRefsFromGraph nodeId (graph.nodes.map graphNodeData) graph.edges (args.content.getD [])
    (args.manualRefs.getD []) (args.previewMediaRefs.getD [])
  validateRefAssetIds nodeId expected args.refAssetIds
  if args.text = "" then .error (.invalidParams "prompt 不能为空" none)
  else .ok ⟨args.text, expected⟩

def prepareAgent (C : Canvas φ δ) (nodeId : String) (args : SubmitArgs) :
    Except SubmitError PrepareNodeSubmitResult := do
  let resolved ← resolveNodeInputs C nodeId
  if resolved.waitingOn ≠ [] then
    .error (.invalidParams "节点输入未就绪"
      (some (nodeId, ", ".intercalate (resolved.waitingOn.map fun wait => wait.reason.value))))
  else if args.text = "" then .error (.invalidParams "agent 提交需要非空 prompt" none)
  else do
    let final ← validateAgentRefAssetIds nodeId (resolved.refs.map RefSlot.assetId) args.refAssetIds
    .ok ⟨args.text, (final ++ resolved.libraryRefAssetIds).eraseDups⟩

def prepareNodeSubmit (C : Canvas φ δ) (nodeId : String) (args : SubmitArgs) :
    Mode → Except SubmitError PrepareNodeSubmitResult
  | .manual => prepareManual C nodeId args
  | .agent => prepareAgent C nodeId args

end Model

/-! ### What is meant -/

section Spec

variable {φ δ : Type}

/-- The node with the id. -/
def Canvas.node (C : Canvas φ δ) (id : String) : Option (CanvasNode φ δ) := C.nodes.find? fun n => n.id = id

def Canvas.assets (C : Canvas φ δ) (id : String) : List Int :=
  ((C.node id).map fun n => dataOutputAssetIds n.data).getD []

/-- The assets of the sources of the edges that feed the target, each once, in the order of the edges. -/
def connectedAssets (C : Canvas φ δ) (nodeId : String) : List Int :=
  (((C.edges.filter (feeds nodeId)).flatMap fun e => C.assets e.source).filter fun i => 0 < i).eraseDups

/-- The library references of the node, each once. -/
def libraryAssets (C : Canvas φ δ) (nodeId : String) : List Int :=
  (((C.node nodeId).map fun n => (libraryRefs n.data).map fun r => r.assetId.val).getD []).eraseDups

/-- The slot names a node that has its asset and an edge to the references of the target. -/
def Wired (C : Canvas φ δ) (nodeId : String) (slot : RefSlot) : Prop :=
  ∃ source ∈ C.nodes, source.id = slot.sourceNodeId ∧ source.kind = slot.kind ∧
    slot.assetId ∈ dataOutputAssetIds source.data ∧ ∃ e ∈ C.edges, e.source = source.id ∧ feeds nodeId e = true

end Spec

/-! ### Collected lists -/

section Lists

variable {φ δ : Type} {C : Canvas φ δ} {graph : CanvasGraph φ δ} {nodeId id : String} {n : CanvasNode φ δ}
  {nodes : List (CanvasNode φ δ)} {edges : List Edge} {ids as : List Int}

theorem foldl_pushUniqueId : as.foldl pushUniqueId ids = pushAll ids (as.filter fun i => 0 < i) := by
  induction as generalizing ids with
  | nil => rfl
  | cons a as ih =>
    rw [List.foldl_cons, ih]
    by_cases ha : 0 < a
    · have hpush : pushUniqueId ids a = push ids a := by
        simp [pushUniqueId, push, not_le.2 ha]
      rw [List.filter_cons_of_pos (by simpa using ha), hpush, pushAll_cons]
    · have hskip : pushUniqueId ids a = ids := if_pos (.inl (not_lt.1 ha))
      rw [List.filter_cons_of_neg (by simpa using ha), hskip]

/-- The assets that a view has of the source of an edge. -/
def assetsIn (nodes : List GraphNode) (e : Edge) : List Int :=
  ((nodeById nodes e.source).map GraphNode.outputAssetIds).getD []

theorem pick_eq (nodeId : String) (nodes : List GraphNode) (edges : List Edge) :
    pickConnectedReferenceAssetIds nodeId nodes edges =
      (((edges.filter (feeds nodeId)).flatMap (assetsIn nodes)).filter fun i => 0 < i).eraseDups := by
  have hfold : ∀ ids : List Int, edges.foldl
      (fun ids e =>
        if feeds nodeId e then
          match nodeById nodes e.source with
          | none => ids
          | some source => source.outputAssetIds.foldl pushUniqueId ids
        else ids) ids =
      pushAll ids (((edges.filter (feeds nodeId)).flatMap (assetsIn nodes)).filter fun i => 0 < i) := by
    induction edges with
    | nil => exact fun _ => rfl
    | cons e edges ih =>
      intro ids
      rw [List.foldl_cons, ih]
      by_cases he : feeds nodeId e = true
      · have hone : (match nodeById nodes e.source with
            | none => ids
            | some source => source.outputAssetIds.foldl pushUniqueId ids) =
            pushAll ids ((assetsIn nodes e).filter fun i => 0 < i) := by
          unfold assetsIn
          cases nodeById nodes e.source with
          | none => rfl
          | some source => exact foldl_pushUniqueId
        rw [if_pos he, List.filter_cons_of_pos he, List.flatMap_cons, List.filter_append, pushAll_append, ← hone]
      · rw [if_neg he, List.filter_cons_of_neg he]
  rw [← pushAll_nil]
  exact hfold []

theorem collectLibrary_eq (refs : List ImagePromptLibraryRef) :
    collectLibraryRefAssetIds refs = (refs.map fun r => r.assetId.val).eraseDups := by
  have hpos : (refs.map fun r => r.assetId.val).filter (fun i => 0 < i) = refs.map fun r => r.assetId.val := by
    refine List.filter_eq_self.2 fun i hi => ?_
    obtain ⟨r, -, rfl⟩ := List.mem_map.1 hi
    exact decide_eq_true r.assetId.property
  rw [collectLibraryRefAssetIds, foldl_pushUniqueId, hpos, pushAll_nil]

/-! ### The two views -/

theorem nodesById_eq_some (h : nodesById nodes id = some n) : n ∈ nodes ∧ n.id = id :=
  ⟨List.mem_reverse.1 (List.mem_of_find?_eq_some h), by simpa using List.find?_some h⟩

theorem nodeById_map (nodes : List (CanvasNode φ δ)) (id : String) :
    nodeById (nodes.map graphNodeData) id = (nodesById nodes id).map graphNodeData := by
  rw [nodeById, ← List.map_reverse, List.find?_map]
  rfl

theorem Canvas.eq_of_id (C : Canvas φ δ) {m : CanvasNode φ δ} (hn : n ∈ C.nodes) (hm : m ∈ C.nodes) (h : n.id = m.id) :
    n = m :=
  List.inj_on_of_nodup_map C.ids_nodup hn hm h

theorem Canvas.node_eq_some : C.node id = some n ↔ n ∈ C.nodes ∧ n.id = id := by
  constructor
  · intro h
    exact ⟨List.mem_of_find?_eq_some h, by simpa using List.find?_some h⟩
  · rintro ⟨hn, rfl⟩
    have hsome : (C.node n.id).isSome := List.find?_isSome.2 ⟨n, hn, by simp⟩
    obtain ⟨m, hm⟩ := Option.isSome_iff_exists.1 hsome
    have hid : m.id = n.id := by simpa using List.find?_some hm
    rw [hm, C.eq_of_id (List.mem_of_find?_eq_some hm) hn hid]

/-- What the graph is that is read. -/
theorem getIncomingGraph_ok (h : getIncomingGraph C nodeId = .ok graph) :
    ∃ target, C.node nodeId = some target ∧ graph.edges = C.edges.filter (fun e => e.target = nodeId) ∧
      graph.nodes = target :: C.nodes.filter fun n => n.id ∈ graph.edges.map Edge.source := by
  unfold getIncomingGraph at h
  split at h
  · cases h
  case h_2 target htarget =>
    split at h
    · cases h
      exact ⟨target, htarget, rfl, rfl⟩
    · cases h

/-- The target and the sources are found in the graph that is read as in the canvas. -/
theorem nodesById_incoming (h : getIncomingGraph C nodeId = .ok graph)
    (hid : id = nodeId ∨ id ∈ graph.edges.map Edge.source) : nodesById graph.nodes id = C.node id := by
  obtain ⟨target, htarget, -, hnodes⟩ := getIncomingGraph_ok h
  obtain ⟨htmem, htid⟩ := Canvas.node_eq_some.1 htarget
  have hsub : ∀ m ∈ graph.nodes, m ∈ C.nodes := by
    intro m hm
    rw [hnodes] at hm
    rcases List.mem_cons.1 hm with rfl | hm
    · exact htmem
    · exact List.mem_of_mem_filter hm
  cases hfind : nodesById graph.nodes id with
  | some m =>
    obtain ⟨hm, hmid⟩ := nodesById_eq_some hfind
    exact (Canvas.node_eq_some.2 ⟨hsub m hm, hmid⟩).symm
  | none =>
    cases hnode : C.node id with
    | none => rfl
    | some m =>
      obtain ⟨hm, hmid⟩ := Canvas.node_eq_some.1 hnode
      have hmem : m ∈ graph.nodes := by
        rw [hnodes]
        rcases hid with hid | hid
        · exact List.mem_cons.2 (.inl (C.eq_of_id hm htmem (hmid.trans (hid.trans htid.symm))))
        · exact List.mem_cons_of_mem _ (List.mem_filter.2 ⟨hm, by simpa [hmid] using hid⟩)
      exact absurd (decide_eq_true hmid) (List.find?_eq_none.1 hfind m (List.mem_reverse.2 hmem))

theorem assetsIn_of {view : List GraphNode} {e : Edge}
    (h : nodeById view e.source = (C.node e.source).map graphNodeData) : assetsIn view e = C.assets e.source := by
  rw [assetsIn, h, Canvas.assets, Option.map_map]
  rfl

/-- On a view that has the nodes of the canvas, the connected assets are those that are meant. -/
theorem pick_of_view {view : List GraphNode} (h : getIncomingGraph C nodeId = .ok graph)
    (hview : ∀ e ∈ graph.edges, nodeById view e.source = (nodesById graph.nodes e.source).map graphNodeData) :
    pickConnectedReferenceAssetIds nodeId view graph.edges = connectedAssets C nodeId := by
  obtain ⟨target, -, hedges, -⟩ := getIncomingGraph_ok h
  have hassets : ∀ e ∈ graph.edges, assetsIn view e = C.assets e.source := by
    intro e he
    refine assetsIn_of ?_
    rw [hview e he, nodesById_incoming h (.inr (List.mem_map_of_mem he))]
  have hfeeds : graph.edges.filter (feeds nodeId) = C.edges.filter (feeds nodeId) := by
    rw [hedges, List.filter_filter]
    refine List.filter_congr fun e _ => ?_
    unfold feeds
    by_cases he : e.target = nodeId <;> simp [he]
  rw [pick_eq, connectedAssets, ← hfeeds]
  have hflat : (graph.edges.filter (feeds nodeId)).flatMap (assetsIn view) =
      (graph.edges.filter (feeds nodeId)).flatMap fun e => C.assets e.source :=
    List.flatMap_congr fun e he => hassets e (List.mem_of_mem_filter he)
  rw [hflat]

theorem pick_manual (h : getIncomingGraph C nodeId = .ok graph) :
    pickConnectedReferenceAssetIds nodeId (graph.nodes.map graphNodeData) graph.edges = connectedAssets C nodeId :=
  pick_of_view h fun e _ => nodeById_map graph.nodes e.source

theorem mem_addGraphNode_of_mem {view : List GraphNode} {g : GraphNode} (h : g ∈ view) : g ∈ addGraphNode view n := by
  unfold addGraphNode
  split
  · exact List.mem_append_left _ h
  · exact h

theorem mem_addGraphNode {view : List GraphNode} {g : GraphNode} (h : g ∈ addGraphNode view n) :
    g ∈ view ∨ g = graphNodeData n := by
  unfold addGraphNode at h
  split at h
  · exact (List.mem_append.1 h).imp id List.mem_singleton.1
  · exact .inl h

theorem exists_mem_addGraphNode {view : List GraphNode} : ∃ g ∈ addGraphNode view n, g.id = n.id := by
  unfold addGraphNode
  split
  case isTrue => exact ⟨graphNodeData n, List.mem_append_right _ (List.mem_singleton_self _), rfl⟩
  case isFalse h =>
    obtain ⟨g, hg, hid⟩ : ∃ g ∈ view, g.id = n.id := by simpa using h
    exact ⟨g, hg, hid⟩

/-- What the loop of `resolve_node_inputs` has collected after some edges. -/
structure WalkOk (nodes : List (CanvasNode φ δ)) (edges : List Edge) (w : Walk φ δ) : Prop where
  rows : ∀ g ∈ w.graphNodes, ∃ n, nodesById nodes n.id = some n ∧ g = graphNodeData n
  sourceRows : ∀ k n, w.sourceRows.lookup k = some n → nodesById nodes k = some n
  seen : ∀ e ∈ edges, ∀ n, nodesById nodes e.source = some n →
    (∃ g ∈ w.graphNodes, g.id = n.id) ∧ w.sourceRows.lookup e.source = some n

theorem WalkOk.view {w : Walk φ δ} (h : WalkOk nodes edges w) {e : Edge} (he : e ∈ edges) :
    nodeById w.graphNodes e.source = (nodesById nodes e.source).map graphNodeData := by
  cases hfind : nodeById w.graphNodes e.source with
  | some g =>
    have hg : g ∈ w.graphNodes := List.mem_reverse.1 (List.mem_of_find?_eq_some hfind)
    have hid : g.id = e.source := by simpa using List.find?_some hfind
    obtain ⟨n, hn, rfl⟩ := h.rows g hg
    have hnid : n.id = e.source := hid
    rw [← hnid, hn, Option.map_some]
  | none =>
    cases hnode : nodesById nodes e.source with
    | none => rfl
    | some n =>
      obtain ⟨⟨g, hg, hid⟩, -⟩ := h.seen e he n hnode
      have hgid : g.id = e.source := hid.trans (nodesById_eq_some hnode).2
      exact absurd (decide_eq_true hgid) (List.find?_eq_none.1 hfind g (List.mem_reverse.2 hg))

/-- One round of the loop. -/
theorem WalkOk.visit {w : Walk φ δ} (h : WalkOk nodes edges w) (e : Edge) :
    WalkOk nodes (edges ++ [e]) (visit nodes w e) := by
  unfold NodeSubmit.visit
  cases hnode : nodesById nodes e.source with
  | none =>
    refine ⟨h.rows, h.sourceRows, fun e' he' n hn => ?_⟩
    rcases List.mem_append.1 he' with he' | he'
    · exact h.seen e' he' n hn
    · rw [List.mem_singleton.1 he', hnode] at hn
      cases hn
  | some source =>
    have hid : source.id = e.source := (nodesById_eq_some hnode).2
    have hself : nodesById nodes source.id = some source := hid ▸ hnode
    refine ⟨fun g hg => ?_, fun k n hk => ?_, fun e' he' n hn => ⟨?_, ?_⟩⟩
    · rcases mem_addGraphNode hg with hg | rfl
      · exact h.rows g hg
      · exact ⟨source, hself, rfl⟩
    · rw [LastWins.lookup_put] at hk
      split at hk
      case isTrue hks =>
        cases hk
        rw [hks, hself]
      case isFalse => exact h.sourceRows k n hk
    · rcases List.mem_append.1 he' with he' | he'
      · obtain ⟨⟨g, hg, hgid⟩, -⟩ := h.seen e' he' n hn
        exact ⟨g, mem_addGraphNode_of_mem hg, hgid⟩
      · rw [List.mem_singleton.1 he', hnode] at hn
        cases hn
        exact exists_mem_addGraphNode
    · rw [LastWins.lookup_put]
      by_cases hk : e'.source = source.id
      · rw [if_pos hk, ← hself, ← hk, hn]
      · rw [if_neg hk]
        rcases List.mem_append.1 he' with he' | he'
        · exact (h.seen e' he' n hn).2
        · rw [List.mem_singleton.1 he'] at hk
          exact absurd hid.symm hk

theorem walkOk_foldl {target : CanvasNode φ δ} (ht : nodesById nodes target.id = some target) (edges : List Edge) :
    WalkOk nodes edges (edges.foldl (visit nodes) ⟨[], [], [graphNodeData target], []⟩) := by
  induction edges using List.reverseRecOn with
  | nil =>
    refine ⟨fun g hg => ⟨target, ht, List.mem_singleton.1 hg⟩, nofun, nofun⟩
  | append_singleton edges e ih =>
    rw [List.foldl_append]
    exact ih.visit e

theorem nodesById_self (h : nodesById nodes id = some n) : nodesById nodes n.id = some n := by
  rw [(nodesById_eq_some h).2, h]

theorem pick_agent (h : getIncomingGraph C nodeId = .ok graph) {target : CanvasNode φ δ}
    (ht : nodesById graph.nodes nodeId = some target) :
    pickConnectedReferenceAssetIds nodeId
        (graph.edges.foldl (visit graph.nodes) ⟨[], [], [graphNodeData target], []⟩).graphNodes graph.edges =
      connectedAssets C nodeId :=
  pick_of_view h fun _ he => (walkOk_foldl (nodesById_self ht) graph.edges).view he

/-- The source of a connected asset. -/
theorem findRefSource_wired {w : Walk φ δ} (h : getIncomingGraph C nodeId = .ok graph)
    (hw : WalkOk graph.nodes graph.edges w) {assetId : Int} (hasset : assetId ∈ connectedAssets C nodeId) (slot : Nat) :
    Wired C nodeId (refSlot graph.edges w.sourceRows nodeId assetId slot) := by
  obtain ⟨-, -, hedges, -⟩ := getIncomingGraph_ok h
  have hnode : ∀ e ∈ graph.edges, nodesById graph.nodes e.source = C.node e.source := fun e he =>
    nodesById_incoming h (.inr (List.mem_map_of_mem he))
  cases hfound : graph.edges.findSome? fun e =>
      if feeds nodeId e then
        match w.sourceRows.lookup e.source with
        | none => none
        | some source => if assetId ∈ dataOutputAssetIds source.data then some (e.source, source.kind) else none
      else none with
  | none =>
    -- some edge brings the asset, and its source has been collected
    obtain ⟨e, he, hin⟩ := List.mem_flatMap.1 (List.mem_filter.1 (List.mem_eraseDups.1 hasset)).1
    obtain ⟨hmem, hfeeds⟩ := List.mem_filter.1 he
    have he' : e ∈ graph.edges := by
      rw [hedges]
      simp only [feeds, decide_eq_true_eq] at hfeeds
      exact List.mem_filter.2 ⟨hmem, decide_eq_true hfeeds.1⟩
    unfold Canvas.assets at hin
    cases hn : C.node e.source with
    | none =>
      rw [hn] at hin
      cases hin
    | some n =>
      rw [hn, Option.map_some, Option.getD_some] at hin
      have hlookup := (hw.seen e he' n ((hnode e he').trans hn)).2
      have hnone := List.findSome?_eq_none_iff.1 hfound e he'
      rw [if_pos hfeeds, hlookup] at hnone
      replace hnone : (if assetId ∈ dataOutputAssetIds n.data then some (e.source, n.kind) else none) = none := hnone
      rw [if_pos hin] at hnone
      cases hnone
  | some found =>
    obtain ⟨e, he, hsome⟩ := List.exists_of_findSome?_eq_some hfound
    split at hsome
    case isFalse => cases hsome
    case isTrue hfeeds =>
      split at hsome
      case h_1 => cases hsome
      case h_2 source hlookup =>
        split at hsome
        case isFalse => cases hsome
        case isTrue hin =>
          cases hsome
          have hsource : C.node e.source = some source := by
            rw [← hnode e he, hw.sourceRows e.source source hlookup]
          obtain ⟨hmem, hid⟩ := Canvas.node_eq_some.1 hsource
          have hslot : findRefSource graph.edges w.sourceRows nodeId assetId = (e.source, source.kind) := by
            unfold findRefSource
            rw [hfound, Option.getD_some]
          have hedge : e ∈ C.edges := List.mem_of_mem_filter (hedges ▸ he)
          refine ⟨source, hmem, ?_, ?_, hin, e, hedge, hid.symm, hfeeds⟩
          · rw [refSlot, hslot, hid]
          · rw [refSlot, hslot]

end Lists

/-! ### The order of a list -/

theorem cons_sublist_iff {assetId : Int} {got resolved : List Int} :
    (assetId :: got).Sublist resolved ↔ ∃ rest, advance assetId resolved = some rest ∧ got.Sublist rest := by
  induction resolved with
  | nil => simp [advance]
  | cons i rest ih =>
    rw [advance]
    by_cases hi : i = assetId
    · subst hi
      simp
    · rw [if_pos hi, ← ih, List.cons_sublist_cons']
      simp [Ne.symm hi]

/-- The cursor accepts the lists in the order of the connected assets. -/
theorem followsOrder_iff {resolved got : List Int} : followsOrder resolved got = true ↔ got.Sublist resolved := by
  induction got generalizing resolved with
  | nil => simp [followsOrder]
  | cons assetId got ih =>
    rw [cons_sublist_iff, followsOrder]
    cases advance assetId resolved with
    | none => simp
    | some rest => simp [ih]

theorem validateAgent_eq {nodeId : String} {resolved got : List Int} (h : got ≠ []) :
    validateAgentRefAssetIds nodeId resolved (some got) =
      if followsOrder resolved got then .ok got
      else .error (.refMismatch "ref_asset_ids 顺序必须与 resolve_node_inputs.refs 一致" nodeId resolved got) := by
  unfold validateAgentRefAssetIds
  simp only [Option.getD_some, if_neg h]
  by_cases hself : got = resolved
  · have hfollows : followsOrder resolved got = true := followsOrder_iff.2 (hself ▸ List.Sublist.refl _)
    rw [if_pos hself, if_pos hfollows]
  · rw [if_neg hself]

/-! ### The law -/

section Law

variable {φ δ : Type} {C : Canvas φ δ} {graph : CanvasGraph φ δ} {nodeId : String} {resolved : ResolvedCanvasInputs}
  {args : SubmitArgs}

/-- There are no references in the content, no manual and no preview references. -/
structure NoExtras (args : SubmitArgs) : Prop where
  content : collectAssetIdsFromContent (args.content.getD []) = []
  manualRefs : args.manualRefs.getD [] = []
  previewMediaRefs : args.previewMediaRefs.getD [] = []

theorem connectedAssets_pos : (connectedAssets C nodeId).filter (fun i => 0 < i) = connectedAssets C nodeId := by
  refine List.filter_eq_self.2 fun i hi => ?_
  exact (List.mem_filter.1 (List.mem_eraseDups.1 hi)).2

theorem libraryAssets_pos : (libraryAssets C nodeId).filter (fun i => 0 < i) = libraryAssets C nodeId := by
  refine List.filter_eq_self.2 fun i hi => ?_
  have hmem := List.mem_eraseDups.1 hi
  cases hnode : C.node nodeId with
  | none =>
    rw [hnode] at hmem
    cases hmem
  | some n =>
    rw [hnode, Option.map_some, Option.getD_some] at hmem
    obtain ⟨r, -, rfl⟩ := List.mem_map.1 hmem
    exact decide_eq_true r.assetId.property

/-- What `resolve_node_inputs` says of the references. -/
theorem resolveNodeInputs_ok (h : resolveNodeInputs C nodeId = .ok resolved) :
    (∃ graph, getIncomingGraph C nodeId = .ok graph) ∧ resolved.refs.map RefSlot.assetId = connectedAssets C nodeId ∧
      resolved.libraryRefAssetIds = libraryAssets C nodeId ∧ ∀ slot ∈ resolved.refs, Wired C nodeId slot := by
  unfold resolveNodeInputs at h
  split at h
  case h_1 => cases h
  case h_2 graph hgraph =>
    split at h
    case h_1 => cases h
    case h_2 target htarget =>
      cases h
      have hpick := pick_agent hgraph htarget
      have hnode : C.node nodeId = some target := (nodesById_incoming hgraph (.inl rfl)).symm.trans htarget
      refine ⟨⟨graph, hgraph⟩, ?_, ?_, ?_⟩
      · show (List.map _ _).map RefSlot.assetId = _
        rw [List.map_map, hpick]
        exact List.zipIdx_map_fst 0 _
      · show collectLibraryRefAssetIds _ = _
        rw [collectLibrary_eq, libraryAssets, hnode, Option.map_some, Option.getD_some]
      · intro slot hslot
        obtain ⟨p, hp, rfl⟩ := List.mem_map.1 hslot
        have hasset : p.1 ∈ connectedAssets C nodeId := by
          rw [← hpick]
          exact List.fst_mem_of_mem_zipIdx hp
        exact findRefSource_wired hgraph (walkOk_foldl (nodesById_self htarget) graph.edges) hasset _

/-- What manual mode expects without extra references. -/
theorem expectedRefs_eq (h : getIncomingGraph C nodeId = .ok graph) (hargs : NoExtras args) :
    expectedRefsFromGraph nodeId (graph.nodes.map graphNodeData) graph.edges (args.content.getD [])
        (args.manualRefs.getD []) (args.previewMediaRefs.getD []) =
      .ok (connectedAssets C nodeId ++ libraryAssets C nodeId).eraseDups := by
  have hself : selfLibraryRefAssetIds nodeId (graph.nodes.map graphNodeData) = libraryAssets C nodeId := by
    obtain ⟨target, htarget, -, hnodes⟩ := getIncomingGraph_ok h
    have hid : (graphNodeData target).id = nodeId := (Canvas.node_eq_some.1 htarget).2
    have hrefs : (graphNodeData target).libraryRefs.getD [] = libraryRefs target.data := by
      show (if libraryRefs target.data = [] then none else some (libraryRefs target.data)).getD [] = _
      split
      case isTrue hnil => rw [hnil, Option.getD_none]
      case isFalse => rfl
    rw [selfLibraryRefAssetIds, hnodes, List.map_cons, List.find?_cons_of_pos (by simpa using hid)]
    show collectLibraryRefAssetIds ((graphNodeData target).libraryRefs.getD []) = _
    rw [hrefs, collectLibrary_eq, libraryAssets, htarget, Option.map_some, Option.getD_some]
  unfold expectedRefsFromGraph collectSubmitMaterialRefs collectAssetIdsFromMentionItems
  rw [pick_manual h, hself, hargs.content, hargs.manualRefs, hargs.previewMediaRefs]
  show Except.ok ((libraryAssets C nodeId).foldl pushUniqueId ((connectedAssets C nodeId).foldl pushUniqueId [])) = _
  rw [foldl_pushUniqueId, foldl_pushUniqueId, connectedAssets_pos, libraryAssets_pos, ← pushAll_append, pushAll_nil]

/-- Manual mode accepts exactly this list. -/
theorem prepareManual_ok (h : getIncomingGraph C nodeId = .ok graph) (hargs : NoExtras args) :
    (∃ r, prepareManual C nodeId args = .ok r) ↔
      args.text ≠ "" ∧ args.refAssetIds.getD [] = (connectedAssets C nodeId ++ libraryAssets C nodeId).eraseDups := by
  set expected := (connectedAssets C nodeId ++ libraryAssets C nodeId).eraseDups with hexpected
  have hout : prepareManual C nodeId args = (do
      validateRefAssetIds nodeId expected args.refAssetIds
      if args.text = "" then .error (.invalidParams "prompt 不能为空" none) else .ok ⟨args.text, expected⟩) := by
    rw [prepareManual, h]
    show (expectedRefsFromGraph _ _ _ _ _ _ >>= _) = _
    rw [expectedRefs_eq h hargs]
    rfl
  rw [hout]
  unfold validateRefAssetIds
  by_cases hrefs : args.refAssetIds.getD [] = expected
  · by_cases htext : args.text = ""
    · simp [hrefs, htext, bind, Except.bind]
    · simp [hrefs, htext, bind, Except.bind]
  · simp [hrefs, bind, Except.bind]

theorem prepareAgent_eq (h : resolveNodeInputs C nodeId = .ok resolved) (hwait : resolved.waitingOn = []) :
    prepareAgent C nodeId args =
      if args.text = "" then .error (.invalidParams "agent 提交需要非空 prompt" none)
      else (validateAgentRefAssetIds nodeId (connectedAssets C nodeId) args.refAssetIds).map fun final =>
        ⟨args.text, (final ++ libraryAssets C nodeId).eraseDups⟩ := by
  obtain ⟨-, hrefs, hlibrary, -⟩ := resolveNodeInputs_ok h
  rw [prepareAgent, h]
  show (if resolved.waitingOn ≠ [] then _ else _) = _
  rw [if_neg (not_not.2 hwait), hrefs, hlibrary]
  split
  · rfl
  · cases validateAgentRefAssetIds nodeId (connectedAssets C nodeId) args.refAssetIds <;> rfl

/-- Where no input is awaited, agent mode accepts the sublists of the connected assets and appends the library of the
node. Without a list it returns what manual mode expects. Every slot is wired. -/
theorem node_submit_law (C : Canvas φ δ) (nodeId : String) (resolved : ResolvedCanvasInputs)
    (h : resolveNodeInputs C nodeId = .ok resolved) :
    (∀ slot ∈ resolved.refs, Wired C nodeId slot) ∧
    (resolved.waitingOn = [] → ∀ args : SubmitArgs,
      (∀ got, args.refAssetIds = some got → got ≠ [] →
        ((∃ r, prepareNodeSubmit C nodeId args .agent = .ok r) ↔
          args.text ≠ "" ∧ got.Sublist (connectedAssets C nodeId)) ∧
        ∀ r, prepareNodeSubmit C nodeId args .agent = .ok r →
          r.refAssetIds = got ++ (libraryAssets C nodeId).filter (fun i => i ∉ got) ∧ r.refAssetIds.Nodup) ∧
      (args.refAssetIds.getD [] = [] →
        ((∃ r, prepareNodeSubmit C nodeId args .agent = .ok r) ↔ args.text ≠ "") ∧
        ∀ r, prepareNodeSubmit C nodeId args .agent = .ok r → ∀ other : SubmitArgs, NoExtras other →
          ((∃ m, prepareNodeSubmit C nodeId other .manual = .ok m) ↔
            other.text ≠ "" ∧ other.refAssetIds.getD [] = r.refAssetIds))) := by
  obtain ⟨⟨graph, hgraph⟩, -, -, hwired⟩ := resolveNodeInputs_ok h
  refine ⟨hwired, fun hwait args => ⟨fun got hgot hne => ?_, fun hnone => ?_⟩⟩
  · show ((∃ r, prepareAgent C nodeId args = .ok r) ↔ _) ∧ ∀ r, prepareAgent C nodeId args = .ok r → _
    rw [prepareAgent_eq h hwait, hgot, validateAgent_eq hne, ← followsOrder_iff]
    by_cases htext : args.text = ""
    · simp [htext]
    · by_cases hsub : followsOrder (connectedAssets C nodeId) got = true
      · have hnodup : got.Nodup := (followsOrder_iff.1 hsub).nodup nodup_eraseDups
        have hlist := eraseDups_append_of_nodup hnodup (nodup_eraseDups : (libraryAssets C nodeId).Nodup)
        rw [if_neg htext, if_pos hsub]
        refine ⟨iff_of_true ⟨_, rfl⟩ ⟨htext, hsub⟩, fun r hr => ?_⟩
        cases hr
        exact ⟨hlist, nodup_eraseDups⟩
      · simp [htext, hsub, Except.map]
  · show ((∃ r, prepareAgent C nodeId args = .ok r) ↔ _) ∧ ∀ r, prepareAgent C nodeId args = .ok r → _
    have hall : validateAgentRefAssetIds nodeId (connectedAssets C nodeId) args.refAssetIds =
        .ok (connectedAssets C nodeId) := by
      rw [validateAgentRefAssetIds, hnone]
      rfl
    rw [prepareAgent_eq h hwait, hall]
    by_cases htext : args.text = ""
    · simp [htext]
    · rw [if_neg htext]
      refine ⟨iff_of_true ⟨_, rfl⟩ htext, fun r hr other hother => ?_⟩
      cases hr
      exact prepareManual_ok hgraph hother

end Law

/-! ### A picture from two sources -/

/-- A picture with assets and library references. -/
def picture (id : String) (assets : List Int) (library : List ImagePromptLibraryRef) : CanvasNode Int Unit where
  id := id
  kind := IMAGE
  data := {
    fields := fun
      | .output_asset_ids => some assets
      | .library_refs => some library
      | _ => none
    config := none }

/-- Two nodes are wired to the references of `c`, one of them twice, and `c` to its own. -/
def album : Canvas Int Unit where
  nodes := [
    picture "a" [11, 0, 12] [],
    picture "b" [12, 13] [],
    picture "c" [14] [⟨⟨12, by decide⟩, none, "u", none, none⟩]]
  edges := ["a", "b", "a", "c"].map fun source => ⟨source, "c", .OUTPUT_ASSET, .REFERENCE_ASSET⟩
  hasMeta := true
  ids_nodup := by decide

example : connectedAssets album "c" = [11, 12, 13, 14] := by decide

/-- Agent mode accepts two of the four assets and appends the third, which is in the library. -/
theorem album_submitted : ∃ resolved, resolveNodeInputs album "c" = .ok resolved ∧
    (∀ slot ∈ resolved.refs, Wired album "c" slot) ∧
    ∃ r, prepareNodeSubmit album "c" ⟨some "a lake", some [11, 13], none, none, none⟩ .agent = .ok r ∧
      r.refAssetIds = [11, 13, 12] := by
  obtain ⟨resolved, hresolved, hwait⟩ : ∃ resolved, resolveNodeInputs album "c" = .ok resolved ∧
      resolved.waitingOn = [] := ⟨_, rfl, by decide⟩
  obtain ⟨hwired, hlaw⟩ := node_submit_law album "c" resolved hresolved
  obtain ⟨hiff, hrefs⟩ := (hlaw hwait ⟨some "a lake", some [11, 13], none, none, none⟩).1 [11, 13] rfl (by decide)
  obtain ⟨r, hr⟩ := hiff.2 ⟨by decide, by decide⟩
  refine ⟨resolved, hresolved, hwired, r, hr, ?_⟩
  rw [(hrefs r hr).1]
  decide

end NexusStudio.NodeSubmit
