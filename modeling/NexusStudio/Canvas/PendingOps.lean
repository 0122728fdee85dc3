import Mathlib
import NexusStudio.Canvas.Node

/-!
# Pending operations of the canvas

A call of `apply_canvas_patch` or `submit_node_generation` that waits for the user: it is recorded as a view of the node
that it would make, and rebuilt from that view when the user confirms.

* (record) An update is shown merged into the node that is there.
* (rebuild) The fields of the view that a client may write become arguments again, without those that are null.
* (law) The rebuilt arguments do to every canvas what the recorded ones do.
* (defect) A field that the arguments set to null is missing in the rebuilt ones, so it is not cleared; and a tool that
  is handed its arguments as a model takes every field that is missing as null.
-/

set_option linter.unusedSectionVars false

namespace NexusStudio.PendingOps

open CanvasNodes (CanvasNodeKind CanvasNodeStatus)

/-! ### Node data -/

inductive MediaType
  | image
  | video
  | audio
  deriving DecidableEq, Repr

/-- `WorkflowPromptContentSegment`. -/
inductive Segment
  | text (text : String)
  | media (type : MediaType) (assetId : Option Nat) (url : String) (label referenceType : Option String)
  | textRef (text : String)
  deriving DecidableEq, Repr

inductive Content
  | text (text : String)
  | segments (l : List Segment)
  deriving DecidableEq, Repr

structure ImagePromptLibraryRef where
  assetId : Nat
  type : Option MediaType
  url : String
  thumbUrl : Option String
  name : Option String
  deriving DecidableEq, Repr

/-- The fields of `CanvasNodeData` that a client may write, without `config`. -/
inductive ClientField
  | title
  | prompt
  | content
  | promptContent
  | model
  | libraryRefs
  deriving DecidableEq, Repr

abbrev ClientField.Type : ClientField → Type
  | .title | .prompt | .model => String
  | .content => Content
  | .promptContent => List Segment
  | .libraryRefs => List ImagePromptLibraryRef

def ClientField.all : List ClientField := [.title, .prompt, .content, .promptContent, .model, .libraryRefs]

/-- The fields of `CanvasNodeConfig`. -/
inductive ConfigField
  | model
  | textNum
  | imgNum
  | ratio
  | aspectRatio
  | resolution
  | imageSize
  | mode
  | duration
  | durationSec
  | referenceMode
  | voiceId
  | voiceName
  | speed
  | vol
  | pitch
  | emotion
  deriving DecidableEq, Repr

/-- Floats are of a type `φ`. -/
abbrev ConfigField.Type (φ : Type) : ConfigField → Type
  | .textNum | .imgNum | .durationSec | .referenceMode | .pitch => Int
  | .speed | .vol => φ
  | _ => String

abbrev CanvasNodeConfig (φ : Type) := (k : ConfigField) → Option (k.Type φ)

/-- The values of `CanvasNodeData`; the fields that only the system writes are the status and a record of type `σ`. -/
structure CanvasNodeData (φ σ : Type) where
  client : (f : ClientField) → Option f.Type
  config : Option (CanvasNodeConfig φ)
  status : Option CanvasNodeStatus
  projected : σ

/-- A config as it is given: a field may be missing, or null. -/
abbrev PatchConfig (φ : Type) := (k : ConfigField) → Option (Option (k.Type φ))

/-- `PatchNodeDataLlm`, with `model_fields_set`. -/
structure PatchNodeData (φ : Type) where
  client : (f : ClientField) → Option (Option f.Type)
  config : Option (Option (PatchConfig φ))

section Data

variable {φ σ : Type}

/-- `validate_node_data_content`. -/
def contentOk : CanvasNodeKind → Option Content → Bool
  | .TEXT, some (.segments _) => false
  | .IMAGE, some (.text _) | .VIDEO, some (.text _) | CanvasNodeKind.AUDIO, some (.text _) => false
  | _, _ => true

def CanvasNodeData.contentOk (kind : CanvasNodeKind) (d : CanvasNodeData φ σ) : Bool :=
  PendingOps.contentOk kind (d.client .content)

/-- `existing_config` with `patch_config` over it. -/
def mergeConfig (existing : Option (CanvasNodeConfig φ)) (patch : PatchConfig φ) : CanvasNodeConfig φ :=
  fun k => (patch k).getD (existing.bind fun c => c k)

/-- `merge_client_node_data`, before the content is checked. -/
def CanvasNodeData.merge (existing : CanvasNodeData φ σ) (patch : PatchNodeData φ) : CanvasNodeData φ σ :=
  { existing with
    client := fun f => (patch.client f).getD (existing.client f)
    config := match patch.config with
      | none => existing.config
      | some none => none
      | some (some c) => some (mergeConfig existing.config c) }

/-- The model of given data, where what is missing is null. -/
def PatchNodeData.values [Inhabited σ] (p : PatchNodeData φ) : CanvasNodeData φ σ where
  client f := (p.client f).join
  config := p.config.join.map fun c k => (c k).join
  status := none
  projected := default

/-- The model of given data, dumped with what is missing. -/
def PatchNodeData.dumped (p : PatchNodeData φ) : PatchNodeData φ where
  client f := some (p.client f).join
  config := some (p.config.join.map fun c k => some (c k).join)

/-- `dump_client_writable_node_data`. -/
def CanvasNodeData.writable (d : CanvasNodeData φ σ) : PatchNodeData φ where
  client f := (d.client f).map some
  config := d.config.map fun c => some fun k => (c k).map some

/-- An empty dict. -/
def PatchNodeData.isEmpty (p : PatchNodeData φ) : Bool :=
  ClientField.all.all (fun f => (p.client f).isNone) && p.config.isNone

/-- `ensure_create_defaults`. -/
def CanvasNodeData.createDefaults (kind : CanvasNodeKind) (d : CanvasNodeData φ σ) : CanvasNodeData φ σ :=
  { d with
    status := some (d.status.getD .IDLE)
    client := fun f => match f with
      | .content => if kind = .TEXT then some ((d.client .content).getD (.text "")) else d.client .content
      | f => d.client f }

end Data

/-! ### Operations on a canvas -/

/-- UUIDs of a type `ι` and their texts. -/
structure Uuids (ι : Type) where
  parse : String → Option ι
  str : ι → String
  parse_str : ∀ id, parse (str id) = some id

/-- `PatchNodeOperationLlm`. -/
inductive NodeOperation (φ : Type)
  | createNode (kind : CanvasNodeKind) (position : φ × φ) (width height : Option φ) (data : PatchNodeData φ)
  | updateNode (id : String) (revision : Int) (position : Option (φ × φ)) (width height : Option φ)
      (data : Option (PatchNodeData φ))

/-- `CreateNodeOp` and `UpdateNodeOp`. -/
inductive PatchOp (φ σ ι : Type)
  | createNode (kind : CanvasNodeKind) (position : φ × φ) (width height : Option φ) (data : CanvasNodeData φ σ)
  | updateNode (id : ι) (revision : Int) (position : Option (φ × φ)) (width height : Option φ)
      (data : Option (PatchNodeData φ))

/-- A row of `canvas_nodes`, with the kind of the node. -/
structure Row (φ σ : Type) (kind : CanvasNodeKind) where
  revision : Int
  position : φ × φ
  width : Option φ
  height : Option φ
  data : CanvasNodeData φ σ
  valid : data.contentOk kind = true

/-- The live nodes of an episode; an id stands for a node of one kind. -/
abbrev Canvas (φ σ : Type) {ι : Type} (kindOf : ι → CanvasNodeKind) := (id : ι) → Option (Row φ σ (kindOf id))

/-- What a patch does: a row for a new id, or rows that are changed. -/
inductive Outcome (φ σ : Type) {ι : Type} (kindOf : ι → CanvasNodeKind)
  | created (kind : CanvasNodeKind) (row : Row φ σ kind)
  | updated (canvas : Canvas φ σ kindOf)

inductive ToolError (ι : Type)
  | invalid (message : String)
  | nodeNotFound (id : ι)
  | revisionConflict (id : ι) (expectedRevision actualRevision : Int)
  deriving DecidableEq, Repr

/-- How the tool is handed its argument: as the dict of the call, or as the model that `args_schema` made of it. -/
inductive Handed
  | dict
  | model
  deriving DecidableEq, Repr

def Handed.data {φ : Type} : Handed → PatchNodeData φ → PatchNodeData φ
  | .dict, p => p
  | .model, p => p.dumped

section Model

variable {φ σ ι : Type} [Inhabited σ] [DecidableEq ι] (U : Uuids ι) {kindOf : ι → CanvasNodeKind}

/-- `ApplyCanvasPatchInput` of what the tool is handed. -/
def Handed.operation (h : Handed) : NodeOperation φ → NodeOperation φ
  | .createNode kind position width height data => .createNode kind position width height (h.data data)
  | .updateNode id revision position width height data =>
    .updateNode id revision position width height (data.map h.data)

def contentMessage : CanvasNodeKind → String
  | .TEXT => "text node data.content must be string"
  | _ => "media node data.content must be prompt content array"

/-- `llm_node_operation_to_patch_op`. -/
def llmNodeOperationToPatchOp : NodeOperation φ → Except (ToolError ι) (PatchOp φ σ ι)
  | .createNode kind position width height data =>
    let values : CanvasNodeData φ σ := data.values
    if values.contentOk kind then .ok (.createNode kind position width height values)
    else .error (.invalid (contentMessage kind))
  | .updateNode id revision position width height data =>
    if revision < 1 then .error (.invalid "revision")
    else
      match U.parse id with
      | none => .error (.invalid "badly formed hexadecimal UUID string")
      | some id => .ok (.updateNode id revision position width height data)

/-- The row after an update that gets past the revision. -/
def Row.update {kind : CanvasNodeKind} (row : Row φ σ kind) (position : Option (φ × φ)) (width height : Option φ)
    (data : CanvasNodeData φ σ) (valid : data.contentOk kind = true) : Row φ σ kind :=
  ⟨row.revision + 1, position.getD row.position, width.or row.width, height.or row.height, data, valid⟩

/-- The operation in `apply_patch`. -/
def applyPatch (s : Canvas φ σ kindOf) : PatchOp φ σ ι → Except (ToolError ι) (Outcome φ σ kindOf)
  | .createNode kind position width height data =>
    if valid : (data.createDefaults kind).contentOk kind = true then
      .ok (.created kind ⟨1, position, width, height, data.createDefaults kind, valid⟩)
    else .error (.invalid (contentMessage kind))
  | .updateNode id revision position width height data =>
    match s id with
    | none => .error (.nodeNotFound id)
    | some row =>
      if row.revision ≠ revision then .error (.revisionConflict id revision row.revision)
      else
        match data with
        | none => .ok (.updated (Function.update s id (some (row.update position width height row.data row.valid))))
        | some p =>
          if valid : (row.data.merge p).contentOk (kindOf id) = true then
            .ok (.updated (Function.update s id (some (row.update position width height (row.data.merge p) valid))))
          else .error (.invalid (contentMessage (kindOf id)))

/-- The tool `apply_canvas_patch`. -/
def applyCanvasPatch (h : Handed) (op : NodeOperation φ) (s : Canvas φ σ kindOf) :
    Except (ToolError ι) (Outcome φ σ kindOf) :=
  match llmNodeOperationToPatchOp U (h.operation op) with
  | .error e => .error e
  | .ok op => applyPatch s op

/-! ### Record and rebuild -/

/-- `CanvasNodeView`. -/
structure CanvasNodeView (φ σ ι : Type) where
  id : ι
  kind : CanvasNodeKind
  revision : Int
  position : φ × φ
  width : Option φ
  height : Option φ
  data : CanvasNodeData φ σ

inductive PendingType
  | create
  | update
  deriving DecidableEq, Repr

structure PendingCanvasPatchOperation (φ σ ι : Type) where
  type : PendingType
  nodes : List (CanvasNodeView φ σ ι)

/-- `pending_from_node_op`, with the id that `uuid4` gives a new node. -/
def pendingFromNodeOp (s : Canvas φ σ kindOf) (uuid : ι) :
    PatchOp φ σ ι → Except (ToolError ι) (PendingCanvasPatchOperation φ σ ι)
  | .createNode kind position width height data =>
    .ok ⟨.create, [⟨uuid, kind, 1, position, width, height, data⟩]⟩
  | .updateNode id revision position width height data =>
    match s id with
    | none => .error (.nodeNotFound id)
    | some row =>
      let merged := (data.map row.data.merge).getD row.data
      if merged.contentOk (kindOf id) then
        .ok ⟨.update, [⟨id, kindOf id, revision, position.getD row.position, width.or row.width,
          height.or row.height, merged⟩]⟩
      else .error (.invalid (contentMessage (kindOf id)))

/-- `_enrich_patch_operation`, which reads the dict of the call. -/
def enrichPatchOperation (s : Canvas φ σ kindOf) (uuid : ι) (op : NodeOperation φ) :
    Except (ToolError ι) (PendingCanvasPatchOperation φ σ ι) :=
  match llmNodeOperationToPatchOp U op with
  | .error e => .error e
  | .ok op => pendingFromNodeOp s uuid op

/-- `_edited_patch_args`. -/
def editedPatchArgs (pending : PendingCanvasPatchOperation φ σ ι) : Except String (NodeOperation φ) :=
  match pending.nodes with
  | [node] =>
    let writable := node.data.writable
    match pending.type with
    | .create =>
      if (writable.values : CanvasNodeData φ σ).contentOk node.kind then
        .ok (.createNode node.kind node.position node.width node.height writable)
      else .error (contentMessage node.kind)
    | .update =>
      if node.revision < 1 then .error "revision"
      else
        .ok (.updateNode (U.str node.id) node.revision (some node.position) node.width node.height
          (if writable.isEmpty then none else some writable))
  | _ => .error "pending create/update requires exactly one node"

/-! ### Generations -/

/-- `SubmitNodeGenerationInput` without the node. -/
structure SubmitRequest where
  kind : CanvasNodeKind
  prompt : String
  modelId : String
  voiceId : Option String
  ratio : Option String
  resolution : Option String
  count : Int
  duration : Option Int
  referenceMode : Option Int
  refAssetIds : List Int
  expectedRevision : Option Int
  deriving DecidableEq, Repr

structure SubmitArgs where
  nodeId : String
  request : SubmitRequest
  deriving DecidableEq, Repr

/-- What the fields of `SubmitNodeGenerationInput` and its enums allow. -/
def SubmitRequest.valid (r : SubmitRequest) : Bool :=
  r.kind ≠ .TEXT && r.prompt ≠ "" && r.modelId ≠ "" && 1 ≤ r.count && r.count ≤ 6 &&
    r.duration.all (fun d => 3 ≤ d && d ≤ 15) && r.referenceMode.all fun m => 1 ≤ m && m ≤ 4

/-- A text that is there and not empty. -/
def truthy (text : Option String) : Option String := text.filter fun t => t ≠ ""

/-- `PendingGenerateOperation`. -/
structure PendingGenerateOperation (φ σ ι : Type) where
  node : CanvasNodeView φ σ ι
  submitArgs : SubmitArgs

/-- The config that the card shows. -/
def SubmitRequest.config (r : SubmitRequest) : CanvasNodeConfig φ
  | .model => some r.modelId
  | .voiceId => truthy r.voiceId
  | .ratio => truthy r.ratio
  | .resolution => truthy r.resolution
  | .durationSec => r.duration
  | .duration => r.duration.map (toString : Int → String)
  | .referenceMode => r.referenceMode
  | .imgNum => some r.count
  | .textNum | .aspectRatio | .imageSize | .mode | .voiceName | .speed | .vol | .pitch | .emotion => none

def SubmitRequest.data (r : SubmitRequest) : CanvasNodeData φ σ where
  client f := match f with
    | .prompt => some r.prompt
    | .model => some r.modelId
    | .title | .content | .promptContent | .libraryRefs => none
  config := some r.config
  status := none
  projected := default

/-- `_enrich_generate_operation`, with the position zero. -/
def enrichGenerateOperation (zero : φ) (args : SubmitArgs) :
    Except (ToolError ι) (PendingGenerateOperation φ σ ι) :=
  if args.request.valid = false then .error (.invalid "submit_node_generation")
  else
    match U.parse args.nodeId with
    | none => .error (.invalid "badly formed hexadecimal UUID string")
    | some id =>
      let revision := match args.request.expectedRevision with
        | some n => if n = 0 then 1 else n
        | none => 1
      .ok ⟨⟨id, args.request.kind, revision, (zero, zero), none, none, args.request.data⟩, args⟩

/-- `_edited_generate_args`, with `int` of a text of digits. -/
def editedGenerateArgs (intOfDigits : String → Option Int) (pending : PendingGenerateOperation φ σ ι) :
    Except String SubmitArgs :=
  let data := pending.node.data
  let args := pending.submitArgs.request
  let args := { args with kind := pending.node.kind }
  let args := { args with prompt := (truthy (data.client .prompt)).getD args.prompt }
  let model := (truthy (data.client .model)).or (truthy (data.config.bind fun c => c .model))
  let args := { args with modelId := model.getD args.modelId }
  if args.modelId = "" then .error "pending generate missing model_id"
  else if args.prompt = "" then .error "pending generate missing prompt"
  else
    match data.config with
    | none => .ok ⟨U.str pending.node.id, args⟩
    | some config =>
      let duration : Option Int := (config .durationSec).or ((truthy (config .duration)).bind intOfDigits)
      .ok ⟨U.str pending.node.id,
        { args with
          voiceId := (truthy (config .voiceId)).or args.voiceId
          ratio := (truthy (config .ratio)).or args.ratio
          resolution := (truthy (config .resolution)).or args.resolution
          duration := duration.or args.duration
          referenceMode := (config .referenceMode).or args.referenceMode
          count := (config .imgNum).getD args.count }⟩

/-- The tool `submit_node_generation`, which finds the node by its UUID. -/
def submitNodeGeneration {α : Type} (run : ι → SubmitRequest → α) (args : SubmitArgs) : Except (ToolError ι) α :=
  if args.request.valid = false then .error (.invalid "submit_node_generation")
  else
    match U.parse args.nodeId with
    | none => .error (.invalid "node not found")
    | some id => .ok (run id args.request)

/-! ### The law -/

/-- What the arguments do to a field that was recorded with one value and has one now, the rebuilt ones do as well. -/
def Kept {α : Type} (h : Handed) (given : Option (Option α)) (recorded now : Option α) : Prop :=
  match h, given with
  | .dict, none => recorded = none ∨ recorded = now
  | .dict, some none => now = none
  | .model, none => recorded = none
  | _, _ => True

def configAt (c : Option (CanvasNodeConfig φ)) (k : ConfigField) : Option (k.Type φ) := c.bind fun c => c k

def KeptConfig (h : Handed) (given : Option (Option (PatchConfig φ))) (recorded now : Option (CanvasNodeConfig φ)) :
    Prop :=
  match given with
  | none => recorded = none ∨
      h = .dict ∧ recorded.isSome ∧ now.isSome ∧ ∀ k, Kept .dict none (configAt recorded k) (configAt now k)
  | some none => h = .dict → now = none
  | some (some c) => ∀ k, Kept h (c k) (configAt recorded k) (configAt now k)

def KeptPatch (h : Handed) (p : PatchNodeData φ) (recorded now : CanvasNodeData φ σ) : Prop :=
  (∀ f, Kept h (p.client f) (recorded.client f) (now.client f)) ∧
    KeptConfig h p.config recorded.config now.config

/-- The fields that a client may write. -/
def CanvasNodeData.SameClient (d d' : CanvasNodeData φ σ) : Prop := d.client = d'.client ∧ d.config = d'.config

/-- A model takes every field that is missing as null, and rebuilt arguments without data leave the node alone. -/
def KeptData (h : Handed) (data : Option (PatchNodeData φ)) (recorded now : CanvasNodeData φ σ) : Prop :=
  match h, data with
  | .dict, data => KeptPatch .dict (data.getD ⟨fun _ => none, none⟩) recorded now
  | .model, none => recorded.writable.isEmpty = true ∨ recorded.SameClient now
  | .model, some p =>
    if (recorded.merge p).writable.isEmpty then now.writable.isEmpty = true else KeptPatch .model p recorded now

/-- The recorded node and the node now agree in what the arguments leave out, and the arguments null nothing that is
there. -/
def Faithful (h : Handed) (op : NodeOperation φ) (s₀ s₁ : Canvas φ σ kindOf) : Prop :=
  match op with
  | .createNode .. => True
  | .updateNode id revision position width height data =>
    ∀ u, U.parse id = some u → ∀ row₀ ∈ s₀ u, ∀ row₁ ∈ s₁ u, row₁.revision = revision →
      (position = none → row₀.position = row₁.position) ∧
        Kept .dict (width.map some) row₀.width row₁.width ∧ Kept .dict (height.map some) row₀.height row₁.height ∧
          KeptData h data row₀.data row₁.data

end Model

/-! ### Fields -/

section Proofs

variable {φ σ ι : Type} [Inhabited σ] [DecidableEq ι] {U : Uuids ι} {kindOf : ι → CanvasNodeKind}
  {recorded now : CanvasNodeData φ σ} {p : PatchNodeData φ}

theorem kept_dict_iff {α : Type} {given : Option (Option α)} {r n : Option α} :
    given.getD n = ((given.getD r).map some).getD n ↔ Kept .dict given r n := by
  cases given with
  | none =>
    cases r with
    | none => exact ⟨fun _ => .inl rfl, fun _ => rfl⟩
    | some a => exact ⟨fun h => .inr h.symm, fun h => (h.resolve_left (by simp)).symm⟩
  | some v =>
    cases v with
    | none => exact eq_comm
    | some a => exact ⟨fun _ => trivial, fun _ => rfl⟩

theorem kept_model_iff {α : Type} {given : Option (Option α)} {r n : Option α} :
    given.join = given.getD r ↔ Kept .model given r n := by
  cases given with
  | none => exact eq_comm
  | some v => exact ⟨fun _ => trivial, fun _ => rfl⟩

theorem join_map_some {α : Type} (v : Option α) : (v.map some).join = v := by
  cases v with
  | none => rfl
  | some a => rfl

theorem isEmpty_iff : p.isEmpty = true ↔ (∀ f, p.client f = none) ∧ p.config = none := by
  unfold PatchNodeData.isEmpty
  rw [Bool.and_eq_true, List.all_eq_true, Option.isNone_iff_eq_none]
  refine and_congr_left fun _ => ⟨fun h f => ?_, fun h f _ => Option.isNone_iff_eq_none.2 (h f)⟩
  exact Option.isNone_iff_eq_none.1 (h f (by cases f <;> decide))

theorem writable_isEmpty_iff {d : CanvasNodeData φ σ} :
    d.writable.isEmpty = true ↔ (∀ f, d.client f = none) ∧ d.config = none := by
  rw [isEmpty_iff]
  simp only [CanvasNodeData.writable, Option.map_eq_none_iff]

/-- Data merged is the same where its fields are. -/
theorem merge_eq_iff {d : CanvasNodeData φ σ} {p q : PatchNodeData φ} :
    d.merge p = d.merge q ↔ (∀ f, (d.merge p).client f = (d.merge q).client f) ∧
      (d.merge p).config = (d.merge q).config := by
  constructor
  · intro h
    rw [h]
    exact ⟨fun _ => rfl, rfl⟩
  · rintro ⟨hclient, hconfig⟩
    have h := congrArg (fun c => (⟨c, (d.merge q).config, d.status, d.projected⟩ : CanvasNodeData φ σ))
      (funext hclient)
    refine Eq.trans ?_ h
    rw [← hconfig]
    rfl

theorem merge_empty {d : CanvasNodeData φ σ} (h : p.isEmpty = true) : d.merge p = d := by
  obtain ⟨hclient, hconfig⟩ := isEmpty_iff.1 h
  unfold CanvasNodeData.merge
  simp only [hclient, hconfig, Option.getD_none]

/-- A config that is written over one with the fields it shows that are there. -/
theorem some_mergeConfig_iff {c : PatchConfig φ} {r n : Option (CanvasNodeConfig φ)} :
    (some (mergeConfig n c) : Option (CanvasNodeConfig φ)) =
        some (mergeConfig n fun k => (mergeConfig r c k).map some) ↔
      ∀ k, Kept .dict (c k) (configAt r k) (configAt n k) := by
  rw [Option.some.injEq, funext_iff]
  exact forall_congr' fun k => kept_dict_iff

theorem config_dict_iff : (now.merge p).config = (now.merge (recorded.merge p).writable).config ↔
    KeptConfig .dict p.config recorded.config now.config := by
  obtain ⟨client, config⟩ := p
  cases config with
  | none =>
    cases hr : recorded.config with
    | none => simp only [CanvasNodeData.merge, CanvasNodeData.writable, KeptConfig, hr, Option.map_none, true_or]
    | some r =>
      cases hn : now.config with
      | none => simp [CanvasNodeData.merge, CanvasNodeData.writable, KeptConfig, hr, hn]
      | some n =>
        have hall := some_mergeConfig_iff (c := fun _ => none) (r := some r) (n := some n)
        simp only [CanvasNodeData.merge, CanvasNodeData.writable, KeptConfig, hr, hn, Option.map_some,
          reduceCtorEq, Option.isSome_some, false_or, true_and]
        exact hall
  | some given =>
    cases given with
    | none =>
      simp only [CanvasNodeData.merge, CanvasNodeData.writable, KeptConfig, Option.map_none, true_imp_iff]
      exact eq_comm
    | some c =>
      simp only [CanvasNodeData.merge, CanvasNodeData.writable, KeptConfig, Option.map_some]
      exact some_mergeConfig_iff

theorem mergeConfig_dumped (n : Option (CanvasNodeConfig φ)) (r : CanvasNodeConfig φ) :
    mergeConfig n (fun k => some ((r k).map some).join) = r := by
  funext k
  simp only [mergeConfig, join_map_some, Option.getD_some]

theorem config_model_iff : (now.merge p.dumped).config = (now.merge (recorded.merge p).writable.dumped).config ↔
    KeptConfig .model p.config recorded.config now.config := by
  obtain ⟨client, config⟩ := p
  cases config with
  | none =>
    cases hr : recorded.config with
    | none =>
      simp [CanvasNodeData.merge, CanvasNodeData.writable, PatchNodeData.dumped, KeptConfig, hr]
    | some r =>
      simp [CanvasNodeData.merge, CanvasNodeData.writable, PatchNodeData.dumped, KeptConfig, hr]
  | some given =>
    cases given with
    | none => simp [CanvasNodeData.merge, CanvasNodeData.writable, PatchNodeData.dumped, KeptConfig]
    | some c =>
      simp only [CanvasNodeData.merge, CanvasNodeData.writable, PatchNodeData.dumped, KeptConfig, Option.join_some,
        Option.map_some, mergeConfig_dumped, Option.some.injEq, funext_iff]
      exact forall_congr' fun k => kept_model_iff

theorem dict_iff : now.merge p = now.merge (recorded.merge p).writable ↔ KeptPatch .dict p recorded now := by
  rw [merge_eq_iff, config_dict_iff]
  exact and_congr_left fun _ => forall_congr' fun f => kept_dict_iff

theorem model_iff :
    now.merge p.dumped = now.merge (recorded.merge p).writable.dumped ↔ KeptPatch .model p recorded now := by
  rw [merge_eq_iff, config_model_iff]
  refine and_congr_left fun _ => forall_congr' fun f => ?_
  have hshown : (now.merge (recorded.merge p).writable.dumped).client f = (p.client f).getD (recorded.client f) :=
    join_map_some _
  rw [hshown]
  exact kept_model_iff

/-- The fields of another node, written as a model, are its own. -/
theorem merge_writable_dumped_iff : now = now.merge recorded.writable.dumped ↔ recorded.SameClient now := by
  have hclient : (now.merge recorded.writable.dumped).client = recorded.client := by
    funext f
    exact join_map_some _
  have hconfig : (now.merge recorded.writable.dumped).config = recorded.config := by
    unfold CanvasNodeData.merge CanvasNodeData.writable PatchNodeData.dumped
    cases recorded.config with
    | none => rfl
    | some r => exact congrArg some (mergeConfig_dumped _ r)
  constructor
  · intro h
    rw [← h] at hclient hconfig
    exact ⟨hclient.symm, hconfig.symm⟩
  · rintro ⟨hc, hk⟩
    have hnow : now = ⟨recorded.client, recorded.config, now.status, now.projected⟩ := by rw [hc, hk]
    rw [← hclient, ← hconfig] at hnow
    exact hnow

/-- A model of fields that are all null empties the node. -/
theorem merge_dumped_eq_iff (h : (recorded.merge p).writable.isEmpty = true) :
    now.merge p.dumped = now ↔ now.writable.isEmpty = true := by
  obtain ⟨hclient, hconfig⟩ := writable_isEmpty_iff.1 h
  have hnull : (∀ f, (now.merge p.dumped).client f = none) ∧ (now.merge p.dumped).config = none := by
    refine ⟨fun f => ?_, ?_⟩
    · have hf : (p.client f).getD (recorded.client f) = none := hclient f
      change (p.client f).join = none
      cases hp : p.client f with
      | none => rfl
      | some v =>
        rw [hp] at hf
        exact hf
    · simp only [CanvasNodeData.merge] at hconfig
      simp only [CanvasNodeData.merge, PatchNodeData.dumped]
      cases hp : p.config with
      | none => rfl
      | some v =>
        cases v with
        | none => rfl
        | some c =>
          rw [hp] at hconfig
          cases hconfig
  rw [writable_isEmpty_iff]
  constructor
  · intro h
    rwa [h] at hnull
  · rintro ⟨hc, hk⟩
    refine Eq.trans (merge_eq_iff.2 ⟨fun f => ?_, ?_⟩) (merge_empty (p := ⟨fun _ => none, none⟩) rfl)
    · exact (hnull.1 f).trans (hc f).symm
    · exact hnull.2.trans hk.symm

/-! ### Updates -/

/-- The data of a node after an update. -/
def dataAfter (h : Handed) (data : Option (PatchNodeData φ)) (d : CanvasNodeData φ σ) : CanvasNodeData φ σ :=
  (data.map fun p => d.merge (h.data p)).getD d

/-- The data that is shown, and what is rebuilt from it. -/
def shownData (data : Option (PatchNodeData φ)) (d : CanvasNodeData φ σ) : CanvasNodeData φ σ :=
  (data.map d.merge).getD d

def rebuiltData (d : CanvasNodeData φ σ) : Option (PatchNodeData φ) :=
  if d.writable.isEmpty then none else some d.writable

theorem dataAfter_rebuilt (h : Handed) (d : CanvasNodeData φ σ) : dataAfter h (rebuiltData d) now =
    if d.writable.isEmpty then now else now.merge (h.data d.writable) := by
  unfold dataAfter rebuiltData
  split
  · rfl
  · rfl

theorem dataAfter_iff (h : Handed) (data : Option (PatchNodeData φ)) :
    dataAfter h data now = dataAfter h (rebuiltData (shownData data recorded)) now ↔ KeptData h data recorded now := by
  rw [dataAfter_rebuilt]
  cases h with
  | dict =>
    have hafter : dataAfter .dict data now = now.merge (data.getD ⟨fun _ => none, none⟩) := by
      cases data with
      | none => exact (merge_empty rfl).symm
      | some p => rfl
    have hshown : shownData data recorded = recorded.merge (data.getD ⟨fun _ => none, none⟩) := by
      cases data with
      | none => exact (merge_empty rfl).symm
      | some p => rfl
    have hrebuilt : (if (shownData data recorded).writable.isEmpty then now
        else now.merge (shownData data recorded).writable) = now.merge (shownData data recorded).writable := by
      split
      · next hempty => exact (merge_empty hempty).symm
      · rfl
    rw [hafter, Handed.data, hrebuilt, hshown, dict_iff]
    rfl
  | model =>
    cases data with
    | none =>
      change (now = if recorded.writable.isEmpty then now else now.merge recorded.writable.dumped) ↔
        recorded.writable.isEmpty = true ∨ recorded.SameClient now
      by_cases hempty : recorded.writable.isEmpty = true
      · rw [if_pos hempty]
        exact ⟨fun _ => .inl hempty, fun _ => rfl⟩
      · rw [if_neg hempty, merge_writable_dumped_iff]
        exact ⟨.inr, fun h => h.resolve_left hempty⟩
    | some p =>
      change (now.merge p.dumped = if (recorded.merge p).writable.isEmpty then now
          else now.merge (recorded.merge p).writable.dumped) ↔
        if (recorded.merge p).writable.isEmpty then now.writable.isEmpty = true else KeptPatch .model p recorded now
      by_cases hempty : (recorded.merge p).writable.isEmpty = true
      · rw [if_pos hempty, if_pos hempty]
        exact merge_dumped_eq_iff hempty
      · rw [if_neg hempty, if_neg hempty]
        exact model_iff

theorem contentOk_none (kind : CanvasNodeKind) : contentOk kind none = true := by cases kind <;> rfl

/-- A field that is written, left or nulled holds what was checked. -/
theorem contentOk_getD {kind : CanvasNodeKind} {given : Option (Option Content)} {r n : Option Content}
    (hr : contentOk kind (given.getD r) = true) (hn : contentOk kind n = true) :
    contentOk kind (given.getD n) = true ∧ contentOk kind given.join = true := by
  cases given with
  | none => exact ⟨hn, contentOk_none kind⟩
  | some v => exact ⟨hr, hr⟩

theorem contentOk_after {kind : CanvasNodeKind} (h : Handed) {data : Option (PatchNodeData φ)}
    (hshown : (shownData data recorded).contentOk kind = true) (hnow : now.contentOk kind = true) :
    (dataAfter h data now).contentOk kind = true := by
  cases data with
  | none => exact hnow
  | some p =>
    obtain ⟨hdict, hmodel⟩ := contentOk_getD hshown hnow
    cases h with
    | dict => exact hdict
    | model => exact hmodel

theorem contentOk_rebuilt {kind : CanvasNodeKind} (h : Handed) {d : CanvasNodeData φ σ}
    (hd : d.contentOk kind = true) (hnow : now.contentOk kind = true) :
    (dataAfter h (rebuiltData d) now).contentOk kind = true := by
  have hgiven : contentOk kind (((d.client .content).map some).getD none) = true := by
    cases hc : d.client .content with
    | none => exact contentOk_none kind
    | some c =>
      have hok : contentOk kind (d.client .content) = true := hd
      rw [hc] at hok
      exact hok
  obtain ⟨hdict, hmodel⟩ := contentOk_getD hgiven hnow
  rw [dataAfter_rebuilt]
  split
  · exact hnow
  · cases h with
    | dict => exact hdict
    | model => exact hmodel

section Updates

variable {h : Handed} {s s₀ s₁ : Canvas φ σ kindOf} {uuid u : ι} {id : String} {revision : Int}
  {position : Option (φ × φ)} {width height : Option φ} {data : Option (PatchNodeData φ)}
  {pending : PendingCanvasPatchOperation φ σ ι}

theorem operation_update (hrevision : ¬ revision < 1) (hid : U.parse id = some u) :
    applyCanvasPatch U h (.updateNode id revision position width height data) s =
      applyPatch s (.updateNode u revision position width height (data.map h.data)) := by
  unfold applyCanvasPatch
  simp only [Handed.operation, llmNodeOperationToPatchOp, if_neg hrevision, hid]

theorem applyPatch_update {row : Row φ σ (kindOf u)} (hrow : s u = some row) (heq : row.revision = revision)
    (valid : (dataAfter h data row.data).contentOk (kindOf u) = true) :
    applyPatch s (.updateNode u revision position width height (data.map h.data)) =
      .ok (.updated (Function.update s u
        (some (row.update position width height (dataAfter h data row.data) valid)))) := by
  simp only [applyPatch, hrow, heq, ne_eq, not_true_eq_false, if_false]
  cases data with
  | none => rfl
  | some p => exact dif_pos valid

theorem enrich_update (hp : enrichPatchOperation U s uuid (.updateNode id revision position width height data) =
    .ok pending) : ∃ u row, U.parse id = some u ∧ ¬ revision < 1 ∧ s u = some row ∧
      (shownData data row.data).contentOk (kindOf u) = true ∧
      pending = ⟨.update, [⟨u, kindOf u, revision, position.getD row.position, width.or row.width,
        height.or row.height, shownData data row.data⟩]⟩ := by
  unfold enrichPatchOperation llmNodeOperationToPatchOp at hp
  by_cases hrevision : revision < 1
  · simp only [if_pos hrevision, reduceCtorEq] at hp
  · simp only [if_neg hrevision] at hp
    cases hid : U.parse id with
    | none => simp only [hid, reduceCtorEq] at hp
    | some u =>
      simp only [hid, pendingFromNodeOp] at hp
      cases hrow : s u with
      | none => simp only [hrow, reduceCtorEq] at hp
      | some row =>
        simp only [hrow] at hp
        split at hp
        · next hok => exact ⟨u, row, rfl, hrevision, hrow, hok, (Except.ok.inj hp).symm⟩
        · cases hp

theorem row_update_eq_iff {kind : CanvasNodeKind} {row : Row φ σ kind} {p p' : Option (φ × φ)} {w w' t t' : Option φ}
    {d d' : CanvasNodeData φ σ} {v : d.contentOk kind = true} {v' : d'.contentOk kind = true} :
    row.update p w t d v = row.update p' w' t' d' v' ↔ p.getD row.position = p'.getD row.position ∧
      w.or row.width = w'.or row.width ∧ t.or row.height = t'.or row.height ∧ d = d' := by
  simp only [Row.update, Row.mk.injEq, true_and]

/-- A size that is recorded is kept as a field is. -/
theorem kept_size_iff {given recorded now : Option φ} :
    given.or now = (given.or recorded).or now ↔ Kept .dict (given.map some) recorded now := by
  rw [← kept_dict_iff]
  cases given with
  | none =>
    cases recorded with
    | none => rfl
    | some r => rfl
  | some g => exact ⟨fun _ => rfl, fun _ => rfl⟩

theorem kept_position_iff {given : Option (φ × φ)} {recorded now : φ × φ} :
    given.getD now = (some (given.getD recorded)).getD now ↔ (given = none → recorded = now) := by
  cases given with
  | none => exact ⟨fun h _ => h.symm, fun h => (h rfl).symm⟩
  | some p => exact ⟨fun _ h => (by cases h), fun _ => rfl⟩

/-- A rebuilt update does what the recorded one does, exactly under the condition. -/
theorem update_iff (hp : enrichPatchOperation U s₀ uuid (.updateNode id revision position width height data) =
    .ok pending) : ∃ edited, editedPatchArgs U pending = .ok edited ∧ ∀ s₁ : Canvas φ σ kindOf,
      (applyCanvasPatch U h (.updateNode id revision position width height data) s₁ = applyCanvasPatch U h edited s₁ ↔
        Faithful U h (.updateNode id revision position width height data) s₀ s₁) := by
  obtain ⟨u, row₀, hid, hrevision, hrow₀, hshown, rfl⟩ := enrich_update hp
  refine ⟨.updateNode (U.str u) revision (some (position.getD row₀.position)) (width.or row₀.width)
    (height.or row₀.height) (rebuiltData (shownData data row₀.data)), if_neg hrevision, fun s₁ => ?_⟩
  rw [operation_update hrevision hid, operation_update hrevision (U.parse_str u)]
  have hfaithful : Faithful U h (.updateNode id revision position width height data) s₀ s₁ ↔
      ∀ row₁ ∈ s₁ u, row₁.revision = revision → (position = none → row₀.position = row₁.position) ∧
        Kept .dict (width.map some) row₀.width row₁.width ∧ Kept .dict (height.map some) row₀.height row₁.height ∧
          KeptData h data row₀.data row₁.data := by
    constructor
    · exact fun hf => hf u hid row₀ hrow₀
    · intro hf v hv row hrow
      cases hid.symm.trans hv
      cases hrow₀.symm.trans hrow
      exact hf
  rw [hfaithful]
  cases hrow₁ : s₁ u with
  | none =>
    refine ⟨fun _ row₁ hrow => (by cases hrow), fun _ => ?_⟩
    simp only [applyPatch, hrow₁]
  | some row₁ =>
    by_cases heq : row₁.revision = revision
    · have hvalid := contentOk_after h hshown row₁.valid
      have hvalid' := contentOk_rebuilt h hshown row₁.valid
      rw [applyPatch_update hrow₁ heq hvalid, applyPatch_update hrow₁ heq hvalid', Except.ok.injEq,
        Outcome.updated.injEq, (Function.update_injective s₁ u).eq_iff, Option.some.injEq, row_update_eq_iff,
        kept_position_iff, kept_size_iff, kept_size_iff, dataAfter_iff]
      constructor
      · intro hall row hrow _
        cases hrow
        exact hall
      · exact fun hall => hall row₁ rfl heq
    · refine ⟨fun _ row hrow hrev => ?_, fun _ => ?_⟩
      · cases hrow
        exact absurd hrev heq
      · simp only [applyPatch, hrow₁, ne_eq, heq, not_false_eq_true, if_true]

end Updates

/-! ### Creations and generations -/

theorem values_data (h : Handed) (p : PatchNodeData φ) :
    (h.data p).values = (p.values : CanvasNodeData φ σ) := by
  cases h with
  | dict => rfl
  | model =>
    obtain ⟨client, config⟩ := p
    cases config with
    | none => rfl
    | some c =>
      cases c with
      | none => rfl
      | some c => rfl

theorem values_writable (p : PatchNodeData φ) :
    (p.values : CanvasNodeData φ σ).writable.values = (p.values : CanvasNodeData φ σ) := by
  have hconfig : ∀ c : Option (CanvasNodeConfig φ),
      (c.map fun c => some fun k => (c k).map some).join.map (fun c k => (c k).join) = c := by
    intro c
    cases c with
    | none => rfl
    | some c => exact congrArg some (funext fun k => join_map_some _)
  unfold PatchNodeData.values CanvasNodeData.writable
  simp only [join_map_some, hconfig]

/-- A rebuilt creation does what the recorded one does. -/
theorem create_same {h : Handed} {s₀ : Canvas φ σ kindOf} {uuid : ι} {kind : CanvasNodeKind} {position : φ × φ}
    {width height : Option φ} {data : PatchNodeData φ} {pending : PendingCanvasPatchOperation φ σ ι}
    (hp : enrichPatchOperation U s₀ uuid (.createNode kind position width height data) = .ok pending) :
    ∃ edited, editedPatchArgs U pending = .ok edited ∧ ∀ s₁ : Canvas φ σ kindOf,
      applyCanvasPatch U h (.createNode kind position width height data) s₁ = applyCanvasPatch U h edited s₁ := by
  unfold enrichPatchOperation llmNodeOperationToPatchOp at hp
  by_cases hok : (data.values : CanvasNodeData φ σ).contentOk kind = true
  · simp only [hok, if_true, pendingFromNodeOp] at hp
    cases hp
    refine ⟨.createNode kind position width height (data.values : CanvasNodeData φ σ).writable, ?_, fun s₁ => ?_⟩
    · simp only [editedPatchArgs, values_writable, hok, if_true]
    · simp only [applyCanvasPatch, Handed.operation, llmNodeOperationToPatchOp, values_data, values_writable]
  · simp only [if_neg hok, reduceCtorEq] at hp

theorem truthy_or (text : Option String) : (truthy (truthy text)).or text = text := by
  cases text with
  | none => rfl
  | some t =>
    by_cases ht : t = ""
    · subst ht
      rfl
    · simp [truthy, Option.filter, ht]

theorem truthy_some {t : String} (h : t ≠ "") : truthy (some t) = some t := by simp [truthy, Option.filter, h]

/-- The rebuilt arguments of a generation are the recorded ones, with the UUID written out. -/
theorem editedGenerateArgs_eq {zero : φ} {args : SubmitArgs} {pending : PendingGenerateOperation φ σ ι}
    (intOfDigits : String → Option Int) (hp : enrichGenerateOperation U zero args = .ok pending) :
    ∃ u, U.parse args.nodeId = some u ∧ args.request.valid = true ∧
      editedGenerateArgs U intOfDigits pending = .ok ⟨U.str u, args.request⟩ := by
  unfold enrichGenerateOperation at hp
  by_cases hvalid : args.request.valid = false
  · simp only [if_pos hvalid, reduceCtorEq] at hp
  · simp only [if_neg hvalid] at hp
    cases hid : U.parse args.nodeId with
    | none => simp only [hid, reduceCtorEq] at hp
    | some u =>
      simp only [hid] at hp
      cases hp
      have hvalid : args.request.valid = true := by simpa using hvalid
      have hnonempty : args.request.prompt ≠ "" ∧ args.request.modelId ≠ "" := by
        simp only [SubmitRequest.valid, Bool.and_eq_true, decide_eq_true_eq] at hvalid
        tauto
      refine ⟨u, rfl, hvalid, ?_⟩
      obtain ⟨hprompt, hmodel⟩ := hnonempty
      have hduration : ∀ d : Option Int,
          (d.or ((truthy (d.map (toString : Int → String))).bind intOfDigits)).or d = d := by
        intro d
        cases d with
        | none => rfl
        | some n => rfl
      have hreference : ∀ r : Option Int, r.or r = r := fun r => by cases r <;> rfl
      simp only [editedGenerateArgs, SubmitRequest.data, truthy_some hprompt, truthy_some hmodel, Option.getD_some,
        Option.some_or, hprompt, hmodel, if_false, SubmitRequest.config, truthy_or, hduration, hreference]

end Proofs

/-! ### A title that is cleared -/

section Runs

/-- Ids that are their own texts. -/
def plainIds : Uuids String := ⟨some, id, fun _ => rfl⟩

/-- Every node is an image with the title of its id, and nothing else. -/
def gallery : Canvas Int Unit (fun _ : String => CanvasNodeKind.IMAGE) := fun id =>
  some ⟨1, (0, 0), none, none,
    ⟨fun f => match f with
      | .title => some id
      | .prompt | .content | .promptContent | .model | .libraryRefs => none, none, some .IDLE, ()⟩, rfl⟩

def newPromptData : PatchNodeData Int :=
  ⟨fun f => match f with
    | .prompt => some (some "a cat")
    | .title | .content | .promptContent | .model | .libraryRefs => none, none⟩

def noTitleData : PatchNodeData Int :=
  ⟨fun f => match f with
    | .title => some none
    | .prompt | .content | .promptContent | .model | .libraryRefs => none, none⟩

def newPrompt : NodeOperation Int := .updateNode "n1" 1 none none none (some newPromptData)

def noTitle : NodeOperation Int := .updateNode "n1" 1 none none none (some noTitleData)

def cat : SubmitArgs := ⟨"n1", ⟨.IMAGE, "a cat", "banana", none, some "16:9", none, 2, none, none, [11, 22], some 1⟩⟩

def titleAfter (r : Except (ToolError String) (Outcome Int Unit fun _ : String => CanvasNodeKind.IMAGE)) :
    Option (Option String) :=
  match r with
  | .ok (.updated s) => (s "n1").map fun row => row.data.client .title
  | _ => none

end Runs

end NexusStudio.PendingOps
