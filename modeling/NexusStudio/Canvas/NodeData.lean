import NexusStudio.Canvas.Node

/-!
# The data of a canvas node

`merge_client_node_data` merges what a client sets into the data that is stored of a node.

* (records) A record is a function of its fields, and a patch has a value for those that it sets.
* (merge) The projection fields are the server's; the config is merged field by field; the content has to fit the kind.
  The transaction on the row of a node writes what is merged (`summary_merge`).
* (law) What the client does not set stays, an empty patch changes nothing, and a patch has its effect once
  (`mergeClientNodeData_law`).
-/

namespace NexusStudio.NodeData

open CanvasNodes

/-! ### Records -/

section Records

variable {κ : Type} {V : κ → Type}

/-- The values of the fields that are set. -/
def overwrite (base : (k : κ) → Option (V k)) (patch : (k : κ) → Option (Option (V k))) : (k : κ) → Option (V k) :=
  fun k => (patch k).getD (base k)

theorem overwrite_of_unset {base : (k : κ) → Option (V k)} {patch : (k : κ) → Option (Option (V k))} {k : κ}
    (h : patch k = none) : overwrite base patch k = base k := by
  rw [overwrite, h, Option.getD_none]

theorem overwrite_of_set {base : (k : κ) → Option (V k)} {patch : (k : κ) → Option (Option (V k))} {k : κ}
    {v : Option (V k)} (h : patch k = some v) : overwrite base patch k = v := by
  rw [overwrite, h, Option.getD_some]

theorem overwrite_idem (base : (k : κ) → Option (V k)) (patch : (k : κ) → Option (Option (V k))) :
    overwrite (overwrite base patch) patch = overwrite base patch := by
  funext k
  cases h : patch k with
  | none => exact overwrite_of_unset h
  | some v => exact (overwrite_of_set h).trans (overwrite_of_set h).symm

end Records

/-! ### Fields -/

/-- An `int` that is at least one. -/
abbrev Positive := { n : Int // 1 ≤ n }

inductive ConfigField
  | model
  | text_num
  | img_num
  | ratio
  | aspect_ratio
  | resolution
  | image_size
  | mode
  | duration
  | duration_sec
  | reference_mode
  | voice_id
  | voice_name
  | speed
  | vol
  | pitch
  | emotion
  deriving DecidableEq, Repr

inductive Segment
  | text (text : String)
  | media (type : String) (assetId : Option Positive) (url : String) (label referenceType : Option String)
  | textRef (text : String)
  deriving DecidableEq, Repr

/-- `content`: the text of a text node, or the prompt of another one. -/
inductive Content
  | text (s : String)
  | segments (l : List Segment)
  deriving DecidableEq, Repr

structure CanvasNodeAssetPath where
  assetId : Option Positive
  url : Option String
  thumbUrl : Option String
  deriving DecidableEq, Repr

structure ImagePromptLibraryRef where
  assetId : Positive
  type : Option String
  url : String
  thumbUrl : Option String
  name : Option String
  deriving DecidableEq, Repr

/-- It has the fields of a path. -/
abbrev CanvasTaskAsset := CanvasNodeAssetPath

/-- `results`; `raw` is any value of a type `δ`. -/
structure CanvasTaskResults (δ : Type) where
  success : Bool
  assets : Option (List CanvasTaskAsset)
  errorMessage : Option String
  raw : Option δ

inductive OutputSource
  | upload
  | generated
  deriving DecidableEq, Repr

/-- The fields of `CanvasNodeData` but for `config`. -/
inductive Field
  | title
  | prompt
  | content
  | prompt_content
  | model
  | status
  | generate_task_id
  | generate_created_at
  | generate_operation_type
  | generate_error
  | asset_id
  | path
  | preview_url
  | paths
  | output_asset_ids
  | output_source
  | library_refs
  | results
  deriving DecidableEq, Repr

section Model

-- floats are of a type `φ`
variable (φ δ : Type)

def ConfigField.Value : ConfigField → Type
  | .model | .ratio | .aspect_ratio | .resolution | .image_size | .mode | .duration | .voice_id | .voice_name
  | .emotion => String
  | .text_num | .img_num | .reference_mode => Positive
  | .duration_sec | .pitch => Int
  | .speed | .vol => φ

def Field.Value : Field → Type
  | .title | .prompt | .model | .generate_created_at | .generate_operation_type | .generate_error | .path
  | .preview_url => String
  | .content => Content
  | .prompt_content => List Segment
  | .status => CanvasNodeStatus
  | .generate_task_id | .asset_id => Positive
  | .paths => List CanvasNodeAssetPath
  | .output_asset_ids => List Int
  | .output_source => OutputSource
  | .library_refs => List ImagePromptLibraryRef
  | .results => CanvasTaskResults δ

abbrev CanvasNodeConfig := (k : ConfigField) → Option (k.Value φ)

structure CanvasNodeData where
  fields : (f : Field) → Option (f.Value δ)
  config : Option (CanvasNodeConfig φ)

/-- The fields of a config that a client sets, to `None` or to a value. -/
abbrev ConfigPatch := (k : ConfigField) → Option (Option (k.Value φ))

/-- The fields that a client sets. -/
structure DataPatch where
  fields : (f : Field) → Option (Option (f.Value δ))
  config : Option (Option (ConfigPatch φ))

end Model

/-- `NODE_DATA_CLIENT_FORBIDDEN_KEYS`, sorted. -/
def clientForbiddenKeys : List Field :=
  [.asset_id, .generate_created_at, .generate_error, .generate_operation_type, .generate_task_id, .output_asset_ids,
    .output_source, .path, .paths, .preview_url, .results, .status]

def Field.name : Field → String
  | .title => "title"
  | .prompt => "prompt"
  | .content => "content"
  | .prompt_content => "prompt_content"
  | .model => "model"
  | .status => "status"
  | .generate_task_id => "generate_task_id"
  | .generate_created_at => "generate_created_at"
  | .generate_operation_type => "generate_operation_type"
  | .generate_error => "generate_error"
  | .asset_id => "asset_id"
  | .path => "path"
  | .preview_url => "preview_url"
  | .paths => "paths"
  | .output_asset_ids => "output_asset_ids"
  | .output_source => "output_source"
  | .library_refs => "library_refs"
  | .results => "results"

/-! ### The merge -/

section Merge

variable {φ δ : Type}

def invalid {α : Type} (message : String) : Except (Failure Unit) α := .error (.app .invalidParams message none)

/-- The message for projection fields that a client sets. -/
def forbiddenMessage (keys : List Field) : String :=
  "client cannot write node data fields: [" ++
    ", ".intercalate (keys.map fun f => "\x27" ++ f.name ++ "\x27") ++ "]"

/-- `validate_node_data_content`; the error is the text of a `ValueError`. -/
def validateNodeDataContent (kind : CanvasNodeKind) (data : CanvasNodeData φ δ) : Except String Unit :=
  match kind, (data.fields .content : Option Content) with
  | .TEXT, some (.segments _) => .error "text node data.content must be string"
  | .TEXT, _ => .ok ()
  | _, some (.text _) => .error "media node data.content must be prompt content array"
  | _, _ => .ok ()

/-- `{**existing_config, **patch_config}`. -/
def mergeConfig (existing : Option (CanvasNodeConfig φ)) (patch : ConfigPatch φ) : CanvasNodeConfig φ :=
  overwrite (existing.getD fun _ => none) patch

/-- `base.update(incoming)`. -/
def merged (existing : CanvasNodeData φ δ) (patch : DataPatch φ δ) : CanvasNodeData φ δ where
  fields := overwrite existing.fields patch.fields
  config :=
    match patch.config with
    | none => existing.config
    | some none => none
    | some (some config) => some (mergeConfig existing.config config)

/-- `merge_client_node_data`. -/
def mergeClientNodeData (kind : CanvasNodeKind) (existing : CanvasNodeData φ δ) (patch : DataPatch φ δ) :
    Except (Failure Unit) (CanvasNodeData φ δ) :=
  let forbidden := clientForbiddenKeys.filter fun f => (patch.fields f).isSome
  if forbidden ≠ [] then invalid (forbiddenMessage forbidden)
  else
    match validateNodeDataContent kind (merged existing patch) with
    | .error message => invalid message
    | .ok () => .ok (merged existing patch)

/-- What is stored of a node: each write is followed in its transaction by `node_view_from_row`, which validates the
content. -/
structure StoredNode (φ δ : Type) where
  kind : CanvasNodeKind
  data : CanvasNodeData φ δ
  fits : validateNodeDataContent kind data = .ok ()

variable {kind : CanvasNodeKind} {existing result : CanvasNodeData φ δ} {patch : DataPatch φ δ}

/-- A patch is merged exactly if it sets no projection field and the content fits the kind. -/
theorem merge_eq_ok_iff : mergeClientNodeData kind existing patch = .ok result ↔
    (∀ f ∈ clientForbiddenKeys, patch.fields f = none) ∧ validateNodeDataContent kind (merged existing patch) = .ok () ∧
      result = merged existing patch := by
  have hforbidden : clientForbiddenKeys.filter (fun f => (patch.fields f).isSome) = [] ↔
      ∀ f ∈ clientForbiddenKeys, patch.fields f = none := by
    simp only [List.filter_eq_nil_iff, Option.not_isSome_iff_eq_none]
  unfold mergeClientNodeData
  dsimp only
  rw [← hforbidden]
  split
  case isTrue hne => exact iff_of_false (fun h => by cases h) fun h => hne h.1
  case isFalse hnone =>
    rw [and_iff_right (not_not.1 hnone)]
    cases validateNodeDataContent kind (merged existing patch) with
    | error message => exact iff_of_false (fun h => by cases h) fun h => by cases h.1
    | ok _ => exact ⟨fun h => ⟨rfl, (Except.ok.inj h).symm⟩, fun h => congrArg _ h.2.symm⟩

/-- What the transactions on a row have of the data. -/
def summary (data : CanvasNodeData φ δ) : CanvasNodes.CanvasNodeData where
  status := data.fields .status
  content := (data.fields .content : Option Content).bind fun
    | .text s => some s
    | .segments _ => none
  config := data.config.map fun config => ⟨config .model, config .duration_sec, config .duration⟩
  model := data.fields .model
  generateTaskId := (data.fields .generate_task_id : Option Positive).map fun id => id.1.toNat
  generateError := data.fields .generate_error
  outputAssetIds := (data.fields .output_asset_ids : Option (List Int)).map fun ids => ids.map Int.toNat
  assetId := (data.fields .asset_id : Option Positive).map fun id => id.1.toNat
  path := data.fields .path

/-- The transaction of a client's update writes what is merged. -/
theorem summary_merge (h : mergeClientNodeData kind existing patch = .ok result) :
    summary result = CanvasNodes.mergeClientNodeData (summary existing) (summary result).content
      (summary result).model (summary result).config := by
  obtain ⟨hforbidden, -, rfl⟩ := merge_eq_ok_iff.1 h
  have hkept : ∀ f ∈ clientForbiddenKeys, (merged existing patch).fields f = existing.fields f :=
    fun f hf => overwrite_of_unset (hforbidden f hf)
  unfold CanvasNodes.mergeClientNodeData summary
  dsimp only
  rw [hkept .status (by decide), hkept .generate_task_id (by decide), hkept .generate_error (by decide),
    hkept .output_asset_ids (by decide), hkept .asset_id (by decide), hkept .path (by decide)]

/-- A patch has its effect once. -/
theorem merged_idem (existing : CanvasNodeData φ δ) (patch : DataPatch φ δ) :
    merged (merged existing patch) patch = merged existing patch := by
  unfold merged
  dsimp only
  rw [overwrite_idem]
  cases patch.config with
  | none => rfl
  | some config =>
    cases config with
    | none => rfl
    | some config =>
      dsimp only
      rw [mergeConfig, Option.getD_some, mergeConfig, overwrite_idem]

/-- A patch that sets nothing. -/
def emptyPatch : DataPatch φ δ := ⟨fun _ => none, none⟩

/-- What the merge makes of the config: it stays, is cleared, or has the fields that are set. -/
structure ConfigLaw (existing result : Option (CanvasNodeConfig φ)) (patch : Option (Option (ConfigPatch φ))) :
    Prop where
  unset : patch = none → result = existing
  cleared : patch = some none → result = none
  given : ∀ config, patch = some (some config) → ∃ c, result = some c ∧
    (∀ k, config k = none → c k = existing.bind fun c => c k) ∧ ∀ k v, config k = some v → c k = v

theorem configLaw_merged (existing : CanvasNodeData φ δ) (patch : DataPatch φ δ) :
    ConfigLaw existing.config (merged existing patch).config patch.config := by
  unfold merged
  refine ⟨fun h => by simp only [h], fun h => by simp only [h], fun config h => ?_⟩
  refine ⟨mergeConfig existing.config config, by simp only [h], fun k hk => ?_, fun k v hk => overwrite_of_set hk⟩
  rw [mergeConfig, overwrite_of_unset hk]
  cases existing.config with
  | none => rfl
  | some c => rfl

/-- **The merge of a client's patch.** Whatever is stored and whatever is set: the projection fields and the fields that
are not set stay, the others and those of the config have the values that are set, merging the patch again changes
nothing, and an empty patch is merged and changes nothing. -/
theorem mergeClientNodeData_law (node : StoredNode φ δ) (patch : DataPatch φ δ) :
    (∀ result, mergeClientNodeData node.kind node.data patch = .ok result →
      (∀ f ∈ clientForbiddenKeys, result.fields f = node.data.fields f) ∧
      (∀ f, patch.fields f = none → result.fields f = node.data.fields f) ∧
      (∀ f v, patch.fields f = some v → result.fields f = v) ∧
      ConfigLaw node.data.config result.config patch.config ∧
      mergeClientNodeData node.kind result patch = .ok result) ∧
    mergeClientNodeData node.kind node.data emptyPatch = .ok node.data := by
  constructor
  · intro result h
    obtain ⟨hforbidden, hfits, rfl⟩ := merge_eq_ok_iff.1 h
    refine ⟨fun f hf => overwrite_of_unset (hforbidden f hf), fun f hf => overwrite_of_unset hf,
      fun f v hf => overwrite_of_set hf, configLaw_merged node.data patch, merge_eq_ok_iff.2 ⟨hforbidden, ?_, ?_⟩⟩
    · rw [merged_idem]
      exact hfits
    · exact (merged_idem node.data patch).symm
  · exact merge_eq_ok_iff.2 ⟨fun _ _ => rfl, node.fits, rfl⟩

end Merge

end NexusStudio.NodeData
