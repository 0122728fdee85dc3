import NexusStudio.Server.Errors

/-!
# The pending gate of a conversation

* (record) `GatePending`: what `get_gate_pending` returns. Its strings are not empty and its fields are named, since
  `_parse_gate_pending_raw` refuses or drops everything else.
* (stored value) `RawGate`: what the key `chat:gate_pending` can hold.
* (round trip) `parse_dump`: a record that is written back is read again as itself.
-/

namespace NexusStudio.Gate

/-- `GatePendingStatus`. -/
inductive Status
  | pending
  | submitted
  | resuming
  | expired
  | cancelled
  deriving DecidableEq, Repr

def Status.text : Status → String
  | pending => "pending"
  | submitted => "submitted"
  | resuming => "resuming"
  | expired => "expired"
  | cancelled => "cancelled"

def Status.ofText (s : String) : Option Status :=
  [pending, submitted, resuming, expired, cancelled].find? fun t => t.text = s

theorem Status.ofText_text (s : Status) : ofText s.text = some s := by
  cases s <;> decide

/-- A field definition that is an object: its `name`, where that is a string, and its other entries. -/
structure FieldDef where
  name : Option String
  body : String
  deriving DecidableEq, Repr

/-- `field_def_name`. -/
def fieldDefName (f : FieldDef) : String :=
  match f.name with
  | some n => strip n
  | none => ""

/-- Field definitions that all have a name. -/
abbrev FieldDefs := { l : List FieldDef // ∀ f ∈ l, fieldDefName f ≠ "" }

/-- `normalize_field_defs`; `none` stands for an entry that is not an object. -/
def normalizeFieldDefs (l : List (Option FieldDef)) : FieldDefs :=
  ⟨(l.filterMap id).filter fun f => fieldDefName f ≠ "", fun f hf => by simpa using (List.mem_filter.1 hf).2⟩

theorem normalizeFieldDefs_some (l : FieldDefs) : normalizeFieldDefs (l.1.map some) = l := by
  apply Subtype.ext
  have hid : (l.1.map some).filterMap id = l.1 := by rw [List.filterMap_map]; exact List.filterMap_some
  change ((l.1.map some).filterMap id).filter _ = l.1
  rw [hid, List.filter_eq_self]
  intro f hf
  simpa using l.2 f hf

/-- A string of the record, which is never empty. -/
abbrev RequiredString := { s : String // s ≠ "" }

/-- The parsed record. `rest` stands for the choices, the assets, the phase and the domain, which are carried along
and read by none of the modelled functions. -/
structure GatePending where
  turnId : RequiredString
  gateId : RequiredString
  gateType : RequiredString
  modelKey : RequiredString
  prompt : RequiredString
  status : Status
  fields : FieldDefs
  rest : String
  deriving DecidableEq

/-- A stored object: `none` stands for an absent entry or one of another type. -/
structure RawObject where
  turnId : Option String
  gateId : Option String
  gateType : Option String
  modelKey : Option String
  prompt : Option String
  status : Option String
  fields : Option (List (Option FieldDef))
  rest : Option String

/-- What the key can hold. -/
inductive RawGate
  | invalidJson
  | notObject
  | object (o : RawObject)

/-- The check on one of the `required_strings`. -/
def required : Option String → Except String RequiredString
  | some s => if h : s ≠ "" then .ok ⟨s, h⟩ else .error "gate pending state is missing required fields"
  | none => .error "gate pending state is missing required fields"

def orError {α : Type} (message : String) : Option α → Except String α
  | some a => .ok a
  | none => .error message

def parseObject (o : RawObject) : Except String GatePending := do
  let turnId ← required o.turnId
  let gateId ← required o.gateId
  let gateType ← required o.gateType
  let modelKey ← required o.modelKey
  let prompt ← required o.prompt
  let statusText ← required o.status
  let status ← orError "gate pending state has unknown status" (Status.ofText statusText)
  let fields ← orError "gate pending state has invalid collections" o.fields
  let rest ← orError "gate pending state has invalid collections" o.rest
  return { turnId, gateId, gateType, modelKey, prompt, status, fields := normalizeFieldDefs fields, rest }

/-- `_parse_gate_pending_raw`. -/
def parseGatePendingRaw : Option RawGate → Except String (Option GatePending)
  | none => .ok none
  | some .invalidJson => .error "gate pending state is not valid JSON"
  | some .notObject => .error "gate pending state must be an object"
  | some (.object o) => (parseObject o).map some

/-- The record as `json.dumps` writes it. -/
def dump (g : GatePending) : RawObject where
  turnId := some g.turnId
  gateId := some g.gateId
  gateType := some g.gateType
  modelKey := some g.modelKey
  prompt := some g.prompt
  status := some g.status.text
  fields := some (g.fields.1.map some)
  rest := some g.rest

theorem required_some (s : RequiredString) : required (some s.1) = .ok s := by
  rw [required, dif_pos s.2]

theorem Status.text_ne (s : Status) : s.text ≠ "" := by
  cases s <;> decide

/-- Reading what was written gives the record back. -/
theorem parse_dump (g : GatePending) : parseGatePendingRaw (some (.object (dump g))) = .ok (some g) := by
  have hs : required (some g.status.text) = .ok ⟨g.status.text, g.status.text_ne⟩ := required_some ⟨_, _⟩
  have ho : parseObject (dump g) = .ok { g with fields := normalizeFieldDefs (g.fields.1.map some) } := by
    simp only [parseObject, dump, required_some, hs, bind, Except.bind, Status.ofText_text, orError]
    rfl
  rw [normalizeFieldDefs_some] at ho
  simp only [parseGatePendingRaw, ho, Except.map]

end NexusStudio.Gate
