import NexusStudio.Llm.TagStream
import NexusStudio.Lib.Json
import NexusStudio.Server.Errors
import Mathlib.Data.List.Sort

/-!
# The stream assembler

`OpenAIStreamAssembler` takes the data of the frames of one attempt and makes a message of them.

* (frames) `feed_sse_data` raises a protocol error for what has another shape; its pieces are kept for the message.
* (tool calls) A slot for each index; at the end arguments that came on an index of their own go to the header before.
* (message) `finish` adds what the tag parser has held back to the pieces and joins those of the answer.
-/

namespace NexusStudio.Llm

open Turn JsonText

inductive ThinkingMode
  | REASONING_FIELD
  | CONTENT_TAGS
  | NONE
  deriving DecidableEq, Repr

structure ThinkingConfig where
  mode : ThinkingMode
  reasoningFields : List String
  deriving DecidableEq, Repr

/-- What a model step raises: a `GatewayChatError`, an `AppError`, or another exception. -/
inductive StepError
  | gateway (errorType detail : String) (retryable : Bool)
  | app (code : Nat) (message : String)
  | other (message : String)
  deriving DecidableEq, Repr

def protocolError (detail : String) : StepError := .gateway "gateway_protocol_error" detail false

/-- What the standard library makes of texts and values. -/
structure Python (ν : Type) where
  -- `json.loads`, with the message of a `JSONDecodeError`
  loads : String → Except String (Value ν)
  -- `json.dumps`
  dumps : Value ν → String
  -- `str` of a value that is no string
  str : Value ν → String
  -- the number as an `int`
  toInt : ν → Option Int
  isZero : ν → Bool

structure ToolSlot where
  index : Int
  id : Option String
  name : Option String
  argumentFragments : List String
  deriving DecidableEq, Repr

structure Assembler (ν : Type) where
  thinking : ThinkingConfig
  tagState : ThinkTagStreamState
  toolSlots : List ToolSlot
  finishReason : Option (Value ν)
  tokenPieces : List TokenPiece

structure AssembledStep (ν : Type) where
  message : AiMessage
  invalidToolCalls : List InvalidToolCall
  tokenPieces : List TokenPiece
  finishReason : Option (Value ν)

def Assembler.init {ν : Type} (thinking : ThinkingConfig) : Assembler ν := ⟨thinking, .init, [], none, []⟩

section Model

variable {ν : Type} (P : Python ν)

namespace Python

/-- `bool(value)`. -/
def truthy : Value ν → Bool
  | .null => false
  | .bool b => b
  | .number n => !P.isZero n
  | .string s => s ≠ ""
  | .array l => !l.isEmpty
  | .dict fields => !fields.isEmpty

/-- `str(value)`. -/
def text : Value ν → String
  | .string s => s
  | v => P.str v

/-- The value of an `int`; `True` and `False` are such. -/
def index : Value ν → Option Int
  | .number n => P.toInt n
  | .bool b => some (if b then 1 else 0)
  | _ => none

end Python

/-! ### Frames -/

/-- The string in a field, unless it is empty. -/
def stringField (delta : List (String × Value ν)) (field : String) : Option String :=
  match delta.lookup field with
  | some (.string s) => if s = "" then none else some s
  | _ => none

def pieceOfString (lane : Channel) (s : String) : TokenPiece := ⟨lane, s.toList⟩

/-- The pieces of the reasoning fields. -/
def reasoningPieces (thinking : ThinkingConfig) (delta : List (String × Value ν)) : List TokenPiece :=
  thinking.reasoningFields.filterMap fun field => (stringField delta field).map (pieceOfString .think)

/-- The content of a delta as a piece of the answer. -/
def contentPieces (delta : List (String × Value ν)) : List TokenPiece :=
  ((stringField delta "content").map (pieceOfString .answer)).toList

/-- The last part of `_parse_delta_tokens`: the content goes through the tag parser. -/
def taggedPieces (thinking : ThinkingConfig) (tagState : ThinkTagStreamState) (delta : List (String × Value ν)) :
    List TokenPiece × ThinkTagStreamState :=
  match stringField delta "content" with
  | none => ([], tagState)
  | some content =>
    let (pieces, tagState') := pushTagAwareText content.toList tagState defaultTagPairs
    (reasoningPieces thinking delta ++ pieces, tagState')

def parseDeltaTokens (thinking : ThinkingConfig) (tagState : ThinkTagStreamState) (delta : List (String × Value ν)) :
    List TokenPiece × ThinkTagStreamState :=
  match thinking.mode with
  | .NONE => (contentPieces delta, tagState)
  | .REASONING_FIELD =>
    let pieces := reasoningPieces thinking delta ++ contentPieces delta
    if pieces = [] then taggedPieces thinking tagState delta else (pieces, tagState)
  | .CONTENT_TAGS => taggedPieces thinking tagState delta

/-- `setdefault(index, ToolSlot(index=index))`, and the slot as it is after the item. -/
def putSlot (slots : List ToolSlot) (slot : ToolSlot) : List ToolSlot :=
  if slots.any (·.index = slot.index) then slots.map fun s => if s.index = slot.index then slot else s
  else slots ++ [slot]

/-- The function of an item: `item.get("function") or {}`, `none` where it has no `get`. -/
def functionOf (item : List (String × Value ν)) : Option (List (String × Value ν)) :=
  match item.lookup "function" with
  | none => some []
  | some (.dict function) => some function
  | some v => if P.truthy v then none else some []

/-- The slot after an item with its function. -/
def updateSlot (slot : ToolSlot) (item function : List (String × Value ν)) : ToolSlot where
  index := slot.index
  id := (((item.lookup "id").filter P.truthy).map P.text).or slot.id
  name := (((function.lookup "name").filter P.truthy).map P.text).or slot.name
  argumentFragments := slot.argumentFragments ++ (stringField function "arguments").toList

/-- One round of the loop over `tool_calls`. -/
def feedToolCall (slots : List ToolSlot) : Value ν → Except StepError (List ToolSlot)
  | .dict item =>
    match (item.lookup "index").bind P.index with
    | none => .error (protocolError "SSE tool call is missing index")
    | some index =>
      match functionOf P item with
      | none => .error (.other "AttributeError")
      | some function =>
        let slot := (slots.find? (·.index = index)).getD ⟨index, none, none, []⟩
        .ok (putSlot slots (updateSlot P slot item function))
  | _ => .error (protocolError "SSE tool call is missing index")

/-- `delta.get("tool_calls", [])`, when it is a list. -/
def rawToolCalls (delta : List (String × Value ν)) : Option (List (Value ν)) :=
  match delta.lookup "tool_calls" with
  | none => some []
  | some (.array items) => some items
  | some _ => none

/-- The first choice of a frame, `none` for a frame with the usage alone. -/
def firstChoice (payload : List (String × Value ν)) : Except StepError (Option (List (String × Value ν))) :=
  match payload.lookup "choices" with
  | some (.array []) =>
    match payload.lookup "usage" with
    | some (.dict _) => .ok none
    | _ => .error (protocolError "SSE empty choices frame has no valid usage")
  | some (.array (.dict choice :: _)) => .ok (some choice)
  | _ => .error (protocolError "SSE data has no valid choice")

/-- The rest of `feed_sse_data` for a choice. -/
def Assembler.feedChoice (asm : Assembler ν) (choice : List (String × Value ν)) :
    Except StepError (List TokenPiece × Assembler ν) :=
  match choice.lookup "delta" with
  | some (.dict delta) =>
    let (pieces, tagState) := parseDeltaTokens asm.thinking asm.tagState delta
    match rawToolCalls delta with
    | none => .error (protocolError "SSE tool_calls is not a list")
    | some items =>
      match items.foldlM (feedToolCall P) asm.toolSlots with
      | .error e => .error e
      | .ok toolSlots =>
        .ok (pieces,
          { thinking := asm.thinking
            tagState
            toolSlots
            finishReason := ((choice.lookup "finish_reason").filter P.truthy).or asm.finishReason
            tokenPieces := asm.tokenPieces ++ pieces })
  | _ => .error (protocolError "SSE choice is missing delta")

def Assembler.feedSseData (asm : Assembler ν) (data : String) : Except StepError (List TokenPiece × Assembler ν) :=
  if data = "[DONE]" then .ok ([], asm)
  else
    match P.loads data with
    | .error _ => .error (protocolError "SSE data is not valid JSON")
    | .ok (.dict payload) =>
      match firstChoice payload with
      | .error e => .error e
      | .ok none => .ok ([], asm)
      | .ok (some choice) => asm.feedChoice P choice
    | .ok _ => .error (protocolError "SSE data is not an object")

/-! ### Tool calls -/

namespace ToolSlot

def argsText (s : ToolSlot) : String := String.join s.argumentFragments

def hasId (s : ToolSlot) : Bool := s.id.getD "" ≠ ""

def hasName (s : ToolSlot) : Bool := s.name.getD "" ≠ ""

def hasArgs (s : ToolSlot) : Bool := strip s.argsText ≠ ""

def isArgsOnly (s : ToolSlot) : Bool := s.hasArgs && !s.hasId && !s.hasName

def isHeaderOnly (s : ToolSlot) : Bool := (s.hasName || s.hasId) && !s.hasArgs

/-- The arguments of another slot go to this one. -/
def extend (s t : ToolSlot) : ToolSlot := { s with argumentFragments := s.argumentFragments ++ t.argumentFragments }

end ToolSlot

/-- One round of the first loop of `_normalize_tool_slots`, the last merged slot first. -/
def mergeSlot : List ToolSlot → ToolSlot → List ToolSlot
  | [], slot => [slot]
  | prev :: merged, slot =>
    if slot.isArgsOnly && (prev.isHeaderOnly || (prev.hasName && !prev.hasArgs)) then
      { prev.extend slot with id := if slot.hasId && !prev.hasId then slot.id else prev.id } :: merged
    else slot :: prev :: merged

/-- One round of its second loop, the last settled slot first. -/
def settleSlot (result : List ToolSlot) (slot : ToolSlot) : Except StepError (List ToolSlot) :=
  if !slot.hasName && !slot.hasId && slot.hasArgs then
    match result with
    | prev :: rest =>
      if prev.hasName && !prev.hasArgs then .ok (prev.extend slot :: rest)
      else .error (protocolError "streamed tool arguments have no tool id or name")
    | [] => .error (protocolError "streamed tool arguments have no tool id or name")
  else if slot.name = some "unknown" && !slot.hasId && slot.hasArgs then
    match result with
    | prev :: rest =>
      if prev.hasName && prev.name ≠ some "unknown" && !prev.hasArgs then .ok (prev.extend slot :: rest)
      else .error (protocolError "streamed tool arguments have an unknown tool name")
    | [] => .error (protocolError "streamed tool arguments have an unknown tool name")
  else .ok (slot :: result)

def normalizeToolSlots (slots : List ToolSlot) : Except StepError (List ToolSlot) :=
  let ordered := slots.insertionSort fun s t => s.index ≤ t.index
  match (ordered.foldl mergeSlot []).reverse.foldlM settleSlot [] with
  | .error e => .error e
  | .ok result => .ok result.reverse

/-- One round of the loop of `finish`: the valid and the invalid calls so far, and the next slot. -/
def assembleCall (calls : List ToolCall × List InvalidToolCall) (slot : ToolSlot) :
    Except StepError (List ToolCall × List InvalidToolCall) :=
  if !slot.hasId || !slot.hasName then .error (protocolError "streamed tool call is missing id or name")
  else if slot.argsText = "" then .error (protocolError "streamed tool call is missing arguments")
  else
    let callId := slot.id.getD ""
    let name := slot.name.getD ""
    let invalid (parseError : String) : List InvalidToolCall := [⟨callId, name, slot.argsText, parseError⟩]
    match P.loads slot.argsText with
    | .error msg => .ok (calls.1, calls.2 ++ invalid ("streamed tool arguments are not valid JSON: " ++ msg))
    | .ok (.dict args) => .ok (calls.1 ++ [⟨callId, name, args.map fun f => (f.1, P.dumps f.2)⟩], calls.2)
    | .ok _ => .ok (calls.1, calls.2 ++ invalid "streamed tool arguments must be an object")

def Assembler.assembleCalls (asm : Assembler ν) : Except StepError (List ToolCall × List InvalidToolCall) :=
  match normalizeToolSlots asm.toolSlots with
  | .error e => .error e
  | .ok slots => slots.foldlM (assembleCall P) ([], [])

/-! ### The message -/

/-- The texts of the pieces of a lane, joined. -/
def laneText (lane : Channel) (pieces : List TokenPiece) : Text :=
  (pieces.filter (·.lane = lane)).flatMap TokenPiece.text

/-- What the tag parser has held back, as a piece. -/
def Assembler.heldPiece (asm : Assembler ν) : List TokenPiece :=
  pieceOf (if asm.tagState.thinkOpen then .think else .answer) asm.tagState.pending

def Assembler.finish (asm : Assembler ν) : Except StepError (AssembledStep ν) :=
  match asm.assembleCalls P with
  | .error e => .error e
  | .ok (validCalls, invalidCalls) =>
    let pieces := asm.tokenPieces ++ asm.heldPiece
    .ok
      { message := ⟨String.ofList (laneText .answer pieces), validCalls⟩
        invalidToolCalls := invalidCalls
        tokenPieces := pieces
        finishReason := asm.finishReason }

/-! ### Pieces -/

section Pieces

variable {P} {asm asm' : Assembler ν} {pieces : List TokenPiece}

@[simp] theorem laneText_append (lane : Channel) (l l' : List TokenPiece) :
    laneText lane (l ++ l') = laneText lane l ++ laneText lane l' := by
  simp [laneText]

theorem stringField_ne {delta : List (String × Value ν)} {field s : String} (h : stringField delta field = some s) :
    s.toList ≠ [] := by
  unfold stringField at h
  split at h
  · obtain ⟨hne, h⟩ := Option.ite_none_left_eq_some.1 h
    cases h
    exact fun hnil => hne (String.toList_eq_nil_iff.1 hnil)
  · cases h

theorem reasoningPieces_ne_nil (thinking : ThinkingConfig) (delta : List (String × Value ν)) :
    ∀ p ∈ reasoningPieces thinking delta, p.text ≠ [] := by
  intro p hp
  obtain ⟨field, -, hp⟩ := List.mem_filterMap.1 hp
  obtain ⟨s, hs, rfl⟩ := Option.map_eq_some_iff.1 hp
  exact stringField_ne hs

theorem contentPieces_ne_nil (delta : List (String × Value ν)) : ∀ p ∈ contentPieces delta, p.text ≠ [] := by
  intro p hp
  obtain ⟨s, hs, rfl⟩ := Option.map_eq_some_iff.1 (Option.mem_toList.1 hp)
  exact stringField_ne hs

theorem taggedPieces_ne_nil (thinking : ThinkingConfig) (tagState : ThinkTagStreamState)
    (delta : List (String × Value ν)) : ∀ p ∈ (taggedPieces thinking tagState delta).1, p.text ≠ [] := by
  unfold taggedPieces
  split
  · nofun
  · intro p hp
    exact (List.mem_append.1 hp).elim (reasoningPieces_ne_nil thinking delta p) (pushTagAwareText_ne_nil _ _ _ p)

/-- No piece of a delta is empty. -/
theorem parseDeltaTokens_ne_nil (thinking : ThinkingConfig) (tagState : ThinkTagStreamState)
    (delta : List (String × Value ν)) : ∀ p ∈ (parseDeltaTokens thinking tagState delta).1, p.text ≠ [] := by
  unfold parseDeltaTokens
  split
  · exact contentPieces_ne_nil delta
  · dsimp only
    split
    · exact taggedPieces_ne_nil thinking tagState delta
    · intro p hp
      exact (List.mem_append.1 hp).elim (reasoningPieces_ne_nil thinking delta p) (contentPieces_ne_nil delta p)
  · exact taggedPieces_ne_nil thinking tagState delta

/-- The pieces of a frame are kept, and none is empty. -/
theorem feedSseData_ok {data : String} (h : asm.feedSseData P data = .ok (pieces, asm')) :
    asm'.tokenPieces = asm.tokenPieces ++ pieces ∧ ∀ p ∈ pieces, p.text ≠ [] := by
  have hnone : (∀ p ∈ ([] : List TokenPiece), p.text ≠ []) := nofun
  unfold Assembler.feedSseData at h
  split at h
  · cases h
    exact ⟨(List.append_nil _).symm, hnone⟩
  split at h
  · cases h
  · split at h
    · cases h
    · cases h
      exact ⟨(List.append_nil _).symm, hnone⟩
    · unfold Assembler.feedChoice at h
      split at h
      · next delta _ =>
        dsimp only at h
        split at h
        · cases h
        · split at h
          · cases h
          · cases h
            exact ⟨rfl, parseDeltaTokens_ne_nil _ _ delta⟩
      · cases h
  · cases h

end Pieces

/-! ### The assembled message -/

section Finish

variable {P} {asm : Assembler ν} {step : AssembledStep ν}

/-- The answer text that the pieces have. -/
def Assembler.answer (asm : Assembler ν) : Text := laneText .answer asm.tokenPieces

/-- The answer text that is held back. -/
def Assembler.heldAnswer (asm : Assembler ν) : Text :=
  if asm.tagState.thinkOpen then [] else asm.tagState.pending

theorem laneText_pieceOf (lane : Channel) (text : Text) : laneText lane (pieceOf lane text) = text := by
  unfold pieceOf
  split
  · next h => rw [h]; rfl
  · simp [laneText]

theorem laneText_heldPiece (asm : Assembler ν) : laneText .answer asm.heldPiece = asm.heldAnswer := by
  unfold Assembler.heldPiece Assembler.heldAnswer
  split
  · unfold pieceOf
    split
    · rfl
    · rfl
  · exact laneText_pieceOf _ _

theorem finish_ok (h : asm.finish P = .ok step) :
    ∃ validCalls invalidCalls, asm.assembleCalls P = .ok (validCalls, invalidCalls) ∧
      step.message.content.toList = asm.answer ++ asm.heldAnswer ∧ step.message.toolCalls = validCalls ∧
        step.invalidToolCalls = invalidCalls := by
  unfold Assembler.finish at h
  split at h
  · cases h
  · next validCalls invalidCalls hcalls =>
    cases h
    refine ⟨validCalls, invalidCalls, hcalls, ?_, rfl, rfl⟩
    rw [String.toList_ofList, laneText_append, laneText_heldPiece]
    rfl

/-- A call with an id and a name, and invalid ones with all their fields. -/
structure CallsOk (calls : List ToolCall × List InvalidToolCall) : Prop where
  valid : ∀ c ∈ calls.1, c.id ≠ "" ∧ c.name ≠ ""
  invalid : ∀ c ∈ calls.2, c.callId ≠ "" ∧ c.name ≠ "" ∧ c.rawArguments ≠ "" ∧ c.parseError ≠ ""

theorem assembleCall_ok {calls calls' : List ToolCall × List InvalidToolCall} {slot : ToolSlot} (hok : CallsOk calls)
    (h : assembleCall P calls slot = .ok calls') : CallsOk calls' := by
  unfold assembleCall at h
  split at h
  · cases h
  next hheader =>
  split at h
  · cases h
  next hargs =>
  simp only [Bool.or_eq_true, Bool.not_eq_true', not_or, Bool.not_eq_false, ToolSlot.hasId, ToolSlot.hasName,
    decide_eq_true_eq] at hheader
  have hinvalid : ∀ parseError, parseError ≠ "" →
      CallsOk (calls.1, calls.2 ++ [⟨slot.id.getD "", slot.name.getD "", slot.argsText, parseError⟩]) := by
    intro parseError hne
    refine ⟨hok.valid, fun c hc => ?_⟩
    rcases List.mem_append.1 hc with hc | hc
    · exact hok.invalid c hc
    · cases List.mem_singleton.1 hc
      exact ⟨hheader.1, hheader.2, hargs, hne⟩
  dsimp only at h
  split at h
  · cases h
    refine hinvalid _ fun hnil => ?_
    have hlist := congrArg String.toList hnil
    rw [String.toList_append] at hlist
    cases (List.append_eq_nil_iff.1 hlist).1
  · cases h
    refine ⟨fun c hc => ?_, hok.invalid⟩
    rcases List.mem_append.1 hc with hc | hc
    · exact hok.valid c hc
    · cases List.mem_singleton.1 hc
      exact hheader
  · cases h
    exact hinvalid _ (by decide)

/-- Every call of the message has its id and its name, and every invalid one all its fields. -/
theorem assembleCalls_ok {calls : List ToolCall × List InvalidToolCall} (h : asm.assembleCalls P = .ok calls) :
    CallsOk calls := by
  unfold Assembler.assembleCalls at h
  split at h
  · cases h
  · next slots _ =>
    have hfold : ∀ (l : List ToolSlot) (acc : List ToolCall × List InvalidToolCall), CallsOk acc →
        l.foldlM (assembleCall P) acc = .ok calls → CallsOk calls := by
      intro l
      induction l with
      | nil =>
        intro acc hacc h
        cases h
        exact hacc
      | cons slot l ih =>
        intro acc hacc h
        rw [List.foldlM_cons] at h
        obtain ⟨acc', hacc', h⟩ := bind_eq_ok.1 h
        exact ih acc' (assembleCall_ok hacc hacc') h
    exact hfold slots _ ⟨fun _ hc => (by cases hc), fun _ hc => (by cases hc)⟩ h

end Finish

end Model

end NexusStudio.Llm
