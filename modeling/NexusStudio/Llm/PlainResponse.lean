import Mathlib
import NexusStudio.Llm.CallFragments
import NexusStudio.Llm.ReasoningText

/-!
# Completions that are not streamed

The assistant messages of the adapter: `lc_to_openai_message` writes one, `parse_response` reads the one of a
completion, and `_agenerate` makes a message of it.

* (errors) `parse_response` raises a protocol error for the first part that has another shape.
* (round trip) What is read of the message that goes out is the message: `readBack`.
* (streams) A stream that cuts the message of a completion into frames assembles to what is read of the completion,
  in the mode with tags without what is inside of them: `stream_agrees`.
-/

namespace NexusStudio.Llm

open Turn JsonText

/-! ### The adapter -/

structure PlainCall (ν : Type) where
  id : String
  name : String
  args : List (String × Value ν)

/-- An `AIMessage`; `reasoning` is the text of `additional_kwargs["reasoning_content"]`. -/
structure AssistantMessage (ν : Type) where
  content : String
  toolCalls : List (PlainCall ν)
  reasoning : Option String

structure ParsedResponse (ν : Type) where
  content : String
  toolCalls : List (PlainCall ν)
  usage : List (String × Value ν)
  reasoningContent : Option String

section Adapter

variable {ν : Type} (P : Python ν)

def callItem (c : PlainCall ν) : Value ν :=
  .dict [("id", .string c.id), ("type", .string "function"),
    ("function", .dict [("name", .string c.name), ("arguments", .string (P.dumps (.dict c.args)))])]

/-- `lc_to_openai_message` for an `AIMessage`. -/
def lcToOpenaiMessage (m : AssistantMessage ν) : List (String × Value ν) :=
  ("role", .string "assistant") :: ("content", .string m.content) ::
    (((m.reasoning.filter (· ≠ "")).map fun r => ("reasoning_content", Value.string r)).toList ++
      if m.toolCalls = [] then [] else [("tool_calls", .array (m.toolCalls.map (callItem P)))])

/-- The fields of `ThinkingConfig()`. -/
def defaultReasoningFields : List String := ["reasoning_content", "reasoning", "thinking"]

def extractReasoning (message : List (String × Value ν)) : Option String :=
  defaultReasoningFields.findSome? (stringField message)

def parseArguments (arguments : String) : Except StepError (List (String × Value ν)) :=
  match P.loads arguments with
  | .error _ => .error (protocolError "tool call arguments are not valid JSON")
  | .ok (.dict args) => .ok args
  | .ok _ => .error (protocolError "tool call arguments must be an object")

/-- One round of the loop over `tool_calls`. -/
def parseToolCall : Value ν → Except StepError (PlainCall ν)
  | .dict item =>
    match stringField item "id" with
    | none => .error (protocolError "tool call is missing id")
    | some id =>
      match item.lookup "function" with
      | some (.dict function) =>
        match stringField function "name" with
        | none => .error (protocolError "tool call is missing function name")
        | some name =>
          match stringField function "arguments" with
          | none => .error (protocolError "tool call is missing arguments")
          | some arguments => (parseArguments P arguments).map fun args => ⟨id, name, args⟩
      | _ => .error (protocolError "tool call is missing function name")
  | _ => .error (protocolError "tool call is missing id")

def parseContent (message : List (String × Value ν)) (toolCalls : List (PlainCall ν)) : Except StepError String :=
  match message.lookup "content" with
  | some (.string content) => .ok content
  | none | some .null =>
    if toolCalls = [] then .error (protocolError "message content must be a string") else .ok ""
  | some _ => .error (protocolError "message content must be a string")

def parseUsage (payload : List (String × Value ν)) : Except StepError (List (String × Value ν)) :=
  match payload.lookup "usage" with
  | none | some .null => .ok []
  | some (.dict usage) => .ok usage
  | some _ => .error (protocolError "completion usage must be an object")

def parseMessage (message : List (String × Value ν)) : Except StepError (ParsedResponse ν) :=
  match rawToolCalls message with
  | none => .error (protocolError "message tool_calls is not a list")
  | some items => do
    let toolCalls ← items.mapM (parseToolCall P)
    let content ← parseContent message toolCalls
    return ⟨content, toolCalls, [], extractReasoning message⟩

/-- The message of the first choice. -/
def completionMessage (payload : List (String × Value ν)) : Except StepError (List (String × Value ν)) :=
  match payload.lookup "choices" with
  | some (.array (.dict choice :: _)) =>
    match choice.lookup "message" with
    | some (.dict message) => .ok message
    | _ => .error (protocolError "chat completion choice is missing message")
  | _ => .error (protocolError "chat completion response has no valid choice")

/-- The payload of a response, which is a text or already a value. -/
def completionPayload : Value ν → Except StepError (List (String × Value ν))
  | .dict payload => .ok payload
  | .string raw =>
    match P.loads raw with
    | .error _ => .error (protocolError "chat completion response is not valid JSON")
    | .ok (.dict payload) => .ok payload
    | .ok _ => .error (protocolError "chat completion response is not an object")
  | _ => .error (protocolError "chat completion response is not an object")

def parseResponse (raw : Value ν) : Except StepError (ParsedResponse ν) := do
  let payload ← completionPayload P raw
  let message ← completionMessage payload
  let parsed ← parseMessage P message
  let usage ← parseUsage payload
  return { parsed with usage }

/-- The message of `_agenerate`, of which no reasoning is kept that is empty. -/
def agenerateMessage (r : ParsedResponse ν) : AssistantMessage ν where
  content := r.content
  toolCalls := r.toolCalls
  reasoning := r.reasoningContent.filter (· ≠ "")

end Adapter

/-! ### Round trip -/

section RoundTrip

variable {ν : Type} {P : Python ν}

/-- What `json.dumps` writes, `json.loads` reads. -/
def RoundTrips (P : Python ν) : Prop := ∀ v : Value ν, v.Keyed → P.loads (P.dumps v) = .ok v ∧ P.dumps v ≠ ""

theorem stringField_cons_self {k s : String} (hs : s ≠ "") (l : List (String × Value ν)) :
    stringField ((k, .string s) :: l) k = some s := by
  simp [stringField, hs]

theorem stringField_cons_ne {k k' : String} (h : k' ≠ k) (v : Value ν) (l : List (String × Value ν)) :
    stringField ((k, v) :: l) k' = stringField l k' := by
  rw [stringField, stringField, List.lookup_cons, beq_false_of_ne h]

theorem parseToolCall_callItem (hP : RoundTrips P) {c : PlainCall ν} (hid : c.id ≠ "") (hname : c.name ≠ "")
    (hargs : (Value.dict c.args).Keyed) : parseToolCall P (callItem P c) = .ok c := by
  obtain ⟨hloads, hne⟩ := hP _ hargs
  rw [callItem, parseToolCall, stringField_cons_self hid]
  dsimp only
  rw [show List.lookup "function" _ = some _ from rfl]
  dsimp only
  rw [stringField_cons_self hname, stringField_cons_ne (by decide), stringField_cons_self hne]
  dsimp only
  rw [parseArguments, hloads]
  rfl

/-- A message whose calls can go out: ids and names, and arguments with distinct keys. -/
def Sendable (m : AssistantMessage ν) : Prop :=
  ∀ c ∈ m.toolCalls, c.id ≠ "" ∧ c.name ≠ "" ∧ (Value.dict c.args).Keyed

theorem mapM_callItem (hP : RoundTrips P) {calls : List (PlainCall ν)}
    (h : ∀ c ∈ calls, c.id ≠ "" ∧ c.name ≠ "" ∧ (Value.dict c.args).Keyed) :
    (calls.map (callItem P)).mapM (parseToolCall P) = .ok calls := by
  induction calls with
  | nil => rfl
  | cons c calls ih =>
    obtain ⟨hid, hname, hargs⟩ := h c List.mem_cons_self
    rw [List.map_cons, List.mapM_cons, parseToolCall_callItem hP hid hname hargs,
      ih fun d hd => h d (List.mem_cons_of_mem _ hd)]
    rfl

/-- The payload of a completion with one choice. -/
def completion (message : List (String × Value ν)) : Value ν :=
  .dict [("choices", .array [.dict [("message", .dict message)]])]

theorem rawToolCalls_outgoing (m : AssistantMessage ν) :
    rawToolCalls (lcToOpenaiMessage P m) = some (m.toolCalls.map (callItem P)) := by
  obtain ⟨content, toolCalls, reasoning⟩ := m
  unfold rawToolCalls lcToOpenaiMessage
  dsimp only
  cases reasoning.filter (· ≠ "") with
  | none =>
    cases toolCalls with
    | nil => rfl
    | cons c calls => rfl
  | some r =>
    cases toolCalls with
    | nil => rfl
    | cons c calls => rfl

theorem extractReasoning_outgoing (m : AssistantMessage ν) :
    extractReasoning (lcToOpenaiMessage P m) = m.reasoning.filter (· ≠ "") := by
  obtain ⟨content, toolCalls, reasoning⟩ := m
  unfold extractReasoning lcToOpenaiMessage
  dsimp only
  cases hr : reasoning.filter (· ≠ "") with
  | none =>
    split
    · rfl
    · rfl
  | some r =>
    have hne : r ≠ "" := of_decide_eq_true (Option.filter_eq_some_iff.1 hr).2
    simp only [defaultReasoningFields, List.findSome?_cons]
    have hfield : ∀ l : List (String × Value ν), stringField (("role", .string "assistant") ::
        ("content", .string content) :: ("reasoning_content", .string r) :: l) "reasoning_content" = some r := by
      intro l
      rw [stringField_cons_ne (by decide), stringField_cons_ne (by decide), stringField_cons_self hne]
    rw [Option.map_some, Option.toList_some, List.cons_append, hfield]

/-- A completion with the message that goes out is read as the message. -/
theorem parseResponse_outgoing (hP : RoundTrips P) {m : AssistantMessage ν} (h : Sendable m) :
    parseResponse P (completion (lcToOpenaiMessage P m)) =
      .ok ⟨m.content, m.toolCalls, [], m.reasoning.filter (· ≠ "")⟩ := by
  have hcontent : (lcToOpenaiMessage P m).lookup "content" = some (.string m.content) := rfl
  have hmessage : parseMessage P (lcToOpenaiMessage P m) =
      .ok ⟨m.content, m.toolCalls, [], m.reasoning.filter (· ≠ "")⟩ := by
    have hcalls := mapM_callItem hP h
    have hparsed : parseContent (lcToOpenaiMessage P m) m.toolCalls = .ok m.content := by
      unfold parseContent
      rw [hcontent]
    rw [parseMessage, rawToolCalls_outgoing]
    dsimp only
    rw [hcalls, extractReasoning_outgoing]
    simp only [bind, Except.bind, hparsed]
    rfl
  have hpayload : completionMessage [("choices", .array [.dict [("message", .dict (lcToOpenaiMessage P m))]])] =
      .ok (lcToOpenaiMessage P m) := rfl
  rw [parseResponse, completion, completionPayload]
  simp only [bind, Except.bind, hpayload, hmessage]
  rfl

theorem keyed_outgoing (m : AssistantMessage ν) : (completion (lcToOpenaiMessage P m)).Keyed := by
  have hcalls : KeyedItems (m.toolCalls.map (callItem P)) := by
    generalize m.toolCalls = calls
    induction calls with
    | nil => trivial
    | cons c calls ih =>
      exact ⟨⟨show ["id", "type", "function"].Nodup by decide, trivial, trivial,
        ⟨show ["name", "arguments"].Nodup by decide, trivial, trivial, trivial⟩, trivial⟩, ih⟩
  have hmessage : (Value.dict (lcToOpenaiMessage P m)).Keyed := by
    unfold lcToOpenaiMessage
    cases m.reasoning.filter (· ≠ "") with
    | none =>
      split
      · exact ⟨show ["role", "content"].Nodup by decide, trivial, trivial, trivial⟩
      · exact ⟨show ["role", "content", "tool_calls"].Nodup by decide, trivial, trivial, hcalls, trivial⟩
    | some r =>
      split
      · exact ⟨show ["role", "content", "reasoning_content"].Nodup by decide, trivial, trivial, trivial, trivial⟩
      · exact ⟨show ["role", "content", "reasoning_content", "tool_calls"].Nodup by decide, trivial, trivial, trivial,
          hcalls, trivial⟩
  exact ⟨List.nodup_singleton _, ⟨⟨List.nodup_singleton _, hmessage, trivial⟩, trivial⟩, trivial⟩

/-- The text of a completion with the message that goes out is read as the message; only reasoning that is empty gets
lost. -/
theorem readBack (hP : RoundTrips P) {m : AssistantMessage ν} (h : Sendable m) :
    (parseResponse P (.string (P.dumps (completion (lcToOpenaiMessage P m))))).map agenerateMessage =
      .ok { m with reasoning := m.reasoning.filter (· ≠ "") } := by
  have hloads := (hP _ (keyed_outgoing (P := P) m)).1
  have htext : parseResponse P (.string (P.dumps (completion (lcToOpenaiMessage P m)))) =
      parseResponse P (completion (lcToOpenaiMessage P m)) := by
    rw [parseResponse, parseResponse, completionPayload, hloads]
    rfl
  rw [htext, parseResponse_outgoing hP h]
  simp only [Except.map, agenerateMessage, Option.filter_filter, Bool.and_self]

end RoundTrip

theorem roundTrips_integer : RoundTrips integerPython := by
  intro v hv
  refine ⟨integerPython_loads hv, fun hnil => ?_⟩
  obtain ⟨d, l, hl, -⟩ := write_first integersReader v
  have hwrite : write integers [' '] v = [] := String.ofList_eq_empty_iff.1 hnil
  exact List.cons_ne_nil d l (hl.symm.trans hwrite)

/-- A message with a call and a thought. -/
def lookAround : AssistantMessage Int := ⟨"Hi", [⟨"a", "look", [("x", .number 1)]⟩], some "why"⟩

theorem readBack_lookAround :
    (parseResponse integerPython (.string (integerPython.dumps (completion (lcToOpenaiMessage integerPython
      lookAround))))).map agenerateMessage = .ok lookAround := by
  refine readBack roundTrips_integer fun c hc => ?_
  obtain rfl := List.mem_singleton.1 hc
  exact ⟨by decide, by decide, List.nodup_singleton _, trivial, trivial⟩

/-! ### Streams of a completion -/

section Streams

variable {ν : Type} {P : Python ν}

/-- The id, the name and the text of the arguments of an item. -/
def itemTexts : Value ν → Option (String × String × String)
  | .dict item =>
    match item.lookup "function" with
    | some (.dict function) => do
      let id ← stringField item "id"
      let name ← stringField function "name"
      let arguments ← stringField function "arguments"
      return (id, name, arguments)
    | _ => none
  | _ => none

/-- Fragments of the items of a message, each with the place of its item as its index. -/
structure Cut (items : List (Value ν)) (fs : List CallFragment) : Prop where
  index : ∀ f ∈ fs, ∃ i < items.length, f.index = (i : Int)
  item : ∀ (i : ℕ) item, items[i]? = some item → ∀ id name arguments, itemTexts item = some (id, name, arguments) →
    (∀ f ∈ fs, f.index = (i : Int) → (∀ s ∈ f.id, s = id) ∧ ∀ s ∈ f.name, s = name) ∧
    (∃ f ∈ fs, f.index = (i : Int) ∧ f.id = some id) ∧ (∃ f ∈ fs, f.index = (i : Int) ∧ f.name = some name) ∧
    String.join ((fs.filter fun f => f.index = (i : Int)).filterMap CallFragment.arguments) = arguments

variable (P) in
/-- Frames that bring the content and the tool calls of a message in pieces. -/
structure Streams (message : List (String × Value ν)) (frames : List String) : Prop where
  content : (frames.filterMap (frameDelta P)).flatMap contentText = contentText message
  calls : ∃ items fss, rawToolCalls message = some items ∧ frames.mapM (frameFragments P) = some fss ∧
    Cut items fss.flatten

def PlainCall.toolCall (c : PlainCall ν) : ToolCall := ⟨c.id, c.name, c.args.map fun f => (f.1, P.dumps f.2)⟩

/-- What a mode shows of a content: in the mode with tags what is outside of them. -/
def shownText (mode : ThinkingMode) (content : Text) : Text :=
  match mode with
  | .CONTENT_TAGS => ((channels defaultTagPairs none content).filter fun d => d.1 = .answer).map Prod.snd
  | _ => content

theorem parseToolCall_ok {item : Value ν} {c : PlainCall ν} (h : parseToolCall P item = .ok c) :
    c.id ≠ "" ∧ c.name ≠ "" ∧ ∃ arguments, arguments ≠ "" ∧ itemTexts item = some (c.id, c.name, arguments) ∧
      P.loads arguments = .ok (.dict c.args) := by
  have hne : ∀ {l : List (String × Value ν)} {k s : String}, stringField l k = some s → s ≠ "" := by
    intro l k s hs hnil
    exact stringField_ne hs (by rw [hnil]; rfl)
  unfold parseToolCall at h
  split at h
  · next item =>
    split at h
    · cases h
    · next id hid =>
      split at h
      · next function hfunction =>
        split at h
        · cases h
        · next name hname =>
          split at h
          · cases h
          · next arguments harguments =>
            unfold parseArguments at h
            split at h
            · cases h
            · next args hargs =>
              cases h
              refine ⟨hne hid, hne hname, arguments, hne harguments, ?_, hargs⟩
              simp only [itemTexts, hfunction, hid, hname, harguments, Option.bind_eq_bind, Option.bind_some,
                Option.pure_def]
            · cases h
      · cases h
  · cases h

/-- The calls that are read, with their places. -/
theorem exists_streamed {items : List (Value ν)} {calls : List (PlainCall ν)}
    (h : items.mapM (parseToolCall P) = .ok calls) (n : ℕ) :
    ∃ l : List (StreamedCall P), l.map StreamedCall.index = (List.range' n items.length).map Int.ofNat ∧
      l.map StreamedCall.toolCall = calls.map (PlainCall.toolCall (P := P)) ∧
      ∀ c ∈ l, ∃ i item, items[i]? = some item ∧ c.index = ((n + i : ℕ) : Int) ∧
        itemTexts item = some (c.id, c.name, c.arguments) := by
  induction items generalizing calls n with
  | nil =>
    cases h
    exact ⟨[], rfl, rfl, fun c hc => absurd hc List.not_mem_nil⟩
  | cons item items ih =>
    rw [List.mapM_cons] at h
    obtain ⟨c, hc, h⟩ := bind_eq_ok.1 h
    obtain ⟨rest, hrest, h⟩ := bind_eq_ok.1 h
    cases h
    obtain ⟨hid, hname, arguments, hne, htexts, hloads⟩ := parseToolCall_ok hc
    obtain ⟨l, hindex, hcalls, hl⟩ := ih hrest (n + 1)
    refine ⟨⟨n, c.id, c.name, arguments, c.args, hid, hname, hne, hloads⟩ :: l, ?_, ?_, ?_⟩
    · rw [List.map_cons, hindex]
      rfl
    · rw [List.map_cons, hcalls]
      rfl
    · intro d hd
      rcases List.mem_cons.1 hd with rfl | hd
      · exact ⟨0, item, rfl, rfl, htexts⟩
      · obtain ⟨i, item', hitem, hi, htexts'⟩ := hl d hd
        exact ⟨i + 1, item', hitem, by rw [hi]; congr 1; omega, htexts'⟩

/-- The fragments of a message are those of its calls. -/
theorem fragmentation_cut {items : List (Value ν)} {calls : List (StreamedCall P)} {fs : List CallFragment}
    (hcut : Cut items fs) (hindex : calls.map StreamedCall.index = (List.range' 0 items.length).map Int.ofNat)
    (hcalls : ∀ c ∈ calls, ∃ i item, items[i]? = some item ∧ c.index = ((0 + i : ℕ) : Int) ∧
      itemTexts item = some (c.id, c.name, c.arguments)) : Fragmentation calls fs := by
  have hitem : ∀ c ∈ calls, (∀ f ∈ fs, f.index = c.index → (∀ s ∈ f.id, s = c.id) ∧ ∀ s ∈ f.name, s = c.name) ∧
      (∃ f ∈ fs, f.index = c.index ∧ f.id = some c.id) ∧ (∃ f ∈ fs, f.index = c.index ∧ f.name = some c.name) ∧
      String.join ((fs.filter fun f => f.index = c.index).filterMap CallFragment.arguments) = c.arguments := by
    intro c hc
    obtain ⟨i, item, hi, hplace, htexts⟩ := hcalls c hc
    rw [Nat.zero_add] at hplace
    rw [hplace]
    exact hcut.item i item hi _ _ _ htexts
  constructor
  · intro f hf
    obtain ⟨i, hi, hplace⟩ := hcut.index f hf
    rw [hindex, hplace]
    exact List.mem_map_of_mem (List.mem_range'_1.2 ⟨Nat.zero_le _, by omega⟩)
  · exact fun c hc f hf hplace => ((hitem c hc).1 f hf hplace).1
  · exact fun c hc f hf hplace => ((hitem c hc).1 f hf hplace).2
  · exact fun c hc => (hitem c hc).2.1
  · exact fun c hc => (hitem c hc).2.2.1
  · exact fun c hc => (hitem c hc).2.2.2

/-- Calls with their places as indices are in order. -/
theorem inIndexOrder_range {calls : List (StreamedCall P)} {n : ℕ}
    (hindex : calls.map StreamedCall.index = (List.range' 0 n).map Int.ofNat) :
    (calls.map StreamedCall.index).Nodup ∧ inIndexOrder calls = calls := by
  have hlt : (calls.map StreamedCall.index).Pairwise (· < ·) := by
    rw [hindex, List.pairwise_map]
    exact (List.pairwise_lt_range' (n := n)).imp fun h => Int.ofNat_lt.2 h
  refine ⟨hlt.imp fun h => Int.ne_of_lt h, ?_⟩
  rw [List.pairwise_map] at hlt
  exact (hlt.imp fun h => Int.le_of_lt h).insertionSort_eq

/-- The slots of the fragments of some calls are assembled to the calls. -/
theorem assembleCalls_fragments (thinking : ThinkingConfig) {calls : List (StreamedCall P)}
    (hnodup : (calls.map StreamedCall.index).Nodup) {frames : List String} {fss : List (List CallFragment)}
    (hframes : frames.mapM (frameFragments P) = some fss) (h : Fragmentation calls fss.flatten) :
    ∃ asm, feedFrames P (Assembler.init thinking) frames = .ok asm ∧
      asm.assembleCalls P = .ok ((inIndexOrder calls).map StreamedCall.toolCall, []) := by
  obtain ⟨asm, hasm, hslots⟩ := feedFrames_fragments hframes (Assembler.init thinking)
  have hsort := slots_fragmentation hnodup h
  have hmem : ∀ c ∈ inIndexOrder calls, SlotOf c (slotGatherer.own fss.flatten c.index) :=
    fun c hc => slotOf_own h ((List.mem_insertionSort _).1 hc)
  change asm.toolSlots = fss.flatten.foldl slotGatherer.feed [] at hslots
  have hcomplete : ∀ s ∈ asm.toolSlots, Complete s := by
    intro s hs
    have hs' := (List.mem_insertionSort fun s t : ToolSlot => s.index ≤ t.index).2 hs
    rw [hslots, hsort] at hs'
    obtain ⟨c, hc, rfl⟩ := List.mem_map.1 hs'
    exact (hmem c hc).complete
  have hforall : List.Forall₂ SlotOf (inIndexOrder calls)
      ((inIndexOrder calls).map fun c => slotGatherer.own fss.flatten c.index) := by
    rw [List.forall₂_map_right_iff, List.forall₂_same]
    exact hmem
  refine ⟨asm, hasm, ?_⟩
  rw [Assembler.assembleCalls, normalize_complete hcomplete, hslots]
  dsimp only
  rw [hsort]
  exact assembleCalls_slotOf hforall ([], [])

theorem laneText_reasoning (thinking : ThinkingConfig) (delta : List (String × Value ν)) :
    laneText .answer (reasoningPieces thinking delta) = [] := by
  unfold reasoningPieces
  induction thinking.reasoningFields with
  | nil => rfl
  | cons field fields ih =>
    rw [List.filterMap_cons]
    cases stringField delta field with
    | none => exact ih
    | some s => exact ih

theorem laneText_content (delta : List (String × Value ν)) :
    laneText .answer (contentPieces delta) = contentText delta := by
  unfold contentPieces contentText
  cases stringField delta "content" with
  | none => rfl
  | some s => exact List.append_nil _

/-- Outside of the mode with tags a delta brings its content to the answer. -/
theorem parseDeltaTokens_plain {thinking : ThinkingConfig} (hmode : thinking.mode ≠ .CONTENT_TAGS)
    (state : ThinkTagStreamState) (delta : List (String × Value ν)) :
    laneText .answer (parseDeltaTokens thinking state delta).1 = contentText delta ∧
      (parseDeltaTokens thinking state delta).2 = state := by
  unfold parseDeltaTokens
  split
  · exact ⟨laneText_content delta, rfl⟩
  · dsimp only
    split
    case isTrue hnil =>
      have hcontent : stringField delta "content" = none := by
        have hempty := (List.append_eq_nil_iff.1 hnil).2
        cases hfield : stringField delta "content" with
        | none => rfl
        | some s =>
          rw [contentPieces, hfield] at hempty
          cases hempty
      rw [taggedPieces, contentText, hcontent]
      exact ⟨rfl, rfl⟩
    case isFalse =>
      rw [laneText_append, laneText_reasoning, laneText_content]
      exact ⟨rfl, rfl⟩
  · next h => exact absurd h hmode

theorem answer_parseDeltas {thinking : ThinkingConfig} (hmode : thinking.mode ≠ .CONTENT_TAGS)
    (state : ThinkTagStreamState) (deltas : List (List (String × Value ν))) :
    laneText .answer (parseDeltas thinking state deltas).1 = deltas.flatMap contentText ∧
      (parseDeltas thinking state deltas).2 = state := by
  induction deltas with
  | nil => exact ⟨rfl, rfl⟩
  | cons delta deltas ih =>
    obtain ⟨hpieces, hstate⟩ := parseDeltaTokens_plain hmode state delta
    rw [parseDeltas]
    dsimp only
    rw [hstate, laneText_append, hpieces, ih.1]
    exact ⟨rfl, ih.2⟩

/-- In the mode with tags the contents of the deltas are pushed, one after the other. -/
theorem pushed_parseDeltas {thinking : ThinkingConfig} (hmode : thinking.mode = .CONTENT_TAGS)
    (deltas : List (List (String × Value ν))) {text : Text} {old : List TokenPiece} {state : ThinkTagStreamState}
    (h : Pushed defaultTagPairs none text (old, state)) :
    ∃ pieces, laneText .answer (parseDeltas thinking state deltas).1 = laneText .answer pieces ∧
      Pushed defaultTagPairs none (text ++ deltas.flatMap contentText)
        (old ++ pieces, (parseDeltas thinking state deltas).2) := by
  induction deltas generalizing text old state with
  | nil => exact ⟨[], rfl, by rwa [List.flatMap_nil, List.append_nil, List.append_nil]⟩
  | cons delta deltas ih =>
    have htokens : parseDeltaTokens thinking state delta = taggedPieces thinking state delta := by
      rw [parseDeltaTokens, hmode]
    rw [parseDeltas, htokens, List.flatMap_cons, ← List.append_assoc]
    cases hfield : stringField delta "content" with
    | none =>
      have htagged : taggedPieces thinking state delta = ([], state) := by
        rw [taggedPieces, hfield]
      rw [htagged, contentText, hfield, Option.map_none, Option.getD_none, List.append_nil]
      exact ih h
    | some content =>
      have htagged : taggedPieces thinking state delta = (reasoningPieces thinking delta ++
          (pushTagAwareText content.toList state defaultTagPairs).1,
          (pushTagAwareText content.toList state defaultTagPairs).2) := by
        rw [taggedPieces, hfield]
      have hpush : Pushed defaultTagPairs none (text ++ content.toList)
          (old ++ (pushTagAwareText content.toList state defaultTagPairs).1,
            (pushTagAwareText content.toList state defaultTagPairs).2) :=
        h.trans (pushed_push separate_default h.ok content.toList)
      obtain ⟨pieces, hanswer, hpushed⟩ := ih hpush
      refine ⟨(pushTagAwareText content.toList state defaultTagPairs).1 ++ pieces, ?_, ?_⟩
      · rw [htagged]
        dsimp only
        rw [laneText_append, laneText_append, laneText_reasoning, hanswer, laneText_append]
        rfl
      · rw [htagged, contentText, hfield, ← List.append_assoc]
        exact hpushed

/-- The answer that `finish` joins. -/
theorem answer_frames {thinking : ThinkingConfig} {frames : List String} {asm : Assembler ν}
    (h : feedFrames P (Assembler.init thinking) frames = .ok asm) :
    laneText .answer (asm.tokenPieces ++ asm.heldPiece) =
      shownText thinking.mode ((frames.filterMap (frameDelta P)).flatMap contentText) := by
  obtain ⟨hpieces, hstate⟩ := feedFrames_deltas h
  rw [heldPiece_eq, hpieces, hstate]
  by_cases hmode : thinking.mode = .CONTENT_TAGS
  · have hinit := pushed_init separate_default tagsOk_init
    obtain ⟨pieces, hanswer, hpushed⟩ := pushed_parseDeltas hmode (frames.filterMap (frameDelta P)) hinit
    have hmarked := hpushed.marked_eq
    rw [List.nil_append, List.nil_append] at hmarked
    have hshown : shownText thinking.mode = shownText .CONTENT_TAGS := congrArg _ hmode
    rw [hshown, shownText, ← hmarked, ← laneText_marked, laneText_append, laneText_append, laneText_append, ← hanswer]
    rfl
  · obtain ⟨hanswer, hsame⟩ := answer_parseDeltas hmode .init (frames.filterMap (frameDelta P))
    have hshown : ∀ text, shownText thinking.mode text = text := by
      intro text
      unfold shownText
      split
      · next hcontra => exact absurd hcontra hmode
      · rfl
    rw [hshown, laneText_append]
    change laneText .answer (parseDeltas thinking .init _).1 ++
      laneText .answer (flush (parseDeltas thinking .init _).2) = _
    rw [hanswer, hsame]
    exact List.append_nil _

theorem parseContent_ok {message : List (String × Value ν)} {calls : List (PlainCall ν)} {content : String}
    (h : parseContent message calls = .ok content) : contentText message = content.toList := by
  unfold contentText stringField
  unfold parseContent at h
  split at h
  · next s hs =>
    cases h
    rw [hs]
    dsimp only
    split
    case isTrue hnil => rw [hnil]; rfl
    case isFalse => rfl
  · next hnone =>
    rw [hnone]
    split at h
    · cases h
    · cases h
      rfl
  · next hnull =>
    rw [hnull]
    split at h
    · cases h
    · cases h
      rfl
  · cases h

/-- A stream that brings the message of a completion in pieces assembles to what is read of the completion. -/
theorem stream_agrees (thinking : ThinkingConfig) {payload message : List (String × Value ν)} {r : ParsedResponse ν}
    {frames : List String} (hplain : parseResponse P (.dict payload) = .ok r)
    (hmessage : completionMessage payload = .ok message) (hstream : Streams P message frames) :
    ∃ asm step, feedFrames P (Assembler.init thinking) frames = .ok asm ∧ asm.finish P = .ok step ∧
      step.message = ⟨String.ofList (shownText thinking.mode r.content.toList),
        r.toolCalls.map (PlainCall.toolCall (P := P))⟩ ∧ step.invalidToolCalls = [] := by
  obtain ⟨items, fss, hitems, hframes, hcut⟩ := hstream.calls
  have hread : (completionMessage payload >>= fun message => parseMessage P message >>= fun parsed =>
      parseUsage payload >>= fun usage => pure { parsed with usage }) = .ok r := hplain
  obtain ⟨message', hmessage', hrest⟩ := bind_eq_ok.1 hread
  obtain rfl : message = message' := Except.ok.inj (hmessage.symm.trans hmessage')
  obtain ⟨parsed, hparsed, hrest⟩ := bind_eq_ok.1 hrest
  obtain ⟨usage, -, hrest⟩ := bind_eq_ok.1 hrest
  cases hrest
  rw [parseMessage, hitems] at hparsed
  obtain ⟨calls, hcalls, hparsed⟩ := bind_eq_ok.1 hparsed
  obtain ⟨content, hcontent, hparsed⟩ := bind_eq_ok.1 hparsed
  cases hparsed
  obtain ⟨l, hindex, htool, hl⟩ := exists_streamed hcalls 0
  obtain ⟨hnodup, horder⟩ := inIndexOrder_range hindex
  obtain ⟨asm, hasm, hassemble⟩ := assembleCalls_fragments thinking hnodup hframes (fragmentation_cut hcut hindex hl)
  rw [horder, htool] at hassemble
  have hanswer := answer_frames hasm
  rw [hstream.content, parseContent_ok hcontent] at hanswer
  have hfinish : asm.finish P = .ok
      { message := ⟨String.ofList (laneText .answer (asm.tokenPieces ++ asm.heldPiece)),
          calls.map (PlainCall.toolCall (P := P))⟩
        invalidToolCalls := []
        tokenPieces := asm.tokenPieces ++ asm.heldPiece
        finishReason := asm.finishReason } := by
    rw [Assembler.finish, hassemble]
  refine ⟨asm, _, hasm, hfinish, ?_, rfl⟩
  dsimp only
  rw [hanswer]

end Streams

theorem frameDelta_deltaFrame {delta : List (String × Value Int)} (h : (Value.dict delta).Keyed) :
    frameDelta integerPython (deltaFrame delta) = some delta := by
  rw [frameDelta, if_neg (deltaFrame_ne_done delta), loads_deltaFrame h]
  rfl

theorem frameFragments_content (s : String) :
    frameFragments integerPython (deltaFrame [("content", .string s)]) = some [] := by
  have hkeyed : (Value.dict [("content", Value.string s)] : Value Int).Keyed :=
    ⟨List.nodup_singleton _, trivial, trivial⟩
  rw [frameFragments, if_neg (deltaFrame_ne_done _), loads_deltaFrame hkeyed]
  rfl

/-- A message with a call without arguments, and a stream with its content in two pieces. -/
def lookMessage : List (String × Value Int) :=
  [("content", .string "Hi"), ("tool_calls", .array [callItem integerPython ⟨"a", "look", []⟩])]

def lookFrames : List String :=
  [deltaFrame [("content", .string "H")], toolFrame [headerItem 0 "a" "look"],
    toolFrame [argumentsItem 0 (integerPython.dumps (.dict []))], deltaFrame [("content", .string "i")]]

theorem streams_look : Streams integerPython lookMessage lookFrames := by
  have hcontent : ∀ s : String, (Value.dict [("content", Value.string s)] : Value Int).Keyed := fun s =>
    ⟨List.nodup_singleton _, trivial, trivial⟩
  have hitems : ∀ items : List (Value Int), KeyedItems items → (Value.dict [("tool_calls", Value.array items)]).Keyed :=
    fun items h => ⟨List.nodup_singleton _, h, trivial⟩
  have hheader : KeyedItems [headerItem 0 "a" "look"] := ⟨keyed_headerItem _ _ _, trivial⟩
  have harguments : KeyedItems [argumentsItem 0 (integerPython.dumps (.dict []))] := ⟨keyed_argumentsItem _ _, trivial⟩
  refine ⟨?_, _, [[], [⟨0, some "a", some "look", none⟩], [⟨0, none, none, some (integerPython.dumps (.dict []))⟩], []],
    rfl, ?_, ?_⟩
  · have hdeltas : lookFrames.filterMap (frameDelta integerPython) =
        [[("content", .string "H")], [("tool_calls", .array [headerItem 0 "a" "look"])],
          [("tool_calls", .array [argumentsItem 0 (integerPython.dumps (.dict []))])], [("content", .string "i")]] := by
      rw [lookFrames, toolFrame, toolFrame, ← deltaFrame, ← deltaFrame]
      simp only [List.filterMap_cons, List.filterMap_nil, frameDelta_deltaFrame (hcontent _),
        frameDelta_deltaFrame (hitems _ hheader), frameDelta_deltaFrame (hitems _ harguments)]
    rw [hdeltas]
    rfl
  · simp only [lookFrames, List.mapM_cons, List.mapM_nil, frameFragments_content, frameFragments_toolFrame hheader,
      frameFragments_toolFrame harguments]
    rfl
  · constructor
    · decide
    · intro i item hi id name arguments htexts
      cases i with
      | succ i => cases hi
      | zero =>
        cases hi
        obtain ⟨rfl, rfl, rfl⟩ : "a" = id ∧ "look" = name ∧ integerPython.dumps (.dict []) = arguments := by
          have hall := Option.some.inj htexts
          exact ⟨congrArg (·.1) hall, congrArg (·.2.1) hall, congrArg (·.2.2) hall⟩
        decide

theorem stream_agrees_look :
    ∃ asm step, feedFrames integerPython (Assembler.init ⟨.CONTENT_TAGS, defaultReasoningFields⟩) lookFrames = .ok asm ∧
      asm.finish integerPython = .ok step ∧ step.message = ⟨"Hi", [⟨"a", "look", []⟩]⟩ ∧ step.invalidToolCalls = [] := by
  have hplain : parseResponse integerPython (.dict [("choices", .array [.dict [("message", .dict lookMessage)]])]) =
      .ok ⟨"Hi", [⟨"a", "look", []⟩], [], none⟩ := by
    rfl
  exact stream_agrees ⟨.CONTENT_TAGS, defaultReasoningFields⟩ hplain rfl streams_look

end NexusStudio.Llm
