import Mathlib
import NexusStudio.Llm.CallFragments

/-!
# Errors of a frame

`feed_sse_data` is to raise nothing but a `GatewayChatError`.

* (frames) Here with the chunks that it builds: `feedFrame` does what `feedSseData` does where the chunks are accepted
  (`feedSseData_of_ok`, `feedSseData_of_gateway`).
* (items) The items are read up to the first one without an index. A function that is no object, or arguments that are
  no string, raise another exception, and nothing else does (`feedFrame_iff`).
-/

namespace NexusStudio.Llm

open Turn JsonText

/-- What goes into an `AIMessageChunk` for an item. -/
structure ToolCallChunk (ν : Type) where
  index : Int
  id : Option String
  name : Option String
  args : Value ν

def StepError.IsGateway : StepError → Prop
  | .gateway .. => True
  | .app .. => False
  | .other _ => False

section Frames

-- a chunk of a type `γ` is built from what goes into it, or a validation error is raised
variable {ν γ : Type} (P : Python ν) (build : ToolCallChunk ν → Except String γ)

/-- `args_fragment or ""`. -/
def argsOf (function : List (String × Value ν)) : Value ν :=
  ((function.lookup "arguments").filter P.truthy).getD (.string "")

def chunkOf (index : Int) (slot : ToolSlot) (function : List (String × Value ν)) : ToolCallChunk ν :=
  ⟨index, slot.id, slot.name, argsOf P function⟩

/-- One round of the loop over `tool_calls`: the slots and the chunks. -/
def feedItem (acc : List ToolSlot × List γ) : Value ν → Except StepError (List ToolSlot × List γ)
  | .dict item =>
    match (item.lookup "index").bind P.index with
    | none => .error (protocolError "SSE tool call is missing index")
    | some index =>
      match functionOf P item with
      | none => .error (.other "AttributeError")
      | some function =>
        let slot := updateSlot P ((acc.1.find? (·.index = index)).getD ⟨index, none, none, []⟩) item function
        match build (chunkOf P index slot function) with
        | .error message => .error (.other message)
        | .ok chunk => .ok (putSlot acc.1 slot, acc.2 ++ [chunk])
  | _ => .error (protocolError "SSE tool call is missing index")

/-- The rest of `feed_sse_data` for a choice, with the chunks. -/
def Assembler.feedChoiceChunks (asm : Assembler ν) (choice : List (String × Value ν)) :
    Except StepError ((List TokenPiece × List γ) × Assembler ν) :=
  match choice.lookup "delta" with
  | some (.dict delta) =>
    let (pieces, tagState) := parseDeltaTokens asm.thinking asm.tagState delta
    match rawToolCalls delta with
    | none => .error (protocolError "SSE tool_calls is not a list")
    | some items =>
      match items.foldlM (feedItem P build) (asm.toolSlots, []) with
      | .error e => .error e
      | .ok (toolSlots, chunks) =>
        .ok ((pieces, chunks),
          { thinking := asm.thinking
            tagState
            toolSlots
            finishReason := ((choice.lookup "finish_reason").filter P.truthy).or asm.finishReason
            tokenPieces := asm.tokenPieces ++ pieces })
  | _ => .error (protocolError "SSE choice is missing delta")

/-- `feed_sse_data` with both its results. -/
def Assembler.feedFrame (asm : Assembler ν) (data : String) :
    Except StepError ((List TokenPiece × List γ) × Assembler ν) :=
  if data = "[DONE]" then .ok (([], []), asm)
  else
    match P.loads data with
    | .error _ => .error (protocolError "SSE data is not valid JSON")
    | .ok (.dict payload) =>
      match firstChoice payload with
      | .error e => .error e
      | .ok none => .ok (([], []), asm)
      | .ok (some choice) => asm.feedChoiceChunks P build choice
    | .ok _ => .error (protocolError "SSE data is not an object")

end Frames

/-! ### The frames without their chunks -/

section Chunks

variable {ν γ : Type} {P : Python ν} {build : ToolCallChunk ν → Except String γ}

/-- A round either raises another exception or leaves the slots that `feedToolCall` leaves. -/
theorem feedItem_cases (acc : List ToolSlot × List γ) (item : Value ν) :
    (∃ message, feedItem P build acc item = .error (.other message)) ∨
      (feedItem P build acc item).map Prod.fst = feedToolCall P acc.1 item := by
  cases item with
  | dict item =>
    unfold feedItem feedToolCall
    dsimp only
    cases (item.lookup "index").bind P.index with
    | none => exact .inr rfl
    | some index =>
      dsimp only
      cases functionOf P item with
      | none => exact .inr rfl
      | some function =>
        dsimp only
        split
        · exact .inl ⟨_, rfl⟩
        · exact .inr rfl
  | null | bool _ | number _ | string _ | array _ => exact .inr rfl

theorem foldlM_feedItem_cases (items : List (Value ν)) (acc : List ToolSlot × List γ) :
    (∃ message, items.foldlM (feedItem P build) acc = .error (.other message)) ∨
      (items.foldlM (feedItem P build) acc).map Prod.fst = items.foldlM (feedToolCall P) acc.1 := by
  induction items generalizing acc with
  | nil => exact .inr rfl
  | cons item items ih =>
    rw [List.foldlM_cons, List.foldlM_cons]
    rcases feedItem_cases acc item with ⟨message, hother⟩ | hmap
    · exact .inl ⟨message, by rw [hother]; rfl⟩
    · cases hitem : feedItem P build acc item with
      | error e =>
        rw [hitem] at hmap
        rw [← hmap]
        exact .inr rfl
      | ok acc' =>
        rw [hitem] at hmap
        rw [← hmap]
        exact ih acc'

theorem feedChoiceChunks_cases (asm : Assembler ν) (choice : List (String × Value ν)) :
    (∃ message, asm.feedChoiceChunks P build choice = .error (.other message)) ∨
      (asm.feedChoiceChunks P build choice).map (fun r => (r.1.1, r.2)) = asm.feedChoice P choice := by
  unfold Assembler.feedChoiceChunks Assembler.feedChoice
  cases choice.lookup "delta" with
  | none => exact .inr rfl
  | some v =>
    cases v with
    | dict delta =>
      dsimp only
      cases rawToolCalls delta with
      | none => exact .inr rfl
      | some items =>
        dsimp only
        rcases foldlM_feedItem_cases items (asm.toolSlots, []) with ⟨message, hother⟩ | hmap
        · exact .inl ⟨message, by rw [hother]⟩
        · dsimp only at hmap
          rw [← hmap]
          cases items.foldlM (feedItem P build) (asm.toolSlots, []) with
          | error e => exact .inr rfl
          | ok acc => exact .inr rfl
    | null | bool _ | number _ | string _ | array _ => exact .inr rfl

theorem feedFrame_cases (asm : Assembler ν) (data : String) :
    (∃ message, asm.feedFrame P build data = .error (.other message)) ∨
      (asm.feedFrame P build data).map (fun r => (r.1.1, r.2)) = asm.feedSseData P data := by
  unfold Assembler.feedFrame Assembler.feedSseData
  by_cases hdone : data = "[DONE]"
  · rw [if_pos hdone, if_pos hdone]
    exact .inr rfl
  rw [if_neg hdone, if_neg hdone]
  cases P.loads data with
  | error e => exact .inr rfl
  | ok v =>
    cases v with
    | dict payload =>
      dsimp only
      cases firstChoice payload with
      | error e => exact .inr rfl
      | ok choice =>
        cases choice with
        | none => exact .inr rfl
        | some choice => exact feedChoiceChunks_cases asm choice
    | null | bool _ | number _ | string _ | array _ => exact .inr rfl

/-- Where the chunks are accepted, the pieces and the assembler are those of `feedSseData`. -/
theorem feedSseData_of_ok {asm asm' : Assembler ν} {data : String} {pieces : List TokenPiece} {chunks : List γ}
    (h : asm.feedFrame P build data = .ok ((pieces, chunks), asm')) : asm.feedSseData P data = .ok (pieces, asm') := by
  rcases feedFrame_cases asm data with ⟨message, hother⟩ | hmap
  · rw [h] at hother
    cases hother
  · rw [← hmap, h]
    rfl

theorem feedSseData_of_gateway {asm : Assembler ν} {data : String} {e : StepError} (he : e.IsGateway)
    (h : asm.feedFrame P build data = .error e) : asm.feedSseData P data = .error e := by
  rcases feedFrame_cases asm data with ⟨message, hother⟩ | hmap
  · rw [h] at hother
    cases hother
    exact he.elim
  · rw [← hmap, h]
    rfl

end Chunks

/-! ### What a frame raises -/

section Errors

variable {ν γ : Type} {P : Python ν} {build : ToolCallChunk ν → Except String γ}

/-- The computation returns or raises a `GatewayChatError`. -/
def OnlyGateway {α : Type} (r : Except StepError α) : Prop := ∀ e, r = .error e → e.IsGateway

theorem onlyGateway_ok {α : Type} (a : α) : OnlyGateway (.ok a) := by
  intro e he
  cases he

theorem onlyGateway_error {α : Type} {e : StepError} : OnlyGateway (.error e : Except StepError α) ↔ e.IsGateway := by
  constructor
  · exact fun h => h e rfl
  · intro he e' heq
    cases heq
    exact he

theorem onlyGateway_protocol {α : Type} (detail : String) :
    OnlyGateway (.error (protocolError detail) : Except StepError α) := onlyGateway_error.2 trivial

variable (P) in
/-- An item that is an object with an index. -/
def hasIndex : Value ν → Bool
  | .dict item => ((item.lookup "index").bind P.index).isSome
  | _ => false

variable (P) in
/-- The function of an item is an object or nothing, and its arguments are a string or nothing. -/
def WellFormed : Value ν → Prop
  | .dict item => ∃ function, functionOf P item = some function ∧ ∃ s, argsOf P function = .string s
  | _ => True

theorem feedItem_of_not_hasIndex {item : Value ν} (h : hasIndex P item = false) (acc : List ToolSlot × List γ) :
    feedItem P build acc item = .error (protocolError "SSE tool call is missing index") := by
  cases item with
  | dict item =>
    have hnone : (item.lookup "index").bind P.index = none := Option.isNone_iff_eq_none.1 (Option.isSome_eq_false_iff.1 h)
    unfold feedItem
    dsimp only
    rw [hnone]
  | null | bool _ | number _ | string _ | array _ => rfl

/-- An item with an index is taken exactly if it is well formed. -/
theorem feedItem_of_hasIndex (hbuild : ∀ c, (∃ chunk, build c = .ok chunk) ↔ ∃ s, c.args = .string s) {item : Value ν}
    (h : hasIndex P item = true) (acc : List ToolSlot × List γ) :
    (WellFormed P item ∧ ∃ acc', feedItem P build acc item = .ok acc') ∨
      (¬ WellFormed P item ∧ ∃ message, feedItem P build acc item = .error (.other message)) := by
  cases item with
  | dict item =>
    obtain ⟨index, hindex⟩ := Option.isSome_iff_exists.1 h
    unfold feedItem
    dsimp only
    rw [hindex]
    dsimp only
    cases hfunction : functionOf P item with
    | none =>
      refine .inr ⟨?_, _, rfl⟩
      rintro ⟨function, hsome, -⟩
      rw [hfunction] at hsome
      cases hsome
    | some function =>
      have hwell : WellFormed P (.dict item) ↔ ∃ s, argsOf P function = .string s := by
        constructor
        · rintro ⟨function', hsome, hargs⟩
          rw [hfunction] at hsome
          cases hsome
          exact hargs
        · intro hargs
          exact ⟨function, hfunction, hargs⟩
      dsimp only
      rw [hwell]
      generalize updateSlot P _ item function = slot
      have hargs := hbuild (chunkOf P index slot function)
      cases hchunk : build (chunkOf P index slot function) with
      | error message =>
        refine .inr ⟨fun h => ?_, message, rfl⟩
        obtain ⟨chunk, hok⟩ := hargs.2 h
        rw [hchunk] at hok
        cases hok
      | ok chunk => exact .inl ⟨hargs.1 ⟨chunk, hchunk⟩, _, rfl⟩
  | null | bool _ | number _ | string _ | array _ => cases h

/-- The loop raises nothing else exactly if the items before the first one without an index are well formed. -/
theorem foldlM_feedItem_iff (hbuild : ∀ c, (∃ chunk, build c = .ok chunk) ↔ ∃ s, c.args = .string s)
    (items : List (Value ν)) (acc : List ToolSlot × List γ) :
    OnlyGateway (items.foldlM (feedItem P build) acc) ↔ ∀ item ∈ items.takeWhile (hasIndex P), WellFormed P item := by
  induction items generalizing acc with
  | nil => exact iff_of_true (onlyGateway_ok acc) fun _ h => absurd h List.not_mem_nil
  | cons item items ih =>
    rw [List.foldlM_cons]
    cases hindex : hasIndex P item with
    | false =>
      rw [List.takeWhile_cons_of_neg (by rw [hindex]; exact Bool.false_ne_true)]
      refine iff_of_true ?_ fun _ h => absurd h List.not_mem_nil
      rw [feedItem_of_not_hasIndex hindex]
      exact onlyGateway_protocol _
    | true =>
      rw [List.takeWhile_cons_of_pos hindex, List.forall_mem_cons]
      rcases feedItem_of_hasIndex hbuild hindex acc with ⟨hwell, acc', hok⟩ | ⟨hill, message, hother⟩
      · rw [hok]
        refine (ih acc').trans ?_
        exact (and_iff_right hwell).symm
      · refine iff_of_false ?_ fun h => hill h.1
        rw [hother]
        exact onlyGateway_error.1

/-- The items of `tool_calls` in a choice. -/
def choiceItems (choice : List (String × Value ν)) : List (Value ν) :=
  match choice.lookup "delta" with
  | some (.dict delta) => (rawToolCalls delta).getD []
  | _ => []

variable (P) in
/-- The items of `tool_calls` in the first choice of a frame. -/
def frameItems (data : String) : List (Value ν) :=
  if data = "[DONE]" then []
  else
    match P.loads data with
    | .ok (.dict payload) =>
      match firstChoice payload with
      | .ok (some choice) => choiceItems choice
      | _ => []
    | _ => []

theorem onlyGateway_choice (hbuild : ∀ c, (∃ chunk, build c = .ok chunk) ↔ ∃ s, c.args = .string s) (asm : Assembler ν)
    (choice : List (String × Value ν)) :
    OnlyGateway (asm.feedChoiceChunks P build choice) ↔
      ∀ item ∈ (choiceItems choice).takeWhile (hasIndex P), WellFormed P item := by
  have hempty : ∀ detail, OnlyGateway (.error (protocolError detail) :
      Except StepError ((List TokenPiece × List γ) × Assembler ν)) ↔
      ∀ item ∈ ([] : List (Value ν)).takeWhile (hasIndex P), WellFormed P item :=
    fun detail => iff_of_true (onlyGateway_protocol detail) fun _ h => absurd h List.not_mem_nil
  unfold Assembler.feedChoiceChunks choiceItems
  cases choice.lookup "delta" with
  | none => exact hempty _
  | some v =>
    cases v with
    | dict delta =>
      dsimp only
      cases rawToolCalls delta with
      | none => exact hempty _
      | some items =>
        dsimp only
        rw [Option.getD_some, ← foldlM_feedItem_iff hbuild items (asm.toolSlots, [])]
        cases items.foldlM (feedItem P build) (asm.toolSlots, []) with
        | error e => exact onlyGateway_error.trans onlyGateway_error.symm
        | ok acc => exact iff_of_true (onlyGateway_ok _) (onlyGateway_ok _)
    | null | bool _ | number _ | string _ | array _ => exact hempty _

theorem onlyGateway_firstChoice (payload : List (String × Value ν)) : OnlyGateway (firstChoice payload) := by
  unfold firstChoice
  split
  · split
    · exact onlyGateway_ok _
    · exact onlyGateway_protocol _
  · exact onlyGateway_ok _
  · exact onlyGateway_protocol _

/-- **The errors of a frame.** Whatever the data and the assembler, nothing but a `GatewayChatError` is raised, exactly if
each item before the first one without an index has an object or nothing as its function and a string or nothing as its
arguments. -/
theorem feedFrame_iff (hbuild : ∀ c, (∃ chunk, build c = .ok chunk) ↔ ∃ s, c.args = .string s) (asm : Assembler ν)
    (data : String) :
    OnlyGateway (asm.feedFrame P build data) ↔
      ∀ item ∈ (frameItems P data).takeWhile (hasIndex P), WellFormed P item := by
  have hempty : ∀ r : Except StepError ((List TokenPiece × List γ) × Assembler ν), OnlyGateway r →
      (OnlyGateway r ↔ ∀ item ∈ ([] : List (Value ν)).takeWhile (hasIndex P), WellFormed P item) :=
    fun r hr => iff_of_true hr fun _ h => absurd h List.not_mem_nil
  unfold Assembler.feedFrame frameItems
  by_cases hdone : data = "[DONE]"
  · rw [if_pos hdone, if_pos hdone]
    exact hempty _ (onlyGateway_ok _)
  rw [if_neg hdone, if_neg hdone]
  cases P.loads data with
  | error e => exact hempty _ (onlyGateway_protocol _)
  | ok v =>
    cases v with
    | dict payload =>
      dsimp only
      have hchoice := onlyGateway_firstChoice payload
      cases hfirst : firstChoice payload with
      | error e =>
        exact hempty _ (onlyGateway_error.2 (hchoice e hfirst))
      | ok choice =>
        cases choice with
        | none => exact hempty _ (onlyGateway_ok _)
        | some choice => exact onlyGateway_choice hbuild asm choice
    | null | bool _ | number _ | string _ | array _ => exact hempty _ (onlyGateway_protocol _)

/-- A constructor that takes the chunks whose arguments are a string. -/
def buildOf (c : ToolCallChunk ν) : Except String Unit :=
  match c.args with
  | .string _ => .ok ()
  | _ => .error "ValidationError"

theorem buildOf_iff (c : ToolCallChunk ν) : (∃ chunk, buildOf c = .ok chunk) ↔ ∃ s, c.args = .string s := by
  unfold buildOf
  cases c.args with
  | string s => exact iff_of_true ⟨_, rfl⟩ ⟨s, rfl⟩
  | null | bool _ | number _ | array _ | dict _ =>
    refine iff_of_false ?_ ?_
    · rintro ⟨_, h⟩
      cases h
    · rintro ⟨_, h⟩
      cases h

end Errors

theorem frameItems_toolFrame {items : List (Value Int)} (h : KeyedItems items) :
    frameItems integerPython (toolFrame items) = items := by
  rw [frameItems, if_neg (toolFrame_ne_done items), loads_toolFrame h]
  rfl

theorem feedFrame_header :
    OnlyGateway (Assembler.feedFrame integerPython buildOf (Assembler.init ⟨.NONE, []⟩)
      (toolFrame [headerItem 0 "a" "look"])) := by
  have hkeyed : KeyedItems [headerItem 0 "a" "look"] := ⟨keyed_headerItem 0 "a" "look", trivial⟩
  refine (feedFrame_iff buildOf_iff _ _).2 ?_
  rw [frameItems_toolFrame hkeyed]
  intro item hitem
  cases List.mem_singleton.1 hitem
  exact ⟨_, rfl, "", rfl⟩

/-- An item whose function is this value. -/
def functionItem (function : Value Int) : Value Int := .dict [("index", .number 0), ("function", function)]

/-- A function that is a string, and arguments that are an object. -/
theorem feedFrame_shapes :
    Assembler.feedFrame integerPython buildOf (Assembler.init ⟨.NONE, []⟩) (toolFrame [functionItem (.string "f")]) =
        .error (.other "AttributeError") ∧
      Assembler.feedFrame integerPython buildOf (Assembler.init ⟨.NONE, []⟩)
          (toolFrame [functionItem (.dict [("arguments", .dict [("a", .number 1)])])]) =
        .error (.other "ValidationError") := by
  have hkeys : ["index", "function"].Nodup := by decide
  have hstring : KeyedItems [functionItem (.string "f")] := ⟨⟨hkeys, trivial, trivial, trivial⟩, trivial⟩
  have hobject : KeyedItems [functionItem (.dict [("arguments", .dict [("a", .number 1)])])] :=
    ⟨⟨hkeys, trivial, ⟨List.nodup_singleton _, ⟨List.nodup_singleton _, trivial, trivial⟩, trivial⟩, trivial⟩, trivial⟩
  constructor
  · rw [Assembler.feedFrame, if_neg (toolFrame_ne_done _), loads_toolFrame hstring]
    rfl
  · rw [Assembler.feedFrame, if_neg (toolFrame_ne_done _), loads_toolFrame hobject]
    rfl

end NexusStudio.Llm
