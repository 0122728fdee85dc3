import Mathlib
import NexusStudio.Lib.Demultiplex
import NexusStudio.Lib.JsonRead
import NexusStudio.Llm.Assembler

/-!
# Tool calls in fragments

However the tool calls of a stream are cut into fragments and interleaved, `finish` has them as they are.

* (fragments) `frameFragments` reads the fragments of a frame; the slots gather them by index: `feedFrames_fragments`.
* (calls) `Fragmentation`: fragments that are those of some calls.
* (finish) Slots with an id and a name stay as they are: `normalize_complete`, so `finish_fragments`.
-/

namespace NexusStudio.Llm

open Turn JsonText Demultiplex

/-! ### Fragments -/

/-- What an item of `tool_calls` brings to the slot of its index. -/
structure CallFragment where
  index : Int
  id : Option String
  name : Option String
  arguments : Option String
  deriving DecidableEq, Repr

def CallFragment.update (slot : ToolSlot) (f : CallFragment) : ToolSlot where
  index := slot.index
  id := f.id.or slot.id
  name := f.name.or slot.name
  argumentFragments := slot.argumentFragments ++ f.arguments.toList

def slotGatherer : Gatherer Int ToolSlot CallFragment where
  key := CallFragment.index
  keyOf := ToolSlot.index
  fresh index := ⟨index, none, none, []⟩
  update := CallFragment.update
  keyOf_fresh _ := rfl
  keyOf_update _ _ := rfl

section Fragments

variable {ν : Type} (P : Python ν)

def readFragment : Value ν → Option CallFragment
  | .dict item => do
    let index ← (item.lookup "index").bind P.index
    let function ← functionOf P item
    return {
      index
      id := ((item.lookup "id").filter P.truthy).map P.text
      name := ((function.lookup "name").filter P.truthy).map P.text
      arguments := stringField function "arguments" }
  | _ => none

/-- The fragments of the items of a choice. -/
def choiceFragments (choice : List (String × Value ν)) : Option (List CallFragment) :=
  match choice.lookup "delta" with
  | some (.dict delta) => (rawToolCalls delta).bind fun items => items.mapM (readFragment P)
  | _ => none

/-- The fragments of the data of a frame. -/
def frameFragments (data : String) : Option (List CallFragment) :=
  if data = "[DONE]" then some []
  else
    match P.loads data with
    | .ok (.dict payload) =>
      match firstChoice payload with
      | .ok none => some []
      | .ok (some choice) => choiceFragments P choice
      | .error _ => none
    | _ => none

/-- `feed_sse_data` for frames, one after the other. -/
def feedFrames (asm : Assembler ν) (frames : List String) : Except StepError (Assembler ν) :=
  frames.foldlM (fun asm data => (asm.feedSseData P data).map Prod.snd) asm

variable {P}

/-- An item goes to the slot of its index. -/
theorem feedToolCall_fragment {item : Value ν} {f : CallFragment} (h : readFragment P item = some f)
    (slots : List ToolSlot) : feedToolCall P slots item = .ok (slotGatherer.feed slots f) := by
  cases item with
  | dict item =>
    obtain ⟨index, hindex, h⟩ := Option.bind_eq_some_iff.1 h
    obtain ⟨function, hfunction, h⟩ := Option.bind_eq_some_iff.1 h
    obtain rfl := Option.some.inj h
    simp only [feedToolCall, hindex, hfunction]
    rfl
  | _ => cases h

theorem foldlM_fragments {items : List (Value ν)} {fs : List CallFragment} (h : items.mapM (readFragment P) = some fs)
    (slots : List ToolSlot) : items.foldlM (feedToolCall P) slots = .ok (fs.foldl slotGatherer.feed slots) := by
  induction items generalizing fs slots with
  | nil =>
    obtain rfl := Option.some.inj h
    rfl
  | cons item items ih =>
    rw [List.mapM_cons] at h
    obtain ⟨f, hf, h⟩ := Option.bind_eq_some_iff.1 h
    obtain ⟨fs', hfs, h⟩ := Option.bind_eq_some_iff.1 h
    obtain rfl := Option.some.inj h
    rw [List.foldlM_cons, feedToolCall_fragment hf]
    exact ih hfs _

theorem feedChoice_fragments {choice : List (String × Value ν)} {fs : List CallFragment}
    (h : choiceFragments P choice = some fs) (asm : Assembler ν) :
    ∃ pieces asm', asm.feedChoice P choice = .ok (pieces, asm') ∧
      asm'.toolSlots = fs.foldl slotGatherer.feed asm.toolSlots := by
  unfold choiceFragments at h
  split at h
  case h_1 delta hdelta =>
    obtain ⟨items, hitems, hfs⟩ := Option.bind_eq_some_iff.1 h
    rw [Assembler.feedChoice, hdelta]
    simp only [hitems, foldlM_fragments hfs]
    exact ⟨_, _, rfl, rfl⟩
  case h_2 => cases h

theorem feedSseData_fragments {data : String} {fs : List CallFragment} (h : frameFragments P data = some fs)
    (asm : Assembler ν) :
    ∃ pieces asm', asm.feedSseData P data = .ok (pieces, asm') ∧
      asm'.toolSlots = fs.foldl slotGatherer.feed asm.toolSlots := by
  unfold frameFragments at h
  rw [Assembler.feedSseData]
  by_cases hdone : data = "[DONE]"
  · rw [if_pos hdone] at h ⊢
    obtain rfl := Option.some.inj h
    exact ⟨_, _, rfl, rfl⟩
  rw [if_neg hdone] at h ⊢
  cases hloads : P.loads data with
  | error msg =>
    rw [hloads] at h
    cases h
  | ok v =>
    rw [hloads] at h
    cases v with
    | dict payload =>
      simp only at h ⊢
      cases hchoice : firstChoice payload with
      | error e =>
        rw [hchoice] at h
        cases h
      | ok choice =>
        rw [hchoice] at h
        cases choice with
        | none =>
          obtain rfl := Option.some.inj h
          exact ⟨_, _, rfl, rfl⟩
        | some choice => exact feedChoice_fragments h asm
    | _ => cases h

/-- The fragments of frames, whatever else the frames have. -/
theorem feedFrames_fragments {frames : List String} {fss : List (List CallFragment)}
    (h : frames.mapM (frameFragments P) = some fss) (asm : Assembler ν) :
    ∃ asm', feedFrames P asm frames = .ok asm' ∧
      asm'.toolSlots = fss.flatten.foldl slotGatherer.feed asm.toolSlots := by
  induction frames generalizing fss asm with
  | nil =>
    obtain rfl := Option.some.inj h
    exact ⟨asm, rfl, rfl⟩
  | cons data frames ih =>
    rw [List.mapM_cons] at h
    obtain ⟨fs, hfs, h⟩ := Option.bind_eq_some_iff.1 h
    obtain ⟨fss', hfss, h⟩ := Option.bind_eq_some_iff.1 h
    obtain rfl := Option.some.inj h
    obtain ⟨pieces, asm', hdata, hslots⟩ := feedSseData_fragments hfs asm
    obtain ⟨asm'', hall, hslots'⟩ := ih hfss asm'
    refine ⟨asm'', ?_, ?_⟩
    · rw [feedFrames, List.foldlM_cons, hdata]
      exact hall
    · rw [hslots', hslots, List.flatten_cons, List.foldl_append]

/-! ### Slots -/

section Slots

variable {l : List CallFragment} {slot : ToolSlot}

theorem arguments_foldl :
    (l.foldl CallFragment.update slot).argumentFragments =
      slot.argumentFragments ++ l.filterMap CallFragment.arguments := by
  induction l generalizing slot with
  | nil => exact (List.append_nil _).symm
  | cons f l ih =>
    rw [List.foldl_cons, ih, CallFragment.update, List.append_assoc, List.filterMap_cons]
    cases f.arguments with
    | none => rfl
    | some s => rfl

/-- A field that some fragments have, all with one value. -/
theorem field_foldl (g : CallFragment → Option String) (g' : ToolSlot → Option String) {x : String}
    (hg : ∀ slot f, g' (CallFragment.update slot f) = (g f).or (g' slot)) (hall : ∀ f ∈ l, ∀ s ∈ g f, s = x)
    (hsome : g' slot = some x ∨ ∃ f ∈ l, g f = some x) : g' (l.foldl CallFragment.update slot) = some x := by
  induction l generalizing slot with
  | nil => exact hsome.resolve_right fun ⟨f, hf, _⟩ => by cases hf
  | cons f l ih =>
    rw [List.foldl_cons]
    refine ih (fun f' hf' => hall f' (List.mem_cons_of_mem _ hf')) ?_
    rw [hg]
    cases hf : g f with
    | some s =>
      rw [hall f List.mem_cons_self s hf]
      exact .inl rfl
    | none =>
      rcases hsome with hslot | ⟨f', hf', hx⟩
      · exact .inl hslot
      · rcases List.mem_cons.1 hf' with rfl | hmem
        · cases hf.symm.trans hx
        · exact .inr ⟨f', hmem, hx⟩

end Slots

/-! ### Complete slots -/

/-- A slot with an id and a name. -/
def Complete (slot : ToolSlot) : Prop := slot.hasId = true ∧ slot.hasName = true

theorem mergeSlot_complete {slot : ToolSlot} (h : Complete slot) (merged : List ToolSlot) :
    mergeSlot merged slot = slot :: merged := by
  have hargs : slot.isArgsOnly = false := by
    rw [ToolSlot.isArgsOnly, h.1, h.2]
    simp
  cases merged with
  | nil => rfl
  | cons prev merged =>
    rw [mergeSlot, hargs, Bool.false_and]
    rfl

theorem settleSlot_complete {slot : ToolSlot} (h : Complete slot) (result : List ToolSlot) :
    settleSlot result slot = .ok (slot :: result) := by
  unfold settleSlot
  simp only [h.1, h.2, Bool.not_true, Bool.false_and, Bool.and_false]
  rfl

/-- Nothing is merged where every slot has its header. -/
theorem normalize_complete {slots : List ToolSlot} (h : ∀ s ∈ slots, Complete s) :
    normalizeToolSlots slots = .ok (slots.insertionSort fun s t => s.index ≤ t.index) := by
  have hmerge : ∀ (l m : List ToolSlot), (∀ s ∈ l, Complete s) → l.foldl mergeSlot m = l.reverse ++ m := by
    intro l
    induction l with
    | nil => exact fun m _ => rfl
    | cons s l ih =>
      intro m hl
      rw [List.foldl_cons, mergeSlot_complete (hl s List.mem_cons_self),
        ih _ fun t ht => hl t (List.mem_cons_of_mem _ ht), List.reverse_cons, List.append_assoc, List.singleton_append]
  have hsettle : ∀ (l r : List ToolSlot), (∀ s ∈ l, Complete s) → l.foldlM settleSlot r = .ok (l.reverse ++ r) := by
    intro l
    induction l with
    | nil => exact fun r _ => rfl
    | cons s l ih =>
      intro r hl
      rw [List.foldlM_cons, settleSlot_complete (hl s List.mem_cons_self)]
      refine (ih _ fun t ht => hl t (List.mem_cons_of_mem _ ht)).trans ?_
      rw [List.reverse_cons, List.append_assoc, List.singleton_append]
  have hall : ∀ s ∈ slots.insertionSort fun s t => s.index ≤ t.index, Complete s :=
    fun s hs => h s ((List.mem_insertionSort _).1 hs)
  simp only [normalizeToolSlots, hmerge _ [] hall, List.append_nil, List.reverse_reverse, hsettle _ [] hall]

/-! ### Calls -/

variable (P) in
/-- A tool call with the text of its arguments. -/
structure StreamedCall where
  index : Int
  id : String
  name : String
  arguments : String
  args : List (String × Value ν)
  id_ne : id ≠ ""
  name_ne : name ≠ ""
  arguments_ne : arguments ≠ ""
  loads : P.loads arguments = .ok (.dict args)

def StreamedCall.toolCall (c : StreamedCall P) : ToolCall := ⟨c.id, c.name, c.args.map fun f => (f.1, P.dumps f.2)⟩

/-- Fragments of calls: each belongs to a call, the header of a call comes at least once and never another one, and
its arguments are cut in any way. -/
structure Fragmentation (calls : List (StreamedCall P)) (fs : List CallFragment) : Prop where
  index : ∀ f ∈ fs, f.index ∈ calls.map StreamedCall.index
  id : ∀ c ∈ calls, ∀ f ∈ fs, f.index = c.index → ∀ s ∈ f.id, s = c.id
  name : ∀ c ∈ calls, ∀ f ∈ fs, f.index = c.index → ∀ s ∈ f.name, s = c.name
  has_id : ∀ c ∈ calls, ∃ f ∈ fs, f.index = c.index ∧ f.id = some c.id
  has_name : ∀ c ∈ calls, ∃ f ∈ fs, f.index = c.index ∧ f.name = some c.name
  arguments : ∀ c ∈ calls,
    String.join ((fs.filter fun f => f.index = c.index).filterMap CallFragment.arguments) = c.arguments

variable {calls : List (StreamedCall P)} {fs : List CallFragment}

/-- The slot of a call has its id, its name and its arguments. -/
structure SlotOf (c : StreamedCall P) (slot : ToolSlot) : Prop where
  id : slot.id = some c.id
  name : slot.name = some c.name
  arguments : slot.argsText = c.arguments

theorem slotOf_own (h : Fragmentation calls fs) {c : StreamedCall P} (hc : c ∈ calls) :
    SlotOf c (slotGatherer.own fs c.index) := by
  have hmem : ∀ {f}, f ∈ fs.filter (fun f => f.index = c.index) ↔ f ∈ fs ∧ f.index = c.index := by
    intro f
    rw [List.mem_filter, decide_eq_true_eq]
  refine ⟨?_, ?_, ?_⟩
  · refine field_foldl CallFragment.id ToolSlot.id (fun _ _ => rfl) (fun f hf => ?_) (.inr ?_)
    · exact h.id c hc f (hmem.1 hf).1 (hmem.1 hf).2
    · obtain ⟨f, hf, hindex, hid⟩ := h.has_id c hc
      exact ⟨f, hmem.2 ⟨hf, hindex⟩, hid⟩
  · refine field_foldl CallFragment.name ToolSlot.name (fun _ _ => rfl) (fun f hf => ?_) (.inr ?_)
    · exact h.name c hc f (hmem.1 hf).1 (hmem.1 hf).2
    · obtain ⟨f, hf, hindex, hname⟩ := h.has_name c hc
      exact ⟨f, hmem.2 ⟨hf, hindex⟩, hname⟩
  · rw [ToolSlot.argsText, ← h.arguments c hc]
    exact congrArg String.join (arguments_foldl.trans (List.nil_append _))

theorem SlotOf.complete {c : StreamedCall P} {slot : ToolSlot} (h : SlotOf c slot) : Complete slot := by
  constructor
  · rw [ToolSlot.hasId, h.id]
    exact decide_eq_true c.id_ne
  · rw [ToolSlot.hasName, h.name]
    exact decide_eq_true c.name_ne

theorem assembleCall_slotOf {c : StreamedCall P} {slot : ToolSlot} (h : SlotOf c slot)
    (acc : List ToolCall × List InvalidToolCall) :
    assembleCall P acc slot = .ok (acc.1 ++ [c.toolCall], acc.2) := by
  obtain ⟨hid, hname⟩ := h.complete
  rw [assembleCall, hid, hname, h.arguments]
  simp only [c.arguments_ne, c.loads, h.id, h.name]
  rfl

theorem assembleCalls_slotOf {l : List (StreamedCall P)} {slots : List ToolSlot} (h : List.Forall₂ SlotOf l slots)
    (acc : List ToolCall × List InvalidToolCall) :
    slots.foldlM (assembleCall P) acc = .ok (acc.1 ++ l.map StreamedCall.toolCall, acc.2) := by
  induction h generalizing acc with
  | nil => rw [List.map_nil, List.append_nil]; rfl
  | cons hslot _ ih =>
    rw [List.foldlM_cons, assembleCall_slotOf hslot]
    refine (ih _).trans ?_
    rw [List.map_cons, List.append_assoc, List.singleton_append]

/-- The calls in the order of their indices. -/
def inIndexOrder (calls : List (StreamedCall P)) : List (StreamedCall P) :=
  calls.insertionSort fun c d => c.index ≤ d.index

/-- The slots that the fragments of some calls make are those of the calls. -/
theorem slots_fragmentation (hnodup : (calls.map StreamedCall.index).Nodup) (h : Fragmentation calls fs) :
    ((fs.foldl slotGatherer.feed []).insertionSort fun s t => s.index ≤ t.index) =
      (inIndexOrder calls).map fun c => slotGatherer.own fs c.index := by
  have hkeys : ∀ k, k ∈ calls.map StreamedCall.index ↔ k ∈ fs.map CallFragment.index := by
    intro k
    constructor
    · intro hk
      obtain ⟨c, hc, rfl⟩ := List.mem_map.1 hk
      obtain ⟨f, hf, hindex, _⟩ := h.has_id c hc
      exact List.mem_map.2 ⟨f, hf, hindex⟩
    · intro hk
      obtain ⟨f, hf, rfl⟩ := List.mem_map.1 hk
      exact h.index f hf
  have hsorted := (slotGatherer.gathered_feedAll fs).sorted hnodup hkeys
  refine hsorted.trans ?_
  rw [inIndexOrder, ← List.map_insertionSort (fun c d : StreamedCall P => c.index ≤ d.index) (· ≤ ·), List.map_map]
  · rfl
  · exact fun _ _ _ _ => Iff.rfl

/-- The calls come back from any frames that have their fragments. -/
theorem finish_fragments (thinking : ThinkingConfig) (hnodup : (calls.map StreamedCall.index).Nodup)
    {frames : List String} {fss : List (List CallFragment)} (hframes : frames.mapM (frameFragments P) = some fss)
    (h : Fragmentation calls fss.flatten) :
    ∃ asm step, feedFrames P (Assembler.init thinking) frames = .ok asm ∧ asm.finish P = .ok step ∧
      step.message.toolCalls = (inIndexOrder calls).map StreamedCall.toolCall ∧ step.invalidToolCalls = [] := by
  obtain ⟨asm, hasm, hfed⟩ := feedFrames_fragments hframes (Assembler.init thinking)
  have hslots : asm.toolSlots = fss.flatten.foldl slotGatherer.feed [] := hfed
  have hsort := slots_fragmentation hnodup h
  have hmem : ∀ c ∈ inIndexOrder calls, SlotOf c (slotGatherer.own fss.flatten c.index) :=
    fun c hc => slotOf_own h ((List.mem_insertionSort _).1 hc)
  have hcomplete : ∀ s ∈ asm.toolSlots, Complete s := by
    intro s hs
    have hs' := (List.mem_insertionSort fun s t : ToolSlot => s.index ≤ t.index).2 hs
    rw [hslots, hsort] at hs'
    obtain ⟨c, hc, rfl⟩ := List.mem_map.1 hs'
    exact (hmem c hc).complete
  have hforall : List.Forall₂ SlotOf (inIndexOrder calls)
      ((inIndexOrder calls).map fun c => slotGatherer.own fss.flatten c.index) := by
    rw [List.forall₂_map_right_iff, List.forall₂_same]
    exact hmem
  have hcalls : asm.assembleCalls P = .ok ((inIndexOrder calls).map StreamedCall.toolCall, []) := by
    rw [Assembler.assembleCalls, normalize_complete hcomplete, hslots]
    simp only
    rw [hsort]
    exact assembleCalls_slotOf hforall ([], [])
  have hfinish : asm.finish P = .ok
      { message := ⟨String.ofList (laneText .answer (asm.tokenPieces ++ asm.heldPiece)),
          (inIndexOrder calls).map StreamedCall.toolCall⟩
        invalidToolCalls := []
        tokenPieces := asm.tokenPieces ++ asm.heldPiece
        finishReason := asm.finishReason } := by
    rw [Assembler.finish, hcalls]
  exact ⟨asm, _, hasm, hfinish, rfl, rfl⟩

end Fragments

/-! ### A stream with two calls -/

/-- `json` on texts whose numbers are integers. -/
def integerPython : Python Int where
  loads s :=
    match loads integersReader s.toList with
    | some v => .ok v
    | none => .error "Expecting value"
  dumps v := String.ofList (write integers [' '] v)
  str v := String.ofList (write integers [' '] v)
  toInt := some
  isZero n := n = 0

theorem integerPython_loads {v : Value Int} (hv : v.Keyed) :
    integerPython.loads (String.ofList (write integers [' '] v)) = .ok v := by
  have hread : loads integersReader (write integers [' '] v) = some v := loads_write integersReader hv
  simp only [integerPython, String.toList_ofList, hread]

/-- A call with the text of its arguments as `dumps` writes it. -/
def callOf (index : Int) (id name : String) (args : List (String × Value Int)) (hid : id ≠ "") (hname : name ≠ "")
    (hargs : (Value.dict args).Keyed) : StreamedCall integerPython where
  index := index
  id := id
  name := name
  arguments := integerPython.dumps (.dict args)
  args := args
  id_ne := hid
  name_ne := hname
  arguments_ne h := by
    obtain ⟨d, l, hl, _⟩ := write_first integersReader (Value.dict args)
    have hnil : write integers [' '] (Value.dict args) = [] := String.ofList_eq_empty_iff.1 h
    exact List.cons_ne_nil d l (hl.symm.trans hnil)
  loads := integerPython_loads hargs

/-- An item with a header, and one with arguments alone. -/
def headerItem (index : Int) (id name : String) : Value Int :=
  .dict [("index", .number index), ("id", .string id), ("type", .string "function"),
    ("function", .dict [("name", .string name), ("arguments", .string "")])]

def argumentsItem (index : Int) (arguments : String) : Value Int :=
  .dict [("index", .number index), ("function", .dict [("arguments", .string arguments)])]

def toolFrame (items : List (Value Int)) : String :=
  integerPython.dumps (.dict [("choices", .array [.dict [("delta", .dict [("tool_calls", .array items)])]])])

theorem keyed_headerItem (index : Int) (id name : String) : (headerItem index id name).Keyed :=
  ⟨show ["index", "id", "type", "function"].Nodup by decide, trivial, trivial, trivial,
    ⟨show ["name", "arguments"].Nodup by decide, trivial, trivial, trivial⟩, trivial⟩

theorem keyed_argumentsItem (index : Int) (arguments : String) : (argumentsItem index arguments).Keyed :=
  ⟨show ["index", "function"].Nodup by decide, trivial, ⟨List.nodup_singleton _, trivial, trivial⟩, trivial⟩

/-- A frame with a delta. -/
def deltaFrame (delta : List (String × Value Int)) : String :=
  integerPython.dumps (.dict [("choices", .array [.dict [("delta", .dict delta)]])])

theorem deltaFrame_ne_done (delta : List (String × Value Int)) : deltaFrame delta ≠ "[DONE]" := by
  intro he
  have hlist := congrArg String.toList he
  rw [deltaFrame, integerPython, String.toList_ofList] at hlist
  exact absurd (List.cons.inj hlist).1 (by decide)

theorem loads_deltaFrame {delta : List (String × Value Int)} (h : (Value.dict delta).Keyed) :
    integerPython.loads (deltaFrame delta) =
      .ok (.dict [("choices", .array [.dict [("delta", .dict delta)]])]) := by
  have hone : ∀ (k : String) (v : Value Int), v.Keyed → (Value.dict [(k, v)]).Keyed :=
    fun k v hv => ⟨List.nodup_singleton k, hv, trivial⟩
  exact integerPython_loads (hone "choices" (.array [_]) ⟨hone "delta" _ h, trivial⟩)

theorem toolFrame_ne_done (items : List (Value Int)) : toolFrame items ≠ "[DONE]" := deltaFrame_ne_done _

theorem loads_toolFrame {items : List (Value Int)} (h : KeyedItems items) :
    integerPython.loads (toolFrame items) =
      .ok (.dict [("choices", .array [.dict [("delta", .dict [("tool_calls", .array items)])]])]) := by
  have hdelta : (Value.dict [("tool_calls", .array items)]).Keyed := ⟨List.nodup_singleton _, h, trivial⟩
  exact loads_deltaFrame hdelta

/-- A frame of tool calls is read as its items. -/
theorem frameFragments_toolFrame {items : List (Value Int)} (h : KeyedItems items) :
    frameFragments integerPython (toolFrame items) = items.mapM (readFragment integerPython) := by
  rw [frameFragments, if_neg (toolFrame_ne_done items), loads_toolFrame h]
  rfl

def look : StreamedCall integerPython := callOf 0 "a" "look" [] (by decide) (by decide) ⟨List.nodup_nil, trivial⟩

def move : StreamedCall integerPython :=
  callOf 1 "b" "move" [("x", .number 12)] (by decide) (by decide) ⟨List.nodup_singleton _, trivial, trivial⟩

/-- The second call starts first, and its arguments come between those of the other one. -/
def twoCalls : List String :=
  [toolFrame [headerItem 1 "b" "move", headerItem 0 "a" "look"], toolFrame [argumentsItem 1 "\x7b\"x\": 1"],
    toolFrame [argumentsItem 0 "\x7b", argumentsItem 1 "2"], toolFrame [argumentsItem 0 "\x7d", argumentsItem 1 "\x7d"]]

def twoFragments : List (List CallFragment) :=
  [[⟨1, some "b", some "move", none⟩, ⟨0, some "a", some "look", none⟩], [⟨1, none, none, some "\x7b\"x\": 1"⟩],
    [⟨0, none, none, some "\x7b"⟩, ⟨1, none, none, some "2"⟩],
    [⟨0, none, none, some "\x7d"⟩, ⟨1, none, none, some "\x7d"⟩]]

theorem fragmentation_two : Fragmentation [move, look] twoFragments.flatten where
  index := by decide
  id := by decide
  name := by decide
  has_id := by decide
  has_name := by decide
  arguments := by decide

theorem finish_two_calls :
    ∃ asm step, feedFrames integerPython (Assembler.init ⟨.CONTENT_TAGS, []⟩) twoCalls = .ok asm ∧
      asm.finish integerPython = .ok step ∧ step.message.toolCalls = [look.toolCall, move.toolCall] ∧
        step.invalidToolCalls = [] := by
  have hnodup : ([move, look].map StreamedCall.index).Nodup := by decide
  have hframes : twoCalls.mapM (frameFragments integerPython) = some twoFragments := by
    simp only [twoCalls, List.mapM_cons, List.mapM_nil]
    rw [frameFragments_toolFrame, frameFragments_toolFrame, frameFragments_toolFrame, frameFragments_toolFrame]
    · rfl
    · exact ⟨keyed_argumentsItem _ _, keyed_argumentsItem _ _, trivial⟩
    · exact ⟨keyed_argumentsItem _ _, keyed_argumentsItem _ _, trivial⟩
    · exact ⟨keyed_argumentsItem _ _, trivial⟩
    · exact ⟨keyed_headerItem _ _ _, keyed_headerItem _ _ _, trivial⟩
  exact finish_fragments ⟨.CONTENT_TAGS, []⟩ hnodup hframes fragmentation_two

end NexusStudio.Llm
