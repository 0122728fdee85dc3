import Mathlib
import NexusStudio.Llm.CallFragments
import NexusStudio.Llm.TextFragments

/-!
# The reasoning text of a stream

What the think lane of a stream has of the reasoning that its deltas carry, in their reasoning fields and inside of tags.

* (held back) Inside of a tag, what the parser holds back is a proper start of the close tag (`waits_push`).
* (modes) Without thinking there is no think text, with reasoning fields it is that of the fields.
* (tags) With tags, the text inside of tags comes after the fields of its delta, apart from a start of the close tag that
  is held back (`settles_parseDeltas`).
-/

namespace NexusStudio.Llm

open Turn JsonText Delimiters

/-! ### What is held back -/

section Held

variable {pairs : List ThinkTagPair} {text : Text} {opens : List Text}

theorem holdback_prefix (n : Nat) : (holdback text opens n).2 = [] ∨ ∃ tag ∈ opens, (holdback text opens n).2 <+: tag := by
  induction n with
  | zero => exact .inl rfl
  | succ n ih =>
    rw [holdback]
    split
    case isTrue h =>
      obtain ⟨tag, htag, hpre⟩ := List.any_eq_true.1 h
      exact .inr ⟨tag, htag, List.isPrefixOf_iff_prefix.1 hpre⟩
    case isFalse => exact ih

/-- What is held back is a start of one of the tags. -/
theorem holdbackPartialTag_prefix :
    (holdbackPartialTag text opens).2 = [] ∨ ∃ tag ∈ opens, (holdbackPartialTag text opens).2 <+: tag := by
  unfold holdbackPartialTag
  dsimp only
  split
  · exact .inl rfl
  · exact holdback_prefix _

/-- Inside of a tag the close tag of one of the pairs is waited for, and a start of it is held back. -/
def Waits (pairs : List ThinkTagPair) (state : ThinkTagStreamState) : Prop :=
  state.thinkOpen = true → state.pending <+: state.activeClose ∧ state.activeClose ∈ pairs.map ThinkTagPair.closeTag

theorem waits_closed {state : ThinkTagStreamState} (h : ¬ state.thinkOpen = true) : Waits pairs state :=
  fun hopen => absurd hopen h

theorem waits_loop (n : Nat) {state : ThinkTagStreamState} (h : Waits pairs state) (hpending : state.pending = [])
    (remain : Text) : Waits pairs (loop pairs n state remain).2 := by
  induction n generalizing state remain with
  | zero => exact h
  | succ n ih =>
    rw [loop]
    split
    · exact h
    split
    case isTrue hopen =>
      split
      · intro _
        refine ⟨?_, (h hopen).2⟩
        have hheld : (holdbackPartialTag remain [state.activeClose]).2 = [] ∨ _ := holdbackPartialTag_prefix
        rcases hheld with hnil | ⟨tag, htag, hpre⟩
        · dsimp only
          rw [hnil]
          exact List.nil_prefix
        · exact List.mem_singleton.1 htag ▸ hpre
      · have hclosed : Waits pairs { state with thinkOpen := false, activeClose := [] } :=
          waits_closed Bool.false_ne_true
        exact ih hclosed hpending _
    case isFalse hclosed =>
      split
      · exact waits_closed hclosed
      · next index pair hfind =>
        have hopen : Waits pairs { state with thinkOpen := true, activeClose := pair.closeTag } :=
          fun _ => ⟨hpending ▸ List.nil_prefix, List.mem_map_of_mem (mem_of_findEarliestOpen hfind)⟩
        exact ih hopen hpending _

theorem waits_push {state : ThinkTagStreamState} (h : Waits pairs state) (fragment : Text) :
    Waits pairs (pushTagAwareText fragment state pairs).2 := by
  have hstart : Waits pairs { state with pending := [] } := fun hopen => ⟨List.nil_prefix, (h hopen).2⟩
  exact waits_loop _ hstart rfl _

theorem waits_init : Waits pairs .init := waits_closed Bool.false_ne_true

/-- The think text that is held back. -/
def heldThink (state : ThinkTagStreamState) : Text := laneText .think (flush state)

theorem heldThink_eq (state : ThinkTagStreamState) :
    heldThink state = if state.thinkOpen then state.pending else [] := by
  unfold heldThink flush
  split
  · exact laneText_pieceOf _ _
  · unfold pieceOf
    split
    · rfl
    · rfl

/-- A start of a tag that is not the whole tag. -/
def ProperStart (tag text : Text) : Prop := text <+: tag ∧ text ≠ tag

/-- The think text that is held back is a proper start of the close tag. -/
theorem properStart_heldThink {m : Option Text} {text : Text} {pieces : List TokenPiece} {state : ThinkTagStreamState}
    (h : Pushed defaultTagPairs m text (pieces, state)) (hwaits : Waits defaultTagPairs state) :
    ProperStart thinkTagPair.closeTag (heldThink state) := by
  rw [heldThink_eq]
  split
  case isTrue hopen =>
    obtain ⟨hpre, hmem⟩ := hwaits hopen
    have hclose : state.activeClose = thinkTagPair.closeTag := by
      have hall : ∀ tag ∈ defaultTagPairs.map ThinkTagPair.closeTag, tag = thinkTagPair.closeTag := by decide
      exact hall _ hmem
    rw [hclose] at hpre
    refine ⟨hpre, fun heq => ?_⟩
    have hmode : state.mode = some thinkTagPair.closeTag := by
      rw [ThinkTagStreamState.mode, if_pos hopen, hclose]
    have hquiet := h.quiet 0
    dsimp only at hquiet
    rw [hmode, List.drop_zero, found_close] at hquiet
    exact hquiet (heq ▸ List.prefix_rfl)
  case isFalse => exact ⟨List.nil_prefix, by decide⟩

end Held

/-! ### The modes -/

section Modes

variable {ν : Type}

/-- The pieces of deltas, one after the other. -/
def parseDeltas (thinking : ThinkingConfig) :
    ThinkTagStreamState → List (List (String × Value ν)) → List TokenPiece × ThinkTagStreamState
  | state, [] => ([], state)
  | state, delta :: deltas =>
    let (pieces, state') := parseDeltaTokens thinking state delta
    let (pieces', state'') := parseDeltas thinking state' deltas
    (pieces ++ pieces', state'')

/-- The text of the reasoning fields of a delta. -/
def fieldsText (thinking : ThinkingConfig) (delta : List (String × Value ν)) : Text :=
  (thinking.reasoningFields.filterMap (stringField delta)).flatMap String.toList

def contentText (delta : List (String × Value ν)) : Text := ((stringField delta "content").map String.toList).getD []

/-- The text inside of tags. -/
def inTags (text : Text) : Text :=
  ((channels defaultTagPairs none text).filter fun d => d.1 = .think).map Prod.snd

theorem laneText_reasoningPieces (thinking : ThinkingConfig) (delta : List (String × Value ν)) :
    laneText .think (reasoningPieces thinking delta) = fieldsText thinking delta := by
  unfold reasoningPieces fieldsText
  induction thinking.reasoningFields with
  | nil => rfl
  | cons field fields ih =>
    rw [List.filterMap_cons, List.filterMap_cons]
    cases stringField delta field with
    | none => exact ih
    | some s =>
      rw [Option.map_some, List.flatMap_cons, ← ih]
      rfl

theorem laneText_contentPieces (delta : List (String × Value ν)) : laneText .think (contentPieces delta) = [] := by
  unfold contentPieces
  cases stringField delta "content" with
  | none => rfl
  | some s => rfl

/-- Without thinking nothing is a thought. -/
theorem parseDeltas_none {thinking : ThinkingConfig} (hmode : thinking.mode = .NONE) (state : ThinkTagStreamState)
    (deltas : List (List (String × Value ν))) :
    laneText .think (parseDeltas thinking state deltas).1 = [] ∧ (parseDeltas thinking state deltas).2 = state := by
  induction deltas with
  | nil => exact ⟨rfl, rfl⟩
  | cons delta deltas ih =>
    have hdelta : parseDeltaTokens thinking state delta = (contentPieces delta, state) := by
      rw [parseDeltaTokens, hmode]
    rw [parseDeltas, hdelta]
    exact ⟨by rw [laneText_append, laneText_contentPieces, ih.1]; rfl, ih.2⟩

/-- With reasoning fields the thoughts are those of the fields, whether there is content or not. -/
theorem parseDeltas_fields {thinking : ThinkingConfig} (hmode : thinking.mode = .REASONING_FIELD)
    (state : ThinkTagStreamState) (deltas : List (List (String × Value ν))) :
    laneText .think (parseDeltas thinking state deltas).1 = deltas.flatMap (fieldsText thinking) ∧
      (parseDeltas thinking state deltas).2 = state := by
  induction deltas with
  | nil => exact ⟨rfl, rfl⟩
  | cons delta deltas ih =>
    have hdelta : parseDeltaTokens thinking state delta =
        (reasoningPieces thinking delta ++ contentPieces delta, state) := by
      rw [parseDeltaTokens, hmode]
      dsimp only
      split
      case isTrue hnil =>
        -- no piece, so no content
        have hcontent : stringField delta "content" = none := by
          have hempty := (List.append_eq_nil_iff.1 hnil).2
          cases hfield : stringField delta "content" with
          | none => rfl
          | some s =>
            rw [contentPieces, hfield] at hempty
            cases hempty
        rw [hnil, taggedPieces, hcontent]
      case isFalse => rfl
    rw [parseDeltas, hdelta]
    refine ⟨?_, ih.2⟩
    rw [laneText_append, laneText_append, laneText_contentPieces, laneText_reasoningPieces, ih.1, List.append_nil]
    rfl

/-- A delta of the mode with tags: its fields, and the pieces of its content. -/
theorem parseDeltaTokens_tags {thinking : ThinkingConfig} (hmode : thinking.mode = .CONTENT_TAGS)
    {delta : List (String × Value ν)} (hcontent : fieldsText thinking delta ≠ [] → contentText delta ≠ [])
    {text : Text} {old : List TokenPiece} {state : ThinkTagStreamState}
    (h : Pushed defaultTagPairs none text (old, state)) (hwaits : Waits defaultTagPairs state) :
    ∃ pieces, laneText .think (parseDeltaTokens thinking state delta).1 =
        fieldsText thinking delta ++ laneText .think pieces ∧
      Pushed defaultTagPairs none (text ++ contentText delta)
        (old ++ pieces, (parseDeltaTokens thinking state delta).2) ∧
      Waits defaultTagPairs (parseDeltaTokens thinking state delta).2 := by
  rw [parseDeltaTokens, hmode]
  dsimp only
  unfold taggedPieces
  unfold contentText at hcontent ⊢
  cases hfield : stringField delta "content" with
  | none =>
    rw [hfield] at hcontent
    have hnil : fieldsText thinking delta = [] := by
      by_contra hne
      exact hcontent hne rfl
    refine ⟨[], by rw [hnil]; rfl, ?_, hwaits⟩
    rw [Option.map_none, Option.getD_none, List.append_nil, List.append_nil]
    exact h
  | some content =>
    refine ⟨(pushTagAwareText content.toList state defaultTagPairs).1, ?_, ?_, waits_push hwaits _⟩
    · dsimp only
      rw [laneText_append, laneText_reasoningPieces]
    · exact h.trans (pushed_push separate_default h.ok content.toList)

/-! ### Text inside of tags -/

theorem inTags_of_pushed {text : Text} {old : List TokenPiece} {state : ThinkTagStreamState}
    (h : Pushed defaultTagPairs none text (old, state)) : laneText .think old ++ heldThink state = inTags text := by
  rw [heldThink, ← laneText_append, laneText_marked, h.marked_eq]
  rfl

/-- The fields of each delta with the text inside of tags that is settled after them. -/
def interleaved (thinking : ThinkingConfig) (deltas : List (List (String × Value ν))) (settled : List Text) : Text :=
  (List.zipWith (fun delta text => fieldsText thinking delta ++ text) deltas settled).flatten

/-- The thoughts of deltas in the mode with tags: after the fields of a delta comes the text inside of tags as far as it is
settled, so that at most a proper start of the close tag comes later, and what is held at the end comes last. -/
structure Settles (thinking : ThinkingConfig) (deltas : List (List (String × Value ν))) (think : Text)
    (settled : List Text) (held : Text) : Prop where
  length : settled.length = deltas.length
  text : think = interleaved thinking deltas settled ++ held
  whole : settled.flatten ++ held = inTags (deltas.flatMap contentText)
  late : ∀ k ≤ deltas.length, ∃ late, ProperStart thinkTagPair.closeTag late ∧
    (settled.take k).flatten ++ late = inTags ((deltas.take k).flatMap contentText)

/-- By induction on the deltas, after pieces that have taken a text. -/
theorem settles_parseDeltas {thinking : ThinkingConfig} (hmode : thinking.mode = .CONTENT_TAGS)
    {deltas : List (List (String × Value ν))}
    (hcontent : ∀ delta ∈ deltas, fieldsText thinking delta ≠ [] → contentText delta ≠ []) {text : Text}
    {old : List TokenPiece} {state : ThinkTagStreamState} (h : Pushed defaultTagPairs none text (old, state))
    (hwaits : Waits defaultTagPairs state) :
    ∃ settled : List Text, settled.length = deltas.length ∧
      laneText .think (parseDeltas thinking state deltas).1 = interleaved thinking deltas settled ∧
      laneText .think old ++ settled.flatten ++ heldThink (parseDeltas thinking state deltas).2 =
        inTags (text ++ deltas.flatMap contentText) ∧
      ∀ k ≤ deltas.length, ∃ late, ProperStart thinkTagPair.closeTag late ∧
        laneText .think old ++ (settled.take k).flatten ++ late = inTags (text ++ (deltas.take k).flatMap contentText) := by
  induction deltas generalizing text old state with
  | nil =>
    refine ⟨[], rfl, rfl, ?_, fun k _ => ?_⟩
    · rw [List.flatMap_nil, List.flatten_nil, List.append_nil, List.append_nil]
      exact inTags_of_pushed h
    · rw [List.take_nil, List.take_nil, List.flatten_nil, List.flatMap_nil, List.append_nil, List.append_nil]
      exact ⟨_, properStart_heldThink h hwaits, inTags_of_pushed h⟩
  | cons delta deltas ih =>
    obtain ⟨hfirst, hrest⟩ := List.forall_mem_cons.1 hcontent
    obtain ⟨pieces, hpieces, h', hwaits'⟩ := parseDeltaTokens_tags hmode hfirst h hwaits
    obtain ⟨settled, hlen, hthink, hwhole, hlate⟩ := ih hrest h' hwaits'
    rw [laneText_append] at hwhole hlate
    refine ⟨laneText .think pieces :: settled, congrArg (· + 1) hlen, ?_, ?_, fun k hk => ?_⟩
    · have hcons : interleaved thinking (delta :: deltas) (laneText .think pieces :: settled) =
          fieldsText thinking delta ++ laneText .think pieces ++ interleaved thinking deltas settled := rfl
      rw [hcons, ← hpieces, ← hthink, ← laneText_append]
      rfl
    · rw [List.flatten_cons, List.flatMap_cons, ← List.append_assoc, ← List.append_assoc text]
      exact hwhole
    · cases k with
      | zero =>
        rw [List.take_zero, List.take_zero, List.flatten_nil, List.flatMap_nil, List.append_nil, List.append_nil]
        exact ⟨_, properStart_heldThink h hwaits, inTags_of_pushed h⟩
      | succ k =>
        rw [List.take_succ_cons, List.take_succ_cons, List.flatten_cons, List.flatMap_cons, ← List.append_assoc,
          ← List.append_assoc text]
        exact hlate k (Nat.le_of_succ_le_succ hk)

/-- What the think lane of a stream has, mode by mode. -/
def ReasoningLaw (thinking : ThinkingConfig) (deltas : List (List (String × Value ν))) (think : Text) : Prop :=
  match thinking.mode with
  | .NONE => think = []
  | .REASONING_FIELD => think = deltas.flatMap (fieldsText thinking)
  | .CONTENT_TAGS =>
    (∀ delta ∈ deltas, fieldsText thinking delta ≠ [] → contentText delta ≠ []) →
      ∃ settled held, Settles thinking deltas think settled held

theorem reasoningLaw_parseDeltas (thinking : ThinkingConfig) (deltas : List (List (String × Value ν))) :
    ReasoningLaw thinking deltas
      (laneText .think (parseDeltas thinking .init deltas).1 ++ heldThink (parseDeltas thinking .init deltas).2) := by
  unfold ReasoningLaw
  cases hmode : thinking.mode with
  | NONE =>
    obtain ⟨hthink, hstate⟩ := parseDeltas_none hmode .init deltas
    dsimp only
    rw [hthink, hstate]
    rfl
  | REASONING_FIELD =>
    obtain ⟨hthink, hstate⟩ := parseDeltas_fields hmode .init deltas
    dsimp only
    rw [hthink, hstate]
    exact List.append_nil _
  | CONTENT_TAGS =>
    intro hcontent
    obtain ⟨settled, hlen, hthink, hwhole, hlate⟩ :=
      settles_parseDeltas hmode hcontent (pushed_init separate_default tagsOk_init) waits_init
    exact ⟨settled, _, hlen, congrArg (· ++ _) hthink, hwhole, hlate⟩

end Modes

/-! ### Streams -/

section Streams

variable {ν : Type} {P : Python ν}

variable (P) in
/-- The delta of a frame. -/
def frameDelta (data : String) : Option (List (String × Value ν)) :=
  if data = "[DONE]" then none
  else
    match P.loads data with
    | .ok (.dict payload) =>
      match firstChoice payload with
      | .ok (some choice) =>
        match choice.lookup "delta" with
        | some (.dict delta) => some delta
        | _ => none
      | _ => none
    | _ => none

/-- A frame gives the pieces of its delta, if it has one. -/
theorem feedSseData_delta {asm asm' : Assembler ν} {data : String} {pieces : List TokenPiece}
    (h : asm.feedSseData P data = .ok (pieces, asm')) :
    (frameDelta P data = none ∧ asm' = asm) ∨
      ∃ delta, frameDelta P data = some delta ∧ asm'.thinking = asm.thinking ∧
        asm'.tokenPieces = asm.tokenPieces ++ (parseDeltaTokens asm.thinking asm.tagState delta).1 ∧
        asm'.tagState = (parseDeltaTokens asm.thinking asm.tagState delta).2 := by
  unfold Assembler.feedSseData at h
  by_cases hdone : data = "[DONE]"
  · rw [if_pos hdone] at h
    cases h
    exact .inl ⟨if_pos hdone, rfl⟩
  rw [if_neg hdone] at h
  split at h
  · cases h
  · next payload hloads =>
    split at h
    · cases h
    · next hchoice =>
      have hframe : frameDelta P data = none := by simp only [frameDelta, if_neg hdone, hloads, hchoice]
      cases h
      exact .inl ⟨hframe, rfl⟩
    · next choice hchoice =>
      unfold Assembler.feedChoice at h
      split at h
      · next delta hdelta =>
        have hframe : frameDelta P data = some delta := by
          simp only [frameDelta, if_neg hdone, hloads, hchoice, hdelta]
        dsimp only at h
        split at h
        · cases h
        · split at h
          · cases h
          · cases h
            exact .inr ⟨delta, hframe, rfl, rfl, rfl⟩
      · cases h
  · cases h

theorem feedFrames_deltas {frames : List String} {asm asm' : Assembler ν} (h : feedFrames P asm frames = .ok asm') :
    asm'.tokenPieces =
        asm.tokenPieces ++ (parseDeltas asm.thinking asm.tagState (frames.filterMap (frameDelta P))).1 ∧
      asm'.tagState = (parseDeltas asm.thinking asm.tagState (frames.filterMap (frameDelta P))).2 := by
  induction frames generalizing asm with
  | nil =>
    cases h
    exact ⟨(List.append_nil _).symm, rfl⟩
  | cons data frames ih =>
    rw [feedFrames, List.foldlM_cons] at h
    obtain ⟨asm₁, hmap, h⟩ := bind_eq_ok.1 h
    cases hdata : asm.feedSseData P data with
    | error e =>
      rw [hdata] at hmap
      cases hmap
    | ok result =>
      rw [hdata] at hmap
      cases hmap
      obtain ⟨hpieces, hstate⟩ := ih h
      rcases feedSseData_delta hdata with ⟨hnone, heq⟩ | ⟨delta, hsome, hthinking, hfirst, hnext⟩
      · rw [List.filterMap_cons_none hnone, ← heq]
        exact ⟨hpieces, hstate⟩
      · rw [List.filterMap_cons_some hsome, parseDeltas, ← hthinking]
        rw [← hthinking] at hfirst hnext
        rw [hfirst, hnext, List.append_assoc] at hpieces
        rw [hnext] at hstate
        exact ⟨hpieces, hstate⟩

/-- The think text of an assembler, with what `finish` adds. -/
def Assembler.thinkText (asm : Assembler ν) : Text := laneText .think (asm.tokenPieces ++ asm.heldPiece)

theorem finish_thinkText {asm : Assembler ν} {step : AssembledStep ν} (h : asm.finish P = .ok step) :
    laneText .think step.tokenPieces = asm.thinkText := by
  unfold Assembler.finish at h
  split at h
  · cases h
  · cases h
    rfl

/-- **The reasoning text of a stream.** Whatever the deltas and the mode, the think lane has the text of the mode. -/
theorem thinkText_law {thinking : ThinkingConfig} {frames : List String} {asm : Assembler ν}
    (h : feedFrames P (Assembler.init thinking) frames = .ok asm) :
    ReasoningLaw thinking (frames.filterMap (frameDelta P)) asm.thinkText := by
  obtain ⟨hpieces, hstate⟩ := feedFrames_deltas h
  have hlaw := reasoningLaw_parseDeltas thinking (frames.filterMap (frameDelta P))
  rw [heldThink, ← laneText_append] at hlaw
  rw [Assembler.thinkText, heldPiece_eq, hpieces, hstate]
  exact hlaw

/-- A stream of one frame. -/
theorem feedFrames_deltaFrame {delta : List (String × Value Int)} (h : (Value.dict delta).Keyed) (asm : Assembler Int) :
    feedFrames integerPython asm [deltaFrame delta] =
      ((asm.feedChoice integerPython [("delta", .dict delta)]).map Prod.snd).bind .ok := by
  rw [feedFrames, List.foldlM_cons, Assembler.feedSseData, if_neg (deltaFrame_ne_done delta), loads_deltaFrame h]
  rfl

/-- A field and a content with a tag that stays open. -/
theorem thinkText_frame :
    ∃ asm, feedFrames integerPython (Assembler.init ⟨.CONTENT_TAGS, ["reasoning"]⟩)
        [deltaFrame [("reasoning", .string "a"), ("content", .string "<think>b</")]] = .ok asm ∧
      ReasoningLaw ⟨.CONTENT_TAGS, ["reasoning"]⟩
        ([deltaFrame [("reasoning", .string "a"), ("content", .string "<think>b</")]].filterMap (frameDelta integerPython))
        asm.thinkText := by
  have hkeyed : (Value.dict [("reasoning", (.string "a" : Value Int)), ("content", .string "<think>b</")]).Keyed :=
    ⟨show ["reasoning", "content"].Nodup by decide, trivial, trivial, trivial⟩
  have hrun := feedFrames_deltaFrame hkeyed (Assembler.init ⟨.CONTENT_TAGS, ["reasoning"]⟩)
  exact ⟨_, hrun, thinkText_law hrun⟩

/-- Without thinking a reasoning field is dropped, and with reasoning fields what is inside of tags is part of the
answer. -/
theorem thinkText_dropped :
    (∃ asm, feedFrames integerPython (Assembler.init ⟨.NONE, ["reasoning"]⟩)
        [deltaFrame [("reasoning", .string "a")]] = .ok asm ∧
      asm.thinkText ≠ fieldsText ⟨.NONE, ["reasoning"]⟩ [("reasoning", (.string "a" : Value Int))]) ∧
    ∃ asm, feedFrames integerPython (Assembler.init ⟨.REASONING_FIELD, ["reasoning"]⟩)
        [deltaFrame [("content", .string "<think>a</think>")]] = .ok asm ∧
      asm.thinkText ≠ inTags (contentText [("content", (.string "<think>a</think>" : Value Int))]) := by
  have hone : ∀ k s, (Value.dict [(k, (.string s : Value Int))]).Keyed :=
    fun k s => ⟨List.nodup_singleton k, trivial, trivial⟩
  constructor
  · exact ⟨_, feedFrames_deltaFrame (hone _ _) _, by decide⟩
  · exact ⟨_, feedFrames_deltaFrame (hone _ _) _, by decide⟩

end Streams

end NexusStudio.Llm
