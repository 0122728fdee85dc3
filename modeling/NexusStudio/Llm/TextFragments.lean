import Mathlib
import NexusStudio.Lib.Delimiters
import NexusStudio.Llm.Assembler

/-!
# The text of a stream in fragments

However a text is cut into fragments, its characters come out in the lanes that the tags of the whole text give them.

* (whole text) `channels`: the characters of a text without its tags, each with its lane.
* (search) What `find`, `findEarliestOpen` and `holdbackPartialTag` find.
* (fragments) One push takes the pieces and what is left of the text on (`push_channels`), so do all of them
  (`pushAll_channels`).
-/

namespace NexusStudio.Llm

open Turn Delimiters

/-! ### The whole text -/

/-- The tags of a mode: the open tags outside of a thought, the close tag that is waited for inside of one. -/
def tagTable (pairs : List ThinkTagPair) : Table Char (Option Text)
  | none => pairs.map fun p => (p.openTag, some p.closeTag)
  | some close => [(close, none)]

def laneOf : Option Text → Channel
  | none => .answer
  | some _ => .think

def ThinkTagStreamState.mode (state : ThinkTagStreamState) : Option Text :=
  if state.thinkOpen then some state.activeClose else none

/-- The characters of a text without its tags. -/
def channels (pairs : List ThinkTagPair) (m : Option Text) (text : Text) : List (Channel × Char) :=
  (divide (tagTable pairs) m 0 text).map fun d => (laneOf d.1, d.2)

/-- The characters of pieces. -/
def marked (pieces : List TokenPiece) : List (Channel × Char) :=
  pieces.flatMap fun p => p.text.map fun c => (p.lane, c)

/-! ### Search -/

theorem find_eq_some {tag text : Text} {i : Nat} (h : find tag text = some i) :
    tag <+: text.drop i ∧ ∀ j < i, ¬ tag <+: text.drop j := by
  induction text generalizing i with
  | nil =>
    rw [find] at h
    split at h
    case isTrue hnil =>
      cases h
      subst hnil
      exact ⟨List.nil_prefix, nofun⟩
    case isFalse => cases h
  | cons c text ih =>
    rw [find] at h
    split at h
    case isTrue hpre =>
      cases h
      exact ⟨List.isPrefixOf_iff_prefix.1 hpre, nofun⟩
    case isFalse hpre =>
      obtain ⟨i', hi', rfl⟩ := Option.map_eq_some_iff.1 h
      obtain ⟨hat, hbefore⟩ := ih hi'
      refine ⟨hat, fun j hj => ?_⟩
      cases j with
      | zero => exact fun h => hpre (List.isPrefixOf_iff_prefix.2 h)
      | succ j => exact hbefore j (Nat.lt_of_succ_lt_succ hj)

theorem find_eq_none {tag text : Text} (h : find tag text = none) (j : Nat) : ¬ tag <+: text.drop j := by
  induction text generalizing j with
  | nil =>
    rw [find] at h
    split at h
    case isTrue => cases h
    case isFalse hne =>
      rw [List.drop_nil]
      exact fun hpre => hne (List.prefix_nil.1 hpre)
  | cons c text ih =>
    rw [find] at h
    split at h
    case isTrue => cases h
    case isFalse hpre =>
      cases j with
      | zero => exact fun h => hpre (List.isPrefixOf_iff_prefix.2 h)
      | succ j => exact ih (Option.map_eq_none_iff.1 h) j

/-- What was found among some pairs: the first of them at the first place that has one. -/
def Best (text : Text) (pairs : List ThinkTagPair) : Option (Nat × ThinkTagPair) → Prop
  | none => ∀ p ∈ pairs, ∀ j, ¬ p.openTag <+: text.drop j
  | some (i, p) =>
    pairs.find? (fun q => q.openTag.isPrefixOf (text.drop i)) = some p ∧
      ∀ q ∈ pairs, ∀ j < i, ¬ q.openTag <+: text.drop j

theorem best_earlier {text : Text} {pairs : List ThinkTagPair} {best : Option (Nat × ThinkTagPair)} (p : ThinkTagPair)
    (h : Best text pairs best) : Best text (pairs ++ [p]) (earlier text best p) := by
  -- the pair at a place where no earlier one starts
  have hnew : ∀ i, find p.openTag text = some i → (∀ q ∈ pairs, ∀ j ≤ i, ¬ q.openTag <+: text.drop j) →
      Best text (pairs ++ [p]) (some (i, p)) := by
    intro i hi hold
    obtain ⟨hat, hbefore⟩ := find_eq_some hi
    constructor
    · rw [List.find?_append, List.find?_eq_none.2, Option.none_or, List.find?_cons_of_pos]
      · exact List.isPrefixOf_iff_prefix.2 hat
      · exact fun q hq hpre => hold q hq i (Nat.le_refl i) (List.isPrefixOf_iff_prefix.1 hpre)
    · intro q hq j hj
      rcases List.mem_append.1 hq with hq | hq
      · exact hold q hq j (Nat.le_of_lt hj)
      · rw [List.mem_singleton.1 hq]
        exact hbefore j hj
  cases hfind : find p.openTag text with
  | none =>
    have hnone := find_eq_none hfind
    simp only [earlier, hfind]
    cases best with
    | none =>
      intro q hq j
      rcases List.mem_append.1 hq with hq | hq
      · exact h q hq j
      · rw [List.mem_singleton.1 hq]
        exact hnone j
    | some found =>
      obtain ⟨i, p'⟩ := found
      obtain ⟨hat, hbefore⟩ := h
      refine ⟨by rw [List.find?_append, hat, Option.some_or], fun q hq j hj => ?_⟩
      rcases List.mem_append.1 hq with hq | hq
      · exact hbefore q hq j hj
      · rw [List.mem_singleton.1 hq]
        exact hnone j
  | some i =>
    simp only [earlier, hfind]
    cases best with
    | none => exact hnew i hfind fun q hq j _ => h q hq j
    | some found =>
      obtain ⟨i', p'⟩ := found
      obtain ⟨hat, hbefore⟩ := h
      simp only
      split
      case isTrue hlt => exact hnew i hfind fun q hq j hj => hbefore q hq j (Nat.lt_of_le_of_lt hj hlt)
      case isFalse hle =>
        refine ⟨by rw [List.find?_append, hat, Option.some_or], fun q hq j hj => ?_⟩
        rcases List.mem_append.1 hq with hq | hq
        · exact hbefore q hq j hj
        · rw [List.mem_singleton.1 hq]
          exact (find_eq_some hfind).2 j (Nat.lt_of_lt_of_le hj (Nat.not_lt.1 hle))

theorem best_findEarliestOpen (text : Text) (pairs : List ThinkTagPair) :
    Best text pairs (findEarliestOpen text pairs) := by
  induction pairs using List.reverseRecOn with
  | nil => exact nofun
  | append_singleton pairs p ih =>
    rw [findEarliestOpen, List.foldl_append]
    exact best_earlier p ih

/-- The end of a text that is held back is the longest one that is a proper start of a tag. -/
theorem holdback_spec (text : Text) (opens : List Text) (n : Nat) (hn : n ≤ text.length) :
    (holdback text opens n).1 ++ (holdback text opens n).2 = text ∧
      ∀ size, (holdback text opens n).2.length < size → size ≤ n →
        ∀ tag ∈ opens, ¬ text.drop (text.length - size) <+: tag := by
  induction n with
  | zero => exact ⟨List.append_nil _, fun size hlt hle => by omega⟩
  | succ n ih =>
    rw [holdback]
    split
    case isTrue h =>
      refine ⟨List.take_append_drop _ _, fun size hlt hle => ?_⟩
      rw [List.length_drop] at hlt
      omega
    case isFalse h =>
      obtain ⟨happ, hmax⟩ := ih (Nat.le_of_succ_le hn)
      refine ⟨happ, fun size hlt hle tag htag hpre => ?_⟩
      rcases Nat.lt_or_ge n size with hsize | hsize
      · obtain rfl : size = n + 1 := by omega
        exact h (List.any_eq_true.2 ⟨tag, htag, List.isPrefixOf_iff_prefix.2 hpre⟩)
      · exact hmax size hlt hsize tag htag hpre

theorem length_le_foldl {opens : List Text} {tag : Text} (h : tag ∈ opens) :
    tag.length ≤ (opens.map List.length).foldl max 0 := by
  have hfold : ∀ (l : List Text) (n : Nat), n ≤ (l.map List.length).foldl max n ∧
      ∀ t ∈ l, t.length ≤ (l.map List.length).foldl max n := by
    intro l
    induction l with
    | nil => exact fun n => ⟨Nat.le_refl n, nofun⟩
    | cons t l ih =>
      intro n
      rw [List.map_cons, List.foldl_cons]
      obtain ⟨hmax, hall⟩ := ih (max n t.length)
      exact ⟨(Nat.le_max_left _ _).trans hmax,
        List.forall_mem_cons.2 ⟨(Nat.le_max_right _ _).trans hmax, hall⟩⟩
  exact (hfold opens 0).2 tag h

theorem holdbackPartialTag_spec (text : Text) (opens : List Text) :
    (holdbackPartialTag text opens).1 ++ (holdbackPartialTag text opens).2 = text ∧
      ∀ size, (holdbackPartialTag text opens).2.length < size → size ≤ text.length →
        ∀ tag ∈ opens, size < tag.length → ¬ text.drop (text.length - size) <+: tag := by
  have hlen : ∀ tag ∈ opens, tag.length ≤ (opens.map List.length).foldl max 0 := fun _ => length_le_foldl
  by_cases hle : (opens.map List.length).foldl max 0 ≤ 1
  · have hwhole : holdbackPartialTag text opens = (text, []) := if_pos hle
    rw [hwhole]
    refine ⟨List.append_nil _, fun size hpos _ tag htag hlt => ?_⟩
    have htaglen := hlen tag htag
    rw [List.length_nil] at hpos
    omega
  · have heq : holdbackPartialTag text opens = holdback text opens _ := if_neg hle
    obtain ⟨happ, hmax⟩ := holdback_spec text opens _ (Nat.min_le_right _ text.length)
    rw [heq]
    refine ⟨happ, fun size hsize hsizele tag htag htaglt => hmax size hsize ?_ tag htag⟩
    have htaglen := hlen tag htag
    exact Nat.le_min.2 ⟨by omega, hsizele⟩

/-! ### Rounds -/

theorem marked_append (l l' : List TokenPiece) : marked (l ++ l') = marked l ++ marked l' := List.flatMap_append

theorem marked_pieceOf (lane : Channel) (text : Text) : marked (pieceOf lane text) = text.map fun c => (lane, c) := by
  unfold pieceOf
  split
  case isTrue h =>
    rw [h]
    rfl
  case isFalse => rw [marked, List.flatMap_singleton]

variable {pairs : List ThinkTagPair} {m : Option Text} {text rest : Text}

/-- The characters before the first tag are those of a piece, and the text goes on after the tag in another mode. -/
theorem channels_found (hsep : Separate (tagTable pairs m)) {i : Nat} {t : Text × Option Text}
    (hquiet : Quiet (tagTable pairs m) text i) (h : found (tagTable pairs m) (text.drop i) = some t) :
    channels pairs m (text ++ rest) =
      marked (pieceOf (laneOf m) (text.take i)) ++ channels pairs t.2 (text.drop (i + t.1.length) ++ rest) := by
  have hi := le_of_found hsep h
  have hfound := found_append hsep h rest
  have hlen := (found_start h).2.length_le
  rw [List.length_drop] at hlen
  have htake : (text ++ rest).take i = text.take i := List.take_append_of_le_length hi
  have hdrop : (text ++ rest).drop i = text.drop i ++ rest := List.drop_append_of_le_length hi
  have hdropTag : (text.drop i ++ rest).drop t.1.length = text.drop (i + t.1.length) ++ rest := by
    rw [List.drop_append_of_le_length (by rw [List.length_drop]; omega), List.drop_drop]
  rw [channels, divide_quiet (quiet_of_found hsep hquiet h rest), htake, hdrop,
    divide_found (hsep.nonempty t (found_start h).1) hfound, hdropTag, List.map_append, marked_pieceOf, List.map_map]
  rfl

/-- Without a tag, the characters before the end that is held back are those of a piece. -/
theorem channels_held (hquiet : ∀ j, found (tagTable pairs m) (text.drop j) = none) (opens : List Text)
    (hopens : ∀ t ∈ tagTable pairs m, t.1 ∈ opens) :
    channels pairs m (text ++ rest) =
      marked (pieceOf (laneOf m) (holdbackPartialTag text opens).1) ++
        channels pairs m ((holdbackPartialTag text opens).2 ++ rest) := by
  obtain ⟨happ, hmax⟩ := holdbackPartialTag_spec text opens
  generalize hsafe : (holdbackPartialTag text opens).1 = safe at happ hmax ⊢
  generalize htail : (holdbackPartialTag text opens).2 = tail at happ hmax ⊢
  subst happ
  have hheld : ∀ j < safe.length, ∀ t ∈ tagTable pairs m, ((safe ++ tail).drop j).length < t.1.length →
      ¬ (safe ++ tail).drop j <+: t.1 := by
    intro j hj t ht hlt hpre
    rw [List.length_drop, List.length_append] at hlt
    refine hmax (safe.length + tail.length - j) (by omega) ?_ t.1 (hopens t ht) hlt ?_
    · rw [List.length_append]
      omega
    · rwa [List.length_append, Nat.sub_sub_self (by omega)]
  have hq : Quiet (tagTable pairs m) (safe ++ tail ++ rest) safe.length :=
    quiet_of_held hquiet hheld (by rw [List.length_append]; omega) rest
  rw [channels, divide_quiet hq, List.append_assoc, List.take_left, List.drop_left, List.map_append, marked_pieceOf,
    List.map_map]
  rfl

theorem separate_close {close : Text} (h : close ≠ []) : Separate (tagTable pairs (some close)) :=
  separate_of_eq h fun t ht => by rw [List.mem_singleton.1 ht]

theorem found_close {close : Text} : found (tagTable pairs (some close)) text = none ↔ ¬ close <+: text := by
  rw [found_eq_none]
  exact List.forall_mem_singleton

theorem found_of_close {close : Text} (h : close <+: text) :
    found (tagTable pairs (some close)) text = some (close, none) :=
  List.find?_cons_of_pos (List.isPrefixOf_iff_prefix.2 h)

theorem found_open :
    found (tagTable pairs none) text =
      (pairs.find? fun p => p.openTag.isPrefixOf text).map fun p => (p.openTag, some p.closeTag) :=
  List.find?_map

theorem found_open_eq_none :
    found (tagTable pairs none) text = none ↔ ∀ p ∈ pairs, ¬ p.openTag <+: text := by
  rw [found_eq_none]
  exact List.forall_mem_map

/-- What a loop makes of a text: its characters come out or are left, and no tag is left. -/
structure Pushed (pairs : List ThinkTagPair) (m : Option Text) (remain : Text)
    (result : List TokenPiece × ThinkTagStreamState) : Prop where
  ok : TagsOk pairs result.2
  quiet : ∀ j, found (tagTable pairs result.2.mode) (result.2.pending.drop j) = none
  channels : ∀ rest, channels pairs m (remain ++ rest) =
    marked result.1 ++ channels pairs result.2.mode (result.2.pending ++ rest)

theorem pushed_nil {state : ThinkTagStreamState} (hok : TagsOk pairs state) (hpending : state.pending = [])
    (hsep : Separate (tagTable pairs state.mode)) : Pushed pairs state.mode [] ([], state) := by
  refine ⟨hok, fun j => ?_, fun rest => ?_⟩
  · rw [hpending, List.drop_nil, found_eq_none]
    exact fun t ht hpre => hsep.nonempty t ht (List.prefix_nil.1 hpre)
  · rw [hpending]
    rfl

/-- The last round holds the end of the text back. -/
theorem pushed_held {state : ThinkTagStreamState} (hok : TagsOk pairs state)
    (hquiet : ∀ j, found (tagTable pairs state.mode) (text.drop j) = none) (opens : List Text)
    (hopens : ∀ t ∈ tagTable pairs state.mode, t.1 ∈ opens) :
    Pushed pairs state.mode text
      (pieceOf (laneOf state.mode) (holdbackPartialTag text opens).1,
        { state with pending := (holdbackPartialTag text opens).2 }) := by
  refine ⟨⟨hok.openTag, hok.closeTag, hok.active⟩, fun j => ?_, fun rest => channels_held hquiet opens hopens⟩
  have htail := @List.drop_left _ (holdbackPartialTag text opens).1 (holdbackPartialTag text opens).2
  rw [(holdbackPartialTag_spec text opens).1] at htail
  simp only
  rw [← htail, List.drop_drop]
  exact hquiet _

/-- A round that finds a tag, with the rounds after it. -/
theorem pushed_found {m : Option Text} (hsep : Separate (tagTable pairs m)) {i : Nat} {t : Text × Option Text}
    (hquiet : Quiet (tagTable pairs m) text i) (h : found (tagTable pairs m) (text.drop i) = some t)
    {result : List TokenPiece × ThinkTagStreamState} (hrest : Pushed pairs t.2 (text.drop (i + t.1.length)) result) :
    Pushed pairs m text (pieceOf (laneOf m) (text.take i) ++ result.1, result.2) := by
  refine ⟨hrest.ok, hrest.quiet, fun rest => ?_⟩
  rw [channels_found hsep hquiet h, hrest.channels, marked_append, List.append_assoc]

theorem separate_mode (hsep : Separate (tagTable pairs none)) {state : ThinkTagStreamState} (hok : TagsOk pairs state) :
    Separate (tagTable pairs state.mode) := by
  unfold ThinkTagStreamState.mode
  split
  case isTrue hopen => exact separate_close (hok.active hopen)
  case isFalse => exact hsep

/-- By induction on the rounds; no tag is empty, so there is one for each character at most. -/
theorem pushed_loop (hsep : Separate (tagTable pairs none)) {n : Nat} {state : ThinkTagStreamState} {remain : Text}
    (hok : TagsOk pairs state) (hpending : state.pending = []) (hn : remain.length ≤ n) :
    Pushed pairs state.mode remain (loop pairs n state remain) := by
  induction n generalizing state remain with
  | zero =>
    obtain rfl := List.length_eq_zero_iff.1 (Nat.le_zero.1 hn)
    exact pushed_nil hok hpending (separate_mode hsep hok)
  | succ n ih =>
    have hmode := separate_mode hsep hok
    rw [loop]
    by_cases hnil : remain = []
    · rw [if_pos hnil, hnil]
      exact pushed_nil hok hpending hmode
    rw [if_neg hnil]
    by_cases hopen : state.thinkOpen = true
    · rw [if_pos hopen]
      have hstate : state.mode = some state.activeClose := if_pos hopen
      cases hfind : find state.activeClose remain with
      | none =>
        have hquiet : ∀ j, found (tagTable pairs state.mode) (remain.drop j) = none := by
          rw [hstate]
          exact fun j => found_close.2 (find_eq_none hfind j)
        have hheld := pushed_held hok hquiet [state.activeClose] (by
          rw [hstate]
          exact fun t ht => List.mem_singleton.1 ht ▸ List.mem_singleton_self _)
        rw [hstate] at hheld ⊢
        exact hheld
      | some i =>
        obtain ⟨hat, hbefore⟩ := find_eq_some hfind
        have hok' : TagsOk pairs { state with thinkOpen := false, activeClose := [] } :=
          ⟨hok.openTag, hok.closeTag, fun h => absurd h Bool.false_ne_true⟩
        have hlt := length_drop_lt hnil (hok.active hopen) i
        have hrest := ih hok' hpending (Nat.le_of_lt_succ (Nat.lt_of_lt_of_le hlt hn))
        rw [hstate] at hmode ⊢
        exact pushed_found hmode (fun j hj => found_close.2 (hbefore j hj)) (found_of_close hat) hrest
    · rw [if_neg hopen]
      have hstate : state.mode = none := if_neg hopen
      have hbest := best_findEarliestOpen remain pairs
      cases hfind : findEarliestOpen remain pairs with
      | none =>
        rw [hfind] at hbest
        have hquiet : ∀ j, found (tagTable pairs state.mode) (remain.drop j) = none := by
          rw [hstate]
          exact fun j => found_open_eq_none.2 fun p hp => hbest p hp j
        have hheld := pushed_held hok hquiet (pairs.map ThinkTagPair.openTag) (by
          rw [hstate]
          intro t ht
          obtain ⟨p, hp, rfl⟩ := List.mem_map.1 ht
          exact List.mem_map_of_mem hp)
        rw [hstate] at hheld ⊢
        exact hheld
      | some best =>
        obtain ⟨i, p⟩ := best
        rw [hfind] at hbest
        obtain ⟨hat, hbefore⟩ := hbest
        have hmem : p ∈ pairs := mem_of_findEarliestOpen hfind
        have hok' : TagsOk pairs { state with thinkOpen := true, activeClose := p.closeTag } :=
          ⟨hok.openTag, hok.closeTag, fun _ => hok.closeTag p hmem⟩
        have hlt := length_drop_lt hnil (hok.openTag p hmem) i
        have hrest := ih hok' hpending (Nat.le_of_lt_succ (Nat.lt_of_lt_of_le hlt hn))
        rw [hstate] at hmode ⊢
        have hfound : found (tagTable pairs none) (remain.drop i) = some (p.openTag, some p.closeTag) := by
          rw [found_open, hat]
          rfl
        exact pushed_found hmode (fun j hj => found_open_eq_none.2 fun q hq => hbefore q hq j hj) hfound hrest

/-! ### Fragments -/

/-- The fragments are pushed one after the other. -/
def pushAll (pairs : List ThinkTagPair) : ThinkTagStreamState → List Text → List TokenPiece × ThinkTagStreamState
  | state, [] => ([], state)
  | state, fragment :: fragments =>
    let (pieces, state') := pushTagAwareText fragment state pairs
    let (pieces', state'') := pushAll pairs state' fragments
    (pieces ++ pieces', state'')

/-- The piece of `finish`: what is held back goes to the lane that is open. -/
def flush (state : ThinkTagStreamState) : List TokenPiece :=
  pieceOf (if state.thinkOpen then .think else .answer) state.pending

/-- The pieces of a stream of fragments, with that of `finish`. -/
def streamed (pairs : List ThinkTagPair) (fragments : List Text) : List TokenPiece :=
  (pushAll pairs .init fragments).1 ++ flush (pushAll pairs .init fragments).2

theorem pushed_push (hsep : Separate (tagTable pairs none)) {state : ThinkTagStreamState} (hok : TagsOk pairs state)
    (fragment : Text) :
    Pushed pairs state.mode (state.pending ++ fragment) (pushTagAwareText fragment state pairs) := by
  have hok' : TagsOk pairs { state with pending := [] } := ⟨hok.openTag, hok.closeTag, hok.active⟩
  exact pushed_loop hsep hok' rfl (Nat.le_refl _)

/-- A text that is pushed in two parts. -/
theorem Pushed.trans {m : Option Text} {pieces pieces' : List TokenPiece} {state state' : ThinkTagStreamState}
    {text' : Text} (h : Pushed pairs m text (pieces, state))
    (h' : Pushed pairs state.mode (state.pending ++ text') (pieces', state')) :
    Pushed pairs m (text ++ text') (pieces ++ pieces', state') := by
  refine ⟨h'.ok, h'.quiet, fun rest => ?_⟩
  rw [List.append_assoc, h.channels, ← List.append_assoc, h'.channels, marked_append, List.append_assoc]

/-- All fragments together are one text. -/
theorem pushed_pushAll (hsep : Separate (tagTable pairs none)) {state : ThinkTagStreamState} (hok : TagsOk pairs state)
    (hquiet : ∀ j, found (tagTable pairs state.mode) (state.pending.drop j) = none) (fragments : List Text) :
    Pushed pairs state.mode (state.pending ++ fragments.flatten) (pushAll pairs state fragments) := by
  induction fragments generalizing state with
  | nil =>
    refine ⟨hok, hquiet, fun rest => ?_⟩
    rw [List.flatten_nil, List.append_nil]
    rfl
  | cons fragment fragments ih =>
    have hfirst := pushed_push hsep hok fragment
    rw [List.flatten_cons, ← List.append_assoc]
    exact hfirst.trans (ih hfirst.ok hfirst.quiet)

theorem marked_flush {state : ThinkTagStreamState}
    (hquiet : ∀ j, found (tagTable pairs state.mode) (state.pending.drop j) = none) :
    marked (flush state) = channels pairs state.mode state.pending := by
  have hq : Quiet (tagTable pairs state.mode) state.pending state.pending.length := fun j _ => hquiet j
  have hlane : (if state.thinkOpen then Channel.think else .answer) = laneOf state.mode := by
    unfold ThinkTagStreamState.mode
    split
    case isTrue => rfl
    case isFalse => rfl
  rw [flush, marked_pieceOf, channels, divide_quiet hq, List.take_length, List.drop_length, hlane, divide,
    List.append_nil, List.map_map]
  rfl

theorem pushed_init (hsep : Separate (tagTable pairs none)) (hok : TagsOk pairs .init) :
    Pushed pairs none [] ([], .init) :=
  pushed_nil hok rfl hsep

theorem Pushed.marked_eq {pieces : List TokenPiece} {state : ThinkTagStreamState}
    (h : Pushed pairs m text (pieces, state)) :
    marked (pieces ++ flush state) = NexusStudio.Llm.channels pairs m text := by
  have hchannels := h.channels []
  rw [List.append_nil, List.append_nil] at hchannels
  rw [marked_append, marked_flush h.quiet, hchannels]

/-- The characters of a stream are those of the whole text without its tags. -/
theorem marked_streamed (hsep : Separate (tagTable pairs none)) (hok : TagsOk pairs .init) (fragments : List Text) :
    marked (streamed pairs fragments) = channels pairs none fragments.flatten := by
  have hinit := pushed_init hsep hok
  exact ((pushed_init hsep hok).trans (pushed_pushAll hsep hok hinit.quiet fragments)).marked_eq

theorem laneText_marked (lane : Channel) (pieces : List TokenPiece) :
    laneText lane pieces = ((marked pieces).filter fun d => d.1 = lane).map Prod.snd := by
  induction pieces with
  | nil => rfl
  | cons p pieces ih =>
    have hcons : marked (p :: pieces) = p.text.map (fun c => (p.lane, c)) ++ marked pieces := List.flatMap_cons
    rw [hcons, List.filter_append, List.map_append, ← ih, List.filter_map, List.map_map, laneText]
    by_cases h : p.lane = lane
    · rw [List.filter_cons_of_pos (by simpa using h), List.flatMap_cons]
      simp [h, laneText, Function.comp_def]
    · rw [List.filter_cons_of_neg (by simpa using h)]
      simp [h, laneText, Function.comp_def]

theorem separate_default : Separate (tagTable defaultTagPairs none) := by
  have hall : ∀ t ∈ tagTable defaultTagPairs none, t.1 = thinkTagPair.openTag := by decide
  exact separate_of_eq (by decide) hall

/-- However a text is cut into fragments, the text of a lane is the same. -/
theorem laneText_streamed (lane : Channel) (fragments : List Text) :
    laneText lane (streamed defaultTagPairs fragments) =
      laneText lane (streamed defaultTagPairs [fragments.flatten]) := by
  rw [laneText_marked, laneText_marked, marked_streamed separate_default tagsOk_init,
    marked_streamed separate_default tagsOk_init, List.flatten_singleton]

/-! ### The assembled text -/

section Assembled

open JsonText

variable {ν : Type} (P : Python ν)

/-- A choice whose delta has a content and nothing else. -/
def contentChoice (s : String) : List (String × Value ν) := [("delta", .dict [("content", .string s)])]

/-- `feed_sse_data` for contents, one after the other. -/
def feedContents (asm : Assembler ν) (contents : List String) : Except StepError (Assembler ν) :=
  contents.foldlM (fun asm s => (asm.feedChoice P (contentChoice s)).map Prod.snd) asm

theorem heldPiece_eq (asm : Assembler ν) : asm.heldPiece = flush asm.tagState := rfl

theorem reasoningPieces_content {thinking : ThinkingConfig} (h : "content" ∉ thinking.reasoningFields) (s : String) :
    reasoningPieces thinking [("content", (.string s : Value ν))] = [] := by
  refine List.filterMap_eq_nil_iff.2 fun field hfield => ?_
  have hne : (field == "content") = false := beq_false_of_ne fun he => h (he ▸ hfield)
  rw [stringField, List.lookup_cons, hne]
  rfl

theorem parseDeltaTokens_content {thinking : ThinkingConfig} (hmode : thinking.mode = .CONTENT_TAGS)
    (h : "content" ∉ thinking.reasoningFields) (state : ThinkTagStreamState) (s : String) :
    parseDeltaTokens thinking state [("content", (.string s : Value ν))] =
      if s = "" then ([], state) else pushTagAwareText s.toList state defaultTagPairs := by
  have hfield : stringField [("content", (.string s : Value ν))] "content" = if s = "" then none else some s := rfl
  rw [parseDeltaTokens, hmode]
  simp only [taggedPieces, hfield]
  by_cases hnil : s = ""
  · rw [if_pos hnil, if_pos hnil]
  · rw [if_neg hnil, if_neg hnil]
    simp only [reasoningPieces_content h, List.nil_append]

/-- A content takes the text of the pieces and of the parser on. -/
theorem feedChoice_content {asm : Assembler ν} (hmode : asm.thinking.mode = .CONTENT_TAGS)
    (hfields : "content" ∉ asm.thinking.reasoningFields) {text : Text}
    (h : Pushed defaultTagPairs none text (asm.tokenPieces, asm.tagState)) (s : String) :
    ∃ pieces asm', asm.feedChoice P (contentChoice s) = .ok (pieces, asm') ∧ asm'.thinking = asm.thinking ∧
      asm'.toolSlots = asm.toolSlots ∧
      Pushed defaultTagPairs none (text ++ s.toList) (asm'.tokenPieces, asm'.tagState) := by
  have hparse := parseDeltaTokens_content (ν := ν) hmode hfields asm.tagState s
  generalize hr : parseDeltaTokens asm.thinking asm.tagState [("content", (.string s : Value ν))] = r at hparse
  refine ⟨r.1, { asm with tagState := r.2, tokenPieces := asm.tokenPieces ++ r.1 }, ?_, rfl, rfl, ?_⟩
  · rw [← hr]
    rfl
  · rw [hparse]
    by_cases hnil : s = ""
    · rw [if_pos hnil, hnil, String.toList_empty, List.append_nil, List.append_nil]
      exact h
    · rw [if_neg hnil]
      exact h.trans (pushed_push separate_default h.ok s.toList)

/-- Contents are taken as one text: the message has the characters of the answer lane of the whole text. -/
theorem finish_contents {thinking : ThinkingConfig} (hmode : thinking.mode = .CONTENT_TAGS)
    (hfields : "content" ∉ thinking.reasoningFields) (contents : List String) :
    ∃ asm step, feedContents P (Assembler.init thinking) contents = .ok asm ∧ asm.finish P = .ok step ∧
      marked step.tokenPieces = channels defaultTagPairs none (contents.map String.toList).flatten ∧
      step.message.content.toList = laneText .answer step.tokenPieces := by
  have hfeed : ∀ (contents : List String) (asm : Assembler ν) (text : Text), asm.thinking = thinking →
      asm.toolSlots = [] → Pushed defaultTagPairs none text (asm.tokenPieces, asm.tagState) →
      ∃ asm', feedContents P asm contents = .ok asm' ∧ asm'.toolSlots = [] ∧
        Pushed defaultTagPairs none (text ++ (contents.map String.toList).flatten)
          (asm'.tokenPieces, asm'.tagState) := by
    intro contents
    induction contents with
    | nil =>
      intro asm text _ hslots h
      refine ⟨asm, rfl, hslots, ?_⟩
      rwa [List.map_nil, List.flatten_nil, List.append_nil]
    | cons s contents ih =>
      intro asm text hthinking hslots h
      obtain ⟨pieces, asm', hs, hthinking', hslots', h'⟩ :=
        feedChoice_content P (hthinking ▸ hmode) (hthinking ▸ hfields) h s
      obtain ⟨asm'', hall, hslots'', h''⟩ := ih asm' _ (hthinking'.trans hthinking) (hslots'.trans hslots) h'
      refine ⟨asm'', ?_, hslots'', ?_⟩
      · rw [feedContents, List.foldlM_cons, hs]
        exact hall
      · rwa [List.map_cons, List.flatten_cons, ← List.append_assoc]
  obtain ⟨asm, hasm, hslots, h⟩ :=
    hfeed contents (Assembler.init thinking) [] rfl rfl (pushed_init separate_default tagsOk_init)
  have hcalls : asm.assembleCalls P = .ok ([], []) := by
    rw [Assembler.assembleCalls, hslots]
    rfl
  have hfinish : asm.finish P = .ok
      { message := ⟨String.ofList (laneText .answer (asm.tokenPieces ++ asm.heldPiece)), []⟩
        invalidToolCalls := []
        tokenPieces := asm.tokenPieces ++ asm.heldPiece
        finishReason := asm.finishReason } := by
    rw [Assembler.finish, hcalls]
  have hmarked : marked (asm.tokenPieces ++ asm.heldPiece) = _ := heldPiece_eq asm ▸ h.marked_eq
  exact ⟨asm, _, hasm, hfinish, hmarked, String.toList_ofList⟩

end Assembled

end NexusStudio.Llm
