import NexusStudio.Turn.Events
import Mathlib.Data.List.Infix

/-!
# Think tags in a text stream

`push_tag_aware_text` takes the text of a stream piece by piece, and divides it at the think tags.

* (holdback) The end of the text that can be the start of a tag is held back until the next piece.
* (loop) Every round removes a tag or ends the loop, so as many rounds as there are characters are enough:
  `loop_eq_of_le`.
* (pieces) No piece is empty: `pushTagAwareText_ne_nil`.
-/

namespace NexusStudio.Llm

open Turn

abbrev Text := List Char

structure ThinkTagPair where
  openTag : Text
  closeTag : Text
  deriving DecidableEq, Repr

def thinkTagPair : ThinkTagPair := ⟨"<think>".toList, "</think>".toList⟩

/-- `DEFAULT_TAG_PAIRS`. -/
def defaultTagPairs : List ThinkTagPair := [thinkTagPair, thinkTagPair]

structure ThinkTagStreamState where
  thinkOpen : Bool
  activeClose : Text
  pending : Text
  deriving DecidableEq, Repr

def ThinkTagStreamState.init : ThinkTagStreamState := ⟨false, [], []⟩

structure TokenPiece where
  lane : Channel
  text : Text
  deriving DecidableEq, Repr

/-! ### The parser -/

/-- `text.find(tag)`. -/
def find (tag : Text) : Text → Option Nat
  | [] => if tag = [] then some 0 else none
  | c :: text => if tag.isPrefixOf (c :: text) then some 0 else (find tag text).map (· + 1)

/-- The better one of what was found and the next pair. -/
def earlier (text : Text) (best : Option (Nat × ThinkTagPair)) (pair : ThinkTagPair) : Option (Nat × ThinkTagPair) :=
  match find pair.openTag text, best with
  | none, best => best
  | some index, none => some (index, pair)
  | some index, some best => if index < best.1 then some (index, pair) else some best

def findEarliestOpen (text : Text) (pairs : List ThinkTagPair) : Option (Nat × ThinkTagPair) :=
  pairs.foldl (earlier text) none

/-- The loop of `_holdback_partial_tag` over the sizes of the tail, from `size` down. -/
def holdback (text : Text) (opens : List Text) : Nat → Text × Text
  | 0 => (text, [])
  | size + 1 =>
    let tail := text.drop (text.length - (size + 1))
    if opens.any tail.isPrefixOf then (text.take (text.length - (size + 1)), tail) else holdback text opens size

def holdbackPartialTag (text : Text) (opens : List Text) : Text × Text :=
  let maxLen := (opens.map List.length).foldl max 0
  if maxLen ≤ 1 then (text, []) else holdback text opens (min (maxLen - 1) text.length)

/-- The piece of a text that is not empty. -/
def pieceOf (lane : Channel) (text : Text) : List TokenPiece := if text = [] then [] else [⟨lane, text⟩]

/-- The rounds of the loop of `push_tag_aware_text`, `n` at most. -/
def loop (pairs : List ThinkTagPair) : Nat → ThinkTagStreamState → Text → List TokenPiece × ThinkTagStreamState
  | 0, state, _ => ([], state)
  | n + 1, state, remain =>
    if remain = [] then ([], state)
    else if state.thinkOpen then
      match find state.activeClose remain with
      | none =>
        let (safe, tail) := holdbackPartialTag remain [state.activeClose]
        (pieceOf .think safe, { state with pending := tail })
      | some index =>
        let (pieces, state') :=
          loop pairs n { state with thinkOpen := false, activeClose := [] }
            (remain.drop (index + state.activeClose.length))
        (pieceOf .think (remain.take index) ++ pieces, state')
    else
      match findEarliestOpen remain pairs with
      | none =>
        let (safe, tail) := holdbackPartialTag remain (pairs.map ThinkTagPair.openTag)
        (pieceOf .answer safe, { state with pending := tail })
      | some (index, pair) =>
        let (pieces, state') :=
          loop pairs n { state with thinkOpen := true, activeClose := pair.closeTag }
            (remain.drop (index + pair.openTag.length))
        (pieceOf .answer (remain.take index) ++ pieces, state')

def pushTagAwareText (text : Text) (state : ThinkTagStreamState) (pairs : List ThinkTagPair) :
    List TokenPiece × ThinkTagStreamState :=
  let remain := state.pending ++ text
  loop pairs remain.length { state with pending := [] } remain

/-! ### Rounds -/

/-- No tag is empty, neither of the pairs nor the one that is waited for. -/
structure TagsOk (pairs : List ThinkTagPair) (state : ThinkTagStreamState) : Prop where
  openTag : ∀ p ∈ pairs, p.openTag ≠ []
  closeTag : ∀ p ∈ pairs, p.closeTag ≠ []
  active : state.thinkOpen = true → state.activeClose ≠ []

theorem tagsOk_init : TagsOk defaultTagPairs .init := ⟨by decide, by decide, nofun⟩

theorem earlier_eq {text : Text} {best : Option (Nat × ThinkTagPair)} {p : ThinkTagPair} :
    earlier text best p = best ∨ ∃ index, earlier text best p = some (index, p) := by
  unfold earlier
  split
  · exact .inl rfl
  · next index _ => exact .inr ⟨index, rfl⟩
  · next index _ _ =>
    split
    · exact .inr ⟨index, rfl⟩
    · exact .inl rfl

/-- The pair that is found is one of the pairs. -/
theorem mem_of_findEarliestOpen {text : Text} {pairs : List ThinkTagPair} {found : Nat × ThinkTagPair}
    (h : findEarliestOpen text pairs = some found) : found.2 ∈ pairs := by
  have hfold : ∀ (l : List ThinkTagPair) (best : Option (Nat × ThinkTagPair)),
      l.foldl (earlier text) best = some found → found.2 ∈ l ∨ best = some found := by
    intro l
    induction l with
    | nil => exact fun best h => .inr h
    | cons p l ih =>
      intro best h
      rcases ih _ h with hmem | hbest
      · exact .inl (List.mem_cons_of_mem _ hmem)
      · have hcases : earlier text best p = best ∨ ∃ index, earlier text best p = some (index, p) := earlier_eq
        rcases hcases with heq | ⟨index, heq⟩
        · exact .inr (heq.symm.trans hbest)
        · cases heq.symm.trans hbest
          exact .inl List.mem_cons_self
  exact (hfold pairs none h).resolve_right nofun

theorem length_drop_lt {text tag : Text} (htext : text ≠ []) (htag : tag ≠ []) (index : Nat) :
    (text.drop (index + tag.length)).length < text.length := by
  have h1 := List.length_pos_iff.2 htext
  have h2 := List.length_pos_iff.2 htag
  rw [List.length_drop]
  omega

/-- With as many rounds as there are characters the loop has come to its end. -/
theorem loop_eq_of_le {pairs : List ThinkTagPair} {n m : Nat} {state : ThinkTagStreamState} {remain : Text}
    (hok : TagsOk pairs state) (hn : remain.length ≤ n) (hm : remain.length ≤ m) :
    loop pairs n state remain = loop pairs m state remain := by
  induction n generalizing m state remain with
  | zero =>
    have hnil : remain = [] := List.length_eq_zero_iff.1 (Nat.le_zero.1 hn)
    cases m with
    | zero => rfl
    | succ m => rw [loop, loop, if_pos hnil]
  | succ n ih =>
    cases m with
    | zero =>
      have hnil : remain = [] := List.length_eq_zero_iff.1 (Nat.le_zero.1 hm)
      rw [loop, loop, if_pos hnil]
    | succ m =>
      rw [loop, loop]
      by_cases hnil : remain = []
      · rw [if_pos hnil, if_pos hnil]
      rw [if_neg hnil, if_neg hnil]
      by_cases hopen : state.thinkOpen = true
      · rw [if_pos hopen, if_pos hopen]
        cases hfind : find state.activeClose remain with
        | none => rfl
        | some index =>
          have hlt := length_drop_lt hnil (hok.active hopen) index
          have hok' : TagsOk pairs { state with thinkOpen := false, activeClose := [] } :=
            ⟨hok.openTag, hok.closeTag, nofun⟩
          simp only
          rw [ih hok' (by omega) (by omega : _ ≤ m)]
      · rw [if_neg hopen, if_neg hopen]
        cases hfind : findEarliestOpen remain pairs with
        | none => rfl
        | some found =>
          obtain ⟨index, pair⟩ := found
          have hmem := mem_of_findEarliestOpen hfind
          have hlt := length_drop_lt hnil (hok.openTag pair hmem) index
          have hok' : TagsOk pairs { state with thinkOpen := true, activeClose := pair.closeTag } :=
            ⟨hok.openTag, hok.closeTag, fun _ => hok.closeTag pair hmem⟩
          simp only
          rw [ih hok' (by omega) (by omega : _ ≤ m)]

/-! ### Pieces -/

theorem pieceOf_ne_nil {lane : Channel} {text : Text} : ∀ p ∈ pieceOf lane text, p.text ≠ [] := by
  intro p hp
  unfold pieceOf at hp
  split at hp
  · cases hp
  · next h =>
    cases List.mem_singleton.1 hp
    exact h

theorem loop_ne_nil {pairs : List ThinkTagPair} (n : Nat) (state : ThinkTagStreamState) (remain : Text) :
    ∀ p ∈ (loop pairs n state remain).1, p.text ≠ [] := by
  induction n generalizing state remain with
  | zero => nofun
  | succ n ih =>
    rw [loop]
    split
    · nofun
    · split
      · split
        · exact pieceOf_ne_nil
        · intro p hp
          exact (List.mem_append.1 hp).elim (pieceOf_ne_nil p) (ih _ _ p)
      · split
        · exact pieceOf_ne_nil
        · intro p hp
          exact (List.mem_append.1 hp).elim (pieceOf_ne_nil p) (ih _ _ p)

theorem pushTagAwareText_ne_nil (text : Text) (state : ThinkTagStreamState) (pairs : List ThinkTagPair) :
    ∀ p ∈ (pushTagAwareText text state pairs).1, p.text ≠ [] :=
  loop_ne_nil _ _ _

end NexusStudio.Llm
