import NexusStudio.Lib.Paging
import Mathlib.Algebra.Order.BigOperators.Group.List
import Mathlib.Algebra.Order.Group.Nat

/-!
# The pages of a conversation's messages

`fetch_turn_anchored_page` cuts the messages at user messages: a page holds up to `turn_limit` user messages and all
that lies in their span.

* (pages) `fetchTurnAnchoredPage`, over the rows in the order of their ids.
* (law) The pages that a reader follows hold, each once and in order, the messages from the first user message on
  (`turn_pages_law`); what comes before it belongs to no turn.
* (cache) A page behind a cursor stays as it is while messages are appended, so a cached one stays right.
-/

namespace NexusStudio.MessagePages

open Paging

inductive ChatMessageRole
  | user
  | assistant
  | system
  | tool
  deriving DecidableEq, Repr

/-- A row of `chat_messages`. -/
structure Message where
  id : Nat
  role : ChatMessageRole
  content : String
  deriving DecidableEq, Repr

/-- The rows of a conversation, by `id`. -/
structure Conversation where
  rows : List Message
  ordered : rows.Pairwise fun a b => a.id < b.id

structure MessageListPageRows where
  rows : List Message
  hasMore : Bool
  nextBeforeId : Option Nat
  deriving DecidableEq, Repr

/-- `id__lt=before_id`, where there is one. -/
def Before (beforeId : Option Nat) (m : Message) : Prop := ∀ b ∈ beforeId, m.id < b

instance (beforeId : Option Nat) (m : Message) : Decidable (Before beforeId m) :=
  inferInstanceAs (Decidable (∀ b ∈ beforeId, _))

def Message.isUser (m : Message) : Bool := m.role = .user

/-- The user messages of a page, from the newest. -/
def anchors (rows : List Message) (beforeId : Option Nat) (turnLimit : Nat) : List Message :=
  (rows.filter fun m => m.isUser ∧ Before beforeId m).reverse.take turnLimit

def fetchTurnAnchoredPage (c : Conversation) (beforeId : Option Nat) (turnLimit : Nat) : MessageListPageRows :=
  match ((anchors c.rows beforeId turnLimit).map Message.id).min? with
  | none => ⟨[], false, none⟩
  | some oldestUserId =>
    let hasMore := c.rows.any fun m => m.isUser ∧ m.id < oldestUserId
    ⟨c.rows.filter fun m => oldestUserId ≤ m.id ∧ Before beforeId m, hasMore,
      if hasMore then some oldestUserId else none⟩

def MAX_TURN_LIMIT : Int := 100

def clampTurnLimit (limit : Int) : Nat := (max 1 (min limit MAX_TURN_LIMIT)).toNat

/-- `list_messages_for_ui`, up to the view of each row. -/
def listMessagesForUi (c : Conversation) (beforeId : Option Nat) (turnLimit : Int) : MessageListPageRows :=
  fetchTurnAnchoredPage c beforeId (clampTurnLimit turnLimit)

/-- The page that a reader gets, who goes on while there is more. -/
def MessageListPageRows.page (response : MessageListPageRows) : Page Message Nat :=
  ⟨response.rows, if response.hasMore then response.nextBeforeId else none⟩

/-- The message is a user message or comes after one. -/
def InTurn (c : Conversation) (m : Message) : Prop := ∃ u ∈ c.rows, u.isUser = true ∧ u.id ≤ m.id

instance (c : Conversation) (m : Message) : Decidable (InTurn c m) := inferInstanceAs (Decidable (∃ u ∈ c.rows, _))

/-- A reader who follows the pages gets, each once, the messages from the first user message on: the pages from the
newest to the oldest, each in the order of the ids. -/
def ListsTurns (c : Conversation) (read : Option Nat → MessageListPageRows) : Prop :=
  ∃ ps, Walk (fun _ b => (read b).page) 0 none ps ∧ (∀ qs, Walk (fun _ b => (read b).page) 0 none qs → qs = ps) ∧
    ps.reverse.flatten = c.rows.filter fun m => InTurn c m

/-! ### One page -/

variable {c : Conversation} {beforeId : Option Nat} {n : Nat}

theorem clampTurnLimit_pos (limit : Int) : 0 < clampTurnLimit limit := by
  unfold clampTurnLimit
  omega

theorem mem_anchors {m : Message} (h : m ∈ anchors c.rows beforeId n) :
    m ∈ c.rows ∧ m.isUser = true ∧ Before beforeId m := by
  obtain ⟨hrow, hm⟩ := List.mem_filter.1 (List.mem_reverse.1 (List.mem_of_mem_take h))
  exact ⟨hrow, of_decide_eq_true hm⟩

/-- Without anchors there is no user message before the cursor. -/
theorem anchors_eq_nil (hn : 0 < n) (h : anchors c.rows beforeId n = []) :
    ∀ u ∈ c.rows, u.isUser = true → ¬ Before beforeId u := by
  intro u hu huser hbefore
  rw [anchors, List.take_eq_nil_iff, List.reverse_eq_nil_iff] at h
  have hmem : u ∈ c.rows.filter fun m => m.isUser ∧ Before beforeId m :=
    List.mem_filter.2 ⟨hu, decide_eq_true ⟨huser, hbefore⟩⟩
  rcases h with h | h
  · omega
  · rw [h] at hmem
    cases hmem

/-- A page is empty, where no user message is left, or begins at a user message; then there is more if a user message
comes before it. -/
inductive PageSpec (c : Conversation) (beforeId : Option Nat) : MessageListPageRows → Prop
  | empty (h : ∀ u ∈ c.rows, u.isUser = true → ¬ Before beforeId u) : PageSpec c beforeId ⟨[], false, none⟩
  | span (u : Message) (hu : u ∈ c.rows) (huser : u.isUser = true) (hbefore : Before beforeId u) (hasMore : Bool)
      (hmore : hasMore = true ↔ ∃ v ∈ c.rows, v.isUser = true ∧ v.id < u.id) :
      PageSpec c beforeId
        ⟨c.rows.filter fun m => u.id ≤ m.id ∧ Before beforeId m, hasMore, if hasMore then some u.id else none⟩

theorem fetch_spec (hn : 0 < n) : PageSpec c beforeId (fetchTurnAnchoredPage c beforeId n) := by
  unfold fetchTurnAnchoredPage
  split
  · next hmin =>
    rw [List.min?_eq_none_iff, List.map_eq_nil_iff] at hmin
    exact .empty (anchors_eq_nil hn hmin)
  · next oldest hmin =>
    obtain ⟨u, hu, rfl⟩ := List.mem_map.1 (List.min?_mem hmin)
    obtain ⟨hrow, huser, hbefore⟩ := mem_anchors hu
    refine .span u hrow huser hbefore _ ?_
    rw [List.any_eq_true]
    exact exists_congr fun v => and_congr_right fun _ => decide_eq_true_iff

/-! ### All pages -/

/-- Rows in order are those before an id and those from it on. -/
theorem filter_split {l : List Message} (hl : l.Pairwise fun a b => a.id < b.id) (p : Message → Bool) (k : Nat) :
    l.filter p = (l.filter fun m => p m && decide (m.id < k)) ++ l.filter fun m => p m && decide (k ≤ m.id) := by
  induction l with
  | nil => rfl
  | cons m l ih =>
    obtain ⟨hm, hl⟩ := List.pairwise_cons.1 hl
    by_cases hk : m.id < k
    · have hge : ¬ k ≤ m.id := Nat.not_le.2 hk
      cases hp : p m <;> simp [hp, hk, hge, ih hl]
    · have hge : k ≤ m.id := Nat.not_lt.1 hk
      have hnone : (l.filter fun x => p x && decide (x.id < k)) = [] := by
        refine List.filter_eq_nil_iff.2 fun x hx h => ?_
        have hlt := hm x hx
        have hxk := of_decide_eq_true ((Bool.and_eq_true _ _).mp h).2
        omega
      cases hp : p m <;> simp [hp, hk, hge, ih hl, hnone]

/-- What is left to read at a cursor. -/
def rest (c : Conversation) (beforeId : Option Nat) : List Message :=
  c.rows.filter fun m => InTurn c m ∧ Before beforeId m

theorem rest_eq_nil (h : ∀ u ∈ c.rows, u.isUser = true → ¬ Before beforeId u) : rest c beforeId = [] := by
  refine List.filter_eq_nil_iff.2 fun m _ hm => ?_
  obtain ⟨⟨u, hu, huser, hle⟩, hbefore⟩ := of_decide_eq_true hm
  exact h u hu huser fun b hb => hle.trans_lt (hbefore b hb)

/-- A last page holds what is left. -/
theorem rest_last {u : Message} (hu : u ∈ c.rows) (huser : u.isUser = true)
    (hfirst : ¬ ∃ v ∈ c.rows, v.isUser = true ∧ v.id < u.id) :
    (c.rows.filter fun m => u.id ≤ m.id ∧ Before beforeId m) = rest c beforeId := by
  refine List.filter_congr fun m _ => decide_eq_decide.2 (and_congr_left fun _ => ?_)
  constructor
  · exact fun hle => ⟨u, hu, huser, hle⟩
  · rintro ⟨v, hv, hvuser, hle⟩
    have hnot : ¬ v.id < u.id := fun hlt => hfirst ⟨v, hv, hvuser, hlt⟩
    omega

/-- Other pages hold the end of what is left, from a user message on. -/
theorem rest_more {u : Message} (hu : u ∈ c.rows) (huser : u.isUser = true) (hbefore : Before beforeId u) :
    rest c beforeId =
      rest c (some u.id) ++ c.rows.filter fun m => u.id ≤ m.id ∧ Before beforeId m := by
  rw [rest, filter_split c.ordered _ u.id]
  congr 1
  · refine List.filter_congr fun m _ => ?_
    rw [← Bool.decide_and]
    refine decide_eq_decide.2 ⟨fun h => ⟨h.1.1, fun b hb => ?_⟩, fun h => ⟨⟨h.1, fun b hb => ?_⟩, h.2 _ rfl⟩⟩
    · rw [← Option.some.inj hb]
      exact h.2
    · exact (h.2 _ rfl).trans (hbefore b hb)
  · refine List.filter_congr fun m _ => ?_
    rw [← Bool.decide_and]
    exact decide_eq_decide.2 ⟨fun h => ⟨h.2, h.1.2⟩, fun h => ⟨⟨⟨u, hu, huser, h.1⟩, h.2⟩, h.1⟩⟩

theorem page_law {response : MessageListPageRows} (h : PageSpec c beforeId response) :
    (response.page.next = none → response.page.rows = rest c beforeId) ∧
    ∀ k, response.page.next = some k →
      rest c beforeId = rest c (some k) ++ response.page.rows ∧
      ∃ u ∈ c.rows, u.isUser = true ∧ Before beforeId u ∧ u.id = k := by
  cases h with
  | empty h => exact ⟨fun _ => (rest_eq_nil h).symm, nofun⟩
  | span u hu huser hbefore hasMore hmore =>
    cases hasMore with
    | false => exact ⟨fun _ => rest_last hu huser fun h => Bool.false_ne_true (hmore.2 h), nofun⟩
    | true =>
      refine ⟨nofun, fun k hk => ?_⟩
      obtain rfl : u.id = k := Option.some.inj hk
      exact ⟨rest_more hu huser hbefore, u, hu, huser, hbefore, rfl⟩

theorem listsTurns_of_spec {read : Option Nat → MessageListPageRows} (h : ∀ b, PageSpec c b (read b)) :
    ListsTurns c read := by
  obtain ⟨ps, hw⟩ : ∃ ps, Walk (fun _ b => (read b).page) 0 none ps := by
    -- the cursors go down; the first read is bounded by all ids
    refine Walk.exists_of_measure (G := fun _ => True) (fun b => b.getD ((c.rows.map Message.id).sum + 1))
      (fun _ b k _ hk => ⟨trivial, ?_⟩) 0 trivial
    obtain ⟨-, u, hu, -, hbefore, rfl⟩ := (page_law (h b)).2 k hk
    cases b with
    | none => exact Nat.lt_succ_of_le (List.le_sum_of_mem (List.mem_map_of_mem hu))
    | some b => exact hbefore b rfl
  refine ⟨ps, hw, fun qs hq => hq.unique hw, ?_⟩
  have hall : rest c none = c.rows.filter fun m => InTurn c m := by
    refine List.filter_congr fun m _ => decide_eq_decide.2 (and_iff_left ?_)
    exact nofun
  rw [← hall]
  refine Walk.flatten_reverse_eq (G := fun _ => True) (rest c) ?_ ?_ hw trivial
  · exact fun _ b _ hnone => (page_law (h b)).1 hnone
  · exact fun _ b k _ hk => ⟨trivial, ((page_law (h b)).2 k hk).1⟩

/-- The pages of every size list the messages from the first user message on, and so do those of the endpoint for every
asked limit. -/
theorem turn_pages_law (c : Conversation) :
    (∀ n, ListsTurns c fun b => fetchTurnAnchoredPage c b (n + 1)) ∧
      ∀ limit, ListsTurns c fun b => listMessagesForUi c b limit :=
  ⟨fun n => listsTurns_of_spec fun _ => fetch_spec n.succ_pos,
    fun limit => listsTurns_of_spec fun _ => fetch_spec (clampTurnLimit_pos limit)⟩

/-! ### Appended messages -/

/-- A page behind a cursor stays as it is while messages are appended. -/
theorem fetch_of_append {c c' : Conversation} {new : List Message} (hc : c'.rows = c.rows ++ new) {b : Nat}
    (hnew : ∀ m ∈ new, b ≤ m.id) : fetchTurnAnchoredPage c' (some b) n = fetchTurnAnchoredPage c (some b) n := by
  have hlate : ∀ m ∈ new, ¬ Before (some b) m := fun m hm h => Nat.not_lt.2 (hnew m hm) (h b rfl)
  have hnone : ∀ p : Message → Prop, [DecidablePred p] → (∀ m, p m → Before (some b) m) →
      c'.rows.filter (fun m => p m) = c.rows.filter fun m => p m := by
    intro p _ hp
    have hnil : (new.filter fun m => decide (p m)) = [] :=
      List.filter_eq_nil_iff.2 fun m hm h => hlate m hm (hp m (of_decide_eq_true h))
    rw [hc, List.filter_append, hnil, List.append_nil]
  have hanchors : anchors c'.rows (some b) n = anchors c.rows (some b) n := by
    rw [anchors, hnone _ fun m h => h.2, anchors]
  unfold fetchTurnAnchoredPage
  rw [hanchors]
  split
  · rfl
  · next oldest hmin =>
    obtain ⟨u, hu, rfl⟩ := List.mem_map.1 (List.min?_mem hmin)
    have hub : u.id < b := (mem_anchors hu).2.2 b rfl
    have hany : (c'.rows.any fun m => m.isUser ∧ m.id < u.id) = c.rows.any fun m => m.isUser ∧ m.id < u.id := by
      have hnew' : (new.any fun m => decide (m.isUser = true ∧ m.id < u.id)) = false := by
        refine List.any_eq_false.2 fun m hm h => ?_
        have hlt := (of_decide_eq_true h).2
        have hge := hnew m hm
        omega
      rw [hc, List.any_append, hnew', Bool.or_false]
    rw [hany, hnone _ fun m h => h.2]

/-! ### Before the first turn -/

/-- A greeting before the first user message is on no page. -/
theorem greeting_unlisted :
    ∃ c : Conversation, ∀ ps, Walk (fun _ b => (fetchTurnAnchoredPage c b 50).page) 0 none ps →
      ps.reverse.flatten ≠ c.rows := by
  let greeting : Message := ⟨1, .assistant, "Welcome"⟩
  let question : Message := ⟨2, .user, "Hello"⟩
  let answer : Message := ⟨3, .assistant, "Hello!"⟩
  refine ⟨⟨[greeting, question, answer], by decide⟩, fun ps hw => ?_⟩
  have hpage : Walk (fun _ b => (fetchTurnAnchoredPage ⟨[greeting, question, answer], by decide⟩ b 50).page) 0 none
      [[question, answer]] := .last rfl
  rw [hw.unique hpage]
  decide

end NexusStudio.MessagePages
