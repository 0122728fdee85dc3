import Mathlib.Data.List.Infix
import Mathlib.Data.List.Nodup
import Mathlib.Data.List.Sort
import NexusStudio.Chat.MessagePages
import NexusStudio.Lib.Json
import NexusStudio.Lib.Latest
import NexusStudio.Server.Errors

/-!
# The timeline of a group chat

`_load_room_timeline_block` reads the messages of the conversation, and `build_room_timeline_block` makes a block of
text of those that are visible, for the prompt of a workshop turn.

* (block) `loadRoomTimelineBlock`: a query with a limit, the roles, the last of them, and the blank ones left out.
* (shown) `shown`: the messages that have a line in the block (`load_eq_render`).
* (law) The block shows the latest visible messages exactly if nothing visible is behind the limit of the query, and the
  last messages before it are not all blank.
-/

namespace NexusStudio.RoomTimeline

open JsonText Latest MessagePages

variable {ν : Type}

/-! ### Rows -/

/-- A row of `chat_messages`, with what the timeline reads of it. -/
structure ChatMessage (ν : Type) where
  id : Nat
  conversationId : Nat
  createdAt : Nat
  role : ChatMessageRole
  content : String
  metadata : Value ν

structure ChatMessages (ν : Type) where
  rows : List (ChatMessage ν)
  ids : (rows.map ChatMessage.id).Nodup

/-- The order of `created_at`, and of `id` at one time. -/
def NotAfter (a b : ChatMessage ν) : Prop :=
  a.createdAt < b.createdAt ∨ a.createdAt = b.createdAt ∧ a.id ≤ b.id

instance : DecidableRel (NotAfter (ν := ν)) := fun a b =>
  inferInstanceAs (Decidable (a.createdAt < b.createdAt ∨ a.createdAt = b.createdAt ∧ a.id ≤ b.id))

instance : Std.Total (NotAfter (ν := ν)) := ⟨fun a b => by
  unfold NotAfter
  omega⟩

instance : IsTrans (ChatMessage ν) NotAfter := ⟨fun a b c => by
  unfold NotAfter
  omega⟩

/-- `filter(conversation_id=...)`, in this order. -/
def ChatMessages.timeline (t : ChatMessages ν) (conversationId : Nat) : List (ChatMessage ν) :=
  (t.rows.filter fun m => m.conversationId = conversationId).insertionSort NotAfter

/-! ### Messages -/

structure RoomTimelineMessage where
  role : String
  content : String
  speakerName : Option String
  deriving DecidableEq, Repr

/-- The name of the host, where the metadata has the role of one. -/
def hostName (metadata : List (String × Value ν)) : Option String :=
  match metadata.lookup "speaker_role" with
  | some (.string role) => if role = "host" then some "项目助手" else none
  | _ => none

def speakerNameFromMetadata (metadata : Value ν) : Option String :=
  match metadata with
  | .dict fields =>
    match fields.lookup "expert_name" with
    | some (.string name) => if strip name ≠ "" then some (strip name) else hostName fields
    | _ => hostName fields
  | _ => none

/-- The item of a row, none for the rows of tools and of the system. -/
def itemOf (m : ChatMessage ν) : Option RoomTimelineMessage :=
  match m.role with
  | .user => some ⟨"user", m.content, none⟩
  | .assistant => some ⟨"assistant", m.content, speakerNameFromMetadata m.metadata⟩
  | _ => none

/-! ### The block -/

/-- `str.split`. -/
def splitWords (s : String) : List String :=
  ((s.toList.splitOnP isSpace).filter fun w => w ≠ []).map String.ofList

def summaryOf (content : String) : String :=
  let summary := " ".intercalate (splitWords content)
  if 500 < summary.length then String.ofList (summary.toList.take 500) ++ "…" else summary

def speakerOf (item : RoomTimelineMessage) : Option String :=
  if item.role = "user" then some "用户"
  else
    match item.speakerName.filter fun name => strip name ≠ "" with
    | some name => some (strip name)
    | none => if item.role = "assistant" then some "项目助手" else none

/-- One round of the loop: the line of an item, none where it is skipped. -/
def lineOf (item : RoomTimelineMessage) : Option String :=
  let content := strip item.content
  if content = "" then none
  else (speakerOf item).map fun speaker => "- " ++ speaker ++ "：" ++ summaryOf content

def header : List String := ["## 本群已发生对话", "以下是项目群里用户、项目助手与在场专家的可见发言，按时间顺序："]

def footer : String := "回答关于「刚才聊了什么」的问题时，必须依据上述群对话，不得假装不知情"

def buildRoomTimelineBlock (messages : List RoomTimelineMessage) (maxMessages : Nat) : String :=
  if messages = [] then ""
  else
    let lines := header ++ (last maxMessages messages).filterMap lineOf
    if lines.length ≤ 2 then "" else "\n".intercalate (lines ++ [footer])

def loadRoomTimelineBlock (t : ChatMessages ν) (conversationId : Nat) : String :=
  buildRoomTimelineBlock (((t.timeline conversationId).take 80).filterMap itemOf) 40

/-! ### What is shown -/

/-- A message of a user or an assistant that is not blank. -/
def Visible (m : ChatMessage ν) : Prop := (m.role = .user ∨ m.role = .assistant) ∧ strip m.content ≠ ""

instance (m : ChatMessage ν) : Decidable (Visible m) := inferInstanceAs (Decidable (_ ∧ _))

/-- The visible messages of a conversation, from the oldest. -/
def visible (t : ChatMessages ν) (conversationId : Nat) : List (ChatMessage ν) :=
  (t.timeline conversationId).filter fun m => Visible m

/-- The last messages of users and assistants before the limit of the query. -/
def window (t : ChatMessages ν) (conversationId : Nat) : List (ChatMessage ν) :=
  last 40 (((t.timeline conversationId).take 80).filter fun m => m.role = .user ∨ m.role = .assistant)

/-- The messages that have a line in the block. -/
def shown (t : ChatMessages ν) (conversationId : Nat) : List (ChatMessage ν) :=
  (window t conversationId).filter fun m => Visible m

/-- The block of some visible messages. -/
def render (messages : List (ChatMessage ν)) : String :=
  if messages = [] then ""
  else "\n".intercalate (header ++ messages.filterMap (fun m => (itemOf m).bind lineOf) ++ [footer])

/-! ### Lines -/

section Lines

variable {t : ChatMessages ν} {conversationId : Nat} {m : ChatMessage ν} {item : RoomTimelineMessage}

/-- A user and an assistant always have a speaker. -/
theorem isSome_speakerOf (h : item.role = "user" ∨ item.role = "assistant") : (speakerOf item).isSome = true := by
  unfold speakerOf
  split
  · rfl
  · next huser =>
    split
    · rfl
    · rw [if_pos (h.resolve_left huser)]
      rfl

theorem isSome_lineOf (h : item.role = "user" ∨ item.role = "assistant") :
    (lineOf item).isSome = decide (strip item.content ≠ "") := by
  unfold lineOf
  by_cases hblank : strip item.content = ""
  · simp [hblank]
  · simp [hblank, isSome_speakerOf h]

theorem isSome_itemOf (m : ChatMessage ν) : (itemOf m).isSome = decide (m.role = .user ∨ m.role = .assistant) := by
  unfold itemOf
  cases m.role with
  | _ => rfl

theorem isSome_line (m : ChatMessage ν) : ((itemOf m).bind lineOf).isSome = decide (Visible m) := by
  unfold Visible
  cases hitem : itemOf m with
  | none =>
    have hrole := isSome_itemOf m
    rw [hitem] at hrole
    have hnot : ¬ (m.role = .user ∨ m.role = .assistant) := of_decide_eq_false hrole.symm
    exact (decide_eq_false fun h => hnot h.1).symm
  | some item =>
    unfold itemOf at hitem
    split at hitem
    · next hrole =>
      cases hitem
      rw [Option.bind_some, isSome_lineOf (.inl rfl)]
      exact decide_eq_decide.2 ⟨fun h => ⟨.inl hrole, h⟩, And.right⟩
    · next hrole =>
      cases hitem
      rw [Option.bind_some, isSome_lineOf (.inr rfl)]
      exact decide_eq_decide.2 ⟨fun h => ⟨.inr hrole, h⟩, And.right⟩
    · cases hitem

/-- The lines of the block are those of the messages that are shown. -/
theorem lines_eq (t : ChatMessages ν) (conversationId : Nat) :
    (last 40 (((t.timeline conversationId).take 80).filterMap itemOf)).filterMap lineOf =
      (shown t conversationId).filterMap fun m => (itemOf m).bind lineOf := by
  rw [last_filterMap fun m => (isSome_itemOf m).symm, List.filterMap_filterMap]
  exact (filterMap_filter_isSome fun m => (isSome_line m).symm).symm

/-- The block has a line for each message that is shown, in order, and there is no block without any. -/
theorem load_eq_render (t : ChatMessages ν) (conversationId : Nat) :
    loadRoomTimelineBlock t conversationId = render (shown t conversationId) := by
  have hlines := lines_eq t conversationId
  have hlength : ((shown t conversationId).filterMap fun m => (itemOf m).bind lineOf).length =
      (shown t conversationId).length :=
    length_filterMap fun m hm => (isSome_line m).trans (List.mem_filter.1 hm).2
  unfold loadRoomTimelineBlock buildRoomTimelineBlock render
  split
  · next hnil =>
    rw [hnil] at hlines
    have hshown : (shown t conversationId).length = 0 := by
      rw [← hlength, ← hlines]
      rfl
    rw [if_pos (List.length_eq_zero_iff.1 hshown)]
  · have hshort : (header ++ (shown t conversationId).filterMap fun m => (itemOf m).bind lineOf).length ≤ 2 ↔
        shown t conversationId = [] := by
      rw [List.length_append, hlength, ← List.length_eq_zero_iff]
      change 2 + _ ≤ 2 ↔ _
      omega
    rw [hlines]
    simp only [hshort]

end Lines

/-! ### What survives -/

section Law

variable {t : ChatMessages ν} {conversationId : Nat}

/-- The timeline is that of the conversation, from the oldest message. -/
theorem timeline_perm (t : ChatMessages ν) (conversationId : Nat) :
    (t.timeline conversationId).Perm (t.rows.filter fun m => m.conversationId = conversationId) :=
  List.perm_insertionSort _ _

theorem timeline_pairwise (t : ChatMessages ν) (conversationId : Nat) :
    (t.timeline conversationId).Pairwise NotAfter :=
  List.pairwise_insertionSort _ _

theorem timeline_nodup (t : ChatMessages ν) (conversationId : Nat) : (t.timeline conversationId).Nodup :=
  (timeline_perm t conversationId).nodup_iff.2 ((List.Nodup.of_map _ t.ids).filter _)

/-- The visible messages before the limit of the query and behind it. -/
theorem visible_eq (t : ChatMessages ν) (conversationId : Nat) :
    visible t conversationId = (((t.timeline conversationId).take 80).filter fun m => Visible m) ++
      ((t.timeline conversationId).drop 80).filter fun m => Visible m := by
  rw [← List.filter_append, List.take_append_drop]
  rfl

theorem shown_suffix (t : ChatMessages ν) (conversationId : Nat) :
    shown t conversationId <:+ ((t.timeline conversationId).take 80).filter fun m => Visible m := by
  have hsuffix := (last_suffix 40
    (((t.timeline conversationId).take 80).filter fun m => m.role = .user ∨ m.role = .assistant)).filter
      fun m => decide (Visible m)
  rw [List.filter_filter] at hsuffix
  have hboth : ∀ m ∈ (t.timeline conversationId).take 80,
      (decide (Visible m) && decide (m.role = .user ∨ m.role = .assistant)) = decide (Visible m) := by
    intro m _
    rw [← Bool.decide_and]
    exact decide_eq_decide.2 ⟨And.left, fun h => ⟨h, h.1⟩⟩
  rw [List.filter_congr hboth] at hsuffix
  exact hsuffix

/-- The block renders the messages that are shown. They are the latest visible ones, with none left out, exactly if no
message is visible, or none behind the limit of the query is and one of the last messages before it is. -/
theorem room_timeline_law (t : ChatMessages ν) (conversationId : Nat) :
    loadRoomTimelineBlock t conversationId = render (shown t conversationId) ∧
      (Recent (shown t conversationId) (visible t conversationId) ↔
        visible t conversationId = [] ∨
          (∀ m ∈ (t.timeline conversationId).drop 80, ¬ Visible m) ∧ ∃ m ∈ window t conversationId, Visible m) := by
  refine ⟨load_eq_render t conversationId, ?_⟩
  have hnodup : (visible t conversationId).Nodup := (timeline_nodup t conversationId).filter _
  rw [visible_eq] at hnodup ⊢
  rw [recent_append_iff hnodup (shown_suffix t conversationId)]
  have hbehind : ((t.timeline conversationId).drop 80).filter (fun m => Visible m) = [] ↔
      ∀ m ∈ (t.timeline conversationId).drop 80, ¬ Visible m := by
    simp only [List.filter_eq_nil_iff, decide_eq_true_eq]
  have hwindow : shown t conversationId ≠ [] ↔ ∃ m ∈ window t conversationId, Visible m := by
    unfold shown
    simp only [ne_eq, List.filter_eq_nil_iff, decide_eq_true_eq, not_forall, not_not, exists_prop]
  rw [hbehind, hwindow]

end Law

/-! ### Rooms -/

section Rooms

/-- A message of the user, the results of many tools, and one more message of the user. -/
def longRoom : ChatMessages Int :=
  ⟨(List.range 81).map fun i =>
    ⟨i, 1, i, if i = 0 ∨ i = 80 then .user else .tool, if i = 0 then "old" else "new", .dict []⟩, by decide⟩

/-- A message of the user, and blank ones of the assistant. -/
def quietRoom : ChatMessages Int :=
  ⟨(List.range 41).map fun i =>
    ⟨i, 1, i, if i = 0 then .user else .assistant, if i = 0 then "old" else "", .dict []⟩, by decide⟩

/-- The block of the first room is not that of any end of its visible messages with the latest one, and neither is that
of the second. -/
theorem latest_missing :
    (∀ messages, Recent messages (visible longRoom 1) → loadRoomTimelineBlock longRoom 1 ≠ render messages) ∧
      ∀ messages, Recent messages (visible quietRoom 1) → loadRoomTimelineBlock quietRoom 1 ≠ render messages := by
  have hne : visible longRoom 1 ≠ [] ∧ visible quietRoom 1 ≠ [] := by decide
  have hlong : ∀ messages ∈ (visible longRoom 1).tails, messages ≠ [] →
      loadRoomTimelineBlock longRoom 1 ≠ render messages := by decide +kernel
  have hquiet : ∀ messages ∈ (visible quietRoom 1).tails, messages ≠ [] →
      loadRoomTimelineBlock quietRoom 1 ≠ render messages := by decide
  exact ⟨fun messages h => hlong messages ((List.mem_tails _ _).2 h.suffix) (h.latest hne.1),
    fun messages h => hquiet messages ((List.mem_tails _ _).2 h.suffix) (h.latest hne.2)⟩

end Rooms

end NexusStudio.RoomTimeline
