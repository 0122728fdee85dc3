import NexusStudio.Server.Errors
import Mathlib.Data.List.Nodup
import Mathlib.Data.List.Count

/-!
# Tool messages of a history

`repair_unresolved_tool_calls` puts a failed tool message where a tool call was left without one, and drops the tool
messages that answer no call.

* (sections) A history is a list of sections: a message that is no tool message and the tool messages right after it.
* (repair) In each section the first answers of the calls are kept, and the calls that are left get a message each
  (`sections_repair`).
* (repeated ids) The repaired history is well formed exactly if no id that an assistant message repeats was left without
  an answer; else the messages for it are dropped again by the next repair.
-/

namespace NexusStudio.MessageHygiene

/-- A tool call of an assistant message, without its arguments. -/
structure Call where
  id : Option String
  name : Option String
  deriving DecidableEq, Repr

inductive Role
  | system
  | human
  | ai (toolCalls : List Call)
  deriving DecidableEq, Repr

/-- A message that is no tool message; `μ` has its content and what else it holds. -/
structure PlainMessage (μ : Type) where
  role : Role
  content : μ
  deriving DecidableEq, Repr

structure ToolMessage (μ : Type) where
  content : μ
  toolCallId : String
  name : Option String
  deriving DecidableEq, Repr

inductive Message (μ : Type)
  | plain (m : PlainMessage μ)
  | tool (t : ToolMessage μ)
  deriving DecidableEq, Repr

def Role.calls : Role → List Call
  | .ai toolCalls => toolCalls
  | .system | .human => []

/-- The calls that wait for an answer after a message: those with an id, with their names. -/
def pendingOf (calls : List Call) : List (String × String) :=
  calls.filterMap fun c => (c.id.filter (· ≠ "")).map fun id => (id, c.name.getD "")

def callIds {μ : Type} (m : PlainMessage μ) : List String := (pendingOf m.role.calls).map Prod.fst

section Model

variable {μ : Type} (failed : μ)

/-! ### Repair -/

/-- The message for a call without an answer, with the content of `ToolResult.fail(reason, detail)`. -/
def synthetic (p : String × String) : ToolMessage μ := ⟨failed, p.1, some (if p.2 = "" then "unknown" else p.2)⟩

structure Repair (μ : Type) where
  out : List (Message μ)
  pending : List (String × String)
  -- the ids of the log lines `chat.memory.unresolved_tool_repaired`
  repaired : List String

def Repair.flushPending (s : Repair μ) : Repair μ :=
  let calls := s.pending.filter fun p => p.1 ≠ ""
  ⟨s.out ++ calls.map fun p => .tool (synthetic failed p), [], s.repaired ++ calls.map Prod.fst⟩

/-- One round of the loop. -/
def Repair.step (s : Repair μ) : Message μ → Repair μ
  | .plain m =>
    let s := s.flushPending failed
    ⟨s.out ++ [.plain m], pendingOf m.role.calls, s.repaired⟩
  | .tool t =>
    if t.toolCallId ≠ "" ∧ s.pending.any (·.1 = t.toolCallId) then
      ⟨s.out ++ [.tool t], s.pending.filter (·.1 ≠ t.toolCallId), s.repaired⟩
    else s

def repairRun (messages : List (Message μ)) : Repair μ :=
  (messages.foldl (Repair.step failed) ⟨[], [], []⟩).flushPending failed

def repairUnresolvedToolCalls (messages : List (Message μ)) : List (Message μ) := (repairRun failed messages).out

/-! ### Sections -/

/-- The tool messages at the start of a history, and its sections. -/
def sections : List (Message μ) → List (ToolMessage μ) × List (PlainMessage μ × List (ToolMessage μ))
  | [] => ([], [])
  | .tool t :: l => (t :: (sections l).1, (sections l).2)
  | .plain m :: l => ([], (m, (sections l).1) :: (sections l).2)

/-- The history of some sections. -/
def joined (secs : List (PlainMessage μ × List (ToolMessage μ))) : List (Message μ) :=
  secs.flatMap fun s => .plain s.1 :: s.2.map .tool

def toolIds (tools : List (ToolMessage μ)) : List String := tools.map ToolMessage.toolCallId

/-- Every assistant message is followed by one tool message for each of its call ids, and there are no others. -/
structure WellFormed (messages : List (Message μ)) : Prop where
  start : (sections messages).1 = []
  once : ∀ s ∈ (sections messages).2, (toolIds s.2).Nodup
  answered : ∀ s ∈ (sections messages).2, ∀ id, id ∈ toolIds s.2 ↔ id ∈ callIds s.1

/-- The first tool messages for the calls of a section are in the other section, with the same message before them. -/
def Kept (s s' : PlainMessage μ × List (ToolMessage μ)) : Prop :=
  s'.1 = s.1 ∧ ∀ before t after, s.2 = before ++ t :: after → t.toolCallId ∈ callIds s.1 →
    t.toolCallId ∉ toolIds before → t ∈ s'.2

/-- The messages that are no tool messages. -/
def plainMessages (messages : List (Message μ)) : List (PlainMessage μ) :=
  messages.filterMap fun m =>
    match m with
    | .plain m => some m
    | .tool _ => none

/-- An id that an assistant message repeats has an answer in its place. -/
def RepeatedAnswered (messages : List (Message μ)) : Prop :=
  ∀ s ∈ (sections messages).2, ∀ id, 1 < (callIds s.1).count id → id ∈ toolIds s.2

/-- The tool messages of a section that are kept, and the calls that are left. -/
def settle : List (String × String) → List (ToolMessage μ) → List (ToolMessage μ) × List (String × String)
  | pending, [] => ([], pending)
  | pending, t :: ts =>
    if t.toolCallId ≠ "" ∧ pending.any (·.1 = t.toolCallId) then
      let rest := settle (pending.filter (·.1 ≠ t.toolCallId)) ts
      (t :: rest.1, rest.2)
    else settle pending ts

def settled (s : PlainMessage μ × List (ToolMessage μ)) : List (ToolMessage μ) × List (String × String) :=
  settle (pendingOf s.1.role.calls) s.2

/-- A section after the repair. -/
def repairSection (s : PlainMessage μ × List (ToolMessage μ)) : PlainMessage μ × List (ToolMessage μ) :=
  (s.1, (settled s).1 ++ (settled s).2.map (synthetic failed))

/-! ### One section -/

section Settle

variable {failed} {pending : List (String × String)} {tools : List (ToolMessage μ)}
  {s : PlainMessage μ × List (ToolMessage μ)}

theorem pendingOf_ne {calls : List Call} {p : String × String} (h : p ∈ pendingOf calls) : p.1 ≠ "" := by
  obtain ⟨c, -, hc⟩ := List.mem_filterMap.1 h
  obtain ⟨id, hid, rfl⟩ := Option.map_eq_some_iff.1 hc
  exact of_decide_eq_true (Option.filter_eq_some_iff.1 hid).2

theorem any_pending {id : String} : pending.any (·.1 = id) = true ↔ id ∈ pending.map Prod.fst := by
  simp only [List.any_eq_true, decide_eq_true_eq, List.mem_map]

theorem mem_pending_filter {id id' : String} :
    id' ∈ (pending.filter (·.1 ≠ id)).map Prod.fst ↔ id' ∈ pending.map Prod.fst ∧ id' ≠ id := by
  constructor
  · intro h
    obtain ⟨p, hp, rfl⟩ := List.mem_map.1 h
    obtain ⟨hp, hne⟩ := List.mem_filter.1 hp
    exact ⟨List.mem_map_of_mem hp, of_decide_eq_true hne⟩
  · rintro ⟨h, hne⟩
    obtain ⟨p, hp, rfl⟩ := List.mem_map.1 h
    exact List.mem_map_of_mem (List.mem_filter.2 ⟨hp, decide_eq_true hne⟩)

theorem settle_nil (tools : List (ToolMessage μ)) : settle [] tools = ([], []) := by
  induction tools with
  | nil => rfl
  | cons t tools ih =>
    rw [settle, if_neg fun h => absurd h.2 Bool.false_ne_true]
    exact ih

/-- The calls that are left are those whose id no tool message of the section has. -/
theorem settle_left (hne : ∀ p ∈ pending, p.1 ≠ "") :
    (settle pending tools).2 = pending.filter fun p => p.1 ∉ toolIds tools := by
  induction tools generalizing pending with
  | nil => exact (List.filter_eq_self.2 fun p _ => decide_eq_true List.not_mem_nil).symm
  | cons t tools ih =>
    rw [settle]
    split
    · simp only
      rw [ih fun p hp => hne p (List.mem_of_mem_filter hp), List.filter_filter]
      refine List.filter_congr fun p _ => Bool.eq_iff_iff.2 ?_
      simp only [Bool.and_eq_true, decide_eq_true_eq]
      simp only [toolIds, List.map_cons, List.mem_cons, not_or]
      exact and_comm
    · next h =>
      rw [ih hne]
      refine List.filter_congr fun p hp => decide_eq_decide.2 ?_
      have hid : p.1 ≠ t.toolCallId := fun he => h ⟨he ▸ hne p hp, any_pending.2 (he ▸ List.mem_map_of_mem hp)⟩
      simp only [toolIds, List.map_cons, List.mem_cons, hid, false_or]

/-- The ids that are kept are those of the calls that have an answer. -/
theorem mem_settle_kept (hne : ∀ p ∈ pending, p.1 ≠ "") {id : String} :
    id ∈ toolIds (settle pending tools).1 ↔ id ∈ pending.map Prod.fst ∧ id ∈ toolIds tools := by
  induction tools generalizing pending with
  | nil => exact ⟨nofun, nofun⟩
  | cons t tools ih =>
    have hcons : ∀ l : List (ToolMessage μ), id ∈ toolIds (t :: l) ↔ id = t.toolCallId ∨ id ∈ toolIds l :=
      fun l => List.mem_cons
    rw [settle, hcons]
    split
    · next h =>
      have hmem := any_pending.1 h.2
      rw [hcons, ih fun p hp => hne p (List.mem_of_mem_filter hp), mem_pending_filter]
      by_cases hid : id = t.toolCallId
      · simp only [hid, hmem, true_or, and_true]
      · simp only [hid, false_or, ne_eq, not_false_eq_true, and_true]
    · next h =>
      rw [ih hne]
      refine and_congr_right fun hp => ?_
      obtain ⟨p, hpmem, rfl⟩ := List.mem_map.1 hp
      have hid : p.1 ≠ t.toolCallId := fun he => h ⟨he ▸ hne p hpmem, any_pending.2 (he ▸ hp)⟩
      rw [or_iff_right hid]

theorem settle_nodup (hne : ∀ p ∈ pending, p.1 ≠ "") : (toolIds (settle pending tools).1).Nodup := by
  induction tools generalizing pending with
  | nil => exact List.nodup_nil
  | cons t tools ih =>
    rw [settle]
    split
    · have hrest : ∀ p ∈ pending.filter (·.1 ≠ t.toolCallId), p.1 ≠ "" := fun p hp => hne p (List.mem_of_mem_filter hp)
      refine List.nodup_cons.2 ⟨fun hmem => ?_, ih hrest⟩
      exact (mem_pending_filter.1 ((mem_settle_kept hrest).1 hmem).1).2 rfl
    · exact ih hne

/-- The first tool message with the id of a call is kept. -/
theorem settle_first {before after : List (ToolMessage μ)} {t : ToolMessage μ} (hne : ∀ p ∈ pending, p.1 ≠ "")
    (hid : t.toolCallId ∈ pending.map Prod.fst) (hfirst : t.toolCallId ∉ toolIds before) :
    t ∈ (settle pending (before ++ t :: after)).1 := by
  induction before generalizing pending with
  | nil =>
    obtain ⟨p, hp, he⟩ := List.mem_map.1 hid
    rw [List.nil_append, settle, if_pos ⟨he ▸ hne p hp, any_pending.2 hid⟩]
    exact List.mem_cons_self
  | cons u before ih =>
    obtain ⟨hu, hfirst⟩ := not_or.1 fun h => hfirst (List.mem_cons.2 h)
    rw [List.cons_append, settle]
    split
    · have hrest : ∀ p ∈ pending.filter (·.1 ≠ u.toolCallId), p.1 ≠ "" := fun p hp => hne p (List.mem_of_mem_filter hp)
      exact List.mem_cons_of_mem u (ih hrest (mem_pending_filter.2 ⟨hid, hu⟩) hfirst)
    · exact ih hne hid hfirst

/-- Answers of their own for all the calls are kept, and no call is left. -/
theorem settle_answered (hne : ∀ p ∈ pending, p.1 ≠ "") (honce : (toolIds tools).Nodup)
    (hids : ∀ id, id ∈ toolIds tools ↔ id ∈ pending.map Prod.fst) : settle pending tools = (tools, []) := by
  have hkept : ∀ (tools : List (ToolMessage μ)) (pending : List (String × String)), (∀ p ∈ pending, p.1 ≠ "") →
      (toolIds tools).Nodup → (∀ id ∈ toolIds tools, id ∈ pending.map Prod.fst) → (settle pending tools).1 = tools := by
    intro tools
    induction tools with
    | nil => exact fun _ _ _ _ => rfl
    | cons t tools ih =>
      intro pending hne honce hsub
      obtain ⟨hnot, honce⟩ := List.nodup_cons.1 honce
      have hid := hsub t.toolCallId List.mem_cons_self
      obtain ⟨p, hp, he⟩ := List.mem_map.1 hid
      rw [settle, if_pos ⟨he ▸ hne p hp, any_pending.2 hid⟩]
      refine congrArg (t :: ·) (ih _ (fun p hp => hne p (List.mem_of_mem_filter hp)) honce fun id hmem => ?_)
      exact mem_pending_filter.2 ⟨hsub id (List.mem_cons_of_mem _ hmem), fun h => hnot (h ▸ hmem)⟩
  refine Prod.ext (hkept tools pending hne honce fun id => (hids id).1) ?_
  rw [settle_left hne, List.filter_eq_nil_iff]
  exact fun p hp => by
    rw [decide_eq_true_eq, not_not, hids]
    exact List.mem_map_of_mem hp

end Settle

/-! ### The sections of the repaired history -/

section Sections

variable {failed} {messages : List (Message μ)} {secs : List (PlainMessage μ × List (ToolMessage μ))}

theorem sections_tools (tools : List (ToolMessage μ)) (messages : List (Message μ)) :
    sections (tools.map .tool ++ messages) = (tools ++ (sections messages).1, (sections messages).2) := by
  induction tools with
  | nil => rfl
  | cons t tools ih => rw [List.map_cons, List.cons_append, sections, ih, List.cons_append]

theorem sections_joined (secs : List (PlainMessage μ × List (ToolMessage μ))) : sections (joined secs) = ([], secs) := by
  induction secs with
  | nil => rfl
  | cons s secs ih =>
    rw [joined, List.flatMap_cons, List.cons_append, sections, sections_tools, ← joined, ih, List.append_nil]

theorem joined_cons (s : PlainMessage μ × List (ToolMessage μ)) :
    joined (s :: secs) = .plain s.1 :: (s.2.map .tool ++ joined secs) := by
  rw [joined, List.flatMap_cons, List.cons_append, ← joined]

theorem flushPending_eq {s : Repair μ} (hne : ∀ p ∈ s.pending, p.1 ≠ "") :
    s.flushPending failed = ⟨s.out ++ (s.pending.map (synthetic failed)).map .tool, [],
      s.repaired ++ s.pending.map Prod.fst⟩ := by
  have hall : s.pending.filter (fun p => p.1 ≠ "") = s.pending :=
    List.filter_eq_self.2 fun p hp => decide_eq_true (hne p hp)
  simp only [Repair.flushPending, hall, List.map_map, Function.comp_def]

/-- From any round on, the tool messages at the start are settled with the pending calls, and then each section. -/
theorem flushPending_foldl {s : Repair μ} (hne : ∀ p ∈ s.pending, p.1 ≠ "") (messages : List (Message μ)) :
    (messages.foldl (Repair.step failed) s).flushPending failed =
      ⟨s.out ++ ((settle s.pending (sections messages).1).1 ++
            (settle s.pending (sections messages).1).2.map (synthetic failed)).map .tool ++
          joined ((sections messages).2.map (repairSection failed)), [],
        s.repaired ++ (settle s.pending (sections messages).1).2.map Prod.fst ++
          (sections messages).2.flatMap fun s => (settled s).2.map Prod.fst⟩ := by
  induction messages generalizing s with
  | nil =>
    rw [List.foldl_nil, flushPending_eq hne]
    simp [sections, settle, joined]
  | cons m messages ih =>
    rw [List.foldl_cons]
    cases m with
    | plain m =>
      rw [ih (s := s.step failed (.plain m)) fun p hp => pendingOf_ne hp, sections, List.map_cons, joined_cons]
      simp only [Repair.step, flushPending_eq hne, settle, repairSection, settled, List.flatMap_cons,
        List.nil_append, List.append_assoc, List.cons_append]
    | tool t =>
      by_cases h : t.toolCallId ≠ "" ∧ s.pending.any (·.1 = t.toolCallId)
      · have hstep : s.step failed (.tool t) = ⟨s.out ++ [.tool t], s.pending.filter (·.1 ≠ t.toolCallId), s.repaired⟩ :=
          if_pos h
        rw [hstep, ih fun p hp => hne p (List.mem_of_mem_filter hp)]
        simp only [sections, settle, if_pos h, List.map_append, List.map_cons, List.append_assoc, List.cons_append,
          List.nil_append]
      · have hstep : s.step failed (.tool t) = s := if_neg h
        rw [hstep, ih hne]
        simp only [sections, settle, if_neg h]

/-- The repaired history is that of the repaired sections. -/
theorem repair_eq (failed : μ) (messages : List (Message μ)) :
    repairUnresolvedToolCalls failed messages = joined ((sections messages).2.map (repairSection failed)) := by
  rw [repairUnresolvedToolCalls, repairRun, flushPending_foldl (fun _ hp => absurd hp List.not_mem_nil), settle_nil]
  rfl

theorem sections_repair (failed : μ) (messages : List (Message μ)) :
    sections (repairUnresolvedToolCalls failed messages) = ([], (sections messages).2.map (repairSection failed)) := by
  rw [repair_eq, sections_joined]

theorem plainMessages_eq (messages : List (Message μ)) : plainMessages messages = (sections messages).2.map Prod.fst := by
  induction messages with
  | nil => rfl
  | cons m messages ih =>
    cases m with
    | plain m => exact congrArg (m :: ·) ih
    | tool t => exact ih

/-! ### The repaired history -/

variable {s : PlainMessage μ × List (ToolMessage μ)}

theorem toolIds_repairSection :
    toolIds (repairSection failed s).2 = toolIds (settled s).1 ++ (callIds s.1).filter fun id => id ∉ toolIds s.2 := by
  have hleft : (settled s).2 = (pendingOf s.1.role.calls).filter fun p => p.1 ∉ toolIds s.2 :=
    settle_left fun p hp => pendingOf_ne hp
  rw [callIds, List.filter_map, repairSection, hleft, toolIds, List.map_append, List.map_map]
  rfl

theorem mem_toolIds_repairSection {id : String} : id ∈ toolIds (repairSection failed s).2 ↔ id ∈ callIds s.1 := by
  have hkept : id ∈ toolIds (settled s).1 ↔ id ∈ callIds s.1 ∧ id ∈ toolIds s.2 :=
    mem_settle_kept fun p hp => pendingOf_ne hp
  rw [toolIds_repairSection, List.mem_append, hkept, List.mem_filter, decide_eq_true_eq]
  tauto

/-- A section gets one message for each id unless an id that is repeated was left without an answer. -/
theorem nodup_repairSection : (toolIds (repairSection failed s).2).Nodup ↔
    ∀ id, 1 < (callIds s.1).count id → id ∈ toolIds s.2 := by
  have hkept : ∀ id, id ∈ toolIds (settled s).1 ↔ id ∈ callIds s.1 ∧ id ∈ toolIds s.2 :=
    fun id => mem_settle_kept fun p hp => pendingOf_ne hp
  have honce : (toolIds (settled s).1).Nodup := settle_nodup fun p hp => pendingOf_ne hp
  have hdisjoint : ∀ a ∈ toolIds (settled s).1, ∀ b ∈ (callIds s.1).filter (fun id => id ∉ toolIds s.2), a ≠ b := by
    intro a ha b hb he
    exact of_decide_eq_true (List.mem_filter.1 hb).2 (he ▸ ((hkept a).1 ha).2)
  have hleft : ∀ id, id ∉ toolIds s.2 →
      ((callIds s.1).filter fun id => id ∉ toolIds s.2).count id = (callIds s.1).count id :=
    fun id hid => List.count_filter (p := fun id => decide (id ∉ toolIds s.2)) (decide_eq_true hid)
  rw [toolIds_repairSection, List.nodup_append]
  constructor
  · rintro ⟨-, hnodup, -⟩ id hcount
    by_contra hid
    have hle := List.nodup_iff_count_le_one.1 hnodup id
    rw [hleft id hid] at hle
    omega
  · refine fun h => ⟨honce, List.nodup_iff_count_le_one.2 fun id => ?_, hdisjoint⟩
    by_cases hid : id ∈ toolIds s.2
    · have hnot : id ∉ (callIds s.1).filter fun id => id ∉ toolIds s.2 :=
        fun hmem => absurd hid (of_decide_eq_true (List.mem_filter.1 hmem).2)
      rw [List.count_eq_zero_of_not_mem hnot]
      exact Nat.zero_le 1
    · rw [hleft id hid]
      exact Nat.le_of_not_lt fun hcount => hid (h id hcount)

theorem wellFormed_repair (failed : μ) (messages : List (Message μ)) :
    WellFormed (repairUnresolvedToolCalls failed messages) ↔ RepeatedAnswered messages := by
  constructor
  · intro h s hs
    refine nodup_repairSection.1 (h.once (repairSection failed s) ?_)
    rw [sections_repair]
    exact List.mem_map_of_mem hs
  · intro h
    refine ⟨by rw [sections_repair], fun s' hs' => ?_, fun s' hs' id => ?_⟩
    · rw [sections_repair] at hs'
      obtain ⟨s, hs, rfl⟩ := List.mem_map.1 hs'
      exact nodup_repairSection.2 (h s hs)
    · rw [sections_repair] at hs'
      obtain ⟨s, hs, rfl⟩ := List.mem_map.1 hs'
      exact mem_toolIds_repairSection

/-- A well-formed history has nothing to repair. -/
theorem repair_of_wellFormed (failed : μ) (h : WellFormed messages) :
    repairUnresolvedToolCalls failed messages = messages := by
  have hjoined : joined (sections messages).2 = messages := by
    have hsplit : ∀ l : List (Message μ), l = (sections l).1.map .tool ++ joined (sections l).2 := by
      intro l
      induction l with
      | nil => rfl
      | cons m l ih =>
        cases m with
        | plain m =>
          rw [sections, joined_cons, ← ih]
          rfl
        | tool t =>
          rw [sections, List.map_cons, List.cons_append, ← ih]
    rw [hsplit messages, sections_tools, sections_joined, h.start]
    rfl
  have hsections : (sections messages).2.map (repairSection failed) = (sections messages).2 := by
    refine (List.map_congr_left fun s hs => ?_).trans (List.map_id _)
    have hsettled : settled s = (s.2, []) := settle_answered (fun p hp => pendingOf_ne hp) (h.once s hs) (h.answered s hs)
    rw [repairSection, hsettled]
    exact Prod.ext rfl (List.append_nil _)
  rw [repair_eq, hsections, hjoined]

/-- The first answers are kept, each after its message. -/
theorem kept_repair (failed : μ) (messages : List (Message μ)) :
    List.Forall₂ Kept (sections messages).2 (sections (repairUnresolvedToolCalls failed messages)).2 := by
  rw [sections_repair, List.forall₂_map_right_iff, List.forall₂_same]
  refine fun s _ => ⟨rfl, fun before t after hs hid hfirst => List.mem_append_left _ ?_⟩
  rw [settled, hs]
  exact settle_first (fun p hp => pendingOf_ne hp) hid hfirst

/-- The repair gives a well-formed history with the other messages and the first answers of the old one, and the same
history when it is made again, exactly if every repeated id has its answer. -/
theorem repair_iff (failed : μ) (messages : List (Message μ)) :
    (WellFormed (repairUnresolvedToolCalls failed messages) ∧
      plainMessages (repairUnresolvedToolCalls failed messages) = plainMessages messages ∧
      List.Forall₂ Kept (sections messages).2 (sections (repairUnresolvedToolCalls failed messages)).2 ∧
      repairUnresolvedToolCalls failed (repairUnresolvedToolCalls failed messages) =
        repairUnresolvedToolCalls failed messages) ↔ RepeatedAnswered messages := by
  constructor
  · exact fun h => (wellFormed_repair failed messages).1 h.1
  · intro h
    have hwell := (wellFormed_repair failed messages).2 h
    refine ⟨hwell, ?_, kept_repair failed messages, repair_of_wellFormed failed hwell⟩
    rw [plainMessages_eq, plainMessages_eq, sections_repair, List.map_map]
    rfl

/-- Two calls of one id get two messages, and the next repair drops one of them. -/
theorem repair_repeated :
    let messages : List (Message String) := [.plain ⟨.ai [⟨some "a", some "f"⟩, ⟨some "a", some "g"⟩], ""⟩]
    ¬ WellFormed (repairUnresolvedToolCalls "failed" messages) ∧
      repairUnresolvedToolCalls "failed" (repairUnresolvedToolCalls "failed" messages) ≠
        repairUnresolvedToolCalls "failed" messages := by
  refine ⟨fun h => ?_, by decide⟩
  have hanswered := (wellFormed_repair "failed" _).1 h _ List.mem_cons_self "a" (by decide)
  cases hanswered

end Sections

end Model

end NexusStudio.MessageHygiene
