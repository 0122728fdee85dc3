import NexusStudio.Turn.MessageHygiene

/-!
# The outgoing messages of a model step

`build_params` repairs the history only where `has_unresolved_tool_calls` finds a call without an answer, and takes the
tool messages that answer no call out of it.

* (passes) The detector, the sanitizer and the validator, each with a set of pending ids of its own.
* (sections) The detector looks for a call that is open before a human message or at the end (`hasUnresolved_iff`), the
  sanitizer keeps the first answers of each section (`sections_sanitize`).
* (outgoing) The list that goes out is the repaired one and has all answers exactly if the calls have ids and, where one
  is open, one that the detector looks for is.
-/

namespace NexusStudio.MessageHygiene

section Passes

variable {μ : Type} (failed : μ)

/-! ### The passes -/

/-- The loop of `has_unresolved_tool_calls`; a set of ids is kept as a list. -/
def unresolvedFrom : List String → List (Message μ) → Bool
  | pending, [] => pending ≠ []
  | pending, .tool t :: messages => unresolvedFrom (pending.filter (· ≠ t.toolCallId)) messages
  | pending, .plain m :: messages =>
    match m.role with
    | .ai _ => unresolvedFrom (callIds m) messages
    | .human => if pending ≠ [] then true else unresolvedFrom [] messages
    | .system => unresolvedFrom [] messages

def hasUnresolvedToolCalls (messages : List (Message μ)) : Bool := unresolvedFrom [] messages

/-- One round of the loop of `sanitize_tool_pairs`: the messages so far and the pending ids. -/
def sanitizeStep (s : List (Message μ) × List String) : Message μ → List (Message μ) × List String
  | .plain m => (s.1 ++ [.plain m], callIds m)
  | .tool t =>
    if t.toolCallId ≠ "" ∧ t.toolCallId ∈ s.2 then (s.1 ++ [.tool t], s.2.filter (· ≠ t.toolCallId)) else s

def sanitizeToolPairs (messages : List (Message μ)) : List (Message μ) := (messages.foldl sanitizeStep ([], [])).1

/-- The loop of `validate_openai_messages`. -/
def validateFrom : List String → List (Message μ) → Except String Unit
  | _, [] => .ok ()
  | _, .plain m :: messages => validateFrom (callIds m) messages
  | pending, .tool t :: messages =>
    if t.toolCallId = "" ∨ t.toolCallId ∉ pending then
      .error ("orphan OpenAI tool message: tool_call_id=" ++ t.toolCallId)
    else validateFrom pending messages

/-- The messages that `build_params` sends. -/
def buildParams (messages : List (Message μ)) : Except String (List (Message μ)) :=
  let cleaned := if hasUnresolvedToolCalls messages then repairUnresolvedToolCalls failed messages else messages
  let cleaned := sanitizeToolPairs cleaned
  (validateFrom [] cleaned).map fun _ => cleaned

/-! ### Open calls -/

/-- A call of the message has no answer in the section. -/
def Open (s : PlainMessage μ × List (ToolMessage μ)) : Prop := ∃ id ∈ callIds s.1, id ∉ toolIds s.2

instance (s : PlainMessage μ × List (ToolMessage μ)) : Decidable (Open s) :=
  inferInstanceAs (Decidable (∃ id ∈ callIds s.1, id ∉ toolIds s.2))

/-- The history ends here or goes on with a human message. -/
def endsTurn : List (PlainMessage μ × List (ToolMessage μ)) → Bool
  | [] => true
  | s :: _ => s.1.role = .human

/-- A call is open before a human message or at the end. -/
def Noticed : List (PlainMessage μ × List (ToolMessage μ)) → Prop
  | [] => False
  | s :: secs => Open s ∧ endsTurn secs ∨ Noticed secs

/-- Every call of an assistant message has an id. -/
def Identified (messages : List (Message μ)) : Prop :=
  ∀ s ∈ (sections messages).2, ∀ c ∈ s.1.role.calls, ∃ id, c.id = some id ∧ id ≠ ""

/-- Every call of an assistant message is answered before the next message that is no tool message. -/
def AllAnswered (messages : List (Message μ)) : Prop :=
  ∀ s ∈ (sections messages).2, ∀ c ∈ s.1.role.calls, ∃ t ∈ s.2, c.id = some t.toolCallId

/-! ### The detector -/

variable {failed} {messages : List (Message μ)} {s : PlainMessage μ × List (ToolMessage μ)}

theorem filter_toolIds_ne_nil {pending : List String} {tools : List (ToolMessage μ)} :
    (pending.filter fun id => id ∉ toolIds tools) ≠ [] ↔ ∃ id ∈ pending, id ∉ toolIds tools := by
  simp only [ne_eq, List.filter_eq_nil_iff, decide_eq_true_eq, not_forall, not_not, exists_prop]

theorem exists_pending {pending : List String} :
    (∃ id ∈ pending, id ∉ toolIds ([] : List (ToolMessage μ))) ↔ pending ≠ [] := by
  constructor
  · rintro ⟨id, hid, -⟩
    exact List.ne_nil_of_mem hid
  · intro h
    obtain ⟨id, hid⟩ := List.exists_mem_of_ne_nil pending h
    exact ⟨id, hid, List.not_mem_nil⟩

/-- What is pending counts at the end of the tool messages, if the turn ends there. -/
theorem unresolvedFrom_iff (pending : List String) (messages : List (Message μ)) :
    unresolvedFrom pending messages = true ↔
      ((∃ id ∈ pending, id ∉ toolIds (sections messages).1) ∧ endsTurn (sections messages).2) ∨
        Noticed (sections messages).2 := by
  induction messages generalizing pending with
  | nil =>
    simp only [unresolvedFrom, sections, endsTurn, Noticed, decide_eq_true_eq, exists_pending, and_true, or_false]
  | cons m messages ih =>
    cases m with
    | tool t =>
      have hcons : (∃ id ∈ pending, id ∉ toolIds (t :: (sections messages).1)) ↔
          ∃ id ∈ pending.filter (· ≠ t.toolCallId), id ∉ toolIds (sections messages).1 := by
        refine exists_congr fun id => ?_
        simp only [toolIds, List.map_cons, List.mem_cons, not_or, List.mem_filter, decide_eq_true_eq, and_assoc, ne_eq]
      rw [unresolvedFrom, ih, sections, hcons]
    | plain m =>
      have hnone : ∀ calls, m.role = calls → calls.calls = [] →
          (unresolvedFrom [] messages = true ↔ Noticed ((m, (sections messages).1) :: (sections messages).2)) := by
        intro calls hrole hcalls
        have hids : callIds m = [] := by rw [callIds, hrole, hcalls]; rfl
        rw [ih, Noticed, Open, hids]
      rw [sections, exists_pending]
      cases hrole : m.role with
      | system =>
        have hends : endsTurn ((m, (sections messages).1) :: (sections messages).2) = false := by
          rw [endsTurn, hrole]
          rfl
        simp only [unresolvedFrom, hrole, hends, Bool.false_eq_true, and_false, false_or]
        exact hnone .system hrole rfl
      | human =>
        have hends : endsTurn ((m, (sections messages).1) :: (sections messages).2) = true := by
          rw [endsTurn, hrole]
          rfl
        simp only [unresolvedFrom, hrole, hends, and_true]
        by_cases hpending : pending = []
        · rw [if_neg (not_not.2 hpending), hnone .human hrole rfl, or_iff_right (not_not.2 hpending)]
        · rw [if_pos hpending]
          exact iff_of_true rfl (.inl hpending)
      | ai calls =>
        have hends : endsTurn ((m, (sections messages).1) :: (sections messages).2) = false := by
          rw [endsTurn, hrole]
          rfl
        simp only [unresolvedFrom, hrole, hends, Bool.false_eq_true, and_false, false_or]
        rw [ih, Noticed, Open]

theorem hasUnresolved_iff : hasUnresolvedToolCalls messages = true ↔ Noticed (sections messages).2 := by
  rw [hasUnresolvedToolCalls, unresolvedFrom_iff, or_iff_right fun h => ?_]
  obtain ⟨⟨id, hid, -⟩, -⟩ := h
  exact List.not_mem_nil hid

/-- The repair inserts a message exactly if a call is open. -/
theorem repaired_iff : (repairRun failed messages).repaired ≠ [] ↔ ∃ s ∈ (sections messages).2, Open s := by
  have hleft : ∀ s : PlainMessage μ × List (ToolMessage μ), (settled s).2.map Prod.fst =
      (callIds s.1).filter fun id => id ∉ toolIds s.2 := by
    intro s
    rw [settled, settle_left fun p hp => pendingOf_ne hp, callIds, List.filter_map]
    rfl
  rw [repairRun, flushPending_foldl fun _ hp => absurd hp List.not_mem_nil, settle_nil]
  simp only [List.map_nil, List.nil_append, ne_eq, List.flatMap_eq_nil_iff, not_forall, hleft]
  exact exists_congr fun s => by rw [exists_prop, ← ne_eq, filter_toolIds_ne_nil, Open]

/-! ### The sanitizer -/

/-- A section with the first answers of its calls. -/
def keptSection (s : PlainMessage μ × List (ToolMessage μ)) : PlainMessage μ × List (ToolMessage μ) :=
  (s.1, (settled s).1)

theorem foldl_sanitizeStep {pending : List (String × String)} (hne : ∀ p ∈ pending, p.1 ≠ "")
    (out messages : List (Message μ)) :
    (messages.foldl sanitizeStep (out, pending.map Prod.fst)).1 =
      out ++ (settle pending (sections messages).1).1.map .tool ++ joined ((sections messages).2.map keptSection) := by
  induction messages generalizing out pending with
  | nil => simp [sections, settle, joined]
  | cons m messages ih =>
    rw [List.foldl_cons]
    cases m with
    | plain m =>
      have hstep : sanitizeStep (out, pending.map Prod.fst) (.plain m) =
          (out ++ [.plain m], (pendingOf m.role.calls).map Prod.fst) := rfl
      rw [hstep, ih fun p hp => pendingOf_ne hp, sections, List.map_cons, joined_cons]
      simp only [settle, keptSection, settled, List.map_nil, List.append_nil, List.append_assoc, List.cons_append,
        List.nil_append]
    | tool t =>
      by_cases h : t.toolCallId ≠ "" ∧ pending.any (·.1 = t.toolCallId)
      · have hids : (pending.map Prod.fst).filter (· ≠ t.toolCallId) =
            (pending.filter (·.1 ≠ t.toolCallId)).map Prod.fst := by rw [List.filter_map]; rfl
        have hstep : sanitizeStep (out, pending.map Prod.fst) (.tool t) =
            (out ++ [.tool t], (pending.map Prod.fst).filter (· ≠ t.toolCallId)) := if_pos ⟨h.1, any_pending.1 h.2⟩
        rw [hstep, hids, ih fun p hp => hne p (List.mem_of_mem_filter hp)]
        simp only [sections, settle, if_pos h, List.map_cons, List.append_assoc, List.cons_append, List.nil_append]
      · have hstep : sanitizeStep (out, pending.map Prod.fst) (.tool t) = (out, pending.map Prod.fst) :=
          if_neg fun h' => h ⟨h'.1, any_pending.2 h'.2⟩
        rw [hstep, ih hne]
        simp only [sections, settle, if_neg h]

theorem sanitize_eq (messages : List (Message μ)) :
    sanitizeToolPairs messages = joined ((sections messages).2.map keptSection) := by
  have hfold := @foldl_sanitizeStep _ [] (fun _ hp => absurd hp List.not_mem_nil) [] messages
  rwa [List.map_nil, settle_nil, List.map_nil, List.append_nil, List.nil_append] at hfold

theorem sections_sanitize (messages : List (Message μ)) :
    sections (sanitizeToolPairs messages) = ([], (sections messages).2.map keptSection) := by
  rw [sanitize_eq, sections_joined]

theorem mem_toolIds_keptSection {id : String} :
    id ∈ toolIds (keptSection s).2 ↔ id ∈ callIds s.1 ∧ id ∈ toolIds s.2 :=
  mem_settle_kept fun _ hp => pendingOf_ne hp

/-- The validator refuses nothing that the sanitizer leaves. -/
theorem validateFrom_ok {pending : List String} (hstart : ∀ t ∈ (sections messages).1, t.toolCallId ≠ "" ∧
      t.toolCallId ∈ pending)
    (hsections : ∀ s ∈ (sections messages).2, ∀ t ∈ s.2, t.toolCallId ≠ "" ∧ t.toolCallId ∈ callIds s.1) :
    validateFrom pending messages = .ok () := by
  induction messages generalizing pending with
  | nil => rfl
  | cons m messages ih =>
    cases m with
    | plain m =>
      exact ih (hsections (m, (sections messages).1) List.mem_cons_self)
        fun s hs => hsections s (List.mem_cons_of_mem _ hs)
    | tool t =>
      obtain ⟨hne, hmem⟩ := hstart t List.mem_cons_self
      rw [validateFrom, if_neg fun h => h.elim hne fun hnot => hnot hmem]
      exact ih (fun u hu => hstart u (List.mem_cons_of_mem t hu)) hsections

theorem validateFrom_sanitize (messages : List (Message μ)) : validateFrom [] (sanitizeToolPairs messages) = .ok () := by
  refine validateFrom_ok (fun t ht => ?_) fun s hs t ht => ?_
  · rw [sections_sanitize] at ht
    exact absurd ht List.not_mem_nil
  · rw [sections_sanitize] at hs
    obtain ⟨s, -, rfl⟩ := List.mem_map.1 hs
    have hid := (mem_toolIds_keptSection.1 (List.mem_map_of_mem ht)).1
    obtain ⟨p, hp, he⟩ := List.mem_map.1 hid
    exact ⟨he ▸ pendingOf_ne hp, hid⟩

theorem buildParams_eq (failed : μ) (messages : List (Message μ)) :
    buildParams failed messages = .ok (sanitizeToolPairs
      (if hasUnresolvedToolCalls messages then repairUnresolvedToolCalls failed messages else messages)) := by
  simp only [buildParams, validateFrom_sanitize, Except.map]

/-! ### The outgoing list -/

/-- Without an open call the sanitizer does what the repair and the sanitizer do. -/
theorem sanitize_repair_of_closed (failed : μ) (h : ∀ s ∈ (sections messages).2, ¬ Open s) :
    sanitizeToolPairs (repairUnresolvedToolCalls failed messages) = sanitizeToolPairs messages := by
  rw [sanitize_eq, sanitize_eq, sections_repair, List.map_map]
  refine congrArg joined (List.map_congr_left fun s hs => ?_)
  have hne : ∀ p ∈ pendingOf s.1.role.calls, p.1 ≠ "" := fun p hp => pendingOf_ne hp
  have hclosed : ∀ id ∈ callIds s.1, id ∈ toolIds s.2 := by
    intro id hid
    by_contra hnot
    exact h s hs ⟨id, hid, hnot⟩
  have hleft : (settled s).2 = [] := by
    rw [settled, settle_left hne, List.filter_eq_nil_iff]
    intro p hp
    rw [decide_eq_true_eq, not_not]
    exact hclosed p.1 (List.mem_map_of_mem hp)
  have hrepair : repairSection failed s = keptSection s := by
    rw [repairSection, hleft, List.map_nil, List.append_nil, keptSection]
  have hagain : settled (keptSection s) = ((settled s).1, []) := by
    refine settle_answered hne (settle_nodup hne) fun id => ?_
    exact (mem_settle_kept hne).trans (and_iff_left_of_imp (hclosed id))
  rw [Function.comp_apply, hrepair, keptSection, hagain]
  rfl

/-- After the repair every call with an id has its answer. -/
theorem allAnswered_sanitize_repair (failed : μ) (messages : List (Message μ)) :
    AllAnswered (sanitizeToolPairs (repairUnresolvedToolCalls failed messages)) ↔ Identified messages := by
  have hmem : ∀ (s : PlainMessage μ × List (ToolMessage μ)) (id : String),
      id ∈ toolIds (keptSection (repairSection failed s)).2 ↔ id ∈ callIds s.1 := by
    intro s id
    rw [mem_toolIds_keptSection, mem_toolIds_repairSection]
    exact and_self_iff
  have hcall : ∀ (s : PlainMessage μ × List (ToolMessage μ)), ∀ c ∈ s.1.role.calls,
      (∃ t ∈ (keptSection (repairSection failed s)).2, c.id = some t.toolCallId) ↔ ∃ id, c.id = some id ∧ id ≠ "" := by
    intro s c hc
    constructor
    · rintro ⟨t, ht, hid⟩
      obtain ⟨p, hp, he⟩ := List.mem_map.1 ((hmem s t.toolCallId).1 (List.mem_map_of_mem ht))
      exact ⟨t.toolCallId, hid, he ▸ pendingOf_ne hp⟩
    · rintro ⟨id, hid, hne⟩
      have hpending : (id, c.name.getD "") ∈ pendingOf s.1.role.calls := by
        have hfilter : (some id).filter (fun id => decide (id ≠ "")) = some id :=
          if_pos (decide_eq_true hne)
        refine List.mem_filterMap.2 ⟨c, hc, ?_⟩
        rw [hid, hfilter]
        rfl
      obtain ⟨t, ht, he⟩ := List.mem_map.1 ((hmem s id).2 (List.mem_map_of_mem (f := Prod.fst) hpending))
      exact ⟨t, ht, he ▸ hid⟩
  rw [AllAnswered, Identified, sections_sanitize, sections_repair, List.map_map]
  simp only [List.forall_mem_map, Function.comp_apply]
  exact forall₂_congr fun s _ => forall₂_congr fun c hc => hcall s c hc

/-- What goes out is the repaired list, the detector tells what the repair would insert, and every call has its answer
exactly if every call has an id and, where one is open, one is open before a human message or at the end. -/
theorem buildParams_iff (failed : μ) (messages : List (Message μ)) :
    (buildParams failed messages = .ok (sanitizeToolPairs (repairUnresolvedToolCalls failed messages)) ∧
      (hasUnresolvedToolCalls messages = true ↔ (repairRun failed messages).repaired ≠ []) ∧
      ∀ out, buildParams failed messages = .ok out → AllAnswered out) ↔
    Identified messages ∧ ((∃ s ∈ (sections messages).2, Open s) → Noticed (sections messages).2) := by
  have hfound : hasUnresolvedToolCalls messages = true → ∃ s ∈ (sections messages).2, Open s := by
    have hsome : ∀ secs : List (PlainMessage μ × List (ToolMessage μ)), Noticed secs → ∃ s ∈ secs, Open s := by
      intro secs
      induction secs with
      | nil => exact False.elim
      | cons s secs ih =>
        rintro (⟨hopen, -⟩ | h)
        · exact ⟨s, List.mem_cons_self, hopen⟩
        · obtain ⟨s', hs', hopen⟩ := ih h
          exact ⟨s', List.mem_cons_of_mem s hs', hopen⟩
    exact fun h => hsome _ (hasUnresolved_iff.1 h)
  have hout : ((∃ s ∈ (sections messages).2, Open s) → hasUnresolvedToolCalls messages = true) →
      buildParams failed messages = .ok (sanitizeToolPairs (repairUnresolvedToolCalls failed messages)) := by
    intro h
    rw [buildParams_eq]
    by_cases hdetected : hasUnresolvedToolCalls messages = true
    · rw [if_pos hdetected]
    · rw [if_neg hdetected, sanitize_repair_of_closed failed fun s hs hopen => hdetected (h ⟨s, hs, hopen⟩)]
  rw [repaired_iff]
  constructor
  · rintro ⟨heq, hdetector, hanswered⟩
    exact ⟨(allAnswered_sanitize_repair failed messages).1 (hanswered _ heq),
      fun h => hasUnresolved_iff.1 (hdetector.2 h)⟩
  · rintro ⟨hids, hnoticed⟩
    have heq := hout fun h => hasUnresolved_iff.2 (hnoticed h)
    refine ⟨heq, ⟨hfound, fun h => hasUnresolved_iff.2 (hnoticed h)⟩, fun out hsent => ?_⟩
    cases heq.symm.trans hsent
    exact (allAnswered_sanitize_repair failed messages).2 hids

/-- A call that is open before a system message goes out without an answer. -/
theorem buildParams_open :
    let messages : List (Message String) := [.plain ⟨.ai [⟨some "a", some "f"⟩], ""⟩, .plain ⟨.system, "s"⟩]
    buildParams "failed" messages = .ok messages ∧ hasUnresolvedToolCalls messages = false ∧
      (repairRun "failed" messages).repaired = ["a"] ∧ ¬ AllAnswered messages := by
  refine ⟨by decide, by decide, by decide, fun h => ?_⟩
  obtain ⟨t, ht, -⟩ := h _ List.mem_cons_self _ List.mem_cons_self
  exact List.not_mem_nil ht

end Passes

end NexusStudio.MessageHygiene
