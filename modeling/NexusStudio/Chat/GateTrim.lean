import NexusStudio.Turn.MessageHygiene

/-!
# Dropping a cancelled gate call

When a user gate is cancelled, `trim_gate_interrupt_messages` drops the step with the call of `request_user_gate` from
the checkpoint.

* (guard) `GateSoloBatchMiddleware` lets a gate call through to the tools only as the only call of its step, and answers
  all calls of another step with a gate call itself (`solo_of_goOn`, `wellFormed_jump`).
* (trim) The step is dropped if one result stands after it at most, which is all that a call on its own can have.
-/

namespace NexusStudio.GateTrim

open MessageHygiene

variable {μ : Type}

def GATE_SOLO_TOOL : String := "request_user_gate"

def SOLO_TOOLS : List String := [GATE_SOLO_TOOL, "propose_upgrade_and_invite"]

def nameOf (c : Call) : String := c.name.getD ""

/-! ### The guard -/

/-- `batch_violation`. -/
def batchViolation (toolCalls : List Call) : Bool :=
  if toolCalls.any fun c => nameOf c ∈ SOLO_TOOLS then
    if toolCalls.length ≠ 1 then true else toolCalls.head?.any fun c => nameOf c ∉ SOLO_TOOLS
  else false

/-- The calls of the latest assistant message, in a history from its end. -/
def latestCalls : List (Message μ) → List Call
  | [] => []
  | .plain ⟨.ai toolCalls, _⟩ :: _ => toolCalls
  | _ :: l => latestCalls l

/-- The calls of the last step; `last_ai_message_with_tool_calls` finds a message exactly if there are some. -/
def lastCalls (messages : List (Message μ)) : List Call := latestCalls messages.reverse

/-- `synthesize_batch_error_tool_messages`. -/
def synthesizeBatchErrorToolMessages (failed : μ) (toolCalls : List Call) : List (ToolMessage μ) :=
  (pendingOf toolCalls).map fun p => ⟨failed, p.1, some p.2⟩

/-- What the guard does after the model: the tools are called, or the model again. -/
inductive AfterModel (μ : Type)
  | goOn
  | jump (messages : List (Message μ))
  deriving DecidableEq, Repr

/-- `after_model`. -/
def afterModel (failed : μ) (messages : List (Message μ)) : AfterModel μ :=
  if batchViolation (lastCalls messages) then
    .jump (messages ++ (synthesizeBatchErrorToolMessages failed (lastCalls messages)).map .tool)
  else .goOn

/-! ### The trim -/

/-- One of the calls is a gate call. -/
def gateCalled (toolCalls : List Call) : Bool := toolCalls.any fun c => nameOf c = GATE_SOLO_TOOL

/-- The tool message has the id of a call. -/
def answers (t : ToolMessage μ) (toolCalls : List Call) : Bool :=
  t.toolCallId ∈ toolCalls.map fun c => c.id.getD ""

/-- `trim_gate_interrupt_messages`, by the last messages. -/
def trimGateInterruptMessages (messages : List (Message μ)) : List (Message μ) :=
  match messages.reverse with
  | .tool last :: .plain ⟨.ai toolCalls, _⟩ :: rest =>
    if gateCalled toolCalls ∧ answers last toolCalls then rest.reverse else messages
  | .plain ⟨.ai toolCalls, _⟩ :: rest => if gateCalled toolCalls then rest.reverse else messages
  | _ => messages

/-- The history of a step: the messages before it, its message, and the results so far. -/
def history (before : List (Message μ)) (m : PlainMessage μ) (results : List (ToolMessage μ)) : List (Message μ) :=
  before ++ .plain m :: results.map .tool

/-- All calls before the step have their answers, the step has a gate call, and some of its calls have a result. -/
structure GateStep (before : List (Message μ)) (m : PlainMessage μ) (results : List (ToolMessage μ)) : Prop where
  answered : WellFormed before
  gate : gateCalled m.role.calls = true
  once : (toolIds results).Nodup
  ofCalls : ∀ id ∈ toolIds results, id ∈ callIds m

/-! ### Steps that the guard lets through -/

section Guard

variable {failed : μ} {before messages messages' : List (Message μ)} {m : PlainMessage μ}
  {results : List (ToolMessage μ)} {toolCalls : List Call}

theorem lastCalls_concat (before : List (Message μ)) (m : PlainMessage μ) (h : m.role.calls ≠ []) :
    lastCalls (before ++ [.plain m]) = m.role.calls := by
  obtain ⟨role, content⟩ := m
  rw [lastCalls, List.reverse_append, List.reverse_singleton, List.singleton_append]
  cases role with
  | ai toolCalls => rfl
  | system | human => exact absurd rfl h

theorem calls_ne_nil (h : gateCalled toolCalls = true) : toolCalls ≠ [] := by
  rintro rfl
  cases h

/-- A gate call that the guard lets through is the only call of its step. -/
theorem solo_of_goOn (hgate : gateCalled m.role.calls = true) (h : afterModel failed (before ++ [.plain m]) = .goOn) :
    m.role.calls.length = 1 := by
  unfold afterModel at h
  rw [lastCalls_concat before m (calls_ne_nil hgate)] at h
  split at h
  · cases h
  · next hviolation =>
    unfold batchViolation at hviolation
    have hsolo : (m.role.calls.any fun c => nameOf c ∈ SOLO_TOOLS) = true := by
      obtain ⟨c, hc, hname⟩ := List.any_eq_true.1 hgate
      refine List.any_eq_true.2 ⟨c, hc, decide_eq_true ?_⟩
      rw [of_decide_eq_true hname]
      exact List.mem_cons_self
    rw [if_pos hsolo] at hviolation
    by_contra hlength
    exact hviolation (if_pos hlength)

theorem length_callIds_le (m : PlainMessage μ) : (callIds m).length ≤ m.role.calls.length := by
  unfold callIds pendingOf
  rw [List.length_map]
  exact List.length_filterMap_le _ _

/-- A step on its own has one result at most. -/
theorem length_of_solo (h : GateStep before m results) (hsolo : m.role.calls.length = 1) : results.length ≤ 1 := by
  have hsub : toolIds results ⊆ callIds m := fun id hid => h.ofCalls id hid
  have hle := (List.subperm_of_subset h.once hsub).length_le
  unfold toolIds at hle
  rw [List.length_map] at hle
  exact hle.trans ((length_callIds_le m).trans_eq hsolo)

theorem sections_history (before : List (Message μ)) (m : PlainMessage μ) (results : List (ToolMessage μ)) :
    sections (history before m results) = ((sections before).1, (sections before).2 ++ [(m, results)]) := by
  unfold history
  induction before with
  | nil =>
    have htools := sections_tools results []
    rw [List.append_nil] at htools
    change ([], (m, (sections (results.map Message.tool)).1) :: (sections (results.map Message.tool)).2) = _
    rw [htools, sections, List.append_nil]
    rfl
  | cons a before ih =>
    cases a with
    | plain a => rw [List.cons_append, sections, ih, sections, List.cons_append]
    | tool t => rw [List.cons_append, sections, ih, sections]

/-- With an answer for each of its calls a step goes on a well-formed history. -/
theorem wellFormed_history (hbefore : WellFormed before) (honce : (toolIds results).Nodup)
    (hanswered : ∀ id, id ∈ toolIds results ↔ id ∈ callIds m) : WellFormed (history before m results) := by
  have hsections := sections_history before m results
  refine ⟨?_, ?_, ?_⟩
  · rw [hsections]
    exact hbefore.start
  · rw [hsections]
    intro s hs
    rcases List.mem_append.1 hs with hs | hs
    · exact hbefore.once s hs
    · rw [List.mem_singleton.1 hs]
      exact honce
  · rw [hsections]
    intro s hs
    rcases List.mem_append.1 hs with hs | hs
    · exact hbefore.answered s hs
    · rw [List.mem_singleton.1 hs]
      exact hanswered

/-- A step that the guard turns away has its answers at once. -/
theorem wellFormed_jump (hbefore : WellFormed before) (hgate : gateCalled m.role.calls = true)
    (honce : (callIds m).Nodup) (h : afterModel failed (before ++ [.plain m]) = .jump messages') :
    WellFormed messages' := by
  unfold afterModel at h
  rw [lastCalls_concat before m (calls_ne_nil hgate)] at h
  split at h
  · cases h
    have hids : toolIds (synthesizeBatchErrorToolMessages failed m.role.calls) = callIds m := by
      unfold toolIds synthesizeBatchErrorToolMessages callIds
      rw [List.map_map]
      rfl
    have hwell : WellFormed (history before m (synthesizeBatchErrorToolMessages failed m.role.calls)) :=
      wellFormed_history hbefore (by rwa [hids]) fun id => by rw [hids]
    rw [List.append_assoc]
    exact hwell
  · cases h

end Guard

/-! ### Trimmed histories -/

section Trim

variable {before messages : List (Message μ)} {m : PlainMessage μ} {results : List (ToolMessage μ)}
  {t : ToolMessage μ} {toolCalls : List Call}

/-- A result of a call has its id. -/
theorem answers_of_mem (h : t.toolCallId ∈ callIds m) : answers t m.role.calls = true := by
  obtain ⟨p, hp, hid⟩ := List.mem_map.1 h
  obtain ⟨c, hc, hpending⟩ := List.mem_filterMap.1 hp
  obtain ⟨id, hsome, rfl⟩ := Option.map_eq_some_iff.1 hpending
  have hcall : c.id = some id := (Option.filter_eq_some_iff.1 hsome).1
  refine decide_eq_true (List.mem_map.2 ⟨c, hc, ?_⟩)
  rw [hcall, ← hid]
  rfl

theorem role_of_gate (h : gateCalled m.role.calls = true) : m.role = .ai m.role.calls := by
  obtain ⟨role, content⟩ := m
  cases role with
  | ai toolCalls => rfl
  | system | human => cases h

/-- A step with a gate call is dropped with its only result, or with none; with more of them it stays. -/
theorem trim_history (h : GateStep before m results) :
    trimGateInterruptMessages (history before m results) =
      if results.length ≤ 1 then before else history before m results := by
  have hgate := h.gate
  have hof := h.ofCalls
  have hrole := role_of_gate hgate
  obtain ⟨role, content⟩ := m
  obtain ⟨toolCalls, rfl⟩ : ∃ toolCalls, role = .ai toolCalls := ⟨_, hrole⟩
  have hreverse : (history before ⟨.ai toolCalls, content⟩ results).reverse =
      results.reverse.map .tool ++ .plain ⟨.ai toolCalls, content⟩ :: before.reverse := by
    unfold history
    simp
  unfold trimGateInterruptMessages
  rw [hreverse]
  cases hresults : results.reverse with
  | nil =>
    rw [List.reverse_eq_nil_iff.1 hresults]
    exact (if_pos hgate).trans (List.reverse_reverse before)
  | cons last rest =>
    obtain rfl : results = (last :: rest).reverse := by rw [← hresults, List.reverse_reverse]
    cases rest with
    | nil =>
      have hanswers : answers last toolCalls = true :=
        answers_of_mem (m := ⟨.ai toolCalls, content⟩) (hof _ List.mem_cons_self)
      exact (if_pos ⟨hgate, hanswers⟩).trans (List.reverse_reverse before)
    | cons other rest =>
      rw [if_neg (by simp)]
      rfl

/-- A history whose last step has no gate call stays as it is. -/
theorem trim_of_not_called (h : gateCalled (lastCalls messages) = false) :
    trimGateInterruptMessages messages = messages := by
  unfold lastCalls at h
  unfold trimGateInterruptMessages
  split
  · next heq =>
    rw [heq] at h
    exact if_neg fun hboth => Bool.false_ne_true (h.symm.trans hboth.1)
  · next heq =>
    rw [heq] at h
    exact if_neg fun hgate => Bool.false_ne_true (h.symm.trans hgate)
  · rfl

/-- With one result at most, and so wherever the guard has let the gate call through, the trim gives the history before
the step, which is well formed. A step with more results and a history without a gate call in its last step stay. -/
theorem gate_trim_law (failed : μ) :
    (∀ before (m : PlainMessage μ) results, GateStep before m results →
      (results.length ≤ 1 → trimGateInterruptMessages (history before m results) = before ∧
        WellFormed (trimGateInterruptMessages (history before m results))) ∧
      (1 < results.length → trimGateInterruptMessages (history before m results) = history before m results) ∧
      (afterModel failed (before ++ [.plain m]) = .goOn → results.length ≤ 1)) ∧
    ∀ messages : List (Message μ), gateCalled (lastCalls messages) = false →
      trimGateInterruptMessages messages = messages := by
  refine ⟨fun before m results h => ⟨fun hone => ?_, fun hmore => ?_, fun hguard => ?_⟩, fun messages h => ?_⟩
  · have htrim : trimGateInterruptMessages (history before m results) = before := by
      rw [trim_history h, if_pos hone]
    rw [htrim]
    exact ⟨rfl, h.answered⟩
  · rw [trim_history h, if_neg (Nat.not_le.2 hmore)]
  · exact length_of_solo h (solo_of_goOn h.gate hguard)
  · exact trim_of_not_called h

/-- A gate call and another one. -/
def batch : PlainMessage String := ⟨.ai [⟨some "a", some "request_user_gate"⟩, ⟨some "b", some "web_search"⟩], ""⟩

/-- The gate call alone. -/
def solo : PlainMessage String := ⟨.ai [⟨some "a", some "request_user_gate"⟩], ""⟩

def question : Message String := .plain ⟨.human, "log in"⟩

/-- The guard has answered both calls, and the trim leaves them. -/
theorem batch_kept :
    GateStep [question] batch [⟨"failed", "a", some "request_user_gate"⟩, ⟨"failed", "b", some "web_search"⟩] ∧
      ¬ trimGateInterruptMessages (history [question] batch
        [⟨"failed", "a", some "request_user_gate"⟩, ⟨"failed", "b", some "web_search"⟩]) <+: [question] := by
  refine ⟨⟨⟨rfl, by decide, ?_⟩, by decide, by decide, by decide⟩, by decide⟩
  intro s hs id
  rw [List.mem_singleton.1 hs]
  exact Iff.rfl

/-- A cancelled gate call is dropped with its result. -/
theorem solo_dropped :
    trimGateInterruptMessages (history [question] solo [⟨"cancelled", "a", some "request_user_gate"⟩]) = [question] ∧
      WellFormed (trimGateInterruptMessages
        (history [question] solo [⟨"cancelled", "a", some "request_user_gate"⟩])) := by
  refine ((gate_trim_law "failed").1 [question] solo _ ⟨⟨rfl, by decide, ?_⟩, by decide, by decide, by decide⟩).1 ?_
  · intro s hs id
    rw [List.mem_singleton.1 hs]
    exact Iff.rfl
  · exact Nat.le_refl 1

end Trim

end NexusStudio.GateTrim
