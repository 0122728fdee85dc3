import NexusStudio.Turn.Events
import Mathlib.Data.List.Nodup
import Mathlib.Data.List.Perm.Basic
import Mathlib.Data.List.Sort

/-!
# Tool calls of a model step

`run_agent_turn_stream` registers the tool calls of a step in a `ToolCallRegistry`, and finds for every start and end
of a tool in the events of the graph the call that it belongs to.

* (dedupe) `_dedupe_tool_calls` drops repeated calls before they are registered; the graph executes them nevertheless.
* (registry) A start or an end names its call by id, or only by the name of the tool: then it is the first open one.
* (executions) `Executes` are the event sequences that execute every call of a step once.
* (defect) A dropped call is not registered, so a start of it without an id finds another call or none:
  `reported_iff`.
-/

namespace NexusStudio.Turn

/-- What the runner raises: a `GatewayChatError` with its detail, or a `ToolResultProtocolError`. -/
inductive StreamError
  | gateway (detail : String)
  | toolResult
  deriving DecidableEq, Repr

/-! ### Dedupe -/

/-- `ONCE_PER_TURN_TOOL_NAMES`. -/
def oncePerTurnToolNames : List String := ["recall_user_memory", "recall_project_memory"]

/-- `json.dumps` of the arguments with sorted keys. -/
def dumpArgs (args : ToolArgs) : ToolArgs := args.insertionSort fun p q => p.1 ≤ q.1

structure Seen where
  ids : List String
  sigs : List (String × ToolArgs)
  oncePerTurn : List String

/-- The loop of `_dedupe_tool_calls`. -/
def dedupeLoop : Seen → List ToolCall → List ToolCall
  | _, [] => []
  | seen, c :: calls =>
    if c.name ∈ oncePerTurnToolNames ∧ c.name ∈ seen.oncePerTurn then dedupeLoop seen calls
    else
      let once := if c.name ∈ oncePerTurnToolNames then c.name :: seen.oncePerTurn else seen.oncePerTurn
      if c.id ∈ seen.ids ∨ (c.name, dumpArgs c.args) ∈ seen.sigs then dedupeLoop { seen with oncePerTurn := once } calls
      else c :: dedupeLoop ⟨c.id :: seen.ids, (c.name, dumpArgs c.args) :: seen.sigs, once⟩ calls

/-- The calls that `_dedupe_tool_calls` leaves. -/
def dedupedCalls (calls : List ToolCall) : List ToolCall :=
  if calls.length ≤ 1 then calls else dedupeLoop ⟨[], [], []⟩ calls

def dedupeToolCalls (m : AiMessage) : Except StreamError AiMessage :=
  if m.toolCalls.any fun c => c.id = "" ∨ c.name = "" then .error (.gateway "model tool call violates contract")
  else .ok { m with toolCalls := dedupedCalls m.toolCalls }

theorem dedupeLoop_sublist (seen : Seen) (calls : List ToolCall) : (dedupeLoop seen calls).Sublist calls := by
  induction calls generalizing seen with
  | nil => exact .slnil
  | cons c calls ih =>
    rw [dedupeLoop]
    split
    · exact (ih _).cons c
    · dsimp only
      split
      · exact (ih _).cons c
      · exact (ih _).cons_cons c

theorem dedupedCalls_sublist (calls : List ToolCall) : (dedupedCalls calls).Sublist calls := by
  unfold dedupedCalls
  split
  · exact .refl _
  · exact dedupeLoop_sublist _ _

theorem dedupedCalls_ne_nil {calls : List ToolCall} (h : calls ≠ []) : dedupedCalls calls ≠ [] := by
  unfold dedupedCalls
  split
  · exact h
  · cases calls with
    | nil => exact absurd rfl h
    | cons c calls => simp [dedupeLoop]

/-! ### The registry -/

/-- `ToolCallPhase`. -/
inductive Phase
  | pending
  | started
  deriving DecidableEq, Repr

def Phase.text : Phase → String
  | pending => "pending"
  | started => "started"

structure ToolCallEntry where
  callId : String
  toolName : String
  phase : Phase
  args : ToolArgs
  deriving DecidableEq, Repr

/-- The entries by their ids, in the order of insertion. -/
abbrev Entries := List ToolCallEntry

namespace Entries

def find (entries : Entries) (callId : String) : Option ToolCallEntry := entries.find? fun e => e.callId = callId

/-- `_entries[call_id] = entry`. -/
def put (entries : Entries) (entry : ToolCallEntry) : Entries :=
  if (entries.find entry.callId).isSome then entries.map fun e => if e.callId = entry.callId then entry else e
  else entries ++ [entry]

def pop (entries : Entries) (callId : String) : Entries := entries.filter fun e => e.callId ≠ callId

end Entries

def registerFromModelStep (calls : List ToolCall) : Entries :=
  calls.foldl (fun entries c => entries.put ⟨c.id, c.name, .pending, c.args⟩) []

/-- `resolve_identity`, for a call in the phase that is asked for. -/
def resolveIdentity (entries : Entries) (callId toolName : String) (phase : Phase) (context : String) :
    Except StreamError (String × String) :=
  if callId ≠ "" ∧ toolName ≠ "" then
    match entries.find callId with
    | none => .ok (callId, toolName)
    | some e =>
      if e.toolName ≠ toolName then .error (.gateway s!"{context} call_id/name mismatch registry")
      else if e.phase ≠ phase then .error (.gateway s!"{context} unexpected phase={e.phase.text}")
      else .ok (callId, toolName)
  else if callId ≠ "" then
    match entries.find callId with
    | none => .error (.gateway s!"{context} unknown call_id")
    | some e =>
      if e.phase ≠ phase then .error (.gateway s!"{context} unexpected phase={e.phase.text}")
      else .ok (e.callId, e.toolName)
  else if toolName ≠ "" then
    match entries.filter fun e => e.toolName = toolName ∧ e.phase = phase with
    | [] => .error (.gateway s!"{context} missing name={toolName} matches=0")
    | e :: _ => .ok (e.callId, e.toolName)
  else
    match entries.filter fun e => e.phase = .started with
    | [e] => .ok (e.callId, e.toolName)
    | l => .error (.gateway s!"{context} missing identity and started_count={l.length}")

/-- The entry that a start belongs to, before it is started; one with an id and a name may be new. -/
def startedEntry (entries : Entries) (callId toolName : String) : Except StreamError (String × String) :=
  if callId ≠ "" ∧ toolName ≠ "" then
    match entries.find callId with
    | none => .ok (callId, toolName)
    | some e =>
      if e.toolName ≠ toolName then .error (.gateway "tool start event call_id/name mismatch registry")
      else if e.phase = .started then .error (.gateway "tool start event for already started call")
      else .ok (callId, toolName)
  else resolveIdentity entries callId toolName .pending "tool start event"

def onStart (entries : Entries) (callId toolName : String) (args : ToolArgs) :
    Except StreamError (ToolCallEntry × Entries) :=
  match startedEntry entries callId toolName with
  | .error e => .error e
  | .ok (i, name) => .ok (⟨i, name, .started, args⟩, entries.put ⟨i, name, .started, args⟩)

/-- `_complete`, for `on_end` and `on_error`. -/
def complete (entries : Entries) (callId toolName context : String) : Except StreamError (ToolCallEntry × Entries) :=
  match resolveIdentity entries callId toolName .started context with
  | .error e => .error e
  | .ok (i, name) =>
    match entries.find i with
    | none => .error (.gateway s!"{context} has no matching start")
    | some e =>
      if e.phase ≠ .started then .error (.gateway s!"{context} has no matching start")
      else if toolName ≠ "" ∧ e.toolName ≠ name then .error (.gateway s!"{context} call_id/name mismatch registry")
      else .ok (e, entries.pop i)

/-! ### The runner -/

/-- The events of the graph that concern its tool calls. -/
inductive GraphEvent
  | chatModelEnd (message : AiMessage) (invalidToolCalls : List InvalidToolCall)
  | toolStart (callId toolName : String) (input : ToolArgs)
  | toolEnd (callId toolName content : String)
  | toolError (callId toolName error : String) (interrupt : Bool)
  deriving DecidableEq, Repr

structure Runner where
  stepIndex : Nat
  entries : Entries
  deriving DecidableEq, Repr

/-- Success and error type of a result, as `ToolResult.parse_tool_message` finds them, and `to_tool_message` of a
failure. -/
structure ToolResults where
  parse : String → Option (Bool × Option String)
  fail : String → String

variable (T : ToolResults)

def handle (s : Runner) : GraphEvent → Except StreamError (Runner × List AgentEvent)
  | .chatModelEnd message invalid =>
    match dedupeToolCalls message with
    | .error e => .error e
    | .ok m =>
      if m.toolCalls = [] ∧ strip m.content = "" ∧ invalid = [] ∧ s.stepIndex = 0 then .ok (s, [])
      else if m.toolCalls = [] then .ok (s, [.modelStepFinished s.stepIndex m invalid])
      else
        .ok (⟨s.stepIndex + 1, registerFromModelStep m.toolCalls⟩, [.modelStepFinished s.stepIndex m invalid])
  | .toolStart callId toolName input =>
    match onStart s.entries callId toolName input with
    | .error e => .error e
    | .ok (e, entries) =>
      .ok ({ s with entries := entries }, [.toolStarted s.stepIndex e.callId e.toolName e.args])
  | .toolEnd callId toolName content =>
    match complete s.entries callId toolName "tool end event" with
    | .error e => .error e
    | .ok (e, entries) =>
      match T.parse content with
      | none => .error .toolResult
      | some (success, errorType) =>
        .ok ({ s with entries := entries },
          [.toolFinished s.stepIndex e.callId e.toolName e.args content (!success) errorType])
  | .toolError _ _ _ true => .ok (s, [])
  | .toolError callId toolName error false =>
    match complete s.entries callId toolName "tool error event" with
    | .error e => .error e
    | .ok (e, entries) =>
      let text := T.fail (if error ≠ "" then error else "tool execution failed")
      .ok ({ s with entries := entries },
        [.toolFinished s.stepIndex e.callId e.toolName e.args text true (some "internal")])

/-- What the loop of `run_agent_turn_stream` yields, and how it ends. -/
def agentTurnStream : Runner → List GraphEvent → List AgentEvent × Except StreamError Runner
  | s, [] => ([], .ok s)
  | s, e :: events =>
    match handle T s e with
    | .error x => ([], .error x)
    | .ok (s, out) => (out ++ (agentTurnStream s events).1, (agentTurnStream s events).2)

/-! ### Executions -/

/-- The calls `todo` are still to be started, in this order, and the calls `opened` to be ended: an event sequence
starts each with or without its id, and ends each by its id with a result or an error. -/
inductive Executes : List ToolCall → List ToolCall → List GraphEvent → Prop
  | done : Executes [] [] []
  | start {todo opened : List ToolCall} {events : List GraphEvent} (c : ToolCall) (callId : String)
      (hid : callId = c.id ∨ callId = "") (h : Executes todo (c :: opened) events) :
      Executes (c :: todo) opened (.toolStart callId c.name c.args :: events)
  | finish {todo opened : List ToolCall} {events : List GraphEvent} (c : ToolCall) (hc : c ∈ opened) (name : String)
      (hname : name = c.name ∨ name = "") (content : String) (hcontent : T.parse content ≠ none)
      (h : Executes todo (opened.erase c) events) : Executes todo opened (.toolEnd c.id name content :: events)
  | fail {todo opened : List ToolCall} {events : List GraphEvent} (c : ToolCall) (hc : c ∈ opened) (name : String)
      (hname : name = c.name ∨ name = "") (error : String) (h : Executes todo (opened.erase c) events) :
      Executes todo opened (.toolError c.id name error false :: events)

/-- The ids that the starts carry. -/
def startIds (events : List GraphEvent) : List String :=
  events.filterMap fun
    | .toolStart callId _ _ => some callId
    | _ => none

/-- The calls that the events report as started, with their ids, names and arguments. -/
def startedCalls (out : List AgentEvent) : List ToolCall :=
  out.filterMap fun
    | .toolStarted _ callId name args => some ⟨callId, name, args⟩
    | _ => none

def finishedCalls (out : List AgentEvent) : List ToolCall :=
  out.filterMap fun
    | .toolFinished _ callId name args _ _ _ => some ⟨callId, name, args⟩
    | _ => none

/-- Every call is started once and finished once, and nothing else is. -/
structure Reported (calls : List ToolCall) (out : List AgentEvent) : Prop where
  started : (startedCalls out).Perm calls
  finished : (finishedCalls out).Perm calls

/-! ### What the registry holds -/

variable {T}

def pendingEntry (c : ToolCall) : ToolCallEntry := ⟨c.id, c.name, .pending, c.args⟩

def openEntry (c : ToolCall) : ToolCallEntry := ⟨c.id, c.name, .started, c.args⟩

/-- The registry in the middle of an execution, where `kept` are the registered calls. -/
structure Tracks (kept : List ToolCall) (entries : Entries) (todo opened : List ToolCall) : Prop where
  pending : entries.filter (fun e => e.phase = .pending) = (todo.filter (· ∈ kept)).map pendingEntry
  started : ∀ e ∈ entries, e.phase = .started → ∃ c ∈ opened, e = openEntry c
  opened : ∀ c ∈ opened, openEntry c ∈ entries
  ids : (entries.map ToolCallEntry.callId).Nodup

/-- The calls of a step: named, and with ids of their own. -/
structure Contract (calls : List ToolCall) : Prop where
  id_ne : ∀ c ∈ calls, c.id ≠ ""
  name_ne : ∀ c ∈ calls, c.name ≠ ""
  ids : (calls.map ToolCall.id).Nodup

theorem Entries.find_eq_some {entries : Entries} (hids : (entries.map ToolCallEntry.callId).Nodup) {e : ToolCallEntry}
    (he : e ∈ entries) : entries.find e.callId = some e := by
  have hsome : (entries.find e.callId).isSome := by
    rw [Entries.find, List.find?_isSome]
    exact ⟨e, he, decide_eq_true rfl⟩
  obtain ⟨x, hx⟩ := Option.isSome_iff_exists.1 hsome
  have hid := List.find?_some hx
  rw [hx, List.inj_on_of_nodup_map hids (List.mem_of_find?_eq_some hx) he (of_decide_eq_true hid)]

theorem Entries.find_eq_none {entries : Entries} {callId : String} (h : ∀ e ∈ entries, e.callId ≠ callId) :
    entries.find callId = none := by
  rw [Entries.find, List.find?_eq_none]
  intro e he
  simpa using h e he

variable {kept todo opened : List ToolCall} {entries : Entries} {c : ToolCall}

/-- An entry of the registry is a registered call that is still to be started, or an open one. -/
theorem Tracks.cases (h : Tracks kept entries todo opened) {e : ToolCallEntry} (he : e ∈ entries) :
    (∃ c ∈ todo, c ∈ kept ∧ e = pendingEntry c) ∨ ∃ c ∈ opened, e = openEntry c := by
  cases hp : e.phase with
  | pending =>
    have hmem : e ∈ entries.filter fun e => e.phase = .pending := List.mem_filter.2 ⟨he, decide_eq_true hp⟩
    rw [h.pending] at hmem
    obtain ⟨c, hc, rfl⟩ := List.mem_map.1 hmem
    obtain ⟨hc, hk⟩ := List.mem_filter.1 hc
    exact .inl ⟨c, hc, of_decide_eq_true hk, rfl⟩
  | started => exact .inr (h.started e he hp)

/-- A call whose turn it is, and which is not registered, has no entry. -/
theorem Tracks.find_dropped (h : Tracks kept entries (c :: todo) opened)
    (hids : ((c :: todo ++ opened).map ToolCall.id).Nodup) (hc : c ∉ kept) : entries.find c.id = none := by
  refine Entries.find_eq_none fun e he heq => ?_
  rw [List.cons_append, List.map_cons, List.nodup_cons] at hids
  refine hids.1 (List.mem_map.2 ?_)
  rcases h.cases he with ⟨d, hd, hk, rfl⟩ | ⟨d, hd, rfl⟩
  · rcases List.mem_cons.1 hd with rfl | hd
    · exact absurd hk hc
    · exact ⟨d, List.mem_append_left _ hd, heq⟩
  · exact ⟨d, List.mem_append_right _ hd, heq⟩

/-- A registered call whose turn it is comes first among the ones that are not started. -/
theorem Tracks.pending_cons (h : Tracks kept entries (c :: todo) opened) (hc : c ∈ kept) :
    entries.filter (fun e => e.phase = .pending) = pendingEntry c :: (todo.filter (· ∈ kept)).map pendingEntry := by
  rw [h.pending, List.filter_cons, if_pos (decide_eq_true hc), List.map_cons]

theorem Tracks.mem_pending (h : Tracks kept entries (c :: todo) opened) (hc : c ∈ kept) : pendingEntry c ∈ entries := by
  have hmem : pendingEntry c ∈ entries.filter fun e => e.phase = .pending := by
    rw [h.pending_cons hc]
    exact List.mem_cons_self
  exact (List.mem_filter.1 hmem).1

theorem Entries.mem_put {x e : ToolCallEntry} :
    e ∈ entries.put x ↔ e = x ∨ e ∈ entries ∧ e.callId ≠ x.callId := by
  unfold Entries.put
  split
  · next hsome =>
    obtain ⟨y, hy, hid⟩ := List.find?_isSome.1 hsome
    rw [List.mem_map]
    constructor
    · rintro ⟨z, hz, rfl⟩
      split
      · exact .inl rfl
      · next hne => exact .inr ⟨hz, hne⟩
    · rintro (rfl | ⟨he, hne⟩)
      · exact ⟨y, hy, if_pos (of_decide_eq_true hid)⟩
      · exact ⟨e, he, if_neg hne⟩
  · next hnone =>
    have hne : ∀ z ∈ entries, z.callId ≠ x.callId := by
      intro z hz hid
      exact hnone (List.find?_isSome.2 ⟨z, hz, decide_eq_true hid⟩)
    rw [List.mem_append, List.mem_singleton]
    constructor
    · rintro (he | rfl)
      · exact .inr ⟨he, hne e he⟩
      · exact .inl rfl
    · rintro (rfl | ⟨he, -⟩)
      · exact .inr rfl
      · exact .inl he

theorem Entries.nodup_put {x : ToolCallEntry} (h : (entries.map ToolCallEntry.callId).Nodup) :
    ((entries.put x).map ToolCallEntry.callId).Nodup := by
  unfold Entries.put
  split
  · have hids : (entries.map fun e => if e.callId = x.callId then x else e).map ToolCallEntry.callId =
        entries.map ToolCallEntry.callId := by
      rw [List.map_map]
      refine List.map_congr_left fun e _ => ?_
      rw [Function.comp_apply]
      split
      · next he => exact he.symm
      · rfl
    rw [hids]
    exact h
  · next hnone =>
    rw [List.map_append]
    refine h.append (List.nodup_singleton _) (List.disjoint_singleton.2 fun hm => ?_)
    obtain ⟨z, hz, hid⟩ := List.mem_map.1 hm
    exact hnone (List.find?_isSome.2 ⟨z, hz, decide_eq_true hid⟩)

/-- A started entry is no longer among the ones that are not started. -/
theorem Entries.filter_put {x : ToolCallEntry} (hx : x.phase = .started) :
    (entries.put x).filter (fun e => e.phase = .pending) =
      (entries.filter fun e => e.phase = .pending).filter fun e => e.callId ≠ x.callId := by
  unfold Entries.put
  split
  · clear * - hx
    induction entries with
    | nil => rfl
    | cons e entries ih =>
      rw [List.map_cons, List.filter_cons, List.filter_cons, ih]
      by_cases hid : e.callId = x.callId
      · by_cases hp : e.phase = .pending <;> simp [hid, hp, hx]
      · by_cases hp : e.phase = .pending <;> simp [hid, hp]
  · next hnone =>
    rw [List.filter_append, List.filter_singleton]
    simp only [hx, reduceCtorEq, decide_false, cond_false, List.append_nil]
    refine (List.filter_eq_self.2 fun e he => ?_).symm
    have hid : e.callId ≠ x.callId := fun hid =>
      hnone (List.find?_isSome.2 ⟨e, (List.mem_filter.1 he).1, decide_eq_true hid⟩)
    exact decide_eq_true hid

/-- The start of a call puts its entry. -/
theorem Tracks.start (h : Tracks kept entries (c :: todo) opened)
    (hids : ((c :: todo ++ opened).map ToolCall.id).Nodup) :
    Tracks kept (entries.put (openEntry c)) todo (c :: opened) := by
  rw [List.cons_append, List.map_cons, List.nodup_cons] at hids
  have hne : ∀ d, d ∈ todo ∨ d ∈ opened → d.id ≠ c.id := by
    intro d hd heq
    exact hids.1 (List.mem_map.2 ⟨d, List.mem_append.2 hd, heq⟩)
  refine ⟨?_, fun e he hp => ?_, fun d hd => ?_, Entries.nodup_put h.ids⟩
  · rw [Entries.filter_put rfl, h.pending, List.filter_map, List.filter_cons]
    have hrest : (todo.filter (· ∈ kept)).filter ((fun e : ToolCallEntry => decide (e.callId ≠ (openEntry c).callId)) ∘
        pendingEntry) = todo.filter (· ∈ kept) := by
      refine List.filter_eq_self.2 fun d hd => decide_eq_true ?_
      exact hne d (.inl (List.mem_filter.1 hd).1)
    split
    · rw [List.filter_cons, hrest]
      simp [pendingEntry, openEntry]
    · rw [hrest]
  · rcases Entries.mem_put.1 he with rfl | ⟨he, -⟩
    · exact ⟨c, List.mem_cons_self, rfl⟩
    · obtain ⟨d, hd, rfl⟩ := h.started e he hp
      exact ⟨d, List.mem_cons_of_mem _ hd, rfl⟩
  · rcases List.mem_cons.1 hd with rfl | hd
    · exact Entries.mem_put.2 (.inl rfl)
    · exact Entries.mem_put.2 (.inr ⟨h.opened d hd, hne d (.inr hd)⟩)

/-- The start of a call finds it by its id, or by its name where it is registered. -/
theorem Tracks.onStart_eq (h : Tracks kept entries (c :: todo) opened)
    (hids : ((c :: todo ++ opened).map ToolCall.id).Nodup) (hid : c.id ≠ "") (hname : c.name ≠ "") {callId : String}
    (hcall : callId = c.id ∨ callId = "") (hkept : c ∈ kept ∨ callId ≠ "") :
    onStart entries callId c.name c.args = .ok (openEntry c, entries.put (openEntry c)) := by
  have hentry : startedEntry entries callId c.name = .ok (c.id, c.name) := by
    rcases hcall with rfl | rfl
    · rw [startedEntry, if_pos ⟨hid, hname⟩]
      by_cases hc : c ∈ kept
      · have hfind : entries.find c.id = some (pendingEntry c) := Entries.find_eq_some h.ids (h.mem_pending hc)
        rw [hfind]
        simp [pendingEntry]
      · rw [h.find_dropped hids hc]
    · have hc := hkept.resolve_right fun hne => hne rfl
      have hmatches : entries.filter (fun e => e.toolName = c.name ∧ e.phase = .pending) =
          (entries.filter fun e => e.phase = .pending).filter fun e => e.toolName = c.name := by
        rw [List.filter_filter]
        exact List.filter_congr fun e _ => by simp
      rw [startedEntry, if_neg fun hne => hne.1 rfl, resolveIdentity, if_neg fun hne => hne.1 rfl,
        if_neg fun hne => hne rfl, if_pos hname, hmatches, h.pending_cons hc, List.filter_cons_of_pos]
      · rfl
      · exact decide_eq_true rfl
  rw [onStart, hentry]
  rfl

/-- The end of a call takes its entry away. -/
theorem Tracks.finish (h : Tracks kept entries todo opened) (hids : ((todo ++ opened).map ToolCall.id).Nodup)
    (hc : c ∈ opened) : Tracks kept (entries.pop c.id) todo (opened.erase c) := by
  rw [List.map_append, List.nodup_append] at hids
  have hopened : opened.Nodup := List.Nodup.of_map _ hids.2.1
  have hne : ∀ d ∈ opened, d ≠ c → d.id ≠ c.id := by
    intro d hd hdc heq
    exact hdc (List.inj_on_of_nodup_map hids.2.1 hd hc heq)
  have hmem : ∀ e, e ∈ entries.pop c.id ↔ e ∈ entries ∧ e.callId ≠ c.id := by
    intro e
    rw [Entries.pop, List.mem_filter, decide_eq_true_eq]
  refine ⟨?_, fun e he hp => ?_, fun d hd => ?_, ?_⟩
  · rw [← h.pending, Entries.pop, List.filter_filter]
    refine List.filter_congr fun e he => ?_
    by_cases hid : e.callId = c.id
    · have heq : e = openEntry c := List.inj_on_of_nodup_map h.ids he (h.opened c hc) hid
      simp [heq, openEntry]
    · simp [hid]
  · obtain ⟨he, hid⟩ := (hmem e).1 he
    obtain ⟨d, hd, rfl⟩ := h.started e he hp
    refine ⟨d, (List.Nodup.mem_erase_iff hopened).2 ⟨?_, hd⟩, rfl⟩
    rintro rfl
    exact hid rfl
  · obtain ⟨hdc, hd⟩ := (List.Nodup.mem_erase_iff hopened).1 hd
    exact (hmem _).2 ⟨h.opened d hd, hne d hd hdc⟩
  · exact h.ids.sublist (List.filter_sublist.map _)

theorem Tracks.complete_eq (h : Tracks kept entries todo opened) (hc : c ∈ opened) (hid : c.id ≠ "")
    (hne : c.name ≠ "") {name : String} (hname : name = c.name ∨ name = "") (context : String) :
    complete entries c.id name context = .ok (openEntry c, entries.pop c.id) := by
  have hfind : entries.find c.id = some (openEntry c) := Entries.find_eq_some h.ids (h.opened c hc)
  have hresolve : resolveIdentity entries c.id name .started context = .ok (c.id, c.name) := by
    rcases hname with rfl | rfl
    · rw [resolveIdentity, if_pos ⟨hid, hne⟩, hfind]
      simp [openEntry]
    · rw [resolveIdentity, if_neg fun hn => hn.2 rfl, if_pos hid, hfind]
      simp [openEntry]
  rw [complete, hresolve]
  simp only [hfind]
  simp [openEntry]

/-! ### The law -/

theorem Contract.perm {calls calls' : List ToolCall} (h : Contract calls) (hp : calls.Perm calls') : Contract calls' :=
  ⟨fun c hc => h.id_ne c (hp.mem_iff.2 hc), fun c hc => h.name_ne c (hp.mem_iff.2 hc), (hp.map _).nodup_iff.1 h.ids⟩

theorem Contract.sublist {calls calls' : List ToolCall} (h : Contract calls) (hs : calls'.Sublist calls) :
    Contract calls' :=
  ⟨fun c hc => h.id_ne c (hs.subset hc), fun c hc => h.name_ne c (hs.subset hc), h.ids.sublist (hs.map _)⟩

/-- The events report the starts of `todo`, in this order, and the ends of `todo` and `opened`. -/
def ReportsRest (T : ToolResults) (s : Runner) (events : List GraphEvent) (todo opened : List ToolCall) : Prop :=
  (∃ s', (agentTurnStream T s events).2 = .ok s') ∧ startedCalls (agentTurnStream T s events).1 = todo ∧
    (finishedCalls (agentTurnStream T s events).1).Perm (todo ++ opened)

theorem reportsRest_finish {s s' : Runner} {e : GraphEvent} {events : List GraphEvent} {n : Nat} {text : String}
    {failed : Bool} {errorClass : Option String} (hopen : c ∈ opened)
    (hh : handle T s e = .ok (s', [.toolFinished n c.id c.name c.args text failed errorClass]))
    (h : ReportsRest T s' events todo (opened.erase c)) : ReportsRest T s (e :: events) todo opened := by
  obtain ⟨hok, hstarted, hfinished⟩ := h
  have hperm : (c :: (todo ++ opened.erase c)).Perm (todo ++ opened) :=
    List.perm_middle.symm.trans ((List.perm_cons_erase hopen).symm.append_left todo)
  simp only [ReportsRest, agentTurnStream, hh]
  refine ⟨hok, ?_, ?_⟩
  · rw [startedCalls, List.filterMap_append]
    exact hstarted
  · rw [finishedCalls, List.filterMap_append]
    exact (hfinished.cons c).trans hperm

/-- An execution from a registry that tracks it is reported in full, where every start finds its call. -/
theorem reportsRest_of_executes {events : List GraphEvent} (he : Executes T todo opened events) {s : Runner}
    (h : Tracks kept s.entries todo opened) (hc : Contract (todo ++ opened))
    (hstarts : ∀ p ∈ todo.zip (startIds events), p.1 ∈ kept ∨ p.2 ≠ "") : ReportsRest T s events todo opened := by
  induction he generalizing s with
  | done => exact ⟨⟨s, rfl⟩, rfl, .nil⟩
  | @start todo opened events c callId hid he ih =>
    have hmem : c ∈ c :: todo ++ opened := List.mem_cons_self
    have hperm : (c :: todo ++ opened).Perm (todo ++ c :: opened) := List.perm_middle.symm
    have hkept : c ∈ kept ∨ callId ≠ "" := hstarts (c, callId) List.mem_cons_self
    have hstart := h.onStart_eq hc.ids (hc.id_ne c hmem) (hc.name_ne c hmem) hid hkept
    obtain ⟨hok, hstarted, hfinished⟩ := ih (s := { s with entries := s.entries.put (openEntry c) })
      (h.start hc.ids) (hc.perm hperm) fun p hp => hstarts p (List.mem_cons_of_mem _ hp)
    simp only [ReportsRest, agentTurnStream, handle, hstart]
    refine ⟨hok, ?_, ?_⟩
    · rw [startedCalls, List.filterMap_append]
      exact congrArg (List.cons c) hstarted
    · rw [finishedCalls, List.filterMap_append]
      exact hfinished.trans hperm.symm
  | @finish todo opened events c hopen name hname content hcontent he ih =>
    have hmem : c ∈ todo ++ opened := List.mem_append_right _ hopen
    have hend := h.complete_eq hopen (hc.id_ne c hmem) (hc.name_ne c hmem) hname "tool end event"
    obtain ⟨⟨success, errorType⟩, hparse⟩ := Option.ne_none_iff_exists'.1 hcontent
    have hh : handle T s (.toolEnd c.id name content) = .ok ({ s with entries := s.entries.pop c.id },
        [.toolFinished s.stepIndex c.id c.name c.args content (!success) errorType]) := by
      simp only [handle, hend, hparse]
      rfl
    exact reportsRest_finish hopen hh
      (ih (h.finish hc.ids hopen) (hc.sublist (List.erase_sublist.append_left todo)) hstarts)
  | @fail todo opened events c hopen name hname error he ih =>
    have hmem : c ∈ todo ++ opened := List.mem_append_right _ hopen
    have hend := h.complete_eq hopen (hc.id_ne c hmem) (hc.name_ne c hmem) hname "tool error event"
    have hh : handle T s (.toolError c.id name error false) = .ok ({ s with entries := s.entries.pop c.id },
        [.toolFinished s.stepIndex c.id c.name c.args
          (T.fail (if error ≠ "" then error else "tool execution failed")) true (some "internal")]) := by
      simp only [handle, hend]
      rfl
    exact reportsRest_finish hopen hh
      (ih (h.finish hc.ids hopen) (hc.sublist (List.erase_sublist.append_left todo)) hstarts)

/-! ### Registration -/

theorem Entries.put_new {x : ToolCallEntry} (h : ∀ e ∈ entries, e.callId ≠ x.callId) :
    entries.put x = entries ++ [x] := by
  rw [Entries.put, Entries.find_eq_none h]
  rfl

theorem registerFromModelStep_eq {calls : List ToolCall} (h : (calls.map ToolCall.id).Nodup) :
    registerFromModelStep calls = calls.map pendingEntry := by
  have hfold : ∀ (entries : Entries) (rest : List ToolCall), (∀ c ∈ rest, ∀ e ∈ entries, e.callId ≠ c.id) →
      (rest.map ToolCall.id).Nodup →
      rest.foldl (fun entries c => entries.put ⟨c.id, c.name, .pending, c.args⟩) entries =
        entries ++ rest.map pendingEntry := by
    intro entries rest
    induction rest generalizing entries with
    | nil => exact fun _ _ => (List.append_nil _).symm
    | cons c rest ih =>
      intro hnew hnodup
      rw [List.map_cons, List.nodup_cons] at hnodup
      rw [List.foldl_cons, Entries.put_new (hnew c List.mem_cons_self), ih _ _ hnodup.2, List.append_assoc]
      · rfl
      · intro d hd e he
        rcases List.mem_append.1 he with he | he
        · exact hnew d (List.mem_cons_of_mem _ hd) e he
        · rw [List.mem_singleton.1 he]
          intro heq
          exact hnodup.1 (List.mem_map.2 ⟨d, hd, heq.symm⟩)
  exact hfold [] calls (fun _ _ _ he => absurd he List.not_mem_nil) h

/-- The members of a sublist of distinct calls, in order. -/
theorem filter_mem_sublist {calls kept : List ToolCall} (hs : kept.Sublist calls) (h : calls.Nodup) :
    calls.filter (· ∈ kept) = kept := by
  induction hs with
  | slnil => rfl
  | @cons kept calls c hs ih =>
    rw [List.nodup_cons] at h
    rw [List.filter_cons_of_neg, ih h.2]
    intro hc
    exact h.1 (hs.subset (of_decide_eq_true hc))
  | @cons_cons kept calls c hs ih =>
    rw [List.nodup_cons] at h
    have hhead : decide (c ∈ c :: kept) = true := decide_eq_true List.mem_cons_self
    have hrest : calls.filter (· ∈ c :: kept) = calls.filter (· ∈ kept) := by
      refine List.filter_congr fun d hd => decide_eq_decide.2 ⟨fun hm => ?_, List.mem_cons_of_mem c⟩
      rcases List.mem_cons.1 hm with rfl | hm
      · exact absurd hd h.1
      · exact hm
    rw [List.filter_cons, if_pos hhead, hrest, ih h.2]

/-- After a step, the registry holds the calls that the dedupe leaves. -/
theorem tracks_registerFromModelStep {calls : List ToolCall} (hc : Contract calls) :
    Tracks (dedupedCalls calls) (registerFromModelStep (dedupedCalls calls)) calls [] := by
  have hs := dedupedCalls_sublist calls
  have hids := (hc.sublist hs).ids
  have hpending : ∀ e ∈ (dedupedCalls calls).map pendingEntry, e.phase = .pending := by
    intro e he
    obtain ⟨c, -, rfl⟩ := List.mem_map.1 he
    rfl
  rw [registerFromModelStep_eq hids]
  refine ⟨?_, fun e he hp => ?_, fun c hc => absurd hc List.not_mem_nil, ?_⟩
  · rw [filter_mem_sublist hs (List.Nodup.of_map _ hc.ids)]
    exact List.filter_eq_self.2 fun e he => decide_eq_true (hpending e he)
  · rw [hpending e he] at hp
    cases hp
  · rw [List.map_map]
    exact hids

/-! ### Calls without an entry -/

/-- A call is found by the id of the event, or is one of the registry. -/
theorem resolveIdentity_id {callId toolName context i name : String} {phase : Phase}
    (h : resolveIdentity entries callId toolName phase context = .ok (i, name)) :
    i = callId ∨ ∃ e ∈ entries, e.callId = i := by
  unfold resolveIdentity at h
  split at h
  · split at h
    · cases h
      exact .inl rfl
    · split at h
      · cases h
      · split at h
        · cases h
        · cases h
          exact .inl rfl
  · split at h
    · split at h
      · cases h
      · next e hfind =>
        split at h
        · cases h
        · cases h
          exact .inr ⟨e, List.mem_of_find?_eq_some hfind, rfl⟩
    · split at h
      · split at h
        · cases h
        · next e _ hfilter =>
          cases h
          have he : e ∈ entries.filter fun e => e.toolName = toolName ∧ e.phase = phase := by
            rw [hfilter]
            exact List.mem_cons_self
          exact .inr ⟨e, (List.mem_filter.1 he).1, rfl⟩
      · split at h
        · next e hfilter =>
          cases h
          have he : e ∈ entries.filter fun e => e.phase = .started := by
            rw [hfilter]
            exact List.mem_cons_self
          exact .inr ⟨e, (List.mem_filter.1 he).1, rfl⟩
        · cases h

theorem startedEntry_id {callId toolName i name : String} (h : startedEntry entries callId toolName = .ok (i, name)) :
    i = callId ∨ ∃ e ∈ entries, e.callId = i := by
  unfold startedEntry at h
  split at h
  · split at h
    · cases h
      exact .inl rfl
    · split at h
      · cases h
      · split at h
        · cases h
        · cases h
          exact .inl rfl
  · exact resolveIdentity_id h

theorem complete_subset {callId toolName context : String} {e : ToolCallEntry} {entries' : Entries}
    (h : complete entries callId toolName context = .ok (e, entries')) : ∀ x ∈ entries', x ∈ entries := by
  unfold complete at h
  split at h
  · cases h
  · split at h
    · cases h
    · split at h
      · cases h
      · split at h
        · cases h
        · cases h
          exact fun x hx => (List.mem_filter.1 hx).1

/-- An end opens no entry and starts no call. -/
theorem handle_toolEnd {s s' : Runner} {callId name content : String} {out : List AgentEvent}
    (h : handle T s (.toolEnd callId name content) = .ok (s', out)) :
    (∀ x ∈ s'.entries, x ∈ s.entries) ∧ startedCalls out = [] := by
  unfold handle at h
  dsimp only at h
  split at h
  · cases h
  · next e entries' hend =>
    split at h
    · cases h
    · cases h
      exact ⟨complete_subset hend, rfl⟩

theorem handle_toolError {s s' : Runner} {callId name error : String} {interrupt : Bool} {out : List AgentEvent}
    (h : handle T s (.toolError callId name error interrupt) = .ok (s', out)) :
    (∀ x ∈ s'.entries, x ∈ s.entries) ∧ startedCalls out = [] := by
  cases interrupt with
  | true =>
    cases h
    exact ⟨fun x hx => hx, rfl⟩
  | false =>
    unfold handle at h
    dsimp only at h
    split at h
    · cases h
    · next e entries' hend =>
      cases h
      exact ⟨complete_subset hend, rfl⟩

theorem mem_startedCalls_cons {s : Runner} {e : GraphEvent} {events : List GraphEvent}
    (hc : c ∈ startedCalls (agentTurnStream T s (e :: events)).1) :
    ∃ s' out, handle T s e = .ok (s', out) ∧
      (c ∈ startedCalls out ∨ c ∈ startedCalls (agentTurnStream T s' events).1) := by
  unfold agentTurnStream at hc
  split at hc
  · exact absurd hc List.not_mem_nil
  · next s' out hh =>
    refine ⟨s', out, hh, ?_⟩
    rw [startedCalls, List.filterMap_append] at hc
    exact List.mem_append.1 hc

theorem handle_toolStart {s s' : Runner} {callId name : String} {input : ToolArgs} {out : List AgentEvent}
    (h : handle T s (.toolStart callId name input) = .ok (s', out)) :
    ∃ e, (e.callId = callId ∨ ∃ x ∈ s.entries, x.callId = e.callId) ∧ s'.entries = s.entries.put e ∧
      startedCalls out = [⟨e.callId, e.toolName, e.args⟩] := by
  unfold handle at h
  dsimp only at h
  split at h
  · cases h
  · next e entries' hstart =>
    cases h
    unfold onStart at hstart
    split at hstart
    · cases hstart
    · next i name hentry =>
      cases hstart
      exact ⟨_, startedEntry_id hentry, rfl, rfl⟩

/-- An id that neither the registry nor a start of the execution has is never reported as started. -/
theorem startedCalls_ne {callId : String} {events : List GraphEvent} (he : Executes T todo opened events) {s : Runner}
    (hs : ∀ e ∈ s.entries, e.callId ≠ callId) (hids : callId ∉ startIds events) :
    ∀ c ∈ startedCalls (agentTurnStream T s events).1, c.id ≠ callId := by
  induction he generalizing s with
  | done => exact fun c hc => absurd hc List.not_mem_nil
  | @start todo opened events c i hid he ih =>
    intro d hd
    obtain ⟨s', out, hh, hd⟩ := mem_startedCalls_cons hd
    obtain ⟨e, hfrom, hentries, hout⟩ := handle_toolStart hh
    have hne : e.callId ≠ callId := by
      rcases hfrom with heq | ⟨x, hx, heq⟩
      · intro hcall
        exact hids (hcall ▸ heq ▸ List.mem_cons_self)
      · exact heq ▸ hs x hx
    rcases hd with hd | hd
    · rw [hout, List.mem_singleton] at hd
      rw [hd]
      exact hne
    · refine ih (fun x hx => ?_) (fun hm => hids (List.mem_cons_of_mem _ hm)) d hd
      rw [hentries] at hx
      rcases Entries.mem_put.1 hx with rfl | ⟨hx, -⟩
      · exact hne
      · exact hs x hx
  | @finish todo opened events c hopen name hname content hcontent he ih =>
    intro d hd
    obtain ⟨s', out, hh, hd⟩ := mem_startedCalls_cons hd
    obtain ⟨hentries, hout⟩ := handle_toolEnd hh
    refine ih (fun x hx => hs x (hentries x hx)) hids d (hd.resolve_left ?_)
    rw [hout]
    exact List.not_mem_nil
  | @fail todo opened events c hopen name hname error he ih =>
    intro d hd
    obtain ⟨s', out, hh, hd⟩ := mem_startedCalls_cons hd
    obtain ⟨hentries, hout⟩ := handle_toolError hh
    refine ih (fun x hx => hs x (hentries x hx)) hids d (hd.resolve_left ?_)
    rw [hout]
    exact List.not_mem_nil

/-- The starts of an execution are of its calls in order, each with the call's id or none. -/
theorem startIds_of_executes {events : List GraphEvent} (he : Executes T todo opened events) :
    List.Forall₂ (fun c i => i = c.id ∨ i = "") todo (startIds events) := by
  induction he with
  | done => exact .nil
  | start c callId hid _ ih => exact .cons hid ih
  | finish _ _ _ _ _ _ _ ih => exact ih
  | fail _ _ _ _ _ _ ih => exact ih

theorem mem_or_eq_of_forall₂ {ids : List String} (h : List.Forall₂ (fun c i => i = c.id ∨ i = "") todo ids) {i : String}
    (hi : i ∈ ids) : i ∈ todo.map ToolCall.id ∨ i = "" := by
  induction h with
  | nil => exact absurd hi List.not_mem_nil
  | @cons c j todo ids hid hrest ih =>
    rw [List.map_cons]
    rcases List.mem_cons.1 hi with rfl | hi
    · refine hid.imp_left fun heq => ?_
      rw [heq]
      exact List.mem_cons_self
    · exact (ih hi).imp_left (List.mem_cons_of_mem _)

/-- The id of a call that is started without it is on no start. -/
theorem not_mem_startIds {ids : List String} (h : List.Forall₂ (fun c i => i = c.id ∨ i = "") todo ids)
    (hc : Contract todo) (hmem : (c, "") ∈ todo.zip ids) : c.id ∉ ids := by
  have hne : c.id ≠ "" := hc.id_ne c (List.of_mem_zip hmem).1
  have hids := hc.ids
  induction h with
  | nil => exact absurd hmem List.not_mem_nil
  | @cons d i todo ids hid hrest ih =>
    rw [List.map_cons, List.nodup_cons] at hids
    rw [List.zip_cons_cons] at hmem
    rw [List.mem_cons, not_or]
    rcases List.mem_cons.1 hmem with heq | hrestmem
    · cases heq
      exact ⟨hne, fun hm => (mem_or_eq_of_forall₂ hrest hm).elim hids.1 hne⟩
    · refine ⟨fun hi => ?_, ih (hc.sublist (List.sublist_cons_self d todo)) hrestmem hids.2⟩
      have hd : c.id ≠ d.id := by
        intro heq
        exact hids.1 (heq ▸ List.mem_map_of_mem (List.of_mem_zip hrestmem).1)
      exact (hi ▸ hid).elim hd hne

/-! ### A model step -/

theorem handle_chatModelEnd (s : Runner) {m : AiMessage} (invalid : List InvalidToolCall) (hc : Contract m.toolCalls)
    (hne : m.toolCalls ≠ []) :
    handle T s (.chatModelEnd m invalid) =
      .ok (⟨s.stepIndex + 1, registerFromModelStep (dedupedCalls m.toolCalls)⟩,
        [.modelStepFinished s.stepIndex { m with toolCalls := dedupedCalls m.toolCalls } invalid]) := by
  have hnamed : ¬(m.toolCalls.any fun c => c.id = "" ∨ c.name = "") := by
    rw [List.any_eq_true]
    rintro ⟨c, hc', hbad⟩
    rcases of_decide_eq_true hbad with hid | hname
    · exact hc.id_ne c hc' hid
    · exact hc.name_ne c hc' hname
  have hkept := dedupedCalls_ne_nil hne
  rw [handle, dedupeToolCalls, if_neg hnamed]
  dsimp only
  rw [if_neg fun h => hkept h.1, if_neg hkept]

theorem handle_chatModelEnd_nil (s : Runner) {m : AiMessage} (invalid : List InvalidToolCall)
    (hnil : m.toolCalls = []) :
    ∃ out, handle T s (.chatModelEnd m invalid) = .ok (s, out) ∧ startedCalls out = [] ∧ finishedCalls out = [] := by
  obtain ⟨content, calls⟩ := m
  subst hnil
  have hdedupe : dedupeToolCalls ⟨content, []⟩ = .ok ⟨content, []⟩ := rfl
  simp only [handle, hdedupe, true_and, if_true]
  by_cases hempty : strip content = "" ∧ invalid = [] ∧ s.stepIndex = 0
  · rw [if_pos hempty]
    exact ⟨[], rfl, rfl, rfl⟩
  · rw [if_neg hempty]
    exact ⟨_, rfl, rfl, rfl⟩

theorem eq_nil_of_executes {events : List GraphEvent} (he : Executes T [] [] events) : events = [] := by
  cases he with
  | done => rfl
  | finish c hc => exact absurd hc List.not_mem_nil
  | fail c hc => exact absurd hc List.not_mem_nil

/-- A step is reported in full exactly when every call that the dedupe drops is started with its id. -/
theorem reported_iff (T : ToolResults) (s : Runner) (m : AiMessage) (invalid : List InvalidToolCall)
    (events : List GraphEvent) (hc : Contract m.toolCalls) (he : Executes T m.toolCalls [] events) :
    ((∃ s', (agentTurnStream T s (.chatModelEnd m invalid :: events)).2 = .ok s') ∧
        Reported m.toolCalls (agentTurnStream T s (.chatModelEnd m invalid :: events)).1) ↔
      ∀ p ∈ m.toolCalls.zip (startIds events), p.1 ∈ dedupedCalls m.toolCalls ∨ p.2 ≠ "" := by
  by_cases hne : m.toolCalls = []
  · obtain ⟨out, hh, hstarted, hfinished⟩ := handle_chatModelEnd_nil (T := T) s invalid hne
    rw [hne] at he ⊢
    rw [eq_nil_of_executes he]
    simp only [agentTurnStream, hh, List.append_nil]
    refine iff_of_true ⟨⟨s, rfl⟩, .of_eq hstarted, .of_eq hfinished⟩ fun p hp => absurd hp List.not_mem_nil
  set kept := dedupedCalls m.toolCalls
  have htracks : Tracks kept (registerFromModelStep kept) m.toolCalls [] := tracks_registerFromModelStep hc
  simp only [agentTurnStream, handle_chatModelEnd s invalid hc hne]
  constructor
  · rintro ⟨-, hreported⟩ ⟨c, i⟩ hp
    by_contra hcon
    rw [not_or, not_ne_iff] at hcon
    obtain ⟨hdropped, rfl⟩ := hcon
    have hmem : c ∈ m.toolCalls := (List.of_mem_zip hp).1
    have hids : c.id ∉ startIds events := not_mem_startIds (startIds_of_executes he) hc hp
    have hstarted : c ∈ startedCalls (agentTurnStream T ⟨s.stepIndex + 1, registerFromModelStep kept⟩ events).1 :=
      hreported.started.mem_iff.2 hmem
    refine startedCalls_ne he (fun e hentry heq => ?_) hids c hstarted rfl
    rcases htracks.cases hentry with ⟨d, hd, hdkept, rfl⟩ | ⟨d, hd, -⟩
    · have hdc : d = c := List.inj_on_of_nodup_map hc.ids hd hmem heq
      exact hdropped (hdc ▸ hdkept)
    · exact absurd hd List.not_mem_nil
  · intro hstarts
    obtain ⟨hok, hstarted, hfinished⟩ :=
      reportsRest_of_executes (s := ⟨s.stepIndex + 1, registerFromModelStep kept⟩) he htracks
        ((List.append_nil m.toolCalls).symm ▸ hc) hstarts
    rw [List.append_nil] at hfinished
    exact ⟨hok, List.Perm.of_eq hstarted, hfinished⟩

/-! ### The same search twice -/

def searchCalls : List ToolCall :=
  [⟨"c1", "web_search", [("query", "lamps")]⟩, ⟨"c2", "web_search", [("query", "lamps")]⟩]

def searchMessage : AiMessage := ⟨"", searchCalls⟩

/-- The envelope of a result, with what stands for its error fields. -/
def envelope (success output errorType errorDetail : String) : String :=
  "\x7b\"tool_result\": \x7b\"success\": " ++ success ++ ", \"output\": \"" ++ output ++ "\", \"error_type\": " ++
    errorType ++ ", \"error_detail\": " ++ errorDetail ++ "\x7d\x7d"

def lampEnvelope : String := envelope "true" "lamps" "null" "null"

def searchResults : ToolResults :=
  ⟨fun content => if content = lampEnvelope then some (true, none) else none,
    fun error => envelope "false" "" "\"internal\"" ("\"" ++ error ++ "\"")⟩

/-- The events of both searches, with the id that the second start carries. -/
def searchEvents (callId : String) : List GraphEvent :=
  [.toolStart "c1" "web_search" [("query", "lamps")], .toolStart callId "web_search" [("query", "lamps")],
    .toolEnd "c2" "web_search" lampEnvelope, .toolEnd "c1" "web_search" lampEnvelope]

/-- What the runner makes of the step and of the events of its searches. -/
def searchStream (callId : String) : List AgentEvent × Except StreamError Runner :=
  agentTurnStream searchResults ⟨0, []⟩ (.chatModelEnd searchMessage [] :: searchEvents callId)

theorem contract_searchCalls : Contract searchCalls :=
  ⟨by decide, by decide, by decide⟩

theorem executes_searchEvents (callId : String) (h : callId = "c2" ∨ callId = "") :
    Executes searchResults searchCalls [] (searchEvents callId) := by
  refine .start _ "c1" (.inl rfl) (.start _ callId h ?_)
  have hparse : searchResults.parse lampEnvelope ≠ none := by
    simp [searchResults]
  refine .finish ⟨"c2", "web_search", [("query", "lamps")]⟩ (by decide) "web_search" (.inl rfl) lampEnvelope hparse ?_
  exact .finish ⟨"c1", "web_search", [("query", "lamps")]⟩ (by decide) "web_search" (.inl rfl) lampEnvelope hparse .done

/-- The second search is reported where its start carries its id. -/
theorem reported_with_ids :
    (∃ s', (searchStream "c2").2 = .ok s') ∧ Reported searchCalls (searchStream "c2").1 :=
  (reported_iff searchResults ⟨0, []⟩ searchMessage [] (searchEvents "c2") contract_searchCalls
    (executes_searchEvents "c2" (.inl rfl))).2 (by decide)

/-- The second search of a step is dropped, and its start by name only ends the turn. -/
theorem not_reported_by_name :
    Contract searchCalls ∧ Executes searchResults searchCalls [] (searchEvents "") ∧
      (searchStream "").2 = .error (.gateway "tool start event missing name=web_search matches=0") :=
  ⟨contract_searchCalls, executes_searchEvents "" (.inr rfl), by decide⟩

end NexusStudio.Turn
