import NexusStudio.Turn.ToolCalls

/-!
# Starts and finishes in the tool-call registry

The operations of `ToolCallRegistry` by any sequence of announcements and of starts and finishes of tools.

* (operations) `onStartM` and `completeM` with what they leave of the registry where they raise: it as it was
  (`apply_of_error`).
* (log) What was accepted since the last announcement, each event with what it carried and the call it was bound to.
* (law) `registry_law`: a finish has one start, a start one finish at most. A start by the name only is the first
  announced call of the tool that is not started, a finish by the name only the first open one.
* (unannounced) A finish by the name only can be bound to a call that its start has created
  (`finish_of_unannounced`).
-/

namespace NexusStudio.ToolRegistry

open Turn

/-! ### Announcements -/

/-- `ModelToolCall`. -/
abbrev ModelToolCall := { c : ToolCall // c.id ≠ "" ∧ c.name ≠ "" }

inductive Message
  | ai (toolCalls : List ModelToolCall)
  | tool (toolCallId : String)
  | other
  deriving DecidableEq

/-- The ids that tool messages answer. -/
def fulfilled (messages : List Message) : List String :=
  messages.filterMap fun
    | .tool toolCallId => if toolCallId = "" then none else some toolCallId
    | _ => none

def unresolvedPendingToolCalls (messages : List Message) : List ModelToolCall :=
  let calls := messages.reverse.findSome? fun
    | .ai toolCalls => some toolCalls
    | _ => none
  (calls.getD []).filter fun c => c.1.id ∉ fulfilled messages

/-- The calls of the last message of the model that no tool message answers. -/
theorem unresolvedPendingToolCalls_eq {before after : List Message} {calls : List ModelToolCall}
    (h : ∀ m ∈ after, ∀ calls, m ≠ .ai calls) :
    unresolvedPendingToolCalls (before ++ .ai calls :: after) =
      calls.filter fun c => c.1.id ∉ fulfilled (before ++ .ai calls :: after) := by
  have hnone : after.reverse.findSome? (fun m : Message => match m with
      | .ai toolCalls => some toolCalls
      | _ => none) = none := by
    refine List.findSome?_eq_none_iff.2 fun m hm => ?_
    cases m with
    | ai toolCalls => exact absurd rfl (h _ (List.mem_reverse.1 hm) toolCalls)
    | _ => rfl
  unfold unresolvedPendingToolCalls
  rw [List.reverse_append, List.reverse_cons, List.append_assoc, List.findSome?_append, hnone]
  rfl

/-! ### Operations -/

/-- `on_start`: what it returns or raises, and what it leaves. -/
def onStartM (entries : Entries) (callId toolName : String) (args : ToolArgs) :
    Except StreamError ToolCallEntry × Entries :=
  match startedEntry entries callId toolName with
  | .error x => (.error x, entries)
  | .ok (i, name) =>
    -- an entry that is not there is created before it is started
    let created := if (entries.find i).isSome then entries else entries ++ [⟨i, name, .pending, []⟩]
    (.ok ⟨i, name, .started, args⟩, created.put ⟨i, name, .started, args⟩)

/-- `_complete`, which takes the entry out before its last checks. -/
def completeM (entries : Entries) (callId toolName context : String) : Except StreamError ToolCallEntry × Entries :=
  match resolveIdentity entries callId toolName .started context with
  | .error x => (.error x, entries)
  | .ok (i, name) =>
    match entries.find i with
    | none => (.error (.gateway s!"{context} has no matching start"), entries.pop i)
    | some e =>
      if e.phase ≠ .started then (.error (.gateway s!"{context} has no matching start"), entries.pop i)
      else if toolName ≠ "" ∧ e.toolName ≠ name then
        (.error (.gateway s!"{context} call_id/name mismatch registry"), entries.pop i)
      else (.ok e, entries.pop i)

inductive Event
  | start (callId toolName : String) (args : ToolArgs)
  -- `on_end`, or `on_error` of a failed one
  | finish (callId toolName : String) (failed : Bool)
  deriving DecidableEq, Repr

def Event.apply (entries : Entries) : Event → Except StreamError ToolCallEntry × Entries
  | start callId toolName args => onStartM entries callId toolName args
  | finish callId toolName failed =>
    completeM entries callId toolName (if failed then "tool error event" else "tool end event")

/-- An event that was accepted: the id and the name that it carried, and those of the call it was bound to. -/
inductive Accepted
  | started (carriedId carriedName callId toolName : String)
  | finished (carriedId carriedName callId toolName : String)
  deriving DecidableEq, Repr

def Accepted.callId : Accepted → String
  | started _ _ callId _ => callId
  | finished _ _ callId _ => callId

def Event.accepted (e : ToolCallEntry) : Event → Accepted
  | start callId toolName _ => .started callId toolName e.callId e.toolName
  | finish callId toolName _ => .finished callId toolName e.callId e.toolName

/-! ### Runs -/

/-- The registry, with the calls that were announced last and what was accepted since. -/
structure State where
  calls : List ToolCall
  entries : Entries
  log : List Accepted
  deriving DecidableEq, Repr

inductive Input
  -- `register_from_model_step`
  | register (calls : List ModelToolCall)
  -- `seed_from_messages`
  | seed (messages : List Message)
  | event (e : Event)

/-- An announcement clears the registry. -/
def announced (calls : List ToolCall) : State := ⟨calls, registerFromModelStep calls, []⟩

def State.step (s : State) : Input → State
  | .register calls => announced (calls.map Subtype.val)
  | .seed messages => announced ((unresolvedPendingToolCalls messages).map Subtype.val)
  | .event e =>
    match e.apply s.entries with
    | (.error _, entries) => { s with entries := entries }
    | (.ok x, entries) => { s with entries := entries, log := s.log ++ [e.accepted x] }

def run (inputs : List Input) : State := inputs.foldl State.step (announced [])

/-! ### The law -/

/-- The start of a call. -/
def Accepted.Starts (callId : String) : Accepted → Prop
  | started _ _ i _ => i = callId
  | finished _ _ _ _ => False

instance (callId : String) (a : Accepted) : Decidable (a.Starts callId) := by
  cases a
  · exact inferInstanceAs (Decidable (_ = _))
  · exact inferInstanceAs (Decidable False)

/-- A start of the call was accepted. -/
def Started (log : List Accepted) (callId : String) : Prop := ∃ a ∈ log, a.Starts callId

instance (log : List Accepted) (callId : String) : Decidable (Started log callId) :=
  inferInstanceAs (Decidable (∃ a ∈ log, _))

/-- The start at the place is of the call, and nothing after it is. -/
structure Open (log : List Accepted) (i : Nat) (callId toolName : String) : Prop where
  start : ∃ carriedId carriedName, log[i]? = some (.started carriedId carriedName callId toolName)
  after : ∀ k a, i < k → log[k]? = some a → a.callId ≠ callId

/-- The finish at `j` is of the call whose start at `i` is open then. -/
def Matches (log : List Accepted) (i j : Nat) : Prop :=
  ∃ carriedId carriedName callId toolName, log[j]? = some (.finished carriedId carriedName callId toolName) ∧
    Open (log.take j) i callId toolName

/-- The ids of the registered calls: the announced ones in the order of the model, and the ones that their starts have
created. -/
structure Order where
  announced : List String
  created : List String

def Order.ids (o : Order) : List String := o.announced ++ o.created

def Order.next (o : Order) : Accepted → Order
  | .started _ _ callId _ => if callId ∈ o.ids then o else { o with created := o.created ++ [callId] }
  | .finished _ _ callId _ => ⟨o.announced.filter (· ≠ callId), o.created.filter (· ≠ callId)⟩

def order (calls : List ToolCall) (log : List Accepted) : Order :=
  log.foldl Order.next ⟨(registerFromModelStep calls).map ToolCallEntry.callId, []⟩

/-- A start has the id and the name that it carries. By the name only it is of the first announced call of the tool that
has not been started. -/
structure StartBound (calls : List ToolCall) (past : List Accepted) (carriedId carriedName callId toolName : String) :
    Prop where
  id : carriedId ≠ "" → callId = carriedId
  name : carriedName ≠ "" → toolName = carriedName
  first : carriedId = "" → carriedName ≠ "" → ∃ before e after, registerFromModelStep calls = before ++ e :: after ∧
    e.callId = callId ∧ e.toolName = carriedName ∧ ¬ Started past callId ∧
      ∀ x ∈ before, x.toolName = carriedName → Started past x.callId

/-- A finish has the id and the name that it carries, and is of an open call. By the name only it is of the first open call
of the tool. -/
structure FinishBound (calls : List ToolCall) (past : List Accepted) (carriedId carriedName callId toolName : String) :
    Prop where
  id : carriedId ≠ "" → callId = carriedId
  name : carriedName ≠ "" → toolName = carriedName
  opened : ∃ i, Open past i callId toolName
  first : carriedId = "" → carriedName ≠ "" → ∃ before after, (order calls past).ids = before ++ callId :: after ∧
    ∀ x ∈ before, ∀ i, ¬ Open past i x carriedName

def Accepted.Bound (calls : List ToolCall) (past : List Accepted) : Accepted → Prop
  | .started carriedId carriedName callId toolName => StartBound calls past carriedId carriedName callId toolName
  | .finished carriedId carriedName callId toolName => FinishBound calls past carriedId carriedName callId toolName

/-- Every accepted event is bound by what was accepted before it. -/
def Lawful (calls : List ToolCall) (log : List Accepted) : Prop :=
  ∀ k (a : Accepted), log[k]? = some a → a.Bound calls (log.take k)

/-! ### What is raised -/

section Proofs

variable {entries entries' : Entries} {callId toolName context i name : String} {args : ToolArgs} {e : ToolCallEntry}
  {x : StreamError} {calls : List ToolCall} {log past : List Accepted} {a : Accepted} {j k n : Nat}

theorem callId_of_find (h : entries.find i = some e) : e ∈ entries ∧ e.callId = i :=
  ⟨List.mem_of_find?_eq_some h, of_decide_eq_true (List.find?_some h :)⟩

theorem callId_ne_of_find (h : entries.find i = none) : ∀ y ∈ entries, y.callId ≠ i := by
  intro y hy heq
  exact absurd (decide_eq_true heq) (List.find?_eq_none.1 h y hy)

theorem put_of_find (h : entries.find e.callId = none) : entries.put e = entries ++ [e] := by
  rw [Entries.put, h]
  rfl

/-- An entry that is created and then overwritten is the overwriting one. -/
theorem put_created {y : ToolCallEntry} (h : entries.find e.callId = none) (hid : y.callId = e.callId) :
    Entries.put (entries ++ [y]) e = entries.put e := by
  have hsome : (Entries.find (entries ++ [y]) e.callId).isSome := by
    rw [Entries.find, List.find?_isSome]
    exact ⟨y, List.mem_append_right _ (List.mem_singleton_self y), decide_eq_true hid⟩
  have hsame : entries.map (fun x => if x.callId = e.callId then e else x) = entries := by
    conv => rhs; rw [← List.map_id entries]
    exact List.map_congr_left fun x hx => if_neg (callId_ne_of_find h x hx)
  rw [Entries.put, if_pos hsome, List.map_append, hsame, List.map_singleton, if_pos hid, put_of_find h]

theorem onStartM_eq (entries : Entries) (callId toolName : String) (args : ToolArgs) :
    onStartM entries callId toolName args =
      match onStart entries callId toolName args with
      | .error x => (.error x, entries)
      | .ok (e, entries') => (.ok e, entries') := by
  unfold onStartM onStart
  cases startedEntry entries callId toolName with
  | error x => rfl
  | ok p =>
    obtain ⟨i, name⟩ := p
    dsimp only
    cases hfind : entries.find i with
    | some y => rfl
    | none =>
      have hput : Entries.put (entries ++ [⟨i, name, .pending, []⟩]) ⟨i, name, .started, args⟩ =
          entries.put ⟨i, name, .started, args⟩ := put_created hfind rfl
      simp only [Option.isSome_none, Bool.false_eq_true, if_false, hput]

/-- A call that is resolved is started, or unknown. -/
theorem resolveIdentity_started (hids : (entries.map ToolCallEntry.callId).Nodup)
    (h : resolveIdentity entries callId toolName .started context = .ok (i, name)) :
    (callId ≠ "" → i = callId) ∧ (toolName ≠ "" → name = toolName) ∧
      (callId = "" → toolName ≠ "" → ∃ e rest,
        entries.filter (fun e => e.toolName = toolName ∧ e.phase = .started) = e :: rest ∧ e.callId = i) ∧
      (entries.find i = none ∨ ∃ e, entries.find i = some e ∧ e.phase = .started ∧ e.toolName = name) := by
  unfold resolveIdentity at h
  split at h
  · next hboth =>
    obtain ⟨hid, hname⟩ := hboth
    split at h
    · next hfind =>
      cases h
      exact ⟨fun _ => rfl, fun _ => rfl, fun heq => absurd heq hid, .inl hfind⟩
    · next e hfind =>
      split at h
      · cases h
      · next hsame =>
        split at h
        · cases h
        · next hphase =>
          cases h
          exact ⟨fun _ => rfl, fun _ => rfl, fun heq => absurd heq hid,
            .inr ⟨e, hfind, not_not.1 hphase, not_not.1 hsame⟩⟩
  · next hnot =>
    split at h
    · next hid =>
      have hname : toolName = "" := by
        by_contra hne
        exact hnot ⟨hid, hne⟩
      split at h
      · cases h
      · next e hfind =>
        split at h
        · cases h
        · next hphase =>
          cases h
          rw [(callId_of_find hfind).2]
          exact ⟨fun _ => rfl, fun hne => absurd hname hne, fun heq => absurd heq hid,
            .inr ⟨e, hfind, not_not.1 hphase, rfl⟩⟩
    · next hid =>
      split at h
      · split at h
        · cases h
        · next e rest hfilter =>
          cases h
          obtain ⟨he, hmatch⟩ := List.mem_filter.1 (hfilter ▸ List.mem_cons_self : e ∈ entries.filter fun e =>
            e.toolName = toolName ∧ e.phase = .started)
          obtain ⟨hname, hphase⟩ := of_decide_eq_true hmatch
          exact ⟨fun hne => absurd hne hid, fun _ => hname, fun _ _ => ⟨e, rest, hfilter, rfl⟩,
            .inr ⟨e, Entries.find_eq_some hids he, hphase, rfl⟩⟩
      · next hname =>
        split at h
        · next e hfilter =>
          cases h
          obtain ⟨he, hphase⟩ := List.mem_filter.1 (hfilter ▸ List.mem_cons_self : e ∈ entries.filter fun e =>
            e.phase = .started)
          exact ⟨fun hne => absurd hne hid, fun hne => absurd hne hname, fun _ hne => absurd hne hname,
            .inr ⟨e, Entries.find_eq_some hids he, of_decide_eq_true hphase, rfl⟩⟩
        · cases h

theorem pop_of_find (h : entries.find i = none) : entries.pop i = entries :=
  List.filter_eq_self.2 fun y hy => decide_eq_true (callId_ne_of_find h y hy)

/-- The checks after the entry is taken out do not fail. -/
theorem completeM_eq (hids : (entries.map ToolCallEntry.callId).Nodup) (callId toolName context : String) :
    completeM entries callId toolName context =
      match complete entries callId toolName context with
      | .error x => (.error x, entries)
      | .ok (e, entries') => (.ok e, entries') := by
  unfold completeM complete
  cases hresolve : resolveIdentity entries callId toolName .started context with
  | error x => rfl
  | ok p =>
    obtain ⟨i, name⟩ := p
    obtain ⟨-, -, -, hfind | ⟨e, hfind, hphase, hname⟩⟩ := resolveIdentity_started hids hresolve
    · simp only [hfind, pop_of_find hfind]
    · simp [hfind, hphase, hname]

/-- An event that raises leaves the registry as it was. -/
theorem apply_of_error (hids : (entries.map ToolCallEntry.callId).Nodup) {e : Event}
    (h : e.apply entries = (.error x, entries')) : entries' = entries := by
  cases e with
  | start callId toolName args =>
    rw [Event.apply, onStartM_eq] at h
    split at h
    · exact (congrArg Prod.snd h).symm
    · cases congrArg Prod.fst h
  | finish callId toolName failed =>
    rw [Event.apply, completeM_eq hids] at h
    split at h
    · exact (congrArg Prod.snd h).symm
    · cases congrArg Prod.fst h

/-! ### What is accepted -/

/-- A start that is accepted puts the entry of its call; by the name only it is the first pending one. -/
theorem startedEntry_cases (h : startedEntry entries callId toolName = .ok (i, name)) :
    (callId ≠ "" → i = callId) ∧ (toolName ≠ "" → name = toolName) ∧
      (callId = "" → toolName ≠ "" → ∃ e rest,
        entries.filter (fun e => e.toolName = toolName ∧ e.phase = .pending) = e :: rest ∧ e.callId = i) := by
  unfold startedEntry at h
  split at h
  · next hboth =>
    have hsame : i = callId ∧ name = toolName := by
      split at h
      · cases h
        exact ⟨rfl, rfl⟩
      · split at h
        · cases h
        · split at h
          · cases h
          · cases h
            exact ⟨rfl, rfl⟩
    exact ⟨fun _ => hsame.1, fun _ => hsame.2, fun heq => absurd heq hboth.1⟩
  · next hnot =>
    unfold resolveIdentity at h
    rw [if_neg hnot] at h
    split at h
    · next hid =>
      have hname : toolName = "" := by
        by_contra hne
        exact hnot ⟨hid, hne⟩
      split at h
      · cases h
      · next e hfind =>
        split at h
        · cases h
        · cases h
          exact ⟨fun _ => (callId_of_find hfind).2, fun hne => absurd hname hne, fun heq => absurd heq hid⟩
    · next hid =>
      split at h
      · split at h
        · cases h
        · next e rest hfilter =>
          cases h
          obtain ⟨-, hmatch⟩ := List.mem_filter.1 (hfilter ▸ List.mem_cons_self : e ∈ entries.filter fun e =>
            e.toolName = toolName ∧ e.phase = .pending)
          exact ⟨fun hne => absurd hne hid, fun _ => (of_decide_eq_true hmatch).1, fun _ _ => ⟨e, rest, hfilter, rfl⟩⟩
      · next hname => exact ⟨fun hne => absurd hne hid, fun hne => absurd hne hname, fun _ hne => absurd hne hname⟩

theorem onStartM_ok (h : onStartM entries callId toolName args = (.ok e, entries')) :
    entries' = entries.put e ∧ e.phase = .started ∧ startedEntry entries callId toolName = .ok (e.callId, e.toolName) := by
  rw [onStartM_eq] at h
  unfold onStart at h
  cases hentry : startedEntry entries callId toolName with
  | error x =>
    rw [hentry] at h
    cases congrArg Prod.fst h
  | ok p =>
    obtain ⟨i, name⟩ := p
    rw [hentry] at h
    cases h
    exact ⟨rfl, rfl, rfl⟩

/-- A finish that is accepted takes out the entry of its call, which is started. -/
theorem completeM_ok (hids : (entries.map ToolCallEntry.callId).Nodup)
    (h : completeM entries callId toolName context = (.ok e, entries')) :
    entries' = entries.pop e.callId ∧ e ∈ entries ∧ e.phase = .started ∧ (callId ≠ "" → e.callId = callId) ∧
      (toolName ≠ "" → e.toolName = toolName) ∧
      (callId = "" → toolName ≠ "" → ∃ rest,
        entries.filter (fun e => e.toolName = toolName ∧ e.phase = .started) = e :: rest) := by
  rw [completeM_eq hids] at h
  unfold complete at h
  cases hresolve : resolveIdentity entries callId toolName .started context with
  | error x =>
    rw [hresolve] at h
    cases congrArg Prod.fst h
  | ok p =>
    obtain ⟨i, name⟩ := p
    rw [hresolve] at h
    obtain ⟨hid, hname, hfirst, hfind | ⟨e', hfind, hphase, hsame⟩⟩ := resolveIdentity_started hids hresolve
    · simp only [hfind] at h
      cases congrArg Prod.fst h
    · simp only [hfind, hphase, hsame] at h
      simp only [ne_eq, not_true_eq_false, if_false, and_false] at h
      cases h
      obtain ⟨hmem, hcall⟩ := callId_of_find hfind
      refine ⟨by rw [hcall], hmem, hphase, fun hne => hcall.trans (hid hne), fun hne => hsame.trans (hname hne),
        fun heq hne => ?_⟩
      obtain ⟨e', rest, hfilter, hi⟩ := hfirst heq hne
      have hmem' : e' ∈ entries :=
        (List.mem_filter.1 (hfilter ▸ List.mem_cons_self : e' ∈ entries.filter fun e =>
          e.toolName = toolName ∧ e.phase = .started)).1
      rw [List.inj_on_of_nodup_map hids hmem hmem' (hcall.trans hi.symm)]
      exact ⟨rest, hfilter⟩

/-! ### Logs -/

theorem started_append : Started (log ++ [a]) i ↔ Started log i ∨ a.Starts i := by
  unfold Started
  simp only [List.mem_append, List.mem_singleton, or_and_right, exists_or, exists_eq_left]

theorem getElem?_append_singleton : (log ++ [a])[k]? = if k = log.length then some a else log[k]? := by
  rcases Nat.lt_trichotomy k log.length with hlt | rfl | hgt
  · rw [List.getElem?_append_left hlt, if_neg hlt.ne]
  · simp
  · rw [if_neg hgt.ne', List.getElem?_eq_none (by simp; omega), List.getElem?_eq_none hgt.le]

/-- The open calls after one more event. -/
theorem open_append : Open (log ++ [a]) n i name ↔
    a.callId ≠ i ∧ Open log n i name ∨
      n = log.length ∧ ∃ carriedId carriedName, a = .started carriedId carriedName i name := by
  constructor
  · rintro ⟨⟨carriedId, carriedName, hstart⟩, hafter⟩
    rw [getElem?_append_singleton] at hstart
    split at hstart
    · next heq => exact .inr ⟨heq, carriedId, carriedName, Option.some.inj hstart⟩
    · next hne =>
      have hlt : n < log.length := (List.getElem?_eq_some_iff.1 hstart).1
      refine .inl ⟨hafter log.length a hlt (by simp), ⟨carriedId, carriedName, hstart⟩, fun k b hk hb => ?_⟩
      have hlt' : k < log.length := (List.getElem?_eq_some_iff.1 hb).1
      exact hafter k b hk (by rwa [List.getElem?_append_left hlt'])
  · rintro (⟨hne, ⟨carriedId, carriedName, hstart⟩, hafter⟩ | ⟨rfl, carriedId, carriedName, rfl⟩)
    · have hlt : n < log.length := (List.getElem?_eq_some_iff.1 hstart).1
      refine ⟨⟨carriedId, carriedName, by rwa [List.getElem?_append_left hlt]⟩, fun k b hk hb => ?_⟩
      rw [getElem?_append_singleton] at hb
      split at hb
      · rwa [← Option.some.inj hb]
      · exact hafter k b hk hb
    · refine ⟨⟨carriedId, carriedName, by simp⟩, fun k b hk hb => ?_⟩
      rw [List.getElem?_eq_none (by simp; omega)] at hb
      cases hb

theorem lawful_append (h : Lawful calls log) (ha : a.Bound calls log) : Lawful calls (log ++ [a]) := by
  intro k b hb
  rw [getElem?_append_singleton] at hb
  split at hb
  · next heq =>
    rw [heq, List.take_left, ← Option.some.inj hb]
    exact ha
  · have hlt : k < log.length := (List.getElem?_eq_some_iff.1 hb).1
    rw [List.take_append_of_le_length hlt.le]
    exact h k b hb

theorem order_append : order calls (log ++ [a]) = (order calls log).next a := by
  rw [order, List.foldl_append]
  rfl

/-- The announced calls stay in the order of the model. -/
theorem announced_sublist (calls : List ToolCall) (log : List Accepted) :
    (order calls log).announced.Sublist ((registerFromModelStep calls).map ToolCallEntry.callId) := by
  induction log using List.reverseRecOn with
  | nil => exact .refl _
  | append_singleton log a ih =>
    rw [order_append]
    cases a with
    | started _ _ callId _ =>
      rw [Order.next]
      split
      · exact ih
      · exact ih
    | finished _ _ callId _ => exact List.filter_sublist.trans ih

/-! ### The registry and the log -/

structure Inv (s : State) : Prop where
  ids : s.entries.map ToolCallEntry.callId = (order s.calls s.log).ids
  nodup : (s.entries.map ToolCallEntry.callId).Nodup
  -- the pending entries are the announced calls that are not started, in the order of the model
  pending : s.entries.filter (fun e => e.phase = .pending) =
    (registerFromModelStep s.calls).filter fun e => ¬ Started s.log e.callId
  -- the started entries are the open calls
  started : ∀ e ∈ s.entries, e.phase = .started → ∃ n, Open s.log n e.callId e.toolName
  opened : ∀ n i name, Open s.log n i name → ∃ e ∈ s.entries, e.phase = .started ∧ e.callId = i ∧ e.toolName = name
  law : Lawful s.calls s.log

theorem registerFromModelStep_spec (calls : List ToolCall) :
    ((registerFromModelStep calls).map ToolCallEntry.callId).Nodup ∧
      ∀ e ∈ registerFromModelStep calls, e.phase = .pending := by
  unfold registerFromModelStep
  refine List.foldlRecOn calls _ (motive := fun entries : Entries =>
    (entries.map ToolCallEntry.callId).Nodup ∧ ∀ e ∈ entries, e.phase = .pending) ⟨List.nodup_nil, nofun⟩ ?_
  rintro entries ⟨hnodup, hpending⟩ c -
  refine ⟨Entries.nodup_put hnodup, fun e he => ?_⟩
  rcases Entries.mem_put.1 he with rfl | ⟨he, -⟩
  · rfl
  · exact hpending e he

theorem inv_announced (calls : List ToolCall) : Inv (announced calls) := by
  obtain ⟨hnodup, hpending⟩ := registerFromModelStep_spec calls
  refine ⟨?_, hnodup, ?_, fun e he hstarted => ?_, fun n i name hopen => ?_, nofun⟩
  · change _ = _ ++ []
    rw [List.append_nil]
    rfl
  · refine Eq.trans (List.filter_eq_self.2 fun e he => decide_eq_true (hpending e he)) ?_
    refine (List.filter_eq_self.2 fun e _ => decide_eq_true ?_).symm
    rintro ⟨a, ha, -⟩
    cases ha
  · rw [hpending e he] at hstarted
    cases hstarted
  · obtain ⟨carriedId, carriedName, hstart⟩ := hopen.start
    cases hstart

theorem ids_put : (entries.put e).map ToolCallEntry.callId =
    if e.callId ∈ entries.map ToolCallEntry.callId then entries.map ToolCallEntry.callId
    else entries.map ToolCallEntry.callId ++ [e.callId] := by
  cases hfind : entries.find e.callId with
  | some y =>
    have hmem : e.callId ∈ entries.map ToolCallEntry.callId :=
      List.mem_map.2 ⟨y, (callId_of_find hfind).1, (callId_of_find hfind).2⟩
    rw [if_pos hmem, Entries.put, hfind, Option.isSome_some, if_pos rfl, List.map_map]
    refine List.map_congr_left fun x _ => ?_
    rw [Function.comp_apply]
    split
    · next heq => exact heq.symm
    · rfl
  | none =>
    have hnot : e.callId ∉ entries.map ToolCallEntry.callId := by
      intro hmem
      obtain ⟨y, hy, heq⟩ := List.mem_map.1 hmem
      exact callId_ne_of_find hfind y hy heq
    rw [if_neg hnot, put_of_find hfind, List.map_append]
    rfl

theorem ids_pop : (entries.pop i).map ToolCallEntry.callId = (entries.map ToolCallEntry.callId).filter (· ≠ i) := by
  rw [Entries.pop, List.filter_map]
  rfl

variable {s : State}

/-- A start by the name only is of the first announced call of the tool that is not started. -/
theorem first_announced (hI : Inv s) {rest : List ToolCallEntry}
    (h : s.entries.filter (fun e => e.toolName = toolName ∧ e.phase = .pending) = e :: rest) :
    ∃ before after, registerFromModelStep s.calls = before ++ e :: after ∧ e.toolName = toolName ∧
      ¬ Started s.log e.callId ∧ ∀ x ∈ before, x.toolName = toolName → Started s.log x.callId := by
  have hmatches : s.entries.filter (fun e => e.toolName = toolName ∧ e.phase = .pending) =
      (registerFromModelStep s.calls).filter fun e => e.toolName = toolName ∧ ¬ Started s.log e.callId := by
    have hleft : s.entries.filter (fun e => e.toolName = toolName ∧ e.phase = .pending) =
        (s.entries.filter fun e => e.phase = .pending).filter fun e => e.toolName = toolName := by
      rw [List.filter_filter]
      exact List.filter_congr fun e _ => by simp
    rw [hleft, hI.pending, List.filter_filter]
    exact List.filter_congr fun e _ => by simp
  rw [hmatches] at h
  obtain ⟨before, after, hsplit, hbefore, he, -⟩ := List.filter_eq_cons_iff.1 h
  obtain ⟨hname, hnot⟩ := of_decide_eq_true he
  refine ⟨before, after, hsplit, hname, hnot, fun x hx hxname => ?_⟩
  by_contra hxnot
  exact hbefore x hx (decide_eq_true ⟨hxname, hxnot⟩)

theorem inv_start (hI : Inv s) (h : onStartM s.entries callId toolName args = (.ok e, entries')) :
    Inv { s with entries := entries', log := s.log ++ [.started callId toolName e.callId e.toolName] } := by
  obtain ⟨rfl, hphase, hentry⟩ := onStartM_ok h
  obtain ⟨hid, hname, hfirst⟩ := startedEntry_cases hentry
  refine ⟨?_, Entries.nodup_put hI.nodup, ?_, fun x hx hx' => ?_, fun n i name hopen => ?_, lawful_append hI.law ?_⟩
  · dsimp only
    rw [order_append, ids_put, hI.ids, Order.next]
    split
    · rfl
    · exact List.append_assoc _ _ _
  · dsimp only
    rw [Entries.filter_put hphase, hI.pending, List.filter_filter]
    refine List.filter_congr fun x _ => ?_
    rw [← Bool.decide_and, decide_eq_decide, started_append, not_or]
    exact and_comm.trans (and_congr_right fun _ => not_congr eq_comm)
  · rcases Entries.mem_put.1 hx with rfl | ⟨hx, hne⟩
    · exact ⟨s.log.length, open_append.2 (.inr ⟨rfl, callId, toolName, rfl⟩)⟩
    · obtain ⟨n, hn⟩ := hI.started x hx hx'
      exact ⟨n, open_append.2 (.inl ⟨hne.symm, hn⟩)⟩
  · rcases open_append.1 hopen with ⟨hne, hopen⟩ | ⟨-, carriedId, carriedName, hstart⟩
    · obtain ⟨x, hx, hx', hxid, hxname⟩ := hI.opened n i name hopen
      exact ⟨x, Entries.mem_put.2 (.inr ⟨hx, fun heq => hne (heq.symm.trans hxid)⟩), hx', hxid, hxname⟩
    · cases hstart
      exact ⟨e, Entries.mem_put.2 (.inl rfl), hphase, rfl, rfl⟩
  · refine ⟨hid, hname, fun hnone hsome => ?_⟩
    obtain ⟨x, rest, hfilter, hxid⟩ := hfirst hnone hsome
    obtain ⟨before, after, hsplit, hxname, hnot, hbefore⟩ := first_announced hI hfilter
    exact ⟨before, x, after, hsplit, hxid, hxname, hxid ▸ hnot, hbefore⟩

theorem inv_finish (hI : Inv s) (h : completeM s.entries callId toolName context = (.ok e, entries')) :
    Inv { s with entries := entries', log := s.log ++ [.finished callId toolName e.callId e.toolName] } := by
  obtain ⟨rfl, he, hphase, hid, hname, hfirst⟩ := completeM_ok hI.nodup h
  have hmem : ∀ x, x ∈ s.entries.pop e.callId ↔ x ∈ s.entries ∧ x.callId ≠ e.callId := by
    intro x
    rw [Entries.pop, List.mem_filter, decide_eq_true_eq]
  refine ⟨?_, hI.nodup.sublist (List.filter_sublist.map _), ?_, fun x hx hx' => ?_, fun n i name hopen => ?_,
    lawful_append hI.law ?_⟩
  · dsimp only
    rw [order_append, ids_pop, hI.ids, Order.next, Order.ids, Order.ids, List.filter_append]
  · have hsame : (s.entries.pop e.callId).filter (fun x => x.phase = .pending) =
        s.entries.filter fun x => x.phase = .pending := by
      rw [Entries.pop, List.filter_filter]
      refine List.filter_congr fun x hx => ?_
      by_cases hxid : x.callId = e.callId
      · rw [List.inj_on_of_nodup_map hI.nodup hx he hxid]
        simp [hphase]
      · simp [hxid]
    dsimp only
    rw [hsame, hI.pending]
    refine List.filter_congr fun x _ => decide_eq_decide.2 (not_congr ?_)
    rw [started_append]
    exact (or_iff_left id).symm
  · obtain ⟨hx, hne⟩ := (hmem x).1 hx
    obtain ⟨n, hn⟩ := hI.started x hx hx'
    exact ⟨n, open_append.2 (.inl ⟨hne.symm, hn⟩)⟩
  · rcases open_append.1 hopen with ⟨hne, hopen⟩ | ⟨-, carriedId, carriedName, hstart⟩
    · obtain ⟨x, hx, hx', hxid, hxname⟩ := hI.opened n i name hopen
      exact ⟨x, (hmem x).2 ⟨hx, fun heq => hne (heq.symm.trans hxid)⟩, hx', hxid, hxname⟩
    · cases hstart
  · refine ⟨fun hne => hid hne, fun hne => hname hne, hI.started e he hphase, fun hnone hsome => ?_⟩
    obtain ⟨rest, hfilter⟩ := hfirst hnone hsome
    obtain ⟨before, after, hsplit, hbefore, -, -⟩ := List.filter_eq_cons_iff.1 hfilter
    refine ⟨before.map ToolCallEntry.callId, after.map ToolCallEntry.callId, ?_, fun i hi n hopen => ?_⟩
    · rw [← hI.ids, hsplit, List.map_append, List.map_cons]
    · obtain ⟨x, hx, hx', hxid, hxname⟩ := hI.opened n i toolName hopen
      obtain ⟨y, hy, rfl⟩ := List.mem_map.1 hi
      have hy' : y ∈ s.entries := hsplit ▸ List.mem_append_left _ hy
      rw [List.inj_on_of_nodup_map hI.nodup hx hy' hxid] at hx' hxname
      exact hbefore y hy (decide_eq_true ⟨hxname, hx'⟩)

theorem inv_step (hI : Inv s) (input : Input) : Inv (s.step input) := by
  cases input with
  | register calls => exact inv_announced _
  | seed messages => exact inv_announced _
  | event e =>
    rw [State.step]
    split
    · next x entries' happly =>
      rw [apply_of_error hI.nodup happly]
      exact hI
    · next x entries' happly =>
      cases e with
      | start callId toolName args => exact inv_start hI happly
      | finish callId toolName failed => exact inv_finish hI happly

theorem inv_run (inputs : List Input) : Inv (run inputs) :=
  List.foldlRecOn inputs State.step (inv_announced []) fun _ hI input _ => inv_step hI input

/-! ### Starts and finishes -/

/-- A call has one open start at most. -/
theorem open_unique {m : Nat} {name' : String} (h : Open log n i name) (h' : Open log m i name') : n = m := by
  obtain ⟨carriedId, carriedName, hstart⟩ := h.start
  obtain ⟨carriedId', carriedName', hstart'⟩ := h'.start
  rcases Nat.lt_trichotomy n m with hlt | heq | hgt
  · exact absurd rfl (h.after m _ hlt hstart')
  · exact heq
  · exact absurd rfl (h'.after n _ hgt hstart)

theorem matches_unique {m : Nat} (h : Matches log n j) (h' : Matches log m j) : n = m := by
  obtain ⟨_, _, i, name, hfinish, hopen⟩ := h
  obtain ⟨_, _, i', name', hfinish', hopen'⟩ := h'
  cases hfinish.symm.trans hfinish'
  exact open_unique hopen hopen'

theorem not_matches_of_lt (h : Matches log n j) (h' : Matches log n k) : ¬ j < k := by
  intro hlt
  obtain ⟨_, _, i, name, hfinish, hopen⟩ := h
  obtain ⟨_, _, i', name', -, hopen'⟩ := h'
  obtain ⟨_, _, hstart⟩ := hopen.start
  obtain ⟨_, _, hstart'⟩ := hopen'.start
  have hn : n < j := by
    have hlt := (List.getElem?_eq_some_iff.1 hstart).1
    rw [List.length_take] at hlt
    omega
  rw [List.getElem?_take_of_lt hn] at hstart
  rw [List.getElem?_take_of_lt (hn.trans hlt), hstart] at hstart'
  cases hstart'
  -- the finish at `j` is of the call, too
  have hj : (log.take k)[j]? = log[j]? := List.getElem?_take_of_lt hlt
  exact hopen'.after j _ hn (hj.trans hfinish) rfl

/-- A start is matched by one finish at most. -/
theorem matches_once (h : Matches log n j) (h' : Matches log n k) : j = k :=
  Nat.le_antisymm (Nat.le_of_not_lt (not_matches_of_lt h' h)) (Nat.le_of_not_lt (not_matches_of_lt h h'))

/-- Two starts by the name only are of different calls. -/
theorem nameStart_once (hlaw : Lawful calls log) {carriedName carriedName' : String} {name' : String}
    (hj : log[j]? = some (.started "" carriedName i name)) (hk : log[k]? = some (.started "" carriedName' i name'))
    (hne : carriedName' ≠ "") : ¬ j < k := by
  intro hlt
  have hbound : StartBound calls (log.take k) "" carriedName' i name' := hlaw k _ hk
  obtain ⟨_, _, _, -, -, -, hnot, -⟩ := hbound.first rfl hne
  have hmem : Accepted.started "" carriedName i name ∈ log.take k :=
    List.mem_of_getElem? ((List.getElem?_take_of_lt hlt).trans hj)
  have hstarts : (Accepted.started "" carriedName i name).Starts i := rfl
  exact hnot ⟨_, hmem, hstarts⟩

/-- In every sequence of announcements, starts and finishes, of what is accepted since the last announcement: every finish
matches one start, which has its id and name and no other finish. A start by the name only is of the first announced call
of the tool that is not started yet, and no other start by the name only is of this call; a finish by the name only is of
the first open call of the tool. What raises leaves the registry as it was. -/
theorem registry_law (inputs : List Input) :
    let s := run inputs
    (∀ (j : Nat) carriedId carriedName i name, s.log[j]? = some (Accepted.finished carriedId carriedName i name) →
      ∃! n, Matches s.log n j) ∧
    (∀ n j k, Matches s.log n j → Matches s.log n k → j = k) ∧
    Lawful s.calls s.log ∧
    (∀ (j k : Nat) carriedName carriedName' i name name', s.log[j]? = some (Accepted.started "" carriedName i name) →
      s.log[k]? = some (Accepted.started "" carriedName' i name') → carriedName ≠ "" → carriedName' ≠ "" → j = k) ∧
    ∀ (e : Event) x entries', e.apply s.entries = (.error x, entries') → entries' = s.entries := by
  intro s
  have hI : Inv s := inv_run inputs
  refine ⟨fun j carriedId carriedName i name hj => ?_, fun _ _ _ => matches_once, hI.law, ?_, fun _ _ _ =>
    apply_of_error hI.nodup⟩
  · have hbound : FinishBound s.calls (s.log.take j) carriedId carriedName i name := hI.law j _ hj
    obtain ⟨n, hn⟩ := hbound.opened
    have hmatch : Matches s.log n j := ⟨carriedId, carriedName, i, name, hj, hn⟩
    exact ⟨n, hmatch, fun m hm => matches_unique hm hmatch⟩
  · intro j k carriedName carriedName' i name name' hj hk hne hne'
    exact Nat.le_antisymm (Nat.le_of_not_lt (nameStart_once hI.law hk hj hne))
      (Nat.le_of_not_lt (nameStart_once hI.law hj hk hne'))

end Proofs

/-! ### A call that was not announced -/

/-- A start with id and name before the announcement creates its call, and a finish by the name only is bound to it. -/
theorem finish_of_unannounced :
    let s := run [.event (.start "x" "web_search" []), .event (.finish "" "web_search" false)]
    s.log[1]? = some (.finished "" "web_search" "x" "web_search") ∧ ∀ c ∈ s.calls, c.id ≠ "x" := by
  decide

end NexusStudio.ToolRegistry
