import NexusStudio.Turn.Events

/-!
# The SSE subscriber

`SseTurnSubscriber` turns the events of a turn into frames.

* (events) `hears` and `meets`: which events come to it from a broadcast and which from a barrier.
* (frames) `handle` for one event, `emits` for a list of events.
* (terminal frames) up to the end of the turn there is one ERROR for each failure and no DONE; the end adds what
  `handleEnded` says: `emits_ended`.
-/

namespace NexusStudio.Turn

/-- A frame of the stream. `other` is a frame that only a side-effect subscriber emits. -/
inductive Frame
  | token (channel : Channel) (text : String)
  | toolStart (callId name : String) (args : ToolArgs)
  | toolEnd (callId name : String) (ok : Bool) (preview : String) (errorCode : Option String)
  | toolPending (callId name : String) (summary operation enrichStatus : Option String)
  | error (code : StreamErrorCode) (message : String)
  | done (messageIds : Option (List Nat))
  | other (type : String)
  deriving DecidableEq, Repr

namespace Frame

def isError : Frame → Bool
  | error .. => true
  | _ => false

def isDone : Frame → Bool
  | done _ => true
  | _ => false

/-- The text that a frame adds to the answer. -/
def answer : Frame → String
  | token .answer text => text
  | _ => ""

/-- The frames that belong to the SSE subscriber: TOKEN, ERROR and DONE. -/
def isOwned : Frame → Bool
  | token .. => true
  | error .. => true
  | done _ => true
  | _ => false

/-- The answer text of a list of frames. -/
def answerText (l : List Frame) : String :=
  String.join (l.map answer)

theorem countP_owned {q : Frame → Bool} (hq : ∀ f, q f = true → f.isOwned = true) (l : List Frame) :
    (l.filter isOwned).countP q = l.countP q := by
  rw [List.countP_filter]
  exact List.countP_congr fun f _ => by
    cases h : q f
    · simp
    · simp [hq f h]

theorem answerText_cons (f : Frame) (l : List Frame) : answerText (f :: l) = f.answer ++ answerText l :=
  String.join_cons

theorem answer_of_not_owned {f : Frame} (h : f.isOwned = false) : f.answer = "" := by
  cases f <;> first | rfl | cases h

theorem answerText_owned (l : List Frame) : answerText (l.filter isOwned) = answerText l := by
  induction l with
  | nil => rfl
  | cons f l ih =>
    rw [List.filter_cons]
    cases h : f.isOwned with
    | false => rw [if_neg nofun, ih, answerText_cons, answer_of_not_owned h, String.empty_append]
    | true => rw [if_pos rfl, answerText_cons, answerText_cons, ih]

end Frame

namespace Sse

/-- `SseTerminalPolicy` and the functions that the subscriber is built with. -/
structure Settings where
  emitDoneOnCompleted : Bool
  emitDoneAfterFailure : Bool
  messageIds : Option (List Nat)
  preview : String → String → Bool → String
  resolvePendingOperation : String → Option ToolArgs → Option String × Option String

/-- `SseTerminalPolicy()`, with previews and operations left empty. -/
def Settings.default : Settings where
  emitDoneOnCompleted := true
  emitDoneAfterFailure := false
  messageIds := none
  preview _ _ _ := ""
  resolvePendingOperation _ _ := (none, none)

structure State where
  failedEmitted : Bool
  doneEmitted : Bool
  deriving DecidableEq, Repr

def State.init : State := ⟨false, false⟩

/-- `broadcast_events`. -/
def hears (k : TurnEventKind) : Bool :=
  k ∈ [TurnEventKind.modelToken, .toolStarted, .toolFinished, .turnEnded]

/-- `barrier_events`. -/
def meets (k : TurnEventKind) : Bool :=
  k ∈ [TurnEventKind.turnInterrupted, .turnFailed]

/-- `_HIDDEN_USER_TIMELINE_TOOLS`. -/
def hiddenUserTimelineTools : List String := ["propose_upgrade_and_invite"]

variable (c : Settings)

def emitDone (s : State) : State × List Frame :=
  if s.doneEmitted then (s, []) else ({ s with doneEmitted := true }, [.done c.messageIds])

/-- The message of a `TurnFailed`. -/
def failedMessage (error : String) (errorClass : Option String) : String :=
  match errorClass.bind TerminatedBy.ofValue with
  | some t => (terminationErrorMessages t).getD error
  | none => error

/-- The ERROR of an end that no `TurnFailed` came before. -/
def endedError (s : State) (t : TerminatedBy) (failedEmitted : Bool) : State × List Frame :=
  if failedEmitted || s.failedEmitted then (s, [])
  else ({ s with failedEmitted := true }, [.error (normalizeStreamErrorCode (some t.value) .turnFailed)
    (terminationMessage t)])

def handleEnded (s : State) (t : TerminatedBy) (failedEmitted : Bool) : State × List Frame :=
  match t with
  | .interrupted => (s, [])
  | .cancelled => if c.emitDoneAfterFailure then emitDone c s else (s, [])
  | .completed => if c.emitDoneOnCompleted then emitDone c s else (s, [])
  | t =>
    let (s, errors) := endedError s t failedEmitted
    if c.emitDoneAfterFailure then
      let (s, dones) := emitDone c s
      (s, errors ++ dones)
    else (s, errors)

/-- The TOOL_PENDING frame of an action, if it has a call id and a name. -/
def pendingFrame (a : PendingToolAction) : Option Frame :=
  if a.callId = "" ∨ a.name = "" then none
  else
    let (operation, status) := c.resolvePendingOperation a.name a.args
    some (.toolPending a.callId a.name (if a.summary = "" then none else some a.summary) operation status)

def handle (s : State) : TurnEvent → State × List Frame
  | .modelToken _ channel text => (s, [.token channel text])
  | .toolStarted _ callId name args _ =>
    if name ∈ hiddenUserTimelineTools then (s, []) else (s, [.toolStart callId name args])
  | .toolFinished _ callId name result toolError errorClass _ =>
    if name ∈ hiddenUserTimelineTools then (s, [])
    else
      (s, [.toolEnd callId name (!toolError) (c.preview name result (!toolError))
        (if toolError then errorClass else none)])
  | .turnInterrupted actions => (s, actions.filterMap (pendingFrame c))
  | .turnFailed error errorClass _ =>
    ({ s with failedEmitted := true },
      [.error (normalizeStreamErrorCode errorClass .turnFailed) (failedMessage error errorClass)])
  | .turnEnded t failedEmitted => handleEnded c s t failedEmitted
  | .turnStarting => (s, [])
  | .turnStarted => (s, [])
  | .modelStepFinished .. => (s, [])
  | .turnCompleted .. => (s, [])

/-- The state after a list of events. -/
def after (s : State) : List TurnEvent → State
  | [] => s
  | e :: l => after (handle c s e).1 l

/-- The frames of a list of events. -/
def emits (s : State) : List TurnEvent → List Frame
  | [] => []
  | e :: l => (handle c s e).2 ++ emits (handle c s e).1 l

/-! ### One event -/

variable {c} {s : State} {e : TurnEvent}

/-- A failure that the engine reports with a reason shows that reason's message. -/
theorem failedMessage_termination (t : TerminatedBy) :
    failedMessage (terminationMessage t) (some t.value) = terminationMessage t := by
  simp only [failedMessage, Option.bind_some, TerminatedBy.ofValue_value]
  cases h : terminationErrorMessages t with
  | none => rfl
  | some m => simp [terminationMessage, h]

theorem pendingFrame_kind {a : PendingToolAction} {f : Frame} (h : pendingFrame c a = some f) :
    f.isError = false ∧ f.isDone = false ∧ f.answer = "" := by
  simp only [pendingFrame, Option.ite_none_left_eq_some, Option.some.injEq] at h
  rw [← h.2]
  exact ⟨rfl, rfl, rfl⟩

theorem Frame.answerText_append (l m : List Frame) :
    Frame.answerText (l ++ m) = Frame.answerText l ++ Frame.answerText m := by
  simp [Frame.answerText, String.join_append]

theorem Frame.answerText_of_forall {l : List Frame} (h : ∀ f ∈ l, f.answer = "") : Frame.answerText l = "" := by
  induction l with
  | nil => rfl
  | cons f l ih =>
    have hl := ih fun g hg => h g (List.mem_cons_of_mem _ hg)
    simp only [Frame.answerText, List.map_cons, String.join_cons] at hl ⊢
    rw [hl, h f (List.mem_cons_self ..)]
    rfl

/-- What an event before the end does to the flags. -/
theorem handle_flags (h : e.isEnded = false) :
    (handle c s e).1 = { s with failedEmitted := s.failedEmitted || e.isFailed } := by
  cases e <;> simp [TurnEvent.isEnded, TurnEvent.isFailed, handle] at h ⊢ <;> split <;> rfl

/-- What an event before the end shows. -/
theorem handle_frames (h : e.isEnded = false) :
    (handle c s e).2.countP Frame.isError = e.isFailed.toNat ∧ (∀ f ∈ (handle c s e).2, f.isDone = false) ∧
      Frame.answerText (handle c s e).2 = e.answer := by
  cases e with
  | turnInterrupted actions =>
    have hk : ∀ f ∈ actions.filterMap (pendingFrame c), f.isError = false ∧ f.isDone = false ∧ f.answer = "" := by
      intro f hf
      obtain ⟨a, _, ha⟩ := List.mem_filterMap.1 hf
      exact pendingFrame_kind ha
    refine ⟨List.countP_eq_zero.2 fun f hf => ?_, fun f hf => (hk f hf).2.1,
      Frame.answerText_of_forall fun f hf => (hk f hf).2.2⟩
    rw [(hk f hf).1]
    decide
  | modelToken step channel text =>
    refine ⟨rfl, ?_, ?_⟩
    · simp [handle, Frame.isDone]
    · cases channel <;> simp [handle, Frame.answerText, Frame.answer, TurnEvent.answer]
  | turnEnded t failedEmitted => cases h
  | toolStarted step callId name args synthetic =>
    simp only [handle]
    split <;> simp [Frame.isError, Frame.isDone, Frame.answerText, Frame.answer, TurnEvent.isFailed, TurnEvent.answer]
  | toolFinished step callId name result toolError errorClass synthetic =>
    simp only [handle]
    split <;> simp [Frame.isError, Frame.isDone, Frame.answerText, Frame.answer, TurnEvent.isFailed, TurnEvent.answer]
  | turnFailed error errorClass step =>
    simp [handle, Frame.isError, Frame.isDone, Frame.answerText, Frame.answer, TurnEvent.isFailed, TurnEvent.answer]
  | turnStarting => simp [handle, Frame.answerText, TurnEvent.isFailed, TurnEvent.answer]
  | turnStarted => simp [handle, Frame.answerText, TurnEvent.isFailed, TurnEvent.answer]
  | modelStepFinished => simp [handle, Frame.answerText, TurnEvent.isFailed, TurnEvent.answer]
  | turnCompleted => simp [handle, Frame.answerText, TurnEvent.isFailed, TurnEvent.answer]

/-! ### Up to the end -/

variable {l m : List TurnEvent}

theorem emits_append : emits c s (l ++ m) = emits c s l ++ emits c (after c s l) m := by
  induction l generalizing s with
  | nil => rfl
  | cons e l ih => rw [List.cons_append, emits, ih, emits, after, List.append_assoc]

theorem emits_prefix (h : l <+: m) : emits c s l <+: emits c s m := by
  obtain ⟨k, rfl⟩ := h
  exact ⟨emits c (after c s l) k, emits_append.symm⟩

theorem after_flags (h : ∀ e ∈ l, e.isEnded = false) :
    after c s l = { s with failedEmitted := s.failedEmitted || l.any TurnEvent.isFailed } := by
  induction l generalizing s with
  | nil => simp [after]
  | cons e l ih =>
    rw [after, ih fun d hd => h d (List.mem_cons_of_mem _ hd), handle_flags (h e (List.mem_cons_self ..)),
      List.any_cons, Bool.or_assoc]

/-- One ERROR for each failure, no DONE, and the tokens of the answer. -/
theorem emits_frames (h : ∀ e ∈ l, e.isEnded = false) :
    (emits c s l).countP Frame.isError = l.countP TurnEvent.isFailed ∧ (∀ f ∈ emits c s l, f.isDone = false) ∧
      Frame.answerText (emits c s l) = answerText l := by
  induction l generalizing s with
  | nil => exact ⟨rfl, nofun, rfl⟩
  | cons e l ih =>
    obtain ⟨he, hd, ha⟩ := handle_frames (c := c) (s := s) (h e (List.mem_cons_self ..))
    obtain ⟨hel, hdl, hal⟩ := ih (s := (handle c s e).1) fun d hd => h d (List.mem_cons_of_mem _ hd)
    refine ⟨?_, fun f hf => ?_, ?_⟩
    · rw [emits, List.countP_append, he, hel, List.countP_cons, Nat.add_comm]
      cases e.isFailed <;> rfl
    · rcases List.mem_append.1 hf with hf | hf
      · exact hd f hf
      · exact hdl f hf
    · rw [emits, Frame.answerText_append, ha, hal]
      exact String.join_cons.symm

/-! ### The end -/

theorem emitDone_frames : (emitDone c s).2 = [] ∨ (emitDone c s).2 = [.done c.messageIds] := by
  unfold emitDone
  split
  · exact .inl rfl
  · exact .inr rfl

/-- The end shows an ERROR where a failing turn has shown none, and at most one DONE after it. -/
theorem handleEnded_frames (c : Settings) (s : State) (t : TerminatedBy) (failedEmitted : Bool) :
    ∃ errors dones, (handleEnded c s t failedEmitted).2 = errors ++ dones ∧
      (errors = [] ∨ ∃ code message, errors = [.error code message]) ∧
      (errors ≠ [] ↔ t.Failing ∧ failedEmitted = false ∧ s.failedEmitted = false) ∧
      (dones = [] ∨ dones = [.done c.messageIds]) ∧ (t = .interrupted → dones = []) := by
  by_cases ht : t.Failing
  · have hend : handleEnded c s t failedEmitted =
        if c.emitDoneAfterFailure then
          ((emitDone c (endedError s t failedEmitted).1).1,
            (endedError s t failedEmitted).2 ++ (emitDone c (endedError s t failedEmitted).1).2)
        else endedError s t failedEmitted := by
      cases t <;> first | rfl | exact absurd ht (by decide)
    refine ⟨(endedError s t failedEmitted).2,
      if c.emitDoneAfterFailure then (emitDone c (endedError s t failedEmitted).1).2 else [], ?_, ?_, ?_, ?_, ?_⟩
    · rw [hend]
      split <;> simp
    · unfold endedError
      split
      · exact .inl rfl
      · exact .inr ⟨_, _, rfl⟩
    · unfold endedError
      cases failedEmitted <;> cases s.failedEmitted <;> simp [ht]
    · split
      · exact emitDone_frames
      · exact .inl rfl
    · exact fun h => absurd h ht.2.1
  · have hend : handleEnded c s t failedEmitted = (s, []) ∨
        t ≠ .interrupted ∧ handleEnded c s t failedEmitted = emitDone c s := by
      cases t <;> first | exact absurd (by decide) ht | skip
      · by_cases h : c.emitDoneOnCompleted <;> simp [handleEnded, h]
      · exact .inl rfl
      · by_cases h : c.emitDoneAfterFailure <;> simp [handleEnded, h]
    rcases hend with hend | ⟨hi, hend⟩
    · exact ⟨[], [], by rw [hend]; rfl, .inl rfl, by simp [ht], .inl rfl, fun _ => rfl⟩
    · exact ⟨[], (emitDone c s).2, by rw [hend]; rfl, .inl rfl, by simp [ht], emitDone_frames, fun h => absurd h hi⟩

/-- The flag of the subscriber is the flag of the engine. -/
theorem failedEmitted_after {failedEmitted : Bool} (h : ∀ e ∈ l, e.isEnded = false)
    (hf : l.countP TurnEvent.isFailed = failedEmitted.toNat) : (after c .init l).failedEmitted = failedEmitted := by
  rw [after_flags h]
  cases failedEmitted with
  | false => exact List.any_eq_false.2 fun e he => List.countP_eq_zero.1 hf e he
  | true =>
    have hpos : 0 < l.countP TurnEvent.isFailed := by
      rw [hf]
      exact Nat.one_pos
    obtain ⟨e, he, hfe⟩ := List.countP_pos_iff.1 hpos
    exact List.any_eq_true.2 ⟨e, he, hfe⟩

/-- The frames of a whole turn, whose `TurnEnded` says whether there was a failure before it. -/
theorem emits_turn (c : Settings) {t : TerminatedBy} {failedEmitted : Bool} (h : ∀ e ∈ l, e.isEnded = false)
    (hf : l.countP TurnEvent.isFailed = failedEmitted.toNat) :
    (emits c .init (l ++ [.turnEnded t failedEmitted])).countP Frame.isError =
        (failedEmitted || decide t.Failing).toNat ∧
      (emits c .init (l ++ [.turnEnded t failedEmitted])).countP Frame.isDone ≤ 1 ∧
      (t = .interrupted → (emits c .init (l ++ [.turnEnded t failedEmitted])).countP Frame.isDone = 0) ∧
      Frame.answerText (emits c .init (l ++ [.turnEnded t failedEmitted])) = answerText l := by
  obtain ⟨herror, hnodone, htext⟩ := emits_frames (c := c) (s := .init) h
  obtain ⟨errors, dones, heq, he, hne, hd, hi⟩ := handleEnded_frames c (after c .init l) t failedEmitted
  have hemits : emits c .init (l ++ [.turnEnded t failedEmitted]) = emits c .init l ++ (errors ++ dones) := by
    rw [emits_append, emits, emits, List.append_nil]
    exact congrArg _ heq
  have hdones : dones.countP Frame.isError = 0 ∧ dones.countP Frame.isDone ≤ 1 ∧ Frame.answerText dones = "" := by
    rcases hd with rfl | rfl
    · exact ⟨rfl, Nat.zero_le 1, rfl⟩
    · exact ⟨rfl, Nat.le_refl 1, rfl⟩
  have herrors : errors.countP Frame.isDone = 0 ∧ Frame.answerText errors = "" ∧
      errors.countP Frame.isError = (decide (t.Failing ∧ failedEmitted = false)).toNat := by
    rw [failedEmitted_after h hf, and_self] at hne
    rcases he with rfl | ⟨code, message, rfl⟩
    · exact ⟨rfl, rfl, by simp [show ¬ (t.Failing ∧ failedEmitted = false) from fun hc => hne.2 hc rfl]⟩
    · exact ⟨rfl, rfl, by simp [Frame.isError, hne.1 (List.cons_ne_nil _ _)]⟩
  have hzero : (emits c .init l).countP Frame.isDone = 0 :=
    List.countP_eq_zero.2 fun f hm => by rw [hnodone f hm]; decide
  rw [hemits]
  refine ⟨?_, ?_, fun ht => ?_, ?_⟩
  · rw [List.countP_append, List.countP_append, herror, hf, herrors.2.2, hdones.1]
    cases failedEmitted <;> simp
  · rw [List.countP_append, List.countP_append, hzero, herrors.1]
    omega
  · rw [List.countP_append, List.countP_append, hzero, herrors.1, hi ht]
    rfl
  · rw [Frame.answerText_append, Frame.answerText_append, htext, herrors.2.1, hdones.2.2]
    simp

end Sse

end NexusStudio.Turn
