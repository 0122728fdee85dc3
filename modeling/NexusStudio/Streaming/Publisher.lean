import Mathlib
import NexusStudio.Lib.Handler
import NexusStudio.Chat.Replay
import NexusStudio.Turn.Sse

/-!
# The replay log and its publisher

`ReplayFramePublisher` appends the frames of an execution to the log of its request id.

* (log) `appendFrame` with `_APPEND_SCRIPT`: a frame of type DONE, ERROR or CANCELLED closes the log.
* (publisher) answer tokens are collected and appended together, after a delay or before the next other frame.
* (execution) `conclude` is the end of `run_chat_replay_execution`, with its handlers.
-/

namespace NexusStudio.Streaming

open Handlers Turn

/-- The frames of a stream: those of the SSE subscriber and of the side-effect subscribers, and those of the pump. -/
inductive StreamFrame
  | turn (f : Frame)
  | userGateRequired (gateId : String)
  | upgradeInviteProposed (proposalId : Nat)
  | cancelled
  | heartbeat
  deriving DecidableEq, Repr

/-- A piece of what a client is to see: a character of the answer, or a frame of a tool or of an error. -/
inductive Piece
  | char (c : Char)
  | frame (f : Frame)
  deriving DecidableEq, Repr

namespace StreamFrame

def answer (text : String) : StreamFrame := turn (.token .answer text)

def done : StreamFrame := turn (.done none)

/-- The answer token, tool and error frames, cut into pieces. -/
def pieces : StreamFrame → List Piece
  | turn (.token .answer text) => text.toList.map .char
  | turn f@(.toolStart ..) | turn f@(.toolEnd ..) | turn f@(.toolPending ..) | turn f@(.error ..) => [.frame f]
  | _ => []

/-- The frames that close the log. -/
def closes : StreamFrame → Bool
  | turn (.error ..) | turn (.done _) | cancelled => true
  | _ => false

/-- DONE and HEARTBEAT: what a failed run may still yield after its ERROR. -/
def trailing : StreamFrame → Bool
  | turn (.done _) | heartbeat => true
  | _ => false

theorem pieces_of_trailing {f : StreamFrame} (h : f.trailing = true) : f.pieces = [] := by
  unfold trailing at h
  split at h <;> first | rfl | cases h

end StreamFrame

/-- The pieces of a list of frames. -/
def pieces (l : List StreamFrame) : List Piece := l.flatMap StreamFrame.pieces

@[simp] theorem pieces_nil : pieces [] = [] := rfl

@[simp] theorem pieces_append (l m : List StreamFrame) : pieces (l ++ m) = pieces l ++ pieces m :=
  List.flatMap_append

@[simp] theorem pieces_singleton (f : StreamFrame) : pieces [f] = f.pieces := by
  simp [pieces]

@[simp] theorem pieces_answer (text : String) : (StreamFrame.answer text).pieces = text.toList.map .char := rfl

/-! ### Log -/

structure Settings where
  maxChars : Nat
  maxBytes : Nat
  -- the length of a frame's JSON
  size : StreamFrame → Nat

/-- What an execution can raise. -/
inductive Raised
  | limit
  | closed
  | leaseLost
  | cancelled
  | other (message : String)
  deriving DecidableEq, Repr

structure Log where
  entries : List StreamFrame
  status : Replay.Status
  bytes : Nat
  deriving DecidableEq, Repr

/-- The attributes of a `ReplayFramePublisher`. -/
structure Publisher where
  deltaParts : List String
  -- a delayed flush is scheduled
  flushTask : Bool
  flushError : Option Raised
  terminalStatus : Option Replay.Status
  sawPending : Bool
  deriving DecidableEq, Repr

/-- A log with its publisher. -/
structure Recorder where
  log : Log
  pub : Publisher
  deriving DecidableEq, Repr

/-- After `set_running`. -/
def Recorder.fresh : Recorder := ⟨⟨[], .running, 0⟩, ⟨[], false, none, none, false⟩⟩

variable (c : Settings)

/-- `append_frame`. -/
def appendFrame (f : StreamFrame) (force : Bool) (closeStatus : Option Replay.Status) :
    Handler Recorder Raised Unit := do
  let r ← get
  if r.log.status.closed then throw .closed
  else if !force && c.maxBytes < r.log.bytes + c.size f then throw .limit
  else
    modify fun r => { r with log := {
      entries := r.log.entries ++ [f]
      status := closeStatus.getD r.log.status
      bytes := r.log.bytes + c.size f } }

/-- `mark_execution_lost`, by a reader that finds no lease. -/
def Log.markExecutionLost (l : Log) : Log :=
  if l.status.closed then l
  else
    let f : StreamFrame := .turn (.error .executionLost "Agent execution was lost")
    { entries := l.entries ++ [f], status := .failed, bytes := l.bytes + c.size f }

/-! ### Publisher -/

/-- The text that is to be flushed, as one frame. -/
def Publisher.delta (p : Publisher) : List StreamFrame :=
  if p.deltaParts = [] then [] else [.answer (String.join p.deltaParts)]

/-- `_flush_locked`. -/
def flushLocked : Handler Recorder Raised Unit := do
  let r ← get
  modify fun r => { r with pub := { r.pub with flushTask := false, deltaParts := [] } }
  match r.pub.delta with
  | [] => return
  | f :: _ => appendFrame c f false none

/-- `_flush_after_delay`, after the delay. -/
def flushAfterDelay : Handler Recorder Raised Unit :=
  tryCatch (flushLocked c) fun e => modify fun r => { r with pub := { r.pub with flushError := some e } }

def raiseFlushError : Handler Recorder Raised Unit := do
  let r ← get
  match r.pub.flushError with
  | none => return
  | some e =>
    modify fun r => { r with pub := { r.pub with flushError := none } }
    throw e

/-- `_observe`. -/
def Publisher.observe (p : Publisher) (f : StreamFrame) : Publisher :=
  match f with
  | .turn (.toolPending ..) | .userGateRequired _ | .upgradeInviteProposed _ => { p with sawPending := true }
  | .turn (.error ..) => { p with terminalStatus := some .failed }
  | .turn (.done _) => { p with terminalStatus := p.terminalStatus.or (some .completed) }
  | .cancelled => { p with terminalStatus := p.terminalStatus.or (some .cancelled) }
  | _ => p

/-- `_terminal_status_for`. -/
def Publisher.terminalStatusFor (p : Publisher) (f : StreamFrame) : Option Replay.Status :=
  match f with
  | .turn (.error ..) => some .failed
  | .turn (.done _) => p.terminalStatus.or (some .completed)
  | .cancelled => p.terminalStatus.or (some .cancelled)
  | _ => none

/-- The first lines of `publish`: `false` when a terminal frame has been published. -/
def accept : Handler Recorder Raised Bool := do
  raiseFlushError
  let r ← get
  return r.pub.terminalStatus.isNone

/-- The number of characters in `_delta_parts`. -/
def Publisher.deltaChars (p : Publisher) : Nat := (p.deltaParts.map String.length).sum

/-- The rest of `publish`, under the publisher's lock. -/
def record (f : StreamFrame) : Handler Recorder Raised Unit :=
  match f with
  | .turn (.token .answer text) => do
    modify fun r => { r with pub := { r.pub with deltaParts := r.pub.deltaParts ++ [text] } }
    let r ← get
    if c.maxChars ≤ r.pub.deltaChars then flushLocked c
    else modify fun r => { r with pub := { r.pub with flushTask := true } }
  | f => do
    flushLocked c
    let r ← get
    appendFrame c f false (r.pub.terminalStatusFor f)
    modify fun r => { r with pub := r.pub.observe f }

/-- `close`. -/
def close : Handler Recorder Raised Unit := do
  flushLocked c
  raiseFlushError

/-- `append_failure`. -/
def appendFailure (message : String) (code : StreamErrorCode) : Handler Recorder Raised Unit := do
  tryCatch (flushLocked c) fun e => if e = .limit then pure () else throw e
  appendFrame c (.turn (.error code message)) true (some .failed)
  modify fun r => { r with pub := { r.pub with terminalStatus := some .failed } }

/-! ### Executions -/

/-- What follows the loop over a stream that has ended. -/
def afterLoop : Handler Recorder Raised Replay.Status := do
  close c
  let r ← get
  match r.pub.terminalStatus with
  | some t => return t
  | none =>
    if r.pub.sawPending then return .interrupted
    else
      appendFailure c "Agent stream ended without a terminal frame" .internal
      return .failed

/-- The `except` clauses of `run_chat_replay_execution`. -/
def handleRaised : Raised → Handler Recorder Raised Replay.Status
  | .limit => do
    appendFailure c "SSE replay log exceeded the configured size limit" .internal
    return .failed
  | .leaseLost => do
    appendFailure c "Agent execution was lost" .executionLost
    return .failed
  | .closed => return .failed
  | .cancelled => do
    appendFailure c "Agent execution was lost" .executionLost
    return .failed
  | .other message => do
    appendFailure c message .internal
    return .failed

/-- `_FINISH_SCRIPT`. -/
def Log.finish (l : Log) (t : Replay.Status) : Log :=
  if l.status.closed then l else { l with status := t }

/-- The end of an execution, which `x` comes to; what the handlers raise leaves the final status `failed`. -/
def conclude (x : Handler Recorder Raised Replay.Status) (r : Recorder) : Recorder :=
  match exec (tryCatch x (handleRaised c)) r with
  | (.ok t, r) => { r with log := r.log.finish t }
  | (.error _, r) => { r with log := r.log.finish .failed }

/-! ### What a publisher has taken -/

/-- The log is open: what is in it and what is to be flushed are the frames taken so far. -/
structure Open (l : List StreamFrame) (r : Recorder) : Prop where
  status : r.log.status.closed = false
  terminal : r.pub.terminalStatus = none
  noError : r.pub.flushError = none
  taken : pieces r.log.entries ++ pieces r.pub.delta = pieces l

/-- A frame has closed the log, after all frames taken so far. -/
structure Closed (l : List StreamFrame) (r : Recorder) : Prop where
  status : r.log.status.closed = true
  terminal : r.pub.terminalStatus ≠ none
  noError : r.pub.flushError = none
  flushed : r.pub.deltaParts = []
  taken : pieces r.log.entries = pieces l

/-- The log has room for a list of frames. -/
def Recorder.Room (r : Recorder) (l : List StreamFrame) : Prop :=
  r.log.bytes + (l.map c.size).sum ≤ c.maxBytes

instance (r : Recorder) (l : List StreamFrame) : Decidable (r.Room c l) := inferInstanceAs (Decidable (_ ≤ _))

/-- The frames that `record` appends. -/
def Recorder.upcoming (r : Recorder) (f : StreamFrame) : List StreamFrame :=
  match f with
  | .turn (.token .answer text) =>
    if c.maxChars ≤ r.pub.deltaChars + text.length then [.answer (String.join (r.pub.deltaParts ++ [text]))] else []
  | f => r.pub.delta ++ [f]

variable {c} {l : List StreamFrame} {r : Recorder} {f : StreamFrame}

theorem pieces_delta (p : Publisher) : pieces p.delta = (String.join p.deltaParts).toList.map .char := by
  unfold Publisher.delta
  split
  · next h => rw [h]; rfl
  · rw [pieces_singleton, pieces_answer]

theorem exec_appendFrame (force : Bool) (t : Option Replay.Status) (hs : r.log.status.closed = false)
    (hr : force = true ∨ r.Room c [f]) :
    exec (appendFrame c f force t) r = (.ok (), { r with log := {
      entries := r.log.entries ++ [f], status := t.getD r.log.status, bytes := r.log.bytes + c.size f } }) := by
  have hroom : ¬ ((!force && decide (c.maxBytes < r.log.bytes + c.size f)) = true) := by
    rcases hr with rfl | hr
    · simp
    · have hle : r.log.bytes + c.size f ≤ c.maxBytes := by simpa [Recorder.Room] using hr
      simp [hle]
  rw [appendFrame, exec_bind_ok _ exec_get, if_neg (by simp [hs]), if_neg hroom, exec_modify]

/-- A flush moves the collected text into the log. -/
theorem exec_flushLocked (h : Open l r) (hr : r.Room c r.pub.delta) :
    ∃ r', exec (flushLocked c) r = (.ok (), r') ∧ Open l r' ∧ r'.pub.deltaParts = [] ∧
      r'.log.bytes = r.log.bytes + (r.pub.delta.map c.size).sum := by
  by_cases hp : r.pub.deltaParts = []
  · have hd : r.pub.delta = [] := if_pos hp
    refine ⟨{ r with pub := { r.pub with flushTask := false, deltaParts := [] } }, ?_, ?_, rfl, by simp [hd]⟩
    · rw [flushLocked, exec_bind_ok _ exec_get, exec_bind_ok _ (exec_modify _), hd, exec_pure]
    · exact ⟨h.status, h.terminal, h.noError, by rw [← h.taken, hd]; rfl⟩
  · have hd : r.pub.delta = [.answer (String.join r.pub.deltaParts)] := if_neg hp
    refine ⟨⟨⟨r.log.entries ++ [.answer (String.join r.pub.deltaParts)], r.log.status,
      r.log.bytes + c.size (.answer (String.join r.pub.deltaParts))⟩,
      { r.pub with flushTask := false, deltaParts := [] }⟩, ?_, ?_, rfl, by simp [hd]⟩
    · rw [flushLocked, exec_bind_ok _ exec_get, exec_bind_ok _ (exec_modify _), hd]
      exact exec_appendFrame false none h.status (.inr (by rwa [hd] at hr))
    · refine ⟨h.status, h.terminal, h.noError, ?_⟩
      rw [← h.taken, hd]
      simp [Publisher.delta]

/-- After its closing frame a log has nothing to flush. -/
theorem exec_flushLocked_closed (h : Closed l r) :
    ∃ r', exec (flushLocked c) r = (.ok (), r') ∧ Closed l r' := by
  have hd : r.pub.delta = [] := if_pos h.flushed
  refine ⟨{ r with pub := { r.pub with flushTask := false, deltaParts := [] } }, ?_, ?_⟩
  · rw [flushLocked, exec_bind_ok _ exec_get, exec_bind_ok _ (exec_modify _), hd, exec_pure]
  · exact ⟨h.status, h.terminal, h.noError, rfl, h.taken⟩

theorem exec_raiseFlushError (h : r.pub.flushError = none) : exec raiseFlushError r = (.ok (), r) := by
  rw [raiseFlushError, exec_bind_ok _ exec_get, h, exec_pure]

theorem exec_accept (h : r.pub.flushError = none) : exec accept r = (.ok r.pub.terminalStatus.isNone, r) := by
  rw [accept, exec_bind_ok _ (exec_raiseFlushError h), exec_bind_ok _ exec_get, exec_pure]

/-- An answer token is collected, and flushed when there is enough. -/
theorem exec_record_answer {text : String} (h : Open l r) (hr : r.Room c (r.upcoming c (.answer text))) :
    ∃ r', exec (record c (.answer text)) r = (.ok (), r') ∧ Open (l ++ [.answer text]) r' := by
  let r₁ : Recorder := { r with pub := { r.pub with deltaParts := r.pub.deltaParts ++ [text] } }
  have hne : r₁.pub.deltaParts ≠ [] := by simp [r₁]
  have h₁ : Open (l ++ [.answer text]) r₁ := by
    refine ⟨h.status, h.terminal, h.noError, ?_⟩
    rw [pieces_append, ← h.taken, pieces_delta, pieces_delta, pieces_singleton, pieces_answer]
    simp [r₁, String.join_append]
  have hchars : r₁.pub.deltaChars = r.pub.deltaChars + text.length := by
    simp [Publisher.deltaChars, r₁]
  have hrec : exec (record c (.answer text)) r =
      exec (if c.maxChars ≤ r₁.pub.deltaChars then flushLocked c
        else modify fun r => { r with pub := { r.pub with flushTask := true } }) r₁ := by
    rw [StreamFrame.answer, record, exec_bind_ok _ (exec_modify _), exec_bind_ok _ exec_get]
  rw [hrec, hchars]
  by_cases hc : c.maxChars ≤ r.pub.deltaChars + text.length
  · have hroom : r₁.Room c r₁.pub.delta := by
      rw [StreamFrame.answer, Recorder.upcoming, if_pos hc] at hr
      rw [show r₁.pub.delta = [.answer (String.join (r.pub.deltaParts ++ [text]))] from if_neg hne]
      exact hr
    obtain ⟨r', hf, hopen, -, -⟩ := exec_flushLocked h₁ hroom
    exact ⟨r', by rw [if_pos hc]; exact hf, hopen⟩
  · rw [if_neg hc, exec_modify]
    exact ⟨_, rfl, h₁.status, h₁.terminal, h₁.noError, h₁.taken⟩

/-- Any other frame is appended after what has been collected, and closes the log if it is a closing one. -/
theorem exec_record_other (h : Open l r) (hf : ∀ text, f ≠ .answer text) (hr : r.Room c (r.upcoming c f)) :
    ∃ r', exec (record c f) r = (.ok (), r') ∧ (if f.closes then Closed (l ++ [f]) r' else Open (l ++ [f]) r') := by
  have hup : r.upcoming c f = r.pub.delta ++ [f] := by
    unfold Recorder.upcoming
    split
    · exact absurd rfl (hf _)
    · rfl
  rw [hup] at hr
  have hsum : r.log.bytes + (r.pub.delta.map c.size).sum + c.size f ≤ c.maxBytes := by
    simpa [Recorder.Room, Nat.add_assoc] using hr
  obtain ⟨r₁, hflush, hopen, hparts, hbytes⟩ :=
    exec_flushLocked h (show r.Room c r.pub.delta from Nat.le_of_add_right_le hsum)
  have hroom : r₁.Room c [f] := by simpa [Recorder.Room, hbytes] using hsum
  have happ := exec_appendFrame false (r₁.pub.terminalStatusFor f) hopen.status (.inr hroom)
  have hrec : exec (record c f) r = (.ok (), ⟨⟨r₁.log.entries ++ [f], (r₁.pub.terminalStatusFor f).getD r₁.log.status,
      r₁.log.bytes + c.size f⟩, r₁.pub.observe f⟩) := by
    unfold record
    split
    · exact absurd rfl (hf _)
    · rw [exec_bind_ok _ hflush, exec_bind_ok _ exec_get, exec_bind_ok _ happ, exec_modify]
  refine ⟨_, hrec, ?_⟩
  have htaken : pieces (r₁.log.entries ++ [f]) = pieces (l ++ [f]) := by
    have hd : r₁.pub.delta = [] := if_pos hparts
    rw [pieces_append, pieces_append, ← hopen.taken, hd, pieces_nil, List.append_nil]
  split
  case isTrue hc =>
    unfold StreamFrame.closes at hc
    split at hc
    case h_4 => cases hc
    all_goals
      exact ⟨by simp [Publisher.terminalStatusFor, hopen.terminal, Replay.Status.closed],
        by simp [Publisher.observe, hopen.terminal], hopen.noError, hparts, htaken⟩
  case isFalse hc =>
    have hstatus : r₁.pub.terminalStatusFor f = none := by
      unfold Publisher.terminalStatusFor
      split <;> first | rfl | exact absurd rfl hc
    have hobs : (r₁.pub.observe f).terminalStatus = none ∧ (r₁.pub.observe f).flushError = none ∧
        (r₁.pub.observe f).deltaParts = [] := by
      unfold Publisher.observe
      split <;> first | exact absurd rfl hc | exact ⟨hopen.terminal, hopen.noError, hparts⟩
    refine ⟨?_, hobs.1, hobs.2.1, ?_⟩
    · rw [hstatus]
      exact hopen.status
    · have hd : (r₁.pub.observe f).delta = [] := if_pos hobs.2.2
      rw [hd, pieces_nil, List.append_nil]
      exact htaken

/-- A delayed flush moves the collected text into the log. -/
theorem exec_flushAfterDelay (h : Open l r) (hr : r.Room c r.pub.delta) :
    ∃ r', exec (flushAfterDelay c) r = (.ok (), r') ∧ Open l r' := by
  obtain ⟨r', hf, hopen, -, -⟩ := exec_flushLocked h hr
  exact ⟨r', by rw [flushAfterDelay, exec_tryCatch, hf], hopen⟩

theorem exec_flushAfterDelay_closed (h : Closed l r) :
    ∃ r', exec (flushAfterDelay c) r = (.ok (), r') ∧ Closed l r' := by
  obtain ⟨r', hf, hclosed⟩ := exec_flushLocked_closed (c := c) h
  exact ⟨r', by rw [flushAfterDelay, exec_tryCatch, hf], hclosed⟩

/-- A frame without pieces is taken as soon as it is skipped. -/
theorem Open.skip (h : Open l r) (hf : f.pieces = []) : Open (l ++ [f]) r :=
  ⟨h.status, h.terminal, h.noError, by rw [h.taken, pieces_append, pieces_singleton, hf, List.append_nil]⟩

theorem Closed.skip (h : Closed l r) (hf : f.pieces = []) : Closed (l ++ [f]) r :=
  ⟨h.status, h.terminal, h.noError, h.flushed, by rw [h.taken, pieces_append, pieces_singleton, hf, List.append_nil]⟩

/-- The log only grows. -/
def Grown (E : List StreamFrame) (r : Recorder) : Prop := E <+: r.log.entries

theorem grown_appendFrame (force : Bool) (t : Option Replay.Status) (E : List StreamFrame) :
    Triple (Grown E) (appendFrame c f force t) (fun _ => Grown E) fun _ => Grown E := by
  unfold appendFrame
  refine triple_get_bind fun r => Triple.ite (fun _ => triple_throw fun s h => h.1) fun _ => ?_
  refine Triple.ite (fun _ => triple_throw fun s h => h.1) fun _ => triple_modify fun s h => ?_
  exact h.1.trans (List.prefix_append _ _)

theorem grown_flushLocked (E : List StreamFrame) :
    Triple (Grown E) (flushLocked c) (fun _ => Grown E) fun _ => Grown E := by
  unfold flushLocked
  refine triple_get_bind fun r => Triple.bind (Q := fun _ => Grown E) (triple_modify fun s h => h.1) fun _ => ?_
  split
  · exact triple_pure fun s h => h
  · exact grown_appendFrame false none E

theorem grown_flushAfterDelay (E : List StreamFrame) :
    Triple (Grown E) (flushAfterDelay c) (fun _ => Grown E) fun _ => Grown E :=
  (grown_flushLocked E).tryCatch fun _ => triple_modify fun _ h => h

/-! ### The end of an execution -/

/-- A failure is appended after what has been collected. -/
theorem exec_appendFailure (h : Open l r) (hr : r.Room c r.pub.delta) (message : String) (code : StreamErrorCode) :
    ∃ r', exec (appendFailure c message code) r = (.ok (), r') ∧
      pieces r'.log.entries = pieces l ++ [.frame (.error code message)] := by
  obtain ⟨r₁, hf, hopen, hparts, -⟩ := exec_flushLocked h hr
  have happ := exec_appendFrame (c := c) (f := .turn (.error code message)) true (some .failed) hopen.status (.inl rfl)
  have hflush : exec (tryCatch (flushLocked c) fun e => if e = .limit then pure () else throw e) r = (.ok (), r₁) := by
    rw [exec_tryCatch, hf]
  have hd : r₁.pub.delta = [] := if_pos hparts
  refine ⟨⟨⟨r₁.log.entries ++ [.turn (.error code message)], .failed,
    r₁.log.bytes + c.size (.turn (.error code message))⟩, { r₁.pub with terminalStatus := some .failed }⟩, ?_, ?_⟩
  · rw [appendFailure, exec_bind_ok _ hflush, exec_bind_ok _ happ, exec_modify]
    rfl
  · rw [pieces_append, ← hopen.taken, hd, pieces_nil, List.append_nil]
    rfl

/-- A log that is closed accepts no failure. -/
theorem exec_appendFailure_closed (h : Closed l r) (message : String) (code : StreamErrorCode) :
    ∃ r', exec (appendFailure c message code) r = (.error .closed, r') ∧ Closed l r' := by
  obtain ⟨r₁, hf, hclosed⟩ := exec_flushLocked_closed (c := c) h
  have happ : exec (appendFrame c (.turn (.error code message)) true (some .failed)) r₁ = (.error .closed, r₁) := by
    rw [appendFrame, exec_bind_ok _ exec_get, if_pos hclosed.status, exec_throw]
  have hflush : exec (tryCatch (flushLocked c) fun e => if e = .limit then pure () else throw e) r = (.ok (), r₁) := by
    rw [exec_tryCatch, hf]
  exact ⟨r₁, by rw [appendFailure, exec_bind_ok _ hflush, exec_bind_error _ happ], hclosed⟩

/-- The final status adds nothing to the log. -/
theorem entries_conclude {x : Handler Recorder Raised Replay.Status} {a : Except Raised Replay.Status} {r' : Recorder}
    (h : exec (tryCatch x (handleRaised c)) r = (a, r')) : (conclude c x r).log.entries = r'.log.entries := by
  have hfinish : ∀ t, (r'.log.finish t).entries = r'.log.entries := fun t => by
    unfold Log.finish
    split <;> rfl
  rw [conclude, h]
  cases a with
  | error e => exact hfinish .failed
  | ok t => exact hfinish t

theorem entries_conclude_ok {x : Handler Recorder Raised Replay.Status} {t : Replay.Status} {r' : Recorder}
    (h : exec x r = (.ok t, r')) : (conclude c x r).log.entries = r'.log.entries :=
  entries_conclude (by rw [exec_tryCatch, h])

theorem entries_conclude_throw (e : Raised) :
    (conclude c (throw e) r).log.entries = (exec (handleRaised c e) r).2.log.entries :=
  entries_conclude (by rw [exec_tryCatch, exec_throw])

/-- A stream that has ended leaves all of its frames in the log. -/
theorem conclude_afterLoop (h : Open l r) (hr : r.Room c r.pub.delta) :
    pieces l <+: pieces (conclude c (afterLoop c) r).log.entries := by
  obtain ⟨r₁, hf, hopen, hparts, hbytes⟩ := exec_flushLocked h hr
  have hd : r₁.pub.delta = [] := if_pos hparts
  have htaken : pieces r₁.log.entries = pieces l := by
    rw [← hopen.taken, hd, pieces_nil, List.append_nil]
  have hclose : exec (close c) r = (.ok (), r₁) := by
    rw [close, exec_bind_ok _ hf, exec_raiseFlushError hopen.noError]
  by_cases hp : r₁.pub.sawPending = true
  · have hx : exec (afterLoop c) r = (.ok .interrupted, r₁) := by
      rw [afterLoop, exec_bind_ok _ hclose, exec_bind_ok _ exec_get, hopen.terminal]
      simp [hp]
    rw [entries_conclude_ok hx, htaken]
  · have hroom : r₁.Room c r₁.pub.delta := by
      rw [hd]
      simpa [Recorder.Room, hbytes] using hr
    obtain ⟨r₂, happ, hentries⟩ :=
      exec_appendFailure hopen hroom "Agent stream ended without a terminal frame" .internal
    have hx : exec (afterLoop c) r = (.ok .failed, r₂) := by
      rw [afterLoop, exec_bind_ok _ hclose, exec_bind_ok _ exec_get, hopen.terminal]
      simp only [hp, if_false, Bool.false_eq_true]
      rw [exec_bind_ok _ happ, exec_pure]
    rw [entries_conclude_ok hx, hentries]
    exact List.prefix_append _ _

theorem conclude_afterLoop_closed (h : Closed l r) :
    pieces (conclude c (afterLoop c) r).log.entries = pieces l := by
  obtain ⟨r₁, hf, hclosed⟩ := exec_flushLocked_closed (c := c) h
  have hclose : exec (close c) r = (.ok (), r₁) := by
    rw [close, exec_bind_ok _ hf, exec_raiseFlushError hclosed.noError]
  obtain ⟨t, ht⟩ := Option.ne_none_iff_exists'.mp hclosed.terminal
  have hx : exec (afterLoop c) r = (.ok t, r₁) := by
    rw [afterLoop, exec_bind_ok _ hclose, exec_bind_ok _ exec_get, ht, exec_pure]
  rw [entries_conclude_ok hx, hclosed.taken]

/-- What the stream raises is appended as a failure. -/
theorem conclude_raised (h : Open l r) (hr : r.Room c r.pub.delta) (message : String) :
    pieces l <+: pieces (conclude c (throw (.other message)) r).log.entries := by
  obtain ⟨r₁, happ, hentries⟩ := exec_appendFailure h hr message .internal
  have hx : exec (handleRaised c (.other message)) r = (.ok .failed, r₁) := by
    rw [handleRaised, exec_bind_ok _ happ, exec_pure]
  rw [entries_conclude_throw, hx, hentries]
  exact List.prefix_append _ _

theorem conclude_raised_closed (h : Closed l r) (message : String) :
    pieces (conclude c (throw (.other message)) r).log.entries = pieces l := by
  obtain ⟨r₁, happ, hclosed⟩ := exec_appendFailure_closed (c := c) h message .internal
  have hx : exec (handleRaised c (.other message)) r = (.error .closed, r₁) := by
    rw [handleRaised, exec_bind_error _ happ]
  rw [entries_conclude_throw, hx, hclosed.taken]

/-! ### A closed log -/

/-- The handler leaves the log as it is, however it ends. -/
def KeepsLog {α : Type} (L : Log) (x : Handler Recorder Raised α) : Prop :=
  Triple (fun r => r.log = L) x (fun _ r => r.log = L) fun _ r => r.log = L

section KeepsLog

variable {α β : Type} {L : Log} {x y : Handler Recorder Raised α} {k : α → Handler Recorder Raised β}

theorem keepsLog_pure (a : α) : KeepsLog L (pure a) := triple_pure fun _ h => h

theorem keepsLog_throw (e : Raised) : KeepsLog L (throw e : Handler Recorder Raised α) := triple_throw fun _ h => h

theorem keepsLog_get : KeepsLog L get := triple_get fun _ h => h

theorem keepsLog_modify {g : Recorder → Recorder} (h : ∀ r, (g r).log = r.log) : KeepsLog L (modify g) :=
  triple_modify fun r hr => (h r).trans hr

theorem KeepsLog.bind (hx : KeepsLog L x) (hk : ∀ a, KeepsLog L (k a)) : KeepsLog L (x >>= k) := Triple.bind hx hk

theorem KeepsLog.ite {p : Prop} [Decidable p] (hx : KeepsLog L x) (hy : KeepsLog L y) :
    KeepsLog L (if p then x else y) := Triple.ite (fun _ => hx) fun _ => hy

theorem KeepsLog.tryCatch {h : Raised → Handler Recorder Raised α} (hx : KeepsLog L x) (hh : ∀ e, KeepsLog L (h e)) :
    KeepsLog L (tryCatch x h) := Triple.tryCatch hx hh

variable (hL : L.status.closed = true)
include hL

theorem keepsLog_appendFrame (force : Bool) (t : Option Replay.Status) : KeepsLog L (appendFrame c f force t) := by
  unfold appendFrame
  refine triple_get_bind fun r => ?_
  intro s hs
  obtain ⟨hlog, rfl⟩ := hs
  rw [if_pos (by rw [hlog]; exact hL), exec_throw]
  exact hlog

theorem keepsLog_flushLocked : KeepsLog L (flushLocked c) := by
  refine KeepsLog.bind keepsLog_get fun r => KeepsLog.bind (keepsLog_modify fun _ => rfl) fun _ => ?_
  split
  · exact keepsLog_pure ()
  · exact keepsLog_appendFrame hL false none

theorem keepsLog_flushAfterDelay : KeepsLog L (flushAfterDelay c) :=
  KeepsLog.tryCatch (keepsLog_flushLocked hL) fun _ => keepsLog_modify fun _ => rfl

omit hL in
theorem keepsLog_raiseFlushError : KeepsLog L raiseFlushError := by
  refine KeepsLog.bind keepsLog_get fun r => ?_
  split
  · exact keepsLog_pure ()
  · exact KeepsLog.bind (keepsLog_modify fun _ => rfl) fun _ => keepsLog_throw _

omit hL in
theorem keepsLog_accept : KeepsLog L accept :=
  KeepsLog.bind keepsLog_raiseFlushError fun _ => KeepsLog.bind keepsLog_get fun r =>
    keepsLog_pure r.pub.terminalStatus.isNone

theorem keepsLog_record : KeepsLog L (record c f) := by
  unfold record
  split
  · refine KeepsLog.bind (keepsLog_modify fun _ => rfl) fun _ => KeepsLog.bind keepsLog_get fun r => ?_
    exact KeepsLog.ite (keepsLog_flushLocked hL) (keepsLog_modify fun _ => rfl)
  · refine KeepsLog.bind (keepsLog_flushLocked hL) fun _ => KeepsLog.bind keepsLog_get fun r => ?_
    exact KeepsLog.bind (keepsLog_appendFrame hL false _) fun _ => keepsLog_modify fun _ => rfl

theorem keepsLog_appendFailure (message : String) (code : StreamErrorCode) :
    KeepsLog L (appendFailure c message code) := by
  refine KeepsLog.bind (KeepsLog.tryCatch (keepsLog_flushLocked hL) fun e => ?_) fun _ => ?_
  · exact KeepsLog.ite (keepsLog_pure ()) (keepsLog_throw e)
  · exact KeepsLog.bind (keepsLog_appendFrame hL true _) fun _ => keepsLog_modify fun _ => rfl

theorem keepsLog_afterLoop : KeepsLog L (afterLoop c) := by
  have hclose : KeepsLog L (close c) := KeepsLog.bind (keepsLog_flushLocked hL) fun _ => keepsLog_raiseFlushError
  refine KeepsLog.bind hclose fun _ => KeepsLog.bind keepsLog_get fun r => ?_
  split
  · exact keepsLog_pure _
  · refine KeepsLog.ite (keepsLog_pure _) ?_
    exact KeepsLog.bind (keepsLog_appendFailure hL _ _) fun _ => keepsLog_pure _

theorem keepsLog_handleRaised (e : Raised) : KeepsLog L (handleRaised c e) := by
  have hfail : ∀ message code, KeepsLog L (do appendFailure c message code; return Replay.Status.failed) :=
    fun message code => KeepsLog.bind (keepsLog_appendFailure hL message code) fun _ => keepsLog_pure _
  cases e with
  | closed => exact keepsLog_pure _
  | limit | leaseLost | cancelled | other => exact hfail _ _

/-- The end of an execution does not change a log that is closed. -/
theorem log_conclude {x : Handler Recorder Raised Replay.Status} (hx : KeepsLog L x) (hr : r.log = L) :
    (conclude c x r).log = L := by
  have hend := (hx.tryCatch (keepsLog_handleRaised (c := c) hL)) r hr
  have hfinish : ∀ t, L.finish t = L := fun t => if_pos hL
  unfold conclude
  split at hend
  · next heq => rw [heq]; simp only [hend, hfinish]
  · next heq => rw [heq]; simp only [hend, hfinish]

end KeepsLog

end NexusStudio.Streaming
