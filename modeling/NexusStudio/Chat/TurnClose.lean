import NexusStudio.Lib.Machine
import Mathlib.Data.Nat.Basic

/-!
# The closing message of a turn

One turn of a conversation, from `prepare_turn` to the end of `stream_conversation_agent_turn`, with everything that
may write its closing message:

* (broadcast subscribers) `_record_model_step` of the recorder and the browser-blocked subscriber, which run beside
  the turn and may outlive it when its cleanup times out;
* (main task) the recovery hook, `_handle_completed` and `_handle_failed`;
* (cleanup) `finalize_inflight_turn_abort`, which also restores the checkpoint;
* (requests) `abort_user_turn`, any number of times.

A writer that sets `final_persisted` does it after its insert, in a step of its own, and may be cut in between.
-/

namespace NexusStudio.TurnClose

open Concurrent

/-- The phases of closing messages; an answer and the text of an exhausted recovery are both `final`. -/
inductive Closing
  | final
  | error
  | cancelled
  deriving DecidableEq, Repr

/-- A writer of a broadcast subscriber: before its insert, and between its insert and `final_persisted`. -/
inductive WriterPc
  | idle
  | begun
  | stored
  deriving DecidableEq, Repr

/-- How `_attempt_recovery` ends. -/
inductive Recovery
  | cancelled
  | answer
  | exhausted
  deriving DecidableEq, Repr

def Recovery.closing : Recovery → Closing
  | cancelled => .cancelled
  | answer | exhausted => .final

/-- Where the task of the engine is. -/
inductive MainPc
  | preparing
  -- consumes agent events
  | running
  -- `_attempt_recovery`: asks the model, has decided, has inserted its message
  | recovering
  | decided (r : Recovery)
  | recovered (r : Recovery)
  -- `_handle_completed`: found `final_persisted` unset, has inserted the message, is past it
  | completing
  | completed
  | tail
  -- is about to call `fail`
  | failed
  -- `_handle_failed` before its insert
  | failing
  -- `_finish_turn`: waits for the broadcast tasks
  | finishing
  | ended
  deriving DecidableEq, Repr

/-- Where the `finally` of the stream is. -/
inductive CleanupPc
  | streaming
  -- found `final_persisted` unset
  | closing
  | repairing
  | over
  deriving DecidableEq, Repr

structure State where
  closing : List Closing
  finalPersisted : Bool
  recoveryCancelled : Bool
  cancelEvent : Bool
  -- `turn_start_messages` were captured
  captured : Bool
  -- the checkpoint was set to `turn_start_messages`
  rolledBack : Bool
  main : MainPc
  cleanup : CleanupPc
  -- model steps with an answer that the recorder has not come to yet
  answers : Nat
  recorder : WriterPc
  -- the browser-blocked subscriber has an event to handle
  blocked : Bool
  browser : WriterPc
  -- `abort_user_turn` calls that are about to insert their message
  aborting : Nat
  -- messages inserted by a writer that does not set `final_persisted`
  unmarked : Nat
  deriving DecidableEq, Repr

/-- A turn whose execution was just handed to the supervisor. -/
def fresh : State where
  closing := []
  finalPersisted := false
  recoveryCancelled := false
  cancelEvent := false
  captured := false
  rolledBack := false
  main := .preparing
  cleanup := .streaming
  answers := 0
  recorder := .idle
  blocked := false
  browser := .idle
  aborting := 0
  unmarked := 0

def State.insert (s : State) (c : Closing) : State :=
  { s with closing := s.closing ++ [c] }

/-- A message of a writer that leaves `final_persisted` alone. -/
def State.insertUnmarked (s : State) (c : Closing) : State :=
  { s with closing := s.closing ++ [c], unmarked := s.unmarked + 1 }

inductive Action
  | prepare
  -- `prepare_turn` or `build_agent` raises, before or after the capture
  | prepareRaise (captured : Bool)
  | setCancel
  -- a model step with text and without tool calls is broadcast
  | modelAnswer
  | recorderBegin
  | recorderStore
  | recorderMark
  | recorderRaise
  -- a tool result with `browser_blocked` is broadcast and ends the loop
  | browserBlocked
  | browserCheck
  | browserStore
  | browserMark
  | browserRaise
  -- `before_complete` or `on_stream_break` starts a recovery
  | beforeComplete
  | streamBreak
  | recoverDecide (r : Recovery)
  | recoverStore
  | recoverMark
  -- `_handle_completed` finds something to store, or nothing
  | complete
  | completeNothing
  | completeStore
  | completeMark
  | fail
  -- an internal exception text is not stored
  | failSkip
  | failStore
  -- the main task raises
  | raise
  -- the main task is cancelled by force
  | force
  -- the main task stops without a message
  | stop
  | finish
  | cleanupCheck
  | cleanupStore
  | cleanupRaise
  | repair
  | abort
  | abortStore
  deriving DecidableEq, Repr

/-- Where an exception in the main task leads to `_handle_run_exception`. -/
def MainPc.raises : MainPc → Bool
  | running | recovering | decided _ | recovered _ | completing | completed | tail => true
  | _ => false

/-- Where the main task may be cancelled. -/
def MainPc.alive : MainPc → Bool
  | preparing | finishing | ended => false
  | _ => true

/-- What follows once a recovery has set `final_persisted`. -/
def Recovery.next : Recovery → MainPc
  | cancelled => .finishing
  | answer => .tail
  | exhausted => .failed

def step (s : State) : Action → Option State
  | .prepare => if s.main = .preparing then some { s with main := .running, captured := true } else none
  | .prepareRaise c => if s.main = .preparing then some { s with main := .ended, captured := c } else none
  | .setCancel => some { s with cancelEvent := true }
  | .modelAnswer => if s.main = .running then some { s with answers := s.answers + 1 } else none
  | .recorderBegin =>
    if s.recorder = .idle ∧ 0 < s.answers then some { s with recorder := .begun, answers := s.answers - 1 } else none
  | .recorderStore => if s.recorder = .begun then some { s.insert .final with recorder := .stored } else none
  | .recorderMark =>
    if s.recorder = .stored then some { s with recorder := .idle, finalPersisted := true } else none
  | .recorderRaise => if s.recorder ≠ .idle then some { s with recorder := .idle } else none
  | .browserBlocked =>
    if s.main = .running then some { s with main := .finishing, blocked := true } else none
  | .browserCheck =>
    if s.blocked = true ∧ s.browser = .idle then
      some { s with blocked := false, browser := if s.finalPersisted then .idle else .begun }
    else none
  | .browserStore => if s.browser = .begun then some { s.insert .final with browser := .stored } else none
  | .browserMark =>
    if s.browser = .stored then some { s with browser := .idle, finalPersisted := true } else none
  | .browserRaise => if s.browser ≠ .idle then some { s with browser := .idle } else none
  | .beforeComplete =>
    if s.main = .running ∧ s.finalPersisted = false then some { s with main := .recovering } else none
  | .streamBreak =>
    if s.main = .running ∧ s.cancelEvent = false then some { s with main := .recovering } else none
  | .recoverDecide r =>
    if s.main = .recovering ∧ (s.cancelEvent = true ↔ r = .cancelled) then some { s with main := .decided r } else none
  | .recoverStore =>
    match s.main with
    | .decided r => some { s.insert r.closing with main := .recovered r }
    | _ => none
  | .recoverMark =>
    match s.main with
    | .recovered r =>
      some { s with
        main := r.next, finalPersisted := true
        recoveryCancelled := s.recoveryCancelled || decide (r = .cancelled) }
    | _ => none
  | .complete =>
    if s.main = .running ∧ s.finalPersisted = false then some { s with main := .completing } else none
  | .completeNothing => if s.main = .running then some { s with main := .tail } else none
  | .completeStore => if s.main = .completing then some { s.insert .final with main := .completed } else none
  | .completeMark =>
    if s.main = .completed then some { s with main := .tail, finalPersisted := true } else none
  | .fail => if s.main = .running ∨ s.main = .failed then some { s with main := .failing } else none
  | .failSkip => if s.main = .running ∨ s.main = .failed then some { s with main := .finishing } else none
  | .failStore => if s.main = .failing then some { s.insertUnmarked .error with main := .finishing } else none
  | .raise =>
    if s.main.raises then some { s with main := .failed }
    else if s.main = .failing then some { s with main := .finishing }
    else none
  | .force => if s.main.alive then some { s with main := .finishing } else none
  | .stop => if s.main = .running ∨ s.main = .tail then some { s with main := .finishing } else none
  | .finish => if s.main = .finishing then some { s with main := .ended } else none
  | .cleanupCheck =>
    if s.cleanup = .streaming ∧ s.main = .ended then
      some { s with
        cleanup := if s.cancelEvent then (if s.finalPersisted then .repairing else .closing) else .over }
    else none
  | .cleanupStore =>
    if s.cleanup = .closing then some { s.insertUnmarked .cancelled with cleanup := .repairing } else none
  | .cleanupRaise =>
    if s.cleanup = .closing ∨ s.cleanup = .repairing then some { s with cleanup := .over } else none
  | .repair =>
    if s.cleanup = .repairing then some { s with cleanup := .over, rolledBack := s.captured } else none
  | .abort => some { s with aborting := s.aborting + 1 }
  | .abortStore =>
    if 0 < s.aborting then some { s.insertUnmarked .cancelled with aborting := s.aborting - 1 } else none

/-- One turn with its cleanup and the cancel requests for it. -/
def turn : Machine State Action where
  init s := s = fresh
  step := step

/-- The claim: one closing message at most, and a checkpoint that was rolled back belongs to the cancelled one. -/
structure ClosedOnce (s : State) : Prop where
  once : s.closing.length ≤ 1
  agree : s.rolledBack = true → s.closing = [.cancelled]

/-! ### The condition -/

/-- Writers between the check of `final_persisted` (or where they have none, their start) and their insert. -/
def WriterPc.begunCount : WriterPc → Nat
  | begun => 1
  | _ => 0

/-- Writers between their insert and `final_persisted`. -/
def WriterPc.storedCount : WriterPc → Nat
  | stored => 1
  | _ => 0

def MainPc.begunCount : MainPc → Nat
  | recovering | decided _ | completing | failing => 1
  | _ => 0

def MainPc.storedCount : MainPc → Nat
  | recovered _ | completed => 1
  | _ => 0

def CleanupPc.begunCount : CleanupPc → Nat
  | closing => 1
  | _ => 0

def State.begun (s : State) : Nat :=
  s.recorder.begunCount + s.browser.begunCount + s.main.begunCount + s.cleanup.begunCount + s.aborting

def State.stored (s : State) : Nat :=
  s.recorder.storedCount + s.browser.storedCount + s.main.storedCount

/-- No writer is at work, and none has left a message without setting `final_persisted`. -/
def State.Clear (s : State) : Prop :=
  s.begun = 0 ∧ s.stored = 0 ∧ s.unmarked = 0

instance (s : State) : Decidable s.Clear := inferInstanceAs (Decidable (_ ∧ _ ∧ _))

/-- The checks of `final_persisted` that a writer makes before its message. -/
def Action.checks : Action → Bool
  | browserCheck | beforeComplete | complete => true
  | _ => false

/-- The starts of the writers that do not check `final_persisted`. -/
def Action.begins : Action → Bool
  | recorderBegin | streamBreak | fail | abort => true
  | _ => false

/-- The step cuts a writer between its insert and `final_persisted`. -/
def State.cuts (s : State) : Action → Bool
  | .recorderRaise => s.recorder = .stored
  | .browserRaise => s.browser = .stored
  | .raise | .force => s.main.storedCount ≠ 0
  | _ => false

/-- When a step keeps to one closing message. -/
structure CloseSafe (s : State) (a : Action) : Prop where
  check : a.checks = true → s.finalPersisted = false → s.Clear
  begin : a.begins = true → s.finalPersisted = false ∧ s.Clear
  cleanup : a = .cleanupCheck → s.cancelEvent = true →
    s.Clear ∧ (s.finalPersisted = true → s.recoveryCancelled = true)
  uncut : s.cuts a = false

theorem closeSafe_iff {s : State} {a : Action} :
    CloseSafe s a ↔ (a.checks = true → s.finalPersisted = false → s.Clear) ∧
      (a.begins = true → s.finalPersisted = false ∧ s.Clear) ∧
      (a = .cleanupCheck → s.cancelEvent = true →
        s.Clear ∧ (s.finalPersisted = true → s.recoveryCancelled = true)) ∧ s.cuts a = false :=
  ⟨fun ⟨h₁, h₂, h₃, h₄⟩ => ⟨h₁, h₂, h₃, h₄⟩, fun ⟨h₁, h₂, h₃, h₄⟩ => ⟨h₁, h₂, h₃, h₄⟩⟩

instance (s : State) (a : Action) : Decidable (CloseSafe s a) :=
  decidable_of_iff' _ closeSafe_iff

/-! ### The invariant -/

/-- The messages are those between insert and `final_persisted`, the one that set it and the unmarked ones; with the
writers before their insert they are at most one. -/
structure Inv (s : State) : Prop where
  count : s.closing.length = s.stored + s.finalPersisted.toNat + s.unmarked
  one : s.begun + s.stored + s.finalPersisted.toNat + s.unmarked ≤ 1
  repairing : s.cleanup = .repairing → s.closing = [.cancelled]
  rolledBack : s.rolledBack = true → s.closing = [.cancelled]
  recovered : s.main = .recovered .cancelled → s.closing = [.cancelled]
  recoveryCancelled : s.recoveryCancelled = true → s.finalPersisted = true ∧ s.closing = [.cancelled]

theorem inv_fresh : Inv fresh where
  count := rfl
  one := by decide
  repairing := nofun
  rolledBack := nofun
  recovered := nofun
  recoveryCancelled := nofun

section Steps

variable {s t : State} {k : Closing}

theorem Inv.empty (hI : Inv s) (hb : 0 < s.begun) : s.closing = [] := by
  have hc := hI.count
  have ho := hI.one
  exact List.length_eq_zero_iff.1 (by omega)

/-- A step that writes no message. -/
theorem Inv.keep (hI : Inv s) (hc : t.closing = s.closing)
    (hst : t.stored + t.finalPersisted.toNat + t.unmarked = s.stored + s.finalPersisted.toNat + s.unmarked)
    (hb : t.begun ≤ s.begun ∨ t.begun ≤ s.begun + 1 ∧ s.finalPersisted = false ∧ s.Clear)
    (hrep : t.cleanup = .repairing → s.closing = [.cancelled]) (hroll : t.rolledBack = true → s.closing = [.cancelled])
    (hrec : t.main = .recovered .cancelled → s.main = .recovered .cancelled)
    (hrc : t.recoveryCancelled = true → t.finalPersisted = true ∧ s.closing = [.cancelled]) : Inv t where
  count := by rw [hc, hI.count]; omega
  one := by
    have ho := hI.one
    rcases hb with hb | ⟨hb, hf, h₁, h₂, h₃⟩
    · omega
    · rw [hf, Bool.toNat_false] at hst
      omega
  repairing h := by rw [hc]; exact hrep h
  rolledBack h := by rw [hc]; exact hroll h
  recovered h := by rw [hc]; exact hI.recovered (hrec h)
  recoveryCancelled h := by rw [hc]; exact hrc h

/-- A step that inserts the message of a writer that had begun. -/
theorem Inv.insert (hI : Inv s) (hb : 0 < s.begun) (hc : t.closing = s.closing ++ [k])
    (hst : t.stored + t.finalPersisted.toNat + t.unmarked = s.stored + s.finalPersisted.toNat + s.unmarked + 1)
    (hone : t.begun + t.stored + t.finalPersisted.toNat + t.unmarked ≤ 1)
    (hrep : t.cleanup = .repairing → s.cleanup = .repairing ∨ k = .cancelled)
    (hroll : t.rolledBack = s.rolledBack)
    (hrec : t.main = .recovered .cancelled → s.main = .recovered .cancelled ∨ k = .cancelled)
    (hrc : t.recoveryCancelled = s.recoveryCancelled) : Inv t := by
  have he := hI.empty hb
  have hk : t.closing = [k] := by rw [hc, he]; rfl
  have hno : s.closing ≠ [.cancelled] := by rw [he]; nofun
  refine ⟨?_, hone, fun h => ?_, fun h => ?_, fun h => ?_, fun h => ?_⟩
  · have := hI.count
    rw [hc, List.length_append, this]
    simp only [List.length_singleton]
    omega
  · rcases hrep h with h | h
    · exact absurd (hI.repairing h) hno
    · rw [hk, h]
  · rw [hroll] at h
    exact absurd (hI.rolledBack h) hno
  · rcases hrec h with h | h
    · exact absurd (hI.recovered h) hno
    · rw [hk, h]
  · rw [hrc] at h
    exact absurd (hI.recoveryCancelled h).2 hno

/-- What the invariant does not speak of. -/
theorem Inv.aux (hI : Inv s) (e c b : Bool) (n : Nat) :
    Inv { s with cancelEvent := e, captured := c, blocked := b, answers := n } :=
  ⟨hI.count, hI.one, hI.repairing, hI.rolledBack, hI.recovered, hI.recoveryCancelled⟩

/-- The main task goes on without a message. -/
theorem Inv.moveMain {m : MainPc} (hI : Inv s) (hst : m.storedCount = s.main.storedCount)
    (hb : m.begunCount ≤ s.main.begunCount ∨ s.finalPersisted = false ∧ s.Clear) (hm : m ≠ .recovered .cancelled) :
    Inv { s with main := m } := by
  refine hI.keep rfl ?_ ?_ hI.repairing hI.rolledBack (fun h => absurd h hm) hI.recoveryCancelled
  · simp only [State.stored, hst]
  · have hle : m.begunCount ≤ 1 := by cases m <;> simp [MainPc.begunCount]
    simp only [State.begun]
    rcases hb with hb | hb
    · exact .inl (by omega)
    · exact .inr ⟨by omega, hb⟩

/-- The recorder and the browser-blocked subscriber insert an answer. -/
theorem Inv.insertFinal {r w : WriterPc} (hI : Inv s) (hb : 0 < s.begun)
    (hst : r.storedCount + w.storedCount = s.recorder.storedCount + s.browser.storedCount + 1)
    (hbe : r.begunCount + w.begunCount + 1 = s.recorder.begunCount + s.browser.begunCount) :
    Inv { s.insert .final with recorder := r, browser := w } := by
  have ho := hI.one
  refine hI.insert (k := .final) hb rfl ?_ ?_ .inl rfl .inl rfl
  · simp only [State.stored, State.insert]
    omega
  · simp only [State.begun, State.stored, State.insert] at ho ⊢
    omega

/-- They set `final_persisted`. -/
theorem Inv.mark {r w : WriterPc} (hI : Inv s)
    (hst : r.storedCount + w.storedCount + 1 = s.recorder.storedCount + s.browser.storedCount)
    (hbe : r.begunCount + w.begunCount = s.recorder.begunCount + s.browser.begunCount) :
    Inv { s with recorder := r, browser := w, finalPersisted := true } := by
  have ho := hI.one
  have hf : s.finalPersisted = false := by
    by_contra hf
    rw [Bool.not_eq_false] at hf
    rw [hf, Bool.toNat_true, State.stored] at ho
    omega
  refine hI.keep rfl ?_ (.inl ?_) hI.repairing hI.rolledBack id fun h => ⟨rfl, (hI.recoveryCancelled h).2⟩
  · simp only [State.stored, hf, Bool.toNat_false, Bool.toNat_true]
    omega
  · simp only [State.begun]
    omega

/-- They begin, or give up before an insert. -/
theorem Inv.moveWriter {r w : WriterPc} (hI : Inv s)
    (hst : r.storedCount + w.storedCount = s.recorder.storedCount + s.browser.storedCount)
    (hb : r.begunCount + w.begunCount ≤ s.recorder.begunCount + s.browser.begunCount ∨
      r.begunCount + w.begunCount ≤ s.recorder.begunCount + s.browser.begunCount + 1 ∧
        s.finalPersisted = false ∧ s.Clear) :
    Inv { s with recorder := r, browser := w } := by
  refine hI.keep rfl ?_ ?_ hI.repairing hI.rolledBack id hI.recoveryCancelled
  · simp only [State.stored]
    omega
  · simp only [State.begun]
    rcases hb with hb | ⟨hb, hc⟩
    · exact .inl (by omega)
    · exact .inr ⟨by omega, hc⟩

theorem inv_recorder {a : Action} (hI : Inv s) (hC : CloseSafe s a) (h : step s a = some t)
    (ha : a = .recorderBegin ∨ a = .recorderStore ∨ a = .recorderMark ∨ a = .recorderRaise) : Inv t := by
  rcases ha with rfl | rfl | rfl | rfl
  all_goals
    simp only [step, Option.ite_none_right_eq_some, Option.some.injEq] at h
    obtain ⟨hr, rfl⟩ := h
  · refine (hI.moveWriter (r := .begun) (w := s.browser) ?_ (.inr ⟨?_, hC.begin rfl⟩)).aux _ _ _ _
    · simp only [hr.1, WriterPc.storedCount]
    · rw [hr.1]
      exact Nat.le_of_eq (by simp only [WriterPc.begunCount, Nat.zero_add, Nat.add_comm])
  · refine hI.insertFinal (r := .stored) ?_ ?_ ?_
    · simp only [State.begun, hr, WriterPc.begunCount]
      omega
    · simp only [State.insert, hr, WriterPc.storedCount]
      omega
    · simp only [State.insert, hr, WriterPc.begunCount]
      omega
  · refine hI.mark (r := .idle) ?_ ?_
    · simp only [hr, WriterPc.storedCount]
      omega
    · simp only [hr, WriterPc.begunCount]
  · have hu : s.recorder ≠ .stored := by simpa [State.cuts] using hC.uncut
    have hbegun : s.recorder = .begun := by cases hs : s.recorder <;> simp_all
    refine hI.moveWriter (r := .idle) ?_ (.inl ?_)
    · simp only [hbegun, WriterPc.storedCount]
    · simp only [hbegun, WriterPc.begunCount]
      omega

theorem inv_browser {a : Action} (hI : Inv s) (hC : CloseSafe s a) (h : step s a = some t)
    (ha : a = .browserCheck ∨ a = .browserStore ∨ a = .browserMark ∨ a = .browserRaise) : Inv t := by
  rcases ha with rfl | rfl | rfl | rfl
  all_goals
    simp only [step, Option.ite_none_right_eq_some, Option.some.injEq] at h
    obtain ⟨hw, rfl⟩ := h
  · refine (hI.moveWriter (r := s.recorder) (w := if s.finalPersisted then .idle else .begun) ?_ ?_).aux _ _ _ _
    · rw [hw.2]
      split <;> rfl
    · rw [hw.2]
      cases hf : s.finalPersisted with
      | true => exact .inl (Nat.le_of_eq rfl)
      | false => exact .inr ⟨Nat.le_of_eq rfl, rfl, hC.check rfl hf⟩
  · refine hI.insertFinal (w := .stored) ?_ ?_ ?_
    · simp only [State.begun, hw, WriterPc.begunCount]
      omega
    · simp only [State.insert, hw, WriterPc.storedCount]
    · simp only [State.insert, hw, WriterPc.begunCount]
  · refine hI.mark (w := .idle) ?_ ?_
    · simp only [hw, WriterPc.storedCount]
    · simp only [hw, WriterPc.begunCount]
  · have hu : s.browser ≠ .stored := by simpa [State.cuts] using hC.uncut
    have hbegun : s.browser = .begun := by cases hs : s.browser <;> simp_all
    refine hI.moveWriter (w := .idle) ?_ (.inl ?_)
    · simp only [hbegun, WriterPc.storedCount]
    · simp only [hbegun, WriterPc.begunCount]
      omega

/-- The main task inserts a message. -/
theorem Inv.insertMain {m : MainPc} (hI : Inv s) (hb : s.main.begunCount = 1) (hst : s.main.storedCount = 0)
    (hm : m.begunCount = 0) (hms : m.storedCount = 1) (hk : m = .recovered .cancelled → k = .cancelled) :
    Inv { s.insert k with main := m } := by
  have ho := hI.one
  refine hI.insert (k := k) ?_ rfl ?_ ?_ .inl rfl (fun h => .inr (hk h)) rfl
  · rw [State.begun, hb]
    omega
  · simp only [State.stored, State.insert]
    omega
  · simp only [State.begun, State.stored, State.insert] at ho ⊢
    omega

/-- The main task sets `final_persisted`. -/
theorem Inv.markMain {m : MainPc} {c : Bool} (hI : Inv s) (hst : s.main.storedCount = 1) (hm : m.begunCount = 0)
    (hms : m.storedCount = 0) (hc : c = true → s.closing = [.cancelled]) :
    Inv { s with main := m, finalPersisted := true, recoveryCancelled := c } := by
  have ho := hI.one
  have hf : s.finalPersisted = false := by
    by_contra hf
    rw [Bool.not_eq_false] at hf
    rw [hf, Bool.toNat_true, State.stored] at ho
    omega
  refine hI.keep rfl ?_ (.inl ?_) hI.repairing hI.rolledBack ?_ fun h => ⟨rfl, hc h⟩
  · simp only [State.stored, hf, Bool.toNat_false, Bool.toNat_true]
    omega
  · simp only [State.begun]
    omega
  · rintro rfl
    cases hms

theorem inv_recovery {a : Action} (hI : Inv s) (hC : CloseSafe s a) (h : step s a = some t)
    (ha : a = .beforeComplete ∨ a = .streamBreak ∨ (∃ r, a = .recoverDecide r) ∨ a = .recoverStore ∨
      a = .recoverMark) : Inv t := by
  rcases ha with rfl | rfl | ⟨r, rfl⟩ | rfl | rfl
  · simp only [step, Option.ite_none_right_eq_some, Option.some.injEq] at h
    obtain ⟨⟨hm, hf⟩, rfl⟩ := h
    exact hI.moveMain (m := .recovering) (by rw [hm]; rfl) (.inr ⟨hf, hC.check rfl hf⟩) nofun
  · simp only [step, Option.ite_none_right_eq_some, Option.some.injEq] at h
    obtain ⟨⟨hm, -⟩, rfl⟩ := h
    exact hI.moveMain (m := .recovering) (by rw [hm]; rfl) (.inr (hC.begin rfl)) nofun
  · simp only [step, Option.ite_none_right_eq_some, Option.some.injEq] at h
    obtain ⟨⟨hm, -⟩, rfl⟩ := h
    exact hI.moveMain (m := .decided r) (by rw [hm]; rfl) (.inl (by rw [hm]; exact Nat.le_refl 1)) nofun
  · simp only [step] at h
    split at h
    case h_1 r hm =>
      cases h
      refine hI.insertMain (m := .recovered r) (by rw [hm]; rfl) (by rw [hm]; rfl) rfl rfl ?_
      rintro ⟨⟩
      rfl
    case h_2 => cases h
  · simp only [step] at h
    split at h
    case h_1 r hm =>
      cases h
      refine hI.markMain (by rw [hm]; rfl) (by cases r <;> rfl) (by cases r <;> rfl) ?_
      intro hc
      rcases Bool.or_eq_true_iff.1 hc with hc | hc
      · exact (hI.recoveryCancelled hc).2
      · rw [of_decide_eq_true hc] at hm
        exact hI.recovered hm
    case h_2 => cases h

theorem inv_completed {a : Action} (hI : Inv s) (hC : CloseSafe s a) (h : step s a = some t)
    (ha : a = .complete ∨ a = .completeNothing ∨ a = .completeStore ∨ a = .completeMark) : Inv t := by
  rcases ha with rfl | rfl | rfl | rfl
  all_goals
    simp only [step, Option.ite_none_right_eq_some, Option.some.injEq] at h
    obtain ⟨hm, rfl⟩ := h
  · exact hI.moveMain (m := .completing) (by rw [hm.1]; rfl) (.inr ⟨hm.2, hC.check rfl hm.2⟩) nofun
  · exact hI.moveMain (m := .tail) (by rw [hm]; rfl) (.inl (Nat.zero_le _)) nofun
  · exact hI.insertMain (m := .completed) (by rw [hm]; rfl) (by rw [hm]; rfl) rfl rfl nofun
  · exact hI.markMain (m := .tail) (by rw [hm]; rfl) rfl rfl fun h => (hI.recoveryCancelled h).2

/-- A message of a writer that does not set `final_persisted`. -/
theorem Inv.insertUnmarked {m : MainPc} {l : CleanupPc} {n : Nat} (hI : Inv s)
    (hst : m.storedCount = s.main.storedCount)
    (hb : m.begunCount + l.begunCount + n + 1 = s.main.begunCount + s.cleanup.begunCount + s.aborting)
    (hm : m = .recovered .cancelled → s.main = .recovered .cancelled)
    (hl : l = .repairing → s.cleanup = .repairing ∨ k = .cancelled) :
    Inv { s.insertUnmarked k with main := m, cleanup := l, aborting := n } := by
  have ho := hI.one
  refine hI.insert (k := k) ?_ rfl ?_ ?_ hl rfl (fun h => .inl (hm h)) rfl
  · simp only [State.begun]
    omega
  · simp only [State.stored, State.insertUnmarked]
    omega
  · simp only [State.begun, State.stored, State.insertUnmarked] at ho ⊢
    omega

theorem inv_failed {a : Action} (hI : Inv s) (hC : CloseSafe s a) (h : step s a = some t)
    (ha : a = .fail ∨ a = .failSkip ∨ a = .failStore ∨ a = .raise ∨ a = .force) : Inv t := by
  rcases ha with rfl | rfl | rfl | rfl | rfl
  · simp only [step, Option.ite_none_right_eq_some, Option.some.injEq] at h
    obtain ⟨hm, rfl⟩ := h
    refine hI.moveMain (m := .failing) ?_ (.inr (hC.begin rfl)) nofun
    rcases hm with hm | hm <;> rw [hm] <;> rfl
  · simp only [step, Option.ite_none_right_eq_some, Option.some.injEq] at h
    obtain ⟨hm, rfl⟩ := h
    refine hI.moveMain (m := .finishing) ?_ (.inl (Nat.zero_le _)) nofun
    rcases hm with hm | hm <;> rw [hm] <;> rfl
  · simp only [step, Option.ite_none_right_eq_some, Option.some.injEq] at h
    obtain ⟨hm, rfl⟩ := h
    refine hI.insertUnmarked (m := .finishing) ?_ ?_ nofun .inl
    · rw [hm]
      rfl
    · simp only [hm, MainPc.begunCount, State.insertUnmarked]
      omega
  all_goals
    have hu : s.main.storedCount = 0 := by simpa [State.cuts] using hC.uncut
    simp only [step] at h
  · split at h
    · cases h
      exact hI.moveMain (m := .failed) hu.symm (.inl (Nat.zero_le _)) nofun
    · simp only [Option.ite_none_right_eq_some, Option.some.injEq] at h
      obtain ⟨-, rfl⟩ := h
      exact hI.moveMain (m := .finishing) hu.symm (.inl (Nat.zero_le _)) nofun
  · simp only [Option.ite_none_right_eq_some, Option.some.injEq] at h
    obtain ⟨-, rfl⟩ := h
    exact hI.moveMain (m := .finishing) hu.symm (.inl (Nat.zero_le _)) nofun

theorem inv_cleanup {a : Action} (hI : Inv s) (hC : CloseSafe s a) (h : step s a = some t)
    (ha : a = .cleanupCheck ∨ a = .cleanupStore ∨ a = .cleanupRaise ∨ a = .repair) : Inv t := by
  rcases ha with rfl | rfl | rfl | rfl
  all_goals
    simp only [step, Option.ite_none_right_eq_some, Option.some.injEq] at h
    obtain ⟨hl, rfl⟩ := h
  · refine hI.keep rfl rfl ?_ ?_ hI.rolledBack id hI.recoveryCancelled
    · simp only [State.begun, hl.1, CleanupPc.begunCount]
      cases hc : s.cancelEvent with
      | false => exact .inl (Nat.le_refl _)
      | true =>
        cases hf : s.finalPersisted with
        | true => exact .inl (Nat.le_refl _)
        | false =>
          refine .inr ⟨?_, rfl, (hC.cleanup rfl hc).1⟩
          simp only [if_true, Bool.false_eq_true, if_false]
          omega
    · intro hr
      cases hc : s.cancelEvent with
      | false => simp [hc] at hr
      | true =>
        cases hf : s.finalPersisted with
        | true => exact (hI.recoveryCancelled ((hC.cleanup rfl hc).2 hf)).2
        | false => simp [hc, hf] at hr
  · refine hI.insertUnmarked (l := .repairing) rfl ?_ id fun _ => .inr rfl
    simp only [hl, CleanupPc.begunCount, State.insertUnmarked]
    omega
  · refine hI.keep rfl rfl (.inl ?_) nofun hI.rolledBack id hI.recoveryCancelled
    simp only [State.begun, CleanupPc.begunCount]
    omega
  · refine hI.keep rfl rfl (.inl ?_) nofun (fun _ => hI.repairing hl) id hI.recoveryCancelled
    simp only [State.begun, hl, CleanupPc.begunCount]
    omega

theorem inv_abort {a : Action} (hI : Inv s) (hC : CloseSafe s a) (h : step s a = some t)
    (ha : a = .abort ∨ a = .abortStore) : Inv t := by
  rcases ha with rfl | rfl
  · cases h
    refine hI.keep rfl rfl (.inr ⟨?_, hC.begin rfl⟩) hI.repairing hI.rolledBack id hI.recoveryCancelled
    simp only [State.begun]
    omega
  · simp only [step, Option.ite_none_right_eq_some, Option.some.injEq] at h
    obtain ⟨hn, rfl⟩ := h
    refine hI.insertUnmarked (n := s.aborting - 1) rfl ?_ id .inl
    simp only [State.insertUnmarked]
    omega

/-- Every step that meets the condition keeps the invariant. -/
theorem inv_step {a : Action} (hI : Inv s) (hC : CloseSafe s a) (h : step s a = some t) : Inv t := by
  cases a with
  | prepare =>
    simp only [step, Option.ite_none_right_eq_some, Option.some.injEq] at h
    obtain ⟨hm, rfl⟩ := h
    exact (hI.moveMain (m := .running) (by rw [hm]; rfl) (.inl (Nat.zero_le _)) nofun).aux _ _ _ _
  | prepareRaise =>
    simp only [step, Option.ite_none_right_eq_some, Option.some.injEq] at h
    obtain ⟨hm, rfl⟩ := h
    exact (hI.moveMain (m := .ended) (by rw [hm]; rfl) (.inl (Nat.zero_le _)) nofun).aux _ _ _ _
  | setCancel =>
    cases h
    exact hI.aux _ _ _ _
  | modelAnswer =>
    simp only [step, Option.ite_none_right_eq_some, Option.some.injEq] at h
    obtain ⟨-, rfl⟩ := h
    exact hI.aux _ _ _ _
  | recorderBegin | recorderStore | recorderMark | recorderRaise => exact inv_recorder hI hC h (by simp)
  | browserBlocked =>
    simp only [step, Option.ite_none_right_eq_some, Option.some.injEq] at h
    obtain ⟨hm, rfl⟩ := h
    exact (hI.moveMain (m := .finishing) (by rw [hm]; rfl) (.inl (Nat.zero_le _)) nofun).aux _ _ _ _
  | browserCheck | browserStore | browserMark | browserRaise => exact inv_browser hI hC h (by simp)
  | beforeComplete | streamBreak | recoverDecide | recoverStore | recoverMark => exact inv_recovery hI hC h (by simp)
  | complete | completeNothing | completeStore | completeMark => exact inv_completed hI hC h (by simp)
  | fail | failSkip | failStore | raise | force => exact inv_failed hI hC h (by simp)
  | stop =>
    simp only [step, Option.ite_none_right_eq_some, Option.some.injEq] at h
    obtain ⟨hm, rfl⟩ := h
    refine hI.moveMain (m := .finishing) ?_ (.inl (Nat.zero_le _)) nofun
    rcases hm with hm | hm <;> rw [hm] <;> rfl
  | finish =>
    simp only [step, Option.ite_none_right_eq_some, Option.some.injEq] at h
    obtain ⟨hm, rfl⟩ := h
    exact hI.moveMain (m := .ended) (by rw [hm]; rfl) (.inl (Nat.zero_le _)) nofun
  | cleanupCheck | cleanupStore | cleanupRaise | repair => exact inv_cleanup hI hC h (by simp)
  | abort | abortStore => exact inv_abort hI hC h (by simp)

theorem inv_reach (h : turn.Reach CloseSafe s) : Inv s :=
  h.induct (fun s hs => by rw [show s = fresh from hs]; exact inv_fresh) fun _ _ _ hI hC ht => inv_step hI hC ht

end Steps

/-! ### The condition is enough -/

/-- In every run that meets the condition the turn is closed once, and its checkpoint agrees with the message. -/
theorem closedOnce_of_closeSafe {s : State} (h : turn.Reach CloseSafe s) : ClosedOnce s := by
  have hI := inv_reach h
  have hc := hI.count
  have ho := hI.one
  exact ⟨by omega, hI.rolledBack⟩

/-- A turn is cancelled while it consumes events: its cleanup closes it and restores the checkpoint. -/
theorem closedOnce_cancelled : ∃ s, turn.Reach CloseSafe s ∧ s.rolledBack = true ∧ ClosedOnce s := by
  obtain ⟨s, -, hr, hp⟩ := Machine.reach_of_exec (M := turn) (C := CloseSafe) (s := fresh)
    (p := fun s => s.rolledBack) [.prepare, .setCancel, .stop, .finish, .cleanupCheck, .cleanupStore, .repair] rfl
    (by decide)
  exact ⟨s, hr, hp, closedOnce_of_closeSafe hr⟩

/-! ### A run that breaks it -/

/-- The answer is stored, then the cancel event is set: the cleanup rolls the checkpoint back all the same. -/
theorem not_closedOnce : ¬ ∀ s, turn.Reach Free s → ClosedOnce s := by
  intro hall
  obtain ⟨s, -, hr, hp⟩ := Machine.reach_of_exec (M := turn) (C := Free) (s := fresh)
    (p := fun s => decide (s.rolledBack = true ∧ s.closing = [.final]))
    [.prepare, .modelAnswer, .recorderBegin, .recorderStore, .recorderMark, .setCancel, .stop, .finish, .cleanupCheck,
      .repair] rfl (by decide)
  obtain ⟨hb, hc⟩ := of_decide_eq_true hp
  have := (hall s hr).agree hb
  rw [hc] at this
  cases this

end NexusStudio.TurnClose
