import NexusStudio.Chat.TurnClose

/-!
# The closing frame of a turn and its closing message

The turn of `TurnClose` with the terminal frames that it queues, the pump that reads them and the replay log.

* (queue) ERROR is queued when the turn fails, DONE when it ends; a suspended turn queues nothing.
* (pump) `pump_encoded_sse_queue` turns a set cancel event into CANCELLED and stops reading.
* (log) the first terminal frame closes the log.
* (result) in the runs that meet `FrameSafe`, the frame that closes the log agrees with the stored message.
-/

namespace NexusStudio.TurnClose

open Concurrent

/-- The frames that close a replay log. -/
inductive Terminal
  | cancelled
  | error
  | done
  deriving DecidableEq, Repr

/-- `terminated_by`, as far as `TurnEnded` looks at it. -/
inductive Ended
  | completed
  | interrupted
  | cancelled
  | failed
  deriving DecidableEq, Repr

/-- The pump starts with the engine. -/
inductive PumpPc
  | off
  | reading
  | stopped
  deriving DecidableEq, Repr

/-- The turn, what it has queued, and the log. -/
structure FrameState where
  turn : State
  terminatedBy : Ended
  failedEmitted : Bool
  queue : List Terminal
  pump : PumpPc
  log : Option Terminal
  deriving DecidableEq, Repr

inductive FrameAction
  -- a step of the turn; `t` is its `terminated_by` where the step ends the main task
  | turn (a : Action) (t : Ended)
  -- the cleanup of the engine times out: no `TurnEnded` is handled
  | cleanupTimeout
  | pumpCancel
  | pumpTake
  | pumpEnd
  -- an exception, a lost lease or a full log: an ERROR is appended
  | appendFailure
  deriving DecidableEq, Repr

/-- What `terminated_by` can be when a step brings the main task to its end. -/
def admits (s : State) : Action → Ended → Bool
  | .stop, .completed => s.main == .tail
  | .stop, .interrupted => true
  -- the loop finds the cancel event set, or leaves a failed turn to it
  | .stop, .cancelled => s.cancelEvent
  | .stop, .failed => s.main == .running && s.cancelEvent
  | .browserBlocked, t => t == .completed || t == .interrupted
  | .recoverMark, t => t == .cancelled
  | .force, .completed | .force, .interrupted => s.main == .tail
  | .force, t => t == .cancelled
  | _, t => t == .failed

/-- `_handle_ended` for the policy of a chat turn. -/
def handleEnded (t : Ended) (failedEmitted : Bool) : List Terminal :=
  match t with
  | .interrupted => []
  | .completed | .cancelled => [.done]
  | .failed => if failedEmitted then [.done] else [.error, .done]

/-- The terminal frames that a step of the turn queues. -/
def FrameState.emits (s : FrameState) : Action → List Terminal
  | .fail | .failSkip => [.error]
  | .finish => handleEnded s.terminatedBy s.failedEmitted
  | _ => []

/-- Where a step leaves the pump. -/
def PumpPc.after (p : PumpPc) : Action → PumpPc
  | .prepare => reading
  | .prepareRaise _ => stopped
  | _ => p

def frameStep (s : FrameState) : FrameAction → Option FrameState
  | .turn a t =>
    -- the `finally` of the stream comes after the pump
    if a = .cleanupCheck ∧ s.pump ≠ .stopped then none
    else
      (step s.turn a).bind fun u =>
        if u.main = .finishing ∧ s.turn.main ≠ .finishing ∧ ¬ admits s.turn a t then none
        else
          some { s with
            turn := u
            terminatedBy := if u.main = .finishing ∧ s.turn.main ≠ .finishing then t else s.terminatedBy
            failedEmitted := s.failedEmitted || a == .fail || a == .failSkip
            queue := s.queue ++ s.emits a
            pump := s.pump.after a }
  | .cleanupTimeout =>
    if s.turn.main = .finishing then some { s with turn := { s.turn with main := .ended } } else none
  | .pumpCancel =>
    if s.pump = .reading ∧ s.turn.cancelEvent then
      some { s with pump := .stopped, log := s.log.or (some .cancelled) }
    else none
  | .pumpTake =>
    if s.pump = .reading ∧ s.turn.cancelEvent = false then
      match s.queue with
      | [] => none
      | f :: q => some { s with queue := q, log := s.log.or (some f) }
    else none
  | .pumpEnd =>
    if s.pump = .reading ∧ s.turn.cancelEvent = false ∧ s.queue = [] ∧ s.turn.main = .ended then
      some { s with pump := .stopped }
    else none
  | .appendFailure => some { s with log := s.log.or (some .error) }

def frameFresh : FrameState where
  turn := fresh
  terminatedBy := .failed
  failedEmitted := false
  queue := []
  pump := .off
  log := none

/-- One turn with its frames. -/
def frames : Machine FrameState FrameAction where
  init s := s = frameFresh
  step := frameStep

/-! ### The result -/

/-- The log is closed by CANCELLED only for a turn that stores the cancelled message and no other, and by DONE only for
one that does not store it. -/
structure Agrees (s : FrameState) : Prop where
  only : s.log = some .cancelled → ∀ c ∈ s.turn.closing, c = .cancelled
  stored : s.log = some .cancelled → s.turn.cleanup = .over → s.turn.closing ≠ []
  done : s.log = some .done → .cancelled ∉ s.turn.closing

/-- Somebody is about to store an answer or an error. -/
def State.Answering (s : State) : Prop :=
  s.recorder = .begun ∨ s.browser = .begun ∨ s.main = .completing ∨ s.main = .failing ∨
    s.main = .decided .answer ∨ s.main = .decided .exhausted

instance (s : State) : Decidable s.Answering := inferInstanceAs (Decidable (_ ∨ _ ∨ _ ∨ _ ∨ _ ∨ _))

/-- The step begins an answer or an error. -/
def State.beginsAnswer (s : State) : Action → Bool
  | .recorderBegin | .complete | .fail => true
  | .browserCheck => !s.finalPersisted
  | _ => false

/-- CANCELLED is published when no answer and no error is stored or about to be, none begins after it, and the cleanup
stores its message; DONE is published when no cancel request stores one, none begins after it, and the cleanup does not
find the cancel event of a turn without a message. -/
def FrameSafe (s : FrameState) : FrameAction → Prop
  | .pumpCancel => s.log = none → (∀ c ∈ s.turn.closing, c = .cancelled) ∧ ¬ s.turn.Answering
  | .pumpTake => s.log = none → s.queue.head? = some .done → .cancelled ∉ s.turn.closing ∧ s.turn.aborting = 0
  | .turn a _ =>
    (s.log = some .cancelled →
      s.turn.beginsAnswer a = false ∧ (a = .cleanupRaise → s.turn.cleanup ≠ .closing)) ∧
    (s.log = some .done →
      a ≠ .abort ∧ (a = .cleanupCheck → s.turn.cancelEvent = true → s.turn.finalPersisted = true))
  | _ => True

instance (s : FrameState) (a : FrameAction) : Decidable (FrameSafe s a) :=
  match a with
  | .pumpCancel => inferInstanceAs (Decidable (_ → _ ∧ _))
  | .pumpTake => inferInstanceAs (Decidable (_ → _ → _ ∧ _))
  | .turn .. => inferInstanceAs (Decidable ((_ → _ ∧ (_ → _)) ∧ (_ → _ ∧ (_ → _ → _))))
  | .cleanupTimeout | .pumpEnd | .appendFailure => isTrue trivial

/-! ### What a step of the turn stores -/

variable {s t : State} {a : Action}

theorem step_closing (h : step s a = some t) :
    t.closing = s.closing ∨
    (t.closing = s.closing ++ [.cancelled] ∧
      (s.main = .decided .cancelled ∨ s.cleanup = .closing ∨ (a = .abortStore ∧ 0 < s.aborting))) ∨
    (s.Answering ∧ ∃ c, c ≠ .cancelled ∧ t.closing = s.closing ++ [c]) := by
  cases a with
  | recorderStore | browserStore | completeStore | failStore =>
    simp only [step, Option.ite_none_right_eq_some, Option.some.injEq] at h
    obtain ⟨hx, rfl⟩ := h
    exact .inr (.inr ⟨by simp [State.Answering, hx], _, by decide, rfl⟩)
  | recoverStore =>
    simp only [step] at h
    split at h
    case h_2 => cases h
    case h_1 r hr =>
      cases h
      cases r with
      | cancelled => exact .inr (.inl ⟨rfl, .inl hr⟩)
      | answer | exhausted => exact .inr (.inr ⟨by simp [State.Answering, hr], .final, by decide, rfl⟩)
  | cleanupStore =>
    simp only [step, Option.ite_none_right_eq_some, Option.some.injEq] at h
    obtain ⟨hx, rfl⟩ := h
    exact .inr (.inl ⟨rfl, .inr (.inl hx)⟩)
  | abortStore =>
    simp only [step, Option.ite_none_right_eq_some, Option.some.injEq] at h
    obtain ⟨hx, rfl⟩ := h
    exact .inr (.inl ⟨rfl, .inr (.inr ⟨rfl, hx⟩)⟩)
  | recoverMark =>
    simp only [step] at h
    split at h
    · cases h
      exact .inl rfl
    · cases h
  | raise =>
    simp only [step] at h
    split at h
    · cases h
      exact .inl rfl
    · simp only [Option.ite_none_right_eq_some, Option.some.injEq] at h
      obtain ⟨-, rfl⟩ := h
      exact .inl rfl
  | setCancel | abort =>
    cases h
    exact .inl rfl
  | _ =>
    simp only [step, Option.ite_none_right_eq_some, Option.some.injEq] at h
    obtain ⟨-, rfl⟩ := h
    exact .inl rfl

/-- Once the cancel event is set, an answer or an error is about to be stored only where it was before, or begins. -/
theorem step_answering (h : step s a = some t) (hc : s.cancelEvent = true) (ht : t.Answering) :
    s.Answering ∨ s.beginsAnswer a = true := by
  cases a with
  | recoverMark =>
    simp only [step] at h
    split at h
    case h_2 => cases h
    case h_1 r hr =>
      cases h
      cases r <;> grind [State.Answering, Recovery.next]
  | recoverStore | raise =>
    simp only [step] at h
    split at h <;> grind [State.Answering, State.insert]
  | setCancel | abort =>
    cases h
    exact .inl ht
  | recoverDecide r =>
    simp only [step, Option.ite_none_right_eq_some, Option.some.injEq] at h
    obtain ⟨⟨-, hr⟩, rfl⟩ := h
    have hr : r = .cancelled := hr.1 hc
    subst hr
    grind [State.Answering]
  | _ =>
    simp only [step, Option.ite_none_right_eq_some, Option.some.injEq] at h
    obtain ⟨hx, rfl⟩ := h
    grind [State.Answering, State.beginsAnswer, State.insert, State.insertUnmarked]

theorem step_cancelEvent (h : step s a = some t) (hc : s.cancelEvent = true) : t.cancelEvent = true := by
  cases a with
  | recoverStore | recoverMark | raise =>
    simp only [step] at h
    split at h <;> grind [State.insert]
  | setCancel | abort =>
    cases h
    first | rfl | exact hc
  | _ =>
    simp only [step, Option.ite_none_right_eq_some, Option.some.injEq] at h
    obtain ⟨-, rfl⟩ := h
    exact hc

theorem step_ended (h : step s a = some t) (hm : s.main = .ended) : t.main = .ended := by
  cases a with
  | recoverStore | recoverMark | raise =>
    simp only [step, hm] at h
    grind [MainPc.raises]
  | setCancel | abort =>
    cases h
    exact hm
  | _ =>
    simp only [step, hm, Option.ite_none_right_eq_some, Option.some.injEq] at h
    obtain ⟨hx, rfl⟩ := h
    first | exact hm | simp_all [MainPc.alive]

theorem step_nonempty (h : step s a = some t) (hs : s.closing ≠ []) : t.closing ≠ [] := by
  rcases step_closing h with hc | ⟨hc, -⟩ | ⟨-, c, -, hc⟩
  · rwa [hc]
  · simp [hc]
  · simp [hc]

/-- Who has set `final_persisted`, or is about to, has stored a message. -/
def State.Kept (s : State) : Prop :=
  s.finalPersisted = true ∨ s.recorder = .stored ∨ s.browser = .stored ∨ s.main.storedCount ≠ 0 → s.closing ≠ []

theorem step_kept (h : step s a = some t) (hK : s.Kept) : t.Kept := by
  intro hk
  by_cases hs : s.finalPersisted = true ∨ s.recorder = .stored ∨ s.browser = .stored ∨ s.main.storedCount ≠ 0
  · exact step_nonempty h (hK hs)
  · -- only an insert brings a writer there
    rcases step_closing h with hc | ⟨hc, -⟩ | ⟨-, c, -, hc⟩
    · refine absurd ?_ hs
      cases a with
      | recorderStore | browserStore | completeStore =>
        simp only [step, Option.ite_none_right_eq_some, Option.some.injEq] at h
        obtain ⟨-, rfl⟩ := h
        simp [State.insert] at hc
      | recoverStore =>
        simp only [step] at h
        split at h
        · cases h
          simp [State.insert] at hc
        · cases h
      | recoverMark =>
        simp only [step] at h
        split at h
        · rename_i r hr
          simp [hr, MainPc.storedCount]
        · cases h
      | raise =>
        simp only [step] at h
        split at h <;> grind [MainPc.storedCount]
      | setCancel | abort =>
        cases h
        exact hk
      | _ =>
        simp only [step, Option.ite_none_right_eq_some, Option.some.injEq] at h
        obtain ⟨hx, rfl⟩ := h
        grind [MainPc.storedCount, State.insert, State.insertUnmarked]
    · simp [hc]
    · simp [hc]

/-- The steps of the cleanup. -/
def Action.cleans : Action → Bool
  | cleanupCheck | cleanupStore | cleanupRaise | repair => true
  | _ => false

theorem step_cleanup_eq (h : step s a = some t) (ha : a.cleans = false) : t.cleanup = s.cleanup := by
  cases a with
  | cleanupCheck | cleanupStore | cleanupRaise | repair => cases ha
  | recoverStore | recoverMark | raise =>
    simp only [step] at h
    split at h <;> grind [State.insert]
  | setCancel | abort =>
    cases h
    rfl
  | _ =>
    simp only [step, Option.ite_none_right_eq_some, Option.some.injEq] at h
    obtain ⟨-, rfl⟩ := h
    rfl

/-- Under a set cancel event the cleanup gets past its insert only with a stored message. -/
theorem step_cleanup (h : step s a = some t) (hc : s.cancelEvent = true) (hK : s.Kept)
    (hr : a = .cleanupRaise → s.cleanup ≠ .closing)
    (hs : s.cleanup = .repairing ∨ s.cleanup = .over → s.closing ≠ []) :
    t.cleanup = .repairing ∨ t.cleanup = .over → t.closing ≠ [] := by
  intro ht
  cases a with
  | cleanupCheck =>
    simp only [step, Option.ite_none_right_eq_some, Option.some.injEq] at h
    obtain ⟨-, rfl⟩ := h
    cases hf : s.finalPersisted with
    | true => exact hK (.inl hf)
    | false => simp [hc, hf] at ht
  | cleanupStore =>
    simp only [step, Option.ite_none_right_eq_some, Option.some.injEq] at h
    obtain ⟨-, rfl⟩ := h
    simp [State.insertUnmarked]
  | cleanupRaise =>
    simp only [step, Option.ite_none_right_eq_some, Option.some.injEq] at h
    obtain ⟨hx, rfl⟩ := h
    rcases hx with hx | hx
    · exact absurd hx (hr rfl)
    · exact hs (.inl hx)
  | repair =>
    simp only [step, Option.ite_none_right_eq_some, Option.some.injEq] at h
    obtain ⟨hx, rfl⟩ := h
    exact hs (.inl hx)
  | _ => exact step_nonempty h (hs (by rwa [step_cleanup_eq h rfl] at ht))

theorem step_aborting (h : step s a = some t) (ha : a ≠ .abort) : t.aborting ≤ s.aborting := by
  cases a with
  | abort => exact absurd rfl ha
  | recoverStore | recoverMark | raise =>
    simp only [step] at h
    split at h <;> grind [State.insert]
  | setCancel =>
    cases h
    exact le_rfl
  | _ =>
    simp only [step, Option.ite_none_right_eq_some, Option.some.injEq] at h
    obtain ⟨-, rfl⟩ := h
    simp [State.insert, State.insertUnmarked]

/-- The cleanup comes to its insert only in a step of its own. -/
theorem step_closing_cleanup (h : step s a = some t) (ht : t.cleanup = .closing) :
    s.cleanup = .closing ∨ (a = .cleanupCheck ∧ s.cancelEvent = true ∧ s.finalPersisted = false) := by
  cases hm : a.cleans with
  | false =>
    rw [step_cleanup_eq h hm] at ht
    exact .inl ht
  | true =>
    cases a with
    | cleanupCheck =>
      simp only [step, Option.ite_none_right_eq_some, Option.some.injEq] at h
      obtain ⟨-, rfl⟩ := h
      cases hc : s.cancelEvent with
      | false => simp [hc] at ht
      | true =>
        cases hf : s.finalPersisted with
        | true => simp [hc, hf] at ht
        | false => exact .inr ⟨rfl, rfl, rfl⟩
    | cleanupStore | cleanupRaise | repair =>
      simp only [step, Option.ite_none_right_eq_some, Option.some.injEq] at h
      obtain ⟨-, rfl⟩ := h
      cases ht
    | _ => cases hm

/-! ### The invariant -/

/-- What the log promises of the turn that goes on behind it. -/
structure FrameInv (s : FrameState) : Prop where
  pump : s.pump ≠ .stopped ∨ s.turn.main = .preparing → s.turn.cleanup = .streaming
  queue : .done ∈ s.queue → s.turn.main = .ended
  queued : .cancelled ∉ s.queue
  kept : s.turn.Kept
  cancelled : s.log = some .cancelled →
    s.turn.cancelEvent = true ∧ ¬ s.turn.Answering ∧ (∀ c ∈ s.turn.closing, c = .cancelled) ∧
      (s.turn.cleanup = .repairing ∨ s.turn.cleanup = .over → s.turn.closing ≠ [])
  done : s.log = some .done →
    s.turn.main = .ended ∧ s.turn.aborting = 0 ∧ s.turn.cleanup ≠ .closing ∧ .cancelled ∉ s.turn.closing

variable {f g : FrameState} {b : FrameAction}

/-- A step of the turn under a log that CANCELLED has closed. -/
theorem cancelled_step {e : Ended} (hI : FrameInv f) (hC : FrameSafe f (.turn a e)) (h : step f.turn a = some t)
    (hlog : f.log = some .cancelled) :
    t.cancelEvent = true ∧ ¬ t.Answering ∧ (∀ c ∈ t.closing, c = .cancelled) ∧
      (t.cleanup = .repairing ∨ t.cleanup = .over → t.closing ≠ []) := by
  obtain ⟨hc, hno, hall, hover⟩ := hI.cancelled hlog
  obtain ⟨hbegins, hraise⟩ := hC.1 hlog
  refine ⟨step_cancelEvent h hc, fun ht => ?_, fun c hm => ?_, step_cleanup h hc hI.kept hraise hover⟩
  · rcases step_answering h hc ht with hs | hs
    · exact hno hs
    · rw [hbegins] at hs
      cases hs
  · rcases step_closing h with heq | ⟨heq, -⟩ | ⟨hs, -⟩
    · rw [heq] at hm
      exact hall c hm
    · rw [heq, List.mem_append, List.mem_singleton] at hm
      rcases hm with hm | hm
      · exact hall c hm
      · exact hm
    · exact absurd hs hno

/-- A step of the turn under a log that DONE has closed. -/
theorem done_step {e : Ended} (hI : FrameInv f) (hC : FrameSafe f (.turn a e)) (h : step f.turn a = some t)
    (hlog : f.log = some .done) :
    t.main = .ended ∧ t.aborting = 0 ∧ t.cleanup ≠ .closing ∧ .cancelled ∉ t.closing := by
  obtain ⟨hm, ha, hcl, hno⟩ := hI.done hlog
  obtain ⟨habort, hcheck⟩ := hC.2 hlog
  refine ⟨step_ended h hm, Nat.le_zero.1 (ha ▸ step_aborting h habort), fun ht => ?_, fun hmem => ?_⟩
  · rcases step_closing_cleanup h ht with hs | ⟨hcheck', hc, hf⟩
    · exact hcl hs
    · rw [hcheck hcheck' hc] at hf
      cases hf
  · rcases step_closing h with heq | ⟨-, hs | hs | ⟨-, hs⟩⟩ | ⟨-, c, hne, heq⟩
    · rw [heq] at hmem
      exact hno hmem
    · rw [hm] at hs
      cases hs
    · exact hcl hs
    · omega
    · rw [heq, List.mem_append, List.mem_singleton] at hmem
      rcases hmem with hmem | hmem
      · exact hno hmem
      · exact hne hmem.symm

/-- A DONE is queued by the step that ends the main task. -/
theorem queue_step (hI : FrameInv f) (h : step f.turn a = some t) (hd : .done ∈ f.queue ++ f.emits a) :
    t.main = .ended := by
  rcases List.mem_append.1 hd with hd | hd
  · exact step_ended h (hI.queue hd)
  · cases a with
    | finish =>
      simp only [step, Option.ite_none_right_eq_some, Option.some.injEq] at h
      obtain ⟨-, rfl⟩ := h
      rfl
    | fail | failSkip => simp [FrameState.emits] at hd
    | _ => cases hd

theorem cancelled_notMem_emits : .cancelled ∉ f.emits a := by
  cases a with
  | fail | failSkip => simp [FrameState.emits]
  | finish =>
    simp only [FrameState.emits, handleEnded]
    split
    · simp
    · simp
    · simp
    · split <;> simp
  | _ => simp [FrameState.emits]

theorem step_preparing (h : step s a = some t) (ht : t.main = .preparing) : s.main = .preparing := by
  cases a with
  | recoverMark =>
    simp only [step] at h
    split at h
    case h_2 => cases h
    case h_1 r hr =>
      cases h
      cases r <;> cases ht
  | recoverStore | raise =>
    simp only [step] at h
    split at h <;> grind [State.insert]
  | setCancel | abort =>
    cases h
    exact ht
  | _ =>
    simp only [step, Option.ite_none_right_eq_some, Option.some.injEq] at h
    obtain ⟨-, rfl⟩ := h
    first | exact ht | cases ht

/-- Up to the end of the pump the cleanup has not come to its check. -/
theorem pump_step (hI : FrameInv f) (hcheck : ¬ (a = .cleanupCheck ∧ f.pump ≠ .stopped)) (h : step f.turn a = some t)
    (hp : f.pump.after a ≠ .stopped ∨ t.main = .preparing) : t.cleanup = .streaming := by
  have hp' : f.pump ≠ .stopped ∨ f.turn.main = .preparing := by
    rcases hp with hp | hp
    · cases a with
      | prepare =>
        simp only [step, Option.ite_none_right_eq_some] at h
        exact .inr h.1
      | prepareRaise c => exact absurd rfl hp
      | _ => exact .inl hp
    · exact .inr (step_preparing h hp)
  have hs : f.turn.cleanup = .streaming := hI.pump hp'
  cases hm : a.cleans with
  | false => rw [step_cleanup_eq h hm, hs]
  | true =>
    cases a with
    | cleanupCheck =>
      simp only [step, Option.ite_none_right_eq_some] at h
      rcases hp' with hp' | hp'
      · exact absurd ⟨rfl, hp'⟩ hcheck
      · rw [hp'] at h
        cases h.1.2
    | cleanupStore | cleanupRaise | repair => simp [step, hs] at h
    | _ => cases hm

theorem frameInv_turn {e : Ended} (hI : FrameInv f) (hC : FrameSafe f (.turn a e))
    (h : frameStep f (.turn a e) = some g) : FrameInv g := by
  simp only [frameStep, Option.ite_none_left_eq_some, Option.bind_eq_some_iff] at h
  obtain ⟨hcheck, t, ht, -, heq⟩ := h
  cases heq
  refine ⟨fun hp => pump_step hI hcheck ht hp, fun hd => queue_step hI ht hd, fun hc => ?_, step_kept ht hI.kept,
    fun hl => cancelled_step hI hC ht hl, fun hl => done_step hI hC ht hl⟩
  rcases List.mem_append.1 hc with hc | hc
  · exact hI.queued hc
  · exact cancelled_notMem_emits hc

theorem frameInv_step (hI : FrameInv f) (hC : FrameSafe f b) (h : frameStep f b = some g) : FrameInv g := by
  cases b with
  | turn a e => exact frameInv_turn hI hC h
  | cleanupTimeout =>
    simp only [frameStep, Option.ite_none_right_eq_some, Option.some.injEq] at h
    obtain ⟨hm, rfl⟩ := h
    refine ⟨fun hp => ?_, fun _ => rfl, hI.queued, fun hk => hI.kept ?_, fun hl => ?_, fun hl => ?_⟩
    · rcases hp with hp | hp
      · exact hI.pump (.inl hp)
      · cases hp
    · simpa [hm, MainPc.storedCount] using hk
    · obtain ⟨hc, hno, hrest⟩ := hI.cancelled hl
      exact ⟨hc, by simpa [State.Answering, hm] using hno, hrest⟩
    · have hended : f.turn.main = .ended := (hI.done hl).1
      rw [hm] at hended
      cases hended
  | pumpCancel =>
    simp only [frameStep, Option.ite_none_right_eq_some, Option.some.injEq] at h
    obtain ⟨⟨hp, hc⟩, rfl⟩ := h
    have hs : f.turn.cleanup = .streaming := hI.pump (.inl (by rw [hp]; nofun))
    refine ⟨fun hp' => ?_, hI.queue, hI.queued, hI.kept, fun hl => ?_, fun hl => ?_⟩
    · exact hs
    · rcases hlog : f.log with _ | u
      · obtain ⟨hall, hno⟩ := hC hlog
        exact ⟨hc, hno, hall, by simp [hs]⟩
      · simp only [hlog, Option.some_or] at hl
        exact hI.cancelled (hlog.trans hl)
    · rcases hlog : f.log with _ | u
      · simp [hlog] at hl
      · simp only [hlog, Option.some_or] at hl
        exact hI.done (hlog.trans hl)
  | pumpTake =>
    simp only [frameStep, Option.ite_none_right_eq_some] at h
    obtain ⟨⟨hp, hc⟩, h⟩ := h
    have hs : f.turn.cleanup = .streaming := hI.pump (.inl (by rw [hp]; nofun))
    split at h
    case h_1 => cases h
    case h_2 u q hq =>
      cases h
      refine ⟨hI.pump, fun hd => hI.queue (by rw [hq]; exact List.mem_cons_of_mem _ hd),
        fun hd => hI.queued (by rw [hq]; exact List.mem_cons_of_mem _ hd), hI.kept, fun hl => ?_, fun hl => ?_⟩
      · rcases hlog : f.log with _ | v
        · simp only [hlog, Option.none_or, Option.some.injEq] at hl
          exact absurd (by rw [hq, hl]; exact List.mem_cons_self ..) hI.queued
        · simp only [hlog, Option.some_or] at hl
          exact hI.cancelled (hlog.trans hl)
      · rcases hlog : f.log with _ | v
        · simp only [hlog, Option.none_or, Option.some.injEq] at hl
          obtain ⟨hno, ha⟩ := hC hlog (by rw [hq, hl]; rfl)
          exact ⟨hI.queue (by rw [hq, hl]; exact List.mem_cons_self ..), ha, by rw [hs]; nofun, hno⟩
        · simp only [hlog, Option.some_or] at hl
          exact hI.done (hlog.trans hl)
  | pumpEnd =>
    simp only [frameStep, Option.ite_none_right_eq_some, Option.some.injEq] at h
    obtain ⟨⟨-, -, -, hm⟩, rfl⟩ := h
    refine ⟨fun hp => ?_, hI.queue, hI.queued, hI.kept, hI.cancelled, hI.done⟩
    rcases hp with hp | hp
    · exact absurd rfl hp
    · rw [hm] at hp
      cases hp
  | appendFailure =>
    cases h
    refine ⟨hI.pump, hI.queue, hI.queued, hI.kept, fun hl => ?_, fun hl => ?_⟩
    · rcases hlog : f.log with _ | v
      · simp [hlog] at hl
      · simp only [hlog, Option.some_or] at hl
        exact hI.cancelled (hlog.trans hl)
    · rcases hlog : f.log with _ | v
      · simp [hlog] at hl
      · simp only [hlog, Option.some_or] at hl
        exact hI.done (hlog.trans hl)

theorem frameInv_reach (h : frames.Reach FrameSafe f) : FrameInv f := by
  refine h.induct ?_ fun _ _ _ hI hC ht => frameInv_step hI hC ht
  rintro _ rfl
  exact ⟨fun _ => rfl, nofun, nofun, by simp [State.Kept, frameFresh, fresh, MainPc.storedCount], nofun, nofun⟩

/-- In every run that meets the condition, the frame that closes the log agrees with the stored message. -/
theorem agrees_of_frameSafe (h : frames.Reach FrameSafe f) : Agrees f := by
  have hI : FrameInv f := frameInv_reach h
  refine ⟨fun hl => ?_, fun hl ho => ?_, fun hl => ?_⟩
  · exact (hI.cancelled hl).2.2.1
  · exact (hI.cancelled hl).2.2.2 (.inr ho)
  · exact (hI.done hl).2.2.2

/-- The cancel event is set while the agent runs, and the cleanup stores the cancelled message. -/
theorem agrees_cancelled :
    ∃ f : FrameState, frames.Reach FrameSafe f ∧ f.log = some .cancelled ∧ f.turn.closing ≠ [] ∧
      ∀ c ∈ f.turn.closing, c = .cancelled := by
  obtain ⟨f, -, hr, hp⟩ := Machine.reach_of_exec (M := frames) (C := FrameSafe) (s := frameFresh)
    (p := fun f => decide (f.log = some .cancelled ∧ f.turn.cleanup = .over))
    [.turn .prepare .failed, .turn .setCancel .failed, .pumpCancel, .turn .stop .cancelled, .turn .finish .failed,
      .turn .cleanupCheck .failed, .turn .cleanupStore .failed, .turn .repair .failed] rfl (by decide)
  obtain ⟨hl, ho⟩ := of_decide_eq_true hp
  have hA : Agrees f := agrees_of_frameSafe hr
  exact ⟨f, hr, hl, hA.stored hl ho, hA.only hl⟩

/-- The answer is stored and DONE is queued; the cancel event is set before the pump has read it. -/
theorem not_agrees : ¬ ∀ f, frames.Reach Free f → Agrees f := by
  intro hall
  obtain ⟨f, -, hr, hp⟩ := Machine.reach_of_exec (M := frames) (C := Free) (s := frameFresh)
    (p := fun f => decide (f.log = some .cancelled ∧ .final ∈ f.turn.closing))
    [.turn .prepare .failed, .turn .modelAnswer .failed, .turn .recorderBegin .failed, .turn .recorderStore .failed,
      .turn .recorderMark .failed, .turn .completeNothing .failed, .turn .stop .completed, .turn .finish .failed,
      .turn .setCancel .failed, .pumpCancel] rfl (by decide)
  obtain ⟨hl, hm⟩ := of_decide_eq_true hp
  have hfinal : Closing.final = .cancelled := (hall f hr).only hl _ hm
  cases hfinal

end NexusStudio.TurnClose
