import NexusStudio.Lib.Machine
import NexusStudio.Streaming.Publisher

/-!
# The publisher beside its background flush

The same `ReplayFramePublisher` with its appends in flight: the turn publishes one frame after the other, the task that
it has scheduled flushes in between, and every append of either may fail.

* (turn) Each call waits for the publisher's lock, flushes what is collected, and appends; what raises goes to the
  handlers of the execution.
* (law) A log that is closed as COMPLETED has the answer that was published, with every other frame at its place.
* (defect) DONE looks for the error of a flush before it waits for the lock, and the flush may fail while it waits.
* (condition) `Safe`: no background flush fails without effect while DONE is waiting.
-/

namespace NexusStudio.FlushRace

open Concurrent Streaming Turn

/-! ### Frames -/

/-- A character of the answer, or a frame that is no answer token. -/
inductive Atom
  | char (d : Char)
  | frame (f : StreamFrame)
  deriving DecidableEq, Repr

def atomsOf : StreamFrame → List Atom
  | .turn (.token .answer text) => text.toList.map .char
  | f => [.frame f]

/-- The answer text character by character, with the other frames between. -/
def atoms (l : List StreamFrame) : List Atom := l.flatMap atomsOf

/-- The text of the answer tokens. -/
def answerText (l : List StreamFrame) : List Char := (atoms l).filterMap fun
  | .char d => some d
  | .frame _ => none

def isAnswer : StreamFrame → Bool
  | .turn (.token .answer _) => true
  | _ => false

def isDone : StreamFrame → Bool
  | .turn (.done _) => true
  | _ => false

/-! ### The machine -/

/-- What the execution does under the publisher's lock; `handler` where `append_failure` is called by one of its
`except` clauses. -/
inductive Job
  | frame (f : StreamFrame)
  | close
  | failure (handler : Bool) (message : String) (code : StreamErrorCode)
  deriving DecidableEq, Repr

/-- Where the execution is. -/
inductive Place
  | idle
  | waiting (j : Job)
  -- with the lock, and the append of the collected text in flight
  | flushing (j : Job) (delta : StreamFrame)
  -- with the lock, and the append of its own frame in flight
  | appending (j : Job)
  | finishing (status : Replay.Status)
  | ended
  deriving DecidableEq, Repr

/-- How an append ends; one that fails may have been applied. -/
inductive Outcome
  | ok
  | failed (e : Raised) (applied : Bool)
  deriving DecidableEq, Repr

structure State where
  entries : List StreamFrame
  status : Replay.Status
  pub : Publisher
  turn : Place
  -- what the background flush has in flight, with the lock
  background : Option StreamFrame
  -- the frames whose publication has got the lock
  published : List StreamFrame
  deriving DecidableEq, Repr

inductive Action
  | publish (f : StreamFrame)
  | endStream
  -- what the stream raises, or the cancellation of a call that waits
  | interrupt (e : Raised)
  | acquire
  | settle (o : Outcome)
  | finish (stored : Bool)
  | flushStart
  | flushSettle (o : Outcome)
  -- a reader that finds no lease closes the log
  | lost

/-- The frame that a job appends itself. -/
def Job.appended : Job → Option StreamFrame
  | .frame f => if isAnswer f then none else some f
  | .close => none
  | .failure _ message code => some (.turn (.error code message))

def Place.job : Place → Option Job
  | .waiting j | .flushing j _ | .appending j => some j
  | _ => none

/-- The execution has the lock. -/
def Place.Holds : Place → Prop
  | .flushing _ _ | .appending _ => True
  | _ => False

instance (p : Place) : Decidable p.Holds := by
  unfold Place.Holds
  split
  all_goals infer_instance

def State.append (s : State) (f : StreamFrame) (closeStatus : Option Replay.Status) : State :=
  { s with entries := s.entries ++ [f], status := closeStatus.getD s.status }

/-- The state after an append, `none` for an outcome that it cannot have: a closed log takes nothing, and only a closed
log says so. -/
def State.settle (s : State) (f : StreamFrame) (closeStatus : Option Replay.Status) : Outcome → Option State
  | .ok => if s.status.closed then none else some (s.append f closeStatus)
  | .failed e true => if s.status.closed ∨ e = .closed then none else some (s.append f closeStatus)
  | .failed e false => if e = .closed ∧ s.status.closed = false then none else some s

def State.goto (s : State) (p : Place) : State := { s with turn := p }

/-- The handlers of the execution. -/
def State.raise (s : State) (j : Option Job) (e : Raised) : State :=
  match j with
  | some (.failure true _ _) => s.goto (.finishing .failed)
  | _ => match e with
    | .closed => s.goto (.finishing .failed)
    | .limit => s.goto (.waiting (.failure true "SSE replay log exceeded the configured size limit" .internal))
    | .leaseLost | .cancelled => s.goto (.waiting (.failure true "Agent execution was lost" .executionLost))
    | .other message => s.goto (.waiting (.failure true message .internal))

/-- What follows `_flush_locked` in a job. -/
def State.flushed (s : State) (j : Job) : State :=
  match j with
  | .frame f => if isAnswer f then s.goto .idle else s.goto (.appending j)
  | .failure .. => s.goto (.appending j)
  | .close =>
    match s.pub.flushError with
    | some e => { s with pub.flushError := none }.raise (some j) e
    | none =>
      match s.pub.terminalStatus with
      | some t => s.goto (.finishing t)
      | none =>
        if s.pub.sawPending then s.goto (.finishing .interrupted)
        else s.goto (.waiting (.failure false "Agent stream ended without a terminal frame" .internal))

/-- What `_flush_locked` leaves of the publisher. -/
def cleared (p : Publisher) : Publisher := { p with flushTask := false, deltaParts := [] }

/-- `_flush_locked` up to its append. -/
def State.flush (s : State) (j : Job) : State :=
  match s.pub.delta with
  | [] => { s with pub := cleared s.pub }.flushed j
  | g :: _ => { s with pub := cleared s.pub, turn := .flushing j g }

/-- A job with the lock, up to its first append. -/
def State.enter (maxChars : Nat) (s : State) : Job → State
  | .frame (.turn (.token .answer text)) =>
    let s := { s with
      pub.deltaParts := s.pub.deltaParts ++ [text]
      published := s.published ++ [StreamFrame.answer text] }
    if maxChars ≤ s.pub.deltaChars then s.flush (.frame (StreamFrame.answer text))
    else { s with pub.flushTask := true, turn := .idle }
  | .frame f => { s with published := s.published ++ [f] }.flush (.frame f)
  | j => s.flush j

/-- What follows the append of a job's own frame. -/
def State.appended (s : State) : Job → State
  | .frame f => { s with pub := s.pub.observe f, turn := .idle }
  | .close => s
  | .failure .. => { s with pub.terminalStatus := some .failed, turn := .finishing .failed }

/-- What follows an append of `_flush_locked` in a job; `append_failure` goes on where the log is full. -/
def State.flushSettled (s : State) (j : Job) (o : Outcome) : State :=
  match o, j with
  | .ok, _ => s.flushed j
  | .failed .limit _, .failure .. => s.flushed j
  | .failed e _, _ => s.raise (some j) e

def State.ownSettled (s : State) (j : Job) (o : Outcome) : State :=
  match o with
  | .ok => s.appended j
  | .failed e _ => s.raise (some j) e

/-- What follows the append of the background flush. -/
def State.backgroundSettled (s : State) (o : Outcome) : State :=
  match o with
  | .ok => { s with background := none }
  | .failed e _ => { s with background := none, pub.flushError := some e }

/-- The status with which a job closes the log. -/
def State.closeStatus (s : State) : Job → Option Replay.Status
  | .frame f => s.pub.terminalStatusFor f
  | .close => none
  | .failure .. => some .failed

def step (maxChars : Nat) (s : State) : Action → Option State
  | .publish f =>
    if s.turn ≠ .idle then none
    else match s.pub.flushError with
      | some e => some ({ s with pub.flushError := none }.raise (some (.frame f)) e)
      | none => some (if s.pub.terminalStatus.isSome then s else s.goto (.waiting (.frame f)))
  | .endStream => if s.turn ≠ .idle then none else some (s.goto (.waiting .close))
  | .interrupt e =>
    match s.turn with
    | .idle => some (s.raise none e)
    | .waiting j => some (s.raise (some j) e)
    | _ => none
  | .acquire =>
    match s.turn with
    | .waiting j => if s.background.isSome then none else some (s.enter maxChars j)
    | _ => none
  | .settle o =>
    match s.turn with
    | .flushing j g => (s.settle g none o).map fun s => s.flushSettled j o
    | .appending j => j.appended.bind fun f => (s.settle f (s.closeStatus j) o).map fun s => s.ownSettled j o
    | _ => none
  | .finish stored =>
    match s.turn with
    | .finishing t =>
      some { s.goto .ended with status := if s.status.closed ∨ stored = false then s.status else t }
    | _ => none
  -- the lock is free and nobody waits for it
  | .flushStart =>
    if s.pub.flushTask = true ∧ s.background = none ∧ s.turn.job = none then
      some { s with pub := cleared s.pub, background := s.pub.delta.head? }
    else none
  | .flushSettle o =>
    s.background.bind fun g => (s.settle g none o).map fun s => s.backgroundSettled o
  | .lost =>
    if s.status.closed then none
    else some (s.append (.turn (.error .executionLost "Agent execution was lost")) (some .failed))

/-- After `set_running`. -/
def start : State where
  entries := []
  status := .running
  pub := Recorder.fresh.pub
  turn := .idle
  background := none
  published := []

def publications (maxChars : Nat) : Machine State Action where
  init s := s = start
  step := step maxChars

/-! ### The law and its condition -/

/-- The execution is about a DONE frame. -/
def Place.OnDone (p : Place) : Prop :=
  match p.job with
  | some (.frame f) => isDone f = true
  | _ => False

instance (p : Place) : Decidable p.OnDone := by
  unfold Place.OnDone
  split
  all_goals infer_instance

/-- No background flush fails without effect on an open log while the publication of DONE waits for the lock. -/
def Safe (s : State) : Action → Prop
  | .flushSettle (.failed _ false) => s.status.closed = true ∨ ¬ s.turn.OnDone
  | _ => True

instance (s : State) (a : Action) : Decidable (Safe s a) := by
  unfold Safe
  split
  all_goals infer_instance

/-! ### Atoms -/

section Atoms

variable {l m : List StreamFrame} {f : StreamFrame}

@[simp] theorem atoms_nil : atoms [] = [] := rfl

@[simp] theorem atoms_append : atoms (l ++ m) = atoms l ++ atoms m := List.flatMap_append

@[simp] theorem atoms_singleton : atoms [f] = atomsOf f := by rw [atoms, List.flatMap_singleton]

theorem atoms_delta (p : Publisher) : atoms p.delta = (String.join p.deltaParts).toList.map .char := by
  unfold Publisher.delta
  split
  case isTrue h =>
    rw [h]
    rfl
  case isFalse => exact atoms_singleton

theorem delta_cleared (p : Publisher) : (cleared p).delta = [] := if_pos rfl

theorem answerText_congr (h : atoms l = atoms m) : answerText l = answerText m := by
  unfold answerText
  rw [h]

end Atoms

/-! ### The invariant -/

section Proofs

variable {maxChars : ℕ} {s s' : State} {j : Job} {a : Action} {g f : StreamFrame} {o : Outcome}

/-- The execution publishes nothing any more. -/
def Place.Past (p : Place) : Prop :=
  p ≠ .idle ∧ ∀ f, p.job ≠ some (.frame f)

/-- What a job is going to append itself. -/
def Job.rest : Job → List Atom
  | .frame f => if isAnswer f then [] else [.frame f]
  | _ => []

theorem rest_answer (text : String) : (Job.frame (.answer text)).rest = [] := rfl

theorem rest_other (hf : isAnswer f = false) : (Job.frame f).rest = atomsOf f := by
  have hatoms : atomsOf f = [.frame f] := by
    unfold atomsOf
    split
    · cases hf
    · rfl
  rw [Job.rest, if_neg (by rw [hf]; exact Bool.false_ne_true), hatoms]

/-- What the execution has in flight. -/
def Place.inFlight : Place → List Atom
  | .flushing j g => atomsOf g ++ j.rest
  | .appending j => j.rest
  | _ => []

/-- What is in the log, in flight and collected is what has been published. -/
def Sound (s : State) : Prop :=
  atoms s.entries ++ atoms s.background.toList ++ s.turn.inFlight ++ atoms s.pub.delta = atoms s.published

/-- What holds whatever the execution is about. -/
structure Base (s : State) : Prop where
  terminal : ∀ t, s.pub.terminalStatus = some t → s.status.closed = true ∧ (t = .completed → s.status = .completed)
  completed : s.status = .completed → atoms s.entries = atoms s.published

structure Inv (s : State) : Prop extends Base s where
  excl : s.background ≠ none → ¬ s.turn.Holds
  buffered : s.turn.Holds → s.pub.deltaParts = []
  finishing : s.turn = .finishing .completed → s.status = .completed
  accepted : ∀ f, s.turn.job = some (.frame f) → s.pub.terminalStatus = none
  settled : s.status = .completed → s.turn.Past ∨ s.pub.terminalStatus ≠ none
  -- on an open log only the error of a flush, which DONE has not passed, stands for a loss
  sound : s.status.closed = false → Sound s ∨ s.turn.Past ∨ s.pub.flushError ≠ none ∧ ¬ s.turn.OnDone

/-- A job that has the lock. -/
structure Ready (s : State) (j : Job) : Prop extends Base s where
  background : s.background = none
  accepted : ∀ f, j = .frame f → s.pub.terminalStatus = none ∧ s.status ≠ .completed
  sound : ∀ f, j = .frame f → s.status.closed = false →
    atoms s.entries ++ atoms s.pub.delta ++ j.rest = atoms s.published ∨ s.pub.flushError ≠ none ∧ isDone f = false

/-- Past the last publication and without the lock. -/
theorem inv_past (hB : Base s) (hpast : s.turn.Past) (hfree : ¬ s.turn.Holds)
    (hfinish : s.turn = .finishing .completed → s.status = .completed) : Inv s where
  toBase := hB
  excl _ := hfree
  buffered h := absurd h hfree
  finishing := hfinish
  accepted f h := absurd h (hpast.2 f)
  settled _ := .inl hpast
  sound _ := .inr (.inl hpast)

/-- The fields that `Base` reads. -/
theorem Base.congr (hB : Base s) (hentries : s'.entries = s.entries) (hstatus : s'.status = s.status)
    (hpublished : s'.published = s.published) (hterminal : s'.pub.terminalStatus = s.pub.terminalStatus) : Base s' := by
  refine ⟨?_, ?_⟩
  · rw [hterminal, hstatus]
    exact hB.terminal
  · rw [hentries, hstatus, hpublished]
    exact hB.completed

theorem past_raise (s : State) (j : Option Job) (e : Raised) :
    (s.raise j e).turn.Past ∧ ¬ (s.raise j e).turn.Holds ∧ (s.raise j e).turn ≠ .finishing .completed ∧
      (s.raise j e) = s.goto (s.raise j e).turn := by
  unfold State.raise
  split
  · exact ⟨⟨nofun, fun _ => nofun⟩, id, nofun, rfl⟩
  · split
    all_goals exact ⟨⟨nofun, fun _ => nofun⟩, id, nofun, rfl⟩

theorem inv_raise (hB : Base s) (j : Option Job) (e : Raised) : Inv (s.raise j e) := by
  obtain ⟨hpast, hfree, hfinish, heq⟩ := past_raise s j e
  refine inv_past ?_ hpast hfree fun h => absurd h hfinish
  rw [heq]
  exact hB.congr rfl rfl rfl rfl

theorem inv_flushed (hR : Ready s j) (hparts : s.pub.deltaParts = []) : Inv (s.flushed j) := by
  have hdelta : s.pub.delta = [] := if_pos hparts
  cases j with
  | frame f =>
    obtain ⟨hterminal, hstatus⟩ := hR.accepted f rfl
    have hsound := hR.sound f rfl
    rw [hdelta, atoms_nil, List.append_nil, Job.rest] at hsound
    have hback : atoms s.background.toList = [] := by rw [hR.background]; rfl
    simp only [State.flushed]
    split
    case isTrue ha =>
      rw [if_pos ha, List.append_nil] at hsound
      refine ⟨hR.toBase.congr rfl rfl rfl rfl, fun _ => id, fun h => h.elim, nofun, fun _ => nofun,
        fun h => absurd h hstatus, fun hopen => ?_⟩
      rcases hsound hopen with hsound | ⟨herror, -⟩
      · left
        change atoms s.entries ++ atoms s.background.toList ++ [] ++ atoms s.pub.delta = atoms s.published
        rw [hback, hdelta, atoms_nil, List.append_nil, List.append_nil, List.append_nil]
        exact hsound
      · exact .inr (.inr ⟨herror, id⟩)
    case isFalse ha =>
      refine ⟨hR.toBase.congr rfl rfl rfl rfl, fun h => absurd hR.background h, fun _ => hparts, nofun,
        fun _ _ => hterminal, fun h => absurd h hstatus, fun hopen => ?_⟩
      rcases hsound hopen with hsound | ⟨herror, hdone⟩
      · left
        change atoms s.entries ++ atoms s.background.toList ++ Job.rest (.frame f) ++ atoms s.pub.delta =
          atoms s.published
        rw [hback, hdelta, atoms_nil, List.append_nil, List.append_nil, Job.rest]
        exact hsound
      · refine .inr (.inr ⟨herror, fun h => ?_⟩)
        have htrue : isDone f = true := h
        rw [hdone] at htrue
        cases htrue
  | failure handler message code =>
    refine ⟨hR.toBase.congr rfl rfl rfl rfl, fun h => absurd hR.background h, fun _ => hparts, nofun,
      fun _ => nofun, fun _ => .inl ⟨nofun, fun _ => nofun⟩, fun _ => .inr (.inl ⟨nofun, fun _ => nofun⟩)⟩
  | close =>
    unfold State.flushed
    simp only
    split
    case h_1 e _ => exact inv_raise (s := { s with pub.flushError := none }) (hR.toBase.congr rfl rfl rfl rfl) _ e
    case h_2 =>
      split
      case h_1 t ht =>
        refine inv_past (hR.toBase.congr rfl rfl rfl rfl) ⟨nofun, fun _ => nofun⟩ id fun h => ?_
        cases h
        exact (hR.terminal _ ht).2 rfl
      case h_2 =>
        split
        · exact inv_past (hR.toBase.congr rfl rfl rfl rfl) ⟨nofun, fun _ => nofun⟩ id nofun
        · exact inv_past (hR.toBase.congr rfl rfl rfl rfl) ⟨nofun, fun _ => nofun⟩ id nofun

theorem inv_flush (hR : Ready s j) : Inv (s.flush j) := by
  unfold State.flush
  split
  case h_1 hdelta =>
    refine inv_flushed (s := { s with pub := cleared s.pub }) ⟨hR.toBase.congr rfl rfl rfl rfl, hR.background,
      hR.accepted, fun f hf hopen => ?_⟩ rfl
    have hsound := hR.sound f hf hopen
    rw [hdelta] at hsound
    rw [delta_cleared]
    exact hsound
  case h_2 g l hdelta =>
    have hl : s.pub.delta = [g] := by
      unfold Publisher.delta at hdelta ⊢
      split at hdelta
      case isTrue => cases hdelta
      case isFalse h =>
        cases hdelta
        exact if_neg h
    refine ⟨hR.toBase.congr rfl rfl rfl rfl, fun h => absurd hR.background h, fun _ => rfl, nofun, fun f hf => ?_,
      fun hcompleted => ?_, fun hopen => ?_⟩
    · cases hf
      exact (hR.accepted f rfl).1
    · cases j with
      | frame f => exact absurd hcompleted (hR.accepted f rfl).2
      | _ => exact .inl ⟨nofun, fun _ => nofun⟩
    · cases j with
      | frame f =>
        rcases hR.sound f rfl hopen with hsound | ⟨herror, hdone⟩
        · left
          change atoms s.entries ++ atoms s.background.toList ++ (atomsOf g ++ Job.rest (.frame f)) ++
            atoms (cleared s.pub).delta = atoms s.published
          rw [hl, atoms_singleton] at hsound
          rw [hR.background, delta_cleared, ← hsound]
          simp
        · refine .inr (.inr ⟨herror, fun h => ?_⟩)
          have htrue : isDone f = true := h
          rw [hdone] at htrue
          cases htrue
      | _ => exact .inr (.inl ⟨nofun, fun _ => nofun⟩)

/-- A frame that gets the lock, on a log that is not COMPLETED. -/
structure Entering (s : State) (f : StreamFrame) : Prop where
  background : s.background = none
  terminal : s.pub.terminalStatus = none
  status : s.status ≠ .completed
  sound : s.status.closed = false →
    atoms s.entries ++ atoms s.pub.delta = atoms s.published ∨ s.pub.flushError ≠ none ∧ isDone f = false

theorem Entering.base (hE : Entering s f) (hstatus : s'.status = s.status)
    (hterminal : s'.pub.terminalStatus = s.pub.terminalStatus) : Base s' := by
  refine ⟨?_, ?_⟩
  · rw [hterminal, hE.terminal]
    nofun
  · rw [hstatus]
    exact fun h => absurd h hE.status

theorem inv_enter_answer {text : String} (hE : Entering s (.answer text)) :
    Inv (s.enter maxChars (.frame (.answer text))) := by
  have hdelta : ∀ p : Publisher, p.deltaParts = s.pub.deltaParts ++ [text] →
      atoms p.delta = atoms s.pub.delta ++ text.toList.map .char := fun p hp => by
    rw [atoms_delta, atoms_delta, hp]
    simp [String.join_append]
  have hpublished : atoms (s.published ++ [StreamFrame.answer text]) =
      atoms s.published ++ text.toList.map .char := by
    rw [atoms_append, atoms_singleton]
    rfl
  have hsound : s.status.closed = false → ∀ p : Publisher, p.deltaParts = s.pub.deltaParts ++ [text] →
      atoms s.entries ++ atoms p.delta = atoms (s.published ++ [StreamFrame.answer text]) ∨
        s.pub.flushError ≠ none := fun hopen p hp => by
    rcases hE.sound hopen with h | ⟨herror, -⟩
    · left
      rw [hdelta p hp, hpublished, ← h, List.append_assoc]
    · exact .inr herror
  unfold StreamFrame.answer State.enter
  simp only
  split
  · refine inv_flush ⟨hE.base rfl rfl, hE.background, fun _ _ => ⟨hE.terminal, hE.status⟩, fun f hf hopen => ?_⟩
    cases hf
    rcases hsound hopen { s.pub with deltaParts := s.pub.deltaParts ++ [text] } rfl with h | herror
    · left
      rw [rest_answer, List.append_nil]
      exact h
    · exact .inr ⟨herror, rfl⟩
  · refine ⟨hE.base rfl rfl, fun _ => id, fun h => h.elim, nofun, fun _ => nofun, fun h => absurd h hE.status,
      fun hopen => ?_⟩
    let pub : Publisher := { s.pub with deltaParts := s.pub.deltaParts ++ [text], flushTask := true }
    rcases hsound hopen pub rfl with h | herror
    · left
      change atoms s.entries ++ atoms s.background.toList ++ [] ++ atoms pub.delta = atoms _
      rw [hE.background, Option.toList_none, atoms_nil, List.append_nil, List.append_nil]
      exact h
    · exact .inr (.inr ⟨herror, id⟩)

theorem inv_enter_other (hE : Entering s f) (hf : isAnswer f = false) : Inv (s.enter maxChars (.frame f)) := by
  have henter : s.enter maxChars (.frame f) = { s with published := s.published ++ [f] }.flush (.frame f) := by
    unfold State.enter
    split
    case h_1 heq =>
      cases heq
      cases hf
    case h_2 heq =>
      cases heq
      rfl
    case h_3 hne => exact absurd rfl (hne f)
  rw [henter]
  refine inv_flush ⟨hE.base rfl rfl, hE.background, fun _ _ => ⟨hE.terminal, hE.status⟩, fun f' hf' hopen => ?_⟩
  cases hf'
  rcases hE.sound hopen with h | herror
  · left
    rw [rest_other hf, atoms_append, atoms_singleton]
    exact congrArg (· ++ atomsOf f) h
  · exact .inr herror

theorem isDone_of_onDone (hjob : s.turn.job = some (.frame f)) (hdone : ¬ s.turn.OnDone) : isDone f = false := by
  rw [Place.OnDone, hjob] at hdone
  exact Bool.eq_false_iff.2 hdone

/-- A job gets the lock. -/
theorem inv_enter (hI : Inv s) (hturn : s.turn = .waiting j) (hback : s.background = none) :
    Inv (s.enter maxChars j) := by
  cases j with
  | close => exact inv_flush ⟨hI.toBase, hback, nofun, nofun⟩
  | failure => exact inv_flush ⟨hI.toBase, hback, nofun, nofun⟩
  | frame f =>
    have hjob : s.turn.job = some (.frame f) := by rw [hturn]; rfl
    have hterminal := hI.accepted f hjob
    have hE : Entering s f := by
      refine ⟨hback, hterminal, fun hcompleted => ?_, fun hopen => ?_⟩
      · rcases hI.settled hcompleted with hpast | h
        · exact hpast.2 f hjob
        · exact h hterminal
      · rcases hI.sound hopen with h | hpast | ⟨herror, hdone⟩
        · left
          rw [Sound, hback, hturn] at h
          simpa [Place.inFlight] using h
        · exact absurd hjob (hpast.2 f)
        · exact .inr ⟨herror, isDone_of_onDone hjob hdone⟩
    by_cases ha : isAnswer f = true
    · unfold isAnswer at ha
      split at ha
      case h_1 => exact inv_enter_answer hE
      case h_2 => cases ha
    · exact inv_enter_other hE (Bool.eq_false_iff.2 ha)

/-- What an append may leave: the log with the frame, which was open, or the log as it was. -/
theorem settle_cases {closeStatus : Option Replay.Status} (h : s.settle f closeStatus o = some s') :
    s.status.closed = false ∧ (o = .ok ∨ ∃ e, o = .failed e true) ∧ s' = s.append f closeStatus ∨
      s' = s ∧ ∃ e, o = .failed e false := by
  unfold State.settle at h
  split at h
  · obtain ⟨hopen, hs⟩ := Option.ite_none_left_eq_some.1 h
    exact .inl ⟨Bool.eq_false_iff.2 hopen, .inl rfl, (Option.some.inj hs).symm⟩
  · next e =>
    obtain ⟨hopen, hs⟩ := Option.ite_none_left_eq_some.1 h
    exact .inl ⟨Bool.eq_false_iff.2 (not_or.1 hopen).1, .inr ⟨e, rfl⟩, (Option.some.inj hs).symm⟩
  · next e =>
    obtain ⟨-, hs⟩ := Option.ite_none_left_eq_some.1 h
    exact .inr ⟨(Option.some.inj hs).symm, e, rfl⟩

/-- An entry that closes nothing. -/
theorem base_append (hB : Base s) (hopen : s.status.closed = false) : Base (s.append f none) := by
  refine ⟨hB.terminal, fun h => ?_⟩
  have hstatus : s.status = .completed := h
  rw [hstatus] at hopen
  cases hopen

theorem not_completed (hopen : s.status.closed = false) : s.status ≠ .completed := by
  intro h
  rw [h] at hopen
  cases hopen

/-- While a job holds the lock no flush is in the background, and nothing is buffered. -/
theorem quiet_of_holds (hI : Inv s) (hholds : s.turn.Holds) :
    s.background = none ∧ s.pub.deltaParts = [] ∧ s.pub.delta = [] := by
  refine ⟨?_, hI.buffered hholds, if_pos (hI.buffered hholds)⟩
  by_contra hne
  exact hI.excl hne hholds

/-- The flush of a job has been appended. -/
theorem ready_append (hI : Inv s) (hturn : s.turn = .flushing j g) (hopen : s.status.closed = false) :
    Ready (s.append g none) j ∧ s.pub.deltaParts = [] := by
  obtain ⟨hback, hparts, hdelta⟩ := quiet_of_holds hI (by rw [hturn]; trivial)
  have hjob : s.turn.job = some j := by rw [hturn]; rfl
  refine ⟨⟨base_append hI.toBase hopen, hback, ?_, ?_⟩, hparts⟩
  · rintro f rfl
    exact ⟨hI.accepted f hjob, not_completed hopen⟩
  · rintro f rfl -
    rcases hI.sound hopen with h | hpast | ⟨herror, hdone⟩
    · left
      change atoms (s.entries ++ [g]) ++ atoms s.pub.delta ++ Job.rest (.frame f) = atoms s.published
      rw [Sound, hback, hturn] at h
      rw [← h, hdelta]
      simp [Place.inFlight]
    · exact absurd hjob (hpast.2 f)
    · exact .inr ⟨herror, isDone_of_onDone hjob hdone⟩

/-- The status of a frame that closes the log; only DONE closes it as COMPLETED. -/
theorem terminalStatusFor_cases {p : Publisher} (hterminal : p.terminalStatus = none) {t : Replay.Status}
    (h : p.terminalStatusFor f = some t) : t.closed = true ∧ (t = .completed → isDone f = true) := by
  unfold Publisher.terminalStatusFor at h
  rw [hterminal] at h
  split at h
  · cases h
    exact ⟨rfl, nofun⟩
  · cases h
    exact ⟨rfl, fun _ => rfl⟩
  · cases h
    exact ⟨rfl, nofun⟩
  · cases h

theorem observe_terminalStatus {p : Publisher} (hterminal : p.terminalStatus = none) :
    (p.observe f).terminalStatus = p.terminalStatusFor f := by
  cases f with
  | turn f => cases f <;> simp [Publisher.observe, Publisher.terminalStatusFor, hterminal]
  | _ => simp [Publisher.observe, Publisher.terminalStatusFor, hterminal]

theorem observe_frame (p : Publisher) (f : StreamFrame) :
    (p.observe f).deltaParts = p.deltaParts ∧ (p.observe f).flushError = p.flushError := by
  unfold Publisher.observe
  split
  all_goals exact ⟨rfl, rfl⟩

/-- What is known when the own frame of a publication is in flight. -/
structure Appending (s : State) (f : StreamFrame) : Prop where
  background : s.background = none
  parts : s.pub.deltaParts = []
  terminal : s.pub.terminalStatus = none
  sound : atoms (s.entries ++ [f]) = atoms s.published ∨ s.pub.flushError ≠ none ∧ isDone f = false

theorem appending (hI : Inv s) (hturn : s.turn = .appending (.frame f)) (hf : isAnswer f = false)
    (hopen : s.status.closed = false) : Appending s f := by
  have hjob : s.turn.job = some (.frame f) := by rw [hturn]; rfl
  obtain ⟨hback, hparts, hdelta⟩ := quiet_of_holds hI (by rw [hturn]; trivial)
  refine ⟨hback, hparts, hI.accepted f hjob, ?_⟩
  rcases hI.sound hopen with hsound | hpast | ⟨herror, hdone⟩
  · left
    rw [Sound, hback, hturn, hdelta] at hsound
    rw [← hsound, atoms_append, atoms_singleton, ← rest_other hf]
    simp [Place.inFlight]
  · exact absurd hjob (hpast.2 f)
  · exact .inr ⟨herror, isDone_of_onDone hjob hdone⟩

/-- The log after the own frame of a publication, COMPLETED by a DONE that nothing is missing before. -/
theorem completed_append_frame (hA : Appending s f) (hopen : s.status.closed = false)
    (h : (s.append f (s.pub.terminalStatusFor f)).status = .completed) :
    atoms (s.entries ++ [f]) = atoms s.published ∧ s.pub.terminalStatusFor f ≠ none := by
  cases hclose : s.pub.terminalStatusFor f with
  | none =>
    rw [hclose] at h
    exact absurd h (not_completed hopen)
  | some t =>
    rw [hclose] at h
    have hdone := (terminalStatusFor_cases hA.terminal hclose).2 h
    refine ⟨?_, nofun⟩
    rcases hA.sound with hsound | ⟨-, hnot⟩
    · exact hsound
    · rw [hdone] at hnot
      cases hnot

theorem base_append_frame (hA : Appending s f) (hopen : s.status.closed = false) :
    Base (s.append f (s.pub.terminalStatusFor f)) := by
  refine ⟨fun t ht => ?_, fun h => (completed_append_frame hA hopen h).1⟩
  have hsome : s.pub.terminalStatus = some t := ht
  rw [hA.terminal] at hsome
  cases hsome

theorem inv_append_frame (hA : Appending s f) (hopen : s.status.closed = false) :
    Inv ((s.append f (s.pub.terminalStatusFor f)).appended (.frame f)) := by
  have hobserve : (s.pub.observe f).terminalStatus = s.pub.terminalStatusFor f := observe_terminalStatus hA.terminal
  obtain ⟨hparts, herror⟩ := observe_frame s.pub f
  refine ⟨⟨fun t ht => ?_, fun h => (completed_append_frame hA hopen h).1⟩, fun _ => id, fun h => h.elim, nofun,
    fun _ => nofun, fun h => .inr ?_, fun hstill => ?_⟩
  · have hclose : s.pub.terminalStatusFor f = some t := hobserve.symm.trans ht
    change ((s.pub.terminalStatusFor f).getD s.status).closed = true ∧
      (t = .completed → (s.pub.terminalStatusFor f).getD s.status = .completed)
    rw [hclose]
    exact ⟨(terminalStatusFor_cases hA.terminal hclose).1, id⟩
  · change (s.pub.observe f).terminalStatus ≠ none
    rw [hobserve]
    exact (completed_append_frame hA hopen h).2
  · rcases hA.sound with hsound | ⟨hne, -⟩
    · left
      have hdelta : (s.pub.observe f).delta = [] := if_pos (hparts.trans hA.parts)
      change atoms (s.entries ++ [f]) ++ atoms s.background.toList ++ [] ++ atoms (s.pub.observe f).delta =
        atoms s.published
      rw [hdelta, hA.background, hsound]
      simp
    · refine .inr (.inr ⟨?_, id⟩)
      change (s.pub.observe f).flushError ≠ none
      rw [herror]
      exact hne

/-- A failure that has been appended. -/
theorem inv_append_failure (s : State) (f : StreamFrame) (handler : Bool) (message : String)
    (code : StreamErrorCode) : Inv ((s.append f (some .failed)).appended (.failure handler message code)) := by
  refine inv_past ⟨fun t ht => ?_, nofun⟩ ⟨nofun, fun _ => nofun⟩ id nofun
  cases ht
  exact ⟨rfl, nofun⟩

/-- `append_failure` closes the log as FAILED, whether or not it gets to know. -/
theorem base_append_failure (hB : Base s) (hopen : s.status.closed = false) (f : StreamFrame) :
    Base (s.append f (some .failed)) := by
  refine ⟨fun t ht => ?_, nofun⟩
  have hclosed := (hB.terminal t ht).1
  rw [hopen] at hclosed
  cases hclosed

/-- The append of what a job has flushed. -/
theorem inv_settle_flush {u : State} (hI : Inv s) (hturn : s.turn = .flushing j g) (hu : s.settle g none o = some u) :
    Inv (u.flushSettled j o) := by
  obtain ⟨hback, hparts, -⟩ := quiet_of_holds hI (by rw [hturn]; trivial)
  obtain ⟨hbase, hub, hup⟩ : Base u ∧ u.background = none ∧ u.pub.deltaParts = [] := by
    rcases settle_cases hu with ⟨hopen, -, rfl⟩ | ⟨rfl, -⟩
    · exact ⟨base_append hI.toBase hopen, hback, hparts⟩
    · exact ⟨hI.toBase, hback, hparts⟩
  cases o with
  | ok =>
    rcases settle_cases hu with ⟨hopen, -, rfl⟩ | ⟨-, e, he⟩
    · obtain ⟨hready, -⟩ := ready_append hI hturn hopen
      exact inv_flushed hready hparts
    · cases he
  | failed e applied =>
    have hraise : Inv (u.raise (some j) e) := inv_raise hbase _ e
    cases e with
    | limit =>
      cases j with
      | failure handler message code =>
        exact inv_flushed (j := .failure handler message code) ⟨hbase, hub, nofun, nofun⟩ hup
      | _ => exact hraise
    | _ => exact hraise

/-- The append of a job's own frame. -/
theorem inv_settle_own {u : State} (hI : Inv s) (hturn : s.turn = .appending j) (hf : j.appended = some f)
    (hu : s.settle f (s.closeStatus j) o = some u) :
    Inv (u.ownSettled j o) := by
  cases j with
  | close => cases hf
  | frame f' =>
    obtain ⟨ha, hsome⟩ := Option.ite_none_left_eq_some.1 hf
    cases hsome
    rcases settle_cases hu with ⟨hopen, ho, rfl⟩ | ⟨rfl, e, rfl⟩
    · have hA := appending hI hturn (Bool.eq_false_iff.2 ha) hopen
      rcases ho with rfl | ⟨e, rfl⟩
      · exact inv_append_frame hA hopen
      · exact inv_raise (base_append_frame hA hopen) (some (.frame f)) e
    · exact inv_raise hI.toBase (some (.frame f)) e
  | failure handler message code =>
    rcases settle_cases hu with ⟨hopen, ho, rfl⟩ | ⟨rfl, e, rfl⟩
    · rcases ho with rfl | ⟨e, rfl⟩
      · exact inv_append_failure s f handler message code
      · exact inv_raise (base_append_failure hI.toBase hopen f) (some (.failure handler message code)) e
    · exact inv_raise hI.toBase (some (.failure handler message code)) e

/-! ### The background flush -/

/-- A step of the background flush, which leaves the execution where it is. -/
theorem inv_background (hI : Inv s) (hB : Base s') (hturn : s'.turn = s.turn)
    (hterminal : s'.pub.terminalStatus = s.pub.terminalStatus)
    (hexcl : s'.background ≠ none → ¬ s.turn.Holds) (hbuffered : s.turn.Holds → s'.pub.deltaParts = [])
    (hstatus : s'.status = s.status)
    (hsound : s'.status.closed = false → Sound s' ∨ s.turn.Past ∨ s'.pub.flushError ≠ none ∧ ¬ s.turn.OnDone) :
    Inv s' := by
  refine ⟨hB, ?_, ?_, ?_, ?_, ?_, ?_⟩
  · rw [hturn]
    exact hexcl
  · rw [hturn]
    exact hbuffered
  · rw [hturn, hstatus]
    exact hI.finishing
  · rw [hturn, hterminal]
    exact hI.accepted
  · rw [hturn, hterminal, hstatus]
    exact hI.settled
  · rw [hturn]
    exact hsound

theorem delta_head (p : Publisher) : p.delta.head?.toList = p.delta := by
  unfold Publisher.delta
  split
  · rfl
  · rfl

theorem inFlight_of_free (h : ¬ s.turn.Holds) : s.turn.inFlight = [] := by
  cases hturn : s.turn with
  | flushing j g => exact absurd (by rw [hturn]; trivial) h
  | appending j => exact absurd (by rw [hturn]; trivial) h
  | _ => rfl

theorem inv_flushStart (hI : Inv s) (hback : s.background = none) (hjob : s.turn.job = none) :
    Inv { s with pub := cleared s.pub, background := s.pub.delta.head? } := by
  have hfree : ¬ s.turn.Holds := by
    intro h
    cases hturn : s.turn with
    | flushing j g => rw [hturn] at hjob; cases hjob
    | appending j => rw [hturn] at hjob; cases hjob
    | _ => rw [hturn] at h; exact h
  refine inv_background hI (hI.toBase.congr rfl rfl rfl rfl) rfl rfl (fun _ => hfree) (fun _ => rfl) rfl fun hopen => ?_
  rcases hI.sound hopen with hsound | hrest
  · left
    change atoms s.entries ++ atoms s.pub.delta.head?.toList ++ s.turn.inFlight ++ atoms (cleared s.pub).delta =
      atoms s.published
    rw [Sound, hback, inFlight_of_free hfree] at hsound
    rw [delta_head, delta_cleared, inFlight_of_free hfree, ← hsound]
    simp
  · exact .inr hrest

theorem inv_flushSettle {u : State} (hI : Inv s) (hback : s.background = some g) (hu : s.settle g none o = some u)
    (hsafe : Safe s (.flushSettle o)) :
    Inv (u.backgroundSettled o) := by
  have hfree : ¬ s.turn.Holds := hI.excl (by rw [hback]; nofun)
  have hmoved : Sound s → atoms (s.entries ++ [g]) ++ [] ++ s.turn.inFlight ++ atoms s.pub.delta =
      atoms s.published := fun hsound => by
    rw [Sound, hback] at hsound
    rw [← hsound]
    simp
  rcases settle_cases hu with ⟨hopen, ho, rfl⟩ | ⟨rfl, e, rfl⟩
  · have hbase : Base (s.append g none) := base_append hI.toBase hopen
    rcases ho with rfl | ⟨e, rfl⟩
    · refine inv_background hI (hbase.congr rfl rfl rfl rfl) rfl rfl (fun _ => hfree) (fun h => absurd h hfree) rfl
        fun _ => ?_
      rcases hI.sound hopen with hsound | hrest
      · exact .inl (hmoved hsound)
      · exact .inr hrest
    · refine inv_background hI (hbase.congr rfl rfl rfl rfl) rfl rfl (fun _ => hfree) (fun h => absurd h hfree) rfl
        fun _ => ?_
      rcases hI.sound hopen with hsound | hpast | ⟨-, hdone⟩
      · exact .inl (hmoved hsound)
      · exact .inr (.inl hpast)
      · exact .inr (.inr ⟨nofun, hdone⟩)
  · refine inv_background hI (hI.toBase.congr rfl rfl rfl rfl) rfl rfl (fun _ => hfree) (fun h => absurd h hfree) rfl
      fun hopen => .inr (.inr ⟨nofun, ?_⟩)
    rcases hsafe with hclosed | hdone
    · exact absurd (hclosed.symm.trans hopen) (by decide)
    · exact hdone

/-! ### Steps and runs -/

theorem inv_finish (hI : Inv s) {t : Replay.Status} {stored : Bool} (hturn : s.turn = .finishing t) :
    Inv { s.goto .ended with status := if s.status.closed ∨ stored = false then s.status else t } := by
  by_cases hkeep : s.status.closed = true ∨ stored = false
  · rw [if_pos hkeep]
    exact inv_past (hI.toBase.congr rfl rfl rfl rfl) ⟨nofun, fun _ => nofun⟩ id nofun
  · rw [if_neg hkeep]
    have hopen : s.status.closed = false := Bool.eq_false_iff.2 (not_or.1 hkeep).1
    refine inv_past ⟨fun t' ht' => ?_, fun h => ?_⟩ ⟨nofun, fun _ => nofun⟩ id nofun
    · have hclosed := (hI.terminal t' ht').1
      rw [hopen] at hclosed
      cases hclosed
    · subst h
      exact absurd (hI.finishing hturn) (not_completed hopen)

theorem inv_publish (hI : Inv s) (h : step maxChars s (.publish f) = some s') : Inv s' := by
  obtain ⟨hidle, h⟩ := Option.ite_none_left_eq_some.1 h
  have hturn : s.turn = .idle := not_not.1 hidle
  split at h
  case h_1 e _ =>
    cases h
    exact inv_raise (s := { s with pub.flushError := none }) (hI.toBase.congr rfl rfl rfl rfl) _ e
  case h_2 herror =>
    cases h
    split
    case isTrue => exact hI
    case isFalse hnone =>
      have hterminal : s.pub.terminalStatus = none := by
        rw [Option.not_isSome_iff_eq_none] at hnone
        exact hnone
      refine ⟨hI.toBase.congr rfl rfl rfl rfl, fun _ => id, fun h => h.elim, nofun, fun _ _ => hterminal, ?_, ?_⟩
      · intro hcompleted
        rcases hI.settled hcompleted with hpast | hne
        · exact absurd hturn hpast.1
        · exact absurd hterminal hne
      · intro hopen
        rcases hI.sound hopen with hsound | hpast | ⟨hne, -⟩
        · left
          rw [Sound, hturn] at hsound
          exact hsound
        · exact absurd hturn hpast.1
        · exact absurd herror hne

/-- The log is closed by a reader: only the log and its status are others. -/
theorem inv_lost (hI : Inv s) (hopen : s.status.closed = false) : Inv (s.append f (some .failed)) := by
  refine ⟨base_append_failure hI.toBase hopen f, hI.excl, hI.buffered, fun h => ?_, hI.accepted, nofun, nofun⟩
  exact absurd (hI.finishing h) (not_completed hopen)

theorem inv_step (hI : Inv s) (hsafe : Safe s a) (h : step maxChars s a = some s') : Inv s' := by
  cases a with
  | publish f => exact inv_publish hI h
  | endStream =>
    obtain ⟨-, hs⟩ := Option.ite_none_left_eq_some.1 h
    cases hs
    exact inv_past (hI.toBase.congr rfl rfl rfl rfl) ⟨nofun, fun _ => nofun⟩ id nofun
  | interrupt e =>
    simp only [step] at h
    split at h
    · cases h
      exact inv_raise hI.toBase _ e
    · cases h
      exact inv_raise hI.toBase _ e
    · cases h
  | acquire =>
    simp only [step] at h
    split at h
    case h_1 j hturn =>
      obtain ⟨hback, hs⟩ := Option.ite_none_left_eq_some.1 h
      cases hs
      rw [Option.not_isSome_iff_eq_none] at hback
      exact inv_enter hI hturn hback
    case h_2 => cases h
  | settle o =>
    simp only [step] at h
    split at h
    case h_1 j g hturn =>
      obtain ⟨u, hu, rfl⟩ := Option.map_eq_some_iff.1 h
      exact inv_settle_flush hI hturn hu
    case h_2 j hturn =>
      obtain ⟨f, hf, h⟩ := Option.bind_eq_some_iff.1 h
      obtain ⟨u, hu, rfl⟩ := Option.map_eq_some_iff.1 h
      exact inv_settle_own hI hturn hf hu
    case h_3 => cases h
  | finish stored =>
    simp only [step] at h
    split at h
    case h_1 t hturn =>
      cases h
      exact inv_finish hI hturn
    case h_2 => cases h
  | flushStart =>
    obtain ⟨⟨-, hback, hjob⟩, hs⟩ := Option.ite_none_right_eq_some.1 h
    cases hs
    exact inv_flushStart hI hback hjob
  | flushSettle o =>
    obtain ⟨g, hback, h⟩ := Option.bind_eq_some_iff.1 h
    obtain ⟨u, hu, rfl⟩ := Option.map_eq_some_iff.1 h
    exact inv_flushSettle hI hback hu hsafe
  | lost =>
    obtain ⟨hopen, hs⟩ := Option.ite_none_left_eq_some.1 h
    cases hs
    exact inv_lost hI (Bool.eq_false_iff.2 hopen)

theorem inv_init (h : s = start) : Inv s := by
  rw [h]
  exact ⟨⟨nofun, nofun⟩, fun _ => id, fun h => h.elim, nofun, fun _ => nofun, nofun, fun _ => .inl rfl⟩

/-- In a run in which no background flush fails without effect while DONE waits, a log closed as COMPLETED has the
answer that was published, with every other frame at its place. -/
theorem completed_log_of_safe (h : (publications maxChars).Reach Safe s) (hcompleted : s.status = .completed) :
    answerText s.entries = answerText s.published ∧ atoms s.entries = atoms s.published :=
  have hI : Inv s := h.induct (fun _ => inv_init) fun _ _ _ hI hsafe hstep => inv_step hI hsafe hstep
  ⟨answerText_congr (hI.completed hcompleted), hI.completed hcompleted⟩

end Proofs

/-! ### Runs -/

section Runs

def token (text : String) : StreamFrame := .answer text

/-- The first token is flushed in the background, the second one by DONE. -/
theorem completed_log_of_two_flushes : ∃ s, (publications 80).Reach Safe s ∧
    (s.status = .completed ∧ answerText s.entries = ['a', 'b']) ∧
      answerText s.entries = answerText s.published ∧ atoms s.entries = atoms s.published := by
  obtain ⟨s, -, hreach, hend⟩ := Machine.reach_of_exec (M := publications 80) (C := Safe) (s := start)
    (p := fun s => s.status = .completed ∧ answerText s.entries = ['a', 'b'])
    [.publish (token "a"), .acquire, .flushStart, .publish (token "b"), .flushSettle .ok, .acquire,
      .publish .done, .acquire, .settle .ok, .settle .ok] rfl (by decide)
  have hcompleted := of_decide_eq_true hend
  exact ⟨s, hreach, hcompleted, completed_log_of_safe hreach hcompleted.1⟩

/-- The flush of the first token fails while DONE waits for the lock. -/
theorem answer_lost_before_done : ∃ s, (publications 80).Reach Free s ∧
    s.status = .completed ∧ answerText s.entries = [] ∧ answerText s.published = ['a'] := by
  obtain ⟨s, -, hreach, hend⟩ := Machine.reach_of_exec (M := publications 80) (C := Free) (s := start)
    (p := fun s => s.status = .completed ∧ answerText s.entries = [] ∧ answerText s.published = ['a'])
    [.publish (token "a"), .acquire, .flushStart, .publish .done,
      .flushSettle (.failed (.other "connection lost") false),
      .acquire, .settle .ok] rfl (by decide)
  exact ⟨s, hreach, of_decide_eq_true hend⟩

end Runs

end NexusStudio.FlushRace
