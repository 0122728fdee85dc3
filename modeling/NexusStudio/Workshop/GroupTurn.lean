import NexusStudio.Lib.Machine
import NexusStudio.Streaming.Publisher

/-!
# The group-chat turn of a workshop

`stream_workshop_turn` streams the run of the host or of an expert; a host that has named an expert by
`invite_experts` or `designate_speaker` hands the turn over to it when its own run has ended.
`run_chat_replay_execution` publishes what the turn yields.

* (machine) the turn, its tools, the delayed flush of the publisher and the loss of the lease as one machine.
* (defect) each run yields a closing frame of its own, so the log is closed before the expert has spoken.
-/

namespace NexusStudio.Workshop.GroupTurn

open Concurrent Handlers Streaming Turn

/-- Whose run the turn streams. -/
inductive Stage
  | host
  | expert (expertId : String)
  deriving DecidableEq, Repr

/-- Where `run_chat_replay_execution` is in its loop. -/
inductive Loop
  | reading
  | publishing (f : StreamFrame)
  | over
  deriving DecidableEq, Repr

structure State where
  recorder : Recorder
  stage : Stage
  pendingExpertHandoffId : Option String
  loop : Loop
  leaseLost : Bool
  -- all that `stream_workshop_turn` has yielded, and what of it after the closing entry of the log
  yielded : List StreamFrame
  late : List StreamFrame
  deriving DecidableEq, Repr

inductive Action
  | yields (f : StreamFrame)
  | locked
  | designateSpeaker (expertId : String)
  | handOver
  | ends
  | raises (message : String)
  | flushTimer
  | loseLease
  | markExecutionLost
  | shutdown
  deriving DecidableEq, Repr

namespace State

/-- The host's run is to be followed by an expert's. -/
def handsOver (s : State) : Bool := s.stage == .host && s.pendingExpertHandoffId.isSome

def logClosed (s : State) : Bool := s.recorder.log.status.closed

/-- A closing frame is on its way into the log. -/
def closing (s : State) : Bool :=
  match s.loop with
  | .publishing f => f.closes
  | _ => false

end State

variable (c : Settings)

/-- The execution ends with `x`. -/
def State.conclude (s : State) (x : Handler Recorder Raised Replay.Status) (r : Recorder) : State :=
  { s with recorder := Streaming.conclude c x r, loop := .over }

/-- The loop body for the next frame, up to the lock of the publisher. -/
def State.receive (s : State) (f : StreamFrame) : State :=
  if s.leaseLost then s.conclude c (throw .leaseLost) s.recorder
  else if f = .heartbeat then s
  else
    match exec accept s.recorder with
    | (.ok true, r) => { s with recorder := r, loop := .publishing f }
    | (.ok false, r) => { s with recorder := r }
    | (.error e, r) => s.conclude c (throw e) r

def step (s : State) : Action → Option State
  | .yields f =>
    if s.loop = .reading then
      some ({ s with
        yielded := s.yielded ++ [f]
        late := if s.logClosed then s.late ++ [f] else s.late }.receive c f)
    else none
  | .locked =>
    match s.loop with
    | .publishing f =>
      match exec (record c f) s.recorder with
      | (.ok (), r) => some { s with recorder := r, loop := .reading }
      | (.error e, r) => some (s.conclude c (throw e) r)
    | _ => none
  | .designateSpeaker expertId =>
    if s.stage = .host ∧ s.loop ≠ .over then some { s with pendingExpertHandoffId := some expertId } else none
  | .handOver =>
    if s.loop = .reading ∧ s.stage = .host then
      s.pendingExpertHandoffId.map fun expertId => { s with stage := .expert expertId }
    else none
  | .ends =>
    if s.loop = .reading ∧ s.handsOver = false then
      some (s.conclude c (if s.leaseLost then throw .leaseLost else afterLoop c) s.recorder)
    else none
  | .raises message =>
    if s.loop = .reading then some (s.conclude c (throw (.other message)) s.recorder) else none
  | .flushTimer =>
    if s.recorder.pub.flushTask then some { s with recorder := (exec (flushAfterDelay c) s.recorder).2 } else none
  | .loseLease => some { s with leaseLost := true }
  | .markExecutionLost =>
    some { s with recorder := { s.recorder with log := s.recorder.log.markExecutionLost c } }
  | .shutdown =>
    if s.loop = .over then none else some (s.conclude c (throw .cancelled) s.recorder)

/-- A turn of the host or of an expert begins. -/
def begun (stage : Stage) : State := ⟨.fresh, stage, none, .reading, false, [], []⟩

def groupTurn : Machine State Action where
  init s := ∃ stage, s = begun stage
  step := step c

/-! ### What the condition forbids -/

/-- The turn is delivered: when it is over the log has what it has yielded, and nothing is yielded, nor is the turn
handed over, after the closing entry of the log. -/
structure Delivered (s : State) : Prop where
  all : s.loop = .over → pieces s.yielded <+: pieces s.recorder.log.entries
  late : ∀ f ∈ s.late, f.trailing = true
  last : s.loop ≠ .over → s.logClosed = true → s.handsOver = false

/-- What the next step of the execution appends. -/
def State.upcoming (s : State) : List StreamFrame :=
  match s.loop with
  | .publishing f => s.recorder.upcoming c f
  | _ => s.recorder.pub.delta

/-- No run closes the log while an expert is to be handed the turn, and after its closing frame a run yields at most
DONE and names no expert; the log has room, the lease is kept and the process is not shut down. -/
def Safe (s : State) : Action → Prop
  | .yields f => (s.logClosed → f.trailing) ∧ (f.closes → s.handsOver = false)
  | .designateSpeaker _ => s.logClosed = false ∧ s.closing = false
  | .locked | .ends | .raises _ => s.recorder.Room c (s.upcoming c)
  | .flushTimer => s.recorder.Room c s.recorder.pub.delta
  | .handOver => True
  | .loseLease | .markExecutionLost | .shutdown => False

instance (s : State) (a : Action) : Decidable (Safe c s a) :=
  match a with
  | .yields _ | .designateSpeaker _ => inferInstanceAs (Decidable (_ ∧ _))
  | .locked | .ends | .raises _ | .flushTimer => inferInstanceAs (Decidable (Recorder.Room ..))
  | .handOver => inferInstanceAs (Decidable True)
  | .loseLease | .markExecutionLost | .shutdown => inferInstanceAs (Decidable False)

/-- What the log has taken, by the place in the loop. -/
def Taken (s : State) : Prop :=
  match s.loop with
  | .reading => Open s.yielded s.recorder ∨ Closed s.yielded s.recorder
  | .publishing f => ∃ l, s.yielded = l ++ [f] ∧ Open l s.recorder ∧ (f.closes → s.handsOver = false)
  | .over => pieces s.yielded <+: pieces s.recorder.log.entries

structure Inv (s : State) : Prop where
  taken : Taken s
  leased : s.leaseLost = false
  late : ∀ f ∈ s.late, f.trailing = true
  last : s.loop ≠ .over → s.logClosed = true → s.handsOver = false

variable {c} {s s' : State}

theorem not_logClosed_of_open {l : List StreamFrame} (h : Open l s.recorder) : s.logClosed = false := h.status

private theorem inv_yields {f : StreamFrame} (hI : Inv s) (hC : Safe c s (.yields f))
    (h : step c s (.yields f) = some s') : Inv s' := by
  simp only [step, Option.ite_none_right_eq_some, Option.some.injEq] at h
  obtain ⟨hloop, rfl⟩ := h
  obtain ⟨htrail, hlast⟩ := hC
  have hne : s.loop ≠ .over := by rw [hloop]; exact Loop.noConfusion
  have htaken := hI.taken
  rw [Taken, hloop] at htaken
  have hlate : ∀ g ∈ (if s.logClosed then s.late ++ [f] else s.late), g.trailing = true := by
    intro g hg
    by_cases hc : s.logClosed = true
    · rw [if_pos hc, List.mem_append, List.mem_singleton] at hg
      rcases hg with hg | rfl
      · exact hI.late g hg
      · exact htrail hc
    · rw [if_neg hc] at hg
      exact hI.late g hg
  rw [State.receive, if_neg (by simp [hI.leased])]
  by_cases hb : f = .heartbeat
  · rw [if_pos hb]
    have hp : f.pieces = [] := by rw [hb]; rfl
    refine ⟨?_, hI.leased, hlate, fun _ hc => hI.last hne hc⟩
    rw [Taken]
    simp only [hloop]
    exact htaken.imp (·.skip hp) (·.skip hp)
  · rw [if_neg hb]
    rcases htaken with hopen | hclosed
    · have hacc : exec accept s.recorder = (.ok true, s.recorder) := by
        rw [exec_accept hopen.noError, hopen.terminal]
        rfl
      simp only [hacc]
      exact ⟨⟨s.yielded, rfl, hopen, hlast⟩, hI.leased, hlate, fun _ hc => hI.last hne hc⟩
    · have hacc : exec accept s.recorder = (.ok false, s.recorder) := by
        obtain ⟨t, ht⟩ := Option.ne_none_iff_exists'.mp hclosed.terminal
        rw [exec_accept hclosed.noError, ht]
        rfl
      have hp : f.pieces = [] := StreamFrame.pieces_of_trailing (htrail hclosed.status)
      simp only [hacc]
      refine ⟨?_, hI.leased, hlate, fun _ hc => hI.last hne hc⟩
      rw [Taken]
      simp only [hloop]
      exact .inr (hclosed.skip hp)

private theorem inv_locked (hI : Inv s) (hC : Safe c s .locked) (h : step c s .locked = some s') : Inv s' := by
  have htaken := hI.taken
  simp only [step] at h
  split at h
  case h_2 => cases h
  case h_1 f hloop =>
    rw [Taken, hloop] at htaken
    obtain ⟨l, hl, hopen, hlast⟩ := htaken
    have hroom : s.recorder.Room c (s.recorder.upcoming c f) := by
      have hC' : s.recorder.Room c (s.upcoming c) := hC
      rwa [State.upcoming, hloop] at hC'
    by_cases ha : ∃ text, f = .answer text
    · obtain ⟨text, rfl⟩ := ha
      obtain ⟨r, hrec, hopen'⟩ := exec_record_answer hopen hroom
      simp only [hrec, Option.some.injEq] at h
      subst h
      exact ⟨.inl (hl ▸ hopen'), hI.leased, hI.late, fun _ hc => by rw [not_logClosed_of_open hopen'] at hc; cases hc⟩
    · obtain ⟨r, hrec, hend⟩ := exec_record_other hopen (fun text he => ha ⟨text, he⟩) hroom
      simp only [hrec, Option.some.injEq] at h
      subst h
      split at hend
      case isTrue hc => exact ⟨.inr (hl ▸ hend), hI.leased, hI.late, fun _ _ => hlast hc⟩
      case isFalse =>
        exact ⟨.inl (hl ▸ hend), hI.leased, hI.late, fun _ hc => by rw [not_logClosed_of_open hend] at hc; cases hc⟩

/-- The execution is over with everything in the log. -/
private theorem Inv.conclude {x : Handler Recorder Raised Replay.Status} (hI : Inv s)
    (h : pieces s.yielded <+: pieces (Streaming.conclude c x s.recorder).log.entries) :
    Inv (s.conclude c x s.recorder) :=
  ⟨h, hI.leased, hI.late, fun hne => absurd rfl hne⟩

private theorem inv_flushTimer (hI : Inv s) (hC : s.recorder.Room c s.recorder.pub.delta) :
    Inv { s with recorder := (exec (flushAfterDelay c) s.recorder).2 } := by
  have htaken := hI.taken
  rw [Taken] at htaken
  have hkeep : ∀ {l r'}, Open l r' → r'.log.status.closed = true → s.handsOver = false := by
    intro l r' hopen hc
    rw [hopen.status] at hc
    cases hc
  cases hloop : s.loop with
  | reading =>
    simp only [hloop] at htaken
    rcases htaken with hopen | hclosed
    · obtain ⟨r', hf, hopen'⟩ := exec_flushAfterDelay hopen hC
      rw [hf]
      exact ⟨.inl hopen', hI.leased, hI.late, fun _ => hkeep hopen'⟩
    · obtain ⟨r', hf, hclosed'⟩ := exec_flushAfterDelay_closed (c := c) hclosed
      rw [hf]
      have hne : s.loop ≠ .over := by rw [hloop]; exact Loop.noConfusion
      exact ⟨.inr hclosed', hI.leased, hI.late, fun _ _ => hI.last hne hclosed.status⟩
  | publishing f =>
    simp only [hloop] at htaken
    obtain ⟨l, hl, hopen, hlast⟩ := htaken
    obtain ⟨r', hf, hopen'⟩ := exec_flushAfterDelay hopen hC
    rw [hf]
    exact ⟨⟨l, hl, hopen', hlast⟩, hI.leased, hI.late, fun _ => hkeep hopen'⟩
  | _ =>
    simp only [hloop] at htaken
    have hgrown := (grown_flushAfterDelay (c := c) s.recorder.log.entries).final List.prefix_rfl
    refine ⟨?_, hI.leased, hI.late, fun hne => absurd rfl hne⟩
    rw [Taken]
    obtain ⟨m, hm⟩ := hgrown
    rw [← hm, pieces_append]
    exact htaken.trans (List.prefix_append _ _)

theorem inv_step {a : Action} (hI : Inv s) (hC : Safe c s a) (h : step c s a = some s') : Inv s' := by
  have htaken := hI.taken
  cases a with
  | yields f => exact inv_yields hI hC h
  | locked => exact inv_locked hI hC h
  | designateSpeaker expertId =>
    simp only [step, Option.ite_none_right_eq_some, Option.some.injEq] at h
    obtain ⟨⟨-, hne⟩, rfl⟩ := h
    obtain ⟨hlog, hclosing⟩ := hC
    refine ⟨?_, hI.leased, hI.late, fun _ hc => by rw [State.logClosed] at hlog hc; rw [hlog] at hc; cases hc⟩
    rw [Taken] at htaken ⊢
    cases hloop : s.loop with
    | reading => simpa only [hloop] using htaken
    | publishing f =>
      simp only [hloop] at htaken ⊢
      obtain ⟨l, hl, hopen, -⟩ := htaken
      have hf : f.closes = false := by rwa [State.closing, hloop] at hclosing
      exact ⟨l, hl, hopen, fun hc => by rw [hf] at hc; cases hc⟩
    | _ => exact absurd hloop hne
  | handOver =>
    simp only [step, Option.ite_none_right_eq_some, Option.map_eq_some_iff] at h
    obtain ⟨⟨hloop, -⟩, expertId, -, rfl⟩ := h
    refine ⟨?_, hI.leased, hI.late, fun _ _ => rfl⟩
    rw [Taken] at htaken ⊢
    simpa only [hloop] using htaken
  | ends =>
    simp only [step, Option.ite_none_right_eq_some, Option.some.injEq, hI.leased, Bool.false_eq_true, if_false] at h
    obtain ⟨⟨hloop, -⟩, rfl⟩ := h
    have hroom : s.recorder.Room c (s.upcoming c) := hC
    rw [State.upcoming, hloop] at hroom
    rw [Taken, hloop] at htaken
    refine hI.conclude ?_
    rcases htaken with hopen | hclosed
    · exact conclude_afterLoop hopen hroom
    · rw [conclude_afterLoop_closed hclosed]
  | raises message =>
    simp only [step, Option.ite_none_right_eq_some, Option.some.injEq] at h
    obtain ⟨hloop, rfl⟩ := h
    have hroom : s.recorder.Room c (s.upcoming c) := hC
    rw [State.upcoming, hloop] at hroom
    rw [Taken, hloop] at htaken
    refine hI.conclude ?_
    rcases htaken with hopen | hclosed
    · exact conclude_raised hopen hroom message
    · rw [conclude_raised_closed hclosed]
  | flushTimer =>
    simp only [step, Option.ite_none_right_eq_some, Option.some.injEq] at h
    obtain ⟨-, rfl⟩ := h
    exact inv_flushTimer hI hC
  | loseLease | markExecutionLost | shutdown => exact hC.elim

theorem inv_reach (h : (groupTurn c).Reach (Safe c) s) : Inv s := by
  refine h.induct ?_ fun _ _ _ hI hC ht => inv_step hI hC ht
  rintro _ ⟨stage, rfl⟩
  have hopen : Open [] (begun stage).recorder := ⟨rfl, rfl, rfl, rfl⟩
  refine ⟨.inl hopen, rfl, ?_, ?_⟩
  · intro f hf
    cases hf
  · intro _ hc
    cases hc

theorem log_receive (f : StreamFrame) (hc : s.logClosed = true) : (s.receive c f).recorder.log = s.recorder.log := by
  have hacc := keepsLog_accept (L := s.recorder.log) s.recorder rfl
  unfold State.receive
  split
  · exact log_conclude hc (keepsLog_throw _) rfl
  · split
    · rfl
    · split
      · next heq => rw [heq] at hacc; exact hacc
      · next heq => rw [heq] at hacc; exact hacc
      · next heq => rw [heq] at hacc; exact log_conclude hc (keepsLog_throw _) hacc

/-- No step changes a log that is closed. -/
theorem log_step {a : Action} (hc : s.logClosed = true) (h : step c s a = some s') :
    s'.recorder.log = s.recorder.log := by
  have hconclude : ∀ {x r}, KeepsLog s.recorder.log x → r.log = s.recorder.log →
      (Streaming.conclude c x r).log = s.recorder.log := fun hx hr => log_conclude hc hx hr
  cases a with
  | yields f =>
    simp only [step, Option.ite_none_right_eq_some, Option.some.injEq] at h
    obtain ⟨-, rfl⟩ := h
    exact log_receive f hc
  | locked =>
    simp only [step] at h
    split at h
    case h_2 => cases h
    case h_1 f hloop =>
      have hrec := keepsLog_record (c := c) (f := f) hc s.recorder rfl
      split at h
      case h_1 heq =>
        rw [heq] at hrec
        cases h
        exact hrec
      case h_2 heq =>
        rw [heq] at hrec
        cases h
        exact hconclude (keepsLog_throw _) hrec
  | designateSpeaker expertId =>
    simp only [step, Option.ite_none_right_eq_some, Option.some.injEq] at h
    obtain ⟨-, rfl⟩ := h
    rfl
  | handOver =>
    simp only [step, Option.ite_none_right_eq_some, Option.map_eq_some_iff] at h
    obtain ⟨-, expertId, -, rfl⟩ := h
    rfl
  | ends =>
    simp only [step, Option.ite_none_right_eq_some, Option.some.injEq] at h
    obtain ⟨-, rfl⟩ := h
    exact hconclude (KeepsLog.ite (keepsLog_throw _) (keepsLog_afterLoop hc)) rfl
  | raises message =>
    simp only [step, Option.ite_none_right_eq_some, Option.some.injEq] at h
    obtain ⟨-, rfl⟩ := h
    exact hconclude (keepsLog_throw _) rfl
  | flushTimer =>
    simp only [step, Option.ite_none_right_eq_some, Option.some.injEq] at h
    obtain ⟨-, rfl⟩ := h
    exact (keepsLog_flushAfterDelay (c := c) hc).final (s := s.recorder) rfl
  | loseLease =>
    cases h
    rfl
  | markExecutionLost =>
    cases h
    exact if_pos hc
  | shutdown =>
    simp only [step, Option.ite_none_left_eq_some, Option.some.injEq] at h
    obtain ⟨-, rfl⟩ := h
    exact hconclude (keepsLog_throw _) rfl

/-- What is yielded after the closing entry of the log is lost, in every run. -/
theorem log_run (hc : s.logClosed = true) (hr : (groupTurn c).Run Free s s') :
    s'.recorder.log = s.recorder.log := by
  refine hr.preserves (P := fun t => t.recorder.log = s.recorder.log) (fun t a u ht _ hu => ?_) rfl
  have htc : t.logClosed = true := by rw [State.logClosed, ht]; exact hc
  exact (log_step htc hu).trans ht

/-- The settings of a deployment; the JSON of a token has 66 bytes and its text, that of DONE its turn id. -/
def defaults : Settings where
  maxChars := 512
  maxBytes := 32 * 1024 * 1024
  size
    | .turn (.token _ text) => 66 + text.utf8ByteSize
    | _ => 72

end NexusStudio.Workshop.GroupTurn
