import NexusStudio.Lib.Machine
import NexusStudio.Streaming.Publisher

/-!
# The speakers in the replay log

The same `ReplayFramePublisher` with the speaker fields of its frames, where no append fails. It collects the text of
the answer tokens and no more of them than the protocol version.

* (publisher) `step`: a frame is published, the delayed flush comes, or the execution closes. Each of them has the lock
  to its end. Without the speaker fields these are the publisher's handlers (`exec_of_step`).
* (law) The answer text of the log is the published one, each character with its speaker.
* (defect) The frame of a flush has no speaker, so the law is about the text that was published without one
  (`law_iff`).
-/

namespace NexusStudio.TokenAttribution

open Concurrent Handlers Streaming Turn

/-! ### Frames -/

/-- The speaker fields of a frame. -/
structure Attribution where
  speakerRole : Option String
  expertId : Option String
  expertName : Option String
  avatar : Option String
  taskId : Option String
  deriving DecidableEq, Repr

/-- The defaults of the fields. -/
def Attribution.absent : Attribution := ⟨none, none, none, none, none⟩

/-- A frame with its protocol version and its speaker fields. -/
structure ContractFrame where
  frame : StreamFrame
  protocolVersion : Nat
  attribution : Attribution
  deriving DecidableEq, Repr

/-- The token frame of a subscriber with these speaker fields. -/
def tokenFrame (attribution : Attribution) (protocolVersion : Nat) (channel : Channel) (text : String) :
    ContractFrame :=
  ⟨.turn (.token channel text), protocolVersion, attribution⟩

/-- The characters of the answer, each with the speaker of its frame. -/
def ContractFrame.answerText (f : ContractFrame) : List (Char × Attribution) :=
  match f.frame with
  | .turn (.token .answer text) => text.toList.map fun d => (d, f.attribution)
  | _ => []

def answerText (l : List ContractFrame) : List (Char × Attribution) := l.flatMap ContractFrame.answerText

/-- No answer text of the frame has a speaker. -/
def ContractFrame.Unattributed (f : ContractFrame) : Prop := ∀ x ∈ f.answerText, x.2 = .absent

instance (f : ContractFrame) : Decidable f.Unattributed := inferInstanceAs (Decidable (∀ x ∈ f.answerText, _))

/-! ### The publisher -/

structure DeltaPublisher extends Publisher where
  deltaProtocolVersion : Nat
  deriving DecidableEq, Repr

/-- The frame that `_flush_locked` makes of the collected text. -/
def DeltaPublisher.deltaFrames (p : DeltaPublisher) : List ContractFrame :=
  p.delta.map fun f => ⟨f, p.deltaProtocolVersion, .absent⟩

structure State where
  entries : List ContractFrame
  status : Replay.Status
  pub : DeltaPublisher
  -- the frames that were published before a terminal frame ended the stream
  published : List ContractFrame
  deriving DecidableEq, Repr

/-- `append_frame`, which a closed log refuses. -/
def State.append (s : State) (f : ContractFrame) (closeStatus : Option Replay.Status) : Option State :=
  if s.status.closed then none
  else some { s with entries := s.entries ++ [f], status := closeStatus.getD s.status }

def State.raiseFlushError (s : State) : Option State := if s.pub.flushError.isSome then none else some s

def State.cleared (s : State) : State := { s with pub := { s.pub with flushTask := false, deltaParts := [] } }

def State.flushLocked (s : State) : Option State :=
  match s.pub.deltaFrames with
  | [] => some s.cleared
  | f :: _ => s.cleared.append f none

/-- An answer token under the lock, up to the flush. -/
def State.collect (s : State) (text : String) (protocolVersion : Nat) : State :=
  { s with pub := { s.pub with
      deltaParts := s.pub.deltaParts ++ [text]
      deltaProtocolVersion := protocolVersion } }

def State.schedule (s : State) : State := { s with pub := { s.pub with flushTask := true } }

def State.observe (s : State) (f : StreamFrame) : State :=
  { s with pub := { s.pub with toPublisher := s.pub.toPublisher.observe f } }

/-- `publish` under the lock. -/
def State.record (maxChars : Nat) (s : State) (f : ContractFrame) : Option State :=
  match f.frame with
  | .turn (.token .answer text) =>
    let s := s.collect text f.protocolVersion
    if maxChars ≤ s.pub.deltaChars then s.flushLocked else some s.schedule
  | g =>
    s.flushLocked.bind fun s => (s.append f (s.pub.terminalStatusFor g)).map fun s => s.observe g

def State.publish (maxChars : Nat) (s : State) (f : ContractFrame) : Option State :=
  s.raiseFlushError.bind fun s =>
    if s.pub.terminalStatus.isSome then some s
    else { s with published := s.published ++ [f] }.record maxChars f

def State.close (s : State) : Option State := s.flushLocked.bind State.raiseFlushError

/-- `append_failure`. -/
def State.appendFailure (s : State) (message : String) (code : StreamErrorCode) : Option State :=
  s.flushLocked.bind fun s =>
    (s.append ⟨.turn (.error code message), 2, .absent⟩ (some .failed)).map fun s =>
      { s with pub := { s.pub with terminalStatus := some .failed } }

inductive Action
  | publish (f : ContractFrame)
  | flush
  | close
  | fail (message : String) (code : StreamErrorCode)
  deriving DecidableEq, Repr

/-- The next state, `none` where an append fails. -/
def step (maxChars : Nat) (s : State) : Action → Option State
  | .publish f => s.publish maxChars f
  | .flush => if s.pub.flushTask then s.flushLocked else none
  | .close => s.close
  | .fail message code => s.appendFailure message code

/-- After `set_running`. -/
def start (protocolVersion : Nat) : State := ⟨[], .running, ⟨Recorder.fresh.pub, protocolVersion⟩, []⟩

def publications (maxChars protocolVersion : Nat) : Machine State Action where
  init s := s = start protocolVersion
  step := step maxChars

/-- Each character of the answer that is in the log has the speaker that it was published with. -/
def Law (s : State) : Prop := answerText s.entries <+: answerText s.published

instance (s : State) : Decidable (Law s) := inferInstanceAs (Decidable (_ <+: _))

/-- The answer text that is published has no speaker. -/
def Unattributed (s : State) : Action → Prop
  | .publish f => s.pub.terminalStatus = none → f.Unattributed
  | _ => True

instance (s : State) (a : Action) : Decidable (Unattributed s a) := by
  unfold Unattributed
  split
  all_goals infer_instance

/-! ### Steps -/

section Steps

variable {maxChars : Nat} {s s' : State} {f : ContractFrame} {a : Action}

theorem append_cases {t : Option Replay.Status} (h : s.append f t = some s') :
    s.status.closed = false ∧ s' = { s with entries := s.entries ++ [f], status := t.getD s.status } := by
  unfold State.append at h
  split at h
  · cases h
  · next hopen => exact ⟨Bool.eq_false_iff.2 hopen, (Option.some.inj h).symm⟩

theorem raiseFlushError_cases (h : s.raiseFlushError = some s') : s.pub.flushError = none ∧ s' = s := by
  unfold State.raiseFlushError at h
  split at h
  · cases h
  · next hnone => exact ⟨Option.not_isSome_iff_eq_none.1 hnone, (Option.some.inj h).symm⟩

/-- A flush appends the collected text, if there is any. -/
theorem flushLocked_cases (h : s.flushLocked = some s') :
    s'.entries = s.entries ++ s.pub.deltaFrames ∧ s'.pub.deltaParts = [] ∧ s'.published = s.published := by
  unfold State.flushLocked at h
  split at h
  · next hnil =>
    cases h
    exact ⟨by rw [hnil]; exact (List.append_nil _).symm, rfl, rfl⟩
  · next g rest hcons =>
    obtain ⟨-, rfl⟩ := append_cases h
    have hrest : rest = [] := by
      unfold DeltaPublisher.deltaFrames Publisher.delta at hcons
      split at hcons
      · cases hcons
      · exact (List.cons.inj hcons).2.symm
    rw [hcons, hrest]
    exact ⟨rfl, rfl, rfl⟩

/-- An answer token is collected, and flushed where there is enough; any other frame is appended after a flush. -/
theorem record_cases (h : s.record maxChars f = some s') :
    (∃ text, f.frame = .answer text ∧
      if maxChars ≤ (s.collect text f.protocolVersion).pub.deltaChars then
        (s.collect text f.protocolVersion).flushLocked = some s'
      else s' = (s.collect text f.protocolVersion).schedule) ∨
    ((∀ text, f.frame ≠ .answer text) ∧ ∃ s₁ s₂, s.flushLocked = some s₁ ∧
      s₁.append f (s₁.pub.terminalStatusFor f.frame) = some s₂ ∧ s' = s₂.observe f.frame) := by
  unfold State.record at h
  split at h
  · next text hframe =>
    refine .inl ⟨text, hframe, ?_⟩
    dsimp only at h
    split at h
    · next hfull =>
      rw [if_pos hfull]
      exact h
    · next hroom =>
      rw [if_neg hroom]
      exact (Option.some.inj h).symm
  · next hother =>
    obtain ⟨s₁, hflush, h⟩ := Option.bind_eq_some_iff.1 h
    obtain ⟨s₂, happend, rfl⟩ := Option.map_eq_some_iff.1 h
    exact .inr ⟨hother, s₁, s₂, hflush, happend, rfl⟩

/-- After a terminal frame nothing is published. -/
theorem publish_cases (h : s.publish maxChars f = some s') :
    s.pub.flushError = none ∧ (s.pub.terminalStatus ≠ none ∧ s' = s ∨
      s.pub.terminalStatus = none ∧ { s with published := s.published ++ [f] }.record maxChars f = some s') := by
  obtain ⟨s₁, hraise, hrest⟩ := Option.bind_eq_some_iff.1 h
  obtain ⟨hnone, rfl⟩ := raiseFlushError_cases hraise
  refine ⟨hnone, ?_⟩
  split at hrest
  · next hsome => exact .inl ⟨Option.isSome_iff_ne_none.1 hsome, (Option.some.inj hrest).symm⟩
  · next hopen => exact .inr ⟨Option.not_isSome_iff_eq_none.1 hopen, hrest⟩

theorem flush_cases (h : step maxChars s .flush = some s') : s.pub.flushTask = true ∧ s.flushLocked = some s' := by
  change (if s.pub.flushTask then s.flushLocked else none) = some s' at h
  split at h
  · next htask => exact ⟨htask, h⟩
  · cases h

theorem close_cases (h : s.close = some s') : s.flushLocked = some s' ∧ s'.pub.flushError = none := by
  obtain ⟨s₁, hflush, h⟩ := Option.bind_eq_some_iff.1 h
  obtain ⟨hnone, rfl⟩ := raiseFlushError_cases h
  exact ⟨hflush, hnone⟩

theorem appendFailure_cases {message : String} {code : StreamErrorCode}
    (h : s.appendFailure message code = some s') :
    ∃ s₁ s₂, s.flushLocked = some s₁ ∧ s₁.append ⟨.turn (.error code message), 2, .absent⟩ (some .failed) = some s₂ ∧
      s' = { s₂ with pub := { s₂.pub with terminalStatus := some .failed } } := by
  obtain ⟨s₁, hflush, h⟩ := Option.bind_eq_some_iff.1 h
  obtain ⟨s₂, happend, rfl⟩ := Option.map_eq_some_iff.1 h
  exact ⟨s₁, s₂, hflush, happend, rfl⟩

end Steps

/-! ### The handlers of the publisher -/

section Handlers

variable {maxChars : Nat} {s s' : State} {f : ContractFrame} {a : Action}

/-- A log with room for every frame. -/
def roomy (maxChars : Nat) : Settings := ⟨maxChars, 0, fun _ => 0⟩

/-- The log and its publisher without the speakers. -/
def State.recorder (s : State) : Recorder := ⟨⟨s.entries.map ContractFrame.frame, s.status, 0⟩, s.pub.toPublisher⟩

def Action.handler (maxChars : Nat) : Action → Handler Recorder Raised Unit
  | .publish f => do
    if ← accept then record (roomy maxChars) f.frame
  | .flush => flushAfterDelay (roomy maxChars)
  | .close => Streaming.close (roomy maxChars)
  | .fail message code => appendFailure (roomy maxChars) message code

theorem exec_append {t : Option Replay.Status} (h : s.append f t = some s') (force : Bool) :
    exec (appendFrame (roomy maxChars) f.frame force t) s.recorder = (.ok (), s'.recorder) := by
  obtain ⟨hopen, rfl⟩ := append_cases h
  have hroom : s.recorder.Room (roomy maxChars) [f.frame] := Nat.le_refl 0
  rw [exec_appendFrame force t (r := s.recorder) hopen (.inr hroom)]
  simp [State.recorder, roomy]

theorem exec_flush (h : s.flushLocked = some s') :
    exec (flushLocked (roomy maxChars)) s.recorder = (.ok (), s'.recorder) := by
  rw [flushLocked, exec_bind_ok _ exec_get, exec_bind_ok _ (exec_modify _)]
  unfold State.flushLocked DeltaPublisher.deltaFrames at h
  have hdelta : s.recorder.pub.delta = s.pub.delta := rfl
  rw [hdelta]
  cases hd : s.pub.delta with
  | nil =>
    rw [hd] at h
    cases h
    rfl
  | cons g rest =>
    rw [hd] at h
    exact exec_append (s := s.cleared) h false

theorem exec_record (h : s.record maxChars f = some s') :
    exec (record (roomy maxChars) f.frame) s.recorder = (.ok (), s'.recorder) := by
  rcases record_cases h with ⟨text, hframe, h⟩ | ⟨hother, s₁, s₂, hflush, happend, rfl⟩
  · rw [hframe, StreamFrame.answer, record, exec_bind_ok _ (exec_modify _), exec_bind_ok _ exec_get]
    change exec (if maxChars ≤ (s.collect text f.protocolVersion).pub.deltaChars then _ else _)
      (s.collect text f.protocolVersion).recorder = _
    split at h
    · next hfull =>
      rw [if_pos hfull]
      exact exec_flush h
    · next hroom =>
      rw [if_neg hroom, h]
      rfl
  · unfold record
    split
    · next text hframe => exact absurd hframe (hother text)
    · rw [exec_bind_ok _ (exec_flush hflush), exec_bind_ok _ exec_get]
      exact (exec_bind_ok _ (exec_append happend false)).trans rfl

/-- Without the speakers a step is the handler of the publisher, which returns. -/
theorem exec_of_step (h : step maxChars s a = some s') :
    exec (a.handler maxChars) s.recorder = (.ok (), s'.recorder) := by
  cases a with
  | publish f =>
    obtain ⟨hnone, h⟩ := publish_cases h
    unfold Action.handler
    rw [exec_bind_ok _ (exec_accept (r := s.recorder) hnone)]
    rcases h with ⟨hterminal, rfl⟩ | ⟨hopen, hrecord⟩
    · have hfalse : s'.recorder.pub.terminalStatus.isNone = false := Option.isNone_eq_false_iff.2
        (Option.isSome_iff_ne_none.2 hterminal)
      rw [hfalse]
      rfl
    · have htrue : s.recorder.pub.terminalStatus.isNone = true := Option.isNone_iff_eq_none.2 hopen
      rw [htrue]
      exact exec_record (s := { s with published := s.published ++ [f] }) hrecord
  | flush =>
    obtain ⟨-, hflush⟩ := flush_cases h
    unfold Action.handler flushAfterDelay
    rw [exec_tryCatch, exec_flush hflush]
  | close =>
    obtain ⟨hflush, hnone⟩ := close_cases h
    unfold Action.handler Streaming.close
    rw [exec_bind_ok _ (exec_flush hflush), exec_raiseFlushError hnone]
  | fail message code =>
    obtain ⟨s₁, s₂, hflush, happend, rfl⟩ := appendFailure_cases h
    have hcatch : exec (tryCatch (flushLocked (roomy maxChars)) fun e => if e = .limit then pure () else throw e)
        s.recorder = (.ok (), s₁.recorder) := by
      rw [exec_tryCatch, exec_flush hflush]
    unfold Action.handler appendFailure
    rw [exec_bind_ok _ hcatch]
    exact (exec_bind_ok _ (exec_append happend true)).trans rfl

end Handlers

/-! ### Texts -/

section Texts

variable {l m : List ContractFrame} {f : ContractFrame} {text : String}

theorem answerText_append : answerText (l ++ m) = answerText l ++ answerText m := List.flatMap_append

theorem answerText_singleton : answerText [f] = f.answerText := by rw [answerText, List.flatMap_singleton]

theorem answerText_answer (hf : f.frame = .answer text) :
    f.answerText = text.toList.map fun d => (d, f.attribution) := by
  unfold ContractFrame.answerText
  rw [hf]
  rfl

theorem answerText_other (hf : ∀ text, f.frame ≠ .answer text) : f.answerText = [] := by
  unfold ContractFrame.answerText
  split
  · next text hframe => exact absurd hframe (hf text)
  · rfl

theorem answerText_deltaFrames (p : DeltaPublisher) :
    answerText p.deltaFrames = (String.join p.deltaParts).toList.map fun d => (d, .absent) := by
  unfold DeltaPublisher.deltaFrames Publisher.delta
  split
  · next hnil =>
    rw [hnil]
    rfl
  · exact answerText_singleton.trans (answerText_answer rfl)

/-- Texts whose characters have one speaker throughout are alike if the characters are. -/
theorem eq_of_map_fst {α β : Type*} {l m : List (α × β)} {b : β} (h : l.map Prod.fst = m.map Prod.fst)
    (hl : ∀ x ∈ l, x.2 = b) (hm : ∀ x ∈ m, x.2 = b) : l = m := by
  have hconst : ∀ l : List (α × β), (∀ x ∈ l, x.2 = b) → (l.map Prod.fst).map (fun a => (a, b)) = l := by
    intro l hl
    have hid : ∀ x ∈ l, ((fun a => (a, b)) ∘ Prod.fst) x = id x := fun x hx => Prod.ext rfl (hl x hx).symm
    rw [List.map_map, List.map_congr_left hid, List.map_id]
  rw [← hconst l hl, ← hconst m hm, h]

end Texts

/-! ### The invariant -/

/-- The log and the collected parts hold the published answer text, in the log without its speakers. -/
structure Tracks (entries : List ContractFrame) (parts : List String) (published : List ContractFrame) : Prop where
  text : (answerText entries).map Prod.fst ++ (String.join parts).toList = (answerText published).map Prod.fst
  absent : ∀ x ∈ answerText entries, x.2 = .absent

section Proofs

variable {maxChars protocolVersion : Nat} {s s' : State} {f : ContractFrame} {a : Action}
  {entries published : List ContractFrame} {parts : List String} {text : String}

theorem Tracks.collect (h : Tracks entries parts published) (hf : f.frame = .answer text) :
    Tracks entries (parts ++ [text]) (published ++ [f]) := by
  refine ⟨?_, h.absent⟩
  rw [answerText_append, answerText_singleton, answerText_answer hf, List.map_append, ← h.text]
  simp [String.join_append, Function.comp_def]

/-- A frame without answer text may be published at any time. -/
theorem Tracks.publish (h : Tracks entries parts published) (hf : f.answerText = []) :
    Tracks entries parts (published ++ [f]) := by
  refine ⟨?_, h.absent⟩
  rw [answerText_append, answerText_singleton, hf, List.append_nil]
  exact h.text

theorem Tracks.append (h : Tracks entries parts published) (hf : f.answerText = []) :
    Tracks (entries ++ [f]) parts published := by
  have hsame : answerText (entries ++ [f]) = answerText entries := by
    rw [answerText_append, answerText_singleton, hf, List.append_nil]
  exact ⟨by rw [hsame]; exact h.text, by rw [hsame]; exact h.absent⟩

/-- What a flush puts into the log has no speaker. -/
theorem Tracks.flushLocked (h : Tracks s.entries s.pub.deltaParts s.published) (hs : s.flushLocked = some s') :
    Tracks s'.entries s'.pub.deltaParts s'.published := by
  obtain ⟨hentries, hparts, hpublished⟩ := flushLocked_cases hs
  rw [hentries, hparts, hpublished]
  constructor
  · rw [answerText_append, answerText_deltaFrames, List.map_append, List.map_map, ← h.text]
    simp [Function.comp_def]
  · intro x hx
    rw [answerText_append, answerText_deltaFrames] at hx
    rcases List.mem_append.1 hx with hx | hx
    · exact h.absent x hx
    · obtain ⟨d, -, rfl⟩ := List.mem_map.1 hx
      rfl

theorem Tracks.record (h : Tracks s.entries s.pub.deltaParts s.published)
    (hs : { s with published := s.published ++ [f] }.record maxChars f = some s') :
    Tracks s'.entries s'.pub.deltaParts s'.published := by
  rcases record_cases hs with ⟨text, hframe, hs⟩ | ⟨hother, s₁, s₂, hflush, happend, rfl⟩
  · have hcollect : Tracks s.entries (s.pub.deltaParts ++ [text]) (s.published ++ [f]) := h.collect hframe
    split at hs
    · exact Tracks.flushLocked hcollect hs
    · rw [hs]
      exact hcollect
  · have hnone := answerText_other hother
    have hflushed := Tracks.flushLocked (h.publish hnone) hflush
    obtain ⟨-, rfl⟩ := append_cases happend
    have hparts : (s₁.pub.toPublisher.observe f.frame).deltaParts = s₁.pub.deltaParts := by
      unfold Publisher.observe
      split <;> rfl
    change Tracks (s₁.entries ++ [f]) (s₁.pub.toPublisher.observe f.frame).deltaParts s₁.published
    rw [hparts]
    exact hflushed.append hnone

theorem Tracks.step (h : Tracks s.entries s.pub.deltaParts s.published) (hs : step maxChars s a = some s') :
    Tracks s'.entries s'.pub.deltaParts s'.published := by
  cases a with
  | publish f =>
    rcases (publish_cases hs).2 with ⟨-, rfl⟩ | ⟨-, hrecord⟩
    · exact h
    · exact h.record hrecord
  | flush => exact h.flushLocked (flush_cases hs).2
  | close => exact h.flushLocked (close_cases hs).1
  | fail message code =>
    obtain ⟨s₁, s₂, hflush, happend, rfl⟩ := appendFailure_cases hs
    obtain ⟨-, rfl⟩ := append_cases happend
    exact (h.flushLocked hflush).append rfl

theorem tracks_of_reach {C : State → Action → Prop} (h : (publications maxChars protocolVersion).Reach C s) :
    Tracks s.entries s.pub.deltaParts s.published := by
  refine h.induct (P := fun s => Tracks s.entries s.pub.deltaParts s.published) ?_ fun s a t hs _ ht => hs.step ht
  rintro s rfl
  exact ⟨rfl, fun x hx => absurd hx List.not_mem_nil⟩

/-- The law holds of what is in the log as far as it was published without a speaker. -/
theorem law_iff (h : Tracks s.entries s.pub.deltaParts s.published) :
    Law s ↔ ∀ x ∈ (answerText s.published).take (answerText s.entries).length, x.2 = .absent := by
  have htext : (answerText s.entries).map Prod.fst =
      ((answerText s.published).take (answerText s.entries).length).map Prod.fst := by
    rw [List.map_take, ← h.text, List.take_append_of_le_length (by rw [List.length_map]), List.take_of_length_le]
    rw [List.length_map]
  constructor
  · intro hlaw x hx
    rw [← List.prefix_iff_eq_take.1 hlaw] at hx
    exact h.absent x hx
  · intro hpublished
    exact List.prefix_iff_eq_take.2 (eq_of_map_fst htext h.absent hpublished)

theorem unattributed_iff (l : List ContractFrame) :
    (∀ x ∈ answerText l, x.2 = .absent) ↔ ∀ f ∈ l, f.Unattributed := by
  constructor
  · exact fun h f hf x hx => h x (List.mem_flatMap.2 ⟨f, hf, hx⟩)
  · intro h x hx
    obtain ⟨f, hf, hx⟩ := List.mem_flatMap.1 hx
    exact h f hf x hx

/-- Under the lock a frame is published, and a step publishes no other. -/
theorem published_of_step (hs : step maxChars s a = some s') :
    s'.published = s.published ∨
      ∃ f, a = .publish f ∧ s.pub.terminalStatus = none ∧ s'.published = s.published ++ [f] := by
  cases a with
  | publish f =>
    rcases (publish_cases hs).2 with ⟨-, rfl⟩ | ⟨hopen, hrecord⟩
    · exact .inl rfl
    · refine .inr ⟨f, rfl, hopen, ?_⟩
      rcases record_cases hrecord with ⟨text, -, hs⟩ | ⟨-, s₁, s₂, hflush, happend, rfl⟩
      · split at hs
        · exact (flushLocked_cases hs).2.2
        · rw [hs]
          rfl
      · obtain ⟨-, rfl⟩ := append_cases happend
        exact (flushLocked_cases hflush).2.2
  | flush => exact .inl (flushLocked_cases (flush_cases hs).2).2.2
  | close => exact .inl (flushLocked_cases (close_cases hs).1).2.2
  | fail message code =>
    obtain ⟨s₁, s₂, hflush, happend, rfl⟩ := appendFailure_cases hs
    obtain ⟨-, rfl⟩ := append_cases happend
    exact .inl (flushLocked_cases hflush).2.2

theorem unattributed_of_reach (h : (publications maxChars protocolVersion).Reach Unattributed s) :
    ∀ f ∈ s.published, f.Unattributed := by
  refine h.induct (P := fun s => ∀ f ∈ s.published, f.Unattributed) ?_ fun s a t hs hsafe ht => ?_
  · rintro s rfl f hf
    exact absurd hf List.not_mem_nil
  · rcases published_of_step ht with hsame | ⟨f, rfl, hopen, hadd⟩
    · rw [hsame]
      exact hs
    · rw [hadd]
      intro g hg
      rcases List.mem_append.1 hg with hg | hg
      · exact hs g hg
      · rw [List.mem_singleton.1 hg]
        exact hsafe hopen

/-- In a run that publishes its answer text without speakers, the log has it without speakers. In any run the law holds
exactly if no text that has got into the log was published with a speaker, so once all of it is in the log, if no
published text has one. -/
theorem attribution_law (maxChars protocolVersion : Nat) :
    (∀ s, (publications maxChars protocolVersion).Reach Unattributed s → Law s) ∧
    ∀ s, (publications maxChars protocolVersion).Reach Free s →
      (Law s ↔ ∀ x ∈ (answerText s.published).take (answerText s.entries).length, x.2 = .absent) ∧
      (s.pub.deltaParts = [] → (Law s ↔ ∀ f ∈ s.published, f.Unattributed)) := by
  refine ⟨fun s h => ?_, fun s h => ⟨law_iff (tracks_of_reach h), fun hparts => ?_⟩⟩
  · have hpublished := (unattributed_iff s.published).2 (unattributed_of_reach h)
    exact (law_iff (tracks_of_reach h)).2 fun x hx => hpublished x (List.mem_of_mem_take hx)
  · have hT := tracks_of_reach h
    have hlength : (answerText s.published).length = (answerText s.entries).length := by
      have htext := congrArg List.length hT.text
      rw [hparts, List.length_append, List.length_map, List.length_map] at htext
      exact htext.symm
    rw [law_iff hT, ← hlength, List.take_length, unattributed_iff]

end Proofs

/-! ### Runs -/

section Runs

def host : Attribution := ⟨some "host", none, some "项目助手", some "/avatars/experts/host.png", none⟩

def expert : Attribution := ⟨some "expert", some "7", some "Copywriter", none, some "3"⟩

/-- Two speakers within one delay: their texts are one frame, which has neither of them. -/
theorem speakers_merged : ∃ s, (publications 512 2).Reach Free s ∧
    s.published = [tokenFrame host 2 .answer "Over to you.", tokenFrame expert 2 .answer "Thanks."] ∧
      s.entries = [tokenFrame .absent 2 .answer "Over to you.Thanks."] ∧ ¬ Law s := by
  obtain ⟨s, -, hreach, hend⟩ := Machine.reach_of_exec (M := publications 512 2) (C := Free) (s := start 2)
    (p := fun s =>
      s.published = [tokenFrame host 2 .answer "Over to you.", tokenFrame expert 2 .answer "Thanks."] ∧
        s.entries = [tokenFrame .absent 2 .answer "Over to you.Thanks."] ∧ ¬ Law s)
    [.publish (tokenFrame host 2 .answer "Over to you."),
      .publish (tokenFrame expert 2 .answer "Thanks."), .flush]
    rfl (by decide)
  exact ⟨s, hreach, of_decide_eq_true hend⟩

/-- Beside a token of the thinking channel, which keeps its speaker, text without a speaker keeps none. -/
theorem law_of_chat_tokens : ∃ s, (publications 512 2).Reach Unattributed s ∧
    s.entries = [tokenFrame .absent 2 .answer "Hi", tokenFrame host 2 .think "hm"] ∧ Law s := by
  obtain ⟨s, -, hreach, hend⟩ := Machine.reach_of_exec (M := publications 512 2) (C := Unattributed) (s := start 2)
    (p := fun s => s.entries = [tokenFrame .absent 2 .answer "Hi", tokenFrame host 2 .think "hm"])
    [.publish (tokenFrame .absent 2 .answer "H"), .publish (tokenFrame .absent 2 .answer "i"),
      .publish (tokenFrame host 2 .think "hm")]
    rfl (by decide)
  exact ⟨s, hreach, of_decide_eq_true hend, (attribution_law 512 2).1 s hreach⟩

end Runs

end NexusStudio.TokenAttribution
