import NexusStudio.Streaming.ReplayStore
import NexusStudio.Lib.Machine

/-!
# The log of one replay request

Any number of workers call the scripts of `ReplayStore` on one request id, in any order.

* (workers) A worker appends by a publisher, whose terminal frames come with the status that closes the log.
* (law) The log is closed once and then kept, its ids increase, the hash has the last of them, and a terminal frame is
  its last.
-/

set_option linter.unusedSectionVars false

namespace NexusStudio.ReplayLog

open Concurrent Replay ReplayStore
open Streaming (StreamFrame Settings Publisher)

/-! ### The machine -/

structure State (ι : Type) where
  keys : Keys
  pub : ι → Publisher
  -- how often the log was closed
  closings : Nat

inductive Action (ι : Type)
  | claim (m : StoredMeta)
  | setRunning (owner : String)
  | refresh (owner : String)
  -- an append of `publish` or of a flush
  | append (i : ι) (f : StreamFrame) (ms now : Nat)
  -- the append of `append_failure`
  | appendFailure (i : ι) (message : String) (code : Turn.StreamErrorCode) (ms now : Nat)
  | finish (t : Status) (now : Nat)
  | markLost (ms now : Nat) (lockOwner : Option String)
  | leaseExpires
  -- the turn lock is taken or released
  | lock (owner : Option String)

section Model

variable {ι : Type} [DecidableEq ι] (c : Settings)

def State.write (s : State ι) (k : Keys) : State ι :=
  { s with keys := k, closings := s.closings + if ¬ s.keys.Closed ∧ k.Closed then 1 else 0 }

/-- An append by the publisher of `i`, which observes the frame that the log has taken. -/
def State.appendBy (s : State ι) (i : ι) (observed : Publisher) (r : AppendReply × Keys) : State ι :=
  match r with
  | (.ok _, k) => { s.write k with pub := Function.update s.pub i observed }
  | (_, k) => s.write k

def step (s : State ι) : Action ι → Option (State ι)
  | .claim m => some (s.write (s.keys.claim m.claimed).2)
  | .setRunning owner => some (s.write (s.keys.setRunning owner).2)
  | .refresh owner => some (s.write (s.keys.refreshLease owner).2)
  | .append i f ms now =>
    let p := s.pub i
    some (s.appendBy i (p.observe f) (s.keys.append c ms now f false (p.terminalStatusFor f)))
  | .appendFailure i message code ms now =>
    let f : StreamFrame := .turn (.error code message)
    some (s.appendBy i { s.pub i with terminalStatus := some .failed } (s.keys.append c ms now f true (some .failed)))
  | .finish t now => some (s.write (s.keys.finish t now))
  | .markLost ms now lockOwner => some (s.write (s.keys.markLost c ms now lockOwner).2)
  | .leaseExpires => some { s with keys := { s.keys with lease := none } }
  | .lock owner => some { s with keys := { s.keys with executionLock := owner } }

/-- No key of the request is there yet, and nobody has published. -/
structure Initial (s : State ι) : Prop where
  hash : s.keys.hash = none
  events : s.keys.events = []
  pub : ∀ i, (s.pub i).terminalStatus = none
  closings : s.closings = 0

def workers : Machine (State ι) (Action ι) where
  init := Initial
  step := step c

/-! ### The law -/

structure Law (s : State ι) : Prop where
  once : s.closings ≤ 1
  last : ∀ m ∈ s.keys.hash, m.lastEventId = s.keys.events.getLast?.map Entry.id
  increasing : Increasing s.keys.events
  terminal : ∀ e ∈ s.keys.events.dropLast, e.frame.closes = false

/-- What closed logs keep. -/
def Frozen (s t : State ι) : Prop := ∀ m ∈ s.keys.hash, m.status.closed = true →
  t.keys.hash = some m ∧ t.keys.events = s.keys.events

end Model

/-! ### The invariant -/

section Proofs

variable {ι : Type} [DecidableEq ι] {c : Settings} {s s' : State ι} {k : Keys} {a : Action ι}

structure Inv (s : State ι) : Prop where
  sound : Sound s.keys
  before : ¬ s.keys.Closed → s.closings = 0
  once : s.closings ≤ 1
  pub : ∀ i, ∀ t ∈ (s.pub i).terminalStatus, t.closed = true

theorem closings_write (s : State ι) (k : Keys) :
    (s.write k).closings = s.closings + if ¬ s.keys.Closed ∧ k.Closed then 1 else 0 := rfl

theorem inv_write (hI : Inv s) (he : Effect s.keys k) : Inv (s.write k) := by
  have hsound := sound_of_effect hI.sound he
  by_cases hs : s.keys.Closed
  · have hkept : (s.write k).closings = s.closings := by
      rw [closings_write, if_neg fun h => h.1 hs, Nat.add_zero]
    exact ⟨hsound, fun hn => absurd (closed_of_effect he hs) hn, hkept ▸ hI.once, hI.pub⟩
  · have hzero := hI.before hs
    refine ⟨hsound, fun hn => ?_, ?_, hI.pub⟩
    · rw [closings_write, if_neg fun h => hn h.2, hzero]
    · rw [closings_write, hzero]
      split
      · exact Nat.le_refl 1
      · exact Nat.zero_le 1

/-- A terminal frame comes with a closed status. -/
theorem closed_of_terminalStatusFor {p : Publisher} {f : StreamFrame} (hp : ∀ t ∈ p.terminalStatus, t.closed = true)
    (hf : f.closes = true) : ∃ t ∈ p.terminalStatusFor f, t.closed = true := by
  have hor : ∀ t : Status, t.closed = true → ∃ u ∈ p.terminalStatus.or (some t), u.closed = true := by
    intro t ht
    cases hstatus : p.terminalStatus with
    | none => exact ⟨t, rfl, ht⟩
    | some u => exact ⟨u, rfl, hp u hstatus⟩
  unfold StreamFrame.closes at hf
  split at hf
  · exact ⟨.failed, rfl, rfl⟩
  · exact hor .completed rfl
  · exact hor .cancelled rfl
  · cases hf

/-- What a publisher observes leaves its terminal status closed. -/
theorem closed_of_observe {p : Publisher} {f : StreamFrame} (hp : ∀ t ∈ p.terminalStatus, t.closed = true) :
    ∀ t ∈ (p.observe f).terminalStatus, t.closed = true := by
  have hor : ∀ u : Status, u.closed = true → ∀ t ∈ p.terminalStatus.or (some u), t.closed = true := by
    intro u hu t ht
    cases hstatus : p.terminalStatus with
    | none =>
      rw [hstatus] at ht
      cases ht
      exact hu
    | some v =>
      rw [hstatus] at ht
      exact hp t (hstatus.trans ht)
  unfold Publisher.observe
  split
  · exact hp
  · exact hp
  · exact hp
  · rintro t ⟨⟩
    rfl
  · exact hor .completed rfl
  · exact hor .cancelled rfl
  · exact hp

theorem inv_appendBy (hI : Inv s) {i : ι} {p : Publisher} {r : AppendReply × Keys} (he : Effect s.keys r.2)
    (hp : ∀ t ∈ p.terminalStatus, t.closed = true) : Inv (s.appendBy i p r) := by
  have hwrite := inv_write hI he
  obtain ⟨reply, k⟩ := r
  cases reply with
  | ok id =>
    refine ⟨hwrite.sound, hwrite.before, hwrite.once, ?_⟩
    exact (Function.forall_update_iff s.pub fun _ q => ∀ t ∈ q.terminalStatus, t.closed = true).2
      ⟨hp, fun j _ => hI.pub j⟩
  | _ => exact hwrite

theorem keys_appendBy (s : State ι) (i : ι) (p : Publisher) (r : AppendReply × Keys) :
    (s.appendBy i p r).keys = r.2 := by
  obtain ⟨reply, k⟩ := r
  cases reply with
  | _ => rfl

theorem effect_of_step (hI : Inv s) (h : step c s a = some s') : Effect s.keys s'.keys ∧ Inv s' := by
  cases a with
  | claim m =>
    cases h
    exact ⟨effect_claim, inv_write hI effect_claim⟩
  | setRunning owner =>
    cases h
    exact ⟨effect_setRunning owner, inv_write hI (effect_setRunning owner)⟩
  | refresh owner =>
    cases h
    exact ⟨effect_refreshLease owner, inv_write hI (effect_refreshLease owner)⟩
  | append i f ms now =>
    cases h
    have heffect : Effect s.keys (s.keys.append c ms now f false ((s.pub i).terminalStatusFor f)).2 :=
      effect_append false (closed_of_terminalStatusFor (hI.pub i))
    exact ⟨keys_appendBy s i _ _ ▸ heffect, inv_appendBy hI heffect (closed_of_observe (hI.pub i))⟩
  | appendFailure i message code ms now =>
    cases h
    have heffect : Effect s.keys (s.keys.append c ms now (.turn (.error code message)) true (some .failed)).2 :=
      effect_append true fun _ => ⟨.failed, rfl, rfl⟩
    refine ⟨keys_appendBy s i _ _ ▸ heffect, inv_appendBy hI heffect ?_⟩
    rintro t ⟨⟩
    rfl
  | finish t now =>
    cases h
    exact ⟨effect_finish, inv_write hI effect_finish⟩
  | markLost ms now lockOwner =>
    cases h
    exact ⟨effect_markLost lockOwner, inv_write hI (effect_markLost lockOwner)⟩
  | leaseExpires | lock owner =>
    cases h
    exact ⟨.same rfl rfl, hI.sound.of_same rfl rfl, hI.before, hI.once, hI.pub⟩

theorem inv_init (hs : Initial s) : Inv s := by
  refine ⟨sound_of_missing hs.hash hs.events, fun _ => hs.closings, hs.closings ▸ Nat.zero_le 1, fun i t ht => ?_⟩
  rw [hs.pub i] at ht
  cases ht

theorem inv_reach (h : (workers c).Reach Free s) : Inv s :=
  h.induct (fun _ => inv_init) fun _ _ _ hI _ hstep => (effect_of_step hI hstep).2

/-! ### In every run -/

theorem frozen_of_step (hI : Inv s) (h : step c s a = some s') : Frozen s s' := by
  intro m hm hclosed
  obtain ⟨hhash, hevents⟩ := frozen_of_effect (effect_of_step hI h).1 ⟨m, hm, hclosed⟩
  exact ⟨hhash.trans hm, hevents⟩

/-- In every reachable state the log is closed at most once, the recorded last event id is the one of its last entry,
the ids increase and a terminal frame is the last; and whatever follows keeps a closed log. -/
theorem replay_log_law (h : (workers c).Reach Free s) : Law s ∧ ∀ t, (workers c).Run Free s t → Frozen s t := by
  have hI := inv_reach h
  refine ⟨⟨hI.once, hI.sound.last, hI.sound.increasing, hI.sound.terminal⟩, fun t hrun => ?_⟩
  refine hrun.rel (P := Inv) (fun _ m hm _ => ⟨hm, rfl⟩) (fun s t u hst htu m hm hc => ?_)
    (fun _ _ _ hI _ hstep => (effect_of_step hI hstep).2) (fun _ _ _ hI _ hstep => frozen_of_step hI hstep) hI
  obtain ⟨hhash, hevents⟩ := hst m hm hc
  obtain ⟨hhash', hevents'⟩ := htu m hhash hc
  exact ⟨hhash', hevents'.trans hevents⟩

end Proofs

/-! ### A worker that goes on after it was declared lost -/

def turnMeta : StoredMeta := .starting "request" 1 2 "turn" .turn "fingerprint" 0

def untouched : State Unit := ⟨⟨none, [], none, none⟩, fun _ => ⟨[], false, none, none, false⟩, 0⟩

theorem initial_untouched : Initial untouched := ⟨rfl, rfl, fun _ => rfl, rfl⟩

/-- The DONE of a worker whose lease has expired is not appended after the frame of its loss. -/
theorem replay_log_law_of_lost_worker : ∃ s : State Unit, (workers ⟨100, 1000, fun _ => 10⟩).Reach Free s ∧
    (s.keys.events = [⟨⟨7, 0⟩, .answer "hello"⟩, ⟨⟨7, 1⟩, lostFrame⟩] ∧ s.closings = 1) ∧
    Law s ∧ ∀ t, (workers ⟨100, 1000, fun _ => 10⟩).Run Free s t → Frozen s t := by
  obtain ⟨s, -, hreach, hend⟩ := Machine.reach_of_exec (M := workers ⟨100, 1000, fun _ => 10⟩) (C := Free)
    (s := untouched)
    (p := fun s => s.keys.events = [⟨⟨7, 0⟩, .answer "hello"⟩, ⟨⟨7, 1⟩, lostFrame⟩] ∧ s.closings = 1)
    [.claim turnMeta, .setRunning "owner", .append () (.answer "hello") 7 7, .leaseExpires, .markLost 5 8 none,
      .append () .done 9 9, .finish .completed 9] initial_untouched (by decide)
  exact ⟨s, hreach, of_decide_eq_true hend, replay_log_law hreach⟩

end NexusStudio.ReplayLog
