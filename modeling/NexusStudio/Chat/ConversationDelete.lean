import Mathlib
import NexusStudio.Lib.Exclusion

/-!
# Deleting a conversation under its turns

`delete_conversation` against the requests that start turns: `stream_message` and `resume_turn`, with the executions
they start. Every read or write of the row, of Redis and of the checkpointer is one step.

* (request) the status of the conversation is read first, the turn lock is taken last.
* (deletion) neither the lock nor an execution is looked at: the thread is deleted, then the row is closed.
* (result) in the runs that meet `Safe`, a conversation that has been deleted stays so: no turn executes, and the
  thread is not written again.
-/

set_option linter.unusedSectionVars false

namespace NexusStudio.ConversationDelete

open Concurrent

/-- The pending gate of the conversation: its turn, and whether it still waits for its user. -/
structure Gate (τ : Type*) where
  turn : τ
  pending : Bool
  deriving DecidableEq, Repr

/-- What the requests ask for: a request streams a message as a turn of its own or resumes the turn of a gate. -/
structure Requests (ρ τ : Type*) where
  turn : ρ → τ
  resumes : ρ → Bool
  -- the action of a resume: it submits the gate, or cancels it
  submits : ρ → Bool

/-- Where a request is in its endpoint, and then in the execution that it has started. -/
inductive RequestPc
  | getOwned
  | getGatePending
  | getInvite
  | submitGate
  | claim
  | acquire
  | started
  | streaming
  | finalize
  | ended
  | refused
  deriving DecidableEq, Repr

/-- Where a deletion is in `delete_conversation`. -/
inductive DeletePc
  | getOwned
  | deleteThread
  | close
  | returned
  | failed
  deriving DecidableEq, Repr

structure State (ρ τ δ : Type*) where
  -- the row: `ACTIVE` or `CLOSED`
  active : Bool
  -- the checkpointer stores something under the thread id of the conversation
  thread : Bool
  gate : Option (Gate τ)
  lock : Option τ
  request : ρ → RequestPc
  deletion : δ → DeletePc

inductive RequestStep
  | getOwned
  | getGatePending
  | getInvite (pending : Bool)
  | submitGate
  -- the request id is new, or it has been claimed before
  | claim (created : Bool)
  | acquire
  | setRunning
  | checkpoint
  | setGatePending
  | clearGatePending
  -- the stream ends, for whatever reason
  | leave
  | release
  -- the call under way fails
  | fault
  deriving DecidableEq, Repr

inductive DeleteStep
  | getOwned
  | deleteThread
  | close
  | fault
  deriving DecidableEq, Repr

inductive Action (ρ δ : Type*)
  | request (r : ρ) (e : RequestStep)
  | delete (d : δ) (e : DeleteStep)
  -- the lock expires, or a cancel deletes it
  | lockLost
  deriving DecidableEq, Repr

section Model

variable {ρ τ δ : Type*} [DecidableEq ρ] [DecidableEq τ] [DecidableEq δ]

namespace State

def setRequest (s : State ρ τ δ) (r : ρ) (p : RequestPc) : State ρ τ δ :=
  { s with request := Function.update s.request r p }

def setDeletion (s : State ρ τ δ) (d : δ) (p : DeletePc) : State ρ τ δ :=
  { s with deletion := Function.update s.deletion d p }

end State

/-- The agent turn is executing: the background task has been started and has not come to its end. -/
def RequestPc.executing : RequestPc → Bool
  | started | streaming | finalize => true
  | getOwned | getGatePending | getInvite | submitGate | claim | acquire | ended | refused => false

def State.Executing (s : State ρ τ δ) (r : ρ) : Prop := (s.request r).executing = true

/-- One step of a request or of its execution. -/
def requestStep (Q : Requests ρ τ) (s : State ρ τ δ) (r : ρ) : RequestStep → Option (State ρ τ δ)
  | .getOwned =>
    if s.request r = .getOwned then some (s.setRequest r (if s.active then .getGatePending else .refused)) else none
  | .getGatePending =>
    if s.request r = .getGatePending then
      if Q.resumes r then
        some (s.setRequest r
          (if s.gate.map Gate.turn = some (Q.turn r) then (if Q.submits r then .submitGate else .claim) else .refused))
      else
        -- a gate that no longer waits is cleared as stale
        match s.gate with
        | none => some (s.setRequest r .getInvite)
        | some g =>
          some (if g.pending then s.setRequest r .refused else { s.setRequest r .getInvite with gate := none })
    else none
  | .getInvite pending =>
    if s.request r = .getInvite then some (s.setRequest r (if pending then .refused else .claim)) else none
  | .submitGate =>
    if s.request r = .submitGate then
      some { s.setRequest r .claim with gate := s.gate.map fun g => { g with pending := false } }
    else none
  | .claim created =>
    if s.request r = .claim then some (s.setRequest r (if created then .acquire else .ended)) else none
  | .acquire =>
    if s.request r = .acquire then
      some (if s.lock = none then { s.setRequest r .started with lock := some (Q.turn r) } else s.setRequest r .refused)
    else none
  | .setRunning => if s.request r = .started then some (s.setRequest r .streaming) else none
  | .checkpoint =>
    -- the repair after a cancel writes the thread too
    if s.request r = .streaming ∨ s.request r = .finalize then some { s with thread := true } else none
  | .setGatePending => if s.request r = .streaming then some { s with gate := some ⟨Q.turn r, true⟩ } else none
  | .clearGatePending =>
    if s.request r = .streaming ∨ s.request r = .finalize then some { s with gate := none } else none
  | .leave =>
    if s.request r = .started ∨ s.request r = .streaming then some (s.setRequest r .finalize) else none
  | .release =>
    if s.request r = .finalize then some { s.setRequest r .ended with lock := releaseIf s.lock (Q.turn r) } else none
  | .fault =>
    match s.request r with
    | .started | .streaming => some (s.setRequest r .finalize)
    | .finalize => some (s.setRequest r .ended)
    | .ended | .refused => none
    | _ => some (s.setRequest r .refused)

/-- One step of a deletion. -/
def deleteStep (s : State ρ τ δ) (d : δ) : DeleteStep → Option (State ρ τ δ)
  | .getOwned =>
    if s.deletion d = .getOwned then some (s.setDeletion d (if s.active then .deleteThread else .failed)) else none
  | .deleteThread =>
    if s.deletion d = .deleteThread then some { s.setDeletion d .close with thread := false } else none
  | .close => if s.deletion d = .close then some { s.setDeletion d .returned with active := false } else none
  | .fault =>
    match s.deletion d with
    | .returned | .failed => none
    | _ => some (s.setDeletion d .failed)

def step (Q : Requests ρ τ) (s : State ρ τ δ) : Action ρ δ → Option (State ρ τ δ)
  | .request r e => requestStep Q s r e
  | .delete d e => deleteStep s d e
  | .lockLost => some { s with lock := none }

/-- A conversation that is not deleted yet, with any thread and gate, before its requests and deletions. -/
structure Initial (s : State ρ τ δ) : Prop where
  active : s.active = true
  request : ∀ r, s.request r = .getOwned
  deletion : ∀ d, s.deletion d = .getOwned

def conversation (Q : Requests ρ τ) : Machine (State ρ τ δ) (Action ρ δ) where
  init := Initial
  step := step Q

/-! ### The result -/

/-- Once a deletion has returned, no turn executes and the thread is deleted. -/
def StaysDeleted (s : State ρ τ δ) : Prop :=
  ∀ d, s.deletion d = .returned → s.thread = false ∧ ∀ r, ¬ s.Executing r

/-- The thread is deleted only when no turn executes, and a request takes the lock only of a conversation that is still
active, and not in between the deletion of its thread and the closing of its row. -/
def Safe (s : State ρ τ δ) : Action ρ δ → Prop
  | .delete _ .deleteThread => ∀ r, ¬ s.Executing r
  | .request _ .acquire => s.lock = none → s.active = true ∧ ∀ d, s.deletion d ≠ .close
  | _ => True

variable {Q : Requests ρ τ} {s s' : State ρ τ δ} {r r' : ρ} {d : δ} {p : RequestPc} {q : DeletePc}

@[simp] theorem setRequest_thread : (s.setRequest r p).thread = s.thread := rfl
@[simp] theorem setRequest_active : (s.setRequest r p).active = s.active := rfl
@[simp] theorem setRequest_deletion : (s.setRequest r p).deletion = s.deletion := rfl
@[simp] theorem setDeletion_thread : (s.setDeletion d q).thread = s.thread := rfl
@[simp] theorem setDeletion_active : (s.setDeletion d q).active = s.active := rfl
@[simp] theorem setDeletion_request : (s.setDeletion d q).request = s.request := rfl

theorem executing_setRequest (h : (s.setRequest r p).Executing r') : s.Executing r' ∨ (r' = r ∧ p.executing = true) := by
  by_cases hr : r' = r
  · subst hr
    simp only [State.Executing, State.setRequest, Function.update_self] at h
    exact .inr ⟨rfl, h⟩
  · simp only [State.Executing, State.setRequest, Function.update_of_ne hr] at h
    exact .inl h

/-- What a step of a request can do to the row, the thread and the executions. -/
structure Effect (s s' : State ρ τ δ) (r : ρ) (e : RequestStep) : Prop where
  active : s'.active = s.active
  deletion : s'.deletion = s.deletion
  thread : s'.thread = s.thread ∨ s.Executing r
  executing : ∀ r', s'.Executing r' → s.Executing r' ∨ (e = .acquire ∧ s.lock = none)

/-- The request moves on, without beginning to execute. -/
theorem Effect.setRequest {e : RequestStep} (hp : p.executing = true → s.Executing r) :
    Effect s (s.setRequest r p) r e := by
  refine ⟨rfl, rfl, .inl rfl, fun r' hx => .inl ?_⟩
  rcases executing_setRequest hx with hx | ⟨rfl, hpx⟩
  · exact hx
  · exact hp hpx

theorem Effect.away {e : RequestStep} (hp : p.executing = false) : Effect s (s.setRequest r p) r e :=
  .setRequest fun h => absurd h (by rw [hp]; decide)

theorem Effect.setKeys {e : RequestStep} (hE : Effect s s' r e) (gate : Option (Gate τ)) (lock : Option τ) :
    Effect s { s' with gate := gate, lock := lock } r e :=
  ⟨hE.active, hE.deletion, hE.thread, hE.executing⟩

theorem Effect.refl (s : State ρ τ δ) (r : ρ) (e : RequestStep) : Effect s s r e :=
  ⟨rfl, rfl, .inl rfl, fun _ hx => .inl hx⟩

theorem requestStep_effect {e : RequestStep} (h : requestStep Q s r e = some s') : Effect s s' r e := by
  cases e with
  | getOwned =>
    simp only [requestStep, Option.ite_none_right_eq_some, Option.some.injEq] at h
    obtain ⟨-, rfl⟩ := h
    refine .setRequest fun hp => ?_
    split at hp
    · cases hp
    · cases hp
  | getGatePending =>
    simp only [requestStep, Option.ite_none_right_eq_some] at h
    obtain ⟨-, h⟩ := h
    split at h
    · simp only [Option.some.injEq] at h
      subst h
      refine .setRequest fun hp => ?_
      split at hp
      · split at hp
        · cases hp
        · cases hp
      · cases hp
    · split at h
      · cases h
        exact .away rfl
      · simp only [Option.some.injEq] at h
        subst h
        split
        · exact .away rfl
        · have hE : Effect s (s.setRequest r .getInvite) r .getGatePending := .away rfl
          exact hE.setKeys none s.lock
  | getInvite pending =>
    simp only [requestStep, Option.ite_none_right_eq_some, Option.some.injEq] at h
    obtain ⟨-, rfl⟩ := h
    refine .setRequest fun hp => ?_
    cases pending with
    | true => cases hp
    | false => cases hp
  | submitGate =>
    simp only [requestStep, Option.ite_none_right_eq_some, Option.some.injEq] at h
    obtain ⟨-, rfl⟩ := h
    have hE : Effect s (s.setRequest r .claim) r .submitGate := .away rfl
    exact hE.setKeys (s.gate.map fun g => { g with pending := false }) s.lock
  | claim created =>
    simp only [requestStep, Option.ite_none_right_eq_some, Option.some.injEq] at h
    obtain ⟨-, rfl⟩ := h
    refine .setRequest fun hp => ?_
    cases created with
    | true => cases hp
    | false => cases hp
  | acquire =>
    simp only [requestStep, Option.ite_none_right_eq_some, Option.some.injEq] at h
    obtain ⟨-, rfl⟩ := h
    split
    case isTrue hl => exact ⟨rfl, rfl, .inl rfl, fun _ _ => .inr ⟨rfl, hl⟩⟩
    case isFalse => exact .away rfl
  | setRunning =>
    simp only [requestStep, Option.ite_none_right_eq_some, Option.some.injEq] at h
    obtain ⟨hpc, rfl⟩ := h
    exact .setRequest fun _ => by simp [State.Executing, hpc, RequestPc.executing]
  | checkpoint =>
    simp only [requestStep, Option.ite_none_right_eq_some, Option.some.injEq] at h
    obtain ⟨hpc, rfl⟩ := h
    have hx : s.Executing r := by
      rcases hpc with hpc | hpc
      · simp [State.Executing, hpc, RequestPc.executing]
      · simp [State.Executing, hpc, RequestPc.executing]
    exact ⟨rfl, rfl, .inr hx, fun _ h' => .inl h'⟩
  | setGatePending | clearGatePending =>
    simp only [requestStep, Option.ite_none_right_eq_some, Option.some.injEq] at h
    obtain ⟨-, rfl⟩ := h
    exact (Effect.refl s r _).setKeys _ s.lock
  | leave =>
    simp only [requestStep, Option.ite_none_right_eq_some, Option.some.injEq] at h
    obtain ⟨hpc, rfl⟩ := h
    refine .setRequest fun _ => ?_
    rcases hpc with hpc | hpc
    · simp [State.Executing, hpc, RequestPc.executing]
    · simp [State.Executing, hpc, RequestPc.executing]
  | release =>
    simp only [requestStep, Option.ite_none_right_eq_some, Option.some.injEq] at h
    obtain ⟨-, rfl⟩ := h
    have hE : Effect s (s.setRequest r .ended) r .release := .away rfl
    exact hE.setKeys s.gate _
  | fault =>
    simp only [requestStep] at h
    split at h
    case h_1 hpc | h_2 hpc =>
      cases h
      exact .setRequest fun _ => by simp [State.Executing, hpc, RequestPc.executing]
    case h_3 =>
      cases h
      exact .away rfl
    case h_4 | h_5 => cases h
    case h_6 =>
      cases h
      exact .away rfl

/-- From the deletion of the thread on there is no thread and nobody to write it; the row is closed at the end. -/
structure Inv (s : State ρ τ δ) : Prop where
  removed : ∀ d, s.deletion d = .close ∨ s.deletion d = .returned → s.thread = false ∧ ∀ r, ¬ s.Executing r
  closed : ∀ d, s.deletion d = .returned → s.active = false

theorem inv_request {e : RequestStep} (hI : Inv s) (hC : Safe (δ := δ) s (.request r e))
    (h : requestStep Q s r e = some s') : Inv s' := by
  have hE : Effect s s' r e := requestStep_effect h
  refine ⟨fun d hd => ?_, fun d hd => ?_⟩
  · rw [hE.deletion] at hd
    obtain ⟨hthread, hquiet⟩ := hI.removed d hd
    refine ⟨?_, fun r' hx => ?_⟩
    · rcases hE.thread with ht | hx
      · rw [ht, hthread]
      · exact absurd hx (hquiet r)
    · rcases hE.executing r' hx with hx | ⟨rfl, hl⟩
      · exact hquiet r' hx
      · -- the lock is taken after the thread was deleted
        obtain ⟨hactive, hclose⟩ := hC hl
        rcases hd with hd | hd
        · exact hclose d hd
        · rw [hI.closed d hd] at hactive
          cases hactive
  · rw [hE.deletion] at hd
    rw [hE.active]
    exact hI.closed d hd

/-- The deletion `d` moves on, and closes the row or deletes the thread on the way. -/
theorem Inv.setDeletion {active thread : Bool} (hI : Inv s)
    (hq : q = .close ∨ q = .returned → thread = false ∧ ∀ r, ¬ s.Executing r)
    (hthread : s.thread = false → thread = false)
    (hr : q = .returned → active = false) (hactive : s.active = false → active = false) :
    Inv { s.setDeletion d q with active := active, thread := thread } := by
  refine ⟨fun d' hd => ?_, fun d' hd => ?_⟩
  · by_cases hdd : d' = d
    · subst hdd
      simp only [State.setDeletion, Function.update_self] at hd
      exact hq hd
    · simp only [State.setDeletion, Function.update_of_ne hdd] at hd
      obtain ⟨ht, hquiet⟩ := hI.removed d' hd
      exact ⟨hthread ht, hquiet⟩
  · by_cases hdd : d' = d
    · subst hdd
      simp only [State.setDeletion, Function.update_self] at hd
      exact hr hd
    · simp only [State.setDeletion, Function.update_of_ne hdd] at hd
      exact hactive (hI.closed d' hd)

theorem inv_delete {e : DeleteStep} (hI : Inv s) (hC : Safe (ρ := ρ) s (.delete d e))
    (h : deleteStep s d e = some s') : Inv s' := by
  cases e with
  | getOwned =>
    simp only [deleteStep, Option.ite_none_right_eq_some, Option.some.injEq] at h
    obtain ⟨-, rfl⟩ := h
    have hq : (if s.active then DeletePc.deleteThread else .failed) ≠ .close ∧
        (if s.active then DeletePc.deleteThread else .failed) ≠ .returned := by
      split
      · exact ⟨nofun, nofun⟩
      · exact ⟨nofun, nofun⟩
    refine hI.setDeletion (fun hor => ?_) id (fun hr => absurd hr hq.2) id
    rcases hor with hc | hr
    · exact absurd hc hq.1
    · exact absurd hr hq.2
  | deleteThread =>
    simp only [deleteStep, Option.ite_none_right_eq_some, Option.some.injEq] at h
    obtain ⟨-, rfl⟩ := h
    exact hI.setDeletion (fun _ => ⟨rfl, hC⟩) (fun _ => rfl) nofun id
  | close =>
    simp only [deleteStep, Option.ite_none_right_eq_some, Option.some.injEq] at h
    obtain ⟨hpc, rfl⟩ := h
    exact hI.setDeletion (fun _ => hI.removed d (.inl hpc)) id (fun _ => rfl) fun _ => rfl
  | fault =>
    simp only [deleteStep] at h
    split at h
    case h_1 | h_2 => cases h
    case h_3 =>
      cases h
      exact hI.setDeletion (by simp) id nofun id

theorem inv_step {a : Action ρ δ} (hI : Inv s) (hC : Safe s a) (h : step Q s a = some s') : Inv s' := by
  cases a with
  | request r e => exact inv_request hI hC h
  | delete d e => exact inv_delete hI hC h
  | lockLost =>
    cases h
    exact ⟨hI.removed, hI.closed⟩

theorem inv_reach (h : (conversation Q).Reach Safe s) : Inv s := by
  refine h.induct (fun s h₀ => ?_) fun _ _ _ hI hC ht => inv_step hI hC ht
  refine ⟨fun d hd => ?_, fun d hd => ?_⟩
  · rw [h₀.deletion d] at hd
    rcases hd with hd | hd
    · cases hd
    · cases hd
  · rw [h₀.deletion d] at hd
    cases hd

/-- In every run that meets the condition, a deleted conversation stays deleted. -/
theorem staysDeleted_of_safe (h : (conversation Q).Reach Safe s) : StaysDeleted s :=
  fun d hd => (inv_reach h).removed d (.inr hd)

/-- A conversation whose deletion has returned answers no request that comes after it. -/
theorem refused_of_returned (h : (conversation Q).Reach Safe s) (hd : s.deletion d = .returned)
    (hs : requestStep Q s r .getOwned = some s') : s'.request r = .refused := by
  have hactive : s.active = false := (inv_reach h).closed d hd
  simp only [requestStep, hactive, Option.ite_none_right_eq_some, Option.some.injEq] at hs
  obtain ⟨-, rfl⟩ := hs
  simp [State.setRequest]

instance (s : State ρ τ δ) (r : ρ) : Decidable (s.Executing r) :=
  inferInstanceAs (Decidable (_ = true))

instance [Fintype ρ] [Fintype δ] (s : State ρ τ δ) (a : Action ρ δ) : Decidable (Safe s a) :=
  match a with
  | .delete _ .deleteThread => inferInstanceAs (Decidable (∀ r, ¬ s.Executing r))
  | .request _ .acquire =>
    inferInstanceAs (Decidable (s.lock = none → s.active = true ∧ ∀ d, s.deletion d ≠ .close))
  | .delete _ .getOwned | .delete _ .close | .delete _ .fault | .lockLost => isTrue trivial
  | .request _ .getOwned | .request _ .getGatePending | .request _ (.getInvite _) | .request _ .submitGate
  | .request _ (.claim _) | .request _ .setRunning | .request _ .checkpoint | .request _ .setGatePending
  | .request _ .clearGatePending | .request _ .leave | .request _ .release | .request _ .fault => isTrue trivial

end Model

section Runs

local instance neZero_one : NeZero 1 := ⟨Nat.succ_ne_zero 0⟩

local instance neZero_two : NeZero 2 := ⟨Nat.succ_ne_zero 1⟩

/-- A message, and the resume of the gate that its turn raises. -/
def oneTurn : Requests (Fin 2) ℕ where
  turn _ := 0
  resumes r := r = 1
  submits _ := true

def opened : State (Fin 2) ℕ (Fin 1) where
  active := true
  thread := false
  gate := none
  lock := none
  request _ := .getOwned
  deletion _ := .getOwned

theorem opened_initial : Initial opened := ⟨rfl, fun _ => rfl, fun _ => rfl⟩

/-- The message gets to the lock. -/
def prepare : List (Action (Fin 2) (Fin 1)) :=
  [.request 0 .getOwned, .request 0 .getGatePending, .request 0 (.getInvite false), .request 0 (.claim true)]

/-- The deletion runs from its beginning to its end. -/
def delete : List (Action (Fin 2) (Fin 1)) :=
  [.delete 0 .getOwned, .delete 0 .deleteThread, .delete 0 .close]

/-- A turn suspends at its gate, the conversation is deleted, and the resume is refused. -/
theorem staysDeleted_after_gate :
    ∃ s : State (Fin 2) ℕ (Fin 1), (conversation oneTurn).Reach Safe s ∧ s.request 1 = .refused ∧
      s.thread = false ∧ ∀ r, ¬ s.Executing r := by
  obtain ⟨s, -, hr, hp⟩ := Machine.reach_of_exec (M := conversation oneTurn) (C := Safe) (s := opened)
    (p := fun s => decide (s.request 1 = .refused ∧ s.deletion 0 = .returned))
    (prepare ++ [.request 0 .acquire, .request 0 .setRunning, .request 0 .checkpoint, .request 0 .setGatePending,
      .request 0 .leave, .request 0 .release] ++ delete ++ [.request 1 .getOwned]) opened_initial (by decide)
  obtain ⟨hpc, hd⟩ := of_decide_eq_true hp
  exact ⟨s, hr, hpc, staysDeleted_of_safe hr 0 hd⟩

/-- The message has passed the check of the status, the conversation is deleted, and the turn begins and writes the
thread. -/
theorem not_staysDeleted :
    ¬ ∀ s : State (Fin 2) ℕ (Fin 1), (conversation oneTurn).Reach Free s → StaysDeleted s := by
  intro hall
  obtain ⟨s, -, hr, hp⟩ := Machine.reach_of_exec (M := conversation oneTurn) (C := Free) (s := opened)
    (p := fun s => decide (s.deletion 0 = .returned ∧ s.thread = true ∧ s.Executing 0))
    (prepare ++ delete ++ [.request 0 .acquire, .request 0 .setRunning, .request 0 .checkpoint])
    opened_initial (by decide)
  obtain ⟨hd, -, hx⟩ := of_decide_eq_true hp
  exact (hall s hr 0 hd).2 0 hx

end Runs

end NexusStudio.ConversationDelete
