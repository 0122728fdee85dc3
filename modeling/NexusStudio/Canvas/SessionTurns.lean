import Mathlib
import NexusStudio.Lib.Exclusion

/-!
# Turns and deletions of the sessions of one canvas episode

* (request) `start_turn` and `resume_turn`: check the fence, check the session, take the session lock, register the
  turn in the worker's `_active_turns`, run, release. A resume brings its own turn id, which may be an old one.
* (deletion) `delete_session` and `delete_episode`: take the fence, cancel the turns and wait for them, close the
  sessions and delete their checkpoints.

Every command on the store is one step, and so is every piece of code between two of them that reads or writes what a
worker shares.
-/

set_option linter.unusedSectionVars false

namespace NexusStudio.SessionTurns

open Concurrent

/-- What a deletion is for. -/
inductive Target (σ : Type*)
  | session (s : σ)
  | episode

/-- The parties of one episode: the session, turn id and worker of each request, the worker and target of each
deletion, the sessions of the episode. -/
structure Episode (σ τ π ρ δ : Type*) where
  session : ρ → σ
  turn : ρ → τ
  worker : ρ → π
  deleterWorker : δ → π
  target : δ → Target σ
  sessions : List σ

/-- Where a request is; it executes from `locked` to `released`. -/
inductive Phase
  | idle
  | checked
  | owned
  -- the lock is taken, the turn is not registered yet
  | locked
  | running
  -- the lock is released, the turn is not unregistered yet
  | released
  | over
  deriving DecidableEq, Repr

/-- Where a deletion is in `_cancel_session_turn` of one session. -/
inductive CancelPc (τ ρ : Type*)
  | readActive
  | waitRead
  -- waits for the `completed_event` of a turn of its own worker
  | waitLocal (r : ρ)
  -- polls until the lock no longer stores the turn
  | waitRemote (t : τ)
  | forceGet
  | forceDel (t : τ)
  | forcePop (t : τ)

/-- Where a deletion is. -/
inductive DeleterPc (τ ρ : Type*)
  | away
  | holding
  | cancel (c : CancelPc τ ρ)
  | closeAll
  | purge
  | softClose
  | release

/-- A deletion with the sessions it has cancelled, has to cancel, and has to purge. -/
structure Deleter (σ τ ρ : Type*) where
  pc : DeleterPc τ ρ
  done : List σ
  todo : List σ
  purge : List σ

/-- The store, the session rows, the registries of the workers and every party. -/
structure State (σ τ π ρ δ : Type*) where
  mutex : Option δ
  active : σ → Bool
  deleted : σ → Bool
  lock : σ → Option τ
  activeTurns : π → σ → Option ρ
  completed : ρ → Bool
  phase : ρ → Phase
  deleter : δ → Deleter σ τ ρ

inductive RequestStep
  | assertWritable
  | requireOwned
  -- the claim, the cursor or the input is rejected
  | reject
  | acquire
  | register
  | release
  | unregister
  -- the worker dies, or a command of the release fails
  | crash
  deriving DecidableEq, Repr

inductive DeleterStep
  | acquire
  | start
  | readActive
  | waitRead
  | waitDone
  | timeout
  | forceGet
  | forceDel
  | forcePop
  | cancelled
  | closeAll
  | purge
  | softClose
  | raised
  | release
  deriving DecidableEq, Repr

inductive Action (ρ δ : Type*)
  | request (r : ρ) (e : RequestStep)
  | delete (d : δ) (e : DeleterStep)
  deriving DecidableEq

section Model

variable {σ τ π ρ δ : Type*} [DecidableEq σ] [DecidableEq τ] [DecidableEq π] [DecidableEq ρ] [DecidableEq δ]

namespace State

def setPhase (s : State σ τ π ρ δ) (r : ρ) (p : Phase) : State σ τ π ρ δ :=
  { s with phase := Function.update s.phase r p }

def setLock (s : State σ τ π ρ δ) (x : σ) (t : Option τ) : State σ τ π ρ δ :=
  { s with lock := Function.update s.lock x t }

def setDeleter (s : State σ τ π ρ δ) (d : δ) (q : Deleter σ τ ρ) : State σ τ π ρ δ :=
  { s with deleter := Function.update s.deleter d q }

/-- Worker `w` registers the turn of `r` for the session `x`. -/
def register (s : State σ τ π ρ δ) (w : π) (x : σ) (r : ρ) : State σ τ π ρ δ :=
  { s with activeTurns := Function.update s.activeTurns w (Function.update (s.activeTurns w) x (some r)) }

/-- Worker `w` unregisters its turn of the session `x` if it has the id `t`, and completes it. -/
def unregister (E : Episode σ τ π ρ δ) (s : State σ τ π ρ δ) (w : π) (x : σ) (t : τ) : State σ τ π ρ δ :=
  match s.activeTurns w x with
  | some r =>
    if E.turn r = t then
      { s with activeTurns := Function.update s.activeTurns w (Function.update (s.activeTurns w) x none)
               completed := Function.update s.completed r true }
    else s
  | none => s

end State

/-- One step of `start_turn` or `resume_turn` and of the execution it starts. -/
def requestStep (E : Episode σ τ π ρ δ) (s : State σ τ π ρ δ) (r : ρ) : RequestStep → Option (State σ τ π ρ δ)
  | .assertWritable =>
    if s.phase r = .idle then some (s.setPhase r (if s.mutex = none then .checked else .over)) else none
  | .requireOwned =>
    if s.phase r = .checked then some (s.setPhase r (if s.active (E.session r) then .owned else .over)) else none
  | .reject => if s.phase r = .owned then some (s.setPhase r .over) else none
  | .acquire =>
    if s.phase r = .owned then
      -- the fence and the session are not looked at again
      if s.lock (E.session r) = none then some ((s.setLock (E.session r) (some (E.turn r))).setPhase r .locked)
      else some (s.setPhase r .over)
    else none
  | .register =>
    if s.phase r = .locked then some ((s.register (E.worker r) (E.session r) r).setPhase r .running) else none
  | .release =>
    if s.phase r = .running then
      some ((s.setLock (E.session r) (releaseIf (s.lock (E.session r)) (E.turn r))).setPhase r .released)
    else none
  | .unregister =>
    if s.phase r = .released then some ((s.unregister E (E.worker r) (E.session r) (E.turn r)).setPhase r .over)
    else none
  | .crash =>
    if s.phase r = .locked ∨ s.phase r = .running ∨ s.phase r = .released then some (s.setPhase r .over) else none

/-- The turn of the first session is cancelled, or there was none. -/
def Deleter.next (q : Deleter σ τ ρ) : Deleter σ τ ρ :=
  { q with pc := .cancel .readActive, done := q.todo.head?.toList ++ q.done, todo := q.todo.tail }

/-- One step of `_cancel_session_turn` for the session `x` by the deletion `d`. -/
def cancelStep (E : Episode σ τ π ρ δ) (s : State σ τ π ρ δ) (d : δ) (x : σ) (c : CancelPc τ ρ) :
    DeleterStep → Option (State σ τ π ρ δ)
  | .readActive =>
    match c with
    | .readActive =>
      match s.lock x with
      | none => some (s.setDeleter d (s.deleter d).next)
      | some _ => some (s.setDeleter d { s.deleter d with pc := .cancel .waitRead })
    | _ => none
  | .waitRead =>
    match c with
    | .waitRead =>
      match s.lock x with
      | none => some (s.setDeleter d (s.deleter d).next)
      | some t =>
        match s.activeTurns (E.deleterWorker d) x with
        | some r =>
          some (s.setDeleter d { s.deleter d with
            pc := .cancel (if E.turn r = t then .waitLocal r else .waitRemote t) })
        | none => some (s.setDeleter d { s.deleter d with pc := .cancel (.waitRemote t) })
    | _ => none
  | .waitDone =>
    match c with
    | .waitLocal r => if s.completed r then some (s.setDeleter d (s.deleter d).next) else none
    | .waitRemote t => if s.lock x ≠ some t then some (s.setDeleter d (s.deleter d).next) else none
    | _ => none
  | .timeout =>
    match c with
    | .waitLocal _ | .waitRemote _ => some (s.setDeleter d { s.deleter d with pc := .cancel .forceGet })
    | _ => none
  | .forceGet =>
    match c with
    | .forceGet =>
      match s.lock x with
      | none => some (s.setDeleter d { s.deleter d with pc := .release })
      | some t => some (s.setDeleter d { s.deleter d with pc := .cancel (.forceDel t) })
    | _ => none
  | .forceDel =>
    match c with
    | .forceDel t => some ((s.setLock x none).setDeleter d { s.deleter d with pc := .cancel (.forcePop t) })
    | _ => none
  | .forcePop =>
    match c with
    | .forcePop t =>
      some ((s.unregister E (E.deleterWorker d) x t).setDeleter d { s.deleter d with pc := .release })
    | _ => none
  | _ => none

/-- One step of `delete_session` or `delete_episode`. -/
def deleterStep (E : Episode σ τ π ρ δ) (s : State σ τ π ρ δ) (d : δ) (e : DeleterStep) :
    Option (State σ τ π ρ δ) :=
  let q := s.deleter d
  match e, q.pc with
  | .acquire, .away =>
    if s.mutex = none then some { s.setDeleter d { q with pc := .holding } with mutex := some d } else some s
  | .start, .holding =>
    match E.target d with
    | .session x =>
      if s.active x then some (s.setDeleter d { q with pc := .cancel .readActive, todo := [x] })
      else some (s.setDeleter d { q with pc := .release })
    | .episode => some (s.setDeleter d { q with pc := .cancel .readActive, todo := E.sessions.filter s.active })
  | .cancelled, .cancel .readActive =>
    match q.todo, E.target d with
    | [], .session x => some (s.setDeleter d { q with pc := .purge, purge := [x] })
    | [], .episode => some (s.setDeleter d { q with pc := .closeAll })
    | _ :: _, _ => none
  | .closeAll, .closeAll =>
    match E.target d with
    | .episode =>
      some { s.setDeleter d { q with pc := .purge, purge := E.sessions } with
        active := fun x => s.active x && x ∉ E.sessions }
    | .session _ => none
  | .purge, .purge =>
    match q.purge, E.target d with
    | x :: rest, _ => some { s.setDeleter d { q with purge := rest } with deleted := Function.update s.deleted x true }
    | [], .session _ => some (s.setDeleter d { q with pc := .softClose })
    | [], .episode => some (s.setDeleter d { q with pc := .release })
  | .softClose, .softClose =>
    match E.target d with
    | .session x =>
      some { s.setDeleter d { q with pc := .release } with active := Function.update s.active x false }
    | .episode => none
  | .release, .release =>
    some { s.setDeleter d ⟨.away, [], [], []⟩ with mutex := releaseIf s.mutex d }
  | .raised, .away => none
  | .raised, .release => none
  | .raised, _ => some (s.setDeleter d { q with pc := .release })
  | e, .cancel c =>
    match q.todo with
    | x :: _ => cancelStep E s d x c e
    | [] => none
  | _, _ => none

/-- One step of one party. -/
def step (E : Episode σ τ π ρ δ) (s : State σ τ π ρ δ) : Action ρ δ → Option (State σ τ π ρ δ)
  | .request r e => requestStep E s r e
  | .delete d e => deleterStep E s d e

/-- Nobody has come yet; some sessions may have been closed before. -/
def fresh (active : σ → Bool) : State σ τ π ρ δ where
  mutex := none
  active := active
  deleted _ := false
  lock _ := none
  activeTurns _ _ := none
  completed _ := false
  phase _ := .idle
  deleter _ := ⟨.away, [], [], []⟩

/-- The sessions of one episode with all their requests and deletions. -/
def episode (E : Episode σ τ π ρ δ) : Machine (State σ τ π ρ δ) (Action ρ δ) where
  init s := ∃ active, s = fresh active
  step := step E

/-- The request has the lock and its turn is not over. -/
def State.Executing (s : State σ τ π ρ δ) (r : ρ) : Prop :=
  s.phase r = .locked ∨ s.phase r = .running

end Model

end NexusStudio.SessionTurns
