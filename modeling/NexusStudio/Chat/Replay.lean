import NexusStudio.Lib.Handler
import NexusStudio.Server.Errors
import Mathlib.Logic.Function.Basic

/-!
# The replay store: claims of request ids

A request id is claimed once: the first request creates the metadata and executes, a repeated one replays the stream.

* (cursor) `validateReplayCursor` reads the header `Last-Event-ID`.
* (claim) `claim` with its Lua script, `discardStarting` for a request that fails before its execution starts.
-/

namespace NexusStudio.Replay

open Handlers

/-- `ReplayRequestKind`. -/
inductive RequestKind
  | turn
  | resume
  deriving DecidableEq, Repr

/-- `ReplayStatus`. -/
inductive Status
  | starting
  | running
  | interrupted
  | completed
  | failed
  | cancelled
  deriving DecidableEq, Repr

/-- `_CLOSED_STATUSES`. -/
def Status.closed : Status → Bool
  | starting | running => false
  | interrupted | completed | failed | cancelled => true

/-! ### Cursors -/

/-- An event id `major-minor` of the stream. -/
structure EventId where
  major : Nat
  minor : Nat
  deriving DecidableEq, Repr

/-- The comparison of `_event_id_tuple`s. -/
def EventId.ahead (a b : EventId) : Bool :=
  b.major < a.major || (a.major == b.major && b.minor < a.minor)

/-- A decimal number without leading zeros, as `_EVENT_ID_RE` has it. -/
def decimal : List Char → Option Nat
  | [] => none
  | ['0'] => some 0
  | c :: l =>
    if ('1' ≤ c && c ≤ '9') && l.all fun d => '0' ≤ d && d ≤ '9' then
      some ((c :: l).foldl (fun n d => 10 * n + (d.toNat - '0'.toNat)) 0)
    else none

def parseEventId (s : String) : Option EventId :=
  match s.toList.span (· ≠ '-') with
  | (a, '-' :: b) => do return { major := ← decimal a, minor := ← decimal b }
  | _ => none

section

variable {δ : Type}

/-- `validate_event_id`. -/
def validateEventId (value : Option String) : Except (Failure δ) EventId :=
  let resolved := strip (value.getD "")
  if resolved = "" then .ok ⟨0, 0⟩
  else match parseEventId resolved with
    | some i => .ok i
    | none => .error (.app .invalidParams "invalid Last-Event-ID" none)

/-- The entries of `ReplayMeta` that the modelled endpoints read or write. -/
structure ReplayMeta where
  requestId : String
  userId : Nat
  sessionId : Nat
  turnId : String
  kind : RequestKind
  fingerprint : String
  status : Status
  lastEventId : Option EventId
  deriving DecidableEq, Repr

/-- The check of `validate_replay_cursor`; the cursor it returns is read again by nobody here. -/
def validateReplayCursor (m : ReplayMeta) (value : Option String) : Except (Failure δ) Unit := do
  let cursor ← validateEventId value
  if cursor ≠ ⟨0, 0⟩ ∧ m.lastEventId.all fun last => cursor.ahead last then
    throw (.app .invalidParams "Last-Event-ID is ahead of the stream" none)

/-- A stream that has no event yet accepts no cursor but the start. -/
theorem validateReplayCursor_fresh {m : ReplayMeta} (h : m.lastEventId = none) (value : Option String) :
    validateReplayCursor (δ := δ) m value = .ok () ↔ validateEventId (δ := δ) value = .ok ⟨0, 0⟩ := by
  rw [validateReplayCursor]
  rcases hv : validateEventId (δ := δ) value with e | c
  · simp [bind, Except.bind]
  · by_cases hc : c = ⟨0, 0⟩ <;>
      simp [h, hc, bind, Except.bind, pure, Except.pure, throw, throwThe, MonadExceptOf.throw]

/-! ### Claims -/

/-- The metadata of each request id, and whether its event stream exists. -/
structure ReplayKeys where
  metas : String → Option ReplayMeta
  events : String → Bool

/-- Deletes the keys of a request id. -/
def ReplayKeys.delete (k : ReplayKeys) (requestId : String) : ReplayKeys where
  metas := Function.update k.metas requestId none
  events := Function.update k.events requestId false

structure ReplayClaim where
  claimed : ReplayMeta
  created : Bool

/-- `_CLAIM_SCRIPT`: the metadata `m` is stored where the request id has none. -/
def claimScript (m : ReplayMeta) (k : ReplayKeys) : Bool × ReplayKeys :=
  if (k.metas m.requestId).isSome then (false, k)
  else (true, {
    metas := Function.update k.metas m.requestId (some m)
    events := Function.update k.events m.requestId false })

def requireMeta (requestId : String) : Handler ReplayKeys (Failure δ) ReplayMeta := do
  match (← get).metas requestId with
  | some m => return m
  | none => throw (.app .resourceNotFound "stream request not found" none)

def ensureReplayAvailable (m : ReplayMeta) : Handler ReplayKeys (Failure δ) Unit := do
  let k ← get
  if m.lastEventId ≠ none ∧ m.status.closed ∧ ¬ k.events m.requestId then
    throw (.app .streamReplayExpired "stream replay has expired" none)
  else return

/-- What `claim` checks when the request id was taken before. -/
def checkTaken (r m : ReplayMeta) : Handler ReplayKeys (Failure δ) Unit :=
  if m.userId ≠ r.userId ∨ m.sessionId ≠ r.sessionId ∨ m.kind ≠ r.kind ∨ m.fingerprint ≠ r.fingerprint then
    throw (.app .streamRequestConflict "requestId is already used by another request" none)
  else ensureReplayAvailable m

/-- `ReplayStore.claim` for the metadata of a new request. -/
def claim (r : ReplayMeta) : Handler ReplayKeys (Failure δ) ReplayClaim := do
  let created ← modifyGet (claimScript r)
  let m ← requireMeta r.requestId
  if created then return { claimed := m, created }
  else
    checkTaken r m
    return { claimed := m, created }

/-- `discard_starting`: deletes a claim that has no event yet. -/
def discardStarting (requestId : String) : Handler ReplayKeys (Failure δ) Unit := do
  match (← get).metas requestId with
  | none => return
  | some m =>
    if m.status ≠ .starting ∨ m.lastEventId ≠ none then return
    else modify fun k => k.delete requestId

/-! ### What a claim does -/

theorem exec_claim_fresh {r : ReplayMeta} {k : ReplayKeys} (h : k.metas r.requestId = none) :
    exec (claim (δ := δ) r) k = (.ok { claimed := r, created := true }, (claimScript r k).2) := by
  have hs : claimScript r k = (true, (claimScript r k).2) := by
    simp only [claimScript, h, Option.isSome_none, Bool.false_eq_true, if_false]
  have hm : (claimScript r k).2.metas r.requestId = some r := by
    simp [claimScript, h]
  have hc : exec (modifyGet (claimScript r) : Handler ReplayKeys (Failure δ) Bool) k =
      (.ok true, (claimScript r k).2) := congrArg (fun x => (Except.ok x.1, x.2)) hs
  have hr : exec (requireMeta (δ := δ) r.requestId) (claimScript r k).2 = (.ok r, (claimScript r k).2) := by
    rw [requireMeta, exec_bind_ok _ exec_get, hm, exec_pure]
  rw [claim, exec_bind_ok _ hc, exec_bind_ok _ hr]
  rfl

theorem keeps_checkTaken (r m : ReplayMeta) : Keeps id (checkTaken (δ := δ) r m) :=
  .ite (keeps_throw _) (keeps_get.bind fun _ => .ite (keeps_throw _) (keeps_pure _))

/-- A request id that is taken is neither claimed again nor changed. -/
theorem exec_claim_taken {r m : ReplayMeta} {k : ReplayKeys} (h : k.metas r.requestId = some m) :
    ∃ c, exec (claim (δ := δ) r) k = (c, k) ∧ ∀ c', c = .ok c' → c'.created = false := by
  have hs : claimScript r k = (false, k) := by
    simp only [claimScript, h, Option.isSome_some, if_true]
  have hc : exec (modifyGet (claimScript r) : Handler ReplayKeys (Failure δ) Bool) k = (.ok false, k) :=
    congrArg (fun x => (Except.ok x.1, x.2)) hs
  have hr : exec (requireMeta (δ := δ) r.requestId) k = (.ok m, k) := by
    rw [requireMeta, exec_bind_ok _ exec_get, h, exec_pure]
  have hk := keeps_checkTaken (δ := δ) r m k
  rw [claim, exec_bind_ok _ hc, exec_bind_ok _ hr, if_neg Bool.false_ne_true]
  rcases ht : exec (checkTaken (δ := δ) r m) k with ⟨e | u, k'⟩
  · rw [ht] at hk
    exact ⟨_, by rw [exec_bind_error _ ht]; exact congrArg _ hk, fun c' hc' => by cases hc'⟩
  · rw [ht] at hk
    refine ⟨_, by rw [exec_bind_ok _ ht, exec_pure]; exact congrArg _ hk, ?_⟩
    rintro c' ⟨⟩
    rfl

/-- Discarding a fresh claim frees its request id again and changes no other. -/
theorem exec_discardStarting_fresh {r : ReplayMeta} {k : ReplayKeys} (h : k.metas r.requestId = none)
    (hs : r.status = .starting) (hl : r.lastEventId = none) :
    exec (discardStarting (δ := δ) r.requestId) (claimScript r k).2 =
        (.ok (), (claimScript r k).2.delete r.requestId) ∧
      ((claimScript r k).2.delete r.requestId).metas = k.metas := by
  have hm : (claimScript r k).2.metas = Function.update k.metas r.requestId (some r) := by
    simp [claimScript, h]
  constructor
  · rw [discardStarting, exec_bind_ok _ exec_get, hm, Function.update_self]
    simp only [hs, hl, ne_eq, not_true_eq_false, or_self, if_false, exec_modify]
  · rw [ReplayKeys.delete, hm, Function.update_idem, ← h, Function.update_eq_self]

end

end NexusStudio.Replay
