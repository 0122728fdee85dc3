import NexusStudio.Streaming.Publisher

/-!
# The keys of a replay request

The hash, the stream and the lease of one request id, with the Lua scripts of `ReplayStore` as functions on them.

* (ids) `XADD` with `*` takes an id after every id of the stream, whatever the clock says.
* (scripts) `claim`, `setRunning`, `append`, `finish`, `refreshLease` and `markLost`, each with what it returns.
* (effects) Every script leaves hash and stream, creates them, changes the status of an open log, or appends to it.
-/

namespace NexusStudio.ReplayStore

open Replay (Status EventId ReplayMeta)
open Streaming (StreamFrame Settings)

/-! ### Keys -/

structure Entry where
  id : EventId
  frame : StreamFrame
  deriving DecidableEq, Repr

/-- The hash of a request id. -/
structure StoredMeta extends ReplayMeta where
  bytesWritten : Nat
  createdAt : Nat
  finishedAt : Option Nat
  deriving DecidableEq, Repr

structure Keys where
  hash : Option StoredMeta
  events : List Entry
  lease : Option String
  -- the turn lock of the request's session
  executionLock : Option String
  deriving DecidableEq, Repr

namespace StoredMeta

/-- What `claim` stores for a new request. -/
def starting (requestId : String) (userId sessionId : Nat) (turnId : String) (kind : Replay.RequestKind)
    (fingerprint : String) (createdAt : Nat) : StoredMeta :=
  ⟨⟨requestId, userId, sessionId, turnId, kind, fingerprint, .starting, none⟩, 0, createdAt, none⟩

def appended (m : StoredMeta) (id : EventId) (size : Nat) : StoredMeta :=
  { m with lastEventId := some id, bytesWritten := m.bytesWritten + size }

def finished (m : StoredMeta) (t : Status) (now : Nat) : StoredMeta := { m with status := t, finishedAt := some now }

/-- The fields that are written by `claim` alone, as it wrote them. -/
def claimed (m : StoredMeta) : StoredMeta :=
  starting m.requestId m.userId m.sessionId m.turnId m.kind m.fingerprint m.createdAt

end StoredMeta

/-- The last id of a stream, or its start. -/
def lastId (events : List Entry) : EventId := (events.getLast?.map Entry.id).getD ⟨0, 0⟩

/-- The id that a stream gives its next entry when the clock is at `ms`. -/
def nextId (ms : Nat) (events : List Entry) : EventId :=
  let last := lastId events
  if last.major < ms then ⟨ms, 0⟩ else ⟨last.major, last.minor + 1⟩

/-! ### Scripts -/

inductive AppendReply
  | missing
  | closed
  | limit
  | ok (id : EventId)
  deriving DecidableEq, Repr

/-- The frame of `mark_execution_lost`. -/
def lostFrame : StreamFrame := .turn (.error .executionLost "Agent execution was lost")

namespace Keys

/-- `_CLAIM_SCRIPT`. -/
def claim (m : StoredMeta) (k : Keys) : Bool × Keys :=
  if k.hash.isSome then (false, k) else (true, { k with hash := some m, events := [], lease := none })

/-- `_SET_RUNNING_SCRIPT`. -/
def setRunning (owner : String) (k : Keys) : Bool × Keys :=
  match k.hash with
  | none => (false, k)
  | some m =>
    if m.status ≠ .starting then (false, k)
    else if k.lease.isSome then (false, k)
    else (true, { k with hash := some { m with status := .running }, lease := some owner })

/-- `_APPEND_SCRIPT`. -/
def append (c : Settings) (ms now : Nat) (f : StreamFrame) (force : Bool) (closeStatus : Option Status) (k : Keys) :
    AppendReply × Keys :=
  match k.hash with
  | none => (.missing, k)
  | some m =>
    if m.status.closed then (.closed, k)
    else if !force ∧ c.maxBytes < m.bytesWritten + c.size f then (.limit, k)
    else
      let id := nextId ms k.events
      let m := m.appended id (c.size f)
      let events := k.events ++ [⟨id, f⟩]
      match closeStatus with
      | none => (.ok id, { k with hash := some m, events })
      | some t => (.ok id, { k with hash := some (m.finished t now), events, lease := none })

/-- `_FINISH_SCRIPT`. -/
def finish (t : Status) (now : Nat) (k : Keys) : Keys :=
  { k with
    hash := k.hash.map fun m => if m.status.closed then m else m.finished t now
    lease := none }

/-- `_REFRESH_LEASE_SCRIPT`, which changes an expiry at most. -/
def refreshLease (owner : String) (k : Keys) : Bool × Keys := (k.lease = some owner, k)

/-- `_MARK_LOST_SCRIPT`. -/
def markLost (c : Settings) (ms now : Nat) (lockOwner : Option String) (k : Keys) : Bool × Keys :=
  match k.hash with
  | none => (false, k)
  | some m =>
    if m.status.closed then (false, k)
    else if k.lease.isSome then (false, k)
    else
      let id := nextId ms k.events
      (true, { k with
        hash := some ((m.appended id (c.size lostFrame)).finished .failed now)
        events := k.events ++ [⟨id, lostFrame⟩]
        executionLock := if k.executionLock = lockOwner then none else k.executionLock })

/-- The log of the request is closed. -/
def Closed (k : Keys) : Prop := ∃ m ∈ k.hash, m.status.closed = true

instance (k : Keys) : Decidable k.Closed := inferInstanceAs (Decidable (∃ m ∈ k.hash, _))

end Keys

/-! ### Ids -/

theorem lastId_concat (l : List Entry) (e : Entry) : lastId (l ++ [e]) = e.id := by
  rw [lastId, List.getLast?_append]
  rfl

/-- A new id is ahead of the last one, or of the start. -/
theorem nextId_ahead (ms : Nat) (events : List Entry) : (nextId ms events).ahead (lastId events) = true := by
  unfold nextId
  dsimp only
  split
  case isTrue h => simp [EventId.ahead, h]
  case isFalse => simp [EventId.ahead]

theorem ahead_trans {a b d : EventId} (h : a.ahead b = true) (h' : b.ahead d = true) : a.ahead d = true := by
  simp only [EventId.ahead, Bool.or_eq_true, decide_eq_true_eq, Bool.and_eq_true, beq_iff_eq] at *
  omega

theorem ahead_irrefl (a : EventId) : a.ahead a = false := by
  simp [EventId.ahead]

/-- The ids of a stream increase. -/
def Increasing (events : List Entry) : Prop := events.Pairwise fun a b => b.id.ahead a.id = true

theorem increasing_append {events : List Entry} (h : Increasing events) (ms : Nat) (f : StreamFrame) :
    Increasing (events ++ [⟨nextId ms events, f⟩]) := by
  refine List.pairwise_append.2 ⟨h, List.pairwise_singleton _ _, fun a ha b hb => ?_⟩
  obtain rfl := List.mem_singleton.1 hb
  have hnext := nextId_ahead ms events
  rcases List.eq_nil_or_concat' events with rfl | ⟨l, last, rfl⟩
  · cases ha
  · rw [lastId_concat] at hnext
    rcases List.mem_append.1 ha with hl | hl
    · exact ahead_trans hnext ((List.pairwise_append.1 h).2.2 a hl last (List.mem_singleton_self last))
    · rw [List.mem_singleton.1 hl]
      exact hnext

theorem nextId_positive {events : List Entry} (h : ∀ e ∈ events, e.id.ahead ⟨0, 0⟩ = true) (ms : Nat) :
    (nextId ms events).ahead ⟨0, 0⟩ = true := by
  have hnext := nextId_ahead ms events
  rcases List.eq_nil_or_concat' events with rfl | ⟨l, e, rfl⟩
  · exact hnext
  · rw [lastId_concat] at hnext
    exact ahead_trans hnext (h e (List.mem_append_right l (List.mem_singleton_self e)))

/-! ### Effects -/

/-- What a script may do to hash and stream. -/
inductive Effect (k k' : Keys) : Prop
  | same (hash : k'.hash = k.hash) (events : k'.events = k.events)
  | created (m : StoredMeta) (before : k.hash = none) (hash : k'.hash = some m.claimed) (events : k'.events = [])
  | status (m m' : StoredMeta) (before : k.hash = some m) (open' : m.status.closed = false) (hash : k'.hash = some m')
      (claimed : m'.claimed = m.claimed) (last : m'.lastEventId = m.lastEventId) (events : k'.events = k.events)
  | pushed (m m' : StoredMeta) (ms : Nat) (f : StreamFrame) (before : k.hash = some m)
      (open' : m.status.closed = false) (hash : k'.hash = some m') (claimed : m'.claimed = m.claimed)
      (last : m'.lastEventId = some (nextId ms k.events)) (events : k'.events = k.events ++ [⟨nextId ms k.events, f⟩])
      (ends : f.closes = true → m'.status.closed = true)

section Effects

variable {k : Keys} {c : Settings} {m : StoredMeta} {ms now : Nat} {f : StreamFrame} {t : Status}

theorem effect_claim : Effect k (k.claim m.claimed).2 := by
  unfold Keys.claim
  split
  case isTrue => exact .same rfl rfl
  case isFalse h => exact .created m (Option.not_isSome_iff_eq_none.1 h) rfl rfl

theorem closed_of_starting (h : m.status = .starting) : m.status.closed = false := by
  rw [h]
  rfl

theorem effect_setRunning (owner : String) : Effect k (k.setRunning owner).2 := by
  unfold Keys.setRunning
  cases hk : k.hash with
  | none => exact .same rfl rfl
  | some m =>
    dsimp only
    split
    case isTrue => exact .same rfl rfl
    case isFalse h =>
      split
      case isTrue => exact .same rfl rfl
      case isFalse => exact .status m _ hk (closed_of_starting (not_not.1 h)) rfl rfl rfl rfl

/-- An append whose terminal frames come with a closed status. -/
theorem effect_append (force : Bool) {closeStatus : Option Status}
    (hclose : f.closes = true → ∃ t ∈ closeStatus, t.closed = true) :
    Effect k (k.append c ms now f force closeStatus).2 := by
  unfold Keys.append
  cases hk : k.hash with
  | none => exact .same rfl rfl
  | some m =>
    dsimp only
    split
    case isTrue => exact .same rfl rfl
    case isFalse hopen =>
      split
      case isTrue => exact .same rfl rfl
      case isFalse =>
        have hopen := Bool.eq_false_of_not_eq_true hopen
        cases closeStatus with
        | none =>
          refine .pushed m _ ms f hk hopen rfl rfl rfl rfl fun hf => ?_
          obtain ⟨_, h, -⟩ := hclose hf
          cases h
        | some t =>
          refine .pushed m _ ms f hk hopen rfl rfl rfl rfl fun hf => ?_
          obtain ⟨_, h, ht⟩ := hclose hf
          cases h
          exact ht

theorem effect_refreshLease (owner : String) : Effect k (k.refreshLease owner).2 := .same rfl rfl

theorem effect_finish : Effect k (k.finish t now) := by
  cases hk : k.hash with
  | none =>
    refine .same ?_ rfl
    rw [Keys.finish, hk]
    rfl
  | some m =>
    have hfinish : (k.finish t now).hash = some (if m.status.closed then m else m.finished t now) := by
      rw [Keys.finish, hk]
      rfl
    cases hopen : m.status.closed with
    | true =>
      rw [hopen, if_pos rfl] at hfinish
      exact .same (hfinish.trans hk.symm) rfl
    | false =>
      rw [hopen, if_neg Bool.false_ne_true] at hfinish
      exact .status m _ hk hopen hfinish rfl rfl rfl

theorem effect_markLost (lockOwner : Option String) : Effect k (k.markLost c ms now lockOwner).2 := by
  unfold Keys.markLost
  cases hk : k.hash with
  | none => exact .same rfl rfl
  | some m =>
    dsimp only
    split
    case isTrue => exact .same rfl rfl
    case isFalse hopen =>
      split
      case isTrue => exact .same rfl rfl
      case isFalse => exact .pushed m _ ms lostFrame hk (Bool.eq_false_of_not_eq_true hopen) rfl rfl rfl rfl fun _ => rfl

end Effects

/-! ### Logs -/

/-- The log of a request: the hash has its last id, the ids increase, and no frame but its last closes it. -/
structure Sound (k : Keys) : Prop where
  missing : k.hash = none → k.events = []
  last : ∀ m ∈ k.hash, m.lastEventId = k.events.getLast?.map Entry.id
  increasing : Increasing k.events
  positive : ∀ e ∈ k.events, e.id.ahead ⟨0, 0⟩ = true
  terminal : ∀ e ∈ k.events.dropLast, e.frame.closes = false
  active : ¬ k.Closed → ∀ e ∈ k.events, e.frame.closes = false

section Logs

variable {k k' : Keys} {m : StoredMeta}

theorem closed_iff (h : k.hash = some m) : k.Closed ↔ m.status.closed = true := by
  unfold Keys.Closed
  rw [h]
  exact ⟨fun ⟨_, hm, hc⟩ => Option.some.inj hm ▸ hc, fun hc => ⟨m, rfl, hc⟩⟩

theorem not_closed_of_none (h : k.hash = none) : ¬ k.Closed := by
  rintro ⟨m, hm, -⟩
  cases h.symm.trans hm

theorem not_closed_of_open (h : k.hash = some m) (hopen : m.status.closed = false) : ¬ k.Closed := by
  rw [closed_iff h, hopen]
  exact Bool.false_ne_true

/-- No script changes a closed log. -/
theorem frozen_of_effect (h : Effect k k') (hc : k.Closed) : k'.hash = k.hash ∧ k'.events = k.events := by
  cases h with
  | same hhash hevents => exact ⟨hhash, hevents⟩
  | created m hnone => exact absurd hc (not_closed_of_none hnone)
  | status m m' hbefore hopen => exact absurd hc (not_closed_of_open hbefore hopen)
  | pushed m m' ms f hbefore hopen => exact absurd hc (not_closed_of_open hbefore hopen)

theorem closed_of_effect (h : Effect k k') (hc : k.Closed) : k'.Closed := by
  rw [Keys.Closed, (frozen_of_effect h hc).1]
  exact hc

theorem Sound.of_same (hs : Sound k) (hhash : k'.hash = k.hash) (hevents : k'.events = k.events) : Sound k' := by
  refine ⟨fun hn => ?_, fun m hm => ?_, ?_, ?_, ?_, fun hn => ?_⟩
  · exact hevents.trans (hs.missing (hhash ▸ hn))
  · exact hevents ▸ hs.last m (hhash ▸ hm)
  · exact hevents ▸ hs.increasing
  · exact hevents ▸ hs.positive
  · exact hevents ▸ hs.terminal
  · rw [Keys.Closed, hhash] at hn
    exact hevents ▸ hs.active hn

/-- A log without entries. -/
theorem sound_of_empty (hlast : ∀ m ∈ k.hash, m.lastEventId = none) (hevents : k.events = []) : Sound k := by
  refine ⟨fun _ => hevents, fun m hm => ?_, ?_, ?_, ?_, fun _ => ?_⟩
  · rw [hlast m hm, hevents]
    rfl
  · rw [hevents]
    exact List.Pairwise.nil
  · rw [hevents]
    exact fun e he => absurd he List.not_mem_nil
  · rw [hevents]
    exact fun e he => absurd he List.not_mem_nil
  · rw [hevents]
    exact fun e he => absurd he List.not_mem_nil

theorem sound_of_missing (hhash : k.hash = none) (hevents : k.events = []) : Sound k :=
  sound_of_empty (fun m hm => by cases hhash.symm.trans hm) hevents

theorem sound_of_effect (hs : Sound k) (h : Effect k k') : Sound k' := by
  cases h with
  | same hhash hevents => exact hs.of_same hhash hevents
  | created m hnone hhash hevents =>
    refine sound_of_empty (fun m' hm => ?_) hevents
    cases hhash.symm.trans hm
    rfl
  | status m m' hbefore hopen hhash hclaimed hlast hevents =>
    have hactive := hs.active (not_closed_of_open hbefore hopen)
    refine ⟨fun hn => ?_, fun m'' hm => ?_, ?_, ?_, ?_, fun _ => ?_⟩
    · cases hhash.symm.trans hn
    · cases hhash.symm.trans hm
      rw [hlast, hevents]
      exact hs.last m hbefore
    · exact hevents ▸ hs.increasing
    · exact hevents ▸ hs.positive
    · exact hevents ▸ hs.terminal
    · exact hevents ▸ hactive
  | pushed m m' ms f hbefore hopen hhash hclaimed hlast hevents hends =>
    have hactive := hs.active (not_closed_of_open hbefore hopen)
    refine ⟨fun hn => ?_, fun m'' hm => ?_, ?_, fun e he => ?_, ?_, fun hn e he => ?_⟩
    · cases hhash.symm.trans hn
    · cases hhash.symm.trans hm
      rw [hlast, hevents, List.getLast?_append]
      rfl
    · rw [hevents]
      exact increasing_append hs.increasing ms f
    · rw [hevents] at he
      rcases List.mem_append.1 he with he | he
      · exact hs.positive e he
      · obtain rfl := List.mem_singleton.1 he
        exact nextId_positive hs.positive ms
    · rw [hevents, List.dropLast_concat]
      exact hactive
    · rw [hevents] at he
      rcases List.mem_append.1 he with he | he
      · exact hactive e he
      · obtain rfl := List.mem_singleton.1 he
        rw [closed_iff hhash] at hn
        exact Bool.eq_false_of_not_eq_true fun hf => hn (hends hf)

/-- A log only grows. -/
theorem prefix_of_effect (hs : Sound k) (h : Effect k k') : k.events <+: k'.events := by
  cases h with
  | same hhash hevents | status m m' hbefore hopen hhash hclaimed hlast hevents => rw [hevents]
  | created m hnone =>
    rw [hs.missing hnone]
    exact List.nil_prefix
  | pushed m m' ms f hbefore hopen hhash hclaimed hlast hevents =>
    rw [hevents]
    exact List.prefix_append _ _

end Logs

end NexusStudio.ReplayStore
