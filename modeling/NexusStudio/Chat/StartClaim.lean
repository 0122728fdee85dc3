import NexusStudio.Streaming.ReplayStore
import NexusStudio.Lib.Json
import NexusStudio.Lib.Machine

/-!
# Start requests of one request id

Any number of start requests carry one request id, and subscribers may declare its execution lost. Every call of the
store is one step.

* (fingerprint) `buildRequestFingerprint` tells requests of another kind, owner, session or body apart.
* (requests) `claim` with the metadata it reads back, the checks before the start, `discard_starting` in two steps.
* (law) A stored claim starts one execution, `discard_starting` removes no log, and nobody obtains another's claim.
* (defect) An execution that is declared lost between the read and the delete of `discard_starting` is removed.
* (condition) `Safe`: nobody declares it lost there.
-/

set_option linter.unusedSectionVars false

namespace NexusStudio.StartClaim

open Concurrent Replay ReplayStore JsonText
open Streaming (StreamFrame Settings)

/-! ### Fingerprints -/

/-- The value of a `ReplayRequestKind`. -/
def kindValue : RequestKind → String
  | .turn => "turn"
  | .resume => "resume"

section Fingerprints

variable {ν : Type} (N : Numbers ν) (sha256 : String → String)

/-- A start request; `body` is the dump of its model without `request_id`. -/
structure StartRequest (ν : Type) where
  userId : Nat
  sessionId : Nat
  kind : RequestKind
  body : Value ν
  turnId : String
  createdAt : Nat

/-- The envelope of a fingerprint. -/
def envelope (q : StartRequest ν) : List (String × Value ν) := fieldsOf [
  ("kind", .string (kindValue q.kind)),
  ("user_id", .number (N.ofInt q.userId)),
  ("session_id", .number (N.ofInt q.sessionId)),
  ("body", q.body)]

def buildRequestFingerprint (q : StartRequest ν) : String :=
  sha256 (String.ofList (write N [] (.dict (envelope N q))))

/-- The requests have the same owner, session, kind and body. -/
structure StartRequest.Same (q r : StartRequest ν) : Prop where
  userId : q.userId = r.userId
  sessionId : q.sessionId = r.sessionId
  kind : q.kind = r.kind
  body : q.body = r.body

/-- What a request stores when it claims the id. -/
def StartRequest.stored (q : StartRequest ν) (requestId : String) : StoredMeta :=
  .starting requestId q.userId q.sessionId q.turnId q.kind (buildRequestFingerprint N sha256 q) q.createdAt

variable {N sha256} {q r : StartRequest ν}

theorem lookup_envelope (q : StartRequest ν) : (envelope N q).lookup "body" = some q.body :=
  lookup_insertField_self

theorem body_eq_of_fingerprint (hsha : Function.Injective sha256)
    (h : buildRequestFingerprint N sha256 q = buildRequestFingerprint N sha256 r) : q.body = r.body := by
  have hfields := Value.dict.inj (write_injective N [] (String.ofList_inj.1 (hsha h)))
  have hbody := congrArg (List.lookup "body") hfields
  rw [lookup_envelope, lookup_envelope] at hbody
  exact Option.some.inj hbody

end Fingerprints

/-! ### The machine -/

/-- An append, whose terminal frames come with a closed status. -/
structure Append where
  frame : StreamFrame
  force : Bool
  closeStatus : Option Status
  ends : frame.closes = true → ∃ t ∈ closeStatus, t.closed = true

/-- A call of an execution. -/
inductive Call
  | setRunning (owner : String)
  | refreshLease (owner : String)
  | append (a : Append) (ms now : Nat)
  | finish (t : Status) (now : Nat)

def Call.exec (c : Settings) (k : Keys) : Call → Keys
  | setRunning owner => (k.setRunning owner).2
  | refreshLease owner => (k.refreshLease owner).2
  | append a ms now => (k.append c ms now a.frame a.force a.closeStatus).2
  | finish t now => k.finish t now

/-- Where a start request is. -/
inductive Pc
  | idle
  -- `require_meta` after the script of `claim`
  | requiring (created : Bool)
  -- `ensure_replay_available` for the `n`-th stored claim
  | available (m : StoredMeta) (n : Nat)
  -- the checks and the turn lock before the start
  | checking
  | discarding
  | deleting
  | executing
  | finished
  deriving DecidableEq, Repr

structure State (ι κ : Type) where
  keys : Keys
  pc : ι → Pc
  -- subscribers that are to declare the execution lost
  marking : κ → Bool
  -- who stored the claims, in their order
  creators : List ι
  -- the claims whose execution was started
  started : List Nat
  -- which claim a request has got from `claim`
  obtained : ι → Option Nat
  -- a discard has removed a log that was running or has an entry
  wronged : Bool

inductive Action (ι κ : Type)
  | run (i : ι)
  -- a check raises, or the turn lock is not acquired
  | fail (i : ι)
  | crash (i : ι)
  | call (i : ι) (a : Call)
  -- a subscriber reads the metadata
  | look (j : κ) (now : Nat)
  | mark (j : κ) (ms now : Nat) (lockOwner : Option String)
  | leaseExpires
  | lock (owner : Option String)

section Model

variable {ι κ ν : Type} [DecidableEq ι] [DecidableEq κ] (N : Numbers ν) (sha256 : String → String) (c : Settings)
  (leaseTtl : Nat) (requestId : String) (req : ι → StartRequest ν)

def State.goto (s : State ι κ) (i : ι) (pc : Pc) : State ι κ := { s with pc := Function.update s.pc i pc }

/-- The script of `claim` has returned. -/
def State.claimed (s : State ι κ) (i : ι) : Bool × Keys → State ι κ
  | (created, keys) =>
    { s.goto i (.requiring created) with keys, creators := if created then s.creators ++ [i] else s.creators }

/-- The number of the claim that is stored. -/
def State.current (s : State ι κ) : Nat := s.creators.length - 1

/-- The log was running or has an entry. -/
def Begun (k : Keys) : Prop := ∃ m ∈ k.hash, m.status ≠ .starting ∨ k.events ≠ []

instance (k : Keys) : Decidable (Begun k) := inferInstanceAs (Decidable (∃ m ∈ k.hash, _))

def run (s : State ι κ) (i : ι) : Option (State ι κ) :=
  match s.pc i with
  | .idle =>
    some (s.claimed i (s.keys.claim ((req i).stored N sha256 requestId)))
  | .requiring created =>
    match s.keys.hash with
    | none => some (s.goto i .finished)
    | some m =>
      let q := req i
      if created then some { s.goto i .checking with obtained := Function.update s.obtained i (some s.current) }
      else if m.userId ≠ q.userId ∨ m.sessionId ≠ q.sessionId ∨ m.kind ≠ q.kind ∨
          m.fingerprint ≠ buildRequestFingerprint N sha256 q then some (s.goto i .finished)
      else some (s.goto i (.available m s.current))
  | .available m n =>
    if m.lastEventId ≠ none ∧ m.status.closed ∧ s.keys.events = [] then some (s.goto i .finished)
    else some { s.goto i .finished with obtained := Function.update s.obtained i (some n) }
  | .checking => some { s.goto i .executing with started := s.started ++ (s.obtained i).toList }
  | .discarding =>
    match s.keys.hash with
    | none => some (s.goto i .finished)
    | some m =>
      if m.status ≠ .starting ∨ m.lastEventId ≠ none then some (s.goto i .finished)
      else some (s.goto i .deleting)
  | .deleting =>
    some { s.goto i .finished with
      keys := { s.keys with hash := none, events := [], lease := none }
      wronged := s.wronged || Begun s.keys }
  | .executing | .finished => none

def step (s : State ι κ) : Action ι κ → Option (State ι κ)
  | .run i => run N sha256 requestId req s i
  | .fail i => if s.pc i = .checking then some (s.goto i .discarding) else none
  | .crash i => some (s.goto i .finished)
  | .call i a => if s.pc i = .executing then some { s with keys := a.exec c s.keys } else none
  | .look j now =>
    match s.keys.hash with
    | none => none
    | some m =>
      if m.status = .running ∨ m.status = .starting ∧ m.createdAt + leaseTtl ≤ now then
        some { s with marking := Function.update s.marking j true }
      else some s
  | .mark j ms now lockOwner =>
    if s.marking j then
      some { s with keys := (s.keys.markLost c ms now lockOwner).2, marking := Function.update s.marking j false }
    else none
  | .leaseExpires => some { s with keys := { s.keys with lease := none } }
  | .lock owner => some { s with keys := { s.keys with executionLock := owner } }

/-- Requests that have not arrived yet, for an id without keys. -/
structure Initial (s : State ι κ) : Prop where
  hash : s.keys.hash = none
  events : s.keys.events = []
  pc : ∀ i, s.pc i = .idle
  creators : s.creators = []
  started : s.started = []
  obtained : ∀ i, s.obtained i = none
  wronged : s.wronged = false

def requests : Machine (State ι κ) (Action ι κ) where
  init := Initial
  step := step N sha256 c leaseTtl requestId req

/-! ### The law and its condition -/

structure Law (s : State ι κ) : Prop where
  started : s.started.Nodup
  kept : s.wronged = false
  own : ∀ i n, s.obtained i = some n → ∃ j, s.creators[n]? = some j ∧ (req i).Same (req j)

/-- Nobody declares an execution lost that a discard is about to delete. -/
def Safe (s : State ι κ) : Action ι κ → Prop
  | .mark .. => ∀ i, s.pc i ≠ .deleting
  | _ => True

instance [Fintype ι] (s : State ι κ) (a : Action ι κ) : Decidable (Safe s a) := by
  unfold Safe
  split
  all_goals infer_instance

end Model

/-! ### The invariant -/

section Proofs

variable {ι κ ν : Type} [DecidableEq ι] [DecidableEq κ] {N : Numbers ν} {sha256 : String → String} {c : Settings}
  {leaseTtl : Nat} {requestId : String} {req : ι → StartRequest ν} {s s' : State ι κ} {i j : ι} {a : Action ι κ}

/-- The request has the stored claim. -/
def Pc.holds : Pc → Bool
  | requiring true | checking | discarding | deleting | executing => true
  | _ => false

/-- What a request that has got so far knows. -/
def Pc.Fits (req : ι → StartRequest ν) (s : State ι κ) (i : ι) : Pc → Prop
  | idle | finished | executing | requiring false => True
  | requiring true => s.current ∉ s.started
  | checking | discarding => s.current ∉ s.started ∧ s.obtained i = some s.current
  | deleting => s.current ∉ s.started ∧ s.obtained i = some s.current ∧ ¬ Begun s.keys
  | available _ n => ∃ j, s.creators[n]? = some j ∧ (req i).Same (req j)

structure Inv (N : Numbers ν) (sha256 : String → String) (requestId : String) (req : ι → StartRequest ν)
    (s : State ι κ) : Prop where
  sound : Sound s.keys
  stored : ∀ m ∈ s.keys.hash, ∃ j, s.creators.getLast? = some j ∧ m.claimed = (req j).stored N sha256 requestId
  holder : ∀ i, (s.pc i).holds = true → s.keys.hash ≠ none ∧ s.creators.getLast? = some i
  pc : ∀ i, (s.pc i).Fits req s i
  started : s.started.Nodup
  known : ∀ n ∈ s.started, n < s.creators.length
  own : ∀ i n, s.obtained i = some n → ∃ j, s.creators[n]? = some j ∧ (req i).Same (req j)
  kept : s.wronged = false

/-- Two requests cannot both have the stored claim. -/
theorem Inv.single (hI : Inv N sha256 requestId req s) (hi : (s.pc i).holds = true) (hj : (s.pc j).holds = true) :
    i = j :=
  Option.some.inj ((hI.holder i hi).2.symm.trans (hI.holder j hj).2)

/-- What a request that does not step knows is kept, where claims, starts, what it has got and the log are. -/
theorem Pc.Fits.keep {pc : Pc} (h : pc.Fits req s i) (hcreators : s'.creators = s.creators)
    (hstarted : s'.started = s.started) (hobtained : s'.obtained i = s.obtained i)
    (hkeys : pc = .deleting → ¬ Begun s'.keys) : pc.Fits req s' i := by
  have hcurrent : s'.current = s.current := by rw [State.current, State.current, hcreators]
  cases pc with
  | idle | finished | executing => trivial
  | requiring created =>
    cases created with
    | false => trivial
    | true =>
      rw [Pc.Fits] at h ⊢
      rw [hcurrent, hstarted]
      exact h
  | checking | discarding =>
    rw [Pc.Fits] at h ⊢
    rw [hcurrent, hstarted, hobtained]
    exact h
  | deleting =>
    rw [Pc.Fits] at h ⊢
    rw [hcurrent, hstarted, hobtained]
    exact ⟨h.1, h.2.1, hkeys rfl⟩
  | available m n =>
    rw [Pc.Fits] at h ⊢
    rw [hcreators]
    exact h

/-- A request goes on, with what it has got. -/
theorem inv_goto (hI : Inv N sha256 requestId req s) (pc : Pc) (hs' : s' = { s.goto i pc with obtained := s'.obtained })
    (hobtained : ∀ j, j ≠ i → s'.obtained j = s.obtained j)
    (hgot : ∀ n, s'.obtained i = some n → ∃ j, s.creators[n]? = some j ∧ (req i).Same (req j))
    (hholds : pc.holds = true → (s.pc i).holds = true) (hfits : pc.Fits req s' i) : Inv N sha256 requestId req s' := by
  have hkeys : s'.keys = s.keys := by rw [hs']; rfl
  have hcreators : s'.creators = s.creators := by rw [hs']; rfl
  have hstarted : s'.started = s.started := by rw [hs']; rfl
  have hwronged : s'.wronged = s.wronged := by rw [hs']; rfl
  have hpc : s'.pc = Function.update s.pc i pc := by rw [hs']; rfl
  refine ⟨hkeys ▸ hI.sound, ?_, ?_, ?_, hstarted ▸ hI.started, ?_, fun j n hn => ?_, hwronged ▸ hI.kept⟩
  · rw [hkeys, hcreators]
    exact hI.stored
  · rw [hpc, hkeys, hcreators]
    exact (Function.forall_update_iff s.pc fun j pc => pc.holds = true →
      s.keys.hash ≠ none ∧ s.creators.getLast? = some j).2 ⟨fun h => hI.holder i (hholds h), fun j _ => hI.holder j⟩
  · rw [hpc]
    refine (Function.forall_update_iff s.pc fun j pc => pc.Fits req s' j).2 ⟨hfits, fun j hj => ?_⟩
    refine (hI.pc j).keep hcreators hstarted (hobtained j hj) fun hdel => ?_
    have hfits := hI.pc j
    rw [hdel] at hfits
    rw [hkeys]
    exact hfits.2.2
  · rw [hstarted, hcreators]
    exact hI.known
  · rw [hcreators]
    by_cases hj : j = i
    · subst hj
      exact hgot n hn
    · exact hI.own j n (hobtained j hj ▸ hn)

/-- A script that creates no hash. -/
theorem inv_keys (hI : Inv N sha256 requestId req s) {k : Keys} (he : Effect s.keys k)
    (hcreate : s.keys.hash = none → k.hash = none) (hdel : ∀ i, s.pc i = .deleting → ¬ Begun k) (marking : κ → Bool) :
    Inv N sha256 requestId req ({ s with keys := k, marking } : State ι κ) := by
  have hstored : ∀ m ∈ k.hash, ∃ j, s.creators.getLast? = some j ∧ m.claimed = (req j).stored N sha256 requestId := by
    intro m hm
    cases he with
    | same hhash hevents => exact hI.stored m (hhash ▸ hm)
    | created m' hnone hhash hevents =>
      rw [hcreate hnone] at hm
      cases hm
    | status m₀ m' hbefore hopen hhash hclaimed hlast hevents =>
      cases hhash.symm.trans hm
      rw [hclaimed]
      exact hI.stored m₀ hbefore
    | pushed m₀ m' ms f hbefore hopen hhash hclaimed hlast hevents hends =>
      cases hhash.symm.trans hm
      rw [hclaimed]
      exact hI.stored m₀ hbefore
  have hsome : s.keys.hash ≠ none → k.hash ≠ none := by
    intro hne hnone
    cases he with
    | same hhash hevents => exact hne (hhash ▸ hnone)
    | created m' hbefore => exact hne hbefore
    | status m₀ m' hbefore hopen hhash => cases hhash.symm.trans hnone
    | pushed m₀ m' ms f hbefore hopen hhash => cases hhash.symm.trans hnone
  refine ⟨sound_of_effect hI.sound he, hstored, fun i hi => ?_, fun i => ?_, hI.started, hI.known, hI.own, hI.kept⟩
  · exact ⟨hsome (hI.holder i hi).1, (hI.holder i hi).2⟩
  · exact (hI.pc i).keep rfl rfl rfl fun h => hdel i h

theorem Pc.Fits.of_not_holds {pc : Pc} (h : pc.Fits req s i) (hpc : pc.holds = false)
    (hcreators : s.creators <+: s'.creators) : pc.Fits req s' i := by
  cases pc with
  | idle | finished | executing => trivial
  | requiring created =>
    cases created with
    | false => trivial
    | true => cases hpc
  | checking | discarding | deleting => cases hpc
  | available m n =>
    obtain ⟨j, hj, hsame⟩ := h
    obtain ⟨l, hl⟩ := hcreators
    refine ⟨j, ?_, hsame⟩
    rw [← hl]
    exact List.getElem?_append_left (List.getElem?_eq_some_iff.1 hj).1 ▸ hj

/-- A request steps while no other one has the stored claim. -/
theorem inv_alone (hI : Inv N sha256 requestId req s) (pc : Pc) (hothers : ∀ j, j ≠ i → (s.pc j).holds = false)
    (hpc : s'.pc = Function.update s.pc i pc) (hcreators : s.creators <+: s'.creators)
    (hobtained : s'.obtained = s.obtained) (hsound : Sound s'.keys)
    (hstored : ∀ m ∈ s'.keys.hash, ∃ j, s'.creators.getLast? = some j ∧ m.claimed = (req j).stored N sha256 requestId)
    (hholder : pc.holds = true → s'.keys.hash ≠ none ∧ s'.creators.getLast? = some i) (hfits : pc.Fits req s' i)
    (hstarted : s'.started.Nodup) (hknown : ∀ n ∈ s'.started, n < s'.creators.length) (hkept : s'.wronged = false) :
    Inv N sha256 requestId req s' := by
  refine ⟨hsound, hstored, ?_, ?_, hstarted, hknown, fun j n hn => ?_, hkept⟩
  · rw [hpc]
    refine (Function.forall_update_iff s.pc fun j pc => pc.holds = true →
      s'.keys.hash ≠ none ∧ s'.creators.getLast? = some j).2 ⟨hholder, fun j hj h => ?_⟩
    cases (hothers j hj).symm.trans h
  · rw [hpc]
    refine (Function.forall_update_iff s.pc fun j pc => pc.Fits req s' j).2 ⟨hfits, fun j hj => ?_⟩
    exact (hI.pc j).of_not_holds (hothers j hj) hcreators
  · rw [hobtained] at hn
    obtain ⟨k, hk, hsame⟩ := hI.own j n hn
    obtain ⟨l, hl⟩ := hcreators
    refine ⟨k, ?_, hsame⟩
    rw [← hl]
    exact List.getElem?_append_left (List.getElem?_eq_some_iff.1 hk).1 ▸ hk

theorem Inv.others (hI : Inv N sha256 requestId req s) (hi : (s.pc i).holds = true) (j : ι) (hj : j ≠ i) :
    (s.pc j).holds = false :=
  Bool.eq_false_of_not_eq_true fun h => hj (hI.single h hi)

theorem creators_current (h : s.creators.getLast? = some j) : s.creators[s.current]? = some j := by
  rw [State.current, ← List.getLast?_eq_getElem?]
  exact h

theorem current_lt (h : s.creators.getLast? = some j) : s.current < s.creators.length :=
  (List.getElem?_eq_some_iff.1 (creators_current h)).1

/-- The metadata that matches a request is of a request like it. -/
theorem same_of_stored (hsha : Function.Injective sha256) {m : StoredMeta}
    (h : m.claimed = (req j).stored N sha256 requestId)
    (hm : ¬ (m.userId ≠ (req i).userId ∨ m.sessionId ≠ (req i).sessionId ∨ m.kind ≠ (req i).kind ∨
      m.fingerprint ≠ buildRequestFingerprint N sha256 (req i))) : (req i).Same (req j) := by
  simp only [not_or, not_not] at hm
  obtain ⟨huser, hsession, hkind, hfingerprint⟩ := hm
  have hstored : m.userId = (req j).userId ∧ m.sessionId = (req j).sessionId ∧ m.kind = (req j).kind ∧
      m.fingerprint = buildRequestFingerprint N sha256 (req j) := by
    refine ⟨?_, ?_, ?_, ?_⟩
    · exact congrArg (fun m : StoredMeta => m.userId) h
    · exact congrArg (fun m : StoredMeta => m.sessionId) h
    · exact congrArg (fun m : StoredMeta => m.kind) h
    · exact congrArg (fun m : StoredMeta => m.fingerprint) h
  exact ⟨huser.symm.trans hstored.1, hsession.symm.trans hstored.2.1, hkind.symm.trans hstored.2.2.1,
    body_eq_of_fingerprint hsha (hfingerprint.symm.trans hstored.2.2.2)⟩

/-! ### Steps -/

theorem inv_claim (hI : Inv N sha256 requestId req s) (hpc : s.pc i = .idle)
    (h : run N sha256 requestId req s i = some s') : Inv N sha256 requestId req s' := by
  simp only [run, hpc] at h
  by_cases hsome : s.keys.hash.isSome = true
  · rw [Keys.claim, if_pos hsome] at h
    cases h
    exact inv_goto hI _ rfl (fun _ _ => rfl) (hI.own i) (fun h => by cases h) trivial
  · rw [Keys.claim, if_neg hsome] at h
    cases h
    have hnone := Option.not_isSome_iff_eq_none.1 hsome
    have hothers : ∀ j, j ≠ i → (s.pc j).holds = false := fun j _ =>
      Bool.eq_false_of_not_eq_true fun h => (hI.holder j h).1 hnone
    have hcurrent : (s.creators ++ [i]).length - 1 = s.creators.length := by
      rw [List.length_append]
      rfl
    refine inv_alone (i := i) hI (.requiring true) hothers rfl (List.prefix_append _ _) rfl ?_ ?_ ?_ ?_ hI.started
      ?_ hI.kept
    · exact sound_of_empty (by rintro m ⟨⟩; rfl) rfl
    · rintro m ⟨⟩
      exact ⟨i, List.getLast?_concat, rfl⟩
    · exact fun _ => ⟨Option.some_ne_none _, List.getLast?_concat⟩
    · intro hn
      have hlt := hI.known _ hn
      rw [State.current] at hlt
      exact absurd (hcurrent ▸ hlt) (Nat.lt_irrefl _)
    · intro n hn
      have hlength : (s.creators ++ [i]).length = s.creators.length + 1 := List.length_append
      exact (Nat.lt_succ_of_lt (hI.known n hn)).trans_eq hlength.symm

theorem inv_requiring (hsha : Function.Injective sha256) (hI : Inv N sha256 requestId req s) {created : Bool}
    (hpc : s.pc i = .requiring created) (h : run N sha256 requestId req s i = some s') :
    Inv N sha256 requestId req s' := by
  have hfits := hI.pc i
  rw [hpc] at hfits
  simp only [run, hpc] at h
  cases hm : s.keys.hash with
  | none =>
    rw [hm] at h
    cases h
    exact inv_goto hI _ rfl (fun _ _ => rfl) (hI.own i) (fun h => by cases h) trivial
  | some m =>
    rw [hm] at h
    obtain ⟨j, hj, hclaimed⟩ := hI.stored m hm
    cases created with
    | true =>
      have hown : some j = some i := hj.symm.trans (hI.holder i (by rw [hpc]; rfl)).2
      cases h
      refine inv_goto hI .checking rfl (fun k hk => Function.update_of_ne hk _ _) (fun n hn => ?_)
        (fun _ => by rw [hpc]; rfl) ⟨hfits, Function.update_self _ _ _⟩
      have hn : some s.current = some n := (Function.update_self i _ s.obtained).symm.trans hn
      obtain rfl := Option.some.inj hn
      obtain rfl := Option.some.inj hown
      exact ⟨j, creators_current hj, rfl, rfl, rfl, rfl⟩
    | false =>
      dsimp only at h
      rw [if_neg Bool.false_ne_true] at h
      split at h
      · cases h
        exact inv_goto hI _ rfl (fun _ _ => rfl) (hI.own i) (fun h => by cases h) trivial
      · rename_i hsame
        cases h
        exact inv_goto hI _ rfl (fun _ _ => rfl) (hI.own i) (fun h => by cases h)
          ⟨j, creators_current hj, same_of_stored hsha hclaimed hsame⟩

theorem inv_start (hI : Inv N sha256 requestId req s) (hpc : s.pc i = .checking)
    (h : run N sha256 requestId req s i = some s') : Inv N sha256 requestId req s' := by
  have hfits := hI.pc i
  rw [hpc] at hfits
  have hholds : (s.pc i).holds = true := by rw [hpc]; rfl
  simp only [run, hpc, hfits.2] at h
  cases h
  refine inv_alone (i := i) hI .executing (hI.others hholds) rfl List.prefix_rfl rfl hI.sound hI.stored
    (fun _ => hI.holder i hholds) trivial ?_ ?_ hI.kept
  · refine List.nodup_append.2 ⟨hI.started, List.nodup_singleton _, fun n hn k hk => ?_⟩
    rintro rfl
    exact hfits.1 (List.mem_singleton.1 hk ▸ hn)
  · intro n hn
    rcases List.mem_append.1 hn with hn | hn
    · exact hI.known n hn
    · rw [List.mem_singleton.1 hn]
      exact current_lt (hI.holder i hholds).2

theorem inv_delete (hI : Inv N sha256 requestId req s) (hpc : s.pc i = .deleting)
    (h : run N sha256 requestId req s i = some s') : Inv N sha256 requestId req s' := by
  have hfits := hI.pc i
  rw [hpc] at hfits
  simp only [run, hpc] at h
  cases h
  refine inv_alone (i := i) hI .finished (hI.others (by rw [hpc]; rfl)) rfl List.prefix_rfl rfl
    (sound_of_missing rfl rfl) (by rintro m ⟨⟩) (fun h => by cases h) trivial hI.started hI.known ?_
  rw [hI.kept, decide_eq_false hfits.2.2]
  rfl

theorem inv_run (hsha : Function.Injective sha256) (hI : Inv N sha256 requestId req s)
    (h : run N sha256 requestId req s i = some s') : Inv N sha256 requestId req s' := by
  have hfits := hI.pc i
  cases hpc : s.pc i with
  | idle => exact inv_claim hI hpc h
  | requiring created => exact inv_requiring hsha hI hpc h
  | available m n =>
    rw [hpc] at hfits
    simp only [run, hpc] at h
    split at h
    · cases h
      exact inv_goto hI _ rfl (fun _ _ => rfl) (hI.own i) (fun h => by cases h) trivial
    · cases h
      refine inv_goto hI .finished rfl (fun k hk => Function.update_of_ne hk _ _) (fun k hk => ?_)
        (fun h => by cases h) trivial
      have hk : some n = some k := (Function.update_self i _ s.obtained).symm.trans hk
      obtain rfl := Option.some.inj hk
      exact hfits
  | checking => exact inv_start hI hpc h
  | discarding =>
    rw [hpc] at hfits
    simp only [run, hpc] at h
    cases hm : s.keys.hash with
    | none =>
      rw [hm] at h
      cases h
      exact inv_goto hI _ rfl (fun _ _ => rfl) (hI.own i) (fun h => by cases h) trivial
    | some m =>
      rw [hm] at h
      dsimp only at h
      split at h
      · cases h
        exact inv_goto hI _ rfl (fun _ _ => rfl) (hI.own i) (fun h => by cases h) trivial
      · rename_i hkept
        cases h
        refine inv_goto hI _ rfl (fun _ _ => rfl) (hI.own i) (fun _ => by rw [hpc]; rfl) ⟨hfits.1, hfits.2, ?_⟩
        rw [not_or, not_not, not_not] at hkept
        rintro ⟨m', hm', hbegun⟩
        cases hm.symm.trans hm'
        rcases hbegun with hstatus | hevents
        · exact hstatus hkept.1
        · have hlast := hI.sound.last m hm
          rw [hkept.2] at hlast
          exact hevents (List.getLast?_eq_none_iff.1 (Option.map_eq_none_iff.1 hlast.symm))
  | deleting => exact inv_delete hI hpc h
  | executing | finished =>
    simp only [run, hpc] at h
    cases h

theorem effect_call (a : Call) (k : Keys) : Effect k (a.exec c k) := by
  cases a with
  | setRunning owner => exact effect_setRunning owner
  | refreshLease owner => exact effect_refreshLease owner
  | append a ms now => exact effect_append a.force a.ends
  | finish t now => exact effect_finish

theorem markLost_of_none {k : Keys} (h : k.hash = none) (ms now : Nat) (lockOwner : Option String) :
    (k.markLost c ms now lockOwner).2 = k := by
  rw [Keys.markLost, h]

theorem inv_step (hsha : Function.Injective sha256) (hI : Inv N sha256 requestId req s) (hsafe : Safe s a)
    (h : step N sha256 c leaseTtl requestId req s a = some s') : Inv N sha256 requestId req s' := by
  have hdeleting : ∀ i, s.pc i = .deleting → ¬ Begun s.keys := by
    intro i hi
    have hfits := hI.pc i
    rw [hi] at hfits
    exact hfits.2.2
  cases a with
  | run i => exact inv_run hsha hI h
  | fail i =>
    have hfits := hI.pc i
    simp only [step] at h
    split at h
    · rename_i hpc
      cases h
      rw [hpc] at hfits
      exact inv_goto hI _ rfl (fun _ _ => rfl) (hI.own i) (fun _ => by rw [hpc]; rfl) hfits
    · cases h
  | crash i =>
    cases h
    exact inv_goto hI _ rfl (fun _ _ => rfl) (hI.own i) (fun h => by cases h) trivial
  | call i a =>
    simp only [step] at h
    split at h
    · rename_i hpc
      cases h
      have hholds : (s.pc i).holds = true := by rw [hpc]; rfl
      refine inv_keys hI (effect_call a s.keys) (fun hn => absurd hn (hI.holder i hholds).1) (fun j hj => ?_) s.marking
      obtain rfl := hI.single hholds (by rw [hj]; rfl)
      cases hpc.symm.trans hj
    · cases h
  | look j now =>
    simp only [step] at h
    split at h
    · cases h
    · split at h
      · cases h
        exact inv_keys hI (.same rfl rfl) id hdeleting _
      · cases h
        exact hI
  | mark j ms now lockOwner =>
    simp only [step] at h
    split at h
    · cases h
      refine inv_keys hI (effect_markLost lockOwner) (fun hn => ?_) (fun i hi => absurd hi (hsafe i)) _
      rw [markLost_of_none hn]
      exact hn
    · cases h
  | leaseExpires =>
    cases h
    exact inv_keys hI (k := { s.keys with lease := none }) (.same rfl rfl) id hdeleting s.marking
  | lock owner =>
    cases h
    exact inv_keys hI (k := { s.keys with executionLock := owner }) (.same rfl rfl) id hdeleting s.marking

theorem inv_reach (hsha : Function.Injective sha256)
    (h : (requests N sha256 c leaseTtl requestId req).Reach Safe s) : Inv N sha256 requestId req s := by
  refine h.induct (fun s hs => ?_) fun _ _ _ hI hsafe hstep => inv_step hsha hI hsafe hstep
  refine ⟨sound_of_missing hs.hash hs.events, fun m hm => ?_, fun i hi => ?_, fun i => ?_, ?_, fun n hn => ?_,
    fun i n hn => ?_, hs.wronged⟩
  · cases hs.hash.symm.trans hm
  · rw [hs.pc i] at hi
    cases hi
  · rw [hs.pc i]
    trivial
  · rw [hs.started]
    exact List.nodup_nil
  · rw [hs.started] at hn
    cases hn
  · rw [hs.obtained i] at hn
    cases hn

/-! ### When no log is removed -/

/-- In every run under the condition a stored claim has at most one execution, no discard removes a log that has begun,
and a request obtains the claim of a request like it. -/
theorem claims_kept_of_safe (hsha : Function.Injective sha256)
    (h : (requests N sha256 c leaseTtl requestId req).Reach Safe s) : Law req s :=
  have hI := inv_reach hsha h
  ⟨hI.started, hI.kept, hI.own⟩

end Proofs

/-! ### An execution that is declared lost while its request is discarded -/

def messageRequest : StartRequest Int := ⟨1, 2, .turn, .dict [("content", .string "hello")], "turn", 0⟩

def unclaimed (ι : Type) : State ι Unit :=
  ⟨⟨none, [], none, none⟩, fun _ => .idle, fun _ => false, [], [], fun _ => none, false⟩

theorem initial_unclaimed (ι : Type) : Initial (unclaimed ι) := ⟨rfl, rfl, fun _ => rfl, rfl, rfl, fun _ => rfl, rfl⟩

def smallLog : Settings := ⟨100, 1000, fun _ => 10⟩

/-- A request that is sent twice has one execution, and both obtain its claim. -/
theorem claims_kept_of_repeated : ∃ s : State Bool Unit,
    (requests integers id smallLog 60 "request" fun _ => messageRequest).Reach Safe s ∧
      (s.started = [0] ∧ s.obtained true = some 0 ∧ s.obtained false = some 0) ∧ Law (fun _ => messageRequest) s := by
  obtain ⟨s, -, hreach, hend⟩ := Machine.reach_of_exec
    (M := requests integers id smallLog 60 "request" fun _ : Bool => messageRequest) (C := Safe)
    (s := unclaimed Bool)
    (p := fun s => s.started = [0] ∧ s.obtained true = some 0 ∧ s.obtained false = some 0)
    [.run true, .run true, .run false, .run false, .run true, .call true (.setRunning "owner"), .run false]
    (initial_unclaimed Bool) (by decide)
  exact ⟨s, hreach, of_decide_eq_true hend, claims_kept_of_safe Function.injective_id hreach⟩

/-- A subscriber declares a request lost that fails its checks late: the discard removes the log with its entry. -/
theorem log_removed_by_discard : ∃ s : State Unit Unit,
    (requests integers id smallLog 60 "request" fun _ => messageRequest).Reach Free s ∧
      ¬ Law (fun _ => messageRequest) s := by
  obtain ⟨s, -, hreach, hend⟩ := Machine.reach_of_exec
    (M := requests integers id smallLog 60 "request" fun _ : Unit => messageRequest) (C := Free)
    (s := unclaimed Unit) (p := fun s => s.wronged = true)
    [.run (), .run (), .look () 60, .fail (), .run (), .mark () 60 60 none, .run ()]
    (initial_unclaimed Unit) (by decide)
  exact ⟨s, hreach, fun hlaw => Bool.false_ne_true (hlaw.kept.symm.trans (of_decide_eq_true hend))⟩

end NexusStudio.StartClaim
