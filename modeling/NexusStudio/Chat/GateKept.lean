import NexusStudio.Chat.Requests

/-!
# What a request that starts no turn leaves of the gate

* (endpoint tail) `claimAndStart` never touches the gate state, and `CanStart` says when it starts an execution.
* (resume) `resumeTurn` rewrites the status before it knows whether it starts: `resume_keepsGate_iff`.
* (stream) `streamMessage` clears a gate that is not pending before it knows: `stream_keepsGate_iff`.
-/

namespace NexusStudio.Chat

open Handlers Gate Replay

/-! ### The common end -/

/-- The request finds its request id unclaimed, names no position of the stream, has a usable input and finds the
conversation unlocked. -/
structure CanStart (r : ReplayMeta) (lastEventId : Option String) (input : Except Error Unit) (s : Store) : Prop where
  unclaimed : s.replay.metas r.requestId = none
  cursor : validateEventId (δ := Details) lastEventId = .ok ⟨0, 0⟩
  usable : input = .ok ()
  unlocked : s.turnLock r.sessionId = none

section Frames

variable {γ : Type} {f : Store → γ} {r : ReplayMeta} {l : Option String} {i : Except Error Unit}

theorem keeps_discardReplay (h : ∀ s k, f { s with replay := k } = f s) (requestId : String) :
    Keeps f (discardReplay requestId) :=
  keeps_onPart h

theorem keeps_acquire (h : ∀ s k, f { s with turnLock := k } = f s) (c : Nat) (t : String) :
    Keeps f (acquire c t) := by
  refine keeps_get.bind fun s => ?_
  split
  · exact keeps_modify fun s => h s _
  · exact keeps_throw _

theorem keeps_answerClaim (hr : ∀ s k, f { s with replay := k } = f s) (hl : ∀ s k, f { s with turnLock := k } = f s)
    (he : ∀ s e, f { s with executions := e } = f s) (c : ReplayClaim) : Keeps f (answerClaim r l i c) := by
  have hd := keeps_discardReplay hr r.requestId
  have hs : Keeps f (startClaimed r i) :=
    ((keeps_orRaise i).onError hd).bind fun _ =>
      ((keeps_acquire hl _ _).onError hd).bind fun _ => keeps_modify fun s => he s _
  exact ((keeps_orRaise _).onError hd.doIf).bind fun _ =>
    hs.doIf.bind fun _ => (keeps_orRaise _).bind fun _ => keeps_pure _

end Frames

/-- The part of the store that the claim is about: pending gates, gate metadata and gate files. -/
def Store.gateState (s : Store) : (Nat → Option RawGate) × (String → Option String) × (Nat → Nat → List GateAsset) :=
  (s.gatePending, s.gateMeta, s.gateAssets)

theorem keeps_claimAndStart (r : ReplayMeta) (l : Option String) (i : Except Error Unit) :
    Keeps Store.gateState (claimAndStart r l i) :=
  have hc : Keeps Store.gateState (claimReplay r) := keeps_onPart fun _ _ => rfl
  hc.bind (keeps_answerClaim (fun _ _ => rfl) (fun _ _ => rfl) fun _ _ => rfl)

/-- The handler hands an execution to the background supervisor. -/
def Starts {α : Type} (x : Handler Store Error α) (s : Store) : Prop :=
  (exec x s).2.executions ≠ s.executions

theorem not_starts_of_keeps {α : Type} {x : Handler Store Error α} (h : Keeps Store.executions x) (s : Store) :
    ¬ Starts x s := fun hs => hs (h s)

theorem starts_bind {α β : Type} {x : Handler Store Error α} {f : α → Handler Store Error β} {a : α} {s t : Store}
    (h : exec x s = (.ok a, t)) (ht : t.executions = s.executions) : Starts (x >>= f) s ↔ Starts (f a) t := by
  rw [Starts, Starts, exec_bind_ok _ h, ht]

theorem starts_bind_keeps {α β : Type} {x : Handler Store Error α} {f : α → Handler Store Error β} {s : Store}
    (hf : ∀ a, Keeps Store.executions (f a)) : Starts (x >>= f) s ↔ Starts x s := by
  rw [Starts, Starts, exec_bind]
  rcases exec x s with ⟨e | a, t⟩
  · rfl
  · exact not_congr (by rw [hf a t])

/-- Nothing starts after a command that raises and starts nothing itself. -/
theorem not_starts_of_raises {α β : Type} {x : Handler Store Error α} {f : α → Handler Store Error β} {e : Error}
    {s t : Store} (hk : Keeps Store.executions x) (h : exec x s = (.error e, t)) : ¬ Starts (x >>= f) s := by
  have ht := hk s
  rw [h] at ht
  rw [Starts, exec_bind_error _ h, ht]
  exact not_not_intro rfl

theorem exec_acquire_free {s : Store} {c : Nat} (t : String) (h : s.turnLock c = none) :
    exec (acquire c t) s = (.ok (), { s with turnLock := Function.update s.turnLock c (some t) }) := by
  rw [acquire, exec_bind_ok _ exec_get, h, exec_modify]

theorem exec_acquire_busy {s : Store} {c : Nat} {t' : String} (t : String) (h : s.turnLock c = some t') :
    exec (acquire c t) s =
      (.error (.app .conversationBusy s!"conversation {c} is busy" (some (.activeTurn t'))), s) := by
  rw [acquire, exec_bind_ok _ exec_get, h, exec_throw]

/-- A created claim leads to an execution exactly when the input is usable and the lock is free. -/
theorem starts_startClaimed {r : ReplayMeta} {i : Except Error Unit} {s : Store} :
    Starts (startClaimed r i) s ↔ i = .ok () ∧ s.turnLock r.sessionId = none := by
  have hd : Keeps Store.executions (discardReplay r.requestId) := keeps_discardReplay (fun _ _ => rfl) _
  have hi : Keeps Store.executions (onError (orRaise i) (discardReplay r.requestId)) := (keeps_orRaise i).onError hd
  rcases i with e | u
  · obtain ⟨e', t, ht⟩ :=
      onError_raises (discardReplay r.requestId) (exec_orRaise (σ := Store) (s := s) (Except.error e))
    refine iff_of_false (not_starts_of_raises hi ht) ?_
    rintro ⟨h, -⟩
    cases h
  · have ho := exec_onError_ok (discardReplay r.requestId) (exec_orRaise (σ := Store) (s := s) (Except.ok u))
    rw [startClaimed, starts_bind ho rfl]
    rcases hl : s.turnLock r.sessionId with _ | t
    · have ha := exec_onError_ok (discardReplay r.requestId) (exec_acquire_free r.turnId hl)
      rw [starts_bind ha rfl]
      refine iff_of_true ?_ ⟨rfl, rfl⟩
      simp [Starts, startExecution]
    · obtain ⟨e', t', ha⟩ := onError_raises (discardReplay r.requestId) (exec_acquire_busy r.turnId hl)
      refine iff_of_false (not_starts_of_raises ?_ ha) ?_
      · exact (keeps_acquire (fun _ _ => rfl) _ _).onError hd
      · rintro ⟨-, h⟩
        cases h

/-- A claim that was created by another request starts nothing. -/
theorem not_starts_answerClaim {r : ReplayMeta} {l : Option String} {i : Except Error Unit} {c : ReplayClaim}
    {s : Store} (hc : c.created = false) : ¬ Starts (answerClaim r l i c) s := by
  apply not_starts_of_keeps
  have hn : doIf (c.created = true) (startClaimed r i) = pure () := doIf_of_not (by simp [hc]) _
  rw [answerClaim, hn]
  have hd : Keeps Store.executions (discardReplay r.requestId) := keeps_discardReplay (fun _ _ => rfl) _
  exact ((keeps_orRaise _).onError hd.doIf).bind fun _ =>
    (keeps_pure _).bind fun _ => (keeps_orRaise _).bind fun _ => keeps_pure _

/-- The claim of a new request starts an execution exactly when the cursor is the start, the input is usable and the
lock is free. -/
theorem starts_answerClaim_created {r : ReplayMeta} {l : Option String} {i : Except Error Unit} {s : Store}
    (hr : r.lastEventId = none) :
    Starts (answerClaim r l i { claimed := r, created := true }) s ↔
      validateEventId (δ := Details) l = .ok ⟨0, 0⟩ ∧ i = .ok () ∧ s.turnLock r.sessionId = none := by
  have hd : Keeps Store.executions (discardReplay r.requestId) := keeps_discardReplay (fun _ _ => rfl) _
  rw [answerClaim, ← validateReplayCursor_fresh hr]
  rcases hv : validateReplayCursor (δ := Details) r l with e | u
  · obtain ⟨e', t, ht⟩ := onError_raises (doIf (true = true) (discardReplay r.requestId))
      (exec_orRaise (σ := Store) (s := s) (Except.error (α := Unit) e))
    refine iff_of_false (not_starts_of_raises ((keeps_orRaise _).onError hd.doIf) ht) ?_
    rintro ⟨h, -⟩
    cases h
  · have ho := exec_onError_ok (doIf (true = true) (discardReplay r.requestId))
      (exec_orRaise (σ := Store) (s := s) (Except.ok (ε := Error) u))
    have he : ∀ _ : Unit, Keeps Store.executions (do orRaise (.ok u); return r : Handler Store Error ReplayMeta) :=
      fun _ => (keeps_orRaise _).bind fun _ => keeps_pure _
    rw [starts_bind ho rfl, starts_bind_keeps he, doIf_of rfl, starts_startClaimed]
    simp

/-- When a request starts an execution. -/
theorem starts_claimAndStart {r : ReplayMeta} {l : Option String} {i : Except Error Unit} {s : Store}
    (hr : r.lastEventId = none) : Starts (claimAndStart r l i) s ↔ CanStart r l i s := by
  have hk : Keeps Store.executions (claimReplay r) := keeps_onPart fun _ _ => rfl
  rcases hm : s.replay.metas r.requestId with _ | m
  · have hc : exec (claimReplay r) s =
        (.ok { claimed := r, created := true }, { s with replay := (claimScript r s.replay).2 }) := by
      rw [claimReplay, exec_onPart, exec_claim_fresh hm]
    rw [claimAndStart, starts_bind hc rfl, starts_answerClaim_created hr]
    constructor
    · rintro ⟨hv, hi, hl⟩
      exact ⟨hm, hv, hi, hl⟩
    · rintro ⟨-, hv, hi, hl⟩
      exact ⟨hv, hi, hl⟩
  · obtain ⟨c, hx, hc⟩ := exec_claim_taken (δ := Details) hm
    have he : exec (claimReplay r) s = (c, s) := by
      rw [claimReplay, exec_onPart, hx]
    refine iff_of_false ?_ ?_
    · rcases c with e | c
      · exact not_starts_of_raises hk he
      · rw [claimAndStart, starts_bind he rfl]
        exact not_starts_answerClaim (hc c rfl)
    · rintro ⟨h, -⟩
      rw [hm] at h
      cases h

/-! ### Reads -/

theorem exec_getGatePending_ok {s : Store} {c : Nat} {p : Option GatePending} (h : s.stored c = .ok p) :
    exec (getGatePending c) s = (.ok p, s) := by
  rw [getGatePending, exec_bind_ok _ exec_get, h, exec_pure]

theorem exec_getGatePending_error {s : Store} {c : Nat} {m : String} (h : s.stored c = .error m) :
    exec (getGatePending c) s = (.error (.value m), s) := by
  rw [getGatePending, exec_bind_ok _ exec_get, h, exec_throw]

/-- The conversation is an active one of the user. -/
def Owned (s : Store) (userId conversationId : Nat) (row : Conversation) : Prop :=
  s.conversations conversationId = some row ∧ row.userId = userId ∧ row.status = .active

theorem exec_getOwnedConversation {s : Store} {u c : Nat} {row : Conversation} (h : Owned s u c row) :
    exec (getOwnedConversation u c) s = (.ok row, s) := by
  obtain ⟨hr, hu, ha⟩ := h
  rw [getOwnedConversation, exec_bind_ok _ exec_get, hr]
  simp only [hu, ha, and_self, if_true, exec_pure]

theorem exec_getOwnedConversation_error {s : Store} {u c : Nat} (h : ∀ row, ¬ Owned s u c row) :
    ∃ e, exec (getOwnedConversation u c) s = (.error e, s) := by
  rw [getOwnedConversation, exec_bind_ok _ exec_get]
  rcases hr : s.conversations c with _ | row
  · exact ⟨_, exec_throw⟩
  · have hn : ¬ (row.userId = u ∧ row.status = .active) := fun hw => h row ⟨hr, hw⟩
    exact ⟨_, (congrArg (fun x => exec x s) (if_neg hn)).trans exec_throw⟩

/-! ### Resuming a turn -/

section Resume

variable {d : Deployment} {q : Request ResumeBody} {g : GatePending} {s : Store}

/-- What `prepare_resume_turn` asks of a request and of the pending gate: neither the gate id nor the status. -/
structure Resumable (d : Deployment) (q : Request ResumeBody) (s : Store) (g : GatePending) : Prop where
  owned : ∃ row, Owned s q.userId q.body.conversationId row
  stored : s.stored q.body.conversationId = .ok (some g)
  turn : g.turnId.1 = q.body.turnId
  model : ∃ key, requireTurnModel d (some q.body.model) = .ok key ∧ ¬ (strip g.modelKey ≠ "" ∧ strip g.modelKey ≠ key)

theorem exec_prepareResumeTurn (h : Resumable d q s g) :
    ∃ p, exec (prepareResumeTurn d q.userId q.body.conversationId q.body.turnId (some q.body.model)) s =
      (.ok p, s) := by
  obtain ⟨row, ho⟩ := h.owned
  obtain ⟨key, hk, hm⟩ := h.model
  have hr : exec (orRaise (requireTurnModel d (some q.body.model)) : Handler Store Error String) s = (.ok key, s) := by
    rw [exec_orRaise, hk]
  refine ⟨(row, key), ?_⟩
  rw [prepareResumeTurn, exec_bind_ok _ (exec_getOwnedConversation ho),
    exec_bind_ok _ (exec_getGatePending_ok h.stored)]
  simp only [h.turn, ne_eq, not_true_eq_false, if_false]
  rw [exec_bind_ok _ hr, if_neg hm, exec_pure]

theorem exec_prepareResumeTurn_error (h : ∀ g, ¬ Resumable d q s g) :
    ∃ e, exec (prepareResumeTurn d q.userId q.body.conversationId q.body.turnId (some q.body.model)) s =
      (.error e, s) := by
  rw [prepareResumeTurn]
  by_cases hw : ∃ row, Owned s q.userId q.body.conversationId row
  · obtain ⟨row, ho⟩ := hw
    rw [exec_bind_ok _ (exec_getOwnedConversation ho)]
    rcases hs : s.stored q.body.conversationId with m | _ | g
    · exact ⟨_, exec_bind_error _ (exec_getGatePending_error hs)⟩
    · exact ⟨_, (exec_bind_ok _ (exec_getGatePending_ok hs)).trans exec_throw⟩
    · rw [exec_bind_ok _ (exec_getGatePending_ok hs)]
      by_cases ht : g.turnId.1 = q.body.turnId
      · simp only [ht, ne_eq, not_true_eq_false, if_false]
        rcases hk : requireTurnModel d (some q.body.model) with e | key
        · exact ⟨e, exec_bind_error _ (exec_orRaise _)⟩
        · rw [exec_bind_ok _ (exec_orRaise _)]
          by_cases hm : strip g.modelKey ≠ "" ∧ strip g.modelKey ≠ key
          · exact ⟨_, (congrArg (fun x => exec x s) (if_pos hm)).trans exec_throw⟩
          · exact absurd ⟨⟨row, ho⟩, hs, ht, key, hk, hm⟩ (h g)
      · exact ⟨_, (congrArg (fun x => exec x s) (if_pos ht)).trans exec_throw⟩
  · obtain ⟨e, he⟩ := exec_getOwnedConversation_error (not_exists.1 hw)
    exact ⟨e, exec_bind_error _ he⟩

/-- The metadata with which `resume_turn` claims its request id. -/
def resumeMeta (d : Deployment) (q : Request ResumeBody) : ReplayMeta :=
  newMeta d q.userId q.requestId q.body.conversationId q.body.turnId .resume (.resume q.body)

theorem exec_updateGatePendingStatus {c : Nat} (h : s.stored c = .ok (some g)) (t : Gate.Status) :
    exec (updateGatePendingStatus c t) s =
      (.ok (), s.setGatePending c (some (.object (dump { g with status := t })))) := by
  rw [updateGatePendingStatus, exec_bind_ok _ (exec_getGatePending_ok h), exec_modify]

theorem CanStart.setGatePending {r : ReplayMeta} {l : Option String} {i : Except Error Unit} {c : Nat}
    {raw : Option RawGate} : CanStart r l i (s.setGatePending c raw) ↔ CanStart r l i s :=
  ⟨fun h => ⟨h.unclaimed, h.cursor, h.usable, h.unlocked⟩, fun h => ⟨h.unclaimed, h.cursor, h.usable, h.unlocked⟩⟩

theorem gatePending_claimAndStart (r : ReplayMeta) (l : Option String) (i : Except Error Unit) (s : Store) :
    (exec (claimAndStart r l i) s).2.gatePending = s.gatePending :=
  congrArg Prod.fst (keeps_claimAndStart r l i s)

/-- Unless it submits to a gate of its turn, a request leaves the gate. -/
theorem gatePending_resumeTurn_of_not (h : ∀ g, Resumable d q s g → q.body.action ≠ .submit) :
    (exec (resumeTurn d q) s).2.gatePending = s.gatePending := by
  by_cases hg : ∃ g, Resumable d q s g
  · obtain ⟨g, hg⟩ := hg
    obtain ⟨p, hp⟩ := exec_prepareResumeTurn hg
    rw [resumeTurn, exec_bind_ok _ hp, doIf_of_not (h g hg), exec_bind_ok _ (exec_pure ())]
    exact gatePending_claimAndStart _ _ _ s
  · obtain ⟨e, he⟩ := exec_prepareResumeTurn_error (not_exists.1 hg)
    rw [resumeTurn, exec_bind_error _ he]

/-- A request that submits to a gate of its turn makes it resuming, and starts where it can. -/
theorem resumeTurn_submit (h : Resumable d q s g) (ha : q.body.action = .submit) :
    (exec (resumeTurn d q) s).2.gatePending =
        Function.update s.gatePending q.body.conversationId (some (.object (dump { g with status := .resuming }))) ∧
      (Starts (resumeTurn d q) s ↔ CanStart (resumeMeta d q) q.lastEventId (.ok ()) s) := by
  obtain ⟨p, hp⟩ := exec_prepareResumeTurn h
  have hu := exec_updateGatePendingStatus h.stored .resuming
  constructor
  · rw [resumeTurn, exec_bind_ok _ hp, doIf_of ha, exec_bind_ok _ hu]
    exact gatePending_claimAndStart _ _ _ _
  · rw [resumeTurn, starts_bind hp rfl, doIf_of ha, starts_bind hu rfl, starts_claimAndStart rfl,
      CanStart.setGatePending]
    rfl

/-- The claim about a resume request: it leaves the stored gates unless it starts an execution, and changes the status
of a gate only under the gate's own turn id and gate id. -/
structure ResumeKeepsGate (d : Deployment) (q : Request ResumeBody) (s : Store) : Prop where
  unstarted : ¬ Starts (resumeTurn d q) s → ∀ c, (exec (resumeTurn d q) s).2.stored c = s.stored c
  status : ∀ c g g', s.stored c = .ok (some g) → (exec (resumeTurn d q) s).2.stored c = .ok (some g') →
    g'.status ≠ g.status → g.turnId.1 = q.body.turnId ∧ g.gateId.1 = q.body.gateId

/-- A request that would make a gate resuming names that gate and can start. -/
def ResumeGateSafe (d : Deployment) (q : Request ResumeBody) (s : Store) : Prop :=
  ∀ g, Resumable d q s g → q.body.action = .submit → g.status ≠ .resuming →
    g.gateId.1 = q.body.gateId ∧ CanStart (resumeMeta d q) q.lastEventId (.ok ()) s

theorem stored_of_gatePending {s t : Store} {c : Nat} (h : t.gatePending c = s.gatePending c) :
    t.stored c = s.stored c := by
  rw [Store.stored, Store.stored, h]

/-- What is stored after a submit: the gate of the conversation is resuming, the others are as before. -/
theorem stored_resumeTurn (h : Resumable d q s g) (ha : q.body.action = .submit) (c : Nat) :
    (exec (resumeTurn d q) s).2.stored c =
      if c = q.body.conversationId then .ok (some { g with status := .resuming }) else s.stored c := by
  have hp := (resumeTurn_submit h ha).1
  split
  case isTrue hc =>
    rw [Store.stored, hp, hc, Function.update_self, parse_dump]
  case isFalse hc =>
    rw [Store.stored, hp, Function.update_of_ne hc, Store.stored]

theorem ResumeKeepsGate.of_same (h : ∀ c, (exec (resumeTurn d q) s).2.stored c = s.stored c) :
    ResumeKeepsGate d q s := by
  refine ⟨fun _ => h, fun c g₁ g₂ h₁ h₂ hd => ?_⟩
  rw [h c, h₁] at h₂
  cases h₂
  exact absurd rfl hd

/-- A resume request keeps the gate exactly when it is `ResumeGateSafe`. -/
theorem resume_keepsGate_iff : ResumeKeepsGate d q s ↔ ResumeGateSafe d q s := by
  constructor
  · intro hk g hg ha hne
    have hc := stored_resumeTurn hg ha q.body.conversationId
    rw [if_pos rfl] at hc
    refine ⟨(hk.status _ g _ hg.stored hc hne.symm).2, (resumeTurn_submit hg ha).2.1 ?_⟩
    by_contra hs
    rw [hk.unstarted hs, hg.stored] at hc
    have hst := congrArg GatePending.status (Option.some.inj (Except.ok.inj hc))
    exact hne hst
  · intro hsafe
    by_cases hg : ∃ g, Resumable d q s g ∧ q.body.action = .submit
    · obtain ⟨g, hg, ha⟩ := hg
      have hst := stored_resumeTurn hg ha
      by_cases hne : g.status = .resuming
      · -- the same record is written back
        refine .of_same fun c => ?_
        rw [hst c, ← hne]
        split
        case isTrue hc => rw [hc, hg.stored]
        case isFalse => rfl
      · obtain ⟨hid, hcan⟩ := hsafe g hg ha hne
        refine ⟨fun hs => absurd ((resumeTurn_submit hg ha).2.2 hcan) hs, fun c g₁ g₂ h₁ h₂ hd => ?_⟩
        rw [hst c] at h₂
        split at h₂
        case isTrue hc =>
          rw [hc, hg.stored] at h₁
          cases h₁
          exact ⟨hg.turn, hid⟩
        case isFalse =>
          rw [h₁] at h₂
          cases h₂
          exact absurd rfl hd
    · have hp := gatePending_resumeTurn_of_not fun g hr ha => hg ⟨g, hr, ha⟩
      exact .of_same fun c => stored_of_gatePending (congrFun hp c)

theorem gate_one_ne : "gate-1" ≠ "" := by decide

/-- A gate of the turn `turn-1`. -/
def gateOf (gateId : String) (h : gateId ≠ "") (status : Gate.Status) : GatePending where
  turnId := ⟨"turn-1", by decide⟩
  gateId := ⟨gateId, h⟩
  gateType := ⟨"login", by decide⟩
  modelKey := ⟨"model", by decide⟩
  prompt := ⟨"sign in", by decide⟩
  status := status
  fields := ⟨[], nofun⟩
  rest := ""

/-- Conversation 1 of user 7 with a stored gate, and nothing else. -/
def storeOf (g : GatePending) : Store where
  conversations := fun c => if c = 1 then some { userId := 7, status := .active, kind := "chat" } else none
  gatePending := fun c => if c = 1 then some (.object (dump g)) else none
  gateMeta := fun _ => none
  gateAssets := fun _ _ => []
  upgradeInvites := fun _ _ => none
  turnLock := fun _ => none
  replay := { metas := fun _ => none, events := fun _ => false }
  executions := []

/-- Every model is known and every input is usable. -/
def openDeployment : Deployment where
  getModelSpec := fun _ => .ok ()
  fingerprint := fun _ _ _ _ => "fingerprint"
  enrich := fun _ content _ _ => .ok content
  resolveSelected := fun _ _ _ => .ok ()

/-- The submit to the first gate of `turn-1`. -/
def firstSubmit : Request ResumeBody where
  userId := 7
  requestId := "request-1"
  body := {
    conversationId := 1
    turnId := "turn-1"
    gateId := "gate-1"
    model := "model"
    action := .submit
    fields := none }
  lastEventId := none

/-- The second gate of `turn-1` is pending; the submit to the first one was executed under `request-1`. -/
def secondGate : Store :=
  { storeOf (gateOf "gate-2" (by decide) .pending) with
    replay := {
      metas := fun r => if r = "request-1" then some {
        resumeMeta openDeployment firstSubmit with status := .interrupted, lastEventId := some ⟨5, 0⟩ } else none
      events := fun r => r == "request-1" } }

/-- A retry of the first submit starts nothing, yet the second gate is resuming from then on. -/
theorem not_resume_keepsGate : ¬ ResumeKeepsGate openDeployment firstSubmit secondGate := by
  intro h
  have hs : ¬ Starts (resumeTurn openDeployment firstSubmit) secondGate := by
    unfold Starts
    decide
  have hk := h.unstarted hs 1
  revert hk
  decide

end Resume

/-! ### Starting a turn -/

section Stream

variable {d : Deployment} {turnId : String} {q : Request StreamBody} {g : GatePending} {s : Store}

/-- What `prepare_turn` takes for a stale gate: any gate of the conversation that is not pending. -/
structure Stale (q : Request StreamBody) (s : Store) (row : Conversation) (g : GatePending) : Prop where
  owned : Owned s q.userId q.body.conversationId row
  stored : s.stored q.body.conversationId = .ok (some g)
  status : g.status ≠ .pending

/-- The store after `clear_stale_gate_ephemeral`. -/
def Store.cleared (s : Store) (userId conversationId : Nat) (g : GatePending) : Store :=
  ((s.setGatePending conversationId none).deleteGateAssets userId conversationId g.gateId).clearGateMeta g.gateId

theorem exec_clearStaleGateEphemeral {u c : Nat} (h : s.stored c = .ok (some g)) (hs : g.status ≠ .pending) :
    exec (clearStaleGateEphemeral c u) s = (.ok (), s.cleared u c g) := by
  rw [clearStaleGateEphemeral, exec_bind_ok _ (exec_getGatePending_ok h)]
  simp only [if_neg hs]
  rfl

/-- The metadata with which `stream_message` claims its request id. -/
def streamMeta (d : Deployment) (turnId : String) (q : Request StreamBody) : ReplayMeta :=
  newMeta d q.userId q.requestId q.body.conversationId turnId .turn (.stream q.body)

/-- The checks of `prepare_turn` after the one on the gate. -/
def Admitted (d : Deployment) (q : Request StreamBody) (s : Store) : Prop :=
  s.upgradeInvites q.userId q.body.conversationId = none ∧ ∃ key, requireTurnModel d (some q.body.model) = .ok key

/-- The rest of `prepare_turn` after the check on the gate reads only. -/
theorem exec_prepareTurn {row : Conversation} {t : Store} (ho : Owned s q.userId q.body.conversationId row)
    (hg : exec (refusePendingGate q.userId q.body.conversationId) s = (.ok (), t)) :
    ∃ p, exec (prepareTurn d q.userId q.body.conversationId (some q.body.model)) s = (p, t) ∧
      (∀ a, p = .ok a → a.1 = row) ∧ ((∃ a, p = .ok a) ↔ Admitted d q t) := by
  rw [prepareTurn, exec_bind_ok _ (exec_getOwnedConversation ho), exec_bind_ok _ hg, Admitted]
  rcases hu : t.upgradeInvites q.userId q.body.conversationId with _ | n
  · have hx : exec (refuseUpgradeInvite q.userId q.body.conversationId) t = (.ok (), t) := by
      rw [refuseUpgradeInvite, exec_bind_ok _ exec_get, hu, exec_pure]
    rw [exec_bind_ok _ hx]
    rcases requireTurnModel d (some q.body.model) with e | key
    · refine ⟨_, exec_bind_error _ (exec_orRaise _), nofun, ?_⟩
      simp
    · refine ⟨_, (exec_bind_ok _ (exec_orRaise _)).trans (exec_pure _), ?_, ?_⟩
      · rintro a ⟨⟩
        rfl
      · simp
  · have hx : ∃ e, exec (refuseUpgradeInvite q.userId q.body.conversationId) t = (.error e, t) :=
      ⟨_, by rw [refuseUpgradeInvite, exec_bind_ok _ exec_get, hu, exec_throw]⟩
    obtain ⟨e, hx⟩ := hx
    refine ⟨_, exec_bind_error _ hx, nofun, ?_⟩
    simp

/-- After `prepare_turn` the gate state stays as it is. -/
theorem gateState_streamMessage {p : Except Error (Conversation × String)} {t : Store}
    (h : exec (prepareTurn d q.userId q.body.conversationId (some q.body.model)) s = (p, t)) :
    (exec (streamMessage d turnId q) s).2.gateState = t.gateState := by
  rcases p with e | ⟨row, key⟩
  · rw [streamMessage, exec_bind_error _ h]
  · rw [streamMessage, exec_bind_ok _ h]
    exact keeps_claimAndStart _ _ _ t

theorem starts_streamMessage {p : Except Error (Conversation × String)} {row : Conversation} {t : Store}
    (h : exec (prepareTurn d q.userId q.body.conversationId (some q.body.model)) s = (p, t))
    (ht : t.executions = s.executions) (hr : ∀ a, p = .ok a → a.1 = row) :
    Starts (streamMessage d turnId q) s ↔ (∃ a, p = .ok a) ∧
      CanStart (streamMeta d turnId q) q.lastEventId (prepareInput d q.userId row q.body) t := by
  rcases p with e | ⟨row', key⟩
  · refine iff_of_false ?_ ?_
    · rw [Starts, streamMessage, exec_bind_error _ h, ht]
      exact not_not_intro rfl
    · rintro ⟨⟨a, ha⟩, -⟩
      cases ha
  · obtain rfl : row' = row := hr _ rfl
    rw [streamMessage, starts_bind h ht, starts_claimAndStart rfl]
    exact ⟨fun hc => ⟨⟨_, rfl⟩, hc⟩, And.right⟩

/-- The claim about a stream request: it leaves the gate state unless it starts an execution. -/
def StreamKeepsGate (d : Deployment) (turnId : String) (q : Request StreamBody) (s : Store) : Prop :=
  ¬ Starts (streamMessage d turnId q) s → (exec (streamMessage d turnId q) s).2.gateState = s.gateState

/-- A request that takes the gate of its conversation for a stale one can start. -/
def StreamGateSafe (d : Deployment) (turnId : String) (q : Request StreamBody) (s : Store) : Prop :=
  ∀ row g, Stale q s row g → Admitted d q s ∧
    CanStart (streamMeta d turnId q) q.lastEventId (prepareInput d q.userId row q.body) s

theorem exec_refusePendingGate_stale {row : Conversation} (h : Stale q s row g) :
    exec (refusePendingGate q.userId q.body.conversationId) s =
      (.ok (), s.cleared q.userId q.body.conversationId g) := by
  rw [refusePendingGate, exec_bind_ok _ (exec_getGatePending_ok h.stored)]
  simp only [if_neg h.status]
  exact exec_clearStaleGateEphemeral h.stored h.status

/-- Where no gate is stale, `prepare_turn` reads only. -/
theorem exec_prepareTurn_of_not_stale (h : ∀ row g, ¬ Stale q s row g) :
    ∃ p, exec (prepareTurn d q.userId q.body.conversationId (some q.body.model)) s = (p, s) := by
  by_cases hw : ∃ row, Owned s q.userId q.body.conversationId row
  · obtain ⟨row, ho⟩ := hw
    have hread : (∃ e, exec (refusePendingGate q.userId q.body.conversationId) s = (.error e, s)) ∨
        exec (refusePendingGate q.userId q.body.conversationId) s = (.ok (), s) := by
      rcases hs : s.stored q.body.conversationId with m | _ | g
      · exact .inl ⟨_, exec_bind_error _ (exec_getGatePending_error hs)⟩
      · exact .inr (exec_bind_ok _ (exec_getGatePending_ok hs))
      · have hp : g.status = .pending := by_contra fun hp => h row g ⟨ho, hs, hp⟩
        exact .inl ⟨_, (exec_bind_ok _ (exec_getGatePending_ok hs)).trans
          ((congrArg (fun x => exec x s) (if_pos hp)).trans exec_throw)⟩
    rcases hread with ⟨e, he⟩ | hok
    · exact ⟨_, (exec_bind_ok _ (exec_getOwnedConversation ho)).trans (exec_bind_error _ he)⟩
    · obtain ⟨p, hp, -⟩ := exec_prepareTurn (d := d) ho hok
      exact ⟨p, hp⟩
  · obtain ⟨e, he⟩ := exec_getOwnedConversation_error (not_exists.1 hw)
    exact ⟨_, exec_bind_error _ he⟩

/-- A request that finds a stale gate clears it, whether it starts or not. -/
theorem streamMessage_stale {row : Conversation} (h : Stale q s row g) :
    (exec (streamMessage d turnId q) s).2.gateState = (s.cleared q.userId q.body.conversationId g).gateState ∧
      (Starts (streamMessage d turnId q) s ↔ Admitted d q s ∧
        CanStart (streamMeta d turnId q) q.lastEventId (prepareInput d q.userId row q.body) s) := by
  obtain ⟨p, hp, hr, ha⟩ := exec_prepareTurn (d := d) h.owned (exec_refusePendingGate_stale h)
  have hs : CanStart (streamMeta d turnId q) q.lastEventId (prepareInput d q.userId row q.body)
      (s.cleared q.userId q.body.conversationId g) ↔
        CanStart (streamMeta d turnId q) q.lastEventId (prepareInput d q.userId row q.body) s :=
    ⟨fun h => ⟨h.unclaimed, h.cursor, h.usable, h.unlocked⟩, fun h => ⟨h.unclaimed, h.cursor, h.usable, h.unlocked⟩⟩
  refine ⟨gateState_streamMessage hp, ?_⟩
  rw [starts_streamMessage hp rfl hr, ha, hs]
  rfl

theorem cleared_ne {row : Conversation} (h : Stale q s row g) :
    (s.cleared q.userId q.body.conversationId g).gateState ≠ s.gateState := by
  intro he
  have hu : (s.cleared q.userId q.body.conversationId g).gatePending q.body.conversationId = none :=
    Function.update_self ..
  have hc := hu.symm.trans (congrFun (congrArg Prod.fst he) q.body.conversationId)
  have hst := h.stored
  rw [Store.stored, ← show none = s.gatePending _ from hc] at hst
  cases hst

/-- A stream request keeps the gate state exactly when it is `StreamGateSafe`. -/
theorem stream_keepsGate_iff : StreamKeepsGate d turnId q s ↔ StreamGateSafe d turnId q s := by
  constructor
  · intro hk row g hst
    obtain ⟨hg, hs⟩ : _ ∧ (Starts (streamMessage d turnId q) s ↔ _) := streamMessage_stale hst
    rw [← hs]
    by_contra hn
    exact cleared_ne hst (hg.symm.trans (hk hn))
  · intro hsafe hn
    by_cases hst : ∃ row g, Stale q s row g
    · obtain ⟨row, g, hst⟩ := hst
      exact absurd ((streamMessage_stale hst).2.2 (hsafe row g hst)) hn
    · have hno : ∀ row g, ¬ Stale q s row g := fun row g h => hst ⟨row, g, h⟩
      obtain ⟨p, hp⟩ := exec_prepareTurn_of_not_stale (d := d) hno
      exact gateState_streamMessage hp

/-- A message of user 7 to conversation 1. -/
def newMessage : Request StreamBody where
  userId := 7
  requestId := "request-2"
  body := {
    conversationId := 1
    content := [.text "hello"]
    materials := []
    model := "model"
    projectId := none
    rest := "" }
  lastEventId := none

/-- The resume of `turn-1` is executing: its gate is resuming and it holds the lock. -/
def resumeExecuting : Store :=
  { storeOf (gateOf "gate-1" gate_one_ne .resuming) with
    turnLock := fun c => if c = 1 then some "turn-1" else none
    executions := [{ requestId := "request-1", conversationId := 1, turnId := "turn-1" }] }

/-- A message that is refused as busy destroys the gate of the executing resume. -/
theorem not_stream_keepsGate : ¬ StreamKeepsGate openDeployment "turn-2" newMessage resumeExecuting := by
  intro h
  have hs : ¬ Starts (streamMessage openDeployment "turn-2" newMessage) resumeExecuting := by
    unfold Starts
    decide
  have hk := congrArg (fun x => (x.1 1).isSome) (h hs)
  revert hk
  decide

end Stream

end NexusStudio.Chat
