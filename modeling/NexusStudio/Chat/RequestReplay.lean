import Mathlib
import NexusStudio.Chat.GateKept

/-!
# A repeated request

A request whose id was claimed and whose execution was started is answered with the replay of its log, if it gets to
the claim: the checks of the conversation and the gate write come first.

* (claim) a retained claim is found again and nothing changes.
* (stream) `stream_replays_iff`: a repeated `streamMessage` replays unless a gate or an invite is there.
* (resume) `resume_replays_iff`: a repeated `resumeTurn` replays as long as the gate of its turn is there, as resuming.
-/

namespace NexusStudio.Chat

open Handlers Gate Replay

/-! ### A retained claim -/

/-- Of a claim only the status and the last event have moved on, and its log has not expired. -/
structure Retained (r m : ReplayMeta) (s : Store) : Prop where
  stored : s.replay.metas r.requestId = some m
  same : m = { r with status := m.status, lastEventId := m.lastEventId }
  available : m.lastEventId ≠ none → m.status.closed = true → s.replay.events m.requestId = true

variable {r m : ReplayMeta} {l : Option String} {i : Except Error Unit} {s : Store} {d : Deployment}

theorem exec_claim_retained (h : Retained r m s) (turnId : String) :
    exec (claim (δ := Details) { r with turnId }) s.replay = (.ok { claimed := m, created := false }, s.replay) := by
  have hs : claimScript { r with turnId } s.replay = (false, s.replay) := by
    simp only [claimScript, h.stored, Option.isSome_some, if_true]
  have hc : exec (modifyGet (claimScript { r with turnId }) : Handler ReplayKeys Error Bool) s.replay =
      (.ok false, s.replay) := congrArg (fun x => (Except.ok x.1, x.2)) hs
  have hr : exec (requireMeta (δ := Details) r.requestId) s.replay = (.ok m, s.replay) := by
    rw [requireMeta, exec_bind_ok _ exec_get, h.stored, exec_pure]
  have hsame : ¬ (m.userId ≠ r.userId ∨ m.sessionId ≠ r.sessionId ∨ m.kind ≠ r.kind ∨ m.fingerprint ≠ r.fingerprint) := by
    rw [h.same]
    simp
  have havailable : exec (ensureReplayAvailable (δ := Details) m) s.replay = (.ok (), s.replay) := by
    rw [ensureReplayAvailable, exec_bind_ok _ exec_get, if_neg, exec_pure]
    rintro ⟨hl, hc, he⟩
    exact he (h.available hl hc)
  rw [claim, exec_bind_ok _ hc, exec_bind_ok _ hr, if_neg Bool.false_ne_true, checkTaken, if_neg hsame,
    exec_bind_ok _ havailable, exec_pure]

/-- Where the endpoint gets to the claim, the request is answered with the replay and nothing changes. -/
theorem exec_claimAndStart_retained (h : Retained r m s) (turnId : String)
    (hl : validateReplayCursor (δ := Details) m l = .ok ()) :
    exec (claimAndStart { r with turnId } l i) s = (.ok m, s) := by
  have hclaim : exec (claimReplay { r with turnId }) s = (.ok { claimed := m, created := false }, s) := by
    rw [claimReplay, exec_onPart, exec_claim_retained h]
  have hcursor : exec (orRaise (validateReplayCursor (δ := Details) m l) : Handler Store Error Unit) s = (.ok (), s) := by
    rw [exec_orRaise, hl]
  rw [claimAndStart, exec_bind_ok _ hclaim, answerClaim, exec_bind_ok _ (exec_onError_ok _ hcursor),
    doIf_of_not Bool.false_ne_true, exec_bind_ok _ (exec_pure ()), exec_bind_ok _ hcursor, exec_pure]

/-! ### Streaming -/

section Stream

variable {turnId : String} {q : Request StreamBody}

/-- An earlier call with the same id, owner and body started the execution of the log `m`; the conversation is still
there and the cursor is one of that log. -/
structure StreamRepeats (d : Deployment) (q : Request StreamBody) (m : ReplayMeta) (s : Store) : Prop where
  started : ∃ turnId last s₀, Starts (streamMessage d turnId { q with lastEventId := last }) s₀ ∧
    Retained (streamMeta d turnId q) m s
  owned : ∃ row, Owned s q.userId q.body.conversationId row
  cursor : validateReplayCursor (δ := Details) m q.lastEventId = .ok ()

/-- The conversation stores no gate and waits for no upgrade invite. -/
def StreamOpen (q : Request StreamBody) (s : Store) : Prop :=
  s.stored q.body.conversationId = .ok none ∧ s.upgradeInvites q.userId q.body.conversationId = none

/-- An execution is started only with a valid model. -/
theorem model_of_streamMessage (h : Starts (streamMessage d turnId q) s) :
    ∃ key, requireTurnModel d (some q.body.model) = .ok key := by
  by_cases hst : ∃ row g, Stale q s row g
  · obtain ⟨row, g, hst⟩ := hst
    exact ((streamMessage_stale hst).2.1 h).1.2
  · obtain ⟨p, hp⟩ := exec_prepareTurn_of_not_stale (d := d) fun row g hs => hst ⟨row, g, hs⟩
    rcases hm : requireTurnModel d (some q.body.model) with e | key
    · have hfails : Fails (prepareTurn d q.userId q.body.conversationId (some q.body.model)) :=
        .after _ fun _ => .after _ fun _ => .after _ fun _ => by
          rw [hm]
          exact (fails_throw e).bind _
      obtain ⟨e', t, he⟩ := hfails s
      rw [hp] at he
      cases he
      have hno : exec (streamMessage d turnId q) s = (.error e', s) := exec_bind_error _ hp
      refine absurd ?_ h
      rw [hno]
    · exact ⟨key, rfl⟩

/-- What `prepare_turn` refuses is not answered. -/
theorem not_answered_of_refused {row : Conversation} {e : Error} (ho : Owned s q.userId q.body.conversationId row)
    (hg : exec (refusePendingGate q.userId q.body.conversationId) s = (.error e, s)) :
    exec (streamMessage d turnId q) s = (.error e, s) := by
  have hp : exec (prepareTurn d q.userId q.body.conversationId (some q.body.model)) s = (.error e, s) := by
    rw [prepareTurn, exec_bind_ok _ (exec_getOwnedConversation ho), exec_bind_error _ hg]
  rw [streamMessage, exec_bind_error _ hp]

/-- A repeated request is answered with the replay of its log, with no effect, exactly when the conversation is open. -/
theorem stream_replays_iff (h : StreamRepeats d q m s) :
    exec (streamMessage d turnId q) s = (.ok m, s) ↔ StreamOpen q s := by
  obtain ⟨⟨firstTurnId, last, s₀, hstarts, hretained⟩, ⟨row, howned⟩, hcursor⟩ := h
  have hmodel := model_of_streamMessage hstarts
  have hread : s.stored q.body.conversationId = .ok none →
      exec (refusePendingGate q.userId q.body.conversationId) s = (.ok (), s) := fun hs => by
    rw [refusePendingGate, exec_bind_ok _ (exec_getGatePending_ok hs), exec_pure]
  constructor
  · intro hok
    rcases hs : s.stored q.body.conversationId with message | _ | g
    · have hg : exec (refusePendingGate q.userId q.body.conversationId) s = (.error (.value message), s) :=
        exec_bind_error _ (exec_getGatePending_error hs)
      rw [not_answered_of_refused howned hg] at hok
      cases hok
    · obtain ⟨p, hp, -, hadmitted⟩ := exec_prepareTurn (d := d) howned (hread hs)
      rcases p with e | a
      · rw [streamMessage, exec_bind_error _ hp] at hok
        cases hok
      · exact ⟨hs, (hadmitted.1 ⟨a, rfl⟩).1⟩
    · by_cases hpending : g.status = .pending
      · have hg : ∃ e, exec (refusePendingGate q.userId q.body.conversationId) s = (.error e, s) :=
          ⟨_, (exec_bind_ok _ (exec_getGatePending_ok hs)).trans
            ((congrArg (fun x => exec x s) (if_pos hpending)).trans exec_throw)⟩
        obtain ⟨e, hg⟩ := hg
        rw [not_answered_of_refused howned hg] at hok
        cases hok
      · -- a gate that is not pending is cleared on the way
        have hstale : Stale q s row g := ⟨howned, hs, hpending⟩
        obtain ⟨hcleared, -⟩ : _ ∧ (Starts (streamMessage d turnId q) s ↔ _) := streamMessage_stale hstale
        rw [hok] at hcleared
        exact absurd hcleared.symm (cleared_ne hstale)
  · rintro ⟨hs, hinvite⟩
    obtain ⟨p, hp, -, hadmitted⟩ := exec_prepareTurn (d := d) howned (hread hs)
    obtain ⟨a, rfl⟩ := hadmitted.2 ⟨hinvite, hmodel⟩
    rw [streamMessage, exec_bind_ok _ hp]
    exact exec_claimAndStart_retained hretained turnId hcursor

end Stream

/-! ### Resuming -/

section Resume

variable {q : Request ResumeBody}

/-- As for a streamed turn: the resume was started before under the same id, and its log is there. -/
structure ResumeRepeats (d : Deployment) (q : Request ResumeBody) (m : ReplayMeta) (s : Store) : Prop where
  started : ∃ last s₀, Starts (resumeTurn d { q with lastEventId := last }) s₀ ∧ Retained (resumeMeta d q) m s
  owned : ∃ row, Owned s q.userId q.body.conversationId row
  cursor : validateReplayCursor (δ := Details) m q.lastEventId = .ok ()

/-- The gate of the turn is stored, for the model of the request, and a submit finds it as it writes it. -/
def ResumeOpen (d : Deployment) (q : Request ResumeBody) (s : Store) : Prop :=
  ∃ g, Resumable d q s g ∧ (q.body.action = .submit →
    s.gatePending q.body.conversationId = some (.object (dump { g with status := .resuming })))

/-- A repeated resume is answered with the replay of its log, with no effect, exactly when the gate of its turn is
still stored, and already resuming for a submit. -/
theorem resume_replays_iff (h : ResumeRepeats d q m s) : exec (resumeTurn d q) s = (.ok m, s) ↔ ResumeOpen d q s := by
  obtain ⟨⟨last, s₀, -, hretained⟩, -, hcursor⟩ := h
  constructor
  · intro hok
    by_cases hg : ∃ g, Resumable d q s g
    · obtain ⟨g, hg⟩ := hg
      refine ⟨g, hg, fun ha => ?_⟩
      have hwritten := (resumeTurn_submit hg ha).1
      rw [hok] at hwritten
      have hgate := congrFun hwritten q.body.conversationId
      rwa [Function.update_self] at hgate
    · obtain ⟨e, he⟩ := exec_prepareResumeTurn_error (not_exists.1 hg)
      rw [resumeTurn, exec_bind_error _ he] at hok
      cases hok
  · rintro ⟨g, hg, hsame⟩
    obtain ⟨p, hp⟩ := exec_prepareResumeTurn hg
    have hwrite : exec (doIf (q.body.action = .submit) (updateGatePendingStatus q.body.conversationId .resuming)) s =
        (.ok (), s) := by
      by_cases ha : q.body.action = .submit
      · have hst : s.setGatePending q.body.conversationId (some (.object (dump { g with status := .resuming }))) = s := by
          rw [Store.setGatePending, ← hsame ha, Function.update_eq_self]
        rw [doIf_of ha, exec_updateGatePendingStatus hg.stored, hst]
      · rw [doIf_of_not ha, exec_pure]
    rw [resumeTurn, exec_bind_ok _ hp, exec_bind_ok _ hwrite]
    exact exec_claimAndStart_retained hretained q.body.turnId hcursor

end Resume

/-! ### Both endpoints -/

/-- When a repeated request is answered with the replay of its log, with no effect. -/
theorem repeated_request_replays_iff (d : Deployment) (turnId : String) (q : Request StreamBody)
    (q' : Request ResumeBody) (m : ReplayMeta) (s : Store) :
    (StreamRepeats d q m s → (exec (streamMessage d turnId q) s = (.ok m, s) ↔ StreamOpen q s)) ∧
      (ResumeRepeats d q' m s → (exec (resumeTurn d q') s = (.ok m, s) ↔ ResumeOpen d q' s)) :=
  ⟨fun h => stream_replays_iff h, fun h => resume_replays_iff h⟩

/-- Conversation 1 of user 7 without a gate. -/
def quietStore : Store := { storeOf (gateOf "gate-1" gate_one_ne .pending) with gatePending := fun _ => none }

/-- The log of the message of user 7, five events long. -/
def messageLog (status : Replay.Status) : ReplayMeta :=
  { streamMeta openDeployment "turn-2" newMessage with status, lastEventId := some ⟨5, 0⟩ }

/-- The log of the first submit. -/
def submitLog (status : Replay.Status) : ReplayMeta :=
  { resumeMeta openDeployment firstSubmit with status, lastEventId := some ⟨5, 0⟩ }

def Store.withLog (s : Store) (m : ReplayMeta) : Store :=
  { s with replay := {
      metas := fun r => if r = m.requestId then some m else none
      events := fun r => r == m.requestId } }

theorem withLog_stored (s : Store) (m : ReplayMeta) : (s.withLog m).replay.metas m.requestId = some m := if_pos rfl

theorem streamRepeats_message (status : Replay.Status) {s : Store} (hs : s.conversations = quietStore.conversations) :
    StreamRepeats openDeployment newMessage (messageLog status) (s.withLog (messageLog status)) where
  started := by
    refine ⟨"turn-2", none, quietStore, ?_, withLog_stored s (messageLog status), rfl, fun _ _ => by simp [Store.withLog]⟩
    unfold Starts
    decide
  owned := ⟨⟨7, .active, "chat"⟩, by rw [Store.withLog, hs]; rfl, rfl, rfl⟩
  cursor := rfl

theorem resumeRepeats_submit (status : Replay.Status) {s : Store} (hs : s.conversations = quietStore.conversations) :
    ResumeRepeats openDeployment firstSubmit (submitLog status) (s.withLog (submitLog status)) where
  started := by
    refine ⟨none, storeOf (gateOf "gate-1" gate_one_ne .pending), ?_, withLog_stored s (submitLog status), rfl,
      fun _ _ => by simp [Store.withLog]⟩
    unfold Starts
    decide
  owned := ⟨⟨7, .active, "chat"⟩, by rw [Store.withLog, hs]; rfl, rfl, rfl⟩
  cursor := rfl

/-- The turn of the message runs, and holds the lock. -/
def messageRunning : Store :=
  { quietStore.withLog (messageLog .running) with turnLock := fun _ => some "turn-2" }

/-- The resume of the first submit runs. -/
def submitRunning : Store :=
  { (storeOf (gateOf "gate-1" gate_one_ne .resuming)).withLog (submitLog .running) with
    turnLock := fun _ => some "turn-1" }

/-- A message is repeated while its turn runs, and a submit while its resume runs: both are replayed. -/
theorem repeated_request_replays_running :
    exec (streamMessage openDeployment "turn-3" newMessage) messageRunning = (.ok (messageLog .running), messageRunning) ∧
    exec (resumeTurn openDeployment firstSubmit) submitRunning = (.ok (submitLog .running), submitRunning) := by
  constructor
  · have hrepeats : StreamRepeats openDeployment newMessage (messageLog .running) messageRunning :=
      streamRepeats_message .running (s := { quietStore with turnLock := fun _ => some "turn-2" }) rfl
    exact ((repeated_request_replays_iff _ "turn-3" _ firstSubmit _ _).1 hrepeats).2 ⟨rfl, rfl⟩
  · have hrepeats : ResumeRepeats openDeployment firstSubmit (submitLog .running) submitRunning :=
      resumeRepeats_submit .running
        (s := { storeOf (gateOf "gate-1" gate_one_ne .resuming) with turnLock := fun _ => some "turn-1" }) rfl
    refine ((repeated_request_replays_iff _ "turn-3" newMessage _ _ _).2 hrepeats).2 ?_
    refine ⟨gateOf "gate-1" gate_one_ne .resuming, ⟨⟨⟨7, .active, "chat"⟩, rfl, rfl, rfl⟩, ?_, rfl, "model", ?_, ?_⟩,
      fun _ => rfl⟩
    · decide
    · decide
    · decide

/-- The turn of a message stops at a gate: the repeated message is refused as busy. -/
theorem not_replayed_at_gate :
    ∃ s, StreamRepeats openDeployment newMessage (messageLog .interrupted) s ∧
      exec (streamMessage openDeployment "turn-3" newMessage) s ≠ (.ok (messageLog .interrupted), s) := by
  refine ⟨(storeOf (gateOf "gate-1" gate_one_ne .pending)).withLog (messageLog .interrupted),
    streamRepeats_message .interrupted rfl, fun h => ?_⟩
  have hok := congrArg (fun x => x.1.toBool) h
  revert hok
  decide

end NexusStudio.Chat
