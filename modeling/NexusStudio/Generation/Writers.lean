import NexusStudio.Generation.Task
import NexusStudio.Lib.Machine
import Mathlib.Logic.Function.Basic

/-!
# The writers of a generation task

Gateway callbacks, status observations, cancel, delete, the end of submit, and the readers that create missing assets
on demand, on one task. A writer reads the row first and writes later, with a conditional update each; the
transaction of `apply_result` is one step, as it locks the row.

* (status) A terminal status is never left and the rank of the status never decreases.
* (assets) A succeeded task has exactly one asset for each storage key of its results.
-/

set_option linter.unusedSectionVars false

namespace NexusStudio.Generation

open Concurrent GatewayTaskStatus

/-- What the gateway says of a task, with the reason that `resolve_gateway_failure_message` finds. -/
structure GatewayReport where
  status : GatewayTaskStatus
  urls : Option (List GatewayResultItem)
  reason : String
  deriving DecidableEq, Repr

/-- Where a writer is after its read. A callback carries the status it was called with. -/
inductive Proc
  | idle
  -- the transaction of `apply_result`
  | apply (callback : Option GatewayTaskStatus) (expected : GatewayTaskStatus) (res : GenerationTerminal)
      (callbackSent : Bool)
  | markCallbackSent (status : GatewayTaskStatus)
  | reread (status : GatewayTaskStatus)
  -- `handle_callback` has returned
  | acknowledged (status : GatewayTaskStatus)
  | cancel
  | delete
  | bind (unionTaskId : Nat)
  | bindAgain (unionTaskId : Nat)
  | fail (message : String)
  -- the loop of `ensure_result_assets` outside a transaction
  | ensure (todo : List GatewayResultItem) (ids : List Nat)
  | ensureCreate (item : GatewayResultItem) (todo : List GatewayResultItem) (ids : List Nat)
  -- returned or raised, other than a callback that returned
  | finished
  deriving DecidableEq, Repr

inductive Action (ω : Type*)
  | callback (w : ω) (unionTaskId : Nat) (report : GatewayReport)
  -- the queue's status of the task, and what `get_task` answers when that status is terminal
  | observe (w : ω) (status : GatewayTaskStatus) (response : Option GatewayReport)
  | apply (w : ω)
  | markCallbackSent (w : ω)
  | reread (w : ω)
  | cancel (w : ω) (gatewayFails : Bool)
  | cancelWrite (w : ω)
  | delete (w : ω)
  | deleteWrite (w : ω)
  -- the gateway has answered the submit, with an id or with an error
  | submitted (w : ω) (answer : Except String Nat)
  | bind (w : ω)
  | bindAgain (w : ω)
  | fail (w : ω)
  -- `toggle_favorite` or `reconcile_canvas_node_for_task` finds a succeeded task without assets
  | ensure (w : ω)
  | ensureStep (w : ω)
  -- a command fails, and a transaction with it, or the call is cancelled
  | abort (w : ω)

section Model

variable {ω : Type*} [DecidableEq ω]

/-- The row, the live assets of the task and every writer. -/
structure State (ω : Type*) where
  task : GenerateTask
  assets : List Asset
  proc : ω → Proc

namespace State

def setProc (s : State ω) (w : ω) (p : Proc) : State ω :=
  { s with proc := Function.update s.proc w p }

def setTask (s : State ω) (t : GenerateTask) : State ω :=
  { s with task := t }

end State

/-- `apply_result` up to its transaction, for the row that the writer has read. -/
def applyResult (callback : Option GatewayTaskStatus) (t : GenerateTask) (res : GenerationTerminal)
    (callbackSent : Bool) : Proc :=
  if t.status.isTerminal ∨ (res.status.isTerminal = false ∧ res.status.rank < t.status.rank) then
    (callback.map Proc.markCallbackSent).getD .finished
  else .apply callback t.status res callbackSent

/-- `handle_callback` up to the transaction. -/
def handleCallback (t : GenerateTask) (unionTaskId : Nat) (report : GatewayReport) : Proc :=
  if t.unionTaskId ≠ some unionTaskId then .finished
  else if t.deleted then .finished
  else if t.callbackSent ∧ t.status.isTerminal then .acknowledged report.status
  else
    match normalizeGatewayTerminal report.status report.urls (some report.reason) with
    | .error _ => .finished
    | .ok res => applyResult (some report.status) t res true

/-- `_observe_one_non_terminal_task` up to the transaction. -/
def observeOneNonTerminalTask (t : GenerateTask) (status : GatewayTaskStatus) (response : Option GatewayReport) :
    Proc :=
  if t.deleted ∨ t.status.isTerminal ∨ t.unionTaskId = none ∨ status = t.status then .finished
  else if status.isTerminal then
    match response with
    | none => .finished
    | some report =>
      match normalizeGatewayTerminal report.status report.urls (some report.reason) with
      | .error _ => .finished
      | .ok res => applyResult none t res true
  else
    match normalizeGatewayTerminal status none none with
    | .error _ => .finished
    | .ok res => applyResult none t res false

/-- One step of one writer. -/
def step (s : State ω) : Action ω → Option (State ω)
  | .callback w unionTaskId report =>
    if s.proc w = .idle then some (s.setProc w (handleCallback s.task unionTaskId report)) else none
  | .observe w status response =>
    if s.proc w = .idle then some (s.setProc w (observeOneNonTerminalTask s.task status response)) else none
  | .apply w =>
    match s.proc w with
    | .apply callback expected res callbackSent =>
      match s.task.updateIfStatus expected res callbackSent with
      | none => some (s.setProc w ((callback.map Proc.markCallbackSent).getD .finished))
      | some t =>
        let (t', assets) := if res.status = SUCCEEDED then ensureResultAssets t s.assets else (t, s.assets)
        some { (s.setTask t').setProc w ((callback.map Proc.acknowledged).getD .finished) with assets := assets }
    | _ => none
  | .markCallbackSent w =>
    match s.proc w with
    | .markCallbackSent status => some ((s.setTask s.task.markCallbackSent).setProc w (.reread status))
    | _ => none
  | .reread w =>
    match s.proc w with
    | .reread status => some (s.setProc w (.acknowledged status))
    | _ => none
  | .cancel w gatewayFails =>
    if s.proc w = .idle then
      some (s.setProc w
        (if s.task.deleted ∨ s.task.kind = .IMAGE ∨ (s.task.unionTaskId ≠ none ∧ gatewayFails) then .finished
          else .cancel))
    else none
  | .cancelWrite w =>
    if s.proc w = .cancel then some ((s.setTask (s.task.cancelIfNonTerminal.getD s.task)).setProc w .finished)
    else none
  | .delete w =>
    if s.proc w = .idle then some (s.setProc w (if s.task.deleted then .finished else .delete)) else none
  | .deleteWrite w =>
    if s.proc w = .delete then some ((s.setTask { s.task with deleted := true }).setProc w .finished) else none
  | .submitted w answer =>
    if s.proc w = .idle then
      match answer with
      | .ok unionTaskId => some (s.setProc w (.bind unionTaskId))
      | .error message => some (s.setProc w (.fail message))
    else none
  | .bind w =>
    match s.proc w with
    | .bind unionTaskId =>
      match s.task.bindQueued unionTaskId with
      | some t => some ((s.setTask t).setProc w .finished)
      | none => some (s.setProc w (.bindAgain unionTaskId))
    | _ => none
  | .bindAgain w =>
    match s.proc w with
    | .bindAgain unionTaskId =>
      some ((s.setTask { s.task with unionTaskId := some unionTaskId }).setProc w .finished)
    | _ => none
  | .fail w =>
    match s.proc w with
    | .fail message => some ((s.setTask (s.task.markFailedIfNonTerminal message)).setProc w .finished)
    | _ => none
  | .ensure w =>
    if s.proc w = .idle then
      some (s.setProc w
        (if s.task.status = SUCCEEDED ∧ s.task.resultAssetIds.getD [] = [] ∧ s.task.hasNothingToEnsure = false then
          .ensure (s.task.resultKeys.getD []) [] else .finished))
    else none
  | .ensureStep w =>
    match s.proc w with
    | .ensure [] ids => some ((s.setTask { s.task with resultAssetIds := some ids }).setProc w .finished)
    | .ensure (item :: todo) ids =>
      match s.assets.find? fun a => a.storageKey == item.url with
      | some a => some (s.setProc w (.ensure todo (ids ++ [a.id])))
      | none => some (s.setProc w (.ensureCreate item todo ids))
    | .ensureCreate item todo ids =>
      some { s.setProc w (.ensure todo (ids ++ [s.assets.length])) with
        assets := s.assets ++ [⟨s.assets.length, item.url⟩] }
    | _ => none
  | .abort w =>
    match s.proc w with
    | .idle | .acknowledged _ | .finished => none
    | _ => some (s.setProc w .finished)

/-- A task that has just been created. -/
def created (kind : GenerationKind) : State ω where
  task := ⟨kind, none, CREATED, false, none, none, none, false⟩
  assets := []
  proc _ := .idle

/-- One task with all its writers. -/
def generation : Machine (State ω) (Action ω) where
  init s := ∃ kind, s = created kind
  step := step

/-! ### What a writer has in hand -/

/-- A transaction was prepared for a row that was not terminal, with a result that does not fall behind it. -/
structure ApplyOk (callback : Option GatewayTaskStatus) (expected : GatewayTaskStatus) (res : GenerationTerminal) :
    Prop where
  notTerminal : expected.isTerminal = false
  rank_le : expected.rank ≤ res.status.rank
  keys : res.status = SUCCEEDED → ∃ keys, res.resultKeys = some keys ∧ keys ≠ []
  noKeys : res.status ≠ SUCCEEDED → res.resultKeys = none
  terminal : ∀ status ∈ callback, res.status.isTerminal = status.isTerminal

/-- What holds of a writer on its own. -/
def Proc.Ok : Proc → Prop
  | .apply callback expected res _ => ApplyOk callback expected res
  | .ensure _ _ | .ensureCreate _ _ _ => False
  | _ => True

/-- A normalized result that is no success has no results. -/
private theorem normalize_noKeys {status : GatewayTaskStatus} {urls : Option (List GatewayResultItem)}
    {reason : Option String} {res : GenerationTerminal} (h : normalizeGatewayTerminal status urls reason = .ok res)
    (hs : res.status ≠ SUCCEEDED) : res.resultKeys = none := by
  unfold normalizeGatewayTerminal at h
  split at h
  · split at h
    · cases h
      rfl
    · cases h
      rfl
    · cases h
      exact absurd rfl hs
  · split at h
    · split at h
      · cases h
      · cases h
        rfl
    · split at h
      · cases h
      · cases h
        rfl

theorem applyResult_ok {callback : Option GatewayTaskStatus} {t : GenerateTask} {status : GatewayTaskStatus}
    {urls : Option (List GatewayResultItem)} {reason : Option String} {res : GenerationTerminal} {callbackSent : Bool}
    (h : normalizeGatewayTerminal status urls reason = .ok res) (hc : ∀ c ∈ callback, c = status) :
    (applyResult callback t res callbackSent).Ok := by
  unfold applyResult
  split
  case isTrue => cases callback <;> trivial
  case isFalse hn =>
    rw [not_or] at hn
    have hexp : t.status.isTerminal = false := by simpa using hn.1
    refine ⟨hexp, ?_, normalize_succeeded h, normalize_noKeys h, ?_⟩
    · cases hr : res.status.isTerminal with
      | true => exact Nat.le_of_lt (rank_lt_of_terminal hexp hr)
      | false => exact Nat.le_of_not_lt fun hlt => hn.2 ⟨hr, hlt⟩
    · intro c hmem
      rw [hc c hmem]
      exact (normalize_status h).1

theorem handleCallback_ok (t : GenerateTask) (unionTaskId : Nat) (report : GatewayReport) :
    (handleCallback t unionTaskId report).Ok := by
  unfold handleCallback
  split
  · trivial
  split
  · trivial
  split
  · trivial
  split
  · trivial
  case h_2 res h => exact applyResult_ok h fun c hc => (Option.some.inj hc).symm

theorem observeOneNonTerminalTask_ok (t : GenerateTask) (status : GatewayTaskStatus)
    (response : Option GatewayReport) : (observeOneNonTerminalTask t status response).Ok := by
  unfold observeOneNonTerminalTask
  split
  · trivial
  split
  · split
    · trivial
    · split
      · trivial
      case h_2 res h => exact applyResult_ok h nofun
  · split
    · trivial
    case h_2 res h => exact applyResult_ok h nofun

/-! ### The row and its assets -/

/-- A task that has not succeeded has no results and no assets; one that has succeeded has one asset for each key. -/
structure Row (t : GenerateTask) (assets : List Asset) : Prop where
  pending : t.status ≠ SUCCEEDED → t.resultKeys = none ∧ t.resultAssetIds = none ∧ assets = []
  succeeded : t.status = SUCCEEDED → ∃ keys, t.resultKeys = some keys ∧ keys ≠ [] ∧ t.resultAssetIds.getD [] ≠ [] ∧
    ∀ key, countKey assets key = if key ∈ keys.map GatewayResultItem.url then 1 else 0

/-- How a row and its assets may go on. -/
structure Advances (t t' : GenerateTask) (assets assets' : List Asset) : Prop where
  terminal : t.status.isTerminal → t'.status = t.status
  rank : t.status.rank ≤ t'.status.rank
  assets : assets <+: assets'

theorem Advances.refl (t : GenerateTask) (assets : List Asset) : Advances t t assets assets :=
  ⟨fun _ => rfl, le_rfl, List.prefix_refl assets⟩

variable {t t' : GenerateTask} {assets : List Asset}

/-- A row that is not terminal moves to a status of at least its rank, which is no success. -/
private theorem Row.move (hR : Row t assets) (hn : t.status.isTerminal = false) (hk : t'.resultKeys = t.resultKeys)
    (hi : t'.resultAssetIds = t.resultAssetIds) (hs : t'.status ≠ SUCCEEDED) (hr : t.status.rank ≤ t'.status.rank) :
    Row t' assets ∧ Advances t t' assets assets := by
  have hne : t.status ≠ SUCCEEDED := by
    intro he
    rw [he] at hn
    cases hn
  refine ⟨⟨fun _ => ?_, fun he => absurd he hs⟩, fun ht => ?_, hr, List.prefix_refl assets⟩
  · rw [hk, hi]
    exact hR.pending hne
  · rw [hn] at ht
    cases ht

/-- A task that is not over ends without a result. -/
private theorem Row.stop (hR : Row t assets) (hn : ¬ t.status.isTerminal) (ht : t'.status.isTerminal)
    (hs : t'.status ≠ SUCCEEDED) (hk : t'.resultKeys = t.resultKeys) (hi : t'.resultAssetIds = t.resultAssetIds) :
    Row t' assets ∧ Advances t t' assets assets := by
  have hn' : t.status.isTerminal = false := by simpa using hn
  exact hR.move hn' hk hi hs (Nat.le_of_lt (rank_lt_of_terminal hn' ht))

/-- A write to another column. -/
private theorem Row.keep (hR : Row t assets) (hs : t'.status = t.status) (hk : t'.resultKeys = t.resultKeys)
    (hi : t'.resultAssetIds = t.resultAssetIds) : Row t' assets ∧ Advances t t' assets assets := by
  refine ⟨⟨fun hne => ?_, fun he => ?_⟩, fun _ => hs, by rw [hs], List.prefix_refl assets⟩
  · rw [hk, hi]
    exact hR.pending (hs ▸ hne)
  · rw [hk, hi]
    exact hR.succeeded (hs ▸ he)

/-- The transaction of a success creates one asset for each key. -/
private theorem Row.succeed (hR : Row t assets) (hn : t.status.isTerminal = false) {res : GenerationTerminal}
    (hs : res.status = SUCCEEDED) {keys : List GatewayResultItem} (hk : res.resultKeys = some keys) (hne : keys ≠ [])
    (sent : Bool) :
    Row (ensureResultAssets (t.update res sent) assets).1 (ensureResultAssets (t.update res sent) assets).2 ∧
      Advances t (ensureResultAssets (t.update res sent) assets).1 assets
        (ensureResultAssets (t.update res sent) assets).2 := by
  have hns : t.status ≠ SUCCEEDED := by
    intro he
    rw [he] at hn
    cases hn
  obtain ⟨-, hids, rfl⟩ := hR.pending hns
  obtain ⟨status, resultKeys, errorMessage⟩ := res
  cases hs
  cases hk
  let t₁ := t.update ⟨SUCCEEDED, some keys, errorMessage⟩ sent
  have hdo : t₁.hasNothingToEnsure = false := by
    simp [t₁, GenerateTask.hasNothingToEnsure, GenerateTask.update, hids, hne]
  have hens : ensureResultAssets t₁ [] =
      ({ t₁ with resultAssetIds := some (createAssets [] keys).2 }, (createAssets [] keys).1) := by
    rw [ensureResultAssets, if_neg (by rw [hdo]; nofun)]
    rfl
  rw [hens]
  refine ⟨⟨fun h => absurd rfl h, fun _ => ⟨keys, rfl, hne, ?_, fun key => ?_⟩⟩, fun ht => ?_, ?_, List.nil_prefix⟩
  · show (createAssets [] keys).2 ≠ []
    rw [← List.length_pos_iff, createAssets_ids_length]
    exact List.length_pos_iff.2 hne
  · rw [countKey_createAssets]
    simp [countKey]
  · rw [hn] at ht
    cases ht
  · exact Nat.le_of_lt (rank_lt_of_terminal hn rfl)

/-! ### One step -/

/-- What holds in every reachable state. -/
structure Inv (s : State ω) : Prop where
  row : Row s.task s.assets
  proc : ∀ w, (s.proc w).Ok

variable {s s' : State ω}

private theorem proc_update_ok (hI : Inv s) {w : ω} {p : Proc} (hp : p.Ok) (w' : ω) :
    (Function.update s.proc w p w').Ok := by
  by_cases hw : w' = w
  · subst hw
    rwa [Function.update_self]
  · rw [Function.update_of_ne hw]
    exact hI.proc w'

/-- A writer that has only read. -/
private theorem Inv.setProc (hI : Inv s) {w : ω} {p : Proc} (hp : p.Ok) :
    Inv (s.setProc w p) ∧ Advances s.task (s.setProc w p).task s.assets (s.setProc w p).assets :=
  ⟨⟨hI.row, proc_update_ok hI hp⟩, Advances.refl s.task s.assets⟩

/-- A writer that writes the row. -/
private theorem Inv.setTask (hI : Inv s) {w : ω} {p : Proc} (hp : p.Ok) {t : GenerateTask}
    (ht : Row t s.assets ∧ Advances s.task t s.assets s.assets) :
    Inv ((s.setTask t).setProc w p) ∧
      Advances s.task ((s.setTask t).setProc w p).task s.assets ((s.setTask t).setProc w p).assets :=
  ⟨⟨ht.1, proc_update_ok hI hp⟩, ht.2⟩

/-- The transaction of `apply_result`. -/
private theorem Inv.apply (hI : Inv s) {w : ω} {p : Proc} (hp : p.Ok) {callback : Option GatewayTaskStatus}
    {expected : GatewayTaskStatus} {res : GenerationTerminal} {sent : Bool} (hA : ApplyOk callback expected res)
    {t : GenerateTask} (ht : s.task.updateIfStatus expected res sent = some t) {u : GenerateTask × List Asset}
    (hu : u = if res.status = SUCCEEDED then ensureResultAssets t s.assets else (t, s.assets)) :
    Inv { (s.setTask u.1).setProc w p with assets := u.2 } ∧ Advances s.task u.1 s.assets u.2 := by
  obtain ⟨⟨hst, -⟩, ht⟩ := Option.ite_none_right_eq_some.1 ht
  cases ht
  have hn : s.task.status.isTerminal = false := by rw [hst]; exact hA.notTerminal
  have hrow : Row u.1 u.2 ∧ Advances s.task u.1 s.assets u.2 := by
    subst hu
    split
    case isTrue hs =>
      obtain ⟨keys, hk, hne⟩ := hA.keys hs
      exact hI.row.succeed hn hs hk hne sent
    case isFalse hs =>
      refine hI.row.move hn ?_ rfl hs ?_
      · show res.resultKeys.or _ = _
        rw [hA.noKeys hs]
        rfl
      · rw [hst]
        exact hA.rank_le
  exact ⟨⟨hrow.1, proc_update_ok hI hp⟩, hrow.2⟩

theorem inv_step {a : Action ω} (hI : Inv s) (h : step s a = some s') :
    Inv s' ∧ Advances s.task s'.task s.assets s'.assets := by
  cases a with
  | callback w unionTaskId report =>
    simp only [step, Option.ite_none_right_eq_some, Option.some.injEq] at h
    obtain ⟨-, rfl⟩ := h
    exact hI.setProc (handleCallback_ok s.task unionTaskId report)
  | observe w status response =>
    simp only [step, Option.ite_none_right_eq_some, Option.some.injEq] at h
    obtain ⟨-, rfl⟩ := h
    exact hI.setProc (observeOneNonTerminalTask_ok s.task status response)
  | apply w =>
    simp only [step] at h
    split at h
    case h_2 => cases h
    case h_1 callback expected res sent hw =>
      have hA : ApplyOk callback expected res := by
        have := hI.proc w
        rwa [hw] at this
      split at h
      case h_1 =>
        cases h
        exact hI.setProc (by cases callback <;> trivial)
      case h_2 t ht =>
        cases h
        exact hI.apply (by cases callback <;> trivial) hA ht rfl
  | markCallbackSent w =>
    simp only [step] at h
    split at h
    case h_2 => cases h
    case h_1 =>
      cases h
      refine hI.setTask (p := .reread _) trivial ?_
      unfold GenerateTask.markCallbackSent
      split
      · exact hI.row.keep rfl rfl rfl
      · exact hI.row.keep rfl rfl rfl
  | reread w =>
    simp only [step] at h
    split at h
    case h_2 => cases h
    case h_1 =>
      cases h
      exact hI.setProc (by trivial)
  | cancel w gatewayFails =>
    simp only [step, Option.ite_none_right_eq_some, Option.some.injEq] at h
    obtain ⟨-, rfl⟩ := h
    exact hI.setProc (by split <;> trivial)
  | cancelWrite w =>
    simp only [step, Option.ite_none_right_eq_some, Option.some.injEq] at h
    obtain ⟨-, rfl⟩ := h
    refine hI.setTask (p := .finished) trivial ?_
    unfold GenerateTask.cancelIfNonTerminal
    split
    case isTrue => exact hI.row.keep rfl rfl rfl
    case isFalse hn =>
      exact hI.row.stop hn rfl nofun rfl rfl
  | delete w =>
    simp only [step, Option.ite_none_right_eq_some, Option.some.injEq] at h
    obtain ⟨-, rfl⟩ := h
    exact hI.setProc (by split <;> trivial)
  | deleteWrite w =>
    simp only [step, Option.ite_none_right_eq_some, Option.some.injEq] at h
    obtain ⟨-, rfl⟩ := h
    exact hI.setTask (p := .finished) trivial (hI.row.keep rfl rfl rfl)
  | submitted w answer =>
    simp only [step, Option.ite_none_right_eq_some] at h
    obtain ⟨-, h⟩ := h
    split at h <;> cases h <;> exact hI.setProc (by trivial)
  | bind w =>
    simp only [step] at h
    split at h
    case h_2 => cases h
    case h_1 u hw =>
      split at h
      case h_1 t ht =>
        cases h
        obtain ⟨hc, ht⟩ := Option.ite_none_right_eq_some.1 ht
        cases ht
        refine hI.setTask (p := .finished) trivial (hI.row.move ?_ rfl rfl nofun ?_)
        · rw [hc]
          rfl
        · rw [hc]
          exact Nat.le_succ 1
      case h_2 =>
        cases h
        exact hI.setProc (by trivial)
  | bindAgain w =>
    simp only [step] at h
    split at h
    case h_2 => cases h
    case h_1 =>
      cases h
      exact hI.setTask (p := .finished) trivial (hI.row.keep rfl rfl rfl)
  | fail w =>
    simp only [step] at h
    split at h
    case h_2 => cases h
    case h_1 message hw =>
      cases h
      refine hI.setTask (p := .finished) trivial ?_
      unfold GenerateTask.markFailedIfNonTerminal
      split
      case isTrue => exact hI.row.keep rfl rfl rfl
      case isFalse hn =>
        exact hI.row.stop hn rfl nofun rfl rfl
  | ensure w =>
    simp only [step, Option.ite_none_right_eq_some, Option.some.injEq] at h
    obtain ⟨-, rfl⟩ := h
    refine hI.setProc ?_
    split
    case isTrue he =>
      -- a succeeded task has its assets: they come with the status
      obtain ⟨keys, -, -, hids, -⟩ := hI.row.succeeded he.1
      exact absurd he.2.1 hids
    case isFalse => trivial
  | ensureStep w =>
    have hw := hI.proc w
    simp only [step] at h
    split at h
    case h_1 _ hp | h_2 _ _ _ hp | h_3 _ _ _ hp =>
      rw [hp] at hw
      exact hw.elim
    case h_4 => cases h
  | abort w =>
    simp only [step] at h
    split at h
    case h_1 | h_2 | h_3 => cases h
    case h_4 =>
      cases h
      exact hI.setProc (by trivial)

theorem inv_reach (h : (generation (ω := ω)).Reach Free s) : Inv s := by
  refine h.induct ?_ fun _ _ _ hI _ ht => (inv_step hI ht).1
  rintro _ ⟨kind, rfl⟩
  exact ⟨⟨fun _ => ⟨rfl, rfl, rfl⟩, nofun⟩, fun _ => trivial⟩

/-! ### Every run -/

private theorem Advances.trans {t₁ t₂ t₃ : GenerateTask} {a₁ a₂ a₃ : List Asset} (h : Advances t₁ t₂ a₁ a₂)
    (h' : Advances t₂ t₃ a₂ a₃) : Advances t₁ t₃ a₁ a₃ where
  terminal ht := by
    have hs := h.terminal ht
    rw [← hs]
    exact h'.terminal (by rw [hs]; exact ht)
  rank := h.rank.trans h'.rank
  assets := h.assets.trans h'.assets

theorem advances_run (h : (generation (ω := ω)).Reach Free s) (hr : (generation (ω := ω)).Run Free s s') :
    Advances s.task s'.task s.assets s'.assets :=
  hr.rel (P := Inv) (R := fun s s' => Advances s.task s'.task s.assets s'.assets)
    (fun s => Advances.refl s.task s.assets) (fun _ _ _ => Advances.trans)
    (fun _ _ _ hI _ ht => (inv_step hI ht).1) (fun _ _ _ hI _ ht => (inv_step hI ht).2) (inv_reach h)

/-- In every run a terminal status is not left and the rank of the status does not decrease; assets are only added,
and a succeeded task has exactly one for each storage key of its results. -/
theorem status_and_assets (h : (generation (ω := ω)).Reach Free s) (hr : (generation (ω := ω)).Run Free s s') :
    (s.task.status.isTerminal → s'.task.status = s.task.status) ∧
    s.task.status.rank ≤ s'.task.status.rank ∧ s.assets <+: s'.assets ∧
    (s'.task.status = SUCCEEDED → ∃ keys, s'.task.resultKeys = some keys ∧ keys ≠ [] ∧
      ∀ item ∈ keys, countKey s'.assets item.url = 1) := by
  have hA := advances_run h hr
  refine ⟨hA.terminal, hA.rank, hA.assets, fun hs => ?_⟩
  obtain ⟨keys, hk, hne, -, hcount⟩ := (inv_reach (h.run hr)).row.succeeded hs
  refine ⟨keys, hk, hne, fun item hitem => ?_⟩
  rw [hcount, if_pos (List.mem_map_of_mem hitem)]

end Model

/-- A success with a repeated key is called back while an older observation is under way. -/
theorem status_and_assets_observed :
    ∃ s : State (Fin 4), generation.Run Free (created .IMAGE) s ∧ s.task.status = SUCCEEDED ∧
      ∃ keys, s.task.resultKeys = some keys ∧ keys ≠ [] ∧ ∀ item ∈ keys, countKey s.assets item.url = 1 := by
  let a : GatewayResultItem := ⟨"result/a", some 2, some 1, some 1⟩
  let b : GatewayResultItem := ⟨"result/b", some 2, some 1, some 1⟩
  obtain ⟨s, hs, -, hp⟩ := Machine.reach_of_exec (M := generation (ω := Fin 4)) (C := Free) (s := created .IMAGE)
    (p := fun s => decide (s.task.status = SUCCEEDED))
    [.submitted 0 (.ok 7), .bind 0, .observe 1 RUNNING none, .callback 2 7 ⟨SUCCEEDED, some [a, b, a], ""⟩,
      .apply 2, .apply 1] ⟨_, rfl⟩ (by decide)
  have hrun := Machine.run_of_exec hs
  have hst : s.task.status = SUCCEEDED := of_decide_eq_true hp
  exact ⟨s, hrun, hst, (status_and_assets (.of_init ⟨_, rfl⟩) hrun).2.2.2 hst⟩

end NexusStudio.Generation
