import NexusStudio.Lib.Machine
import NexusStudio.Server.Errors
import Mathlib.Data.List.Dedup
import Mathlib.Logic.Function.Basic

/-!
# Upgrade invites of a conversation

`create_proposal`, `decline` and `confirm` of `UpgradeInviteService`: a proposal to turn a chat into a workshop project.

* (machine) Every call of a repository is one step, and every step may fail instead.
* (law) At most one proposal is pending, none leaves this status twice, and the proposal of the confirm that has made
  the project is confirmed when the confirm has settled, and stays so.
* (defect) Statuses are read first and saved later without a look at what is stored by then, and a failure after the
  project has been made leaves the proposal as it was.
* (condition) `Safe` is exact: `law_step_iff`.
-/

set_option linter.unusedSectionVars false

namespace NexusStudio.UpgradeInvite

open Concurrent

/-- `UpgradeInviteProposalStatus`. -/
inductive Status
  | pending
  | confirmed
  | declined
  | superseded
  deriving DecidableEq, Repr

def Status.text : Status → String
  | pending => "pending"
  | confirmed => "confirmed"
  | declined => "declined"
  | superseded => "superseded"

structure Proposal where
  expertKeys : List String
  primaryExpertKey : String
  rationale : String
  hostNarration : String
  sourceUserText : String
  status : Status
  deriving DecidableEq, Repr

/-- `ValidatedUpgradeInviteProposal`. -/
structure Validated where
  expertKeys : List String
  primaryExpertKey : String
  rationale : String
  hostNarration : String
  deriving DecidableEq, Repr

/-! ### Validation -/

/-- `validate_invite_expert_keys` without `require_non_empty`; `known` are the keys that `get_preset` finds. -/
def validateInviteExpertKeys (known : String → Bool) (expertKeys : List String) (primaryExpertKey : String) :
    Except String (List String) :=
  let keys := ((expertKeys.map strip).filter fun k => k ≠ "").eraseDups
  if keys = [] then .ok []
  else if strip primaryExpertKey ∉ keys then .error "primary_expert_key must be in expert_keys"
  else
    match keys.find? fun k => !known k with
    | some k => .error s!"unknown expert preset: {k}"
    | none => .ok keys

def validateUpgradeInviteProposal (known : String → Bool) (expertKeys : List String)
    (primaryExpertKey rationale hostNarration : String) : Except String Validated :=
  if strip rationale = "" then .error "rationale required"
  else if strip hostNarration = "" then .error "host_narration required"
  else
    match validateInviteExpertKeys known expertKeys primaryExpertKey with
    | .error e => .error e
    | .ok keys => .ok ⟨keys, if keys = [] then "" else strip primaryExpertKey, strip rationale, strip hostNarration⟩

theorem primary_mem_of_ok {known : String → Bool} {expertKeys : List String} {primary rationale host : String}
    {v : Validated} (h : validateUpgradeInviteProposal known expertKeys primary rationale host = .ok v)
    (hne : v.expertKeys ≠ []) : v.primaryExpertKey ∈ v.expertKeys := by
  unfold validateUpgradeInviteProposal at h
  split at h
  · cases h
  · split at h
    · cases h
    · split at h
      · cases h
      · next keys hk =>
        obtain rfl := Except.ok.inj h
        rw [if_neg hne]
        unfold validateInviteExpertKeys at hk
        dsimp only at hk
        split at hk
        · obtain rfl := Except.ok.inj hk
          exact absurd rfl hne
        · split at hk
          · cases hk
          · next hp =>
            split at hk
            · cases hk
            · obtain rfl := Except.ok.inj hk
              exact not_not.1 hp

/-! ### The calls -/

inductive Call
  | createProposal (expertKeys : List String) (primaryExpertKey rationale hostNarration sourceUserText : String)
  | decline (proposalId : Nat)
  | confirm (proposalId : Nat) (expertKeys : List String) (primaryExpertKey projectName : String)
      (carriedMessageCount : Int)
  deriving DecidableEq, Repr

/-- `ConfirmedUpgradeInvite`. -/
structure Confirmed where
  primaryExpertId : Option String
  hostNarration : String
  sourceUserText : String
  deriving DecidableEq, Repr

/-- Where a call is: the repository call that comes next. -/
inductive Pc
  | start
  -- `create_proposal`: the lookup of the project, the update of the pending ones, the new row
  | checking (v : Validated)
  | superseding (v : Validated)
  | inserting (v : Validated)
  -- `decline`: the status, the conversation
  | declining (p : Nat)
  | declined
  -- `confirm`: the project, its roster and room, the roster again, the status, the conversation, the message
  | upgrading (p : Nat) (v : Validated) (sourceUserText : String)
  | upgraded (p : Nat) (v : Validated) (sourceUserText : String)
  | seating (roster todo : List String) (p : Nat) (v : Validated) (sourceUserText : String)
  | saving (p : Nat) (v : Validated) (c : Confirmed)
  | saved (c : Confirmed)
  | telling (c : Confirmed)
  | created (p : Nat)
  | returned (c : Option Confirmed)
  | raised (message : String)
  deriving DecidableEq, Repr

structure State (ι : Type*) where
  proposals : Nat → Option Proposal
  -- the sequence of the ids
  nextId : Nat
  -- the confirm that has made the project of the conversation
  upgradedBy : Option ι
  -- the preset keys of the roster and of the room
  roster : List String
  room : List String
  inviteDeclined : Bool
  messages : List String
  pc : ι → Pc
  -- how often a proposal has left the status `pending`
  left : Nat → Nat

inductive Action (ι : Type*)
  | next (i : ι)
  -- the repository call raises
  | fail (i : ι)
  deriving DecidableEq, Repr

section Model

variable {ι : Type*} [DecidableEq ι]

namespace State

variable (s : State ι)

def setPc (i : ι) (c : Pc) : State ι := { s with pc := Function.update s.pc i c }

def raise (i : ι) (message : String) : State ι := s.setPc i (.raised message)

def Pending (p : Nat) : Prop := ∃ row, s.proposals p = some row ∧ row.status = .pending

instance (p : Nat) : Decidable (s.Pending p) :=
  match h : s.proposals p with
  | none => .isFalse fun ⟨_, hr, _⟩ => by simp [h] at hr
  | some row => decidable_of_iff (row.status = .pending) (by simp [Pending, h])

/-- The status of a stored proposal is saved, whatever it was. -/
def saveStatus (p : Nat) (status : Status) (change : Proposal → Proposal) : State ι :=
  { s with
    proposals := Function.update s.proposals p ((s.proposals p).map fun row => { change row with status := status })
    left := if s.Pending p then Function.update s.left p (s.left p + 1) else s.left }

/-- The update of all pending proposals to `superseded`. -/
def supersede : State ι :=
  { s with
    proposals := fun p => (s.proposals p).map fun row =>
      if row.status = .pending then { row with status := .superseded } else row
    left := fun p => if s.Pending p then s.left p + 1 else s.left p }

def insert (row : Proposal) : State ι :=
  { s with proposals := Function.update s.proposals s.nextId (some row), nextId := s.nextId + 1 }

end State

variable (known : String → Bool) (R : ι → Call)

/-- The checks of `confirm` on the stored proposal. -/
def checkConfirm (row : Proposal) (expertKeys : List String) (primaryExpertKey : String) : Except String Validated :=
  if row.status ≠ .pending then .error s!"proposal not pending: {row.status.text}"
  else
    match validateUpgradeInviteProposal known expertKeys primaryExpertKey row.rationale row.hostNarration with
    | .error e => .error e
    | .ok v =>
      if v.expertKeys.any fun k => k ∉ row.expertKeys then
        .error "confirm expert_keys must be a subset of the pending proposal"
      else .ok v

/-- The checks of the project service before it makes the project. -/
def checkProject (projectName : String) (carriedMessageCount : Int) : Except String Unit :=
  if strip projectName = "" then .error "project name required"
  else if carriedMessageCount < 0 then .error "carried_message_count must be >= 0"
  else .ok ()

/-- The first repository call of a request. -/
def startStep (s : State ι) (i : ι) : State ι :=
  match R i with
  | .createProposal expertKeys primary rationale host _ =>
    match validateUpgradeInviteProposal known expertKeys primary rationale host with
    | .error e => s.raise i e
    | .ok v => s.setPc i (.checking v)
  | .decline p =>
    match s.proposals p with
    | none => s.raise i "proposal not found"
    | some row =>
      if row.status ≠ .pending then s.raise i s!"proposal not pending: {row.status.text}"
      else s.setPc i (.declining p)
  | .confirm p expertKeys primary projectName carried =>
    match s.proposals p with
    | none => s.raise i "proposal not found"
    | some row =>
      match checkConfirm known row expertKeys primary with
      | .error e => s.raise i e
      | .ok v =>
        match checkProject projectName carried with
        | .error e => s.raise i e
        | .ok () => s.setPc i (.upgrading p v row.sourceUserText)

/-- The next repository call of a request, up to the one after it. -/
def next (s : State ι) (i : ι) : Option (State ι) :=
  match s.pc i with
  | .start => some (startStep known R s i)
  | .checking v =>
    if s.upgradedBy = none then some (s.setPc i (.superseding v))
    else some (s.raise i "conversation already upgraded")
  | .superseding v => some (s.supersede.setPc i (.inserting v))
  | .inserting v =>
    match R i with
    | .createProposal _ _ _ _ text =>
      let row := ⟨v.expertKeys, v.primaryExpertKey, v.rationale, v.hostNarration, text, .pending⟩
      some ((s.insert row).setPc i (.created s.nextId))
    | _ => none
  | .declining p => some ((s.saveStatus p .declined id).setPc i .declined)
  | .declined => some { s.setPc i (.returned none) with inviteDeclined := true }
  | .upgrading p v text =>
    if s.upgradedBy = none then
      let c : Pc := if v.expertKeys = [] then .saving p v ⟨none, v.hostNarration, text⟩ else .upgraded p v text
      some { s.setPc i c with upgradedBy := some i, roster := s.roster ++ v.expertKeys }
    else some (s.raise i "group chat already bound to a workshop project")
  | .upgraded p v text => some (s.setPc i (.seating s.roster v.expertKeys p v text))
  | .seating roster (k :: todo) p v text =>
    if k ∈ roster then some { s.setPc i (.seating roster todo p v text) with room := s.room ++ [k] }
    else some (s.raise i s!"expert not seeded: {k}")
  | .seating _ [] p v text =>
    if v.primaryExpertKey ∈ s.roster then
      some (s.setPc i (.saving p v ⟨some v.primaryExpertKey, v.hostNarration, text⟩))
    else some (s.raise i s!"primary expert not on roster: {v.primaryExpertKey}")
  | .saving p v c =>
    some ((s.saveStatus p .confirmed fun row =>
      { row with expertKeys := v.expertKeys, primaryExpertKey := v.primaryExpertKey }).setPc i (.saved c))
  | .saved c => some { s.setPc i (.telling c) with inviteDeclined := false }
  | .telling c => some { s.setPc i (.returned (some c)) with messages := s.messages ++ [c.hostNarration] }
  | .created _ | .returned _ | .raised _ => none

def Pc.over : Pc → Bool
  | created _ | returned _ | raised _ => true
  | _ => false

def step (s : State ι) : Action ι → Option (State ι)
  | .next i => next known R s i
  | .fail i => if (s.pc i).over then none else some (s.raise i "")

/-- The requests on a conversation without proposals and project. -/
def invites : Machine (State ι) (Action ι) where
  init s := s = ⟨fun _ => none, 0, none, [], [], false, [], fun _ => .start, fun _ => 0⟩
  step := step known R

/-! ### The law and its condition -/

/-- The proposal that the call confirms. -/
def Call.confirms : Call → Option Nat
  | confirm p .. => some p
  | _ => none

/-- The project is made, and the status of the proposal not yet saved. -/
def Pc.unsaved : Pc → Option Nat
  | upgraded p .. | seating _ _ p .. | saving p .. => some p
  | _ => none

/-- The call has saved its status, or is over. -/
def Pc.settled : Pc → Bool
  | saved _ | telling _ | returned _ | raised _ => true
  | _ => false

def State.statusOf (s : State ι) (p : Nat) : Option Status := (s.proposals p).map Proposal.status

structure Law (s : State ι) : Prop where
  onePending : ∀ p q, s.Pending p → s.Pending q → p = q
  leftOnce : ∀ p, s.left p ≤ 1
  confirmed : ∀ i p, s.upgradedBy = some i → (R i).confirms = some p → (s.pc i).settled → s.statusOf p = some .confirmed

/-- A proposal is inserted when none is pending, and declined when it is not confirmed; no call fails between the making
of the project and the saving of the status. -/
def Safe (s : State ι) : Action ι → Prop
  | .next i =>
    match s.pc i with
    | .inserting _ => ∀ p < s.nextId, ¬ s.Pending p
    | .declining p => s.statusOf p ≠ some .confirmed
    | _ => True
  | .fail i => (s.pc i).unsaved = none

instance (s : State ι) (a : Action ι) : Decidable (Safe s a) := by
  unfold Safe
  repeat' split
  all_goals infer_instance

/-! ### The invariant -/

variable {known R} {s s' : State ι} {i : ι} {c : Pc}

/-- The proposal that a `confirm` has read. -/
def Pc.target : Pc → Option Nat
  | upgrading p .. | upgraded p .. | seating _ _ p .. | saving p .. => some p
  | _ => none

/-- The experts that a `confirm` looks up are on the roster. -/
def Pc.Ready (roster : List String) : Pc → Prop
  | upgrading _ v _ => v.expertKeys ≠ [] → v.primaryExpertKey ∈ v.expertKeys
  | upgraded _ v _ => v.primaryExpertKey ∈ roster ∧ v.expertKeys ⊆ roster
  | seating names todo _ v _ => v.primaryExpertKey ∈ roster ∧ todo ⊆ names
  | _ => True

structure Inv (R : ι → Call) (s : State ι) : Prop where
  rows : ∀ p, s.proposals p ≠ none → p < s.nextId
  left : ∀ p, s.left p ≤ 1 ∧ (s.left p ≠ 0 → s.proposals p ≠ none ∧ ¬ s.Pending p)
  onePending : ∀ p q, s.Pending p → s.Pending q → p = q
  upgrade : ∀ i, s.upgradedBy = some i → ∃ p, (R i).confirms = some p ∧
    ((s.pc i).unsaved = some p ∨ (s.pc i).settled ∧ s.statusOf p = some .confirmed)
  unsaved : ∀ i p, (s.pc i).unsaved = some p → s.upgradedBy = some i
  confirmed : ∀ p, s.statusOf p = some .confirmed →
    ∃ i, s.upgradedBy = some i ∧ (R i).confirms = some p ∧ (s.pc i).settled
  target : ∀ i p, (s.pc i).target = some p → (R i).confirms = some p ∧ s.proposals p ≠ none
  ready : ∀ i, (s.pc i).Ready s.roster

theorem Pc.settled_eq_false_of_unsaved {p : Nat} (h : c.unsaved = some p) : c.settled = false := by
  cases c with
  | upgraded | seating | saving => rfl
  | _ => cases h

theorem law_of_inv (hI : Inv R s) : Law R s := by
  refine ⟨hI.onePending, fun p => (hI.left p).1, fun i p hi hp hs => ?_⟩
  obtain ⟨q, hq, hu | ⟨-, hc⟩⟩ := hI.upgrade i hi
  · rw [Pc.settled_eq_false_of_unsaved hu] at hs
    cases hs
  · rw [← Option.some.inj (hq.symm.trans hp)]
    exact hc

/-- What holds of the new position of `i` and of the other calls. -/
theorem update_cases (P : ι → Pc → Prop) (hi : P i c) (ho : ∀ j, j ≠ i → P j (s.pc j)) (j : ι) :
    P j (Function.update s.pc i c j) :=
  (Function.forall_update_iff s.pc P).2 ⟨hi, ho⟩ j

/-- A step of `i` that changes neither the proposals nor the project. -/
theorem inv_pc (hI : Inv R s) (hpc : s'.pc = Function.update s.pc i c)
    (hdata : s'.proposals = s.proposals ∧ s'.nextId = s.nextId ∧ s'.left = s.left ∧ s'.upgradedBy = s.upgradedBy ∧
      s'.roster = s.roster)
    (hunsaved : c.unsaved = (s.pc i).unsaved) (hsettled : (s.pc i).settled → c.settled)
    (htarget : ∀ p, c.target = some p → (R i).confirms = some p ∧ s.proposals p ≠ none)
    (hready : c.Ready s.roster) : Inv R s' := by
  obtain ⟨hp, hn, hl, hu, hr⟩ := hdata
  have hpending : ∀ p, s'.Pending p ↔ s.Pending p := fun p => by rw [State.Pending, State.Pending, hp]
  have hstatus : ∀ p, s'.statusOf p = s.statusOf p := fun p => by rw [State.statusOf, State.statusOf, hp]
  have hown : ∀ j, (s'.pc j).unsaved = (s.pc j).unsaved := by
    rw [hpc]
    exact update_cases (fun j c => c.unsaved = (s.pc j).unsaved) hunsaved fun _ _ => rfl
  have hstill : ∀ j, (s.pc j).settled → (s'.pc j).settled := by
    rw [hpc]
    exact update_cases (fun j c => (s.pc j).settled → c.settled) hsettled fun _ _ => id
  refine ⟨fun p h => ?_, fun p => ?_, fun p q h h' => ?_, fun j hj => ?_, fun j p h => ?_, fun p h => ?_, ?_, ?_⟩
  · rw [hp] at h
    rw [hn]
    exact hI.rows p h
  · rw [hl, hpending, hp]
    exact hI.left p
  · exact hI.onePending p q ((hpending p).1 h) ((hpending q).1 h')
  · rw [hu] at hj
    obtain ⟨p, hR, h⟩ := hI.upgrade j hj
    refine ⟨p, hR, ?_⟩
    rw [hown, hstatus]
    exact h.imp_right fun h => ⟨hstill j h.1, h.2⟩
  · rw [hown] at h
    rw [hu]
    exact hI.unsaved j p h
  · rw [hstatus] at h
    obtain ⟨j, hj, hR, hs⟩ := hI.confirmed p h
    exact ⟨j, hu.trans hj, hR, hstill j hs⟩
  · rw [hp, hpc]
    exact update_cases (fun j c => ∀ p, c.target = some p → (R j).confirms = some p ∧ s.proposals p ≠ none) htarget
      fun j _ => hI.target j
  · rw [hr, hpc]
    exact update_cases (fun _ c => c.Ready s.roster) hready fun j _ => hI.ready j

/-! ### The changes of the proposals -/

theorem pending_iff_statusOf {p : Nat} : s.Pending p ↔ s.statusOf p = some .pending := by
  unfold State.Pending State.statusOf
  cases s.proposals p <;> simp

theorem ne_none_of_statusOf {p : Nat} {t : Status} (h : s.statusOf p = some t) : s.proposals p ≠ none := by
  intro hn
  rw [State.statusOf, hn] at h
  cases h

theorem statusOf_supersede (p : Nat) :
    s.supersede.statusOf p = (s.statusOf p).map fun t => if t = .pending then .superseded else t := by
  simp only [State.statusOf, State.supersede, Option.map_map]
  cases s.proposals p with
  | none => rfl
  | some row =>
    simp only [Option.map_some, Function.comp_apply]
    split <;> rfl

theorem statusOf_insert (row : Proposal) (p : Nat) :
    (s.insert row).statusOf p = if p = s.nextId then some row.status else s.statusOf p := by
  simp only [State.statusOf, State.insert]
  split
  · next hp => rw [hp, Function.update_self, Option.map_some]
  · next hp => rw [Function.update_of_ne hp]

theorem proposals_insert {row : Proposal} {p : Nat} (h : p ≠ s.nextId) : (s.insert row).proposals p = s.proposals p :=
  Function.update_of_ne h ..

theorem statusOf_saveStatus (p : Nat) (t : Status) (change : Proposal → Proposal) (q : Nat) :
    (s.saveStatus p t change).statusOf q = if q = p then (s.statusOf p).map fun _ => t else s.statusOf q := by
  simp only [State.statusOf, State.saveStatus]
  split
  · next hq =>
    rw [hq, Function.update_self]
    cases s.proposals p <;> rfl
  · next hq => rw [Function.update_of_ne hq]

theorem proposals_eq_none {p : Nat} : s.proposals p = none ↔ s.statusOf p = none := by
  rw [State.statusOf, Option.map_eq_none_iff]

/-- A change of the proposals alone that leaves the confirmed ones confirmed. -/
theorem inv_data (hI : Inv R s) (hsame : s'.pc = s.pc ∧ s'.upgradedBy = s.upgradedBy ∧ s'.roster = s.roster)
    (hrows : ∀ p, s'.proposals p ≠ none → p < s'.nextId)
    (hleft : ∀ p, s'.left p ≤ 1 ∧ (s'.left p ≠ 0 → s'.proposals p ≠ none ∧ ¬ s'.Pending p))
    (hone : ∀ p q, s'.Pending p → s'.Pending q → p = q)
    (hconfirmed : ∀ p, s'.statusOf p = some .confirmed ↔ s.statusOf p = some .confirmed)
    (hkept : ∀ p, s.proposals p ≠ none → s'.proposals p ≠ none) : Inv R s' := by
  obtain ⟨hpc, hu, hr⟩ := hsame
  refine ⟨hrows, hleft, hone, fun i hi => ?_, fun i p h => ?_, fun p h => ?_, fun i p h => ?_, fun i => ?_⟩
  · rw [hu] at hi
    obtain ⟨p, hR, h⟩ := hI.upgrade i hi
    refine ⟨p, hR, ?_⟩
    rw [hpc, hconfirmed]
    exact h
  · rw [hpc] at h
    rw [hu]
    exact hI.unsaved i p h
  · obtain ⟨i, hi, hR, hs⟩ := hI.confirmed p ((hconfirmed p).1 h)
    exact ⟨i, hu.trans hi, hR, by rw [hpc]; exact hs⟩
  · rw [hpc] at h
    exact (hI.target i p h).imp_right (hkept p)
  · rw [hpc, hr]
    exact hI.ready i

/-- What leaves `pending` has not left it before. -/
theorem left_eq_zero (hI : Inv R s) {p : Nat} (h : s.Pending p) : s.left p = 0 := by
  by_contra hl
  exact ((hI.left p).2 hl).2 h

theorem inv_supersede (hI : Inv R s) : Inv R s.supersede := by
  have hnone : ∀ p, s.supersede.proposals p ≠ none ↔ s.proposals p ≠ none := by
    intro p
    rw [ne_eq, ne_eq, proposals_eq_none, proposals_eq_none, statusOf_supersede, Option.map_eq_none_iff]
  have hpending : ∀ p, ¬ s.supersede.Pending p := by
    intro p
    rw [pending_iff_statusOf, statusOf_supersede]
    cases s.statusOf p with
    | none => nofun
    | some t => cases t <;> simp
  refine inv_data hI ⟨rfl, rfl, rfl⟩ (fun p hp => hI.rows p ((hnone p).1 hp)) (fun p => ?_)
    (fun p q hp => absurd hp (hpending p)) (fun p => ?_) fun p hp => (hnone p).2 hp
  · simp only [hnone, hpending, not_false_eq_true, and_true]
    simp only [State.supersede]
    split
    · next hp =>
      rw [left_eq_zero hI hp]
      exact ⟨le_refl 1, fun _ => ne_none_of_statusOf (pending_iff_statusOf.1 hp)⟩
    · exact ⟨(hI.left p).1, fun hl => ((hI.left p).2 hl).1⟩
  · rw [statusOf_supersede]
    cases s.statusOf p with
    | none => rfl
    | some t => cases t <;> simp

theorem inv_insert (hI : Inv R s) {row : Proposal} (hrow : row.status = .pending)
    (hsafe : ∀ p < s.nextId, ¬ s.Pending p) : Inv R (s.insert row) := by
  have hfresh : s.proposals s.nextId = none := by
    by_contra hn
    exact Nat.lt_irrefl _ (hI.rows _ hn)
  have hnot : ∀ p, ¬ s.Pending p := by
    intro p hp
    exact hsafe p (hI.rows p (ne_none_of_statusOf (pending_iff_statusOf.1 hp))) hp
  have hpending : ∀ p, (s.insert row).Pending p → p = s.nextId := by
    intro p hp
    rw [pending_iff_statusOf, statusOf_insert] at hp
    by_contra hne
    rw [if_neg hne] at hp
    exact hnot p (pending_iff_statusOf.2 hp)
  have hne : ∀ p, s.proposals p ≠ none → p ≠ s.nextId := by
    rintro p hp rfl
    exact hp hfresh
  have hkept : ∀ p, s.proposals p ≠ none → (s.insert row).proposals p ≠ none := by
    intro p hp
    rw [proposals_insert (hne p hp)]
    exact hp
  refine inv_data hI ⟨rfl, rfl, rfl⟩ (fun p hp => ?_) (fun p => ⟨(hI.left p).1, fun hl => ?_⟩)
    (fun p q hp hq => (hpending p hp).trans (hpending q hq).symm) (fun p => ?_) hkept
  · by_cases hpn : p = s.nextId
    · exact hpn ▸ Nat.lt_succ_self _
    · rw [proposals_insert hpn] at hp
      exact Nat.lt_succ_of_lt (hI.rows p hp)
  · have hold := ((hI.left p).2 hl).1
    exact ⟨hkept p hold, fun hp => hne p hold (hpending p hp)⟩
  · rw [statusOf_insert]
    split
    · next hp =>
      have hn : s.statusOf p = none := by rw [hp, ← proposals_eq_none, hfresh]
      rw [hrow, hn]
      simp
    · exact Iff.rfl

/-- The parts of the invariant about the proposals, after a status is saved. -/
theorem saveStatus_effect (hI : Inv R s) {p : Nat} {t : Status} (ht : t ≠ .pending) (change : Proposal → Proposal) :
    (∀ q, (s.saveStatus p t change).proposals q ≠ none ↔ s.proposals q ≠ none) ∧
    (∀ q, (s.saveStatus p t change).left q ≤ 1 ∧ ((s.saveStatus p t change).left q ≠ 0 →
      (s.saveStatus p t change).proposals q ≠ none ∧ ¬ (s.saveStatus p t change).Pending q)) ∧
    ∀ q, (s.saveStatus p t change).Pending q → s.Pending q := by
  have hnone : ∀ q, (s.saveStatus p t change).proposals q ≠ none ↔ s.proposals q ≠ none := by
    intro q
    rw [ne_eq, ne_eq, proposals_eq_none, proposals_eq_none, statusOf_saveStatus]
    split
    · next hq => rw [hq, Option.map_eq_none_iff]
    · exact Iff.rfl
  have hpending : ∀ q, (s.saveStatus p t change).Pending q → q ≠ p ∧ s.Pending q := by
    intro q hq
    rw [pending_iff_statusOf, statusOf_saveStatus] at hq
    split at hq
    · obtain ⟨u, -, hu⟩ := Option.map_eq_some_iff.1 hq
      exact absurd hu ht
    · next hne => exact ⟨hne, pending_iff_statusOf.2 hq⟩
  refine ⟨hnone, fun q => ?_, fun q hq => (hpending q hq).2⟩
  rw [hnone]
  by_cases hp : s.Pending p
  · simp only [State.saveStatus, if_pos hp]
    by_cases hq : q = p
    · subst hq
      rw [Function.update_self, left_eq_zero hI hp]
      exact ⟨le_refl 1, fun _ => ⟨ne_none_of_statusOf (pending_iff_statusOf.1 hp), fun h => (hpending q h).1 rfl⟩⟩
    · rw [Function.update_of_ne hq]
      refine ⟨(hI.left q).1, fun hl => ⟨((hI.left q).2 hl).1, fun h => ((hI.left q).2 hl).2 (hpending q h).2⟩⟩
  · simp only [State.saveStatus, if_neg hp]
    exact ⟨(hI.left q).1, fun hl => ⟨((hI.left q).2 hl).1, fun h => ((hI.left q).2 hl).2 (hpending q h).2⟩⟩

theorem inv_decline (hI : Inv R s) {p : Nat} (hsafe : s.statusOf p ≠ some .confirmed) :
    Inv R (s.saveStatus p .declined id) := by
  obtain ⟨hnone, hleft, hpending⟩ := saveStatus_effect hI (p := p) (t := .declined) nofun id
  refine inv_data hI ⟨rfl, rfl, rfl⟩ (fun q hq => hI.rows q ((hnone q).1 hq)) hleft
    (fun q r hq hr => hI.onePending q r (hpending q hq) (hpending r hr)) (fun q => ?_) fun q hq => (hnone q).2 hq
  rw [statusOf_saveStatus]
  split
  · next hq =>
    rw [hq]
    cases h : s.statusOf p with
    | none => rfl
    | some t =>
      rw [h] at hsafe
      simp only [Option.map_some, reduceCtorEq, Option.some.injEq, false_iff]
      exact fun ht => hsafe (congrArg some ht)
  · exact Iff.rfl

/-! ### The steps -/

theorem Pc.Ready.mono {l l' : List String} (h : c.Ready l) (hl : l ⊆ l') : c.Ready l' := by
  cases c with
  | upgraded p v text => exact ⟨hl h.1, fun k hk => hl (h.2 hk)⟩
  | seating names todo p v text => exact ⟨hl h.1, h.2⟩
  | _ => exact h

/-- The project is made by the confirm at `i`. -/
theorem inv_upgrade (hI : Inv R s) {p : Nat} {v : Validated} {text : String} (hpc : s.pc i = .upgrading p v text)
    (hnone : s.upgradedBy = none) (hunsaved : c.unsaved = some p) (htarget : c.target = some p)
    (hready : c.Ready (s.roster ++ v.expertKeys)) :
    Inv R { s.setPc i c with upgradedBy := some i, roster := s.roster ++ v.expertKeys } := by
  have hR := hI.target i p (by rw [hpc]; rfl)
  have hown : (Function.update s.pc i c i).unsaved = some p := by rw [Function.update_self, hunsaved]
  have hno : ∀ j q, (s.pc j).unsaved ≠ some q := by
    intro j q hj
    cases hnone.symm.trans (hI.unsaved j q hj)
  refine ⟨hI.rows, hI.left, hI.onePending, fun j hj => ?_, ?_, fun q hq => ?_, ?_, ?_⟩
  · obtain rfl := Option.some.inj hj
    exact ⟨p, hR.1, .inl hown⟩
  · exact update_cases (fun j c => ∀ q, c.unsaved = some q → some i = some j) (fun _ _ => rfl)
      fun j _ q hq => absurd hq (hno j q)
  · obtain ⟨j, hj, -⟩ := hI.confirmed q hq
    cases hnone.symm.trans hj
  · refine update_cases (fun j c => ∀ q, c.target = some q → (R j).confirms = some q ∧ s.proposals q ≠ none)
      (fun q hq => ?_) fun j _ => hI.target j
    rw [← Option.some.inj (htarget.symm.trans hq)]
    exact hR
  · exact update_cases (fun _ c => c.Ready (s.roster ++ v.expertKeys)) hready
      fun j _ => (hI.ready j).mono (List.subset_append_left ..)

/-- The status is saved by the confirm at `i`. -/
theorem inv_confirm (hI : Inv R s) {p : Nat} {v : Validated} {r : Confirmed} (hpc : s.pc i = .saving p v r)
    (change : Proposal → Proposal) : Inv R ((s.saveStatus p .confirmed change).setPc i (.saved r)) := by
  obtain ⟨hnone, hleft, hpending⟩ := saveStatus_effect hI (p := p) (t := .confirmed) nofun change
  obtain ⟨hR, hrow⟩ := hI.target i p (by rw [hpc]; rfl)
  have hby := hI.unsaved i p (by rw [hpc]; rfl)
  have hown : (Function.update s.pc i (Pc.saved r) i).settled = true := by
    rw [Function.update_self]
    rfl
  have hstatus : (s.saveStatus p .confirmed change).statusOf p = some .confirmed := by
    obtain ⟨t, ht⟩ := Option.ne_none_iff_exists'.1 (fun h => hrow (proposals_eq_none.2 h))
    rw [statusOf_saveStatus, if_pos rfl, ht, Option.map_some]
  refine ⟨fun q hq => hI.rows q ((hnone q).1 hq), hleft,
    fun q q' hq hq' => hI.onePending q q' (hpending q hq) (hpending q' hq'), fun j hj => ?_, ?_, fun q hq => ?_, ?_, ?_⟩
  · obtain rfl := Option.some.inj (hby.symm.trans hj)
    exact ⟨p, hR, .inr ⟨hown, hstatus⟩⟩
  · exact update_cases (fun j c => ∀ q, c.unsaved = some q → s.upgradedBy = some j) nofun fun j _ => hI.unsaved j
  · by_cases hqp : q = p
    · subst hqp
      exact ⟨i, hby, hR, hown⟩
    · have hq : (s.saveStatus p .confirmed change).statusOf q = some .confirmed := hq
      rw [statusOf_saveStatus, if_neg hqp] at hq
      obtain ⟨j, hj, -, hs⟩ := hI.confirmed q hq
      obtain rfl := Option.some.inj (hby.symm.trans hj)
      rw [hpc] at hs
      cases hs
  · exact update_cases (fun j c => ∀ q, c.target = some q → (R j).confirms = some q ∧
      (s.saveStatus p .confirmed change).proposals q ≠ none) nofun
      fun j _ q hq => (hI.target j q hq).imp_right (hnone q).2
  · exact update_cases (fun _ c => c.Ready s.roster) trivial fun j _ => hI.ready j

/-- A call that has made no project, or has settled, is over. -/
theorem inv_over (hI : Inv R s) (hunsaved : (s.pc i).unsaved = none) (hc : c.unsaved = none) (ht : c.target = none)
    (hs : (s.pc i).settled → c.settled) (hr : c.Ready s.roster) : Inv R (s.setPc i c) := by
  refine inv_pc hI rfl ⟨rfl, rfl, rfl, rfl, rfl⟩ (hc.trans hunsaved.symm) hs (fun p hp => ?_) hr
  rw [ht] at hp
  cases hp

theorem inv_startStep (hI : Inv R s) (hpc : s.pc i = .start) : Inv R (startStep known R s i) := by
  have hunsaved : (s.pc i).unsaved = none := by rw [hpc]; rfl
  have hraise : ∀ m, Inv R (s.raise i m) := fun m => inv_over hI hunsaved rfl rfl (fun _ => rfl) trivial
  unfold startStep
  split
  · split
    · exact hraise _
    · exact inv_over hI hunsaved rfl rfl (by rw [hpc]; nofun) trivial
  · split
    · exact hraise _
    · split
      · exact hraise _
      · exact inv_over hI hunsaved rfl rfl (by rw [hpc]; nofun) trivial
  · next p expertKeys primary projectName carried hR =>
    split
    · exact hraise _
    · next row hrow =>
      split
      · exact hraise _
      · next v hv =>
        split
        · exact hraise _
        · refine inv_pc hI rfl ⟨rfl, rfl, rfl, rfl, rfl⟩ hunsaved.symm (by rw [hpc]; nofun) (fun q hq => ?_)
            fun hne => ?_
          · obtain rfl := Option.some.inj hq
            refine ⟨by rw [hR]; rfl, ?_⟩
            rw [hrow]
            nofun
          · unfold checkConfirm at hv
            split at hv
            · cases hv
            · split at hv
              · cases hv
              · next w hw =>
                split at hv
                · cases hv
                · obtain rfl := Except.ok.inj hv
                  exact primary_mem_of_ok hw hne

theorem inv_next (hI : Inv R s) (hsafe : Safe s (.next i)) (h : next known R s i = some s') : Inv R s' := by
  simp only [Safe] at hsafe
  have hready := hI.ready i
  have htarget := hI.target i
  have hby := hI.unsaved i
  cases hpc : s.pc i with
  | start =>
    simp only [next, hpc, Option.some.injEq] at h
    subst h
    exact inv_startStep hI hpc
  | checking v =>
    have hunsaved : (s.pc i).unsaved = none := by rw [hpc]; rfl
    simp only [next, hpc] at h
    split at h
    · obtain rfl := Option.some.inj h
      exact inv_over hI hunsaved rfl rfl (by rw [hpc]; nofun) trivial
    · obtain rfl := Option.some.inj h
      exact inv_over hI hunsaved rfl rfl (fun _ => rfl) trivial
  | superseding v =>
    simp only [next, hpc, Option.some.injEq] at h
    subst h
    have hpc' : s.supersede.pc i = .superseding v := hpc
    exact inv_over (inv_supersede hI) (by rw [hpc']; rfl) rfl rfl (by rw [hpc']; nofun) trivial
  | inserting v =>
    simp only [next, hpc] at h
    simp only [hpc] at hsafe
    split at h
    · next text _ =>
      obtain rfl := Option.some.inj h
      have hpc' : ∀ row, (s.insert row).pc i = .inserting v := fun _ => hpc
      refine inv_over (inv_insert hI rfl hsafe) ?_ rfl rfl ?_ trivial
      · rw [hpc']
        rfl
      · rw [hpc']
        nofun
    · cases h
  | declining p =>
    simp only [next, hpc, Option.some.injEq] at h
    simp only [hpc] at hsafe
    subst h
    have hpc' : (s.saveStatus p .declined id).pc i = .declining p := hpc
    exact inv_over (inv_decline hI hsafe) (by rw [hpc']; rfl) rfl rfl (by rw [hpc']; nofun) trivial
  | declined =>
    simp only [next, hpc, Option.some.injEq] at h
    subst h
    exact inv_pc hI rfl ⟨rfl, rfl, rfl, rfl, rfl⟩ (by rw [hpc]; rfl) (fun _ => rfl) nofun trivial
  | upgrading p v text =>
    rw [hpc] at hready
    simp only [next, hpc] at h
    split at h
    · next hnone =>
      obtain rfl := Option.some.inj h
      refine inv_upgrade hI hpc hnone ?_ ?_ ?_
      · split <;> rfl
      · split <;> rfl
      · split
        · trivial
        · next hne => exact ⟨List.mem_append_right _ (hready hne), List.subset_append_right ..⟩
    · obtain rfl := Option.some.inj h
      exact inv_over hI (by rw [hpc]; rfl) rfl rfl (fun _ => rfl) trivial
  | upgraded p v text =>
    rw [hpc] at hready htarget
    simp only [next, hpc, Option.some.injEq] at h
    subst h
    exact inv_pc hI rfl ⟨rfl, rfl, rfl, rfl, rfl⟩ (by rw [hpc]; rfl) (by rw [hpc]; nofun) htarget hready
  | seating names todo p v text =>
    rw [hpc] at hready htarget
    cases todo with
    | nil =>
      simp only [next, hpc, if_pos hready.1, Option.some.injEq] at h
      subst h
      exact inv_pc hI rfl ⟨rfl, rfl, rfl, rfl, rfl⟩ (by rw [hpc]; rfl) (by rw [hpc]; nofun) htarget trivial
    | cons k todo =>
      have hk : k ∈ names := hready.2 List.mem_cons_self
      simp only [next, hpc, if_pos hk, Option.some.injEq] at h
      subst h
      exact inv_pc hI rfl ⟨rfl, rfl, rfl, rfl, rfl⟩ (by rw [hpc]; rfl) (by rw [hpc]; nofun) htarget
        ⟨hready.1, fun j hj => hready.2 (List.mem_cons_of_mem _ hj)⟩
  | saving p v r =>
    simp only [next, hpc, Option.some.injEq] at h
    subst h
    exact inv_confirm hI hpc _
  | saved r =>
    simp only [next, hpc, Option.some.injEq] at h
    subst h
    exact inv_pc hI rfl ⟨rfl, rfl, rfl, rfl, rfl⟩ (by rw [hpc]; rfl) (fun _ => rfl) nofun trivial
  | telling r =>
    simp only [next, hpc, Option.some.injEq] at h
    subst h
    exact inv_pc hI rfl ⟨rfl, rfl, rfl, rfl, rfl⟩ (by rw [hpc]; rfl) (fun _ => rfl) nofun trivial
  | created p => simp [next, hpc] at h
  | returned r => simp [next, hpc] at h
  | raised m => simp [next, hpc] at h

theorem inv_step {a : Action ι} (hI : Inv R s) (hsafe : Safe s a) (h : step known R s a = some s') : Inv R s' := by
  cases a with
  | next i => exact inv_next hI hsafe h
  | fail i =>
    simp only [step, Option.ite_none_left_eq_some, Option.some.injEq] at h
    obtain ⟨-, rfl⟩ := h
    exact inv_over hI hsafe rfl rfl (fun _ => rfl) trivial

theorem inv_reach (h : (invites known R).Reach Safe s) : Inv R s := by
  refine h.induct ?_ fun _ _ _ hI hsafe ht => inv_step hI hsafe ht
  rintro _ rfl
  refine ⟨fun p hp => absurd rfl hp, fun p => ⟨Nat.zero_le 1, fun hl => absurd rfl hl⟩, ?_, nofun, nofun, nofun, nofun,
    fun _ => trivial⟩
  rintro p q ⟨row, hrow, -⟩
  cases hrow

/-- Under the condition the law holds in every state. -/
theorem law_of_safe (h : (invites known R).Reach Safe s) : Law R s :=
  law_of_inv (inv_reach h)

/-- Where a proposal is inserted beside a pending one, two are pending. -/
theorem not_law_insert {row : Proposal} {p : Nat} (hrow : row.status = .pending) (hp : p < s.nextId) (hpp : s.Pending p)
    (c : Pc) : ¬ Law R ((s.insert row).setPc i c) := by
  intro hl
  have hstatus : ∀ q, ((s.insert row).setPc i c).Pending q ↔ (s.insert row).statusOf q = some .pending :=
    fun q => pending_iff_statusOf
  refine Nat.ne_of_lt hp (hl.onePending p s.nextId ((hstatus p).2 ?_) ((hstatus s.nextId).2 ?_))
  · rw [statusOf_insert, if_neg (Nat.ne_of_lt hp)]
    exact pending_iff_statusOf.1 hpp
  · rw [statusOf_insert, if_pos rfl, hrow]

/-- Where a confirmed proposal is declined, the confirm that has made the project has lost its status. -/
theorem not_law_decline (hI : Inv R s) {p : Nat} (hpc : s.pc i = .declining p) (hc : s.statusOf p = some .confirmed)
    (c : Pc) : ¬ Law R ((s.saveStatus p .declined id).setPc i c) := by
  intro hl
  obtain ⟨j, hj, hR, hsettled⟩ := hI.confirmed p hc
  have hji : j ≠ i := by
    rintro rfl
    rw [hpc] at hsettled
    cases hsettled
  have hother : (Function.update s.pc i c j).settled = true := by
    rw [Function.update_of_ne hji]
    exact hsettled
  have hstatus : (s.saveStatus p .declined id).statusOf p = some .confirmed := hl.confirmed j p hj hR hother
  rw [statusOf_saveStatus, if_pos rfl, hc] at hstatus
  cases hstatus

/-- Where a confirm fails after it has made the project, its proposal is left as it was. -/
theorem not_law_fail (hI : Inv R s) {p : Nat} (hu : (s.pc i).unsaved = some p) (m : String) :
    ¬ Law R (s.raise i m) := by
  intro hl
  have hby := hI.unsaved i p hu
  obtain ⟨q, hR, -⟩ := hI.upgrade i hby
  have hown : (Function.update s.pc i (Pc.raised m) i).settled = true := by
    rw [Function.update_self]
    rfl
  have hstatus : s.statusOf q = some .confirmed := hl.confirmed i q hby hR hown
  obtain ⟨j, hj, -, hsettled⟩ := hI.confirmed q hstatus
  obtain rfl := Option.some.inj (hby.symm.trans hj)
  rw [Pc.settled_eq_false_of_unsaved hu] at hsettled
  cases hsettled

/-- The first step that does not meet the condition breaks the law. -/
theorem law_step_iff {a : Action ι} (hs : (invites known R).Reach Safe s) (h : step known R s a = some s') :
    Law R s' ↔ Safe s a := by
  have hI := inv_reach hs
  refine ⟨fun hl => ?_, fun hsafe => law_of_inv (inv_step hI hsafe h)⟩
  cases a with
  | next i =>
    simp only [step] at h
    simp only [Safe]
    split
    · next v hpc =>
      intro p hp hpp
      simp only [next, hpc] at h
      split at h
      · obtain rfl := Option.some.inj h
        exact not_law_insert rfl hp hpp _ hl
      · cases h
    · next p hpc =>
      intro hc
      simp only [next, hpc, Option.some.injEq] at h
      subst h
      exact not_law_decline hI hpc hc _ hl
    · trivial
  | fail i =>
    simp only [step, Option.ite_none_left_eq_some, Option.some.injEq] at h
    obtain ⟨-, rfl⟩ := h
    cases hu : (s.pc i).unsaved with
    | none => exact hu
    | some p => exact absurd hl (not_law_fail hI hu _)

end Model

/-! ### Runs -/

/-- A proposal, its confirmation and a refusal of it. -/
def calls : Fin 3 → Call
  | 0 => .createProposal ["advisor"] "advisor" "a plan" "welcome" "help me"
  | 1 => .confirm 0 ["advisor"] "advisor" "Shop" 2
  | 2 => .decline 0

def fresh : State (Fin 3) := ⟨fun _ => none, 0, none, [], [], false, [], fun _ => .start, fun _ => 0⟩

/-- The refusal comes when the proposal is confirmed. -/
theorem law_after_confirm : ∃ s, (invites (fun _ => true) calls).Reach Safe s ∧
    s.pc 1 = .returned (some ⟨some "advisor", "welcome", "help me"⟩) ∧
    s.pc 2 = .raised "proposal not pending: confirmed" ∧ Law calls s := by
  obtain ⟨s, -, hr, hp⟩ := Machine.reach_of_exec (M := invites (fun _ => true) calls) (C := Safe) (s := fresh)
    (p := fun s => decide (s.pc 1 = .returned (some ⟨some "advisor", "welcome", "help me"⟩) ∧
      s.pc 2 = .raised "proposal not pending: confirmed"))
    (List.replicate 4 (.next 0) ++ List.replicate 8 (.next 1) ++ [.next 2]) rfl (by decide)
  obtain ⟨h₁, h₂⟩ := of_decide_eq_true hp
  exact ⟨s, hr, h₁, h₂, law_of_safe hr⟩

/-- The refusal has read the status before the confirmation saves it, and is saved after it. -/
theorem declined_after_upgrade : ¬ ∀ s, (invites (fun _ => true) calls).Reach Free s → Law calls s := by
  intro h
  obtain ⟨s, -, hr, hp⟩ := Machine.reach_of_exec (M := invites (fun _ => true) calls) (C := Free) (s := fresh)
    (p := fun s => decide (s.upgradedBy = some 1 ∧ (s.pc 1).settled ∧ s.statusOf 0 = some .declined))
    (List.replicate 4 (.next 0) ++ [.next 2] ++ List.replicate 8 (.next 1) ++ [.next 2]) rfl (by decide)
  obtain ⟨hby, hsettled, hstatus⟩ := of_decide_eq_true hp
  have hconfirmed := (h s hr).confirmed 1 0 hby rfl hsettled
  rw [hstatus] at hconfirmed
  cases hconfirmed

end NexusStudio.UpgradeInvite
