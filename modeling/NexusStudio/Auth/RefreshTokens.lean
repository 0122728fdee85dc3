import NexusStudio.Lib.Machine
import Mathlib.Data.Finset.Basic
import Mathlib.Data.Fintype.Basic
import Mathlib.Data.List.Nodup

/-!
# Refresh tokens

A refresh token is active while Redis has its key; a user's set lists the tokens to revoke. `login`, `refresh_token`,
`logout` and `revoke_all_refresh_tokens` are sequences of Redis commands.

* (machine) Every command is one step of the call that sends it; a call may raise before any of them, and a key may
  expire at any time.
* (keys) A token that has been returned and whose key is gone is never accepted again: `stays_dead`.
* (revocation) The set is read, the keys are deleted and then the set, so a token that is added in between is lost from
  the set. `Undisturbed` runs have none, and there a revocation leaves no token alive: `revoked_all`.
* (exchange) The check of a token and its delete are two commands, so refreshes that overlap exchange it twice.
  `Alone` runs exchange every token once at most: `exchanged_once`.
-/

set_option linter.unusedSectionVars false

namespace NexusStudio.RefreshTokens

open Concurrent

variable {υ ι : Type}

/-! ### Calls -/

inductive Call (υ : Type)
  | login (userId : υ)
  -- the user and the `jti` of a token's payload
  | refresh (userId : υ) (jti : ℕ)
  -- the user of the session, and the `jti` of the token in the request
  | logout (userId : υ) (jti : ℕ)
  -- a logout without a token, and the end of a password reset
  | revokeAll (userId : υ)
  deriving DecidableEq

/-- Where a call is: the Redis command that it sends next, with what it needs for it. -/
inductive Pc (υ : Type)
  | start
  -- `store_refresh_token`: SET and SADD
  | setting (userId : υ) (jti : ℕ)
  | adding (userId : υ) (jti : ℕ)
  -- `is_refresh_token_active`: GET
  | checking (userId : υ) (jti : ℕ)
  -- `revoke_refresh_token`: DEL and SREM, in a refresh or a logout
  | deleting (userId : υ) (jti : ℕ) (refresh : Bool)
  | removing (userId : υ) (jti : ℕ) (refresh : Bool)
  -- `revoke_all_refresh_tokens`: SMEMBERS, DEL of the keys and DEL of the set
  | reading (userId : υ)
  | clearing (userId : υ) (jtis : Finset ℕ)
  | dropping (userId : υ)
  -- what a call has done
  | issued (userId : υ) (jti : ℕ)
  | loggedOut
  | revoked (userId : υ)
  | raised
  deriving DecidableEq

structure State (υ ι : Type) where
  -- the user in `auth:refresh:{jti}`
  keys : ℕ → Option υ
  -- `auth:user:{user_id}:refresh_jtis`
  sets : υ → Finset ℕ
  -- no `jti` is drawn twice
  nextJti : ℕ
  pc : ι → Pc υ
  -- the tokens that have been returned, those that a refresh has exchanged, and those that had been returned when a
  -- revocation read the set
  returned : List (υ × ℕ)
  exchanged : List ℕ
  before : ι → List (υ × ℕ)

inductive Act (υ ι : Type)
  | begin (i : ι) (call : Call υ)
  -- the next Redis command
  | next (i : ι)
  | crash (i : ι)
  | expire (jti : ℕ)
  deriving DecidableEq

/-- Calls that have returned or raised. -/
def Pc.isOver : Pc υ → Bool
  | start | issued .. | loggedOut | revoked _ | raised => true
  | _ => false

section Model

variable [DecidableEq υ] [DecidableEq ι]

namespace State

variable (s : State υ ι)

def setPc (i : ι) (c : Pc υ) : State υ ι := { s with pc := Function.update s.pc i c }

/-- `_issue_tokens` up to its first command. -/
def draw (i : ι) (u : υ) : State υ ι := { s.setPc i (.setting u s.nextJti) with nextJti := s.nextJti + 1 }

def setKey (j : ℕ) (o : Option υ) : State υ ι := { s with keys := Function.update s.keys j o }

def setSet (u : υ) (js : Finset ℕ) : State υ ι := { s with sets := Function.update s.sets u js }

def clearKeys (js : Finset ℕ) : State υ ι := { s with keys := fun j => if j ∈ js then none else s.keys j }

/-- The first lines of a call; only tokens that have been returned are presented. -/
def begin (i : ι) : Call υ → Option (State υ ι)
  | .login u => some (s.draw i u)
  | .refresh u j => if (u, j) ∈ s.returned then some (s.setPc i (.checking u j)) else none
  | .logout u j => if j ∈ s.returned.map Prod.snd then some (s.setPc i (.deleting u j false)) else none
  | .revokeAll u => some (s.setPc i (.reading u))

/-- The next command of a call. -/
def command (i : ι) : Pc υ → Option (State υ ι)
  | .setting u j => some ((s.setPc i (.adding u j)).setKey j (some u))
  | .adding u j =>
    some { (s.setPc i (.issued u j)).setSet u (insert j (s.sets u)) with returned := (u, j) :: s.returned }
  | .checking u j => some (s.setPc i (if s.keys j = some u then .deleting u j true else .raised))
  | .deleting u j refresh =>
    some { (s.setPc i (.removing u j refresh)).setKey j none with
      exchanged := if refresh then j :: s.exchanged else s.exchanged }
  | .removing u j true => some ((s.draw i u).setSet u ((s.sets u).erase j))
  | .removing u j false => some ((s.setPc i .loggedOut).setSet u ((s.sets u).erase j))
  | .reading u =>
    some { s.setPc i (if s.sets u = ∅ then .dropping u else .clearing u (s.sets u)) with
      before := Function.update s.before i s.returned }
  | .clearing u js => some ((s.setPc i (.dropping u)).clearKeys js)
  | .dropping u => some ((s.setPc i (.revoked u)).setSet u ∅)
  | .start | .issued .. | .loggedOut | .revoked _ | .raised => none

end State

def step (s : State υ ι) : Act υ ι → Option (State υ ι)
  | .begin i call => if s.pc i = .start then s.begin i call else none
  | .next i => s.command i (s.pc i)
  | .crash i => if (s.pc i).isOver then none else some (s.setPc i .raised)
  | .expire j => some (s.setKey j none)

/-- Nothing is stored and no call has begun. -/
def State.empty : State υ ι := ⟨fun _ => none, fun _ => ∅, 0, fun _ => .start, [], [], fun _ => []⟩

def tokens (υ ι : Type) [DecidableEq υ] [DecidableEq ι] : Machine (State υ ι) (Act υ ι) where
  init s := s = .empty
  step := step

/-! ### What a step can do -/

/-- The steps with the call that makes them, one for each command. -/
inductive Steps (s : State υ ι) : Act υ ι → State υ ι → Prop
  | login (i : ι) (u : υ) : Steps s (.begin i (.login u)) (s.draw i u)
  | refresh (i : ι) {u : υ} {j : ℕ} (hj : (u, j) ∈ s.returned) :
      Steps s (.begin i (.refresh u j)) (s.setPc i (.checking u j))
  | logout (i : ι) {u v : υ} {j : ℕ} (hj : (v, j) ∈ s.returned) :
      Steps s (.begin i (.logout u j)) (s.setPc i (.deleting u j false))
  | revokeAll (i : ι) (u : υ) : Steps s (.begin i (.revokeAll u)) (s.setPc i (.reading u))
  | set {i : ι} {u : υ} {j : ℕ} (h : s.pc i = .setting u j) :
      Steps s (.next i) ((s.setPc i (.adding u j)).setKey j (some u))
  | add {i : ι} {u : υ} {j : ℕ} (h : s.pc i = .adding u j) : Steps s (.next i)
      { (s.setPc i (.issued u j)).setSet u (insert j (s.sets u)) with returned := (u, j) :: s.returned }
  | accept {i : ι} {u : υ} {j : ℕ} (h : s.pc i = .checking u j) (hkey : s.keys j = some u) :
      Steps s (.next i) (s.setPc i (.deleting u j true))
  | reject {i : ι} {u : υ} {j : ℕ} (h : s.pc i = .checking u j) (hkey : s.keys j ≠ some u) :
      Steps s (.next i) (s.setPc i .raised)
  | delete {i : ι} {u : υ} {j : ℕ} {refresh : Bool} (h : s.pc i = .deleting u j refresh) : Steps s (.next i)
      { (s.setPc i (.removing u j refresh)).setKey j none with
        exchanged := if refresh then j :: s.exchanged else s.exchanged }
  | exchange {i : ι} {u : υ} {j : ℕ} (h : s.pc i = .removing u j true) :
      Steps s (.next i) ((s.draw i u).setSet u ((s.sets u).erase j))
  | leave {i : ι} {u : υ} {j : ℕ} (h : s.pc i = .removing u j false) :
      Steps s (.next i) ((s.setPc i .loggedOut).setSet u ((s.sets u).erase j))
  | read {i : ι} {u : υ} {c : Pc υ} (h : s.pc i = .reading u)
      (hc : (s.sets u = ∅ ∧ c = .dropping u) ∨ c = .clearing u (s.sets u)) : Steps s (.next i)
      { s.setPc i c with before := Function.update s.before i s.returned }
  | clear {i : ι} {u : υ} {js : Finset ℕ} (h : s.pc i = .clearing u js) :
      Steps s (.next i) ((s.setPc i (.dropping u)).clearKeys js)
  | drop {i : ι} {u : υ} (h : s.pc i = .dropping u) : Steps s (.next i) ((s.setPc i (.revoked u)).setSet u ∅)
  | crash (i : ι) (h : (s.pc i).isOver = false) : Steps s (.crash i) (s.setPc i .raised)
  | expire (j : ℕ) : Steps s (.expire j) (s.setKey j none)

theorem steps_of_step {s s' : State υ ι} {a : Act υ ι} (h : step s a = some s') : Steps s a s' := by
  cases a with
  | begin i call =>
    rw [step] at h
    split at h
    · cases call with
      | login u =>
        cases h
        exact .login i u
      | refresh u j =>
        obtain ⟨hj, h⟩ := Option.ite_none_right_eq_some.1 h
        cases h
        exact .refresh i hj
      | logout u j =>
        obtain ⟨hj, h⟩ := Option.ite_none_right_eq_some.1 h
        cases h
        obtain ⟨⟨v, j⟩, hmem, rfl⟩ := List.mem_map.1 hj
        exact .logout i hmem
      | revokeAll u =>
        cases h
        exact .revokeAll i u
    · cases h
  | next i =>
    rw [step] at h
    cases hpc : s.pc i with
    | start | issued u j | loggedOut | revoked u | raised =>
      rw [hpc] at h
      cases h
    | setting u j =>
      rw [hpc] at h
      cases h
      exact .set hpc
    | adding u j =>
      rw [hpc] at h
      cases h
      exact .add hpc
    | checking u j =>
      rw [hpc, State.command] at h
      cases h
      split
      · next hkey => exact .accept hpc hkey
      · next hkey => exact .reject hpc hkey
    | deleting u j refresh =>
      rw [hpc] at h
      cases h
      exact .delete hpc
    | removing u j refresh =>
      rw [hpc] at h
      cases refresh with
      | true =>
        cases h
        exact .exchange hpc
      | false =>
        cases h
        exact .leave hpc
    | reading u =>
      rw [hpc, State.command] at h
      cases h
      refine .read hpc ?_
      split
      · next hempty => exact .inl ⟨hempty, rfl⟩
      · exact .inr rfl
    | clearing u js =>
      rw [hpc] at h
      cases h
      exact .clear hpc
    | dropping u =>
      rw [hpc] at h
      cases h
      exact .drop hpc
  | crash i =>
    rw [step] at h
    split at h
    · cases h
    · next hover =>
      cases h
      exact .crash i (Bool.eq_false_of_not_eq_true hover)
  | expire j =>
    cases h
    exact .expire j

/-! ### The invariant -/

/-- The token that a call has drawn and not yet returned. -/
def Pc.drawn : Pc υ → Option ℕ
  | setting _ j | adding _ j => some j
  | _ => none

/-- The token that has been presented to a call. -/
def Pc.presented : Pc υ → Option ℕ
  | checking _ j | deleting _ j _ | removing _ j _ => some j
  | _ => none

/-- What a call with the position `c` relies on. -/
structure Local (s : State υ ι) (c : Pc υ) : Prop where
  drawn : ∀ j, c.drawn = some j → j < s.nextJti ∧ ∀ v, (v, j) ∉ s.returned
  unset : ∀ u j, c = .setting u j → s.keys j = none
  added : ∀ u j, c = .adding u j → ∀ v, s.keys j = some v → v = u
  presented : ∀ j, c.presented = some j → ∃ v, (v, j) ∈ s.returned

structure Inv (s : State υ ι) : Prop where
  keys_lt : ∀ j v, s.keys j = some v → j < s.nextJti
  returned_lt : ∀ p ∈ s.returned, p.2 < s.nextJti
  owner : ∀ p ∈ s.returned, ∀ v, s.keys p.2 = some v → v = p.1
  calls : ∀ i, Local s (s.pc i)
  once : ∀ i i' j, (s.pc i).drawn = some j → (s.pc i').drawn = some j → i = i'

variable {s s' : State υ ι} {i : ι} {c : Pc υ} {u : υ} {j : ℕ}

/-- How a key changes: it goes, or the call that has drawn the token sets it. -/
def KeyStep (s s' : State υ ι) (c c' : Pc υ) : Prop :=
  ∀ j, s'.keys j = s.keys j ∨ s'.keys j = none ∨
    ∃ u, c = .setting u j ∧ c' = .adding u j ∧ s'.keys j = some u

/-- What has been returned grows by the token of the call that returns. -/
def ReturnStep (s s' : State υ ι) (c : Pc υ) : Prop :=
  s'.returned = s.returned ∨ ∃ u j, c = .adding u j ∧ s'.returned = (u, j) :: s.returned

theorem Local.other (hI : Inv s) (hnext : s.nextJti ≤ s'.nextJti) (hkeys : KeyStep s s' (s.pc i) c)
    (hreturned : ReturnStep s s' (s.pc i)) {i' : ι} (hne : i' ≠ i) : Local s' (s.pc i') := by
  have hl := hI.calls i'
  have hset : ∀ {j}, (s.pc i').drawn = some j → s'.keys j = s.keys j ∨ s'.keys j = none := by
    intro j hj
    rcases hkeys j with h | h | ⟨u, hset, -, -⟩
    · exact .inl h
    · exact .inr h
    · exact absurd (hI.once i' i j hj (by rw [hset]; rfl)) hne
  refine ⟨fun j hj => ⟨(hl.drawn j hj).1.trans_le hnext, fun v hv => ?_⟩, fun u j hpc => ?_, fun u j hpc v hv => ?_,
    fun j hj => ?_⟩
  · rcases hreturned with h | ⟨u, j', hadd, h⟩
    · exact (hl.drawn j hj).2 v (h ▸ hv)
    · rw [h] at hv
      rcases List.mem_cons.1 hv with hv | hv
      · cases hv
        exact hne (hI.once i' i j hj (by rw [hadd]; rfl))
      · exact (hl.drawn j hj).2 v hv
  · rcases hset (by rw [hpc]; rfl) with h | h
    · exact h.trans (hl.unset u j hpc)
    · exact h
  · rcases hset (by rw [hpc]; rfl) with h | h
    · exact hl.added u j hpc v (h ▸ hv)
    · rw [h] at hv
      cases hv
  · obtain ⟨v, hv⟩ := hl.presented j hj
    rcases hreturned with h | ⟨u, j', -, h⟩
    · exact ⟨v, h ▸ hv⟩
    · exact ⟨v, h ▸ List.mem_cons_of_mem _ hv⟩

/-- The invariant after a step of `i` to the position `c`. -/
theorem inv_of (hI : Inv s) (hpc : s'.pc = Function.update s.pc i c) (hnext : s.nextJti ≤ s'.nextJti)
    (hkeys : KeyStep s s' (s.pc i) c) (hreturned : ReturnStep s s' (s.pc i)) (hc : Local s' c)
    (hdrawn : ∀ j, c.drawn = some j → (s.pc i).drawn = some j ∨ s.nextJti ≤ j) : Inv s' := by
  have hown : s'.pc i = c := by rw [hpc, Function.update_self]
  have hother : ∀ {i'}, i' ≠ i → s'.pc i' = s.pc i' := fun hne => by rw [hpc, Function.update_of_ne hne]
  have hlocal := hI.calls i
  refine ⟨fun j v hv => ?_, fun p hp => ?_, fun p hp v hv => ?_, fun i' => ?_, fun i₁ i₂ j h₁ h₂ => ?_⟩
  · rcases hkeys j with h | h | ⟨u, hset, -, -⟩
    · exact (hI.keys_lt j v (h ▸ hv)).trans_le hnext
    · rw [h] at hv
      cases hv
    · exact (hlocal.drawn j (by rw [hset]; rfl)).1.trans_le hnext
  · rcases hreturned with h | ⟨u, j, hadd, h⟩
    · exact (hI.returned_lt p (h ▸ hp)).trans_le hnext
    · rw [h] at hp
      rcases List.mem_cons.1 hp with rfl | hp
      · exact (hlocal.drawn j (by rw [hadd]; rfl)).1.trans_le hnext
      · exact (hI.returned_lt p hp).trans_le hnext
  · have hold : p ∈ s.returned → v = p.1 := by
      intro hp
      rcases hkeys p.2 with h | h | ⟨u, hset, -, -⟩
      · exact hI.owner p hp v (h ▸ hv)
      · rw [h] at hv
        cases hv
      · exact absurd hp ((hlocal.drawn p.2 (by rw [hset]; rfl)).2 p.1)
    rcases hreturned with h | ⟨u, j, hadd, h⟩
    · exact hold (h ▸ hp)
    · rw [h] at hp
      rcases List.mem_cons.1 hp with rfl | hp
      · rcases hkeys j with h | h | ⟨u', hset, -, -⟩
        · exact hlocal.added u j hadd v (h ▸ hv)
        · rw [h] at hv
          cases hv
        · rw [hadd] at hset
          cases hset
      · exact hold hp
  · by_cases hi : i' = i
    · subst hi
      rw [hown]
      exact hc
    · rw [hother hi]
      exact Local.other hI hnext hkeys hreturned hi
  · have hlater : ∀ {i'}, i' ≠ i → c.drawn = some j → (s.pc i').drawn = some j → False := by
      intro i' hi hcj hj
      rcases hdrawn j hcj with h | h
      · exact hi (hI.once i' i j hj h)
      · exact absurd ((hI.calls i').drawn j hj).1 (Nat.not_lt.2 h)
    by_cases hi₁ : i₁ = i
    · subst hi₁
      by_contra hne
      rw [hown] at h₁
      rw [hother (Ne.symm hne)] at h₂
      exact hlater (Ne.symm hne) h₁ h₂
    · rw [hother hi₁] at h₁
      by_cases hi₂ : i₂ = i
      · subst hi₂
        rw [hown] at h₂
        exact (hlater hi₁ h₂ h₁).elim
      · rw [hother hi₂] at h₂
        exact hI.once i₁ i₂ j h₁ h₂

/-- A position without a token that is to be returned. -/
theorem local_presented (hdrawn : c.drawn = none) (hp : ∀ j, c.presented = some j → ∃ v, (v, j) ∈ s.returned) :
    Local s c := by
  refine ⟨fun j hj => ?_, fun u j hc => ?_, fun u j hc => ?_, hp⟩
  · rw [hdrawn] at hj
    cases hj
  · rw [hc] at hdrawn
    cases hdrawn
  · rw [hc] at hdrawn
    cases hdrawn

theorem local_of_none (hdrawn : c.drawn = none) (hpresented : c.presented = none) : Local s c := by
  refine local_presented hdrawn fun j hj => ?_
  rw [hpresented] at hj
  cases hj

/-- A new token is known to nobody. -/
theorem local_draw (hI : Inv s) (u : υ) (hkeys : s'.keys = s.keys) (hreturned : s'.returned = s.returned)
    (hnext : s'.nextJti = s.nextJti + 1) : Local s' (.setting u s.nextJti) := by
  have hunset : s.keys s.nextJti = none := by
    cases hk : s.keys s.nextJti with
    | none => rfl
    | some v => exact absurd (hI.keys_lt _ v hk) (Nat.lt_irrefl _)
  refine ⟨fun j hj => ?_, fun u' j hc => ?_, nofun, nofun⟩
  · cases hj
    rw [hnext, hreturned]
    exact ⟨Nat.lt_succ_self _, fun v hv => absurd (hI.returned_lt _ hv) (Nat.lt_irrefl _)⟩
  · cases hc
    rw [hkeys]
    exact hunset

/-- A step of `i` that leaves the keys and what has been returned. -/
theorem inv_quiet (hI : Inv s) (hpc : s'.pc = Function.update s.pc i c) (hkeys : s'.keys = s.keys)
    (hreturned : s'.returned = s.returned) (hnext : s'.nextJti = s.nextJti) (hdrawn : c.drawn = none)
    (hp : ∀ j, c.presented = some j → ∃ v, (v, j) ∈ s.returned) : Inv s' := by
  refine inv_of hI hpc hnext.ge (fun j => .inl (by rw [hkeys])) (.inl hreturned) ?_ fun j hj => ?_
  · exact local_presented hdrawn (hreturned.symm ▸ hp)
  · rw [hdrawn] at hj
    cases hj

theorem Inv.presented (hI : Inv s) (h : (s.pc i).presented = some j) : ∃ v, (v, j) ∈ s.returned :=
  (hI.calls i).presented j h

theorem inv_step (hI : Inv s) {a : Act υ ι} (h : Steps s a s') : Inv s' := by
  cases h with
  | login i u =>
    refine inv_of hI rfl (Nat.le_succ _) (fun _ => .inl rfl) (.inl rfl) (local_draw hI u rfl rfl rfl) fun j hj => ?_
    cases hj
    exact .inr (Nat.le_refl _)
  | refresh i hj => exact inv_quiet hI rfl rfl rfl rfl rfl fun j hp => by cases hp; exact ⟨_, hj⟩
  | logout i hj => exact inv_quiet hI rfl rfl rfl rfl rfl fun j hp => by cases hp; exact ⟨_, hj⟩
  | revokeAll i u => exact inv_quiet hI rfl rfl rfl rfl rfl nofun
  | @set i u j hpc =>
    have hl := hI.calls i
    rw [hpc] at hl
    refine inv_of (i := i) hI rfl (Nat.le_refl _) (fun j' => ?_) (.inl rfl) ⟨?_, nofun, ?_, nofun⟩ ?_
    · by_cases hj : j' = j
      · subst hj
        exact .inr (.inr ⟨u, hpc, rfl, Function.update_self ..⟩)
      · exact .inl (Function.update_of_ne hj ..)
    · exact fun j' hj => hl.drawn j' hj
    · rintro u' j' hc v hv
      cases hc
      have hself : Function.update s.keys j (some u) j = some u := Function.update_self ..
      exact (Option.some.inj (hself.symm.trans hv)).symm
    · intro j' hj
      rw [hpc]
      exact .inl hj
  | @add i u j hpc =>
    refine inv_of (i := i) hI rfl (Nat.le_refl _) (fun _ => .inl rfl) (.inr ⟨u, j, hpc, rfl⟩)
      (local_of_none rfl rfl) nofun
  | accept hpc hkey =>
    exact inv_quiet hI rfl rfl rfl rfl rfl fun j hp => by cases hp; exact hI.presented (by rw [hpc]; rfl)
  | reject hpc hkey => exact inv_quiet hI rfl rfl rfl rfl rfl nofun
  | @delete i u j refresh hpc =>
    refine inv_of (i := i) hI rfl (Nat.le_refl _) (fun j' => ?_) (.inl rfl) (local_presented rfl fun j hp => ?_) nofun
    · by_cases hj : j' = j
      · subst hj
        exact .inr (.inl (Function.update_self ..))
      · exact .inl (Function.update_of_ne hj ..)
    · cases hp
      exact hI.presented (i := i) (by rw [hpc]; rfl)
  | @exchange i u j hpc =>
    refine inv_of (i := i) hI rfl (Nat.le_succ _) (fun _ => .inl rfl) (.inl rfl) (local_draw hI u rfl rfl rfl) ?_
    intro j hj
    cases hj
    exact .inr (Nat.le_refl _)
  | leave hpc => exact inv_quiet hI rfl rfl rfl rfl rfl nofun
  | read hpc hc =>
    rcases hc with ⟨-, rfl⟩ | rfl
    · exact inv_quiet hI rfl rfl rfl rfl rfl nofun
    · exact inv_quiet hI rfl rfl rfl rfl rfl nofun
  | @clear i u js hpc =>
    refine inv_of (i := i) hI rfl (Nat.le_refl _) (fun j' => ?_) (.inl rfl) (local_of_none rfl rfl) nofun
    by_cases hj : j' ∈ js
    · exact .inr (.inl (if_pos hj))
    · exact .inl (if_neg hj)
  | drop hpc => exact inv_quiet hI rfl rfl rfl rfl rfl nofun
  | crash i hover => exact inv_quiet hI rfl rfl rfl rfl rfl nofun
  | expire j =>
    have hkeys : ∀ j' v, Function.update s.keys j none j' = some v → s.keys j' = some v := by
      intro j' v hv
      by_cases hj : j' = j
      · subst hj
        rw [Function.update_self] at hv
        cases hv
      · rwa [Function.update_of_ne hj] at hv
    refine ⟨fun j' v hv => hI.keys_lt j' v (hkeys j' v hv), hI.returned_lt,
      fun p hp v hv => hI.owner p hp v (hkeys _ v hv), fun i => ?_, hI.once⟩
    have hl := hI.calls i
    refine ⟨hl.drawn, fun u j' hpc => ?_, fun u j' hpc v hv => hl.added u j' hpc v (hkeys j' v hv), hl.presented⟩
    by_cases hj : j' = j
    · subst hj
      exact Function.update_self ..
    · exact (Function.update_of_ne hj ..).trans (hl.unset u j' hpc)

theorem inv_init {s : State υ ι} (h : (tokens υ ι).init s) : Inv s := by
  cases h
  exact ⟨nofun, nofun, nofun, fun i => local_of_none rfl rfl, nofun⟩

theorem inv_reach {C : State υ ι → Act υ ι → Prop} (h : (tokens υ ι).Reach C s) : Inv s :=
  h.induct (fun _ => inv_init) fun _ _ _ hI _ hstep => inv_step hI (steps_of_step hstep)

/-! ### A key that is gone -/

/-- No step sets the key of a token that has been returned. -/
theorem dead_step (hI : Inv s) {a : Act υ ι} (h : Steps s a s') {p : υ × ℕ} (hp : p ∈ s.returned)
    (hdead : s.keys p.2 = none) : s'.keys p.2 = none := by
  cases h with
  | login | refresh | logout | revokeAll | add | accept | reject | exchange | leave | read | drop | crash => exact hdead
  | @set i u j hpc =>
    have hne : p.2 ≠ j := by
      rintro rfl
      exact ((hI.calls i).drawn p.2 (by rw [hpc]; rfl)).2 p.1 hp
    exact (Function.update_of_ne hne ..).trans hdead
  | @delete i u j refresh hpc =>
    by_cases hj : p.2 = j
    · subst hj
      exact Function.update_self ..
    · exact (Function.update_of_ne hj ..).trans hdead
  | @clear i u js hpc =>
    have hclear : (if p.2 ∈ js then none else s.keys p.2) = none := by rw [hdead, ite_self]
    exact hclear
  | expire j =>
    by_cases hj : p.2 = j
    · subst hj
      exact Function.update_self ..
    · exact (Function.update_of_ne hj ..).trans hdead

theorem returned_step {a : Act υ ι} (h : Steps s a s') {p : υ × ℕ} (hp : p ∈ s.returned) : p ∈ s'.returned := by
  cases h with
  | add h => exact List.mem_cons_of_mem _ hp
  | login | refresh | logout | revokeAll | set | accept | reject | delete | exchange | leave | read | clear | drop
  | crash | expire => exact hp

/-- A returned token whose key has gone, by an exchange, a logout, a revocation or its expiry, is rejected by every
later refresh. -/
theorem stays_dead {s t : State υ ι} {u : υ} {j : ℕ} (hs : (tokens υ ι).Reach Free s) (hj : (u, j) ∈ s.returned)
    (hdead : s.keys j = none) (hr : (tokens υ ι).Run Free s t) :
    t.keys j = none ∧ ∀ i v, t.pc i = .checking v j → step t (.next i) = some (t.setPc i .raised) := by
  have ht : Inv t ∧ (u, j) ∈ t.returned ∧ t.keys j = none :=
    hr.preserves (P := fun t => Inv t ∧ (u, j) ∈ t.returned ∧ t.keys j = none)
      (fun _ _ _ ⟨hI, hmem, hd⟩ _ hstep =>
        have h := steps_of_step hstep
        ⟨inv_step hI h, returned_step h hmem, dead_step hI h hmem hd⟩)
      ⟨inv_reach hs, hj, hdead⟩
  refine ⟨ht.2.2, fun i v hpc => ?_⟩
  rw [step, hpc, State.command, ht.2.2, if_neg nofun]

/-- A login, a refresh with its token, and a second refresh with the same token. -/
theorem stays_dead_exchanged :
    ∃ s t, (tokens ℕ ℕ).Reach Free s ∧ step s (.begin 2 (.refresh 7 0)) = some t ∧ t.pc 2 = .checking 7 0 ∧
      step t (.next 2) = some (t.setPc 2 .raised) := by
  obtain ⟨s, -, hr, hp⟩ := Machine.reach_of_exec (M := tokens ℕ ℕ) (C := Free) (s := .empty)
    (p := fun s => decide ((7, 0) ∈ s.returned ∧ s.keys 0 = none ∧
      (step s (.begin 2 (.refresh 7 0))).any (fun t => t.pc 2 = .checking 7 0) = true))
    [.begin 0 (.login 7), .next 0, .next 0, .begin 1 (.refresh 7 0), .next 1, .next 1] rfl (by decide)
  obtain ⟨hj, hdead, hany⟩ := of_decide_eq_true hp
  obtain ⟨t, ht, hpc⟩ := (Option.any_eq_true _ _).1 hany
  have hpc : t.pc 2 = .checking 7 0 := of_decide_eq_true hpc
  have hrun : (tokens ℕ ℕ).Run Free s t := .single ⟨.begin 2 (.refresh 7 0), trivial, ht⟩
  exact ⟨s, t, hr, ht, hpc, (stays_dead hr hj hdead hrun).2 2 7 hpc⟩

/-! ### Revocation -/

/-- The user whose set a call is about to add to. -/
def Pc.adds : Pc υ → Option υ
  | adding u _ => some u
  | _ => none

/-- The user whose set a call has read and not yet deleted. -/
def Pc.sweeps : Pc υ → Option υ
  | clearing u _ | dropping u => some u
  | _ => none

/-- No token is added to a set between the read of the set and its delete. -/
def Undisturbed (s : State υ ι) (a : Act υ ι) : Prop :=
  ∀ i i', a = .next i → (s.pc i).adds ≠ none → (s.pc i').sweeps ≠ (s.pc i).adds

/-- What a call with the position `c` knows of the tokens that it deletes; `b` had been returned when it read the
set. -/
def Sweep (s : State υ ι) (b : List (υ × ℕ)) : Pc υ → Prop
  | .removing _ j _ => s.keys j = none
  | .clearing u js => ∀ j, (u, j) ∈ s.returned → s.keys j ≠ none → j ∈ js
  | .dropping u => ∀ j, (u, j) ∈ s.returned → s.keys j = none
  | .revoked u => ∀ j, (u, j) ∈ b → s.keys j = none
  | _ => True

structure Listed (s : State υ ι) : Prop where
  listed : ∀ u j, (u, j) ∈ s.returned → s.keys j ≠ none → j ∈ s.sets u
  before : ∀ i, s.before i ⊆ s.returned
  calls : ∀ i, Sweep s (s.before i) (s.pc i)

/-- What a call knows lasts, unless a token is returned to the user whose set it has read. -/
theorem Sweep.mono {b : List (υ × ℕ)} (h : Sweep s b c) (hb : b ⊆ s.returned) (hl : Local s c)
    (hdead : ∀ p ∈ s.returned, s.keys p.2 = none → s'.keys p.2 = none)
    (hreturned : ∀ u, c.sweeps = some u → ∀ j, (u, j) ∈ s'.returned → (u, j) ∈ s.returned) : Sweep s' b c := by
  cases c with
  | removing u j refresh =>
    obtain ⟨v, hv⟩ := hl.presented j rfl
    exact hdead _ hv h
  | clearing u js =>
    intro j hj hkey
    have hj' := hreturned u rfl j hj
    exact h j hj' fun hnone => hkey (hdead _ hj' hnone)
  | dropping u =>
    intro j hj
    have hj' := hreturned u rfl j hj
    exact hdead _ hj' (h j hj')
  | revoked u => exact fun j hj => hdead _ (hb hj) (h j hj)
  | start | setting | adding | checking | deleting | reading | issued | loggedOut | raised => trivial

/-- The step of `i` to the position `c`: the calls beside it keep what they know. -/
theorem listed_of (hI : Inv s) (hL : Listed s) {a : Act υ ι} (h : Steps s a s')
    (hpc : s'.pc = Function.update s.pc i c) (hbefore : ∀ i', i' ≠ i → s'.before i' = s.before i')
    (hown : s'.before i ⊆ s'.returned)
    (hreturned : ∀ i' u, (s.pc i').sweeps = some u → ∀ j, (u, j) ∈ s'.returned → (u, j) ∈ s.returned)
    (hlisted : ∀ u j, (u, j) ∈ s'.returned → s'.keys j ≠ none → j ∈ s'.sets u)
    (hc : Sweep s' (s'.before i) c) : Listed s' := by
  refine ⟨hlisted, fun i' => ?_, fun i' => ?_⟩
  · by_cases hi : i' = i
    · subst hi
      exact hown
    · rw [hbefore i' hi]
      exact fun p hp => returned_step h (hL.before i' hp)
  · by_cases hi : i' = i
    · subst hi
      rw [hpc, Function.update_self]
      exact hc
    · rw [hpc, Function.update_of_ne hi, hbefore i' hi]
      exact (hL.calls i').mono (hL.before i') (hI.calls i') (fun p hp => dead_step hI h hp) (hreturned i')

/-- A step of `i` that returns nothing and takes only dead tokens from the sets. -/
theorem listed_quiet (hI : Inv s) (hL : Listed s) {a : Act υ ι} (h : Steps s a s')
    (hpc : s'.pc = Function.update s.pc i c) (hbefore : s'.before = s.before) (hreturned : s'.returned = s.returned)
    (hsets : ∀ u j, (u, j) ∈ s.returned → s'.keys j ≠ none → j ∈ s.sets u → j ∈ s'.sets u)
    (hc : Sweep s' (s.before i) c) : Listed s' := by
  refine listed_of hI hL h hpc (fun _ _ => by rw [hbefore]) ?_ (fun _ _ _ _ hj => hreturned ▸ hj)
    (fun u j hj hkey => ?_) (hbefore ▸ hc)
  · rw [hbefore, hreturned]
    exact hL.before i
  · rw [hreturned] at hj
    exact hsets u j hj hkey (hL.listed u j hj fun hnone => hkey (dead_step hI h hj hnone))

/-- The `SREM` of a token whose key is gone. -/
theorem mem_erase_of_dead {u' : υ} {j' : ℕ} (hdead : s.keys j = none) (hkey : s.keys j' ≠ none)
    (hmem : j' ∈ s.sets u') : j' ∈ Function.update s.sets u ((s.sets u).erase j) u' := by
  by_cases hu : u' = u
  · subst hu
    rw [Function.update_self]
    exact Finset.mem_erase.2 ⟨fun hj => hkey (hj ▸ hdead), hmem⟩
  · rwa [Function.update_of_ne hu]

/-- The `SADD` of a token. -/
theorem mem_insert_set {u' : υ} {j' : ℕ} (h : (u' = u ∧ j' = j) ∨ j' ∈ s.sets u') :
    j' ∈ Function.update s.sets u (insert j (s.sets u)) u' := by
  by_cases hu : u' = u
  · subst hu
    rw [Function.update_self]
    exact Finset.mem_insert.2 (h.imp_left And.right)
  · rw [Function.update_of_ne hu]
    exact h.resolve_left fun h => hu h.1

theorem listed_step (hI : Inv s) (hL : Listed s) {a : Act υ ι} (hC : Undisturbed s a) (h : Steps s a s') :
    Listed s' := by
  have hstep := h
  cases h with
  | login | refresh | logout | revokeAll | accept | reject | crash =>
    exact listed_quiet hI hL hstep rfl rfl rfl (fun _ _ _ _ hmem => hmem) trivial
  | set hpc => exact listed_quiet hI hL hstep rfl rfl rfl (fun _ _ _ _ hmem => hmem) trivial
  | @add i u j hpc =>
    refine listed_of (i := i) hI hL hstep rfl (fun _ _ => rfl) ?_ ?_ ?_ trivial
    · exact fun p hp => List.mem_cons_of_mem _ (hL.before i hp)
    · intro i' u' hsweeps j' hj
      rcases List.mem_cons.1 hj with hj | hj
      · cases hj
        exact absurd hsweeps (by simpa [hpc, Pc.adds] using hC i i' rfl (by rw [hpc]; nofun))
      · exact hj
    · intro u' j' hj hkey
      rcases List.mem_cons.1 hj with hj | hj
      · cases hj
        exact mem_insert_set (.inl ⟨rfl, rfl⟩)
      · exact mem_insert_set (.inr (hL.listed u' j' hj hkey))
  | @delete i u j refresh hpc =>
    exact listed_quiet (i := i) hI hL hstep rfl rfl rfl (fun _ _ _ _ hmem => hmem) (Function.update_self ..)
  | @exchange i u j hpc =>
    have hdead := hL.calls i
    rw [hpc] at hdead
    exact listed_quiet (i := i) hI hL hstep rfl rfl rfl (fun _ _ _ hkey => mem_erase_of_dead hdead hkey) trivial
  | @leave i u j hpc =>
    have hdead := hL.calls i
    rw [hpc] at hdead
    exact listed_quiet (i := i) hI hL hstep rfl rfl rfl (fun _ _ _ hkey => mem_erase_of_dead hdead hkey) trivial
  | @read i u c hpc hc =>
    refine listed_of (i := i) hI hL hstep rfl (fun i' hi => Function.update_of_ne hi ..) ?_ (fun _ _ _ _ hj => hj)
      hL.listed ?_
    · have hself : Function.update s.before i s.returned i = s.returned := Function.update_self ..
      exact fun p hp => (congrArg (p ∈ ·) hself).mp hp
    · rcases hc with ⟨hempty, rfl⟩ | rfl
      · intro j hj
        by_contra hkey
        exact Finset.notMem_empty j (hempty ▸ hL.listed u j hj hkey)
      · exact hL.listed u
  | @clear i u js hpc =>
    have hjs := hL.calls i
    rw [hpc] at hjs
    refine listed_quiet (i := i) hI hL hstep rfl rfl rfl (fun _ _ _ _ hmem => hmem) fun j hj => ?_
    by_cases hmem : j ∈ js
    · exact if_pos hmem
    · exact (if_neg hmem).trans (not_not.1 fun hkey => hmem (hjs j hj hkey))
  | @drop i u hpc =>
    have hdead := hL.calls i
    rw [hpc] at hdead
    refine listed_quiet (i := i) hI hL hstep rfl rfl rfl (fun u' j hj hkey hmem => ?_)
      fun j hj => hdead j (hL.before i hj)
    by_cases hu : u' = u
    · subst hu
      exact absurd (hdead j hj) hkey
    · show j ∈ Function.update s.sets u ∅ u'
      rwa [Function.update_of_ne hu]
  | expire j =>
    refine ⟨fun u j' hj hkey => hL.listed u j' hj fun hnone => hkey (dead_step hI hstep hj hnone), hL.before,
      fun i => (hL.calls i).mono (hL.before i) (hI.calls i) (fun p hp => dead_step hI hstep hp) fun _ _ _ hj => hj⟩

theorem listed_init {s : State υ ι} (h : (tokens υ ι).init s) : Listed s := by
  cases h
  exact ⟨nofun, fun _ => List.Subset.refl _, fun _ => trivial⟩

/-- A revocation that has returned leaves no token of its user alive that had been returned when it read the set,
whatever the calls beside it do. -/
theorem revoked_all {s : State υ ι} {i : ι} {u : υ} (h : (tokens υ ι).Reach Undisturbed s)
    (hpc : s.pc i = .revoked u) : ∀ j, (u, j) ∈ s.before i → s.keys j = none := by
  have hL : Inv s ∧ Listed s := h.induct (P := fun s => Inv s ∧ Listed s)
    (fun _ h₀ => ⟨inv_init h₀, listed_init h₀⟩) fun _ _ _ ⟨hI, hL⟩ hC hstep =>
      have h := steps_of_step hstep
      ⟨inv_step hI h, listed_step hI hL hC h⟩
  have hsweep := hL.2.calls i
  rw [hpc] at hsweep
  exact hsweep

instance [Fintype ι] (s : State υ ι) (a : Act υ ι) : Decidable (Undisturbed s a) :=
  inferInstanceAs (Decidable (∀ _, _))

/-- A login and a password reset. -/
theorem revoked_all_login :
    ∃ s, (tokens ℕ Bool).Reach Undisturbed s ∧ (7, 0) ∈ s.before true ∧ s.keys 0 = none := by
  obtain ⟨s, -, hr, hp⟩ := Machine.reach_of_exec (M := tokens ℕ Bool) (C := Undisturbed) (s := .empty)
    (p := fun s => decide (s.pc true = .revoked 7 ∧ (7, 0) ∈ s.before true))
    [.begin false (.login 7), .next false, .next false, .begin true (.revokeAll 7), .next true, .next true, .next true]
    rfl (by decide)
  obtain ⟨hpc, hj⟩ := of_decide_eq_true hp
  exact ⟨s, hr, hj, revoked_all hr hpc 0 hj⟩

-- the first revocation deletes the set with the token of the login, and the second one finds it empty
example : ((tokens ℕ ℕ).exec Free .empty [.begin 0 (.login 7), .next 0, .begin 1 (.revokeAll 7), .next 1, .next 0,
    .next 1, .begin 2 (.revokeAll 7), .next 2, .next 2]).any
      (fun s => s.pc 2 = .revoked 7 ∧ (7, 0) ∈ s.before 2 ∧ s.keys 0 = some 7) = true := by
  decide

/-! ### Exchange -/

/-- The token that a refresh is about to check. -/
def Pc.checks : Pc υ → Option ℕ
  | checking _ j => some j
  | _ => none

/-- The token that a refresh has checked and not yet deleted. -/
def Pc.exchanging : Pc υ → Option ℕ
  | deleting _ j true => some j
  | _ => none

/-- No refresh checks a token that another one has checked and not yet deleted. -/
def Alone (s : State υ ι) (a : Act υ ι) : Prop :=
  ∀ i i', a = .next i → (s.pc i).checks ≠ none → (s.pc i').exchanging ≠ (s.pc i).checks

structure Exchanges (s : State υ ι) : Prop where
  nodup : s.exchanged.Nodup
  dead : ∀ j ∈ s.exchanged, s.keys j = none ∧ ∃ u, (u, j) ∈ s.returned
  fresh : ∀ i j, (s.pc i).exchanging = some j → j ∉ s.exchanged
  once : ∀ i i' j, (s.pc i).exchanging = some j → (s.pc i').exchanging = some j → i = i'

/-- The step of `i` to the position `c`. -/
theorem exchanges_of (hI : Inv s) (hE : Exchanges s) {a : Act υ ι} (h : Steps s a s')
    (hpc : s'.pc = Function.update s.pc i c) (hexchanged : s'.exchanged = s.exchanged)
    (hc : ∀ j, c.exchanging = some j → j ∉ s.exchanged ∧ ∀ i', (s.pc i').exchanging ≠ some j) : Exchanges s' := by
  have hof : ∀ {i' j}, (s'.pc i').exchanging = some j →
      (i' = i ∧ c.exchanging = some j) ∨ (i' ≠ i ∧ (s.pc i').exchanging = some j) := by
    intro i' j hj
    rw [hpc] at hj
    by_cases hi : i' = i
    · subst hi
      rw [Function.update_self] at hj
      exact .inl ⟨rfl, hj⟩
    · rw [Function.update_of_ne hi] at hj
      exact .inr ⟨hi, hj⟩
  refine ⟨hexchanged ▸ hE.nodup, fun j hj => ?_, fun i' j hj => ?_, fun i₁ i₂ j h₁ h₂ => ?_⟩
  · rw [hexchanged] at hj
    obtain ⟨hdead, u, hu⟩ := hE.dead j hj
    exact ⟨dead_step hI h hu hdead, u, returned_step h hu⟩
  · rw [hexchanged]
    rcases hof hj with ⟨-, hj⟩ | ⟨-, hj⟩
    · exact (hc j hj).1
    · exact hE.fresh i' j hj
  · rcases hof h₁ with ⟨rfl, h₁⟩ | ⟨-, h₁⟩ <;> rcases hof h₂ with ⟨hi, h₂⟩ | ⟨-, h₂⟩
    · exact hi.symm
    · exact absurd h₂ ((hc j h₁).2 i₂)
    · exact absurd h₁ ((hc j h₂).2 i₁)
    · exact hE.once i₁ i₂ j h₁ h₂

theorem exchanges_step (hI : Inv s) (hE : Exchanges s) {a : Act υ ι} (hC : Alone s a) (h : Steps s a s') :
    Exchanges s' := by
  have hstep := h
  cases h with
  | login | refresh | logout | revokeAll | set | add | reject | exchange | leave | clear | drop | crash =>
    exact exchanges_of hI hE hstep rfl rfl nofun
  | read hpc hc =>
    rcases hc with ⟨-, rfl⟩ | rfl
    · exact exchanges_of hI hE hstep rfl rfl nofun
    · exact exchanges_of hI hE hstep rfl rfl nofun
  | @accept i u j hpc hkey =>
    refine exchanges_of hI hE hstep rfl rfl fun j' hj => ?_
    cases hj
    refine ⟨fun hmem => ?_, fun i' => by simpa [hpc, Pc.checks] using hC i i' rfl (by rw [hpc]; nofun)⟩
    rw [(hE.dead j hmem).1] at hkey
    cases hkey
  | @delete i u j refresh hpc =>
    cases refresh with
    | false => exact exchanges_of hI hE hstep rfl rfl nofun
    | true =>
      have hown : (s.pc i).exchanging = some j := by rw [hpc]; rfl
      have hof : ∀ {i' j'}, (Function.update s.pc i (.removing u j true) i').exchanging = some j' →
          i' ≠ i ∧ (s.pc i').exchanging = some j' := by
        intro i' j' hj
        by_cases hi : i' = i
        · subst hi
          rw [Function.update_self] at hj
          cases hj
        · rw [Function.update_of_ne hi] at hj
          exact ⟨hi, hj⟩
      refine ⟨List.nodup_cons.2 ⟨hE.fresh i j hown, hE.nodup⟩, fun j' hj => ?_, fun i' j' hj hmem => ?_,
        fun i₁ i₂ j' h₁ h₂ => hE.once i₁ i₂ j' (hof h₁).2 (hof h₂).2⟩
      · rcases List.mem_cons.1 hj with rfl | hj
        · exact ⟨Function.update_self .., hI.presented (i := i) (by rw [hpc]; rfl)⟩
        · obtain ⟨hdead, v, hv⟩ := hE.dead j' hj
          exact ⟨dead_step hI hstep hv hdead, v, hv⟩
      · rcases List.mem_cons.1 hmem with rfl | hmem
        · exact (hof hj).1 (hE.once i' i j' (hof hj).2 hown)
        · exact hE.fresh i' j' (hof hj).2 hmem
  | expire j =>
    refine ⟨hE.nodup, fun j' hj => ?_, hE.fresh, hE.once⟩
    obtain ⟨hdead, u, hu⟩ := hE.dead j' hj
    exact ⟨dead_step hI hstep hu hdead, u, hu⟩

theorem exchanges_init {s : State υ ι} (h : (tokens υ ι).init s) : Exchanges s := by
  cases h
  exact ⟨List.nodup_nil, nofun, nofun, nofun⟩

/-- A refresh token is exchanged once at most while no two refreshes with it overlap. -/
theorem exchanged_once {s : State υ ι} (h : (tokens υ ι).Reach Alone s) : s.exchanged.Nodup := by
  have hE : Inv s ∧ Exchanges s := h.induct (P := fun s => Inv s ∧ Exchanges s)
    (fun _ h₀ => ⟨inv_init h₀, exchanges_init h₀⟩) fun _ _ _ ⟨hI, hE⟩ hC hstep =>
      have h := steps_of_step hstep
      ⟨inv_step hI h, exchanges_step hI hE hC h⟩
  exact hE.2.nodup

instance [Fintype ι] (s : State υ ι) (a : Act υ ι) : Decidable (Alone s a) := inferInstanceAs (Decidable (∀ _, _))

/-- Two refreshes, one after the other. -/
theorem exchanged_once_twice : ∃ s, (tokens ℕ (Fin 3)).Reach Alone s ∧ s.exchanged = [1, 0] ∧ s.exchanged.Nodup := by
  obtain ⟨s, -, hr, hp⟩ := Machine.reach_of_exec (M := tokens ℕ (Fin 3)) (C := Alone) (s := .empty)
    (p := fun s => decide (s.exchanged = [1, 0]))
    [.begin 0 (.login 7), .next 0, .next 0, .begin 1 (.refresh 7 0), .next 1, .next 1, .next 1, .next 1, .next 1,
      .begin 2 (.refresh 7 1), .next 2, .next 2] rfl (by decide)
  exact ⟨s, hr, of_decide_eq_true hp, exchanged_once hr⟩

-- two refreshes that overlap
example : ((tokens ℕ ℕ).exec Free .empty [.begin 0 (.login 7), .next 0, .next 0, .begin 1 (.refresh 7 0),
    .begin 2 (.refresh 7 0), .next 1, .next 2, .next 1, .next 2]).any (fun s => s.exchanged = [0, 0]) = true := by
  decide

end Model

end NexusStudio.RefreshTokens
