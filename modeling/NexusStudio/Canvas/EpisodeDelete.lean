import NexusStudio.Lib.Machine
import Mathlib.Data.Finset.Card
import Mathlib.Data.Fintype.Basic
import Mathlib.Logic.Function.Basic

/-!
# Deletions of episodes that raise

`delete_episode` on the episodes of one project, with the requests that create episodes, sessions and content.

* (machine) every call of a deletion on Redis, the database or the checkpointer is one step and may fail.
* (record) each deletion has a record of what it has closed and deleted.
* (result) a deletion that raises has an empty record, in the runs that meet `Safe`.
* (defect) the check on the last episode comes after the sessions and their checkpoints are gone.
-/

set_option linter.unusedSectionVars false

namespace NexusStudio.EpisodeDelete

open Concurrent

/-- Where a deletion is in `delete_episode`. -/
inductive Pc (σ : Type*)
  | requireWriteScope
  | acquireExclusive
  | waitGenerationsIdle
  | raiseIfCanvasBusy
  | listAll
  | listActive (all : List σ)
  | cancel (all todo : List σ)
  | purge (todo : List σ)
  -- the `finally` of the mutex, for a call that returns and one that raises
  | leaving
  | raising
  | returned
  | raised
  deriving DecidableEq, Repr

/-- What a deletion destroys: it closes a session, deletes a checkpoint, or deletes a row of the canvas. -/
inductive Removed (σ κ : Type*)
  | closed (x : σ)
  | checkpoint (x : σ)
  | row (k : κ)
  deriving DecidableEq, Repr

/-- Who calls `delete_episode`, for which episode. -/
structure Calls (δ ε : Type*) where
  episode : δ → ε
  -- the caller owns the project
  owns : δ → Bool

structure State (ε σ κ δ : Type*) where
  -- the active episodes of the project
  episodes : Finset ε
  -- the session rows of an episode, and which sessions are active
  sessions : ε → List σ
  active : σ → Bool
  checkpoint : σ → Bool
  -- the nodes, edges, messages and operations of an episode
  canvas : ε → List κ
  mutex : ε → Option δ
  generating : ε → Bool
  busy : ε → Bool
  pc : δ → Pc σ
  removed : δ → List (Removed σ κ)

inductive Action (ε σ κ δ : Type*)
  | requireWriteScope (d : δ)
  | acquireExclusive (d : δ)
  -- one poll of `wait_generations_idle` finds no generation, or the last one finds some
  | idle (d : δ)
  | idleTimeout (d : δ)
  | raiseIfCanvasBusy (d : δ)
  | listAll (d : δ)
  | listActive (d : δ)
  -- `_cancel_session_turn` of the next session
  | cancel (d : δ)
  | cancelTimeout (d : δ)
  | softCloseAll (d : δ)
  | deleteCheckpoint (d : δ)
  -- the transaction of `EpisodeService.delete`
  | delete (d : δ)
  | releaseExclusive (d : δ)
  -- the call under way fails
  | fault (d : δ)
  | mutexExpires (e : ε)
  | createEpisode (e : ε)
  | createSession (e : ε) (x : σ)
  | runTurn (x : σ)
  | addRow (e : ε) (k : κ)
  | generate (e : ε) (on : Bool)
  | work (e : ε) (on : Bool)
  deriving DecidableEq, Repr

section Model

variable {ε σ κ δ : Type*} [DecidableEq ε] [DecidableEq σ] [DecidableEq δ]

namespace State

def setPc (s : State ε σ κ δ) (d : δ) (p : Pc σ) : State ε σ κ δ :=
  { s with pc := Function.update s.pc d p }

/-- The deletion `d` destroys what is in `l`. -/
def remove (s : State ε σ κ δ) (d : δ) (l : List (Removed σ κ)) : State ε σ κ δ :=
  { s with removed := Function.update s.removed d (s.removed d ++ l) }

def activeSessions (s : State ε σ κ δ) (e : ε) : List σ := (s.sessions e).filter fun x => s.active x

end State

/-- The deletion holds the mutex, and is neither over nor about to be. -/
def Pc.working : Pc σ → Bool
  | waitGenerationsIdle | raiseIfCanvasBusy | listAll | listActive _ | cancel .. | purge _ => true
  | requireWriteScope | acquireExclusive | leaving | raising | returned | raised => false

/-- One step of one party, `none` when the party is elsewhere in its code. -/
def step (E : Calls δ ε) (s : State ε σ κ δ) : Action ε σ κ δ → Option (State ε σ κ δ)
  | .requireWriteScope d =>
    if s.pc d = .requireWriteScope then
      some (s.setPc d (if E.owns d ∧ E.episode d ∈ s.episodes then .acquireExclusive else .raised))
    else none
  | .acquireExclusive d =>
    if s.pc d = .acquireExclusive then
      some (if s.mutex (E.episode d) = none then
        { s.setPc d .waitGenerationsIdle with mutex := Function.update s.mutex (E.episode d) (some d) }
      else s.setPc d .raised)
    else none
  | .idle d =>
    if s.pc d = .waitGenerationsIdle ∧ s.generating (E.episode d) = false then some (s.setPc d .raiseIfCanvasBusy)
    else none
  | .idleTimeout d =>
    if s.pc d = .waitGenerationsIdle ∧ s.generating (E.episode d) then some (s.setPc d .raising) else none
  | .raiseIfCanvasBusy d =>
    if s.pc d = .raiseIfCanvasBusy then
      some (s.setPc d (if s.busy (E.episode d) then .raising else .listAll))
    else none
  | .listAll d => if s.pc d = .listAll then some (s.setPc d (.listActive (s.sessions (E.episode d)))) else none
  | .listActive d =>
    match s.pc d with
    | .listActive all => some (s.setPc d (.cancel all (s.activeSessions (E.episode d))))
    | _ => none
  | .cancel d =>
    match s.pc d with
    | .cancel all (_ :: todo) => some (s.setPc d (.cancel all todo))
    | _ => none
  | .cancelTimeout d =>
    match s.pc d with
    | .cancel _ (_ :: _) => some (s.setPc d .raising)
    | _ => none
  | .softCloseAll d =>
    match s.pc d with
    | .cancel all [] =>
      let ids := s.activeSessions (E.episode d)
      some { (s.remove d (ids.map .closed)).setPc d (.purge all) with
        active := fun x => s.active x && !ids.contains x }
    | _ => none
  | .deleteCheckpoint d =>
    match s.pc d with
    | .purge (x :: todo) =>
      some { (s.remove d (if s.checkpoint x then [.checkpoint x] else [])).setPc d (.purge todo) with
        checkpoint := Function.update s.checkpoint x false }
    | _ => none
  | .delete d =>
    match s.pc d with
    | .purge [] =>
      some (if E.episode d ∈ s.episodes ∧ E.owns d ∧ 1 < s.episodes.card then
        { (s.remove d ((s.canvas (E.episode d)).map .row)).setPc d .leaving with
          episodes := s.episodes.erase (E.episode d)
          canvas := Function.update s.canvas (E.episode d) []
          sessions := Function.update s.sessions (E.episode d) [] }
      else s.setPc d .raising)
    | _ => none
  | .releaseExclusive d =>
    if s.pc d = .leaving ∨ s.pc d = .raising then
      let mutex := if s.mutex (E.episode d) = some d then none else s.mutex (E.episode d)
      some { s.setPc d (if s.pc d = .leaving then .returned else .raised) with
        mutex := Function.update s.mutex (E.episode d) mutex }
    else none
  | .fault d =>
    if (s.pc d).working then some (s.setPc d .raising)
    else if s.pc d = .returned ∨ s.pc d = .raised then none
    else some (s.setPc d .raised)
  | .mutexExpires e => some { s with mutex := Function.update s.mutex e none }
  | .createEpisode e => some { s with episodes := insert e s.episodes }
  | .createSession e x =>
    some { s with
      sessions := Function.update s.sessions e (s.sessions e ++ [x])
      active := Function.update s.active x true }
  | .runTurn x => some { s with checkpoint := Function.update s.checkpoint x true }
  | .addRow e k => some { s with canvas := Function.update s.canvas e (s.canvas e ++ [k]) }
  | .generate e on => some { s with generating := Function.update s.generating e on }
  | .work e on => some { s with busy := Function.update s.busy e on }

/-- Any project before its episodes are deleted. -/
structure Initial (s : State ε σ κ δ) : Prop where
  pc : ∀ d, s.pc d = .requireWriteScope
  removed : ∀ d, s.removed d = []

def deletions (E : Calls δ ε) : Machine (State ε σ κ δ) (Action ε σ κ δ) where
  init := Initial
  step := step E

/-! ### The result -/

/-- A deletion that raises, or is about to, has destroyed nothing. -/
def Harmless (s : State ε σ κ δ) : Prop :=
  ∀ d, s.pc d = .raising ∨ s.pc d = .raised → s.removed d = []

/-- The transaction would find the episode active, and not the last one. -/
def Deletable (E : Calls δ ε) (episodes : Finset ε) (d : δ) : Prop :=
  E.episode d ∈ episodes ∧ 1 < episodes.card

/-- The deletion is between its first destructive step and its transaction. -/
def Pc.purging : Pc σ → Bool
  | purge _ => true
  | _ => false

/-- A session is closed or a checkpoint deleted only for an episode that can be deleted, a transaction leaves the
episodes of the deletions that have destroyed something deletable, and no call fails after that. -/
def Safe (E : Calls δ ε) (s : State ε σ κ δ) : Action ε σ κ δ → Prop
  | .softCloseAll d => s.activeSessions (E.episode d) ≠ [] → Deletable E s.episodes d
  | .deleteCheckpoint d =>
    match s.pc d with
    | .purge (x :: _) => s.checkpoint x → Deletable E s.episodes d
    | _ => True
  | .delete d =>
    Deletable E s.episodes d → ∀ d', d' ≠ d → s.removed d' ≠ [] → (s.pc d').purging →
      E.episode d' ≠ E.episode d ∧ 2 < s.episodes.card
  | .fault d => s.removed d = []
  | _ => True

/-- What holds of the episodes, the places of the deletions and their records. -/
structure Inv (E : Calls δ ε) (F : Finset ε) (pc : δ → Pc σ) (rm : δ → List (Removed σ κ)) : Prop where
  owns : ∀ d, pc d ≠ .requireWriteScope → pc d ≠ .raised → E.owns d = true
  removed : ∀ d, rm d ≠ [] → ((pc d).purging ∧ Deletable E F d) ∨ pc d = .leaving ∨ pc d = .returned

variable {E : Calls δ ε} {s s' : State ε σ κ δ} {F : Finset ε} {pc : δ → Pc σ} {rm : δ → List (Removed σ κ)}
  {d : δ} {p : Pc σ}

theorem Inv.nothing (hI : Inv E F pc rm) (hp : (pc d).purging = false) (hl : pc d ≠ .leaving)
    (hr : pc d ≠ .returned) : rm d = [] := by
  by_contra h
  rcases hI.removed d h with ⟨h', -⟩ | h' | h'
  · rw [hp] at h'
    cases h'
  · exact hl h'
  · exact hr h'

/-- A deletion goes on, and destroys what is in `l`. -/
theorem Inv.move (hI : Inv E F pc rm) (l : List (Removed σ κ))
    (ho : p ≠ .requireWriteScope → p ≠ .raised → E.owns d = true)
    (hr : rm d ++ l ≠ [] → (p.purging ∧ Deletable E F d) ∨ p = .leaving ∨ p = .returned) :
    Inv E F (Function.update pc d p) (Function.update rm d (rm d ++ l)) := by
  refine ⟨fun d' => ?_, fun d' => ?_⟩
  · by_cases hd : d' = d
    · subst hd
      simpa using ho
    · simpa [hd] using hI.owns d'
  · by_cases hd : d' = d
    · subst hd
      rw [Function.update_self, Function.update_self]
      exact hr
    · rw [Function.update_of_ne hd, Function.update_of_ne hd]
      exact hI.removed d'

/-- A deletion that has destroyed nothing goes on, wherever it goes. -/
theorem Inv.next' (hI : Inv E F pc rm) (hnil : rm d = [])
    (ho : p ≠ .requireWriteScope → p ≠ .raised → E.owns d = true) : Inv E F (Function.update pc d p) rm := by
  have hmove := hI.move (p := p) [] ho fun h => absurd (by simpa using hnil) h
  rwa [hnil, List.append_nil, ← hnil, Function.update_eq_self] at hmove

/-- The owner's deletion is under way and has not come to its first destructive step. -/
def Pc.sparing : Pc σ → Bool
  | acquireExclusive | waitGenerationsIdle | raiseIfCanvasBusy | listAll | listActive _ | cancel .. | raising => true
  | requireWriteScope | purge _ | leaving | returned | raised => false

theorem Inv.spared (hI : Inv E F pc rm) (h : (pc d).sparing) : E.owns d = true ∧ rm d = [] := by
  cases hpc : pc d with
  | requireWriteScope | purge _ | leaving | returned | raised =>
    rw [hpc] at h
    cases h
  | _ =>
    refine ⟨hI.owns d (by simp [hpc]) (by simp [hpc]), hI.nothing ?_ (by simp [hpc]) (by simp [hpc])⟩
    rw [hpc]
    rfl

/-- Such a deletion goes on. -/
theorem Inv.next (hI : Inv E F pc rm) (h : (pc d).sparing) : Inv E F (Function.update pc d p) rm :=
  hI.next' (hI.spared h).2 fun _ _ => (hI.spared h).1

theorem Inv.deletable (hI : Inv E F pc rm) (hp : (pc d).purging) (hne : rm d ≠ []) : Deletable E F d := by
  rcases hI.removed d hne with ⟨-, hdel⟩ | hl | hr
  · exact hdel
  · rw [hl] at hp
    cases hp
  · rw [hr] at hp
    cases hp

/-- The episodes change, and those of the purging deletions stay deletable. -/
theorem Inv.shrink {F' : Finset ε} (hI : Inv E F pc rm)
    (h : ∀ d, rm d ≠ [] → (pc d).purging → Deletable E F' d) : Inv E F' pc rm := by
  refine ⟨hI.owns, fun d hne => ?_⟩
  rcases hI.removed d hne with ⟨hp, -⟩ | hl | hr
  · exact .inl ⟨hp, h d hne hp⟩
  · exact .inr (.inl hl)
  · exact .inr (.inr hr)

/-- The transaction deletes the episode and its rows, or raises where it does not find the episode deletable. -/
theorem inv_delete (hI : Inv E s.episodes s.pc s.removed) (hC : Safe E s (.delete d))
    (h : step E s (.delete d) = some s') : Inv E s'.episodes s'.pc s'.removed := by
  simp only [step] at h
  split at h
  case h_2 => cases h
  case h_1 hpc =>
    cases h
    have hown : E.owns d = true := hI.owns d (by simp [hpc]) (by simp [hpc])
    split
    case isTrue hok =>
      have hD := hC ⟨hok.1, hok.2.2⟩
      have hmove := hI.move (p := .leaving) ((s.canvas (E.episode d)).map .row) (fun _ _ => hown)
        fun _ => .inr (.inl rfl)
      refine hmove.shrink fun d' hne hp => ?_
      have hd : d' ≠ d := by
        intro hd
        rw [hd, Function.update_self] at hp
        cases hp
      rw [Function.update_of_ne hd] at hne hp
      obtain ⟨hep, hcard⟩ := hD d' hd hne hp
      refine ⟨Finset.mem_erase.2 ⟨hep, (hI.deletable hp hne).1⟩, ?_⟩
      rw [Finset.card_erase_of_mem hok.1]
      omega
    case isFalse hraise =>
      have hnil : s.removed d = [] := by
        by_contra hne
        have hdel : Deletable E s.episodes d := hI.deletable (by rw [hpc]; rfl) hne
        exact hraise ⟨hdel.1, hown, hdel.2⟩
      exact hI.next' hnil fun _ _ => hown

theorem inv_fault (hI : Inv E s.episodes s.pc s.removed) (hC : Safe E s (.fault d))
    (h : step E s (.fault d) = some s') : Inv E s'.episodes s'.pc s'.removed := by
  simp only [step] at h
  split at h
  case isTrue hwork =>
    cases h
    have hown : E.owns d = true := by
      refine hI.owns d (fun hpc => ?_) (fun hpc => ?_)
      · rw [hpc] at hwork
        cases hwork
      · rw [hpc] at hwork
        cases hwork
    exact hI.next' hC fun _ _ => hown
  case isFalse =>
    split at h
    case isTrue => cases h
    case isFalse =>
      cases h
      exact hI.next' hC fun _ hne => absurd rfl hne

theorem inv_step {a : Action ε σ κ δ} (hI : Inv E s.episodes s.pc s.removed) (hC : Safe E s a)
    (h : step E s a = some s') : Inv E s'.episodes s'.pc s'.removed := by
  cases a with
  | requireWriteScope d =>
    simp only [step, Option.ite_none_right_eq_some, Option.some.injEq] at h
    obtain ⟨hpc, rfl⟩ := h
    refine hI.next' (hI.nothing (by rw [hpc]; rfl) (by simp [hpc]) (by simp [hpc])) fun _ hraised => ?_
    split at hraised
    case isTrue hok => exact hok.1
    case isFalse => exact absurd rfl hraised
  | acquireExclusive d =>
    simp only [step, Option.ite_none_right_eq_some, Option.some.injEq] at h
    obtain ⟨hpc, rfl⟩ := h
    split
    · exact hI.next (by rw [hpc]; rfl)
    · exact hI.next (by rw [hpc]; rfl)
  | idle d | idleTimeout d =>
    simp only [step, Option.ite_none_right_eq_some, Option.some.injEq] at h
    obtain ⟨⟨hpc, -⟩, rfl⟩ := h
    exact hI.next (by rw [hpc]; rfl)
  | raiseIfCanvasBusy d | listAll d =>
    simp only [step, Option.ite_none_right_eq_some, Option.some.injEq] at h
    obtain ⟨hpc, rfl⟩ := h
    exact hI.next (by rw [hpc]; rfl)
  | listActive d | cancel d | cancelTimeout d =>
    simp only [step] at h
    split at h
    case h_2 => cases h
    case h_1 hpc =>
      cases h
      exact hI.next (by rw [hpc]; rfl)
  | softCloseAll d =>
    simp only [step] at h
    split at h
    case h_2 => cases h
    case h_1 all hpc =>
      cases h
      obtain ⟨hown, hnil⟩ := hI.spared (d := d) (by rw [hpc]; rfl)
      refine hI.move _ (fun _ _ => hown) fun hne => .inl ⟨rfl, hC fun hids => ?_⟩
      rw [hnil, hids] at hne
      exact hne rfl
  | deleteCheckpoint d =>
    simp only [step] at h
    split at h
    case h_2 => cases h
    case h_1 x todo hpc =>
      cases h
      have hown : E.owns d = true := hI.owns d (by simp [hpc]) (by simp [hpc])
      have hsafe : s.checkpoint x = true → Deletable E s.episodes d := by
        simpa only [Safe, hpc] using hC
      refine hI.move _ (fun _ _ => hown) fun hne => .inl ⟨rfl, ?_⟩
      by_cases hx : s.checkpoint x = true
      · exact hsafe hx
      · rw [if_neg hx, List.append_nil] at hne
        exact hI.deletable (by rw [hpc]; rfl) hne
  | delete d => exact inv_delete hI hC h
  | releaseExclusive d =>
    simp only [step, Option.ite_none_right_eq_some, Option.some.injEq] at h
    obtain ⟨hpc, rfl⟩ := h
    rcases hpc with hpc | hpc
    · have hown : E.owns d = true := hI.owns d (by simp [hpc]) (by simp [hpc])
      have hmove := hI.move (p := .returned) [] (fun _ _ => hown) fun _ => .inr (.inr rfl)
      rw [List.append_nil, Function.update_eq_self] at hmove
      simp only [hpc, if_true]
      exact hmove
    · exact hI.next (by rw [hpc]; rfl)
  | fault d => exact inv_fault hI hC h
  | createEpisode e =>
    cases h
    refine hI.shrink fun d' hne hp => ?_
    have hdel : Deletable E s.episodes d' := hI.deletable hp hne
    exact ⟨Finset.mem_insert_of_mem hdel.1, hdel.2.trans_le (Finset.card_le_card (Finset.subset_insert e _))⟩
  | mutexExpires | createSession | runTurn | addRow | generate | work =>
    cases h
    exact hI

theorem inv_reach (h : (deletions E).Reach (Safe E) s) : Inv E s.episodes s.pc s.removed := by
  refine h.induct (P := fun s => Inv E s.episodes s.pc s.removed) (fun s h₀ => ?_)
    fun _ _ _ hI hC ht => inv_step hI hC ht
  refine ⟨fun d hpc => ?_, fun d hne => ?_⟩
  · exact absurd (h₀.pc d) hpc
  · exact absurd (h₀.removed d) hne

/-- In every run that meets the condition, a deletion that raises has closed and deleted nothing. -/
theorem harmless_of_safe (h : (deletions E).Reach (Safe E) s) : Harmless s := by
  have hI : Inv E s.episodes s.pc s.removed := inv_reach h
  rintro d (hpc | hpc)
  · exact (hI.spared (by rw [hpc]; rfl)).2
  · exact hI.nothing (by rw [hpc]; rfl) (by simp [hpc]) (by simp [hpc])

instance (F : Finset ε) (d : δ) : Decidable (Deletable E F d) :=
  inferInstanceAs (Decidable (_ ∧ _))

instance [Fintype δ] [DecidableEq κ] (s : State ε σ κ δ) (a : Action ε σ κ δ) : Decidable (Safe E s a) :=
  match a with
  | .softCloseAll d => inferInstanceAs (Decidable (s.activeSessions (E.episode d) ≠ [] → Deletable E s.episodes d))
  | .deleteCheckpoint d =>
    match hpc : s.pc d with
    | .purge (x :: todo) =>
      decidable_of_iff (s.checkpoint x → Deletable E s.episodes d) (by simp only [Safe, hpc])
    | .purge [] | .requireWriteScope | .acquireExclusive | .waitGenerationsIdle | .raiseIfCanvasBusy | .listAll
    | .listActive _ | .cancel _ _ | .leaving | .raising | .returned | .raised =>
      isTrue (by simp only [Safe, hpc])
  | .delete d =>
    inferInstanceAs (Decidable (Deletable E s.episodes d →
      ∀ d', d' ≠ d → s.removed d' ≠ [] → (s.pc d').purging → E.episode d' ≠ E.episode d ∧ 2 < s.episodes.card))
  | .fault d => inferInstanceAs (Decidable (s.removed d = []))
  | .requireWriteScope _ | .acquireExclusive _ | .idle _ | .idleTimeout _ | .raiseIfCanvasBusy _ | .listAll _
  | .listActive _ | .cancel _ | .cancelTimeout _ | .releaseExclusive _ | .mutexExpires _ | .createEpisode _
  | .createSession _ _ | .runTurn _ | .addRow _ _ | .generate _ _ | .work _ _ => isTrue trivial

end Model

/-- The owner of the project deletes the episodes `0` and `1`. -/
def owner : Calls (Fin 2) ℕ where
  episode d := d
  owns _ := true

/-- A project in which the session `0` of the episode `0` has run a turn. -/
def project (episodes : Finset ℕ) : State ℕ ℕ Unit (Fin 2) where
  episodes := episodes
  sessions e := if e = 0 then [0] else []
  active _ := true
  checkpoint _ := true
  canvas _ := [()]
  mutex _ := none
  generating _ := false
  busy e := e = 1
  pc _ := .requireWriteScope
  removed _ := []

theorem project_initial (episodes : Finset ℕ) : Initial (project episodes) := ⟨fun _ => rfl, fun _ => rfl⟩

/-- The steps of the first deletion up to the first destructive one. -/
def checks : List (Action ℕ ℕ Unit (Fin 2)) :=
  [.requireWriteScope 0, .acquireExclusive 0, .idle 0, .raiseIfCanvasBusy 0, .listAll 0, .listActive 0, .cancel 0]

/-- The deletion of one of two episodes succeeds, while that of the busy one raises. -/
theorem busy_harmless :
    ∃ s : State ℕ ℕ Unit (Fin 2),
      (deletions owner).Reach (Safe owner) s ∧ s.pc 1 = .raised ∧ s.removed 0 ≠ [] ∧ s.removed 1 = [] := by
  obtain ⟨s, -, hr, hp⟩ := Machine.reach_of_exec (M := deletions owner) (C := Safe owner) (s := project {0, 1})
    (p := fun s => decide (s.pc 1 = .raised ∧ s.removed 0 ≠ []))
    (checks ++ [.softCloseAll 0, .deleteCheckpoint 0, .requireWriteScope 1, .acquireExclusive 1, .idle 1,
      .raiseIfCanvasBusy 1, .delete 0, .releaseExclusive 0, .releaseExclusive 1])
    (project_initial _) (by decide)
  obtain ⟨hpc, hne⟩ := of_decide_eq_true hp
  exact ⟨s, hr, hpc, hne, harmless_of_safe hr 1 (.inr hpc)⟩

/-- The deletion of the only episode closes its session and deletes the checkpoint, and then raises. -/
theorem not_harmless : ¬ ∀ s : State ℕ ℕ Unit (Fin 2), (deletions owner).Reach Free s → Harmless s := by
  intro hall
  obtain ⟨s, -, hr, hp⟩ := Machine.reach_of_exec (M := deletions owner) (C := Free) (s := project {0})
    (p := fun s => decide (s.pc 0 = .raised ∧ s.removed 0 = [.closed 0, .checkpoint 0]))
    (checks ++ [.softCloseAll 0, .deleteCheckpoint 0, .delete 0, .releaseExclusive 0])
    (project_initial _) (by decide)
  obtain ⟨hpc, hrm⟩ := of_decide_eq_true hp
  have hnil : s.removed 0 = [] := hall s hr 0 (.inr hpc)
  rw [hrm] at hnil
  cases hnil

end NexusStudio.EpisodeDelete
