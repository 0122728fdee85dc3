import NexusStudio.Canvas.SessionTurns
import Mathlib.Data.Fintype.Basic

/-!
# No turn on a deleted session

* (condition) `Safe`: a request takes the lock of a session only while the session is open with its checkpoint, no
  deletion has found the session without a turn or waits for its turn, and no earlier execution with the same turn id
  is still unregistering; a `force_release` deletes the lock of no executing turn.
* (result) Under the condition no turn of a session executes once the checkpoint of the session is deleted.
-/

set_option linter.unusedSectionVars false

namespace NexusStudio.SessionTurns

open Concurrent

section Delete

variable {σ τ π ρ δ : Type*} [DecidableEq σ] [DecidableEq τ] [DecidableEq π] [DecidableEq ρ] [DecidableEq δ]
variable {E : Episode σ τ π ρ δ} {s s' : State σ τ π ρ δ}

/-- The deletion waits for a turn of the session it cancels. -/
def DeleterPc.waiting : DeleterPc τ ρ → Bool
  | .cancel (.waitLocal _) | .cancel (.waitRemote _) => true
  | _ => false

/-- The deletion will not look for another turn of the session `x`. -/
def Deleter.Committed (q : Deleter σ τ ρ) (x : σ) : Prop :=
  x ∈ q.done ∨ (q.pc.waiting ∧ q.todo.head? = some x)

/-- The request may take the free lock of its session. -/
def AcquireSafe (E : Episode σ τ π ρ δ) (s : State σ τ π ρ δ) (r : ρ) : Prop :=
  s.active (E.session r) ∧ s.deleted (E.session r) = false ∧ (∀ d, ¬ (s.deleter d).Committed (E.session r)) ∧
    ∀ r', E.session r' = E.session r → E.turn r' = E.turn r → s.phase r' ≠ .released

/-- The condition on a step: a lock is taken safely, and `force_release` deletes the lock of no executing turn. -/
def Safe (E : Episode σ τ π ρ δ) (s : State σ τ π ρ δ) (a : Action ρ δ) : Prop :=
  (∀ r, a = .request r .acquire → s.lock (E.session r) = none → AcquireSafe E s r) ∧
  ∀ d, a = .delete d .forceDel → ∀ x ∈ (s.deleter d).todo.head?, ∀ r, s.Executing r → E.session r ≠ x

instance (q : Deleter σ τ ρ) (x : σ) : Decidable (q.Committed x) :=
  inferInstanceAs (Decidable (_ ∨ _))

instance (s : State σ τ π ρ δ) (r : ρ) : Decidable (s.Executing r) :=
  inferInstanceAs (Decidable (_ ∨ _))

instance [Fintype ρ] [Fintype δ] (E : Episode σ τ π ρ δ) (s : State σ τ π ρ δ) (r : ρ) :
    Decidable (AcquireSafe E s r) :=
  inferInstanceAs (Decidable (_ ∧ _ ∧ (∀ _, _) ∧ ∀ _, _ → _ → _))

instance [Fintype ρ] [Fintype δ] (E : Episode σ τ π ρ δ) (s : State σ τ π ρ δ) (a : Action ρ δ) :
    Decidable (Safe E s a) :=
  inferInstanceAs (Decidable ((∀ _, _ → _ → _) ∧ ∀ _, _ → ∀ x ∈ List.head? _, _))

/-! ### The invariant -/

/-- The sessions that a deletion is for. -/
def Episode.targets (E : Episode σ τ π ρ δ) (d : δ) : List σ :=
  match E.target d with
  | .session x => [x]
  | .episode => E.sessions

/-- The deletion is in its cancel loop. -/
def DeleterPc.cancelling : DeleterPc τ ρ → Bool
  | .cancel _ => true
  | _ => false

/-- The deletion has cancelled and removes data. -/
def DeleterPc.closing : DeleterPc τ ρ → Bool
  | .closeAll | .purge | .softClose => true
  | _ => false

/-- No turn of the session executes. -/
def State.Quiet (E : Episode σ τ π ρ δ) (s : State σ τ π ρ δ) (x : σ) : Prop :=
  ∀ r, s.Executing r → E.session r ≠ x

/-- What holds of a deletion with the record `q`. -/
structure DeleterOk (E : Episode σ τ π ρ δ) (s : State σ τ π ρ δ) (d : δ) (q : Deleter σ τ ρ) : Prop where
  held : q.pc ≠ .away → s.mutex = some d
  done : ∀ x ∈ q.done, s.Quiet E x
  waitRemote : ∀ t x, q.pc = .cancel (.waitRemote t) → q.todo.head? = some x →
    ∀ r, s.Executing r → E.session r = x → E.turn r = t
  waitLocal : ∀ r' x, q.pc = .cancel (.waitLocal r') → q.todo.head? = some x →
    E.session r' = x ∧ ∀ r, s.Executing r → E.session r = x → E.turn r = E.turn r' ∧ s.completed r' = false
  cancelling : q.pc.cancelling → ∀ x ∈ E.targets d, s.active x = false ∨ x ∈ q.done ∨ x ∈ q.todo
  closing : q.pc.closing → ∀ x ∈ E.targets d, s.active x = false ∨ x ∈ q.done
  purge : ∀ x ∈ q.purge, x ∈ E.targets d

/-- The turn of `r` has been registered. -/
def Phase.registered : Phase → Bool
  | .running | .released | .over => true
  | _ => false

/-- What holds in every state of a run that meets the condition. -/
structure Inv (E : Episode σ τ π ρ δ) (s : State σ τ π ρ δ) : Prop where
  lock : ∀ r, s.Executing r → s.lock (E.session r) = some (E.turn r)
  unique : ∀ r r', s.Executing r → s.Executing r' → E.session r = E.session r' → r = r'
  released : ∀ r r', s.Executing r → s.phase r' = .released → E.session r' = E.session r → E.turn r' ≠ E.turn r
  record : ∀ w x r, s.activeTurns w x = some r →
    w = E.worker r ∧ x = E.session r ∧ s.completed r = false ∧ (s.phase r).registered
  completed : ∀ r, s.completed r → (s.phase r).registered
  closed : ∀ x, s.active x = false ∨ s.deleted x → s.Quiet E x
  deleter : ∀ d, DeleterOk E s d (s.deleter d)

/-- A deletion record stays in order when turns end, sessions are closed, and no wait is completed for an executing
turn. -/
theorem DeleterOk.mono {d : δ} {q : Deleter σ τ ρ} (h : DeleterOk E s d q)
    (hm : q.pc ≠ .away → s.mutex = some d → s'.mutex = some d) (hx : ∀ r, s'.Executing r → s.Executing r)
    (hc : ∀ r r', q.pc = .cancel (.waitLocal r') → s'.Executing r → E.session r = E.session r' →
      E.turn r = E.turn r' → s.completed r' = false → s'.completed r' = false)
    (ha : ∀ x, s.active x = false → s'.active x = false) : DeleterOk E s' d q where
  held hpc := hm hpc (h.held hpc)
  done x hd r hr := h.done x hd r (hx r hr)
  waitRemote t x hpc ht r hr := h.waitRemote t x hpc ht r (hx r hr)
  waitLocal r' x hpc ht := by
    obtain ⟨hs, hrs⟩ := h.waitLocal r' x hpc ht
    refine ⟨hs, fun r hr hrx => ?_⟩
    obtain ⟨hturn, hcomp⟩ := hrs r (hx r hr) hrx
    exact ⟨hturn, hc r r' hpc hr (hrx.trans hs.symm) hturn hcomp⟩
  cancelling hpc x hxt := (h.cancelling hpc x hxt).imp_left (ha x)
  closing hpc x hxt := (h.closing hpc x hxt).imp_left (ha x)
  purge := h.purge

/-! ### Steps of a request -/

private theorem executing_setPhase {r r' : ρ} {p : Phase} (hp : p ≠ .locked) (hp' : p ≠ .running)
    (h : (s.setPhase r p).Executing r') : r' ≠ r ∧ s.Executing r' := by
  by_cases hr : r' = r
  · subst hr
    simp [State.Executing, State.setPhase, hp, hp'] at h
  · exact ⟨hr, by simpa [State.Executing, State.setPhase, hr] using h⟩

private theorem phase_setPhase_ne {r r' : ρ} {p : Phase} (hr : r' ≠ r) : (s.setPhase r p).phase r' = s.phase r' :=
  Function.update_of_ne hr _ _

private theorem phase_setPhase_self {r : ρ} {p : Phase} : (s.setPhase r p).phase r = p :=
  Function.update_self ..

private theorem registered_setPhase {r r' : ρ} {p : Phase} (hp : (s.phase r).registered → p.registered)
    (h : (s.phase r').registered) : ((s.setPhase r p).phase r').registered := by
  by_cases hr : r' = r
  · subst hr
    rw [phase_setPhase_self]
    exact hp h
  · rwa [phase_setPhase_ne hr]

/-- A request that gives up, or has not got a lock yet, changes only its phase. -/
private theorem Inv.setPhase (hI : Inv E s) {r : ρ} {p : Phase} (hp : p ≠ .locked) (hp' : p ≠ .running)
    (hp'' : p ≠ .released) (hreg : (s.phase r).registered → p.registered) : Inv E (s.setPhase r p) where
  lock r' h := hI.lock r' (executing_setPhase hp hp' h).2
  unique r₁ r₂ h₁ h₂ := hI.unique r₁ r₂ (executing_setPhase hp hp' h₁).2 (executing_setPhase hp hp' h₂).2
  released r₁ r₂ h₁ h₂ := by
    have hne : r₂ ≠ r := by
      rintro rfl
      rw [phase_setPhase_self] at h₂
      exact hp'' h₂
    rw [phase_setPhase_ne hne] at h₂
    exact hI.released r₁ r₂ (executing_setPhase hp hp' h₁).2 h₂
  record w x r' h := by
    obtain ⟨hw, hx, hc, hr⟩ := hI.record w x r' h
    exact ⟨hw, hx, hc, registered_setPhase hreg hr⟩
  completed r' h := registered_setPhase hreg (hI.completed r' h)
  closed x hx r' h := hI.closed x hx r' (executing_setPhase hp hp' h).2
  deleter d := (hI.deleter d).mono (fun _ => id) (fun r' h => (executing_setPhase hp hp' h).2)
    (fun _ _ _ _ _ _ => id) fun _ => id

/-- A request takes the free lock of its session. -/
private theorem Inv.acquire (hI : Inv E s) {r : ρ} (hr : s.phase r = .owned) (hl : s.lock (E.session r) = none)
    (hS : AcquireSafe E s r) : Inv E ((s.setLock (E.session r) (some (E.turn r))).setPhase r .locked) := by
  obtain ⟨hact, hdel, hcom, hrel⟩ := hS
  have hnone : s.Quiet E (E.session r) := by
    intro r' hr' hx
    have := hI.lock r' hr'
    rw [hx, hl] at this
    cases this
  -- the executing requests are those before, on other sessions, and `r`
  have hex : ∀ {r'}, ((s.setLock (E.session r) (some (E.turn r))).setPhase r .locked).Executing r' →
      r' = r ∨ (r' ≠ r ∧ s.Executing r' ∧ E.session r' ≠ E.session r) := by
    intro r' h
    by_cases hrr : r' = r
    · exact .inl hrr
    · have hs : s.Executing r' := by simpa [State.Executing, State.setPhase, State.setLock, hrr] using h
      exact .inr ⟨hrr, hs, hnone r' hs⟩
  have hunreg : ¬ (s.phase r).registered := by rw [hr]; nofun
  refine ⟨?_, ?_, ?_, ?_, ?_, ?_, ?_⟩
  · intro r' h
    rcases hex h with rfl | ⟨-, hs, hne⟩
    · exact Function.update_self ..
    · exact (Function.update_of_ne hne _ _).trans (hI.lock r' hs)
  · intro r₁ r₂ h₁ h₂ hx
    rcases hex h₁ with rfl | ⟨-, hs₁, hne₁⟩
    · rcases hex h₂ with rfl | ⟨-, -, hne₂⟩
      · rfl
      · exact absurd hx.symm hne₂
    · rcases hex h₂ with rfl | ⟨-, hs₂, -⟩
      · exact absurd hx hne₁
      · exact hI.unique r₁ r₂ hs₁ hs₂ hx
  · intro r₁ r₂ h₁ h₂ hx ht
    have hne : r₂ ≠ r := by
      rintro rfl
      rw [phase_setPhase_self] at h₂
      cases h₂
    rw [phase_setPhase_ne hne] at h₂
    rcases hex h₁ with rfl | ⟨-, hs₁, -⟩
    · exact hrel r₂ hx ht h₂
    · exact hI.released r₁ r₂ hs₁ h₂ hx ht
  · intro w x r' h
    obtain ⟨hw, hx, hc, hreg⟩ := hI.record w x r' h
    refine ⟨hw, hx, hc, registered_setPhase (fun h => absurd h hunreg) hreg⟩
  · exact fun r' h => registered_setPhase (fun h => absurd h hunreg) (hI.completed r' h)
  · intro x hx r' h
    rcases hex h with rfl | ⟨-, hs, -⟩
    · rintro rfl
      rcases hx with hx | hx
      · exact absurd hact (by rw [show s.active (E.session r') = false from hx]; nofun)
      · exact absurd hdel (by rw [show s.deleted (E.session r') = true from hx]; nofun)
    · exact hI.closed x hx r' hs
  · intro d
    have hd := hI.deleter d
    refine ⟨hd.held, ?_, ?_, ?_, hd.cancelling, hd.closing, hd.purge⟩
    · intro x hx r' h
      rcases hex h with rfl | ⟨-, hs, -⟩
      · rintro rfl
        exact hcom d (.inl hx)
      · exact hd.done x hx r' hs
    · intro t x hpc ht r' h hrx
      rcases hex h with rfl | ⟨-, hs, -⟩
      · subst hrx
        exact absurd (.inr ⟨by rw [show (s.deleter d).pc = _ from hpc]; rfl, ht⟩) (hcom d)
      · exact hd.waitRemote t x hpc ht r' hs hrx
    · intro r₀ x hpc ht
      obtain ⟨hx, hall⟩ := hd.waitLocal r₀ x hpc ht
      refine ⟨hx, fun r' h hrx => ?_⟩
      rcases hex h with rfl | ⟨-, hs, -⟩
      · subst hrx
        exact absurd (.inr ⟨by rw [show (s.deleter d).pc = _ from hpc]; rfl, ht⟩) (hcom d)
      · exact hall r' hs hrx

/-- The worker of a request registers it. -/
private theorem Inv.register (hI : Inv E s) {r : ρ} (hr : s.phase r = .locked) :
    Inv E ((s.register (E.worker r) (E.session r) r).setPhase r .running) := by
  have hex : ∀ {r'}, ((s.register (E.worker r) (E.session r) r).setPhase r .running).Executing r' →
      s.Executing r' := by
    intro r' h
    by_cases hrr : r' = r
    · subst hrr
      exact .inl hr
    · simpa [State.Executing, State.setPhase, State.register, hrr] using h
  have hfresh : s.completed r = false := by
    by_contra hc
    have := hI.completed r (by simpa using hc)
    rw [hr] at this
    cases this
  have hreg : ∀ r', (s.phase r').registered → ((s.setPhase r .running).phase r').registered :=
    fun r' => registered_setPhase fun _ => rfl
  refine ⟨fun r' h => hI.lock r' (hex h), fun r₁ r₂ h₁ h₂ => hI.unique r₁ r₂ (hex h₁) (hex h₂), ?_, ?_, ?_,
    fun x hx r' h => hI.closed x hx r' (hex h), ?_⟩
  · intro r₁ r₂ h₁ h₂
    have hne : r₂ ≠ r := by
      rintro rfl
      rw [phase_setPhase_self] at h₂
      cases h₂
    rw [phase_setPhase_ne hne] at h₂
    exact hI.released r₁ r₂ (hex h₁) h₂
  · intro w x r' h
    by_cases hw : w = E.worker r ∧ x = E.session r
    · obtain ⟨rfl, rfl⟩ := hw
      have hrr : r = r' := by simpa [State.register, State.setPhase] using h
      subst hrr
      exact ⟨rfl, rfl, hfresh, by rw [phase_setPhase_self]; rfl⟩
    · have hold : s.activeTurns w x = some r' := by
        by_cases hww : w = E.worker r
        · subst hww
          have hxx : x ≠ E.session r := fun hx => hw ⟨rfl, hx⟩
          simpa [State.register, State.setPhase, hxx] using h
        · simpa [State.register, State.setPhase, hww] using h
      obtain ⟨hw', hx', hc, hr'⟩ := hI.record w x r' hold
      exact ⟨hw', hx', hc, hreg r' hr'⟩
  · exact fun r' h => hreg r' (hI.completed r' h)
  · exact fun d => (hI.deleter d).mono (fun _ => id) (fun _ => hex) (fun _ _ _ _ _ _ => id) fun _ => id

/-- An execution releases the lock of its session. -/
private theorem Inv.release (hI : Inv E s) {r : ρ} (hr : s.phase r = .running) :
    Inv E ((s.setLock (E.session r) (releaseIf (s.lock (E.session r)) (E.turn r))).setPhase r .released) := by
  have hrx : s.Executing r := .inr hr
  have hex : ∀ {r'}, ((s.setLock (E.session r) (releaseIf (s.lock (E.session r)) (E.turn r))).setPhase r
      .released).Executing r' → r' ≠ r ∧ s.Executing r' :=
    fun h => executing_setPhase (p := .released) nofun nofun h
  have hreg : ∀ r', (s.phase r').registered → ((s.setPhase r .released).phase r').registered :=
    fun r' => registered_setPhase fun _ => rfl
  refine ⟨?_, fun r₁ r₂ h₁ h₂ => hI.unique r₁ r₂ (hex h₁).2 (hex h₂).2, ?_, ?_,
    fun r' h => hreg r' (hI.completed r' h), fun x hx r' h => hI.closed x hx r' (hex h).2, ?_⟩
  · intro r' h
    obtain ⟨hne, hs⟩ := hex h
    have hx : E.session r' ≠ E.session r := fun hx => hne (hI.unique r' r hs hrx hx)
    exact (Function.update_of_ne hx _ _).trans (hI.lock r' hs)
  · intro r₁ r₂ h₁ h₂ hx
    obtain ⟨hne, hs⟩ := hex h₁
    by_cases hr₂ : r₂ = r
    · subst hr₂
      exact absurd (hI.unique r₁ r₂ hs hrx hx.symm) hne
    · rw [phase_setPhase_ne hr₂] at h₂
      exact hI.released r₁ r₂ hs h₂ hx
  · intro w x r' h
    obtain ⟨hw, hx, hc, hr'⟩ := hI.record w x r' h
    exact ⟨hw, hx, hc, hreg r' hr'⟩
  · exact fun d => (hI.deleter d).mono (fun _ => id) (fun _ h => (hex h).2) (fun _ _ _ _ _ _ => id) fun _ => id

/-- A worker unregisters its turn of a session, when no deletion waits on the record for an executing turn. -/
private theorem Inv.unregister (hI : Inv E s) {w : π} {x : σ} {t : τ}
    (hw : ∀ d r r', s.activeTurns w x = some r' → E.turn r' = t → (s.deleter d).pc = .cancel (.waitLocal r') →
      s.Executing r → E.session r = E.session r' → E.turn r ≠ E.turn r') : Inv E (s.unregister E w x t) := by
  unfold State.unregister
  split
  case h_2 => exact hI
  case h_1 r₀ h₀ =>
    split
    case isFalse => exact hI
    case isTrue ht =>
      obtain ⟨hw₀, hx₀, hc₀, hr₀⟩ := hI.record w x r₀ h₀
      refine ⟨hI.lock, hI.unique, hI.released, ?_, ?_, hI.closed, ?_⟩
      · intro w' x' r' h
        have hold : s.activeTurns w' x' = some r' ∧ ¬ (w' = w ∧ x' = x) := by
          by_cases hww : w' = w
          · subst hww
            by_cases hxx : x' = x
            · subst hxx
              simp at h
            · exact ⟨by simpa [hxx] using h, fun hh => hxx hh.2⟩
          · exact ⟨by simpa [hww] using h, fun hh => hww hh.1⟩
        obtain ⟨hw', hx', hc', hr'⟩ := hI.record w' x' r' hold.1
        have hne : r' ≠ r₀ := by
          rintro rfl
          exact hold.2 ⟨hw'.trans hw₀.symm, hx'.trans hx₀.symm⟩
        exact ⟨hw', hx', (Function.update_of_ne hne _ _).trans hc', hr'⟩
      · intro r' h
        by_cases hne : r' = r₀
        · subst hne
          exact hr₀
        · exact hI.completed r' (by simpa [hne] using h)
      · intro d
        refine (hI.deleter d).mono (fun _ => id) (fun _ => id) ?_ fun _ => id
        intro r r' hpc hr hx hturn hc
        have hne : r' ≠ r₀ := by
          rintro rfl
          exact hw d r r' h₀ ht hpc hr hx hturn
        exact (Function.update_of_ne hne _ _).trans hc

theorem inv_request {r : ρ} {e : RequestStep} (hI : Inv E s) (hS : Safe E s (.request r e))
    (h : requestStep E s r e = some s') : Inv E s' := by
  cases e with
  | assertWritable =>
    simp only [requestStep, Option.ite_none_right_eq_some, Option.some.injEq] at h
    obtain ⟨hr, rfl⟩ := h
    refine hI.setPhase ?_ ?_ ?_ (by rw [hr]; nofun) <;> split <;> nofun
  | requireOwned =>
    simp only [requestStep, Option.ite_none_right_eq_some, Option.some.injEq] at h
    obtain ⟨hr, rfl⟩ := h
    refine hI.setPhase ?_ ?_ ?_ (by rw [hr]; nofun) <;> split <;> nofun
  | reject =>
    simp only [requestStep, Option.ite_none_right_eq_some, Option.some.injEq] at h
    obtain ⟨-, rfl⟩ := h
    exact hI.setPhase nofun nofun nofun fun _ => rfl
  | acquire =>
    simp only [requestStep, Option.ite_none_right_eq_some] at h
    obtain ⟨hr, h⟩ := h
    split at h
    case isTrue hl =>
      cases h
      exact hI.acquire hr hl (hS.1 r rfl hl)
    case isFalse =>
      cases h
      exact hI.setPhase nofun nofun nofun fun _ => rfl
  | register =>
    simp only [requestStep, Option.ite_none_right_eq_some, Option.some.injEq] at h
    obtain ⟨hr, rfl⟩ := h
    exact hI.register hr
  | release =>
    simp only [requestStep, Option.ite_none_right_eq_some, Option.some.injEq] at h
    obtain ⟨hr, rfl⟩ := h
    exact hI.release hr
  | unregister =>
    simp only [requestStep, Option.ite_none_right_eq_some, Option.some.injEq] at h
    obtain ⟨hr, rfl⟩ := h
    have hI' : Inv E (s.unregister E (E.worker r) (E.session r) (E.turn r)) := by
      refine hI.unregister fun d r₁ r₀ h₀ ht _ hr₁ hx hturn => ?_
      obtain ⟨-, hx₀, -, -⟩ := hI.record _ _ _ h₀
      exact hI.released r₁ r hr₁ hr (hx₀.trans hx.symm) (ht.symm.trans hturn.symm)
    exact hI'.setPhase nofun nofun nofun fun _ => rfl
  | crash =>
    simp only [requestStep, Option.ite_none_right_eq_some, Option.some.injEq] at h
    obtain ⟨-, rfl⟩ := h
    exact hI.setPhase nofun nofun nofun fun _ => rfl

/-! ### Steps of a deletion -/

/-- A deletion changes its own record. -/
private theorem Inv.setDeleter (hI : Inv E s) {d : δ} {q : Deleter σ τ ρ} (hq : DeleterOk E s d q) :
    Inv E (s.setDeleter d q) := by
  refine ⟨hI.lock, hI.unique, hI.released, hI.record, hI.completed, hI.closed, fun d' => ?_⟩
  by_cases hd : d' = d
  · subst hd
    rw [show (s.setDeleter d' q).deleter d' = q from Function.update_self ..]
    exact hq.mono (fun _ => id) (fun _ => id) (fun _ _ _ _ _ _ => id) fun _ => id
  · rw [show (s.setDeleter d q).deleter d' = s.deleter d' from Function.update_of_ne hd _ _]
    exact (hI.deleter d').mono (fun _ => id) (fun _ => id) (fun _ _ _ _ _ _ => id) fun _ => id

/-- A deletion on its way out. -/
private theorem DeleterOk.toRelease {d : δ} {q : Deleter σ τ ρ} (h : DeleterOk E s d q) (hpc : q.pc ≠ .away) :
    DeleterOk E s d { q with pc := .release } where
  held _ := h.held hpc
  done := h.done
  waitRemote _ _ hpc := nomatch hpc
  waitLocal _ _ hpc := nomatch hpc
  cancelling hpc := nomatch hpc
  closing hpc := nomatch hpc
  purge := h.purge

/-- The session of the loop has no executing turn any more. -/
private theorem DeleterOk.next {d : δ} {q : Deleter σ τ ρ} {c : CancelPc τ ρ} {x : σ} {rest : List σ}
    (h : DeleterOk E s d q) (hpc : q.pc = .cancel c) (ht : q.todo = x :: rest) (hx : s.Quiet E x) :
    DeleterOk E s d q.next where
  held _ := h.held (by rw [hpc]; nofun)
  done y hy := by
    simp only [Deleter.next, ht, List.head?_cons, Option.toList_some, List.singleton_append, List.mem_cons] at hy
    rcases hy with rfl | hy
    · exact hx
    · exact h.done y hy
  waitRemote _ _ hpc := nomatch hpc
  waitLocal _ _ hpc := nomatch hpc
  cancelling _ y hy := by
    have := h.cancelling (by rw [hpc]; rfl) y hy
    simp only [Deleter.next, ht, List.head?_cons, Option.toList_some, List.singleton_append, List.mem_cons,
      List.tail_cons] at this ⊢
    tauto
  closing hpc := nomatch hpc
  purge := h.purge

/-- The deletion goes to another place of its cancel loop, where it does not wait. -/
private theorem DeleterOk.toCancel {d : δ} {q : Deleter σ τ ρ} {c c' : CancelPc τ ρ} (h : DeleterOk E s d q)
    (hpc : q.pc = .cancel c) (hc : (DeleterPc.cancel c').waiting = false) :
    DeleterOk E s d { q with pc := .cancel c' } where
  held _ := h.held (by rw [hpc]; nofun)
  done := h.done
  waitRemote t x hpc' := by
    cases hpc'
    cases hc
  waitLocal r x hpc' := by
    cases hpc'
    cases hc
  cancelling _ := h.cancelling (by rw [hpc]; rfl)
  closing hpc := nomatch hpc
  purge := h.purge

/-- The deletion goes to another place of its cancel loop with the turn it found in mind. -/
private theorem DeleterOk.toWait {d : δ} {q : Deleter σ τ ρ} {c c' : CancelPc τ ρ} {x : σ} {t : τ}
    (h : DeleterOk E s d q) (hpc : q.pc = .cancel c) (ht : q.todo.head? = some x)
    (hturn : ∀ r, s.Executing r → E.session r = x → E.turn r = t)
    (hc : c' = .waitRemote t ∨ ∃ r, c' = .waitLocal r ∧ E.session r = x ∧ E.turn r = t ∧ s.completed r = false) :
    DeleterOk E s d { q with pc := .cancel c' } where
  held _ := h.held (by rw [hpc]; nofun)
  done := h.done
  waitRemote t' y hpc' hy r hr hrx := by
    cases hpc'
    cases ht.symm.trans hy
    rcases hc with hc | ⟨_, hc, -⟩
    · cases hc
      exact hturn r hr hrx
    · cases hc
  waitLocal r' y hpc' hy := by
    cases hpc'
    cases ht.symm.trans hy
    rcases hc with hc | ⟨_, hc, hx, hrt, hcomp⟩
    · cases hc
    · cases hc
      exact ⟨hx, fun r hr hrx => ⟨(hturn r hr hrx).trans hrt.symm, hcomp⟩⟩
  cancelling _ := h.cancelling (by rw [hpc]; rfl)
  closing hpc := nomatch hpc
  purge := h.purge

/-- The lock of a session without an executing turn is deleted. -/
private theorem Inv.clearLock (hI : Inv E s) {x : σ} (hx : s.Quiet E x) : Inv E (s.setLock x none) :=
  ⟨fun r hr => (Function.update_of_ne (hx r hr) _ _).trans (hI.lock r hr), hI.unique, hI.released, hI.record,
    hI.completed, hI.closed, fun d =>
      (hI.deleter d).mono (fun _ => id) (fun _ => id) (fun _ _ _ _ _ _ => id) fun _ => id⟩

private theorem unregister_deleter (E : Episode σ τ π ρ δ) (s : State σ τ π ρ δ) (w : π) (x : σ) (t : τ) :
    (s.unregister E w x t).deleter = s.deleter := by
  unfold State.unregister
  split
  · split <;> rfl
  · rfl

/-- The mutex has one holder. -/
private theorem Inv.away (hI : Inv E s) {d d' : δ} (hd : (s.deleter d).pc ≠ .away) (hne : d' ≠ d) :
    (s.deleter d').pc = .away := by
  by_contra hd'
  exact hne (Option.some.inj (((hI.deleter d').held hd').symm.trans ((hI.deleter d).held hd)))

theorem inv_cancel {d : δ} {x : σ} {rest : List σ} {c : CancelPc τ ρ} {e : DeleterStep} (hI : Inv E s)
    (hS : Safe E s (.delete d e)) (hpc : (s.deleter d).pc = .cancel c) (ht : (s.deleter d).todo = x :: rest)
    (h : cancelStep E s d x c e = some s') : Inv E s' := by
  have hd := hI.deleter d
  have hfree : s.lock x = none → s.Quiet E x := by
    rintro hl r hr rfl
    have := hI.lock r hr
    rw [hl] at this
    cases this
  cases e with
  | readActive =>
    simp only [cancelStep] at h
    split at h
    case h_2 => cases h
    case h_1 =>
      split at h
      case h_1 hl =>
        cases h
        exact hI.setDeleter (hd.next hpc ht (hfree hl))
      case h_2 t hl =>
        cases h
        exact hI.setDeleter (hd.toCancel hpc rfl)
  | waitRead =>
    simp only [cancelStep] at h
    split at h
    case h_2 => cases h
    case h_1 =>
      split at h
      case h_1 hl =>
        cases h
        exact hI.setDeleter (hd.next hpc ht (hfree hl))
      case h_2 t hl =>
        have hturn : ∀ r, s.Executing r → E.session r = x → E.turn r = t := by
          rintro r hr rfl
          have := hI.lock r hr
          rw [hl] at this
          exact (Option.some.inj this).symm
        have hhead : (s.deleter d).todo.head? = some x := by rw [ht]; rfl
        split at h
        case h_1 r₀ h₀ =>
          cases h
          obtain ⟨-, hx₀, hc₀, -⟩ := hI.record _ _ _ h₀
          refine hI.setDeleter (hd.toWait hpc hhead hturn ?_)
          split
          case isTrue hrt => exact .inr ⟨r₀, rfl, hx₀.symm, hrt, hc₀⟩
          case isFalse => exact .inl rfl
        case h_2 =>
          cases h
          exact hI.setDeleter (hd.toWait hpc hhead hturn (.inl rfl))
  | waitDone =>
    simp only [cancelStep] at h
    split at h
    case h_1 r₀ =>
      obtain ⟨hc, h⟩ := Option.ite_none_right_eq_some.1 h
      cases h
      refine hI.setDeleter (hd.next hpc ht fun r hr hx => ?_)
      have := ((hd.waitLocal r₀ x hpc (by rw [ht]; rfl)).2 r hr hx).2
      rw [hc] at this
      cases this
    case h_2 t =>
      obtain ⟨hl, h⟩ := Option.ite_none_right_eq_some.1 h
      cases h
      refine hI.setDeleter (hd.next hpc ht fun r hr hx => hl ?_)
      rw [← hx, hI.lock r hr, hd.waitRemote t x hpc (by rw [ht]; rfl) r hr hx]
    case h_3 => cases h
  | timeout =>
    simp only [cancelStep] at h
    split at h
    case h_1 | h_2 =>
      cases h
      exact hI.setDeleter (hd.toCancel hpc rfl)
    case h_3 => cases h
  | forceGet =>
    simp only [cancelStep] at h
    split at h
    case h_2 => cases h
    case h_1 =>
      split at h
      case h_1 =>
        cases h
        exact hI.setDeleter (hd.toRelease (by rw [hpc]; nofun))
      case h_2 =>
        cases h
        exact hI.setDeleter (hd.toCancel hpc rfl)
  | forceDel =>
    simp only [cancelStep] at h
    split at h
    case h_2 => cases h
    case h_1 t =>
      cases h
      have hI' : Inv E (s.setLock x none) := hI.clearLock (hS.2 d rfl x (by rw [ht]; rfl))
      exact hI'.setDeleter ((hI'.deleter d).toCancel hpc rfl)
  | forcePop =>
    simp only [cancelStep] at h
    split at h
    case h_2 => cases h
    case h_1 t =>
      cases h
      have hI' : Inv E (s.unregister E (E.deleterWorker d) x t) := by
        -- no deletion waits: this one does not, and the others are away
        refine hI.unregister fun d' r r' _ _ hwait => ?_
        by_cases hdd : d' = d
        · subst hdd
          rw [hpc] at hwait
          cases hwait
        · rw [hI.away (by rw [hpc]; nofun) hdd] at hwait
          cases hwait
      have hd' := hI'.deleter d
      rw [unregister_deleter] at hd'
      exact hI'.setDeleter (hd'.toRelease (by rw [hpc]; nofun))
  | _ => cases h

/-- The cancel loop starts with the open targets. -/
private theorem DeleterOk.toLoop {d : δ} {q : Deleter σ τ ρ} {xs : List σ} (h : DeleterOk E s d q) (hpc : q.pc ≠ .away)
    (hxs : ∀ y ∈ E.targets d, s.active y = false ∨ y ∈ xs) :
    DeleterOk E s d { q with pc := .cancel .readActive, todo := xs } where
  held _ := h.held hpc
  done := h.done
  waitRemote _ _ hpc' := nomatch hpc'
  waitLocal _ _ hpc' := nomatch hpc'
  cancelling _ y hy := (hxs y hy).imp_right .inr
  closing hpc' := nomatch hpc'
  purge := h.purge

/-- The cancel loop is over, and every target is closed or has been cancelled. -/
private theorem DeleterOk.toClosing {d : δ} {q q' : Deleter σ τ ρ} (h : DeleterOk E s d q) (hpc : q.pc ≠ .away)
    (hpc' : ∀ c, q'.pc ≠ .cancel c) (hdone : q'.done = q.done)
    (hcl : ∀ y ∈ E.targets d, s.active y = false ∨ y ∈ q.done) (hp : ∀ y ∈ q'.purge, y ∈ E.targets d) :
    DeleterOk E s d q' where
  held _ := h.held hpc
  done := hdone ▸ h.done
  waitRemote t _ hw := absurd hw (hpc' (.waitRemote t))
  waitLocal r _ hw := absurd hw (hpc' (.waitLocal r))
  cancelling hc := by
    cases hq : q'.pc with
    | cancel c => exact absurd hq (hpc' c)
    | _ =>
      rw [hq] at hc
      cases hc
  closing _ := hdone ▸ hcl
  purge := hp

/-- Every target that is still open has been cancelled. -/
private theorem DeleterOk.quiet {d : δ} {q : Deleter σ τ ρ} (hI : Inv E s) (h : DeleterOk E s d q)
    (hpc : q.pc.closing) {x : σ} (hx : x ∈ E.targets d) : s.Quiet E x := by
  rcases h.closing hpc x hx with ha | hd
  · exact hI.closed x (.inl ha)
  · exact h.done x hd

/-- Sessions without executing turns are closed, and some lose their checkpoints. -/
private theorem Inv.setClosed (hI : Inv E s) {active deleted : σ → Bool}
    (ha : ∀ x, s.active x = false → active x = false)
    (hq : ∀ x, active x = false ∨ deleted x → s.Quiet E x) :
    Inv E { s with active := active, deleted := deleted } :=
  ⟨hI.lock, hI.unique, hI.released, hI.record, hI.completed, hq, fun d =>
    (hI.deleter d).mono (fun _ => id) (fun _ => id) (fun _ _ _ _ _ _ => id) ha⟩

/-- The mutex changes hands while no other deletion is on its way. -/
private theorem Inv.setMutex (hI : Inv E s) {d : δ} {m : Option δ} {q : Deleter σ τ ρ}
    (hd : ∀ d', d' ≠ d → (s.deleter d').pc = .away) (hq : DeleterOk E { s with mutex := m } d q) :
    Inv E { s.setDeleter d q with mutex := m } := by
  refine ⟨hI.lock, hI.unique, hI.released, hI.record, hI.completed, hI.closed, fun d' => ?_⟩
  by_cases hdd : d' = d
  · subst hdd
    rw [show State.deleter { s.setDeleter d' q with mutex := m } d' = q from Function.update_self ..]
    exact hq.mono (fun _ => id) (fun _ => id) (fun _ _ _ _ _ _ => id) fun _ => id
  · rw [show State.deleter { s.setDeleter d q with mutex := m } d' = s.deleter d' from Function.update_of_ne hdd _ _]
    refine (hI.deleter d').mono (fun hpc => ?_) (fun _ => id) (fun _ _ _ _ _ _ => id) fun _ => id
    exact absurd (hd d' hdd) hpc

/-- The deletion of the episode closes all of its sessions. -/
private theorem Inv.closeAll {d : δ} (hI : Inv E s) (hpc : (s.deleter d).pc = .closeAll)
    (htgt : E.targets d = E.sessions) :
    Inv E { s.setDeleter d { s.deleter d with pc := .purge, purge := E.sessions } with
      active := fun x => s.active x && x ∉ E.sessions } := by
  have hd := hI.deleter d
  have hI' : Inv E { s with active := fun x => s.active x && x ∉ E.sessions, deleted := s.deleted } := by
    refine hI.setClosed (fun x ha => by simp [ha]) fun x hc => ?_
    by_cases hxs : x ∈ E.sessions
    · exact hd.quiet hI (by rw [hpc]; rfl) (htgt ▸ hxs)
    · exact hI.closed x (by simpa [hxs] using hc)
  have hd' := hI'.deleter d
  refine hI'.setDeleter (hd'.toClosing ?_ nofun rfl (fun y hy => ?_) fun y hy => ?_)
  · rw [show State.deleter _ d = s.deleter d from rfl, hpc]
    nofun
  · rw [htgt] at hy
    exact .inl (by simp [hy])
  · rwa [htgt]

/-- The deletion removes the checkpoints of one session. -/
private theorem Inv.purge {d : δ} {x : σ} {rest : List σ} (hI : Inv E s) (hpc : (s.deleter d).pc = .purge)
    (hp : (s.deleter d).purge = x :: rest) :
    Inv E { s.setDeleter d { s.deleter d with purge := rest } with deleted := Function.update s.deleted x true } := by
  have hd := hI.deleter d
  have hclosing : (s.deleter d).pc.closing := by rw [hpc]; rfl
  have hx : s.Quiet E x := hd.quiet hI hclosing (hd.purge x (by rw [hp]; exact List.mem_cons_self ..))
  have hI' : Inv E { s with active := s.active, deleted := Function.update s.deleted x true } := by
    refine hI.setClosed (fun _ => id) fun y hc => ?_
    by_cases hyx : y = x
    · subst hyx
      exact hx
    · exact hI.closed y (by simpa [hyx] using hc)
  refine hI'.setDeleter ((hI'.deleter d).toClosing ?_ (fun c => ?_) rfl (hd.closing hclosing) fun y hy => ?_)
  · rw [show State.deleter _ d = s.deleter d from rfl, hpc]
    nofun
  · rw [show Deleter.pc _ = (s.deleter d).pc from rfl, hpc]
    nofun
  · exact hd.purge y (by rw [hp]; exact List.mem_cons_of_mem x hy)

/-- The deletion of a session closes it last. -/
private theorem Inv.softClose {d : δ} {x : σ} (hI : Inv E s) (hpc : (s.deleter d).pc = .softClose)
    (hx : x ∈ E.targets d) :
    Inv E { s.setDeleter d { s.deleter d with pc := .release } with active := Function.update s.active x false } := by
  have hq : s.Quiet E x := (hI.deleter d).quiet hI (by rw [hpc]; rfl) hx
  have hI' : Inv E { s with active := Function.update s.active x false, deleted := s.deleted } := by
    refine hI.setClosed (fun y ha => ?_) fun y hc => ?_
    · by_cases hyx : y = x <;> simp [hyx, ha]
    · by_cases hyx : y = x
      · subst hyx
        exact hq
      · exact hI.closed y (by simpa [hyx] using hc)
  exact hI'.setDeleter ((hI'.deleter d).toRelease (by rw [show State.deleter _ d = s.deleter d from rfl, hpc]; nofun))

theorem inv_delete {d : δ} {e : DeleterStep} (hI : Inv E s) (hS : Safe E s (.delete d e))
    (h : deleterStep E s d e = some s') : Inv E s' := by
  have hd := hI.deleter d
  simp only [deleterStep] at h
  split at h
  -- `acquire`
  case h_1 hpc =>
    split at h
    case isFalse =>
      cases h
      exact hI
    case isTrue hm =>
      cases h
      refine hI.setMutex (fun d' _ => ?_) ⟨fun _ => rfl, hd.done, nofun, nofun, nofun, nofun, hd.purge⟩
      by_contra hne
      have hheld := (hI.deleter d').held hne
      rw [hm] at hheld
      cases hheld
  -- `start`
  case h_2 hpc =>
    have hne : (s.deleter d).pc ≠ .away := by rw [hpc]; nofun
    split at h
    case h_1 x hx =>
      split at h
      case isTrue ha =>
        cases h
        refine hI.setDeleter (hd.toLoop hne fun y hy => ?_)
        rw [Episode.targets, hx] at hy
        exact .inr hy
      case isFalse =>
        cases h
        exact hI.setDeleter (hd.toRelease hne)
    case h_2 hx =>
      cases h
      refine hI.setDeleter (hd.toLoop hne fun y hy => ?_)
      rw [Episode.targets, hx] at hy
      cases ha : s.active y with
      | false => exact .inl rfl
      | true => exact .inr (List.mem_filter.2 ⟨hy, ha⟩)
  -- `cancelled`
  case h_3 hpc =>
    have hne : (s.deleter d).pc ≠ .away := by rw [hpc]; nofun
    have hall : (s.deleter d).todo = [] → ∀ y ∈ E.targets d, s.active y = false ∨ y ∈ (s.deleter d).done := by
      intro ht y hy
      have hy' := hd.cancelling (by rw [hpc]; rfl) y hy
      rw [ht] at hy'
      simpa using hy'
    split at h
    case h_1 x ht hx =>
      cases h
      refine hI.setDeleter (hd.toClosing hne nofun rfl (hall ht) fun y hy => ?_)
      rwa [Episode.targets, hx]
    case h_2 ht hx =>
      cases h
      exact hI.setDeleter (hd.toClosing hne nofun rfl (hall ht) hd.purge)
    case h_3 => cases h
  -- `closeAll`
  case h_4 hpc =>
    split at h
    case h_2 => cases h
    case h_1 hx =>
      cases h
      exact hI.closeAll hpc (by rw [Episode.targets, hx])
  -- `purge`
  case h_5 hpc =>
    have hne : (s.deleter d).pc ≠ .away := by rw [hpc]; nofun
    split at h
    case h_1 x rest hp =>
      cases h
      exact hI.purge hpc hp
    case h_2 =>
      cases h
      exact hI.setDeleter (hd.toClosing hne nofun rfl (hd.closing (by rw [hpc]; rfl)) hd.purge)
    case h_3 =>
      cases h
      exact hI.setDeleter (hd.toRelease hne)
  -- `softClose`
  case h_6 hpc =>
    split at h
    case h_2 => cases h
    case h_1 x hx =>
      cases h
      exact hI.softClose hpc (by rw [Episode.targets, hx]; exact List.mem_cons_self ..)
  -- `release`
  case h_7 hpc =>
    cases h
    have hne : (s.deleter d).pc ≠ .away := by rw [hpc]; nofun
    exact hI.setMutex (fun d' hdd => hI.away hne hdd) ⟨nofun, nofun, nofun, nofun, nofun, nofun, nofun⟩
  -- `raised`
  case h_8 | h_9 => cases h
  case h_10 hne hne' =>
    cases h
    exact hI.setDeleter (hd.toRelease fun hpc => hne hpc)
  -- the cancel loop
  case h_11 c _ _ hpc =>
    split at h
    case h_1 x rest ht => exact inv_cancel hI hS hpc ht h
    case h_2 => cases h
  case h_12 => cases h

theorem inv_step {a : Action ρ δ} (hI : Inv E s) (hS : Safe E s a) (h : step E s a = some s') : Inv E s' := by
  cases a with
  | request r e => exact inv_request hI hS h
  | delete d e => exact inv_delete hI hS h

theorem inv_reach (h : (episode E).Reach (Safe E) s) : Inv E s := by
  refine h.induct ?_ fun _ _ _ hI hS ht => inv_step hI hS ht
  rintro _ ⟨active, rfl⟩
  have hquiet : ∀ x, (fresh active : State σ τ π ρ δ).Quiet E x := fun x r hr => by
    rcases hr with hr | hr <;> cases hr
  refine ⟨?_, ?_, ?_, nofun, nofun, fun x _ => hquiet x, fun d => ⟨?_, nofun, nofun, nofun, nofun, nofun, nofun⟩⟩
  · rintro r (hr | hr) <;> cases hr
  · rintro r r' (hr | hr) <;> cases hr
  · rintro r r' (hr | hr) <;> cases hr
  · exact fun hne => absurd rfl hne

/-! ### The condition is enough -/

end Delete

section Runs

local instance neZero_two : NeZero 2 := ⟨Nat.succ_ne_zero 1⟩

/-- One worker with two requests and one deletion of the session `0`. -/
def oneSession : Episode Nat String Unit (Fin 2) (Fin 1) where
  session _ := 0
  turn r := if r = 0 then "turn:0" else "turn:1"
  worker _ := ()
  deleterWorker _ := ()
  target _ := .session 0
  sessions := [0]

end Runs

end NexusStudio.SessionTurns
