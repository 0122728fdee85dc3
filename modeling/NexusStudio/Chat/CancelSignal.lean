import NexusStudio.Chat.TurnLock
import Mathlib.Data.Fintype.Basic

/-!
# The cancel signal until the worker has seen it

`abort_user_turn` stores the turn's id in the cancel signal for the turn's worker to poll, and clears it before it
returns.

* (condition) `SignalSafe`: a command that removes a turn's id from the signal comes when the turn is over, or its
  cancel event is set, or no cancel request for it is under way or answered.
* (result) Under the condition an answered request for a turn that still executes without its cancel event has its
  signal in place.
* (exactness) After a single step outside the condition a request for such a turn can be answered.
-/

set_option linter.unusedSectionVars false

namespace NexusStudio.TurnLock

open Concurrent

section Signal

variable {τ ρ : Type*} [DecidableEq τ] [DecidableEq ρ] {s s' : State τ ρ}

/-- The request has stored the signal and has not failed. -/
def AbortPc.signalled : AbortPc → Bool
  | .resolveGate | .cleanup _ | .persistClose | .returned => true
  | _ => false

/-- A cancel request for the turn `t` has stored the signal and is under way or answered. -/
def State.Signalled (s : State τ ρ) (r : ρ) (t : τ) : Prop :=
  (s.abort r).pc.signalled ∧ (s.abort r).turn = some t

/-- The worker of `t` still executes and its cancel event is not set. -/
def State.Unaware (s : State τ ρ) (t : τ) : Prop :=
  s.Executing t ∧ (s.exec t).cancelEvent = false

/-- No request is dropped: when `abort_user_turn` has returned for a turn whose worker is unaware of it, the signal
names the turn. -/
def NotDropped (s : State τ ρ) : Prop :=
  ∀ r t, (s.abort r).pc = .returned → (s.abort r).turn = some t → s.Unaware t → s.keys.signal = some t

/-- What the step writes to the cancel signal, `none` when it leaves the signal alone. -/
def Action.signalWrite (s : State τ ρ) : Action τ ρ → Option (Option τ)
  | .exec t .finalize => if (s.exec t).stream = .finalize .signalDel then some none else none
  | .exec t .signalDel => if (s.exec t).outer = .signalDel then some none else none
  | .abort r .cleanup => if (s.abort r).pc = .cleanup .signalDel then some none else none
  | .abort r .signal => if (s.abort r).pc = .signal then (s.abort r).turn.map some else none
  | _ => none

/-- A command that replaces the turn `u` in the signal comes when the worker of `u` is not unaware, or when no
request for `u` is under way or answered. -/
def SignalSafe (s : State τ ρ) (a : Action τ ρ) : Prop :=
  ∀ v ∈ a.signalWrite s, ∀ u ∈ s.keys.signal, v = some u ∨ ¬ s.Unaware u ∨ ∀ r, ¬ s.Signalled r u

instance (s : State τ ρ) (r : ρ) (t : τ) : Decidable (s.Signalled r t) :=
  inferInstanceAs (Decidable (_ ∧ _))

instance (s : State τ ρ) (t : τ) : Decidable (s.Unaware t) :=
  inferInstanceAs (Decidable (_ ∧ _))

instance [Fintype ρ] (s : State τ ρ) (a : Action τ ρ) : Decidable (SignalSafe s a) :=
  inferInstanceAs (Decidable (∀ v ∈ a.signalWrite s, ∀ u ∈ s.keys.signal, _ ∨ _ ∨ _))

/-! ### Turns that have not been started -/

/-- A turn that has not been started has no execution, and nothing names it. -/
structure Known (s : State τ ρ) : Prop where
  absent : ∀ t, t ∉ s.used → s.exec t = .absent
  names : ∀ u, s.keys.Names u → u ∈ s.used
  row : ∀ r u, (s.abort r).row = some u → u ∈ s.used
  explicit : ∀ r u, (s.abort r).pc = .resolve → (s.abort r).explicit = some u → u ∈ s.used
  turn : ∀ r u, (s.abort r).turn = some u → u ∈ s.used

/-- Where a request takes the turns from that it names. -/
private theorem abortStep_ids {k k' : Keys τ} {q q' : Abort τ} {f : AbortStep τ}
    (h : abortStep k q f = some (k', q')) (u : τ) :
    (q'.turn = some u → q.turn = some u ∨ k.Names u ∨ q.row = some u ∨ (q.pc = .resolve ∧ q.explicit = some u)) ∧
    (q'.row = some u → q.row = some u ∨ k.Names u) ∧ (q'.pc = .resolve → q'.explicit = some u → k.Names u) := by
  cases f with
  | cleanup =>
    simp only [abortStep] at h
    split at h
    case h_1 c hc =>
      cases h
      refine ⟨.inl, .inl, fun hpc => ?_⟩
      cases hn : (clearTurnEphemeralState q.turn k c).2 <;> simp [hn] at hpc
    case h_2 => cases h
  | _ =>
    simp only [abortStep] at h
    split at h <;> grind [Keys.Names]

theorem known_step {a : Action τ ρ} (hK : Known s) (h : step s a = some s') : Known s' := by
  cases a with
  | start t =>
    simp only [step] at h
    split at h
    · cases h
    · split at h
      case isTrue hl =>
        cases h
        refine ⟨fun u hu => ?_, fun u hu => ?_, ?_, ?_, ?_⟩
        · rw [Finset.mem_insert, not_or] at hu
          simpa [hu.1] using hK.absent u hu.2
        · rcases hu with hu | hu
          · exact Finset.mem_insert.2 (.inl (Option.some.inj hu).symm)
          · exact Finset.mem_insert_of_mem (hK.names u (.inr hu))
        · exact fun r u hu => Finset.mem_insert_of_mem (hK.row r u hu)
        · exact fun r u hpc hu => Finset.mem_insert_of_mem (hK.explicit r u hpc hu)
        · exact fun r u hu => Finset.mem_insert_of_mem (hK.turn r u hu)
      case isFalse =>
        cases h
        exact hK
  | exec t e =>
    obtain ⟨⟨k, x⟩, hx, rfl⟩ := Option.map_eq_some_iff.1 h
    have ht : t ∈ s.used := by
      by_contra hn
      rw [hK.absent t hn, execStep_absent] at hx
      cases hx
    refine ⟨fun u hu => ?_, fun u hu => ?_, hK.row, hK.explicit, hK.turn⟩
    · have hut : u ≠ t := fun he => hu (he ▸ ht)
      simpa [hut] using hK.absent u hu
    · rcases execStep_names hx hu with hk | rfl
      · exact hK.names u hk
      · exact ht
  | abort r f =>
    obtain ⟨⟨k, q⟩, hq, rfl⟩ := Option.map_eq_some_iff.1 h
    refine ⟨hK.absent, fun u hu => hK.names u (abortStep_names hq hu), ?_, ?_, ?_⟩
    · intro r' u hu
      by_cases hr : r' = r
      · subst hr
        rcases (abortStep_ids hq u).2.1 (by simpa using hu) with h' | h'
        · exact hK.row r' u h'
        · exact hK.names u h'
      · exact hK.row r' u (by simpa [hr] using hu)
    · intro r' u hpc hu
      by_cases hr : r' = r
      · subst hr
        exact hK.names u ((abortStep_ids hq u).2.2 (by simpa using hpc) (by simpa using hu))
      · exact hK.explicit r' u (by simpa [hr] using hpc) (by simpa [hr] using hu)
    · intro r' u hu
      by_cases hr : r' = r
      · subst hr
        rcases (abortStep_ids hq u).1 (by simpa using hu) with h' | h' | h' | ⟨hpc, h'⟩
        · exact hK.turn r' u h'
        · exact hK.names u h'
        · exact hK.row r' u h'
        · exact hK.explicit r' u hpc h'
      · exact hK.turn r' u (by simpa [hr] using hu)
  | dropGate =>
    cases h
    refine ⟨hK.absent, fun u hu => hK.names u ?_, hK.row, hK.explicit, hK.turn⟩
    rcases hu with hu | hu | hu
    · exact .inl hu
    · exact .inr (.inl hu)
    · cases hu

/-! ### One step -/

private theorem abortStep_signal {k k' : Keys τ} {q q' : Abort τ} {f : AbortStep τ} {r : ρ}
    (hq : s.abort r = q) (h : abortStep k q f = some (k', q')) :
    k'.signal = ((Action.abort r f).signalWrite s).getD k.signal := by
  subst hq
  cases f with
  | cleanup =>
    simp only [abortStep] at h
    split at h
    case h_1 c hc =>
      cases h
      by_cases hd : c = .signalDel <;> simp [Action.signalWrite, hc, hd]
    case h_2 => cases h
  | signal =>
    simp only [abortStep, Option.ite_none_right_eq_some] at h
    obtain ⟨hpc, h⟩ := h
    split at h
    case h_1 t ht =>
      cases h
      simp [Action.signalWrite, hpc, ht]
    case h_2 ht =>
      cases h
      simp [Action.signalWrite, hpc, ht]
  | _ =>
    simp only [abortStep] at h
    split at h <;> grind [Action.signalWrite]

/-- A step leaves the signal alone or writes to it. -/
theorem step_signal {a : Action τ ρ} (h : step s a = some s') :
    s'.keys.signal = (a.signalWrite s).getD s.keys.signal := by
  cases a with
  | start t =>
    simp only [step] at h
    split at h
    · cases h
    · split at h <;> cases h <;> rfl
  | exec t e =>
    obtain ⟨⟨k, x⟩, hx, rfl⟩ := Option.map_eq_some_iff.1 h
    show k.signal = _
    rw [execStep_signal hx]
    cases e with
    | finalize | signalDel => simp only [Action.signalWrite]; split <;> simp_all
    | _ => rfl
  | abort r f =>
    obtain ⟨⟨k, q⟩, hq, rfl⟩ := Option.map_eq_some_iff.1 h
    exact abortStep_signal rfl hq
  | dropGate =>
    cases h
    rfl

/-- A step does not make a worker unaware, unless it starts the turn. -/
theorem step_unaware {a : Action τ ρ} (h : step s a = some s') {u : τ} (hu : s'.Unaware u) :
    s.Unaware u ∨ (a = .start u ∧ u ∉ s.used) := by
  cases a with
  | start t =>
    simp only [step] at h
    split at h
    case isTrue => cases h
    case isFalse ht =>
      split at h
      case isTrue =>
        cases h
        by_cases hut : u = t
        · subst hut
          exact .inr ⟨rfl, ht⟩
        · exact .inl (by simpa [State.Unaware, State.Executing, hut] using hu)
      case isFalse =>
        cases h
        exact .inl hu
  | exec t e =>
    obtain ⟨⟨k, x⟩, hx, rfl⟩ := Option.map_eq_some_iff.1 h
    refine .inl ?_
    by_cases hut : u = t
    · subst hut
      have hu' : x.holding = true ∧ x.cancelEvent = false := by
        simpa [State.Unaware, State.Executing] using hu
      refine ⟨execStep_holding hx hu'.1, ?_⟩
      by_contra he
      have := execStep_cancelEvent hx (by simpa using he)
      rw [hu'.2] at this
      cases this
    · simpa [State.Unaware, State.Executing, hut] using hu
  | abort r f =>
    obtain ⟨⟨k, q⟩, -, rfl⟩ := Option.map_eq_some_iff.1 h
    exact .inl hu
  | dropGate =>
    cases h
    exact .inl hu

/-- A request comes to have stored the signal by storing it. -/
theorem step_signalled {a : Action τ ρ} (h : step s a = some s') {r : ρ} {u : τ} (hu : s'.Signalled r u) :
    s.Signalled r u ∨ a.signalWrite s = some (some u) := by
  cases a with
  | start t =>
    simp only [step] at h
    split at h
    · cases h
    · split at h <;> cases h <;> exact .inl hu
  | exec t e =>
    obtain ⟨⟨k, x⟩, -, rfl⟩ := Option.map_eq_some_iff.1 h
    exact .inl hu
  | abort r' f =>
    obtain ⟨⟨k, q⟩, hq, rfl⟩ := Option.map_eq_some_iff.1 h
    by_cases hr : r = r'
    · subst hr
      have hu' : q.pc.signalled = true ∧ q.turn = some u := by simpa [State.Signalled] using hu
      simp only [State.Signalled]
      cases f with
      | cleanup =>
        simp only [abortStep] at hq
        split at hq
        case h_1 c hc =>
          cases hq
          exact .inl ⟨by rw [hc]; rfl, hu'.2⟩
        case h_2 => cases hq
      | _ =>
        simp only [abortStep] at hq
        split at hq <;> grind [Action.signalWrite, AbortPc.signalled]
    · exact .inl (by simpa [State.Signalled, hr] using hu)
  | dropGate =>
    cases h
    exact .inl hu

/-! ### The condition is enough -/

/-- A request that has stored the signal for an unaware worker finds its signal in place. -/
def InPlace (s : State τ ρ) : Prop :=
  ∀ r t, s.Signalled r t → s.Unaware t → s.keys.signal = some t

theorem inPlace_step {a : Action τ ρ} (hK : Known s) (hI : InPlace s) (hC : SignalSafe s a)
    (h : step s a = some s') : InPlace s' := by
  intro r t hr ht
  have hsig := step_signal h
  rcases step_signalled h hr with hr' | hw
  · rcases step_unaware h ht with ht' | ⟨-, hfresh⟩
    · cases hw : a.signalWrite s with
      | none => rw [hsig, hw]; exact hI r t hr' ht'
      | some v =>
        rcases hC v hw t (hI r t hr' ht') with hv | hv | hv
        · rw [hsig, hw]; exact hv
        · exact absurd ht' hv
        · exact absurd hr' (hv r)
    · exact absurd (hK.turn r t hr'.2) hfresh
  · rw [hsig, hw]
    rfl

private theorem fresh_known : Known (fresh : State τ ρ) where
  absent _ _ := rfl
  names _ h := by rcases h with h | h | h <;> cases h
  row _ _ h := nomatch h
  explicit _ _ h := nomatch h
  turn _ _ h := nomatch h

theorem inPlace_reach (h : (conversation (τ := τ) (ρ := ρ)).Reach SignalSafe s) : Known s ∧ InPlace s := by
  refine h.induct (P := fun s => Known s ∧ InPlace s) ?_ fun _ _ _ hI hC ht =>
    ⟨known_step hI.1 ht, inPlace_step hI.1 hI.2 hC ht⟩
  rintro _ rfl
  exact ⟨fresh_known, fun _ _ h => nomatch h.2⟩

/-- In every run in which no command takes the signal away from an unaware worker, an answered cancel request for an
unaware worker has its signal in place. -/
theorem notDropped_of_signalSafe (h : (conversation (τ := τ) (ρ := ρ)).Reach SignalSafe s) : NotDropped s :=
  fun r t hpc ht hu => (inPlace_reach h).2 r t ⟨by rw [hpc]; rfl, ht⟩ hu

/-- The request for turn `1` is answered without having cleared the signal, as the store has failed there. -/
theorem notDropped_unpolled :
    ∃ s : State Nat (Fin 1), conversation.Reach SignalSafe s ∧ s.Unaware 1 ∧ (s.abort 0).pc = .returned ∧
      NotDropped s := by
  obtain ⟨s, -, hr, hp⟩ := Machine.reach_of_exec (M := conversation) (C := SignalSafe (τ := Nat) (ρ := Fin 1))
    (s := fresh) (p := fun s => decide (s.Unaware 1 ∧ (s.abort 0).pc = .returned))
    [.start 1, .exec 1 .setRunning, .exec 1 .markTurnActive, .abort 0 (.load none), .abort 0 .checkGate,
      .abort 0 .resolve, .abort 0 .signal, .abort 0 .resolveGate, .abort 0 .cleanup, .abort 0 .cleanup,
      .abort 0 .cleanup, .abort 0 (.raised false), .abort 0 .cleanup, .abort 0 .persistClose] rfl (by decide)
  obtain ⟨hu, hpc⟩ := of_decide_eq_true hp
  exact ⟨s, hr, hu, hpc, notDropped_of_signalSafe hr⟩

/-! ### The condition is exact -/

/-- How many steps a request has before it is answered. -/
def AbortPc.remaining : AbortPc → Nat
  | .resolveGate => 8
  | .cleanup .clearGatePending => 7
  | .cleanup .forceGet => 6
  | .cleanup .forceDel => 5
  | .cleanup .signalGet => 4
  | .cleanup .signalDel => 3
  | .cleanup .clearTurnActive => 2
  | .persistClose => 1
  | _ => 0

/-- A request that has stored the signal has a next step of its own, which starts no execution and stores no signal. -/
private theorem abortStep_advance {k : Keys τ} {q : Abort τ} (hpc : q.pc.signalled) (hne : q.pc ≠ .returned) :
    ∃ f k' q', abortStep k q f = some (k', q') ∧ q'.turn = q.turn ∧ q'.pc.signalled ∧
      q'.pc.remaining < q.pc.remaining ∧ (k'.signal = k.signal ∨ k'.signal = none) := by
  cases h : q.pc with
  | resolveGate =>
    exact ⟨.resolveGate, k, { q with pc := .cleanup .clearGatePending }, by simp [abortStep, h], rfl, rfl,
      Nat.lt_succ_self 7, .inl rfl⟩
  | persistClose =>
    exact ⟨.persistClose, k, { q with pc := .returned }, by simp [abortStep, h], rfl, rfl, Nat.lt_succ_self 0,
      .inl rfl⟩
  | cleanup c =>
    let next := (clearTurnEphemeralState q.turn k c).2
    refine ⟨.cleanup, (clearTurnEphemeralState q.turn k c).1,
      { q with pc := (next.map AbortPc.cleanup).getD .persistClose }, by rw [abortStep, h], rfl, ?_, ?_, ?_⟩
    · cases next <;> rfl
    · cases c with
      | forceGet =>
        by_cases hl : k.lock = none <;> simp [next, clearTurnEphemeralState, hl, AbortPc.remaining]
      | signalGet =>
        by_cases hs : q.turn ≠ none ∧ k.signal = q.turn <;>
          simp [next, clearTurnEphemeralState, hs, AbortPc.remaining]
      | _ => exact Nat.lt_succ_self _
    · rw [clearTurnEphemeralState_signal]
      split
      · exact .inr rfl
      · exact .inl rfl
  | _ => simp_all [AbortPc.signalled]

/-- A request for an unaware worker whose signal is not in place can be answered. -/
private theorem finish (n : Nat) {r : ρ} {u : τ} (hr : s.Signalled r u) (hu : s.Unaware u)
    (hsig : s.keys.signal ≠ some u) (hn : (s.abort r).pc.remaining ≤ n) :
    ∃ t, (conversation (τ := τ) (ρ := ρ)).Run Free s t ∧ ¬ NotDropped t := by
  induction n generalizing s with
  | zero =>
    refine ⟨s, .refl, fun hN => hsig (hN r u ?_ hr.2 hu)⟩
    by_contra hne
    obtain ⟨f, k, q, -, -, -, hlt, -⟩ := abortStep_advance (k := s.keys) hr.1 hne
    omega
  | succ n ih =>
    by_cases hret : (s.abort r).pc = .returned
    · exact ⟨s, .refl, fun hN => hsig (hN r u hret hr.2 hu)⟩
    · obtain ⟨f, k, q, hq, hturn, hpc, hlt, hks⟩ := abortStep_advance (k := s.keys) hr.1 hret
      let t : State τ ρ := { s with keys := k, abort := Function.update s.abort r q }
      have hself : t.abort r = q := Function.update_self ..
      have ht : (conversation (τ := τ) (ρ := ρ)).step s (.abort r f) = some t :=
        Option.map_eq_some_iff.2 ⟨(k, q), hq, rfl⟩
      have hsig' : t.keys.signal ≠ some u := by
        rcases hks with he | he
        · rw [show t.keys.signal = s.keys.signal from he]; exact hsig
        · rw [show t.keys.signal = none from he]; nofun
      obtain ⟨t', hrun, hN⟩ := ih (s := t) ⟨by rw [hself]; exact hpc, by rw [hself, hturn]; exact hr.2⟩ hu hsig'
        (by rw [hself]; omega)
      exact ⟨t', .head ⟨_, trivial, ht⟩ hrun, hN⟩

/-- A write to the signal leaves the executions aware or unaware as they are, and the requests under way. -/
private theorem signalWrite_keeps {a : Action τ ρ} {v : Option τ} (hw : a.signalWrite s = some v)
    (h : step s a = some s') :
    (∀ u, s.Unaware u → s'.Unaware u) ∧ ∀ r u, s.Signalled r u → s'.Signalled r u := by
  have hexec : ∀ t x, (x.holding = (s.exec t).holding ∧ x.cancelEvent = (s.exec t).cancelEvent) →
      ∀ u, s.Unaware u → (Function.update s.exec t x u).holding = true ∧
        (Function.update s.exec t x u).cancelEvent = false := by
    rintro t x ⟨hh, hc⟩ u hu
    by_cases hut : u = t
    · subst hut
      rw [Function.update_self, hh, hc]
      exact hu
    · rw [Function.update_of_ne hut]
      exact hu
  have habort : ∀ r' q, ((s.abort r').pc.signalled → q.pc.signalled) ∧ q.turn = (s.abort r').turn →
      ∀ r u, s.Signalled r u → (Function.update s.abort r' q r).pc.signalled ∧
        (Function.update s.abort r' q r).turn = some u := by
    rintro r' q ⟨hp, ht⟩ r u hr
    by_cases hrr : r = r'
    · subst hrr
      rw [Function.update_self, ht]
      exact ⟨hp hr.1, hr.2⟩
    · rw [Function.update_of_ne hrr]
      exact hr
  unfold Action.signalWrite at hw
  split at hw
  case h_1 t =>
    obtain ⟨⟨k, x⟩, hx, rfl⟩ := Option.map_eq_some_iff.1 h
    obtain ⟨hpc, -⟩ := Option.ite_none_right_eq_some.1 hw
    rw [execStep, hpc] at hx
    cases hx
    exact ⟨hexec t _ ⟨by simp, rfl⟩, fun _ _ => id⟩
  case h_2 t =>
    obtain ⟨⟨k, x⟩, hx, rfl⟩ := Option.map_eq_some_iff.1 h
    obtain ⟨-, hx⟩ := Option.ite_none_right_eq_some.1 hx
    cases hx
    exact ⟨hexec t _ ⟨rfl, rfl⟩, fun _ _ => id⟩
  case h_3 r =>
    obtain ⟨⟨k, q⟩, hq, rfl⟩ := Option.map_eq_some_iff.1 h
    obtain ⟨hpc, -⟩ := Option.ite_none_right_eq_some.1 hw
    rw [abortStep, hpc] at hq
    cases hq
    exact ⟨fun _ => id, habort r _ ⟨fun _ => rfl, rfl⟩⟩
  case h_4 r =>
    obtain ⟨⟨k, q⟩, hq, rfl⟩ := Option.map_eq_some_iff.1 h
    obtain ⟨hpc, hq⟩ := Option.ite_none_right_eq_some.1 hq
    refine ⟨fun _ => id, habort r q ⟨fun hp => ?_, ?_⟩⟩
    · rw [hpc] at hp
      cases hp
    · split at hq <;> cases hq <;> rfl
  case h_5 => cases hw

/-- After a step outside the condition a cancel request for an unaware worker can be answered without its signal in
place. -/
theorem dropped_of_not_signalSafe {a : Action τ ρ} (hC : ¬ SignalSafe s a) (h : step s a = some s') :
    ∃ t, (conversation (τ := τ) (ρ := ρ)).Run Free s' t ∧ ¬ NotDropped t := by
  simp only [SignalSafe, not_forall, not_or, not_not] at hC
  obtain ⟨v, hw, u, hu, hv, hun, r, hr⟩ := hC
  obtain ⟨hkeep, hreq⟩ := signalWrite_keeps hw h
  refine finish _ (hreq r u hr) (hkeep u hun) ?_ le_rfl
  rw [step_signal h, hw]
  exact hv

end Signal

/-! ### A run that drops a request -/

/-- A user cancels the running turn `1` and the request is answered before a watcher of the turn has polled. -/
def cancelUnpolled : List (Action Nat Nat) :=
  [.start 1, .exec 1 .setRunning, .exec 1 .markTurnActive, .abort 0 (.load none), .abort 0 .checkGate,
    .abort 0 .resolve, .abort 0 .signal, .abort 0 .resolveGate, .abort 0 .cleanup, .abort 0 .cleanup,
    .abort 0 .cleanup, .abort 0 .cleanup, .abort 0 .cleanup, .abort 0 .cleanup, .abort 0 .persistClose]

theorem dropped : ¬ ∀ s : State Nat Nat, conversation.Reach Free s → NotDropped s := by
  intro hall
  obtain ⟨s, -, hr, hp⟩ := Machine.reach_of_exec (M := conversation) (C := Free) (s := fresh)
    (p := fun s => decide ((s.abort 0).pc = .returned ∧ (s.abort 0).turn = some 1 ∧
      (s.Executing 1 ∧ (s.exec 1).cancelEvent = false) ∧ s.keys.signal = none)) cancelUnpolled rfl (by decide)
  obtain ⟨hpc, ht, hu, hs⟩ := of_decide_eq_true hp
  have := hall s hr 0 1 hpc ht hu
  rw [hs] at this
  cases this

end NexusStudio.TurnLock
