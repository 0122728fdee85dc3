import NexusStudio.Lib.Exclusion
import Mathlib.Data.Finset.Insert
import Mathlib.Data.Finset.Erase
import Mathlib.Logic.Function.Basic

/-!
# The episode fence

`CanvasEpisodeFence` on one episode: the exclusive mutex of a deletion and the set of generations in flight.

* A generation reads the mutex, registers, and reads the mutex again (`enter_generation`).
* A deleter takes the mutex, then polls the registrations until there are none (`wait_generations_idle`).
* Every command on the store is one step, and the steps of all parties interleave freely.

A generation is its owner token, so that distinct generations have distinct tokens.
-/

set_option linter.unusedSectionVars false

namespace NexusStudio.EpisodeFence

open Concurrent

/-- Where a generation is in `generation`: the calls of `enter_generation`, the critical section, `srem`. -/
inductive GenPhase
  | outside
  | checked
  | added
  | registered
  | inside
  | leaving
  deriving DecidableEq, Repr

/-- Where a deleter is: it has no mutex, it holds the mutex, or its `wait_generations_idle` has returned too. -/
inductive DeleterPhase
  | away
  | holding
  | idle
  deriving DecidableEq, Repr

/-- The two keys of the episode and the phase of every party. -/
structure State (γ δ ω : Type*) where
  mutex : Option ω
  inflight : Finset γ
  gen : γ → GenPhase
  deleter : δ → DeleterPhase

inductive Action (γ δ : Type*)
  -- the first `assert_writable` of `enter_generation`
  | assertWritable (g : γ)
  | sadd (g : γ)
  | expire (g : γ)
  -- the second `assert_writable` of `enter_generation`
  | recheck (g : γ)
  -- the body of the critical section is over
  | finish (g : γ)
  | srem (g : γ)
  -- the generation is cancelled, or a command fails, without `srem`
  | abandon (g : γ)
  | acquireExclusive (d : δ)
  -- one `smembers` of `wait_generations_idle`
  | poll (d : δ)
  | releaseExclusive (d : δ)

section Model

variable {γ δ ω : Type*} [DecidableEq γ] [DecidableEq δ] [DecidableEq ω]

namespace State

/-- The phase of the generation `g` becomes `p`. -/
def setGen (s : State γ δ ω) (g : γ) (p : GenPhase) : State γ δ ω :=
  { s with gen := Function.update s.gen g p }

/-- The phase of the deleter `d` becomes `p`. -/
def setDeleter (s : State γ δ ω) (d : δ) (p : DeleterPhase) : State γ δ ω :=
  { s with deleter := Function.update s.deleter d p }

end State

/-- One step of one party, `none` when the party is elsewhere in its code. -/
def step (owner : δ → ω) (s : State γ δ ω) : Action γ δ → Option (State γ δ ω)
  | .assertWritable g =>
    if s.gen g = .outside then some (s.setGen g (if s.mutex = none then .checked else .outside)) else none
  | .sadd g =>
    if s.gen g = .checked then some { s.setGen g .added with inflight := insert g s.inflight } else none
  | .expire g => if s.gen g = .added then some (s.setGen g .registered) else none
  | .recheck g =>
    if s.gen g = .registered then some (s.setGen g (if s.mutex = none then .inside else .leaving)) else none
  | .finish g => if s.gen g = .inside then some (s.setGen g .leaving) else none
  | .srem g =>
    if s.gen g = .leaving then some { s.setGen g .outside with inflight := s.inflight.erase g } else none
  | .abandon g => some (s.setGen g .outside)
  | .acquireExclusive d =>
    if s.deleter d = .away then
      -- `SET NX`: a taken mutex makes `acquire_exclusive` raise
      some (if s.mutex = none then { s.setDeleter d .holding with mutex := some (owner d) } else s)
    else none
  | .poll d =>
    if s.deleter d = .holding then some (if s.inflight = ∅ then s.setDeleter d .idle else s) else none
  | .releaseExclusive d =>
    if s.deleter d ≠ .away then some { s.setDeleter d .away with mutex := releaseIf s.mutex (owner d) } else none

/-- Nobody holds the mutex and no generation is registered. -/
def start : State γ δ ω where
  mutex := none
  inflight := ∅
  gen _ := .outside
  deleter _ := .away

/-- The fence of one episode, for deleters with the given owner strings. -/
def fence (owner : δ → ω) : Machine (State γ δ ω) (Action γ δ) where
  init s := s = start
  step := step owner

/-! ### Invariants -/

/-- A generation between its `sadd` and its `srem`. -/
def GenPhase.live : GenPhase → Prop
  | .added | .registered | .inside | .leaving => True
  | .outside | .checked => False

/-- What holds in every reachable state of the fence. -/
structure Inv (owner : δ → ω) (s : State γ δ ω) : Prop where
  live_mem : ∀ g, (s.gen g).live → g ∈ s.inflight
  held : ∀ d, s.deleter d ≠ .away → s.mutex = some (owner d)
  unique : ∀ d e, s.deleter d ≠ .away → s.deleter e ≠ .away → d = e
  idle_empty : ∀ d, s.deleter d = .idle → ∀ g, s.gen g ≠ .inside

variable {owner : δ → ω} {s t : State γ δ ω}

private theorem start_inv : Inv owner (start : State γ δ ω) where
  live_mem _ h := h.elim
  held _ h := absurd rfl h
  unique _ _ h := absurd rfl h
  idle_empty _ h := nomatch h

/-- What a generation's step from `s` to phase `p` does to the registrations: only its own may change, a live
generation is registered, and the critical section is entered without the mutex. -/
structure GenMove (s : State γ δ ω) (g : γ) (p : GenPhase) (F : Finset γ) : Prop where
  others : ∀ g' ∈ s.inflight, g' ≠ g → g' ∈ F
  live : p.live → g ∈ F ∨ (s.gen g).live ∧ F = s.inflight
  entry : p = .inside → s.mutex = none

/-- A step that leaves the registrations alone. -/
private theorem GenMove.keep {g : γ} {p : GenPhase} (hl : p.live → (s.gen g).live) (hi : p = .inside → s.mutex = none) :
    GenMove s g p s.inflight :=
  ⟨fun _ h _ => h, fun h => .inr ⟨hl h, rfl⟩, hi⟩

/-- All that a step can do. -/
private theorem step_cases {a : Action γ δ} (h : step owner s a = some t) :
    (∃ g p F, GenMove s g p F ∧ t = { s.setGen g p with inflight := F }) ∨ t = s ∨
    (∃ d, s.mutex = none ∧ t = { s.setDeleter d .holding with mutex := some (owner d) }) ∨
    (∃ d, s.deleter d = .holding ∧ s.inflight = ∅ ∧ t = s.setDeleter d .idle) ∨
    ∃ d, s.deleter d ≠ .away ∧ t = { s.setDeleter d .away with mutex := releaseIf s.mutex (owner d) } := by
  cases a with
  | assertWritable g =>
    simp only [step, Option.ite_none_right_eq_some, Option.some.injEq] at h
    obtain ⟨-, rfl⟩ := h
    refine .inl ⟨g, _, s.inflight, .keep ?_ ?_, rfl⟩ <;> split <;> first | exact False.elim | nofun
  | sadd g =>
    simp only [step, Option.ite_none_right_eq_some, Option.some.injEq] at h
    obtain ⟨-, rfl⟩ := h
    exact .inl ⟨g, .added, _, ⟨fun _ h _ => Finset.mem_insert_of_mem h,
      fun _ => .inl (Finset.mem_insert_self g s.inflight), nofun⟩, rfl⟩
  | expire g =>
    simp only [step, Option.ite_none_right_eq_some, Option.some.injEq] at h
    obtain ⟨hg, rfl⟩ := h
    exact .inl ⟨g, .registered, s.inflight, .keep (fun _ => by rw [hg]; trivial) nofun, rfl⟩
  | recheck g =>
    simp only [step, Option.ite_none_right_eq_some, Option.some.injEq] at h
    obtain ⟨hg, rfl⟩ := h
    refine .inl ⟨g, _, s.inflight, .keep (fun _ => by rw [hg]; trivial) ?_, rfl⟩
    split
    case isTrue hm => exact fun _ => hm
    case isFalse => nofun
  | finish g =>
    simp only [step, Option.ite_none_right_eq_some, Option.some.injEq] at h
    obtain ⟨hg, rfl⟩ := h
    exact .inl ⟨g, .leaving, s.inflight, .keep (fun _ => by rw [hg]; trivial) nofun, rfl⟩
  | srem g =>
    simp only [step, Option.ite_none_right_eq_some, Option.some.injEq] at h
    obtain ⟨-, rfl⟩ := h
    exact .inl ⟨g, .outside, _, ⟨fun _ h hne => Finset.mem_erase.2 ⟨hne, h⟩, False.elim, nofun⟩, rfl⟩
  | abandon g =>
    simp only [step, Option.some.injEq] at h
    subst h
    exact .inl ⟨g, .outside, s.inflight, .keep False.elim nofun, rfl⟩
  | acquireExclusive d =>
    simp only [step, Option.ite_none_right_eq_some, Option.some.injEq] at h
    obtain ⟨-, rfl⟩ := h
    split
    case isTrue hm => exact .inr (.inr (.inl ⟨d, hm, rfl⟩))
    case isFalse => exact .inr (.inl rfl)
  | poll d =>
    simp only [step, Option.ite_none_right_eq_some, Option.some.injEq] at h
    obtain ⟨hd, rfl⟩ := h
    split
    case isTrue hF => exact .inr (.inr (.inr (.inl ⟨d, hd, hF, rfl⟩)))
    case isFalse => exact .inr (.inl rfl)
  | releaseExclusive d =>
    simp only [step, Option.ite_none_right_eq_some, Option.some.injEq] at h
    obtain ⟨hd, rfl⟩ := h
    exact .inr (.inr (.inr (.inr ⟨d, hd, rfl⟩)))

/-- A step of a generation. -/
private theorem Inv.genMove (hI : Inv owner s) {g : γ} {p : GenPhase} {F : Finset γ} (h : GenMove s g p F) :
    Inv owner { s.setGen g p with inflight := F } where
  live_mem g' hg' := by
    by_cases hg : g' = g
    · subst hg
      rcases h.live (by simpa [State.setGen] using hg') with hF | ⟨hl, rfl⟩
      · exact hF
      · exact hI.live_mem g' hl
    · exact h.others g' (hI.live_mem g' (by simpa [State.setGen, hg] using hg')) hg
  held := hI.held
  unique := hI.unique
  idle_empty d hd g' := by
    by_cases hg : g' = g
    · subst hg
      intro hin
      have hp : p = .inside := by simpa [State.setGen] using hin
      have hm : s.mutex = some (owner d) := hI.held d (by rw [show s.deleter d = .idle from hd]; nofun)
      rw [h.entry hp] at hm
      cases hm
    · simpa [State.setGen, hg] using hI.idle_empty d hd g'

/-- A deleter takes the free mutex. -/
private theorem Inv.acquire (hI : Inv owner s) {d : δ} (hm : s.mutex = none) :
    Inv owner { s.setDeleter d .holding with mutex := some (owner d) } := by
  have haway : ∀ e, s.deleter e = .away := by
    intro e
    by_contra he
    have := hI.held e he
    rw [hm] at this
    cases this
  have honly : ∀ e, (s.setDeleter d .holding).deleter e ≠ .away → e = d := by
    intro e he
    by_contra hed
    exact he (by simp [State.setDeleter, hed, haway e])
  refine ⟨hI.live_mem, ?_, ?_, ?_⟩
  · intro e he
    rw [honly e he]
  · intro e e' he he'
    rw [honly e he, honly e' he']
  · intro e he
    have := honly e (by rw [he]; nofun)
    subst this
    simp [State.setDeleter] at he

/-- A deleter's `smembers` finds no registration. -/
private theorem Inv.idle (hI : Inv owner s) {d : δ} (hd : s.deleter d = .holding) (hF : s.inflight = ∅) :
    Inv owner (s.setDeleter d .idle) := by
  have hne : ∀ e, (s.setDeleter d .idle).deleter e ≠ .away → s.deleter e ≠ .away := by
    intro e he
    by_cases hed : e = d
    · subst hed
      rw [hd]
      nofun
    · simpa [State.setDeleter, hed] using he
  refine ⟨hI.live_mem, fun e he => hI.held e (hne e he), fun e e' he he' => hI.unique e e' (hne e he) (hne e' he'), ?_⟩
  intro e _ g hg
  have := hI.live_mem g (by rw [show s.gen g = .inside from hg]; trivial)
  rw [hF] at this
  simp at this

/-- A deleter gives up the mutex it holds. -/
private theorem Inv.release (hI : Inv owner s) {d : δ} (hd : s.deleter d ≠ .away) :
    Inv owner { s.setDeleter d .away with mutex := releaseIf s.mutex (owner d) } := by
  have haway : ∀ e, (s.setDeleter d .away).deleter e = .away := by
    intro e
    by_cases hed : e = d
    · subst hed
      simp [State.setDeleter]
    · have : s.deleter e = .away := by
        by_contra he
        exact hed (hI.unique e d he hd)
      simpa [State.setDeleter, hed] using this
  refine ⟨hI.live_mem, fun e he => absurd (haway e) he, fun e _ he => absurd (haway e) he, ?_⟩
  intro e he
  rw [haway e] at he
  cases he

theorem inv_step {a : Action γ δ} (hI : Inv owner s) (h : step owner s a = some t) : Inv owner t := by
  rcases step_cases h with ⟨g, p, F, hmove, rfl⟩ | rfl | ⟨d, hm, rfl⟩ | ⟨d, hd, hF, rfl⟩ | ⟨d, hd, rfl⟩
  · exact hI.genMove hmove
  · exact hI
  · exact hI.acquire hm
  · exact hI.idle hd hF
  · exact hI.release hd

theorem inv_reach (h : (fence owner).Reach Free s) : Inv owner s := by
  refine h.induct ?_ fun _ _ _ hI _ ht => inv_step hI ht
  rintro _ rfl
  exact start_inv

/-! ### The fence refines the gate -/

/-- The generations in the critical section; the gate is shut while some deleter may delete. -/
def abs (s : State γ δ ω) : GateState γ where
  inside := {g | s.gen g = .inside}
  shut := ∃ d, s.deleter d = .idle

private theorem inside_setGen_leave (s : State γ δ ω) (g : γ) {p : GenPhase} (hp : p ≠ .inside) (F : Finset γ) :
    (abs { s.setGen g p with inflight := F }).inside = (abs s).inside \ {g} := by
  ext g'
  by_cases hg : g' = g
  · subst hg
    simp [abs, State.setGen, hp]
  · simp [abs, State.setGen, hg]

private theorem inside_setGen_enter (s : State γ δ ω) (g : γ) (F : Finset γ) :
    (abs { s.setGen g .inside with inflight := F }).inside = insert g (abs s).inside := by
  ext g'
  by_cases hg : g' = g
  · subst hg
    simp [abs, State.setGen]
  · simp [abs, State.setGen, hg]

private theorem not_shut_of_free (hI : Inv owner s) (hm : s.mutex = none) : ¬ (abs s).shut := by
  rintro ⟨d, hd⟩
  have := hI.held d (by rw [hd]; nofun)
  rw [hm] at this
  cases this

theorem refines_gate (owner : δ → ω) : Refines (fence (γ := γ) owner) Free (gate γ) abs where
  init := by
    rintro _ rfl
    have hin : (abs (start : State γ δ ω)).inside = ∅ := Set.eq_empty_of_forall_notMem fun _ h => nomatch h
    exact ⟨hin, fun ⟨_, h⟩ => nomatch h⟩
  step s a t hs _ ht := by
    have hI : Inv owner s := inv_reach hs
    have hI' : Inv owner t := inv_step hI ht
    rcases step_cases ht with ⟨g, p, F, hmove, rfl⟩ | rfl | ⟨d, hm, rfl⟩ | ⟨d, hd, hF, rfl⟩ | ⟨d, hd, rfl⟩
    · by_cases hp : p = .inside
      · subst hp
        have hopen : ¬ (abs s).shut := not_shut_of_free hI (hmove.entry rfl)
        exact .inr (.inl ⟨hopen, hopen, g, inside_setGen_enter s g F⟩)
      · exact .inr (.inr (.inl ⟨Iff.rfl, g, inside_setGen_leave s g hp F⟩))
    · exact .inl rfl
    · refine .inr (.inr (.inr (.inr ⟨rfl, ?_⟩)))
      rintro ⟨e, he⟩
      by_cases hed : e = d
      · subst hed
        simp [State.setDeleter] at he
      · refine not_shut_of_free hI hm ⟨e, ?_⟩
        simpa [State.setDeleter, hed] using he
    · have hempty : (abs s).inside = ∅ := by
        refine Set.eq_empty_of_forall_notMem fun g hg => ?_
        have := hI.live_mem g (by rw [show s.gen g = .inside from hg]; trivial)
        rw [hF] at this
        simp at this
      exact .inr (.inr (.inr (.inl ⟨hempty, hempty, d, by simp [State.setDeleter]⟩)))
    · have hm : releaseIf s.mutex (owner d) = none := by rw [hI.held d hd, releaseIf_some_self]
      exact .inr (.inr (.inr (.inr ⟨rfl, not_shut_of_free hI' hm⟩)))

/-! ### Exclusion -/

/-- Only a second `assert_writable` that finds no mutex lets a generation in. -/
theorem entered {a : Action γ δ} (h : step owner s a = some t) {g : γ} (hg : t.gen g = .inside) :
    s.gen g = .inside ∨ s.mutex = none := by
  rcases step_cases h with ⟨g', p, F, hmove, rfl⟩ | rfl | ⟨d, hm, rfl⟩ | ⟨d, hd, hF, rfl⟩ | ⟨d, hd, rfl⟩
  · by_cases hgg : g = g'
    · subst hgg
      exact .inr (hmove.entry (by simpa [State.setGen] using hg))
    · exact .inl (by simpa [State.setGen, hgg] using hg)
  · exact .inl hg
  · exact .inl hg
  · exact .inl hg
  · exact .inl hg

/-- While a deleter holds the mutex and its `wait_generations_idle` has returned, no generation is in its critical
section and no step puts one there. -/
theorem idle_excludes_generations (h : (fence owner).Reach Free s) {d : δ} (hd : s.deleter d = .idle) :
    (∀ g, s.gen g ≠ .inside) ∧ ∀ a t, (fence owner).step s a = some t → ∀ g, t.gen g ≠ .inside := by
  have hnone : ∀ g, s.gen g ≠ .inside := by
    intro g hg
    have hempty : (abs s).inside = ∅ := gate_empty ((refines_gate owner).reach h) ⟨d, hd⟩
    exact Set.notMem_empty g (hempty ▸ hg)
  refine ⟨hnone, fun a t ht g hg => ?_⟩
  rcases entered ht hg with hin | hm
  · exact hnone g hin
  · have := (inv_reach h).held d (by rw [hd]; nofun)
    rw [hm] at this
    cases this

end Model

/-- A generation that registers while a deleter has the mutex backs out, and only then the wait of the deleter
returns. -/
theorem idle_excludes_generations_backed_out :
    ∃ s : State Nat Nat String, (fence fun d => (if d = 0 then "delete:0" else "delete:1")).Reach Free s ∧
      s.deleter 0 = .idle ∧ ∀ g, s.gen g ≠ .inside := by
  have hrun := Machine.reach_of_exec (M := fence (γ := Nat) fun d : Nat => if d = 0 then "delete:0" else "delete:1")
    (C := Free) (s := start) (p := fun s => decide (s.deleter 0 = .idle))
    [.assertWritable 7, .acquireExclusive 0, .sadd 7, .poll 0, .expire 7, .recheck 7, .srem 7, .poll 0] rfl
    (by decide)
  obtain ⟨s, -, hr, hp⟩ := hrun
  have hd : s.deleter 0 = .idle := of_decide_eq_true hp
  exact ⟨s, hr, hd, (idle_excludes_generations hr hd).1⟩

end NexusStudio.EpisodeFence
