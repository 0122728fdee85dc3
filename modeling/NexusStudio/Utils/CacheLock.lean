import NexusStudio.Lib.Machine
import Mathlib.Logic.Function.Basic

/-!
# The stampede lock of the two-level cache

Calls of `get_or_set` and `get_or_compute` on one key, in any number of processes that share one Redis. A call that
misses both levels takes the lock with `SET NX`, computes, stores and deletes the lock. A call that finds the lock
taken waits, reads again, and goes on into the same `try` clause when it misses again; its `finally` deletes the lock
of the holder.

* (calls) `step`: every access to a level and every Redis command of a call is one step.
* (condition) `Found`: a call that found the lock taken finds the key cached when it reads again.
* (result) Under the condition the lock is deleted by the call that set it only, and at most one call holds it.
* (exactness) A call that misses again while another one holds the lock can go on to delete it.
-/

set_option linter.unusedSectionVars false

namespace NexusStudio.CacheLock

open Concurrent

/-! ### Reading -/

/-- What the cache stores: the string that stands for `None`, and the JSON text of a value. `dumps` is `none` where
it raises; `loads` is `none` where it raises and `some none` on the text of `null`. -/
structure Codec (ν : Type*) where
  nullSentinel : ν
  dumps : ν → Option String
  loads : String → Option (Option ν)

/-- The two entry points; `cache_none` is an argument of `get_or_compute`. -/
inductive Kind
  | getOrSet
  | getOrCompute (cacheNone : Bool)
deriving DecidableEq

/-- Where a read of the key is: at the local level, at Redis, at filling the local level with what Redis had, or at
the check for an explicitly cached `None`. -/
inductive Stage (ν : Type*)
  | l1
  | l2
  | fill (v : Option ν)
  | sentinel

/-- What one stage of a read comes to. -/
inductive Look (ν : Type*)
  | found (v : Option ν)
  | next (g : Stage ν)
  | nothing

/-- `get` returned `None`: only `get_or_compute` asks whether `None` was cached. -/
def Kind.missed {ν : Type*} : Kind → Look ν
  | .getOrSet => .nothing
  | .getOrCompute _ => .next .sentinel

/-- Whether the result of the computation is stored. -/
def Kind.stores {ν : Type*} : Kind → Option ν → Bool
  | .getOrSet, _ => true
  | .getOrCompute cacheNone, v => v.isSome || cacheNone

section Look

variable {ν : Type*} [DecidableEq ν]

/-- The value that `get` returns for what it found. -/
def Codec.taken (c : Codec ν) (k : Kind) (v : Option ν) : Look ν :=
  match v with
  | none => k.missed
  | some w => if w = c.nullSentinel then k.missed else .found (some w)

/-- One stage of a read that sees `l1` at the local level and `l2` at Redis. -/
def Codec.look (c : Codec ν) (k : Kind) (l1 : Option ν) (l2 : Option String) : Stage ν → Look ν
  | .l1 => if l1 = none then .next .l2 else c.taken k l1
  | .l2 =>
    match l2.bind c.loads with
    | none => k.missed
    | some v => .next (.fill v)
  | .fill v => c.taken k v
  | .sentinel => if l1 = some c.nullSentinel then .found none else .nothing

end Look

/-! ### Calls -/

/-- Where a call is. Inside the `try` clause `locked` tells whether the call has set the lock, which the code does
not keep. The result of a call is `none` when it raises. -/
inductive Pc (ν : Type*)
  | idle
  | first (g : Stage ν)
  | acquire
  | again (g : Stage ν)
  | compute (locked : Bool)
  | setL1 (locked : Bool) (v : Option ν)
  | setL2 (locked : Bool) (v : Option ν)
  | release (locked : Bool) (r : Option (Option ν))
  | done (r : Option (Option ν))

/-- `some locked` inside the `try` clause. -/
def Pc.inside {ν : Type*} : Pc ν → Option Bool
  | .compute b | .setL1 b _ | .setL2 b _ | .release b _ => some b
  | _ => none

/-- One key: its entry in each process, its value in Redis, the call that set its lock, and the calls. The lock
stores `"1"`; whose it is is known to the model only. -/
structure State (ι π ν : Type*) where
  l1 : π → Option ν
  l2 : Option String
  lock : Option ι
  pc : ι → Pc ν

/-- The calls `ι`, each with its entry point and its process. -/
structure Config (ι π ν : Type*) extends Codec ν where
  kind : ι → Kind
  proc : ι → π

/-- A call starts, does its next step, gets the result of its computation (`none`: it raised) or is cancelled; or
something else, an eviction or a `set` or `delete` of the key, changes the two levels. -/
inductive Action (ι π ν : Type*)
  | start (i : ι)
  | run (i : ι)
  | computed (i : ι) (r : Option (Option ν))
  | cancel (i : ι)
  | elsewhere (l1 : π → Option ν) (l2 : Option String)

section Steps

variable {ι π ν : Type*} [DecidableEq ι] [DecidableEq π] [DecidableEq ν]

def State.goto (s : State ι π ν) (i : ι) (p : Pc ν) : State ι π ν := { s with pc := Function.update s.pc i p }

/-- What the call `i` sees at the stage `g`. -/
def Config.look (c : Config ι π ν) (s : State ι π ν) (i : ι) (g : Stage ν) : Look ν :=
  c.toCodec.look (c.kind i) (s.l1 (c.proc i)) s.l2 g

/-- The stage that fills the local level writes to it. -/
def Config.filled (c : Config ι π ν) (s : State ι π ν) (i : ι) : Stage ν → State ι π ν
  | .fill v => { s with l1 := Function.update s.l1 (c.proc i) v }
  | _ => s

/-- The next step of the call `i`. -/
def Config.runStep (c : Config ι π ν) (s : State ι π ν) (i : ι) : Option (State ι π ν) :=
  match s.pc i with
  | .first g =>
    match c.look s i g with
    | .found v => some ((c.filled s i g).goto i (.done (some v)))
    | .next g' => some ((c.filled s i g).goto i (.first g'))
    | .nothing => some ((c.filled s i g).goto i .acquire)
  | .acquire =>
    match s.lock with
    | none => some { s.goto i (.compute true) with lock := some i }
    | some _ => some (s.goto i (.again .l1))
  | .again g =>
    match c.look s i g with
    | .found v => some ((c.filled s i g).goto i (.done (some v)))
    | .next g' => some ((c.filled s i g).goto i (.again g'))
    -- the call has no lock, and enters the clause that deletes it
    | .nothing => some ((c.filled s i g).goto i (.compute false))
  | .setL1 b v =>
    some { s.goto i (.setL2 b v) with l1 := Function.update s.l1 (c.proc i) (some (v.getD c.nullSentinel)) }
  | .setL2 b v => some { s.goto i (.release b (some v)) with l2 := (c.dumps (v.getD c.nullSentinel)).or s.l2 }
  | .release _ r => some { s.goto i (.done r) with lock := none }
  | .idle | .compute _ | .done _ => none

/-- The computation of the call `i` ends. -/
def Config.computed (c : Config ι π ν) (s : State ι π ν) (i : ι) (r : Option (Option ν)) : Option (State ι π ν) :=
  match s.pc i with
  | .compute b =>
    match r with
    | none => some (s.goto i (.release b none))
    | some v => some (s.goto i (if (c.kind i).stores v then .setL1 b v else .release b (some v)))
  | _ => none

/-- The call `i` is cancelled: the `finally` clause runs inside the `try` clause only. -/
def State.cancel (s : State ι π ν) (i : ι) : Option (State ι π ν) :=
  match s.pc i with
  | .idle | .done _ => none
  | .first _ | .acquire | .again _ | .release _ _ => some (s.goto i (.done none))
  | .compute b | .setL1 b _ | .setL2 b _ => some (s.goto i (.release b none))

def Config.step (c : Config ι π ν) (s : State ι π ν) : Action ι π ν → Option (State ι π ν)
  | .start i =>
    match s.pc i with
    | .idle => some (s.goto i (.first .l1))
    | _ => none
  | .run i => c.runStep s i
  | .computed i r => c.computed s i r
  | .cancel i => s.cancel i
  | .elsewhere l1 l2 => some { s with l1, l2 }

/-- The calls on one key: whatever is cached at first, nobody holds the lock. -/
def Config.calls (c : Config ι π ν) : Machine (State ι π ν) (Action ι π ν) where
  init s := s.lock = none ∧ ∀ i, s.pc i = .idle
  step := c.step

/-- The call has set the lock and has not deleted it. -/
def State.Holding (s : State ι π ν) (i : ι) : Prop := (s.pc i).inside = some true

/-- The call is in the `try` clause without the lock. -/
def State.Late (s : State ι π ν) (i : ι) : Prop := (s.pc i).inside = some false

instance (s : State ι π ν) (i : ι) : Decidable (s.Holding i) := inferInstanceAs (Decidable (_ = _))

/-- The stage finds neither a value nor a stage that goes on. -/
def Look.isNothing : Look ν → Bool
  | .nothing => true
  | _ => false

/-- A call that found the lock taken does not miss when it reads again. -/
def Config.found (c : Config ι π ν) (s : State ι π ν) : Action ι π ν → Bool
  | .run i =>
    match s.pc i with
    | .again g => !(c.look s i g).isNothing
    | _ => true
  | _ => true

/-- The condition on a step. -/
def Config.Found (c : Config ι π ν) (s : State ι π ν) (a : Action ι π ν) : Prop := c.found s a = true

instance (c : Config ι π ν) (s : State ι π ν) (a : Action ι π ν) : Decidable (c.Found s a) :=
  inferInstanceAs (Decidable (_ = _))

end Steps

section Locks

variable {ι π ν : Type*} [DecidableEq ι] [DecidableEq π] [DecidableEq ν] {c : Config ι π ν} {s s' : State ι π ν}
  {i j u : ι} {p : Pc ν} {C : State ι π ν → Action ι π ν → Prop}

@[simp] theorem State.goto_lock : (s.goto i p).lock = s.lock := rfl

@[simp] theorem State.goto_pc : (s.goto i p).pc = Function.update s.pc i p := rfl

@[simp] theorem Config.filled_lock (g : Stage ν) : (c.filled s i g).lock = s.lock := by cases g <;> rfl

@[simp] theorem Config.filled_pc (g : Stage ν) : (c.filled s i g).pc = s.pc := by cases g <;> rfl

/-! ### One step -/

/-- What one step does to the lock and to the `try` clauses: nothing but that a call may leave its clause; a call takes
the free lock; a call that is in its clause deletes the lock; a call enters its clause without the lock. -/
inductive Effect (c : Config ι π ν) (s s' : State ι π ν) (a : Action ι π ν) : Prop
  | keep (hl : s'.lock = s.lock) (hx : ∀ u b, (s'.pc u).inside = some b → (s.pc u).inside = some b)
  | take (i : ι) (ha : a = .run i) (hn : s.lock = none) (hl : s'.lock = some i)
      (hx : ∀ u b, (s'.pc u).inside = some b → u = i ∧ b = true ∨ (s.pc u).inside = some b)
  | delete (i : ι) (b : Bool) (ha : a = .run i) (hb : (s.pc i).inside = some b) (hl : s'.lock = none)
      (hx : ∀ u b, (s'.pc u).inside = some b → u ≠ i ∧ (s.pc u).inside = some b)
  | late (i : ι) (ha : a = .run i) (hm : ¬ c.Found s a) (hl : s'.lock = s.lock)

/-- A call moves on without entering the `try` clause. -/
private theorem inside_update (hp : ∀ b, p.inside = some b → (s.pc i).inside = some b) (u : ι) (b : Bool)
    (h : (Function.update s.pc i p u).inside = some b) : (s.pc u).inside = some b := by
  by_cases hu : u = i
  · subst hu
    rw [Function.update_self] at h
    exact hp b h
  · rwa [Function.update_of_ne hu] at h

private theorem runStep_effect (h : c.runStep s i = some s') : Effect c s s' (.run i) := by
  unfold Config.runStep at h
  split at h
  case h_1 g hpc =>
    split at h <;> cases h <;>
      exact .keep (by simp) (by simpa using inside_update (by simp [Pc.inside]))
  case h_2 hpc =>
    split at h
    case h_1 hn =>
      cases h
      refine .take i rfl hn rfl fun u b hu => ?_
      by_cases hui : u = i
      · subst hui
        simp only [State.goto_pc, Function.update_self, Pc.inside, Option.some.injEq] at hu
        exact .inl ⟨rfl, hu.symm⟩
      · refine .inr ?_
        simpa only [State.goto_pc, Function.update_of_ne hui] using hu
    case h_2 =>
      cases h
      exact .keep rfl (by simpa using inside_update (by simp [Pc.inside]))
  case h_3 g hpc =>
    split at h
    case h_1 =>
      cases h
      exact .keep (by simp) (by simpa using inside_update (by simp [Pc.inside]))
    case h_2 =>
      cases h
      exact .keep (by simp) (by simpa using inside_update (by simp [Pc.inside]))
    case h_3 hlook =>
      cases h
      refine .late i rfl ?_ (by simp)
      simp [Config.Found, Config.found, hpc, hlook, Look.isNothing]
  case h_4 b v hpc =>
    cases h
    exact .keep rfl (inside_update (by simp [hpc, Pc.inside]))
  case h_5 b v hpc =>
    cases h
    exact .keep rfl (inside_update (by simp [hpc, Pc.inside]))
  case h_6 b r hpc =>
    cases h
    refine .delete i b rfl (by rw [hpc]; rfl) rfl fun u b' hu => ?_
    by_cases hui : u = i
    · subst hui
      simp [Pc.inside] at hu
    · exact ⟨hui, by simpa only [State.goto_pc, Function.update_of_ne hui] using hu⟩
  case h_7 => cases h
  case h_8 => cases h
  case h_9 => cases h

private theorem computed_effect {r : Option (Option ν)} (h : c.computed s i r = some s') :
    Effect c s s' (.computed i r) := by
  unfold Config.computed at h
  split at h
  case h_1 b hpc =>
    split at h
    case h_1 =>
      cases h
      exact .keep rfl (inside_update (by simp [hpc, Pc.inside]))
    case h_2 v =>
      cases h
      refine .keep rfl (inside_update fun b' hb' => ?_)
      rw [hpc]
      split at hb' <;> exact hb'
  case h_2 => cases h

private theorem cancel_effect (h : s.cancel i = some s') : Effect c s s' (.cancel i) := by
  unfold State.cancel at h
  split at h <;> cases h <;> exact .keep rfl (inside_update (by simp_all [Pc.inside]))

theorem step_effect {a : Action ι π ν} (h : c.step s a = some s') : Effect c s s' a := by
  cases a with
  | start i =>
    simp only [Config.step] at h
    split at h
    · cases h
      exact .keep rfl (inside_update (by simp [Pc.inside]))
    · cases h
  | run i => exact runStep_effect h
  | computed i r => exact computed_effect h
  | cancel i => exact cancel_effect h
  | elsewhere l1 l2 =>
    cases h
    exact .keep rfl fun _ _ => id

/-! ### Exclusion -/

/-- Whoever is in the `try` clause has the lock. -/
def Owned (s : State ι π ν) : Prop :=
  ∀ i b, (s.pc i).inside = some b → b = true ∧ s.lock = some i

/-- A step that meets the condition keeps the calls without the lock out of the `try` clause. -/
theorem owned_step {a : Action ι π ν} (hs : Owned s) (hC : c.Found s a) (h : c.step s a = some s') : Owned s' := by
  intro u b hu
  cases step_effect h with
  | keep hl hx => rw [hl]; exact hs u b (hx u b hu)
  | take i ha hn hl hx =>
    rcases hx u b hu with ⟨rfl, rfl⟩ | hu
    · exact ⟨rfl, hl⟩
    · have := (hs u b hu).2
      rw [hn] at this
      cases this
  | delete i b' ha hb hl hx =>
    obtain ⟨hui, hu⟩ := hx u b hu
    have hlock : some u = some i := (hs u b hu).2.symm.trans (hs i b' hb).2
    exact absurd (Option.some.inj hlock) hui
  | late i ha hm hl => exact absurd hC hm

theorem owned_reach (h : c.calls.Reach c.Found s) : Owned s := by
  refine h.induct ?_ fun _ _ _ hs hC ht => owned_step hs hC ht
  intro s₀ h₀ i b hb
  rw [h₀.2 i] at hb
  cases hb

/-- The lock excludes in the state `s`, for the steps that `C` allows from it. -/
structure ExclusiveAt (c : Config ι π ν) (C : State ι π ν → Action ι π ν → Prop) (s : State ι π ν) : Prop where
  atMostOne : ∀ i j, s.Holding i → s.Holding j → i = j
  deleted : ∀ a s', C s a → c.step s a = some s' → ∀ i, s.lock = some i → s'.lock ≠ some i → a = .run i

/-- In every run in which each call that found the lock taken finds the key cached when it reads again, the lock is
deleted by the call that set it only, and at most one call holds it. -/
theorem exclusive_of_found (h : c.calls.Reach c.Found s) : ExclusiveAt c c.Found s where
  atMostOne i j hi hj := by
    have hlock : some i = some j := (owned_reach h i true hi).2.symm.trans (owned_reach h j true hj).2
    exact Option.some.inj hlock
  deleted a s' hC hs i hi hne := by
    cases step_effect hs with
    | keep hl hx => exact absurd (hl.trans hi) hne
    | take j ha hn hl hx =>
      rw [hn] at hi
      cases hi
    | delete j b ha hb hl hx =>
      have hlock : some i = some j := hi.symm.trans (owned_reach h j b hb).2
      rw [ha, Option.some.inj hlock]
    | late j ha hm hl => exact absurd hC hm

/-- A call that misses again while another one holds the lock goes on, when its computation raises at once, to delete
the lock of that call. -/
theorem late_deletes {g : Stage ν} (hpc : s.pc i = .again g) (hlook : c.look s i g = .nothing)
    (hlock : s.lock = some j) (hj : s.Holding j) :
    j ≠ i ∧ ∃ t t', c.calls.Run Free s t ∧ t.lock = some j ∧ t.Holding j ∧ c.step t (.run i) = some t' ∧
      t'.lock = none := by
  have hji : j ≠ i := by
    rintro rfl
    simp [State.Holding, hpc, Pc.inside] at hj
  let s₁ := (c.filled s i g).goto i (.compute false)
  let s₂ := s₁.goto i (.release false none)
  have h₁ : c.calls.step s (.run i) = some s₁ := by
    simp only [Config.calls, Config.step, Config.runStep, hpc, hlook, s₁]
  have h₂ : c.calls.step s₁ (.computed i none) = some s₂ := by
    simp only [Config.calls, Config.step, Config.computed, s₁, State.goto_pc, Function.update_self, s₂]
  have h₃ : c.step s₂ (.run i) = some { s₂.goto i (.done none) with lock := none } := by
    simp only [Config.step, Config.runStep, s₂, State.goto_pc, Function.update_self]
  refine ⟨hji, s₂, _, ?_, ?_, ?_, h₃, rfl⟩
  · exact .head ⟨_, trivial, h₁⟩ (.single ⟨_, trivial, h₂⟩)
  · simpa [s₂, s₁] using hlock
  · simpa [State.Holding, s₂, s₁, hji] using hj

end Locks

/-! ### Runs -/

/-- Calls of `get_or_compute` in one process that cache plain strings. -/
def plain : Config Nat Unit String where
  nullSentinel := "__NULL__"
  dumps v := some ("\"" ++ v ++ "\"")
  loads t := some (some ((t.drop 1).dropEnd 1).toString)
  kind _ := .getOrCompute true
  proc _ := ()

/-- Nothing is cached and no call has started. -/
def fresh : State Nat Unit String := ⟨fun _ => none, none, none, fun _ => .idle⟩

/-- The call `0` computes with the lock; `1` finds the lock taken and finds the value of `0`; the value is evicted, and
`2` computes with the lock. -/
theorem exclusive_after_wait :
    ∃ s, plain.calls.Reach plain.Found s ∧ s.Holding 2 ∧ ExclusiveAt plain plain.Found s := by
  obtain ⟨s, -, hr, hp⟩ := Machine.reach_of_exec (M := plain.calls) (C := plain.Found) (s := fresh)
    (p := fun s => decide (s.Holding 2))
    [.start 0, .run 0, .run 0, .run 0, .run 0, .start 1, .run 1, .run 1, .run 1, .run 1, .computed 0 (some (some "v")),
      .run 0, .run 0, .run 0, .run 1, .elsewhere (fun _ => none) none, .start 2, .run 2, .run 2, .run 2, .run 2]
    ⟨rfl, fun _ => rfl⟩ (by decide)
  exact ⟨s, hr, of_decide_eq_true hp, exclusive_of_found hr⟩

/-- The call `1` finds the lock of `0` taken, misses again, computes and deletes it; then `2` takes the lock while `0`
is still computing. -/
theorem late_call_deletes :
    (∃ s s', plain.calls.Reach Free s ∧ s.lock = some 0 ∧ plain.step s (.run 1) = some s' ∧ s'.lock = none) ∧
    ∃ s, plain.calls.Reach Free s ∧ s.Holding 0 ∧ s.Holding 2 := by
  constructor
  · obtain ⟨s, -, hr, hp⟩ := Machine.reach_of_exec (M := plain.calls) (C := Free) (s := fresh)
      (p := fun s => decide (s.lock = some 0) && (plain.step s (.run 1)).any fun s' => s'.lock.isNone)
      [.start 0, .run 0, .run 0, .run 0, .run 0, .start 1, .run 1, .run 1, .run 1, .run 1, .run 1, .run 1, .run 1,
        .computed 1 (some (some "v")), .run 1, .run 1] ⟨rfl, fun _ => rfl⟩ (by decide)
    obtain ⟨hlock, hany⟩ := (Bool.and_eq_true _ _).mp hp
    obtain ⟨s', hs', hnone⟩ := (Option.any_eq_true _ _).1 hany
    exact ⟨s, s', hr, of_decide_eq_true hlock, hs', Option.isNone_iff_eq_none.1 hnone⟩
  · obtain ⟨s, -, hr, hp⟩ := Machine.reach_of_exec (M := plain.calls) (C := Free) (s := fresh)
      (p := fun s => decide (s.Holding 0 ∧ s.Holding 2))
      [.start 0, .run 0, .run 0, .run 0, .run 0, .start 1, .run 1, .run 1, .run 1, .run 1, .start 2, .run 2, .run 2,
        .run 2, .run 1, .run 1, .run 1, .computed 1 (some (some "v")), .run 1, .run 1, .run 1, .run 2]
      ⟨rfl, fun _ => rfl⟩ (by decide)
    exact ⟨s, hr, of_decide_eq_true hp⟩

end NexusStudio.CacheLock
