import NexusStudio.Lib.Machine
import Mathlib.Data.Set.Subsingleton
import Mathlib.Order.BooleanAlgebra.Set

/-!
# Exclusion: lock cells, the mutex and the gate

* (cell) A key that stores its owner, deleted only by a compare with the owner (`releaseIf`) or by anybody
  (`none`), as in a key-value store with `SET NX` and a compare-and-delete script.
* (mutex) The abstract system in which at most one party is inside.
* (gate) The abstract system in which parties enter while the gate is open, and the gate is shut only when nobody
  is inside.
* (table) Any number of keys, each with its owner; a party takes keys one at a time and gives all of them up at once.
-/

namespace Concurrent

/-! ### Cells -/

/-- Compare-and-delete: the cell is emptied when it stores `w`, and left alone otherwise. -/
def releaseIf {ω : Type*} [DecidableEq ω] (c : Option ω) (w : ω) : Option ω :=
  if c = some w then none else c

section Cell

variable {ω : Type*} [DecidableEq ω] {c : Option ω} {v w : ω}

@[simp] theorem releaseIf_some_self : releaseIf (some w) w = none :=
  if_pos rfl

@[simp] theorem releaseIf_none : releaseIf none w = none :=
  if_neg nofun

@[simp] theorem releaseIf_eq_some : releaseIf c w = some v ↔ c = some v ∧ v ≠ w := by
  unfold releaseIf
  split
  case isTrue h =>
    subst h
    simp only [reduceCtorEq, Option.some.injEq, false_iff, not_and, not_not]
    exact fun he => he.symm
  case isFalse h =>
    constructor
    · intro hv
      refine ⟨hv, ?_⟩
      rintro rfl
      exact h hv
    · exact fun hv => hv.1

end Cell

/-! ### The mutex -/

/-- At most one party is inside: a party enters when nobody is inside, and parties leave. -/
def mutex (ι : Type*) : Spec (Set ι) where
  init S := S = ∅
  next S T := (S = ∅ ∧ ∃ i, T = {i}) ∨ T ⊆ S

theorem mutex_subsingleton {ι : Type*} {S : Set ι} (h : (mutex ι).Reach S) : S.Subsingleton := by
  refine Spec.Reach.induct ?_ ?_ h
  · rintro S rfl
    exact Set.subsingleton_empty
  · intro S T hS hn
    rcases hn with ⟨-, i, rfl⟩ | hsub
    · exact Set.subsingleton_singleton
    · exact hS.anti hsub

/-! ### The gate -/

/-- The parties inside the gate and whether it is shut. -/
structure GateState (ι : Type*) where
  inside : Set ι
  shut : Prop

/-- Parties enter through an open gate; it is shut only when nobody is inside. -/
def gate (ι : Type*) : Spec (GateState ι) where
  init G := G.inside = ∅ ∧ ¬ G.shut
  next G H :=
    (¬ G.shut ∧ ¬ H.shut ∧ ∃ i, H.inside = insert i G.inside) ∨
    ((H.shut ↔ G.shut) ∧ ∃ i, H.inside = G.inside \ {i}) ∨
    (G.inside = ∅ ∧ H.inside = ∅ ∧ H.shut) ∨
    (H.inside = G.inside ∧ ¬ H.shut)

/-- Behind a shut gate there is nobody. -/
theorem gate_empty {ι : Type*} {G : GateState ι} (h : (gate ι).Reach G) : G.shut → G.inside = ∅ := by
  refine Spec.Reach.induct (A := gate ι) (P := fun G => G.shut → G.inside = ∅)
    (fun G hG _ => hG.1) ?_ h
  intro G H hG hn hs
  rcases hn with ⟨-, ho, -⟩ | ⟨hiff, i, hi⟩ | ⟨-, he, -⟩ | ⟨-, ho⟩
  · exact absurd hs ho
  · rw [hi, hG (hiff.1 hs), Set.empty_sdiff]
  · exact he
  · exact absurd hs ho

/-! ### Lock tables -/

section Tables

variable {ι κ : Type*} [DecidableEq ι] {owner owner' : κ → Option ι} {i j : ι} {k l : κ}

/-- A party gives up all of its keys. -/
def releaseAll (owner : κ → Option ι) (i : ι) : κ → Option ι := fun k => releaseIf (owner k) i

theorem releaseAll_of_owner (hl : owner l = some j) (hj : j ≠ i) : releaseAll owner i l = some j := by
  rw [releaseAll, releaseIf_eq_some]
  exact ⟨hl, hj⟩

variable [DecidableEq κ]

/-- A party takes a key that nobody else owns; `none` while another one does. -/
def acquire (owner : κ → Option ι) (i : ι) (k : κ) : Option (κ → Option ι) :=
  if owner k = none ∨ owner k = some i then some (Function.update owner k (some i)) else none

theorem acquire_self (h : acquire owner i k = some owner') : owner' k = some i := by
  obtain ⟨-, howner⟩ := Option.ite_none_right_eq_some.1 h
  cases howner
  exact Function.update_self _ _ _

/-- Nobody loses a key to a party that takes one. -/
theorem acquire_of_owner (h : acquire owner i k = some owner') (hl : owner l = some j) : owner' l = some j := by
  obtain ⟨hfree, howner⟩ := Option.ite_none_right_eq_some.1 h
  cases howner
  by_cases hlk : l = k
  · subst hlk
    rw [hl] at hfree
    rcases hfree with hfree | hfree
    · cases hfree
    · rw [Function.update_self, ← hfree]
  · rw [Function.update_of_ne hlk]
    exact hl

end Tables

end Concurrent
