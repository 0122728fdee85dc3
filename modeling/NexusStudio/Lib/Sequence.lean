import Mathlib.Logic.Basic

/-!
# Sequences

Parties draw numbers from a counter that only grows, and later use what they have drawn or drop it. A number that a
party has drawn is its own and not in use.
-/

namespace Concurrent

/-- The numbers in use and the ones that each party has drawn, below the next number of the counter. -/
structure Sequence {ι : Type*} (next : Nat) (used : Nat → Prop) (drawn : ι → Option Nat) : Prop where
  used_lt : ∀ n, used n → n < next
  drawn_lt : ∀ i n, drawn i = some n → n < next
  unused : ∀ i n, drawn i = some n → ¬ used n
  own : ∀ i j n, drawn i = some n → drawn j = some n → j = i

namespace Sequence

variable {ι : Type*} {next : Nat} {used used' : Nat → Prop} {drawn drawn' : ι → Option Nat} {i : ι}

/-- A party draws the next number. -/
theorem draw (h : Sequence next used drawn) (hi : drawn' i = some next) (ho : ∀ j, j ≠ i → drawn' j = drawn j) :
    Sequence (next + 1) used drawn' := by
  have hcases : ∀ j n, drawn' j = some n → j = i ∧ n = next ∨ drawn j = some n := by
    intro j n hj
    by_cases hji : j = i
    · subst hji
      exact .inl ⟨rfl, Option.some.inj (hj.symm.trans hi)⟩
    · exact .inr ((ho j hji).symm.trans hj)
  refine ⟨fun n hn => Nat.lt_succ_of_lt (h.used_lt n hn), fun j n hj => ?_, fun j n hj => ?_, fun j k n hj hk => ?_⟩
  · rcases hcases j n hj with ⟨-, rfl⟩ | hj
    · exact Nat.lt_succ_self _
    · exact Nat.lt_succ_of_lt (h.drawn_lt j n hj)
  · rcases hcases j n hj with ⟨-, rfl⟩ | hj
    · exact fun hu => Nat.lt_irrefl _ (h.used_lt _ hu)
    · exact h.unused j n hj
  · rcases hcases j n hj with ⟨rfl, rfl⟩ | hj <;> rcases hcases k _ hk with ⟨rfl, hn⟩ | hk
    · rfl
    · exact absurd (h.drawn_lt k _ hk) (Nat.lt_irrefl _)
    · rw [hn] at hj
      exact absurd (h.drawn_lt j _ hj) (Nat.lt_irrefl _)
    · exact h.own j k n hj hk

/-- Parties keep what they have drawn, or drop it. -/
theorem keep (h : Sequence next used drawn) (hd : ∀ j n, drawn' j = some n → drawn j = some n) :
    Sequence next used drawn' where
  used_lt := h.used_lt
  drawn_lt j n hj := h.drawn_lt j n (hd j n hj)
  unused j n hj := h.unused j n (hd j n hj)
  own j k n hj hk := h.own j k n (hd j n hj) (hd k n hk)

/-- A party uses what it has drawn. -/
theorem use (h : Sequence next used drawn) (hu : ∀ n, used' n → used n ∨ drawn i = some n) (hi : drawn' i = none)
    (ho : ∀ j, j ≠ i → drawn' j = drawn j) : Sequence next used' drawn' := by
  have hne : ∀ j n, drawn' j = some n → j ≠ i ∧ drawn j = some n := by
    intro j n hj
    by_cases hji : j = i
    · subst hji
      rw [hi] at hj
      cases hj
    · exact ⟨hji, (ho j hji).symm.trans hj⟩
  refine ⟨fun n hn => ?_, fun j n hj => h.drawn_lt j n (hne j n hj).2, fun j n hj hn => ?_, fun j k n hj hk => ?_⟩
  · rcases hu n hn with hn | hn
    · exact h.used_lt n hn
    · exact h.drawn_lt i n hn
  · rcases hu n hn with hn | hn
    · exact h.unused j n (hne j n hj).2 hn
    · exact (hne j n hj).1 (h.own i j n hn (hne j n hj).2)
  · exact h.own j k n (hne j n hj).2 (hne k n hk).2

end Sequence

end Concurrent
