import Mathlib.Logic.Function.Basic
import Mathlib.Data.List.Basic

/-!
# Registries in which the first one of a key stays

* (registry) `register` gives a free key to a value; a key that is taken stays with its owner (`registerAll_taken`).
* (owners) Who has a key after a list of values has had it before, or is one of these values (`registerAll_cases`).
* (law) All values of a list have their keys exactly if no two of them share one and no other had it before
  (`has_iff`).
-/

namespace FirstCome

variable {κ α : Type*} [DecidableEq κ]

/-- Who has a key: nobody, something else, or a value. -/
abbrev Registry (κ α : Type*) := κ → Option (Option α)

/-- `if key not in registry: registry[key] = a` -/
def register (key : α → κ) (r : Registry κ α) (a : α) : Registry κ α :=
  if (r (key a)).isSome then r else Function.update r (key a) (some (some a))

/-- The values of a list, one after the other. -/
def registerAll (key : α → κ) (r : Registry κ α) (l : List α) : Registry κ α := l.foldl (register key) r

/-- The value has its key. -/
def Has (key : α → κ) (r : Registry κ α) (a : α) : Prop := r (key a) = some (some a)

section Registries

variable {key : α → κ} {r : Registry κ α} {a : α} {l l' : List α} {k : κ} {o : Option α}

theorem register_of_free (h : r (key a) = none) : register key r a = Function.update r (key a) (some (some a)) := by
  rw [register, h, if_neg (by simp)]

theorem register_of_taken (h : r (key a) = some o) : register key r a = r := by
  rw [register, h, if_pos (by simp)]

theorem register_taken (h : r k = some o) : register key r a k = some o := by
  cases ha : r (key a) with
  | some o' => rw [register_of_taken ha, h]
  | none =>
    have hne : k ≠ key a := fun hk => by
      rw [hk, ha] at h
      cases h
    rw [register_of_free ha, Function.update_of_ne hne, h]

theorem registerAll_cons : registerAll key r (a :: l) = registerAll key (register key r a) l := rfl

theorem registerAll_append : registerAll key r (l ++ l') = registerAll key (registerAll key r l) l' :=
  List.foldl_append

/-- A key that is taken stays with its owner. -/
theorem registerAll_taken (h : r k = some o) : registerAll key r l k = some o := by
  induction l generalizing r with
  | nil => exact h
  | cons a l ih => exact ih (register_taken h)

/-- The key of a value is taken by then. -/
theorem registerAll_isSome (ha : a ∈ l) : ∃ o, registerAll key r l (key a) = some o := by
  induction l generalizing r with
  | nil => cases ha
  | cons b l ih =>
    rcases List.mem_cons.1 ha with rfl | ha
    · cases hfree : r (key a) with
      | some o => exact ⟨o, registerAll_taken hfree⟩
      | none =>
        have hnow : register key r a (key a) = some (some a) := by
          rw [register_of_free hfree, Function.update_self]
        rw [registerAll_cons]
        exact ⟨some a, registerAll_taken hnow⟩
    · exact ih ha

/-- An owner has been one before, or is one of the values. -/
theorem registerAll_cases (h : registerAll key r l k = some o) : r k = some o ∨ ∃ a ∈ l, key a = k ∧ o = some a := by
  induction l generalizing r with
  | nil => exact .inl h
  | cons b l ih =>
    rcases ih h with hb | ⟨a, ha, hk⟩
    · cases hfree : r (key b) with
      | some o' => exact .inl (by rwa [register_of_taken hfree] at hb)
      | none =>
        rw [register_of_free hfree] at hb
        by_cases hk : k = key b
        · rw [hk, Function.update_self] at hb
          exact .inr ⟨b, List.mem_cons_self, hk.symm, (Option.some.inj hb).symm⟩
        · exact .inl (by rwa [Function.update_of_ne hk] at hb)
    · exact .inr ⟨a, List.mem_cons_of_mem b ha, hk⟩

/-- All values have their keys exactly if no two of them share one and no other had it before. -/
theorem has_iff : (∀ a ∈ l, Has key (registerAll key r l) a) ↔
    (∀ a ∈ l, ∀ b ∈ l, key a = key b → a = b) ∧ ∀ a ∈ l, ∀ o, r (key a) = some o → o = some a := by
  constructor
  · intro h
    constructor
    · intro a ha b hb hk
      have hab : some (some a) = some (some b) := by rw [← h a ha, ← h b hb, hk]
      exact Option.some.inj (Option.some.inj hab)
    · intro a ha o ho
      have hkept : registerAll key r l (key a) = some o := registerAll_taken ho
      exact Option.some.inj (hkept.symm.trans (h a ha))
  · rintro ⟨hinj, hbefore⟩ a ha
    obtain ⟨o, ho⟩ := registerAll_isSome (r := r) ha
    rw [Has, ho]
    rcases registerAll_cases ho with hr | ⟨b, hb, hk, rfl⟩
    · rw [hbefore a ha o hr]
    · rw [hinj b hb a ha hk]

end Registries

end FirstCome
