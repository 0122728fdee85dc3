import Mathlib.Data.List.Basic

/-!
# Independence by unwinding

Two parties share one store. What the first party gets is independent of the second if it is the same whatever the
second does in between.

* (system) `Shared` says what a call of each party does; `results` runs an interleaving of their calls.
* (unwinding) A relation on stores that the calls of the first party respect and those of the second are absorbed by
  makes the first independent of the second.
-/

namespace Concurrent

/-- What the calls of two parties do to a store, with what the first party gets. -/
structure Shared (σ α β ω : Type*) where
  mine : α → σ → ω × σ
  theirs : β → σ → σ

namespace Shared

variable {σ α β ω : Type*} {S : Shared σ α β ω} {I : σ → Prop} {R : σ → σ → Prop} {s t : σ}

/-- What the first party gets in an interleaving. -/
def results (S : Shared σ α β ω) : σ → List (α ⊕ β) → List ω
  | _, [] => []
  | s, .inl a :: l => (S.mine a s).1 :: results S (S.mine a s).2 l
  | s, .inr b :: l => results S (S.theirs b s) l

/-- What the first party gets on its own. -/
def alone (S : Shared σ α β ω) : σ → List α → List ω
  | _, [] => []
  | s, a :: l => (S.mine a s).1 :: alone S (S.mine a s).2 l

/-- The calls of the first party. -/
def calls (l : List (α ⊕ β)) : List α := l.filterMap Sum.getLeft?

/-- From the stores with `I`, the first party gets the same in all interleavings of the same calls of its own. -/
def Independent (S : Shared σ α β ω) (I : σ → Prop) : Prop :=
  ∀ s, I s → ∀ l₁ l₂, calls l₁ = calls l₂ → S.results s l₁ = S.results s l₂

/-- The stores that are related look the same to the first party, and stay so whatever the second does. -/
structure Unwinding (S : Shared σ α β ω) (I : σ → Prop) (R : σ → σ → Prop) : Prop where
  init : ∀ s, I s → R s s
  respects : ∀ {s t}, R s t → ∀ a, (S.mine a s).1 = (S.mine a t).1 ∧ R (S.mine a s).2 (S.mine a t).2
  absorbs : ∀ {s t}, R s t → ∀ b, R (S.theirs b s) t

theorem Unwinding.results_eq (h : Unwinding S I R) (l : List (α ⊕ β)) (hR : R s t) :
    S.results s l = S.alone t (calls l) := by
  induction l generalizing s t with
  | nil => rfl
  | cons c l ih =>
    cases c with
    | inl a =>
      obtain ⟨hout, hnext⟩ := h.respects hR a
      have ih' := ih hnext
      rw [results, hout, ih']
      rfl
    | inr b =>
      have ih' := ih (h.absorbs hR b)
      rw [results, ih']
      rfl

theorem Unwinding.independent (h : Unwinding S I R) : S.Independent I := by
  intro s hs l₁ l₂ hl
  rw [h.results_eq l₁ (h.init s hs), h.results_eq l₂ (h.init s hs), hl]

end Shared

end Concurrent
