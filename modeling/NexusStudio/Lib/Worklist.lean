import Mathlib.Data.List.Basic
import Mathlib.Logic.Relation

/-!
# Worklists

The search backwards along the edges of a finite graph, with a stack and the list of what it has seen.

* (termination) A pop takes an element from the stack, and pushes only edges whose target has not been seen before.
* (closure) What is seen in the end is what reaches the start by at least one edge.
-/

namespace Worklists

variable {α : Type*} [DecidableEq α] {E : List (α × α)} {seen stack : List α} {a b : α}

/-- There is an edge from `a` to `b`. -/
def Edge (E : List (α × α)) (a b : α) : Prop := (a, b) ∈ E

/-- Where the edges to `b` come from. -/
def preds (E : List (α × α)) (b : α) : List α := (E.filter fun e => e.2 = b).map Prod.fst

theorem mem_preds : a ∈ preds E b ↔ Edge E a b := by
  simp [preds, Edge]

/-- The edges to `b` leave the ones whose target is not seen. -/
theorem countP_preds (h : b ∉ seen) :
    E.countP (fun e => e.2 ∉ b :: seen) + (preds E b).length = E.countP fun e => e.2 ∉ seen := by
  unfold preds
  induction E with
  | nil => rfl
  | cons e E ih =>
    by_cases he : e.2 = b
    · subst he
      simp [h] at ih ⊢
      omega
    · by_cases hs : e.2 ∈ seen <;> simp [he, hs] at ih ⊢ <;> omega

/-- The search from a stack, its top first. -/
def visit (E : List (α × α)) (seen stack : List α) : List α :=
  match stack with
  | [] => seen
  | b :: stack => if b ∈ seen then visit E seen stack else visit E (b :: seen) ((preds E b).reverse ++ stack)
  termination_by E.countP (fun e => e.2 ∉ seen) + stack.length
  decreasing_by
  · simp
  · rename_i h
    have hc := countP_preds (E := E) h
    simp only [List.length_append, List.length_reverse, List.length_cons]
    omega

/-- Everything that reaches `b` by at least one edge. -/
def above (E : List (α × α)) (b : α) : List α := visit E [] (preds E b).reverse

theorem mem_visit_of_mem (h : a ∈ seen ∨ a ∈ stack) : a ∈ visit E seen stack := by
  induction seen, stack using visit.induct E with
  | case1 seen => simpa [visit] using h
  | case2 seen b stack hb ih =>
    rw [visit, if_pos hb]
    refine ih (h.elim .inl fun h => ?_)
    rcases List.mem_cons.1 h with rfl | h
    · exact .inl hb
    · exact .inr h
  | case3 seen b stack hb ih =>
    rw [visit, if_neg hb]
    refine ih (h.elim (fun h => .inl (List.mem_cons_of_mem _ h)) fun h => ?_)
    rcases List.mem_cons.1 h with rfl | h
    · exact .inl List.mem_cons_self
    · exact .inr (List.mem_append_right _ h)

theorem sound_visit (h : a ∈ visit E seen stack) : a ∈ seen ∨ ∃ b ∈ stack, Relation.ReflTransGen (Edge E) a b := by
  induction seen, stack using visit.induct E with
  | case1 seen => exact .inl (by simpa [visit] using h)
  | case2 seen b stack hb ih =>
    rw [visit, if_pos hb] at h
    exact (ih h).imp_right fun ⟨c, hc, hr⟩ => ⟨c, List.mem_cons_of_mem _ hc, hr⟩
  | case3 seen b stack hb ih =>
    rw [visit, if_neg hb] at h
    rcases ih h with h | ⟨c, hc, hr⟩
    · rcases List.mem_cons.1 h with rfl | h
      · exact .inr ⟨a, List.mem_cons_self, .refl⟩
      · exact .inl h
    · rcases List.mem_append.1 hc with hc | hc
      · exact .inr ⟨b, List.mem_cons_self, hr.tail (mem_preds.1 (List.mem_reverse.1 hc))⟩
      · exact .inr ⟨c, List.mem_cons_of_mem _ hc, hr⟩

/-- What is seen keeps its edges among what is seen and what is on the stack. -/
theorem closed_visit (h : ∀ b ∈ seen, ∀ a, Edge E a b → a ∈ seen ∨ a ∈ stack) :
    ∀ b ∈ visit E seen stack, ∀ a, Edge E a b → a ∈ visit E seen stack := by
  induction seen, stack using visit.induct E with
  | case1 seen =>
    intro b hb a ha
    rw [visit] at hb ⊢
    exact (h b hb a ha).resolve_right List.not_mem_nil
  | case2 seen c stack hc ih =>
    rw [visit, if_pos hc]
    refine ih fun b hb a ha => (h b hb a ha).elim .inl fun ha => ?_
    rcases List.mem_cons.1 ha with rfl | ha
    · exact .inl hc
    · exact .inr ha
  | case3 seen c stack hc ih =>
    rw [visit, if_neg hc]
    refine ih fun b hb a ha => ?_
    rcases List.mem_cons.1 hb with rfl | hb
    · exact .inr (List.mem_append_left _ (List.mem_reverse.2 (mem_preds.2 ha)))
    · rcases h b hb a ha with ha | ha
      · exact .inl (List.mem_cons_of_mem _ ha)
      · rcases List.mem_cons.1 ha with rfl | ha
        · exact .inl List.mem_cons_self
        · exact .inr (List.mem_append_right _ ha)

theorem mem_above_iff : a ∈ above E b ↔ Relation.TransGen (Edge E) a b := by
  constructor
  · intro h
    obtain ⟨c, hc, hr⟩ := (sound_visit h).resolve_left List.not_mem_nil
    exact .tail' hr (mem_preds.1 (List.mem_reverse.1 hc))
  · intro h
    have hclosed := @closed_visit _ _ E [] (preds E b).reverse nofun
    induction h using Relation.TransGen.head_induction_on with
    | single h => exact mem_visit_of_mem (.inr (List.mem_reverse.2 (mem_preds.2 h)))
    | head h _ ih => exact hclosed _ ih _ h

instance (E : List (α × α)) (a b : α) : Decidable (Relation.TransGen (Edge E) a b) :=
  decidable_of_iff (a ∈ above E b) mem_above_iff

end Worklists
