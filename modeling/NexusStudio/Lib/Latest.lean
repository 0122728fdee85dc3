import Mathlib.Data.List.Basic

/-!
# The latest items of a list

* (slices) `last n l` is the slice of the last `n` items.
* (recent) `Recent s l`: `s` is an end of `l` that has its latest item, so that no item of `s` is before one that is
  left out. `recent_append_iff` says when an end of the front of a list is one of the whole.
-/

namespace Latest

variable {α β : Type*} {s l a b : List α} {n : ℕ}

/-- `l[-n:]`, which is all of `l` for `n = 0`. -/
def last (n : ℕ) (l : List α) : List α := if n = 0 then l else l.drop (l.length - n)

theorem last_suffix (n : ℕ) (l : List α) : last n l <:+ l := by
  unfold last
  split
  · exact List.suffix_rfl
  · exact List.drop_suffix _ _

theorem drop_filterMap {f : α → Option β} (h : ∀ x ∈ l, (f x).isSome = true) (k : ℕ) :
    (l.filterMap f).drop k = (l.drop k).filterMap f := by
  induction l generalizing k with
  | nil => simp
  | cons x l ih =>
    obtain ⟨y, hy⟩ := Option.isSome_iff_exists.1 (h x List.mem_cons_self)
    rw [List.filterMap_cons_some hy]
    cases k with
    | zero => rw [List.drop_zero, List.drop_zero, List.filterMap_cons_some hy]
    | succ k =>
      rw [List.drop_succ_cons, List.drop_succ_cons]
      exact ih (fun z hz => h z (List.mem_cons_of_mem _ hz)) k

theorem length_filterMap {f : α → Option β} (h : ∀ x ∈ l, (f x).isSome = true) :
    (l.filterMap f).length = l.length := by
  rw [List.length_filterMap_eq_countP, List.countP_eq_length]
  exact h

/-- What a function leaves out may be left out before. -/
theorem filterMap_filter_isSome {f : α → Option β} {p : α → Bool} (h : ∀ x, p x = (f x).isSome) :
    (l.filter p).filterMap f = l.filterMap f := by
  rw [List.filterMap_filter]
  refine List.filterMap_congr fun x _ => ?_
  rw [h x]
  cases f x with
  | none => rfl
  | some y => rfl

/-- The last items that a function makes are made of the last ones that it does not leave out. -/
theorem last_filterMap {f : α → Option β} {p : α → Bool} (h : ∀ x, p x = (f x).isSome) :
    last n (l.filterMap f) = (last n (l.filter p)).filterMap f := by
  have hall : ∀ x ∈ l.filter p, (f x).isSome = true := fun x hx => (h x).symm.trans (List.mem_filter.1 hx).2
  rw [← filterMap_filter_isSome h]
  unfold last
  split
  · rfl
  · rw [length_filterMap hall, drop_filterMap hall]

structure Recent (s l : List α) : Prop where
  suffix : s <:+ l
  latest : l ≠ [] → s ≠ []

/-- The latest item is the same. -/
theorem Recent.getLast?_eq (h : Recent s l) : s.getLast? = l.getLast? := by
  by_cases hl : l = []
  · subst hl
    rw [List.suffix_nil.1 h.suffix]
  · obtain ⟨before, rfl⟩ := h.suffix
    rw [List.getLast?_append_of_ne_nil _ (h.latest hl)]

/-- What ends the front of a list ends the list in its latest item, if there is nothing behind the front. -/
theorem recent_append_iff (hl : (a ++ b).Nodup) (hs : s <:+ a) : Recent s (a ++ b) ↔ a ++ b = [] ∨ b = [] ∧ s ≠ [] := by
  constructor
  · intro h
    by_cases hnil : a ++ b = []
    · exact .inl hnil
    · refine .inr ⟨?_, h.latest hnil⟩
      by_contra hb
      -- the latest item is behind the front, and in it
      have hlast : s.getLast? = b.getLast? := by
        rw [h.getLast?_eq, List.getLast?_append_of_ne_nil _ hb]
      have hb' : b.getLast? = some (b.getLast hb) := List.getLast?_eq_some_getLast hb
      have ha : b.getLast hb ∈ a := hs.subset (List.mem_of_getLast? (hlast.trans hb'))
      exact (List.nodup_append.1 hl).2.2 _ ha _ (List.getLast_mem hb) rfl
  · rintro (hnil | ⟨rfl, hne⟩)
    · obtain ⟨rfl, rfl⟩ := List.append_eq_nil_iff.1 hnil
      exact ⟨hs, fun h => absurd rfl h⟩
    · rw [List.append_nil]
      exact ⟨hs, fun _ => hne⟩

end Latest
