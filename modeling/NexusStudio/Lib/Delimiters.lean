import Mathlib

/-!
# Lists divided at delimiters

* (table) The delimiters of each mode, with the modes that they lead to.
* (division) `divide` drops the delimiters of a list and gives each other element the mode that it stands in.
* (cuts) Where no delimiter of a mode occurs inside of another one before its end, the first delimiter stays the first
  one when the list goes on (`found_append`), and without a delimiter all but the longest start of one at the end of the
  list keeps its mode (`quiet_append`).
-/

namespace Delimiters

variable {α μ : Type*} [DecidableEq α]

abbrev Table (α μ : Type*) := μ → List (List α × μ)

/-- The delimiter at the start of a list. -/
def found (tags : List (List α × μ)) (l : List α) : Option (List α × μ) := tags.find? fun t => t.1.isPrefixOf l

/-- The elements of a list with their modes; the number is how many elements of a delimiter are left to drop. -/
def divide (T : Table α μ) : μ → Nat → List α → List (μ × α)
  | _, _, [] => []
  | m, k + 1, _ :: l => divide T m k l
  | m, 0, c :: l =>
    match found (T m) (c :: l) with
    | some t => divide T t.2 (t.1.length - 1) l
    | none => (m, c) :: divide T m 0 l

/-- No delimiter is empty, and none occurs in another one before its end. -/
structure Separate (tags : List (List α × μ)) : Prop where
  nonempty : ∀ t ∈ tags, t.1 ≠ []
  infix_free : ∀ t ∈ tags, ∀ u ∈ tags, ¬ t.1 <:+: u.1.dropLast

/-- No delimiter starts in the first `k` places. -/
def Quiet (tags : List (List α × μ)) (l : List α) (k : Nat) : Prop := ∀ j < k, found tags (l.drop j) = none

section Division

variable {T : Table α μ} {m : μ} {l : List α} {t : List α × μ} {k : Nat}

theorem found_eq_none {tags : List (List α × μ)} : found tags l = none ↔ ∀ t ∈ tags, ¬ t.1 <+: l := by
  simp only [found, List.find?_eq_none, List.isPrefixOf_iff_prefix]

theorem found_start {tags : List (List α × μ)} (h : found tags l = some t) : t ∈ tags ∧ t.1 <+: l := by
  obtain ⟨hstart, before, after, rfl, _⟩ := List.find?_eq_some_iff_append.1 h
  exact ⟨List.mem_append_right _ List.mem_cons_self, List.isPrefixOf_iff_prefix.1 hstart⟩

theorem divide_skip (T : Table α μ) (m : μ) (k : Nat) (l : List α) : divide T m k l = divide T m 0 (l.drop k) := by
  induction k generalizing l with
  | zero => rfl
  | succ k ih =>
    cases l with
    | nil => rfl
    | cons c l => exact ih l

/-- A delimiter is dropped. -/
theorem divide_found (hne : t.1 ≠ []) (h : found (T m) l = some t) :
    divide T m 0 l = divide T t.2 0 (l.drop t.1.length) := by
  cases l with
  | nil => exact absurd (List.prefix_nil.1 (found_start h).2) hne
  | cons c l =>
    obtain ⟨d, tag, htag⟩ := List.exists_cons_of_ne_nil hne
    rw [divide, h]
    simp only
    rw [divide_skip, htag, List.length_cons, Nat.add_sub_cancel, List.drop_succ_cons]

/-- The elements before the first delimiter keep the mode. -/
theorem divide_quiet (h : Quiet (T m) l k) :
    divide T m 0 l = (l.take k).map (fun c => (m, c)) ++ divide T m 0 (l.drop k) := by
  induction k generalizing l with
  | zero => rfl
  | succ k ih =>
    cases l with
    | nil => rfl
    | cons c l =>
      have hfirst : found (T m) (c :: l) = none := h 0 (Nat.succ_pos k)
      have hrest : Quiet (T m) l k := fun j hj => h (j + 1) (Nat.succ_lt_succ hj)
      rw [divide, hfirst, List.take_succ_cons, List.map_cons, List.drop_succ_cons, List.cons_append, ← ih hrest]

end Division

omit [DecidableEq α] in
/-- Delimiters that are all the same one. -/
theorem separate_of_eq {tags : List (List α × μ)} {tag : List α} (htag : tag ≠ []) (h : ∀ t ∈ tags, t.1 = tag) :
    Separate tags := by
  refine ⟨fun t ht => h t ht ▸ htag, fun t ht u hu hinfix => ?_⟩
  rw [h t ht, h u hu] at hinfix
  have hle := hinfix.length_le
  have hpos := List.length_pos_iff.2 htag
  rw [List.length_dropLast] at hle
  omega

section Cuts

variable {tags : List (List α × μ)} {l : List α} {t : List α × μ} {i : Nat}

omit [DecidableEq α] in
/-- What starts in a list and goes on beyond its end. -/
theorem covers {u l r : List α} (h : u <+: l ++ r) (hl : ¬ u <+: l) : l <+: u.dropLast ∧ l.length < u.length := by
  have hstart : l <+: u := (List.prefix_or_prefix_of_prefix h (List.prefix_append l r)).resolve_left hl
  have hlt : l.length < u.length := by
    refine Nat.lt_of_le_of_ne hstart.length_le fun he => hl ?_
    rw [hstart.eq_of_length he]
  refine ⟨List.prefix_of_prefix_length_le hstart (List.dropLast_prefix u) ?_, hlt⟩
  rw [List.length_dropLast]
  omega

/-- A list that starts with a delimiter starts with it when it goes on. -/
theorem found_append (hsep : Separate tags) (h : found tags l = some t) (r : List α) :
    found tags (l ++ r) = some t := by
  obtain ⟨hmem, hstart⟩ := found_start h
  obtain ⟨_, before, after, htags, hbefore⟩ := List.find?_eq_some_iff_append.1 h
  have hfirst : t.1.isPrefixOf (l ++ r) = true :=
    List.isPrefixOf_iff_prefix.2 (hstart.trans (List.prefix_append l r))
  refine List.find?_eq_some_iff_append.2 ⟨hfirst, before, after, htags, fun u hu => ?_⟩
  have hu' : ¬ u.1 <+: l := by
    intro hpre
    have hnot := hbefore u hu
    rw [List.isPrefixOf_iff_prefix.2 hpre] at hnot
    cases hnot
  rw [Bool.not_eq_true', Bool.eq_false_iff, ne_eq, List.isPrefixOf_iff_prefix]
  intro hpre
  have humem : u ∈ tags := htags ▸ List.mem_append_left _ hu
  exact hsep.infix_free t hmem u humem (hstart.trans (covers hpre hu').1).isInfix

theorem le_of_found (hsep : Separate tags) (h : found tags (l.drop i) = some t) : i ≤ l.length := by
  obtain ⟨hmem, hstart⟩ := found_start h
  by_contra hlt
  rw [List.drop_eq_nil_of_le (by omega)] at hstart
  exact hsep.nonempty t hmem (List.prefix_nil.1 hstart)

/-- The first delimiter of a list stays the first one when the list goes on. -/
theorem quiet_of_found (hsep : Separate tags) (hquiet : Quiet tags l i) (h : found tags (l.drop i) = some t)
    (r : List α) : Quiet tags (l ++ r) i := by
  obtain ⟨hmem, hstart⟩ := found_start h
  have hi := le_of_found hsep h
  intro j hj
  rw [List.drop_append_of_le_length (by omega), found_eq_none]
  intro u hu hpre
  have hcover := (covers hpre (found_eq_none.1 (hquiet j hj) u hu)).1
  have hsuffix : l.drop i <:+ l.drop j := by
    rw [← Nat.add_sub_cancel' (Nat.le_of_lt hj), ← List.drop_drop]
    exact List.drop_suffix _ _
  exact hsep.infix_free t hmem u hu ((hstart.isInfix.trans hsuffix.isInfix).trans hcover.isInfix)

/-- Without a delimiter, the places before the starts of delimiters at the end of the list are free of them. -/
theorem quiet_of_held (hquiet : ∀ j, found tags (l.drop j) = none)
    (hheld : ∀ j < i, ∀ t ∈ tags, (l.drop j).length < t.1.length → ¬ l.drop j <+: t.1) (hi : i ≤ l.length)
    (r : List α) : Quiet tags (l ++ r) i := by
  intro j hj
  rw [List.drop_append_of_le_length (by omega), found_eq_none]
  intro u hu hpre
  obtain ⟨hcover, hlt⟩ := covers hpre (found_eq_none.1 (hquiet j) u hu)
  exact hheld j hj u hu hlt (hcover.trans (List.dropLast_prefix _))

end Cuts

end Delimiters
