import Mathlib.Data.List.Nodup

/-!
# Lists in which the first one of equal values stays

* (push) `push` appends a value that the list does not have yet; `pushAll` does so for a list of values.
* (once) A list without duplicates stays one, and from nothing the pushed values are `eraseDups` (`nodup_pushAll`,
  `pushAll_nil`).
* (split) Values are pushed piece by piece, and what is pushed behind a list is what it does not have
  (`pushAll_append`, `eraseDups_append_of_nodup`).
-/

namespace KeepFirst

variable {α : Type*} [DecidableEq α] {a : α} {l l' as bs : List α}

/-- `if a not in seen: seen.add(a); target.append(a)` -/
def push (l : List α) (a : α) : List α := if a ∈ l then l else l ++ [a]

/-- The values of a list, one after the other. -/
def pushAll (l as : List α) : List α := as.foldl push l

@[simp] theorem pushAll_cons : pushAll l (a :: as) = pushAll (push l a) as := rfl

theorem pushAll_append : pushAll l (as ++ bs) = pushAll (pushAll l as) bs := List.foldl_append

theorem push_of_mem (h : a ∈ l) : push l a = l := if_pos h

theorem push_of_not_mem (h : a ∉ l) : push l a = l ++ [a] := if_neg h

theorem nodup_push (h : l.Nodup) : (push l a).Nodup := by
  by_cases ha : a ∈ l
  · rwa [push_of_mem ha]
  · rw [push_of_not_mem ha, ← List.concat_eq_append]
    exact h.concat ha

/-- No value is pushed twice. -/
theorem nodup_pushAll (h : l.Nodup) : (pushAll l as).Nodup := by
  induction as generalizing l with
  | nil => exact h
  | cons a as ih => exact ih (nodup_push h)

/-- What is pushed, apart from the list it is pushed to. -/
theorem pushAll_eq : pushAll l as = l ++ (as.filter fun a => a ∉ l).eraseDups := by
  induction as generalizing l with
  | nil => simp [pushAll]
  | cons a as ih =>
    rw [pushAll_cons, ih]
    by_cases ha : a ∈ l
    · rw [push_of_mem ha, List.filter_cons_of_neg (by simpa using ha)]
    · have hrest : (as.filter fun b => b ∉ l ++ [a]) = (as.filter fun b => b ∉ l).filter fun b => !b == a := by
        rw [List.filter_filter]
        refine List.filter_congr fun b _ => ?_
        by_cases hb : b = a <;> simp [hb]
      rw [push_of_not_mem ha, List.filter_cons_of_pos (by simpa using ha), List.eraseDups_cons, hrest,
        List.append_assoc, List.singleton_append]

theorem pushAll_nil : pushAll [] as = as.eraseDups := by
  rw [pushAll_eq, List.nil_append, List.filter_eq_self.2 (by simp)]

theorem nodup_eraseDups : as.eraseDups.Nodup := by
  rw [← pushAll_nil]
  exact nodup_pushAll List.nodup_nil

theorem eraseDups_of_nodup (h : as.Nodup) : as.eraseDups = as := by
  induction as with
  | nil => rfl
  | cons a as ih =>
    obtain ⟨hnot, hrest⟩ := List.nodup_cons.1 h
    have hkept : (as.filter fun b => !b == a) = as := by
      refine List.filter_eq_self.2 fun b hb => ?_
      simpa using fun hba : b = a => hnot (hba ▸ hb)
    rw [List.eraseDups_cons, hkept, ih hrest]

/-- Behind a list without duplicates come the values that it does not have. -/
theorem eraseDups_append_of_nodup (hl : l.Nodup) (has : as.Nodup) :
    (l ++ as).eraseDups = l ++ as.filter fun a => a ∉ l := by
  rw [← pushAll_nil, pushAll_append, pushAll_nil, eraseDups_of_nodup hl, pushAll_eq, eraseDups_of_nodup (has.filter _)]

end KeepFirst
