import Mathlib.Algebra.BigOperators.Group.List.Basic
import Mathlib.Data.List.Nodup
import Mathlib.Data.List.Perm.Subperm
import Mathlib.Data.List.Dedup
import Mathlib.Data.Finset.Basic

/-!
# Tables in which the last value of a key stays

* (table) `put` overwrites the value of a key in its place; `table` puts the values of a list under their keys.
* (total) The sum of a weight over the table: putting a value replaces the weight of its key (`total_put`).
* (order) The total is the same for every order of the list exactly if values of one key weigh the same, and then it is
  the same for all lists of these values (`agree_iff_perm`, `total_of_agree`).
-/

namespace LastWins

variable {κ α M : Type*} [DecidableEq κ]

/-- `table[k] = a` -/
def put (k : κ) (a : α) : List (κ × α) → List (κ × α)
  | [] => [(k, a)]
  | e :: t => if e.1 = k then (k, a) :: t else e :: put k a t

/-- The table of a list, value after value. -/
def table (key : α → κ) (l : List α) : List (κ × α) := l.foldl (fun t a => put (key a) a t) []

/-- The sum of the weights of the values. -/
def total [AddMonoid M] (weight : α → M) (t : List (κ × α)) : M := (t.map fun e => weight e.2).sum

section Tables

variable {k : κ} {a b : α} {t : List (κ × α)} {key : α → κ} {l : List α}

theorem mem_keys_put {k' : κ} : k' ∈ (put k a t).map Prod.fst ↔ k' = k ∨ k' ∈ t.map Prod.fst := by
  induction t with
  | nil => simp [put]
  | cons e t ih =>
    rw [put]
    split
    case isTrue h => simp [← h]
    case isFalse => rw [List.map_cons, List.map_cons, List.mem_cons, List.mem_cons, ih, or_left_comm]

theorem nodup_put (h : (t.map Prod.fst).Nodup) : ((put k a t).map Prod.fst).Nodup := by
  induction t with
  | nil => exact List.nodup_singleton k
  | cons e t ih =>
    obtain ⟨hnot, hrest⟩ := List.nodup_cons.1 h
    rw [put]
    split
    case isTrue he => exact List.nodup_cons.2 ⟨he ▸ hnot, hrest⟩
    case isFalse he =>
      refine List.nodup_cons.2 ⟨fun hmem => ?_, ih hrest⟩
      exact (mem_keys_put.1 hmem).elim he hnot

/-- The values of the other keys stay. -/
theorem filter_put : (put k a t).filter (fun e => e.1 ≠ k) = t.filter fun e => e.1 ≠ k := by
  induction t with
  | nil => simp [put]
  | cons e t ih =>
    rw [put]
    split
    case isTrue he => simp [he]
    case isFalse he =>
      simp only [List.filter_cons, ne_eq, he, not_false_eq_true, decide_true, if_true] at ih ⊢
      rw [ih]

/-- A value of another key is put past a key that is taken out. -/
theorem filter_put_of_ne {k' : κ} (h : k' ≠ k) :
    (put k' a t).filter (fun e => e.1 ≠ k) = put k' a (t.filter fun e => e.1 ≠ k) := by
  induction t with
  | nil => simp [put, h]
  | cons e t ih =>
    by_cases he : e.1 = k'
    · simp [put, he, h]
    · by_cases hk : e.1 = k
      · simp only [put, List.filter_cons, ne_eq, hk, Ne.symm h, not_true_eq_false, decide_false, Bool.false_eq_true,
          if_false] at ih ⊢
        exact ih
      · simp only [put, if_neg he, List.filter_cons, ne_eq, hk, not_false_eq_true, decide_true, if_true] at ih ⊢
        rw [ih]

theorem mem_put {e : κ × α} (h : e ∈ put k a t) : e = (k, a) ∨ e ∈ t := by
  induction t with
  | nil => exact .inl (List.mem_singleton.1 h)
  | cons e' t ih =>
    rw [put] at h
    split at h
    case isTrue => exact (List.mem_cons.1 h).imp id (List.mem_cons_of_mem e')
    case isFalse =>
      rcases List.mem_cons.1 h with rfl | h
      · exact .inr List.mem_cons_self
      · exact (ih h).imp id (List.mem_cons_of_mem e')

/-- What a table says of a key after a value is put. -/
theorem lookup_put (k k' : κ) (a : α) (t : List (κ × α)) :
    (put k a t).lookup k' = if k' = k then some a else t.lookup k' := by
  induction t with
  | nil => by_cases h : k' = k <;> simp [put, h]
  | cons e t ih =>
    obtain ⟨k₀, b⟩ := e
    have hskip : k' ≠ k₀ → ∀ (c : α) (t : List (κ × α)), List.lookup k' ((k₀, c) :: t) = List.lookup k' t := by
      intro h c t
      rw [List.lookup_cons, beq_false_of_ne h]
    rw [put]
    by_cases he : k₀ = k
    · subst he
      by_cases h : k' = k₀
      · simp [h]
      · simp [h, hskip h]
    · by_cases h : k' = k₀
      · subst h
        simp [he]
      · simp [he, ih, hskip h]

theorem table_append_singleton (key : α → κ) (l : List α) (a : α) :
    table key (l ++ [a]) = put (key a) a (table key l) := by
  rw [table, List.foldl_append]
  rfl

theorem filter_table (key : α → κ) (k : κ) (l : List α) :
    (table key l).filter (fun e => e.1 ≠ k) = table key (l.filter fun a => key a ≠ k) := by
  induction l using List.reverseRecOn with
  | nil => rfl
  | append_singleton l a ih =>
    rw [table_append_singleton, List.filter_append]
    by_cases hk : key a = k
    · have hnone : [a].filter (fun a => decide (key a ≠ k)) = [] := by simp [hk]
      rw [hnone, List.append_nil, ← ih, ← hk, filter_put]
    · have hone : [a].filter (fun a => decide (key a ≠ k)) = [a] := by simp [hk]
      rw [hone, table_append_singleton, filter_put_of_ne hk, ih]

theorem nodup_table (key : α → κ) (l : List α) : ((table key l).map Prod.fst).Nodup := by
  induction l using List.reverseRecOn with
  | nil => exact List.nodup_nil
  | append_singleton l a ih =>
    rw [table_append_singleton]
    exact nodup_put ih

theorem mem_keys_table {k' : κ} : k' ∈ (table key l).map Prod.fst ↔ ∃ a ∈ l, key a = k' := by
  induction l using List.reverseRecOn with
  | nil => exact ⟨nofun, nofun⟩
  | append_singleton l a ih =>
    rw [table_append_singleton, mem_keys_put, ih]
    constructor
    · rintro (rfl | ⟨b, hb, hk⟩)
      · exact ⟨a, List.mem_append_right l (List.mem_singleton_self a), rfl⟩
      · exact ⟨b, List.mem_append_left [a] hb, hk⟩
    · rintro ⟨b, hb, hk⟩
      rcases List.mem_append.1 hb with hb | hb
      · exact .inr ⟨b, hb, hk⟩
      · exact .inl (List.mem_singleton.1 hb ▸ hk.symm)

/-- The values of a table are those of the list, under their keys. -/
theorem mem_table {e : κ × α} (h : e ∈ table key l) : e.2 ∈ l ∧ key e.2 = e.1 := by
  induction l using List.reverseRecOn with
  | nil => cases h
  | append_singleton l a ih =>
    rw [table_append_singleton] at h
    rcases mem_put h with rfl | h
    · exact ⟨List.mem_append_right l (List.mem_singleton_self a), rfl⟩
    · exact ⟨List.mem_append_left [a] (ih h).1, (ih h).2⟩

end Tables

section Totals

variable [AddCommMonoid M] {weight : α → M} {k : κ} {a b : α} {t : List (κ × α)} {key : α → κ} {l l' : List α}

/-- A value that is put takes the place of the one of its key. -/
theorem total_put (h : (t.map Prod.fst).Nodup) :
    total weight (put k a t) = weight a + total weight (t.filter fun e => e.1 ≠ k) := by
  induction t with
  | nil => simp [put, total]
  | cons e t ih =>
    obtain ⟨hnot, hrest⟩ := List.nodup_cons.1 h
    rw [put]
    split
    case isTrue he =>
      have hall : t.filter (fun e => e.1 ≠ k) = t :=
        List.filter_eq_self.2 fun e' he' => decide_eq_true fun hk => hnot (he ▸ hk ▸ List.mem_map_of_mem he')
      rw [List.filter_cons_of_neg (by simp [he]), hall, total, List.map_cons, List.sum_cons]
      rfl
    case isFalse he =>
      have ih := ih hrest
      simp only [List.filter_cons, ne_eq, he, not_false_eq_true, decide_true, if_true, total, List.map_cons,
        List.sum_cons] at ih ⊢
      rw [ih, add_left_comm]

/-- The last value of a list counts, with those of the other keys. -/
theorem total_append_singleton (key : α → κ) (weight : α → M) (l : List α) (a : α) :
    total weight (table key (l ++ [a])) = weight a + total weight (table key (l.filter fun b => key b ≠ key a)) := by
  rw [table_append_singleton, total_put (nodup_table key l), filter_table]

/-- Values of one key weigh the same. -/
def Agree (key : α → κ) (weight : α → M) (l : List α) : Prop :=
  ∀ a ∈ l, ∀ b ∈ l, key a = key b → weight a = weight b

/-- Where values of one key weigh the same, lists of the same values have the same total. -/
theorem total_of_agree (h : Agree key weight l) (hl : ∀ a, a ∈ l' ↔ a ∈ l) :
    total weight (table key l') = total weight (table key l) := by
  classical
  let price : κ → M := fun k => ((l.find? fun a => key a = k).map weight).getD 0
  have hprice : ∀ a ∈ l, price (key a) = weight a := by
    intro a ha
    have hsome : (l.find? fun b => key b = key a).isSome := List.find?_isSome.2 ⟨a, ha, decide_eq_true rfl⟩
    obtain ⟨b, hb⟩ := Option.isSome_iff_exists.1 hsome
    have hkey : key b = key a := of_decide_eq_true (List.find?_some hb :)
    simp only [price, hb, Option.map_some, Option.getD_some]
    exact h b (List.mem_of_find?_eq_some hb) a ha hkey
  have htotal : ∀ l'' : List α, (∀ a, a ∈ l'' ↔ a ∈ l) →
      total weight (table key l'') = (((table key l'').map Prod.fst).map price).sum := by
    intro l'' hl''
    rw [total, List.map_map]
    refine congrArg List.sum (List.map_congr_left fun e he => ?_)
    obtain ⟨hmem, hkey⟩ := mem_table he
    rw [Function.comp_apply, ← hkey]
    exact (hprice e.2 ((hl'' e.2).1 hmem)).symm
  have hkeys : ((table key l').map Prod.fst).Perm ((table key l).map Prod.fst) := by
    refine (List.perm_ext_iff_of_nodup (nodup_table key l') (nodup_table key l)).2 fun k => ?_
    rw [mem_keys_table, mem_keys_table]
    exact exists_congr fun a => and_congr_left fun _ => hl a
  rw [htotal l' hl, htotal l fun _ => Iff.rfl]
  exact (hkeys.map price).sum_eq

/-- If every order of the list has the same total, then values of one key weigh the same. -/
theorem agree_of_perm [IsRightCancelAdd M]
    (h : ∀ l', l'.Perm l → total weight (table key l') = total weight (table key l)) : Agree key weight l := by
  classical
  intro a ha b hb hkey
  by_cases hab : a = b
  · rw [hab]
  -- the two values at the end, in both orders
  have hbmem : b ∈ l.erase a := (List.mem_erase_of_ne (Ne.symm hab)).2 hb
  let rest := (l.erase a).erase b
  have hperm : (rest ++ [a] ++ [b]).Perm l := by
    have hsplit : (a :: b :: rest).Perm l :=
      ((List.perm_cons_erase hbmem).symm.cons a).trans (List.perm_cons_erase ha).symm
    refine List.Perm.trans ?_ hsplit
    rw [List.append_assoc]
    exact List.perm_append_comm
  have hperm' : (rest ++ [b] ++ [a]).Perm l := by
    refine List.Perm.trans ?_ hperm
    rw [List.append_assoc, List.append_assoc]
    exact (List.Perm.swap a b []).append_left rest
  have hlast : ∀ c d, key c = key d → total weight (table key (rest ++ [c] ++ [d])) =
      weight d + total weight ((table key rest).filter fun e => e.1 ≠ key d) := by
    intro c d hcd
    rw [table_append_singleton, total_put (nodup_table key _), table_append_singleton, hcd, filter_put]
  have heq := (h _ hperm').trans (h _ hperm).symm
  rw [hlast b a hkey.symm, hlast a b hkey, hkey] at heq
  exact add_right_cancel heq

theorem agree_iff_perm [IsRightCancelAdd M] :
    Agree key weight l ↔ ∀ l', l'.Perm l → total weight (table key l') = total weight (table key l) :=
  ⟨fun h _ hl => total_of_agree h fun _ => hl.mem_iff, agree_of_perm⟩

end Totals

end LastWins
