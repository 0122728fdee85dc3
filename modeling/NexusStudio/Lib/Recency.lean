import Mathlib.Data.List.Nodup
import Mathlib.Data.List.Dedup
import Mathlib.Data.List.Perm.Subperm
import Mathlib.Data.Finset.Card

/-!
# Tables in the order of use

Keys with their entries, the one that was used longest ago first.

* (operations) `use` puts a key at the end, `discard` removes one, `room` drops the first one of a full table, `push`
  makes room for a key that is new.
* (inclusion) `Within`: a part of a larger table that lacks no more than the larger one has room for. All operations keep
  it, whichever of the two tables has the key.
* (age) `Aged k e used l`: behind the entry of `k` there are only keys of `used`; it stays while these are fewer than the
  table has room for. `Follow k used l`: all of them are behind it, so that it is gone when they are not.
-/

set_option linter.unusedSectionVars false

namespace Recency

variable {κ α : Type*} [DecidableEq κ]

/-! ### Operations -/

def find (k : κ) (l : List (κ × α)) : Option α := (l.find? fun e => e.1 = k).map Prod.snd

def discard (k : κ) (l : List (κ × α)) : List (κ × α) := l.filter fun e => e.1 ≠ k

def use (k : κ) (a : α) (l : List (κ × α)) : List (κ × α) := discard k l ++ [(k, a)]

def room (n : ℕ) (l : List (κ × α)) : List (κ × α) := if n ≤ l.length then l.tail else l

def push (n : ℕ) (k : κ) (a : α) (l : List (κ × α)) : List (κ × α) :=
  if (find k l).isSome then use k a l else room n l ++ [(k, a)]

section Operations

variable {k k' : κ} {a b : α} {l : List (κ × α)} {n : ℕ}

theorem find_eq_none : find k l = none ↔ k ∉ l.map Prod.fst := by
  simp only [find, Option.map_eq_none_iff, List.find?_eq_none, decide_eq_true_eq, List.mem_map, not_exists, not_and]

theorem mem_of_find (h : find k l = some a) : (k, a) ∈ l := by
  obtain ⟨⟨k', a'⟩, hfind, rfl⟩ := Option.map_eq_some_iff.1 h
  have hkey := List.find?_some hfind
  obtain rfl : k' = k := of_decide_eq_true hkey
  exact List.mem_of_find?_eq_some hfind

theorem eq_of_mem (hl : (l.map Prod.fst).Nodup) (ha : (k, a) ∈ l) (hb : (k, b) ∈ l) : a = b :=
  (Prod.mk.inj (List.inj_on_of_nodup_map hl ha hb rfl)).2

theorem find_eq_some_iff (hl : (l.map Prod.fst).Nodup) : find k l = some a ↔ (k, a) ∈ l := by
  refine ⟨mem_of_find, fun h => ?_⟩
  cases hfind : find k l with
  | none => exact absurd (List.mem_map_of_mem h) (find_eq_none.1 hfind)
  | some b => rw [eq_of_mem hl h (mem_of_find hfind)]

theorem discard_sublist : (discard k l).Sublist l := List.filter_sublist

theorem mem_discard {e : κ × α} : e ∈ discard k l ↔ e ∈ l ∧ e.1 ≠ k := by
  rw [discard, List.mem_filter, decide_eq_true_eq]

theorem discard_of_not_mem (h : k ∉ l.map Prod.fst) : discard k l = l := by
  refine List.filter_eq_self.2 fun e he => decide_eq_true ?_
  rintro rfl
  exact h (List.mem_map_of_mem he)

/-- The key is in front of the others only once. -/
theorem length_discard (hl : (l.map Prod.fst).Nodup) (h : k ∈ l.map Prod.fst) : (discard k l).length + 1 = l.length := by
  induction l with
  | nil => cases h
  | cons e l ih =>
    obtain ⟨hnot, hrest⟩ := List.nodup_cons.1 hl
    by_cases he : e.1 = k
    · subst he
      rw [discard, List.filter_cons_of_neg (by simp), ← discard, discard_of_not_mem hnot, List.length_cons]
    · have hmem : k ∈ l.map Prod.fst := (List.mem_cons.1 h).resolve_left fun h => he h.symm
      rw [discard, List.filter_cons_of_pos (by simpa using he), ← discard, List.length_cons, ih hrest hmem,
        List.length_cons]

theorem nodup_use (hl : (l.map Prod.fst).Nodup) : ((use k a l).map Prod.fst).Nodup := by
  rw [use, List.map_append, List.map_singleton]
  refine List.nodup_append.2 ⟨hl.sublist (discard_sublist.map _), List.nodup_singleton k, ?_⟩
  rintro x hx y hy rfl
  obtain rfl := List.mem_singleton.1 hy
  obtain ⟨e, he, rfl⟩ := List.mem_map.1 hx
  exact (mem_discard.1 he).2 rfl

theorem room_sublist : (room n l).Sublist l := by
  unfold room
  split
  · exact List.tail_sublist l
  · exact List.Sublist.refl l

theorem length_room : (room n l).length = if n ≤ l.length then l.length - 1 else l.length := by
  unfold room
  split
  · exact List.length_tail
  · rfl

theorem length_room_lt (hn : 0 < n) (hl : l.length ≤ n) : (room n l).length < n := by
  rw [length_room]
  split <;> omega

theorem push_of_mem (h : k ∈ l.map Prod.fst) : push n k a l = use k a l := by
  refine if_pos ?_
  by_contra hnone
  exact find_eq_none.1 (Option.not_isSome_iff_eq_none.1 hnone) h

theorem push_of_not_mem (h : k ∉ l.map Prod.fst) : push n k a l = room n l ++ [(k, a)] := by
  rw [push, find_eq_none.2 h]
  exact if_neg Bool.false_ne_true

/-- What is pushed is used; of the others, the first one of a full table is left out. -/
theorem push_sublist_use : (push n k a l).Sublist (use k a l) := by
  by_cases hk : k ∈ l.map Prod.fst
  · rw [push_of_mem hk]
  · rw [push_of_not_mem hk, use, discard_of_not_mem hk]
    exact room_sublist.append (List.Sublist.refl _)

theorem nodup_push (hl : (l.map Prod.fst).Nodup) : ((push n k a l).map Prod.fst).Nodup :=
  (nodup_use hl).sublist (push_sublist_use.map _)

theorem length_use (hl : (l.map Prod.fst).Nodup) (h : k ∈ l.map Prod.fst) : (use k a l).length = l.length := by
  rw [use, List.length_append, List.length_singleton, length_discard hl h]

theorem length_push_le (hn : 0 < n) (hl : (l.map Prod.fst).Nodup) (hlen : l.length ≤ n) :
    (push n k a l).length ≤ n := by
  by_cases hk : k ∈ l.map Prod.fst
  · rw [push_of_mem hk, length_use hl hk]
    exact hlen
  · rw [push_of_not_mem hk, List.length_append, List.length_singleton]
    exact length_room_lt hn hlen

end Operations

/-! ### Inclusion -/

/-- `l'`, with room for `m`, is a part of `l`, with room for `n`. -/
structure Within (m n : ℕ) (l' l : List (κ × α)) : Prop where
  sublist : l'.Sublist l
  lacks : l.length + m ≤ l'.length + n

namespace Within

variable {k : κ} {a : α} {l l' : List (κ × α)} {m n : ℕ}

theorem filter (h : Within m n l' l) (p : κ × α → Bool) : Within m n (l'.filter p) (l.filter p) := by
  refine ⟨h.sublist.filter p, ?_⟩
  have hpart := l.length_eq_length_filter_add p
  have hpart' := l'.length_eq_length_filter_add p
  have hout := (h.sublist.filter fun e => !p e).length_le
  have hlacks := h.lacks
  omega

theorem nil (h : Within m n l' l) : Within m n ([] : List (κ × α)) [] := by
  have hlacks := h.lacks
  have hle := h.sublist.length_le
  refine ⟨List.Sublist.refl _, ?_⟩
  rw [List.length_nil]
  omega

theorem not_mem (h : Within m n l' l) (hk : k ∉ l.map Prod.fst) : k ∉ l'.map Prod.fst := fun hmem =>
  hk ((h.sublist.map Prod.fst).subset hmem)

/-- Only the larger table has the key that is used. -/
theorem use_right (h : Within m n l' l) (hl : (l.map Prod.fst).Nodup) (hk : k ∈ l.map Prod.fst)
    (hk' : k ∉ l'.map Prod.fst) : Within m n l' (use k a l) := by
  refine ⟨?_, ?_⟩
  · rw [← discard_of_not_mem hk']
    exact (h.sublist.filter _).trans (List.sublist_append_left _ _)
  · rw [length_use hl hk]
    exact h.lacks

theorem use_both (h : Within m n l' l) (hl : (l.map Prod.fst).Nodup) (hk : k ∈ l'.map Prod.fst) :
    Within m n (use k a l') (use k a l) := by
  refine ⟨(h.sublist.filter _).append (List.Sublist.refl _), ?_⟩
  rw [length_use hl ((h.sublist.map Prod.fst).subset hk), length_use (hl.sublist (h.sublist.map _)) hk]
  exact h.lacks

/-- A new key in both tables: a full larger table means a full smaller one, and the first one of both goes. -/
theorem push_new (h : Within m n l' l) (hm : 0 < m) (hlen' : l'.length ≤ m) (hlen : l.length ≤ n) :
    Within m n (room m l' ++ [(k, a)]) (room n l ++ [(k, a)]) := by
  have hlacks := h.lacks
  have hle := h.sublist.length_le
  constructor
  · refine List.Sublist.append ?_ (List.Sublist.refl _)
    by_cases hfull : n ≤ l.length
    · rw [room, room, if_pos hfull, if_pos (by omega)]
      exact h.sublist.tail
    · have hall : room n l = l := if_neg hfull
      rw [hall]
      exact room_sublist.trans h.sublist
  · rw [List.length_append, List.length_append, List.length_singleton, length_room, length_room]
    split_ifs <;> omega

/-- A key that only the larger table has: the smaller one makes room where it is full. -/
theorem push_right (h : Within m n l' l) (hm : 0 < m) (hlen' : l'.length ≤ m) (hl : (l.map Prod.fst).Nodup)
    (hk : k ∈ l.map Prod.fst) (hk' : k ∉ l'.map Prod.fst) : Within m n (room m l' ++ [(k, a)]) (use k a l) := by
  constructor
  · have hsub := h.sublist.filter fun e => e.1 ≠ k
    rw [← discard, ← discard, discard_of_not_mem hk'] at hsub
    exact (room_sublist.trans hsub).append (List.Sublist.refl _)
  · have hlacks := h.lacks
    rw [length_use hl hk, List.length_append, List.length_singleton, length_room]
    split <;> omega

theorem push (h : Within m n l' l) (hm : 0 < m) (hlen' : l'.length ≤ m) (hlen : l.length ≤ n)
    (hl : (l.map Prod.fst).Nodup) : Within m n (Recency.push m k a l') (Recency.push n k a l) := by
  by_cases hk : k ∈ l.map Prod.fst
  · rw [push_of_mem hk]
    by_cases hk' : k ∈ l'.map Prod.fst
    · rw [push_of_mem hk']
      exact h.use_both hl hk'
    · rw [push_of_not_mem hk']
      exact h.push_right hm hlen' hl hk hk'
  · rw [push_of_not_mem hk, push_of_not_mem (h.not_mem hk)]
    exact h.push_new hm hlen' hlen

end Within

/-! ### Age -/

/-- Behind the entry of `k` there are only keys of `used`. -/
def Aged (k : κ) (e : α) (used : Finset κ) (l : List (κ × α)) : Prop :=
  ∃ a b, l = a ++ (k, e) :: b ∧ ∀ x ∈ b, x.1 ∈ used

namespace Aged

variable {k k' : κ} {e a : α} {used used' : Finset κ} {l : List (κ × α)} {n : ℕ}

theorem mem (h : Aged k e used l) : (k, e) ∈ l := by
  obtain ⟨a, b, rfl, -⟩ := h
  exact List.mem_append_right _ List.mem_cons_self

theorem mono (h : Aged k e used l) (hsub : used ⊆ used') : Aged k e used' l := by
  obtain ⟨a, b, hl, hb⟩ := h
  exact ⟨a, b, hl, fun x hx => hsub (hb x hx)⟩

theorem of_use : Aged k e ∅ (use k e l) := ⟨discard k l, [], rfl, nofun⟩

theorem of_push : Aged k e ∅ (push n k e l) := by
  unfold push
  split
  · exact of_use
  · exact ⟨room n l, [], rfl, nofun⟩

theorem filter (h : Aged k e used l) {p : κ × α → Bool} (hp : p (k, e) = true) : Aged k e used (l.filter p) := by
  obtain ⟨a, b, rfl, hb⟩ := h
  refine ⟨a.filter p, b.filter p, ?_, fun x hx => hb x (List.mem_of_mem_filter hx)⟩
  rw [List.filter_append, List.filter_cons_of_pos hp]

theorem append (h : Aged k e used l) (hk : k' ∈ used) : Aged k e used (l ++ [(k', a)]) := by
  obtain ⟨front, b, rfl, hb⟩ := h
  refine ⟨front, b ++ [(k', a)], by rw [List.append_assoc, List.cons_append], fun x hx => ?_⟩
  rcases List.mem_append.1 hx with hx | hx
  · exact hb x hx
  · rw [List.mem_singleton.1 hx]
    exact hk

theorem use (h : Aged k e used l) (hne : k' ≠ k) (hk : k' ∈ used) : Aged k e used (Recency.use k' a l) := by
  have hstays : decide (k ≠ k') = true := decide_eq_true hne.symm
  exact (h.filter hstays).append hk

/-- The keys behind the entry and a new one are among the used ones, so they are fewer than there is room for. -/
theorem room (h : Aged k e used l) (hl : (l.map Prod.fst).Nodup) (hnew : k' ∉ l.map Prod.fst) (hk : k' ∈ used)
    (hfew : used.card < n) : Aged k e used (Recency.room n l) := by
  unfold Recency.room
  split
  case isFalse => exact h
  case isTrue hfull =>
    obtain ⟨front, b, rfl, hb⟩ := h
    cases front with
    | cons x front => exact ⟨front, b, rfl, hb⟩
    | nil =>
      have hkeys : (k' :: b.map Prod.fst).Nodup := by
        refine List.nodup_cons.2 ⟨fun hmem => hnew (List.mem_cons_of_mem _ hmem), ?_⟩
        exact (List.nodup_cons.1 hl).2
      have hsub : (k' :: b.map Prod.fst).toFinset ⊆ used := by
        intro x hx
        rcases List.mem_cons.1 (List.mem_toFinset.1 hx) with rfl | hx
        · exact hk
        · obtain ⟨y, hy, rfl⟩ := List.mem_map.1 hx
          exact hb y hy
      have hcard := Finset.card_le_card hsub
      rw [List.toFinset_card_of_nodup hkeys, List.length_cons, List.length_map] at hcard
      simp only [List.nil_append, List.length_cons] at hfull
      omega

theorem push (h : Aged k e used l) (hl : (l.map Prod.fst).Nodup) (hne : k' ≠ k) (hk : k' ∈ used)
    (hfew : used.card < n) : Aged k e used (Recency.push n k' a l) := by
  by_cases hmem : k' ∈ l.map Prod.fst
  · rw [push_of_mem hmem]
    exact h.use hne hk
  · rw [push_of_not_mem hmem]
    exact (h.room hl hmem hk hfew).append hk

end Aged

/-- All keys of `used` are behind the entry of `k`, where it has one. -/
def Follow (k : κ) (used : Finset κ) (l : List (κ × α)) : Prop :=
  ∀ a e b, l = a ++ (k, e) :: b → ∀ u ∈ used, u ∈ b.map Prod.fst

namespace Follow

variable {k k' : κ} {a : α} {used used' : Finset κ} {l : List (κ × α)} {n : ℕ}

theorem empty : Follow k ∅ l := fun _ _ _ _ u hu => absurd hu (Finset.notMem_empty u)

theorem room (h : Follow k used l) : Follow k used (Recency.room n l) := by
  unfold Recency.room
  split
  case isFalse => exact h
  case isTrue =>
    intro front e b hl u hu
    cases l with
    | nil => exact absurd hl.symm (List.append_ne_nil_of_right_ne_nil _ (List.cons_ne_nil _ _))
    | cons x l => exact h (x :: front) e b (congrArg (x :: ·) hl) u hu

/-- A key of its own comes to the end. -/
theorem append (h : Follow k used l) (hne : k' ≠ k) : Follow k (Insert.insert k' used) (l ++ [(k', a)]) := by
  intro front e b hl u hu
  rcases List.eq_nil_or_concat b with rfl | ⟨b, y, rfl⟩
  · have hlast := List.append_inj_right' hl rfl
    exact absurd (Prod.mk.inj (List.cons.inj hlast).1).1 hne
  · rw [List.concat_eq_append, ← List.cons_append, ← List.append_assoc] at hl
    obtain ⟨hfront, hlast⟩ := List.append_inj' hl rfl
    rw [List.concat_eq_append, List.map_append, List.mem_append]
    rcases Finset.mem_insert.1 hu with rfl | hu
    · refine .inr ?_
      rw [← hlast]
      exact List.mem_singleton_self _
    · exact .inl (h front e b hfront u hu)

theorem anti (h : Follow k used l) (hsub : used' ⊆ used) : Follow k used' l := fun a e b hl u hu => h a e b hl u (hsub hu)

theorem discard (h : Follow k used l) : Follow k (used.erase k') (Recency.discard k' l) := by
  intro front e b hl u hu
  obtain ⟨p, q, rfl, -, hq⟩ := List.filter_eq_append_iff.1 hl
  obtain ⟨q₁, q₂, rfl, -, -, rfl⟩ := List.filter_eq_cons_iff.1 hq
  obtain ⟨hu', hu⟩ := Finset.mem_erase.1 hu
  obtain ⟨x, hx, rfl⟩ := List.mem_map.1 (h (p ++ q₁) e q₂ (List.append_assoc ..).symm u hu)
  exact List.mem_map_of_mem (List.mem_filter.2 ⟨hx, decide_eq_true hu'⟩)

theorem push (h : Follow k used l) (hne : k' ≠ k) : Follow k (Insert.insert k' used) (Recency.push n k' a l) := by
  by_cases hmem : k' ∈ l.map Prod.fst
  · rw [push_of_mem hmem]
    exact (h.discard.append hne).anti (Finset.insert_subset (Finset.mem_insert_self _ _) (Finset.insert_erase_subset _ _))
  · rw [push_of_not_mem hmem]
    exact h.room.append hne

/-- The keys behind an entry have room for one more. -/
theorem card_lt (h : Follow k used l) (hlen : l.length ≤ n) {e : α} (he : (k, e) ∈ l) : used.card < n := by
  obtain ⟨front, b, rfl⟩ := List.append_of_mem he
  have hsub : used ⊆ (b.map Prod.fst).toFinset := fun u hu => List.mem_toFinset.2 (h front e b rfl u hu)
  have hcard := (Finset.card_le_card hsub).trans (List.toFinset_card_le _)
  rw [List.length_map] at hcard
  rw [List.length_append, List.length_cons] at hlen
  omega

end Follow

end Recency
