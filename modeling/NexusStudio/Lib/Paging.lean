import Mathlib.Data.List.Sort
import Mathlib.Order.Basic

/-!
# Paging with cursors

A reader asks for a page, and then for the page at the cursor that it got, until there is none. What is listed may
change between the reads.

* (walks) `Walk`: the pages of the reads from a cursor. There is one walk at most, and one where the cursors descend.
* (rest) `Walk.flatten_eq`: if each page is the front of what is left at its cursor, the pages make up all of it;
  `Walk.flatten_reverse_eq` is for pages that come from the end.
* (keys) `seek`: a page of the rows behind a key in descending order, with one row of look-ahead.
* (growth) `Walk.of_growing`: rows that are added between the reads hide no other row and repeat none.
-/

namespace Paging

/-- A page, with the cursor of the next one if there is one. -/
structure Page (α κ : Type*) where
  rows : List α
  next : Option κ

variable {α κ : Type*} {read : ℕ → Option κ → Page α κ} {i : ℕ} {c : Option κ} {ps qs : List (List α)}

/-- The pages that a reader gets from the `i`-th read on, which is at the cursor `c`. -/
inductive Walk (read : ℕ → Option κ → Page α κ) : ℕ → Option κ → List (List α) → Prop
  | last {i : ℕ} {c : Option κ} (h : (read i c).next = none) : Walk read i c [(read i c).rows]
  | more {i : ℕ} {c : Option κ} {k : κ} {ps : List (List α)} (h : (read i c).next = some k)
      (hw : Walk read (i + 1) (some k) ps) : Walk read i c ((read i c).rows :: ps)

theorem Walk.unique (h : Walk read i c ps) (h' : Walk read i c qs) : ps = qs := by
  induction h generalizing qs with
  | last hnone =>
    cases h' with
    | last => rfl
    | more hsome => cases hnone.symm.trans hsome
  | more hsome hw ih =>
    cases h' with
    | last hnone => cases hnone.symm.trans hsome
    | more hsome' hw' =>
      cases hsome.symm.trans hsome'
      rw [ih hw']

/-- Cursors that go down end a walk. -/
theorem Walk.exists_of_measure {G : Option κ → Prop} (m : Option κ → ℕ)
    (h : ∀ i c k, G c → (read i c).next = some k → G (some k) ∧ m (some k) < m c) (i : ℕ) (hc : G c) :
    ∃ ps, Walk read i c ps := by
  induction hm : m c using Nat.strong_induction_on generalizing i c with
  | _ n ih =>
    cases hnext : (read i c).next with
    | none => exact ⟨_, .last hnext⟩
    | some k =>
      obtain ⟨hk, hlt⟩ := h i c k hc hnext
      obtain ⟨ps, hw⟩ := ih (m (some k)) (hm ▸ hlt) (i + 1) hk rfl
      exact ⟨_, .more hnext hw⟩

/-- If every page is the front of what is left at its cursor, and the last one all of it, nothing is left out and
nothing repeated. -/
theorem Walk.flatten_eq {G : Option κ → Prop} (rest : Option κ → List α)
    (hlast : ∀ i c, G c → (read i c).next = none → (read i c).rows = rest c)
    (hmore : ∀ i c k, G c → (read i c).next = some k → G (some k) ∧ rest c = (read i c).rows ++ rest (some k))
    (h : Walk read i c ps) (hc : G c) : ps.flatten = rest c := by
  induction h with
  | last hnone =>
    rw [List.flatten_singleton]
    exact hlast _ _ hc hnone
  | more hsome hw ih =>
    obtain ⟨hk, hrest⟩ := hmore _ _ _ hc hsome
    rw [List.flatten_cons, ih hk, hrest]

/-- The same for pages that come from the end. -/
theorem Walk.flatten_reverse_eq {G : Option κ → Prop} (rest : Option κ → List α)
    (hlast : ∀ i c, G c → (read i c).next = none → (read i c).rows = rest c)
    (hmore : ∀ i c k, G c → (read i c).next = some k → G (some k) ∧ rest c = rest (some k) ++ (read i c).rows)
    (h : Walk read i c ps) (hc : G c) : ps.reverse.flatten = rest c := by
  induction h with
  | last hnone =>
    rw [List.reverse_singleton, List.flatten_singleton]
    exact hlast _ _ hc hnone
  | more hsome hw ih =>
    obtain ⟨hk, hrest⟩ := hmore _ _ _ hc hsome
    rw [List.reverse_cons, List.flatten_append, List.flatten_singleton, ih hk, hrest]

/-! ### Keys -/

section Keys

variable [LinearOrder κ] (key : α → κ)

/-- The row comes after the cursor in descending order. -/
def After (c : Option κ) (a : α) : Prop := ∀ k ∈ c, key a < k

instance (c : Option κ) (a : α) : Decidable (After key c a) := inferInstanceAs (Decidable (∀ k ∈ c, _))

/-- Strictly descending keys. -/
def Descending (l : List α) : Prop := l.Pairwise fun a b => key b < key a

/-- The rows from the highest key to the lowest. -/
def ordered (l : List α) : List α := l.insertionSort fun a b => key b ≤ key a

/-- A page of at most `n` rows after the cursor; a cursor follows when there is a row more. -/
def seek (n : ℕ) (l : List α) (c : Option κ) : Page α κ :=
  let found := (l.filter fun a => After key c a).take (n + 1)
  ⟨found.take n, if n < found.length then (found.take n).getLast?.map key else none⟩

variable {key} {n : ℕ} {l : List α} {k : κ}

theorem after_none (a : α) : After key none a := nofun

theorem after_some {a : α} : After key (some k) a ↔ key a < k := by simp [After]

theorem Descending.filter (h : Descending key l) (p : α → Bool) : Descending key (l.filter p) :=
  List.Pairwise.filter p h

theorem Descending.nodup (h : Descending key l) : l.Nodup :=
  List.Pairwise.imp (fun hlt heq => absurd (heq ▸ hlt) (lt_irrefl _)) h

theorem mem_ordered {a : α} : a ∈ ordered key l ↔ a ∈ l := List.mem_insertionSort _

theorem descending_ordered (h : (l.map key).Nodup) : Descending key (ordered key l) := by
  have hsorted : (ordered key l).Pairwise fun a b => key b ≤ key a :=
    List.pairwise_insertionSort (fun a b => key b ≤ key a) l
  have hne : (ordered key l).Pairwise fun a b => key a ≠ key b := by
    rw [← List.pairwise_map]
    exact ((List.perm_insertionSort _ l).map key).nodup_iff.2 h
  exact (hsorted.and hne).imp fun hab => lt_of_le_of_ne hab.1 hab.2.symm

/-- Rows may be selected before or after they are put in order. -/
theorem filter_ordered (h : (l.map key).Nodup) (p : α → Bool) : (ordered key l).filter p = ordered key (l.filter p) := by
  have hp : ((l.filter p).map key).Nodup := h.sublist (List.filter_sublist.map key)
  have hperm : ((ordered key l).filter p).Perm (ordered key (l.filter p)) :=
    ((List.perm_insertionSort _ l).filter p).trans (List.perm_insertionSort _ _).symm
  refine hperm.eq_of_pairwise (fun a b _ _ hab hba => absurd hab hba.asymm) ?_ (descending_ordered hp)
  exact (descending_ordered h).filter p

theorem seek_rows : (seek key n l c).rows = (l.filter fun a => After key c a).take n := by
  rw [seek, List.take_take, Nat.min_eq_left (Nat.le_succ n)]

theorem seek_next : (seek key n l c).next =
    if n < (l.filter fun a => After key c a).length then (seek key n l c).rows.getLast?.map key else none := by
  have hlen : n < ((l.filter fun a => After key c a).take (n + 1)).length ↔
      n < (l.filter fun a => After key c a).length := by
    rw [List.length_take]
    omega
  simp only [seek, hlen]

/-- Without a next cursor the page holds all that is left. -/
theorem seek_last (h : (seek key n l c).next = none) (hn : 0 < n) :
    (seek key n l c).rows = l.filter fun a => After key c a := by
  rw [seek_next] at h
  split at h
  · next hlt =>
    have hne : (seek key n l c).rows ≠ [] := by
      rw [seek_rows]
      intro hnil
      have hlen := congrArg List.length hnil
      rw [List.length_take, List.length_nil] at hlen
      omega
    rw [Option.map_eq_none_iff, List.getLast?_eq_none_iff] at h
    exact absurd h hne
  · next hge =>
    rw [seek_rows]
    exact List.take_of_length_le (Nat.le_of_not_lt hge)

/-- A next cursor is the key of the last row of the page; what is left is behind it. -/
theorem seek_more (h : (seek key n l c).next = some k) (hl : Descending key l) :
    (l.filter fun a => After key c a) = (seek key n l c).rows ++ (l.filter fun a => After key (some k) a) ∧
      (∀ a ∈ (seek key n l c).rows, k ≤ key a) ∧ (∀ a, After key (some k) a → After key c a) ∧
      (seek key n l c).rows ≠ [] := by
  rw [seek_next] at h
  split at h
  case isFalse => cases h
  obtain ⟨b, hb, rfl⟩ := Option.map_eq_some_iff.1 h
  obtain ⟨init, hinit⟩ := List.getLast?_eq_some_iff.1 hb
  have hrows : (l.filter fun a => After key c a).take n = init ++ [b] := seek_rows.symm.trans hinit
  have hsplit : (l.filter fun a => After key c a) =
      (init ++ [b]) ++ (l.filter fun a => After key c a).drop n := by
    rw [← hrows, List.take_append_drop]
  have hdesc : Descending key ((init ++ [b]) ++ (l.filter fun a => After key c a).drop n) :=
    hsplit ▸ hl.filter _
  obtain ⟨hfront, -, hcross⟩ := List.pairwise_append.1 hdesc
  have hlast : ∀ a ∈ init ++ [b], key b ≤ key a := by
    intro a ha
    rcases List.mem_append.1 ha with ha | ha
    · exact ((List.pairwise_append.1 hfront).2.2 a ha b (List.mem_singleton_self b)).le
    · rw [List.mem_singleton.1 ha]
  have hback : ∀ a ∈ (l.filter fun a => After key c a).drop n, key a < key b := fun a ha =>
    hcross b (List.mem_append_right _ (List.mem_singleton_self b)) a ha
  have hbc : After key c b := by
    have hmem : b ∈ l.filter fun a => After key c a := by
      rw [hsplit]
      simp
    exact of_decide_eq_true (List.mem_filter.1 hmem).2
  have himp : ∀ a, After key (some (key b)) a → After key c a := fun a ha k hk =>
    (after_some.1 ha).trans (hbc k hk)
  refine ⟨?_, by rwa [hinit], himp, by rw [hinit]; simp⟩
  have hfilter : (l.filter fun a => After key (some (key b)) a) =
      (l.filter fun a => After key c a).filter fun a => After key (some (key b)) a := by
    rw [List.filter_filter]
    refine List.filter_congr fun a _ => ?_
    by_cases ha : After key (some (key b)) a
    · simp [ha, himp a ha]
    · simp [ha]
  have hnone : ((init ++ [b]).filter fun a => decide (After key (some (key b)) a)) = [] := by
    refine List.filter_eq_nil_iff.2 fun a ha hafter => ?_
    exact absurd (after_some.1 (of_decide_eq_true hafter)) (not_lt.2 (hlast a ha))
  have hall : (((l.filter fun a => After key c a).drop n).filter fun a => decide (After key (some (key b)) a)) =
      (l.filter fun a => After key c a).drop n :=
    List.filter_eq_self.2 fun a ha => decide_eq_true (after_some.2 (hback a ha))
  have hrest : (l.filter fun a => After key (some (key b)) a) = (l.filter fun a => After key c a).drop n := by
    rw [hfilter]
    conv => lhs; rw [hsplit]
    rw [List.filter_append, hnone, List.nil_append, hall]
  rw [hinit, hrest]
  exact hsplit

/-- The pages of rows that do not change make up all of the rows after the cursor. -/
theorem Walk.of_constant (hn : 0 < n) (hl : Descending key l) (i : ℕ) (c : Option κ) :
    ∃ ps, Walk (fun _ => seek key n l) i c ps ∧ ps.flatten = l.filter fun a => After key c a := by
  obtain ⟨ps, hw⟩ : ∃ ps, Walk (fun _ => seek key n l) i c ps := by
    refine Walk.exists_of_measure (G := fun _ => True) (fun c => (l.filter fun a => After key c a).length) ?_ i trivial
    intro _ c k _ hk
    obtain ⟨hsplit, -, -, hne⟩ := seek_more hk hl
    refine ⟨trivial, ?_⟩
    have hlen := congrArg List.length hsplit
    rw [List.length_append] at hlen
    have hpos := List.length_pos_iff.2 hne
    omega
  refine ⟨ps, hw, ?_⟩
  refine Walk.flatten_eq (G := fun _ => True) (fun c => l.filter fun a => After key c a) ?_ ?_ hw trivial
  · exact fun _ c _ hnone => seek_last hnone hn
  · exact fun _ c k _ hsome => ⟨trivial, (seek_more hsome hl).1⟩

/-- While rows are added between the reads, the pages stay in descending order and hold every row of the first read. -/
theorem Walk.of_growing {rows : ℕ → List α} (hn : 0 < n) (hdesc : ∀ i, Descending key (rows i))
    (hgrow : ∀ i, rows i ⊆ rows (i + 1)) (h : Walk (fun i => seek key n (rows i)) i c ps) :
    Descending key ps.flatten ∧ (∀ a ∈ ps.flatten, After key c a ∧ ∃ j, i ≤ j ∧ a ∈ rows j) ∧
      ∀ a ∈ rows i, After key c a → a ∈ ps.flatten := by
  have hmem : ∀ i c a, a ∈ (seek key n (rows i) c).rows → a ∈ rows i ∧ After key c a := by
    intro i c a ha
    rw [seek_rows] at ha
    obtain ⟨hrow, hafter⟩ := List.mem_filter.1 (List.mem_of_mem_take ha)
    exact ⟨hrow, of_decide_eq_true hafter⟩
  have hpage : ∀ i c, Descending key (seek key n (rows i) c).rows := by
    intro i c
    rw [seek_rows]
    exact List.Pairwise.sublist (List.take_sublist n _) ((hdesc i).filter _)
  induction h with
  | @last i c hnone =>
    rw [List.flatten_singleton]
    refine ⟨hpage i c, fun a ha => ⟨(hmem i c a ha).2, i, le_rfl, (hmem i c a ha).1⟩, fun a ha hafter => ?_⟩
    rw [seek_last hnone hn]
    exact List.mem_filter.2 ⟨ha, decide_eq_true hafter⟩
  | @more i c k ps hsome hw ih =>
    obtain ⟨hsplit, hge, himp, -⟩ := seek_more hsome (hdesc i)
    obtain ⟨ihdesc, ihmem, ihall⟩ := ih
    rw [List.flatten_cons]
    refine ⟨List.pairwise_append.2 ⟨hpage i c, ihdesc, fun a ha b hb => ?_⟩, fun a ha => ?_, fun a ha hafter => ?_⟩
    · exact (after_some.1 (ihmem b hb).1).trans_le (hge a ha)
    · rcases List.mem_append.1 ha with ha | ha
      · exact ⟨(hmem i c a ha).2, i, le_rfl, (hmem i c a ha).1⟩
      · obtain ⟨hafter, j, hj, hrow⟩ := ihmem a ha
        exact ⟨himp a hafter, j, (Nat.le_succ i).trans hj, hrow⟩
    · have hin : a ∈ (rows i).filter fun a => After key c a := List.mem_filter.2 ⟨ha, decide_eq_true hafter⟩
      rw [hsplit] at hin
      rcases List.mem_append.1 hin with hin | hin
      · exact List.mem_append_left _ hin
      · have hrest := of_decide_eq_true (List.mem_filter.1 hin).2
        exact List.mem_append_right _ (ihall a (hgrow i ha) hrest)

end Keys

end Paging
