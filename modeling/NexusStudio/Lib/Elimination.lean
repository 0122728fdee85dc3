import Mathlib
import NexusStudio.Lib.Worklist

/-!
# Elimination

The elimination of a finite graph: a node joins the queue when every edge to it has lost its source, and any node of
the queue may be the next one.

* (counting) Edges are counted with their repetitions, so a node is ready exactly when its count is zero.
* (result) What is eliminated is sorted along the edges, and it is everything exactly when the graph has no cycle.
-/

namespace Elimination

open Worklists (Edge)

variable {α : Type*} {E : List (α × α)} {V done queue next order : List α} {degree : α → Int} {a b : α}

section Orders

/-- The source of every edge stands before its target. -/
def Sorted (E : List (α × α)) (order : List α) : Prop :=
  ∀ l b l', order = l ++ b :: l' → ∀ a, Edge E a b → a ∈ l

def Acyclic (E : List (α × α)) : Prop := ∀ a, ¬ Relation.TransGen (Edge E) a a

theorem Sorted.append (h : Sorted E done) (ha : ∀ b, Edge E b a → b ∈ done) : Sorted E (done ++ [a]) := by
  intro l b l' hsplit c hc
  rcases List.eq_nil_or_concat' l' with rfl | ⟨k, z, rfl⟩
  · obtain ⟨rfl, hab⟩ := List.append_inj' hsplit rfl
    obtain rfl := List.singleton_injective hab
    exact ha c hc
  · rw [← List.cons_append, ← List.append_assoc] at hsplit
    obtain ⟨rfl, -⟩ := List.append_inj' hsplit rfl
    exact h l b k rfl c hc

/-- A number that grows along every edge leaves no cycle. -/
theorem acyclic_of_lt (f : α → Nat) (h : ∀ a b, Edge E a b → f a < f b) : Acyclic E := by
  have hgrows : ∀ a b, Relation.TransGen (Edge E) a b → f a < f b := by
    intro a b hab
    induction hab with
    | single hab => exact h _ _ hab
    | tail _ hbc ih => exact ih.trans (h _ _ hbc)
  exact fun a ha => lt_irrefl _ (hgrows a a ha)

/-- Some element of a set has no predecessor in it. -/
theorem Acyclic.exists_source (h : Acyclic E) {p : α → Prop} (hp : ∀ b, p b → b ∈ V) (ha : p a) :
    ∃ b, p b ∧ ∀ c, Edge E c b → ¬ p c := by
  let below (x y : {x // x ∈ V}) : Prop := Relation.TransGen (Edge E) x y
  have htrans : IsTrans {x // x ∈ V} below := ⟨fun _ _ _ hxy hyz => hxy.trans hyz⟩
  have hirrefl : Std.Irrefl below := ⟨fun x => h x⟩
  have hfinite : Finite {x // x ∈ V} := (List.finite_toSet V).to_subtype
  have hwf : WellFounded below := Finite.wellFounded_of_trans_of_irrefl below
  obtain ⟨b, hb, hmin⟩ := hwf.has_min {x | p x} ⟨⟨a, hp a ha⟩, ha⟩
  exact ⟨b, hb, fun c hcb hc => hmin ⟨c, hp c hc⟩ hc (.single hcb)⟩

end Orders

section Steps

variable [DecidableEq α]

/-- Where the edges from `a` lead. -/
def succs (E : List (α × α)) (a : α) : List α := (E.filter fun e => e.1 = a).map Prod.snd

/-- The number of edges to `a`. -/
def indegree (E : List (α × α)) (a : α) : Int := (E.countP fun e => e.2 = a : Nat)

/-- Every successor loses an edge, and joins the queue when it has lost its last. -/
def release (degree : α → Int) (queue next : List α) : (α → Int) × List α :=
  next.foldl (fun (degree, queue) n =>
    let degree := Function.update degree n (degree n - 1)
    (degree, if degree n = 0 then queue ++ [n] else queue)) (degree, queue)

/-- The elimination, where `pick` splits the next node off the queue. -/
def eliminate (E : List (α × α)) (pick : List α → Option (α × List α)) : Nat → (α → Int) → List α → List α
  | 0, _, _ => []
  | n + 1, degree, queue =>
    match pick queue with
    | none => []
    | some (current, queue) =>
      let (degree, queue) := release degree queue (succs E current)
      current :: eliminate E pick n degree queue

/-- A policy takes some node of the queue, as long as there is one. -/
structure Picks (pick : List α → Option (α × List α)) : Prop where
  none : ∀ q, pick q = none → q = []
  some : ∀ q a q', pick q = some (a, q') → q.Perm (a :: q')

theorem mem_succs : b ∈ succs E a ↔ Edge E a b := by
  simp [succs, Edge]

theorem mem_left_iff {l l' : List α} (hn : (l ++ b :: l').Nodup) :
    a ∈ l ↔ (l ++ b :: l').idxOf a < (l ++ b :: l').idxOf b := by
  have hb : b ∉ l := fun h => (List.nodup_append.1 hn).2.2 b h b List.mem_cons_self rfl
  have hidx : (l ++ b :: l').idxOf b = l.length := by
    rw [List.idxOf_append_of_notMem hb, List.idxOf_cons_self, Nat.add_zero]
  rw [hidx]
  by_cases ha : a ∈ l
  · rw [List.idxOf_append_of_mem ha]
    exact ⟨fun _ => List.idxOf_lt_length_of_mem ha, fun _ => ha⟩
  · rw [List.idxOf_append_of_notMem ha]
    exact ⟨fun h => absurd h ha, fun h => by omega⟩

/-- Being sorted, by the places of the nodes. -/
theorem sorted_iff_idxOf (hn : order.Nodup) (hE : ∀ a b, Edge E a b → b ∈ order) :
    Sorted E order ↔ ∀ a b, Edge E a b → order.idxOf a < order.idxOf b := by
  constructor
  · intro h a b hab
    obtain ⟨l, l', rfl⟩ := List.append_of_mem (hE a b hab)
    exact (mem_left_iff hn).1 (h l b l' rfl a hab)
  · rintro h l b l' rfl a hab
    exact (mem_left_iff hn).2 (h a b hab)

theorem Sorted.acyclic (h : Sorted E order) (hn : order.Nodup) (hE : ∀ a b, Edge E a b → b ∈ order) : Acyclic E :=
  acyclic_of_lt order.idxOf ((sorted_iff_idxOf hn hE).1 h)

/-- What stands before another one stands after it in the reversed list. -/
theorem not_lt_reverse (hn : order.Nodup) (hb : b ∈ order) (h : order.idxOf a < order.idxOf b) :
    ¬ order.reverse.idxOf a < order.reverse.idxOf b := by
  obtain ⟨l, l', rfl⟩ := List.append_of_mem hb
  have hleft : a ∈ l := (mem_left_iff hn).2 h
  have hreverse : (l ++ b :: l').reverse = l'.reverse ++ b :: l.reverse := by simp
  rw [← List.nodup_reverse] at hn
  rw [hreverse] at hn ⊢
  rw [← mem_left_iff hn]
  exact fun hright => (List.nodup_append.1 hn).2.2 a hright a (by simp [hleft]) rfl

theorem release_cons (n : α) : release degree queue (n :: next) =
    release (Function.update degree n (degree n - 1)) (if degree n = 1 then queue ++ [n] else queue) next := by
  have hone : degree n - 1 = 0 ↔ degree n = 1 := by omega
  simp only [release, List.foldl_cons, Function.update_self, hone]

/-- What loses its last edge joins the queue, once. -/
theorem release_spec (queue : List α) (h : ∀ n, (next.count n : Int) ≤ degree n) :
    (∀ n, (release degree queue next).1 n = degree n - next.count n) ∧
      ∃ l, (release degree queue next).2 = queue ++ l ∧ l.Nodup ∧
        ∀ n, n ∈ l ↔ n ∈ next ∧ degree n = next.count n := by
  induction next generalizing degree queue with
  | nil => exact ⟨fun n => by simp [release], [], by simp [release]⟩
  | cons m next ih =>
    have hm := h m
    rw [List.count_cons_self] at hm
    have hcount : ∀ n, Function.update degree m (degree m - 1) n - next.count n =
        degree n - (m :: next).count n := by
      intro n
      by_cases hn : n = m
      · subst hn
        rw [Function.update_self, List.count_cons_self]
        omega
      · rw [Function.update_of_ne hn, List.count_cons_of_ne (Ne.symm hn)]
    have hnext : ∀ n, (next.count n : Int) ≤ Function.update degree m (degree m - 1) n := by
      intro n
      have hn := h n
      have := hcount n
      omega
    obtain ⟨hdegree, l, hl, hnodup, hmem⟩ := ih (if degree m = 1 then queue ++ [m] else queue) hnext
    rw [release_cons]
    refine ⟨fun n => (hdegree n).trans (hcount n), ?_⟩
    have hmem : ∀ n, n ∈ l ↔ n ∈ next ∧ degree n = (m :: next).count n := by
      intro n
      have := hcount n
      rw [hmem]
      exact and_congr_right fun _ => by omega
    by_cases hlast : degree m = 1
    · have hnot : m ∉ next := by
        intro hin
        have := List.count_pos_iff.2 hin
        omega
      refine ⟨m :: l, by rw [hl, if_pos hlast, List.append_assoc, List.singleton_append], ?_, fun n => ?_⟩
      · exact List.nodup_cons.2 ⟨fun hin => hnot ((hmem m).1 hin).1, hnodup⟩
      · rw [List.mem_cons, List.mem_cons, hmem]
        constructor
        · rintro (rfl | ⟨hin, hn⟩)
          · refine ⟨.inl rfl, ?_⟩
            rw [List.count_cons_self, List.count_eq_zero_of_not_mem hnot, hlast]
            rfl
          · exact ⟨.inr hin, hn⟩
        · rintro ⟨rfl | hin, hn⟩
          · exact .inl rfl
          · exact .inr ⟨hin, hn⟩
    · refine ⟨l, by rw [hl, if_neg hlast], hnodup, fun n => ?_⟩
      rw [hmem, List.mem_cons]
      refine ⟨fun ⟨hin, hn⟩ => ⟨.inr hin, hn⟩, ?_⟩
      rintro ⟨rfl | hin, hn⟩
      · refine ⟨?_, hn⟩
        rw [List.count_cons_self] at hn
        exact List.count_pos_iff.1 (by omega)
      · exact ⟨hin, hn⟩

/-- The edges that an eliminated source takes from its targets. -/
theorem countP_succs (h : a ∉ done) (b : α) :
    E.countP (fun e => e.2 = b ∧ e.1 ∉ done) =
      E.countP (fun e => e.2 = b ∧ e.1 ∉ done ++ [a]) + (succs E a).count b := by
  unfold succs
  induction E with
  | nil => rfl
  | cons e E ih =>
    by_cases hb : e.2 = b
    · by_cases ha : e.1 = a
      · simp [ha, hb, h] at ih ⊢
        omega
      · by_cases hd : e.1 ∈ done <;> simp [ha, hb, hd] at ih ⊢ <;> omega
    · by_cases ha : e.1 = a <;> simp [ha, hb] at ih ⊢ <;> omega

/-- What is eliminated is sorted, and the queue holds the nodes that have no other source left. -/
structure Inv (E : List (α × α)) (V done : List α) (degree : α → Int) (queue : List α) : Prop where
  nodup : (done ++ queue).Nodup
  subset : done ⊆ V
  count : ∀ n, degree n = E.countP fun e => e.2 = n ∧ e.1 ∉ done
  ready : ∀ n, n ∈ queue ↔ n ∈ V ∧ n ∉ done ∧ degree n = 0
  sorted : Sorted E done

variable (hE : ∀ a b, Edge E a b → a ∈ V ∧ b ∈ V)
include hE

theorem inv_step {queue' : List α} (h : Inv E V done degree queue) (hq : queue.Perm (a :: queue')) :
    Inv E V (done ++ [a]) (release degree queue' (succs E a)).1 (release degree queue' (succs E a)).2 := by
  have hnodup : (done ++ a :: queue').Nodup := (hq.append_left done).nodup h.nodup
  obtain ⟨hdone, hcons, hdisj⟩ := List.nodup_append.1 hnodup
  obtain ⟨haq, hq'⟩ := List.nodup_cons.1 hcons
  have hin : ∀ n, n = a ∨ n ∈ queue' ↔ n ∈ V ∧ n ∉ done ∧ degree n = 0 := fun n => by
    rw [← h.ready, hq.mem_iff, List.mem_cons]
  obtain ⟨haV, had, hazero⟩ := (hin a).1 (.inl rfl)
  have hsplit : ∀ n, degree n = (E.countP fun e => e.2 = n ∧ e.1 ∉ done ++ [a] : Nat) + ((succs E a).count n : Nat) :=
    fun n => by rw [h.count, countP_succs had]; push_cast; rfl
  have hle : ∀ n, ((succs E a).count n : Int) ≤ degree n := fun n => by
    have := hsplit n
    omega
  obtain ⟨hdegree, l, hl, hlnodup, hmem⟩ := release_spec queue' hle
  have hpos : ∀ n ∈ l, 0 < degree n := fun n hn => by
    have := List.count_pos_iff.2 ((hmem n).1 hn).1
    have := ((hmem n).1 hn).2
    omega
  -- a target of the source cannot have been eliminated before it
  have hlater : ∀ n ∈ l, n ∉ done := by
    intro n hn hd
    obtain ⟨k, k', rfl⟩ := List.append_of_mem hd
    exact had (List.mem_append_left _ (h.sorted k n k' rfl a (mem_succs.1 ((hmem n).1 hn).1)))
  have hla : a ∉ l := fun hn => (hpos a hn).ne' hazero
  rw [hl]
  refine ⟨?_, ?_, fun n => ?_, fun n => ?_, ?_⟩
  · rw [List.append_assoc, List.singleton_append, ← List.cons_append, ← List.append_assoc]
    refine hnodup.append hlnodup ?_
    rw [List.disjoint_right]
    intro n hn hold
    rcases List.mem_append.1 hold with hd | hold
    · exact hlater n hn hd
    · exact (hpos n hn).ne' ((hin n).1 (List.mem_cons.1 hold)).2.2
  · exact List.append_subset.2 ⟨h.subset, by simpa using haV⟩
  · have := hsplit n
    rw [hdegree]
    omega
  · have hn := hsplit n
    rw [List.mem_append, hmem, hdegree]
    constructor
    · rintro (hold | ⟨hs, hzero⟩)
      · obtain ⟨hV, hd, hzero⟩ := (hin n).1 (.inr hold)
        refine ⟨hV, ?_, ?_⟩
        · simp only [List.mem_append, List.mem_singleton, not_or]
          exact ⟨hd, fun hna => haq (hna ▸ hold)⟩
        · have := hle n
          omega
      · have hnl : n ∈ l := (hmem n).2 ⟨hs, hzero⟩
        refine ⟨(hE a n (mem_succs.1 hs)).2, ?_, by omega⟩
        simp only [List.mem_append, List.mem_singleton, not_or]
        exact ⟨hlater n hnl, fun hna => hla (hna ▸ hnl)⟩
    · rintro ⟨hV, hd, hzero⟩
      simp only [List.mem_append, List.mem_singleton, not_or] at hd
      by_cases hs : n ∈ succs E a
      · exact .inr ⟨hs, by omega⟩
      · have := List.count_eq_zero_of_not_mem hs
        exact .inl (((hin n).2 ⟨hV, hd.1, by omega⟩).resolve_left hd.2)
  · refine h.sorted.append fun b hb => ?_
    by_contra hbd
    have hcount := h.count a
    rw [hazero] at hcount
    have := List.countP_eq_zero.1 (Int.ofNat_eq_zero.1 hcount.symm) (b, a) hb
    simp [hbd] at this

/-- With a turn for every node, the elimination ends with an empty queue. -/
theorem inv_eliminate {pick : List α → Option (α × List α)} (hp : Picks pick) {n : Nat}
    (h : Inv E V done degree queue) (hn : V.length < n + done.length) :
    ∃ degree', Inv E V (done ++ eliminate E pick n degree queue) degree' [] := by
  induction n generalizing done degree queue with
  | zero =>
    have hlength := ((List.nodup_append.1 h.nodup).1.subperm h.subset).length_le
    omega
  | succ n ih =>
    rw [eliminate]
    cases hq : pick queue with
    | none =>
      obtain rfl := hp.none _ hq
      exact ⟨degree, by simpa using h⟩
    | some next =>
      obtain ⟨a, queue'⟩ := next
      obtain ⟨degree', hend⟩ := ih (inv_step hE h (hp.some _ _ _ hq)) (by simp; omega)
      exact ⟨degree', by simpa using hend⟩

/-- Where nothing is ready, everything is eliminated or some cycle is left. -/
theorem Inv.all_iff (h : Inv E V done degree []) : V ⊆ done ↔ Acyclic E := by
  constructor
  · exact fun hV => h.sorted.acyclic (List.nodup_append.1 h.nodup).1 fun a b hab => hV (hE a b hab).2
  · intro hacyclic a ha
    by_contra had
    obtain ⟨b, ⟨hb, hbd⟩, hsource⟩ :=
      hacyclic.exists_source (V := V) (p := fun n => n ∈ V ∧ n ∉ done) (fun _ hn => hn.1) ⟨ha, had⟩
    refine absurd ((h.ready b).2 ⟨hb, hbd, ?_⟩) List.not_mem_nil
    rw [h.count, List.countP_eq_zero.2]
    · rfl
    · rintro ⟨c, d⟩ he
      simp only [decide_eq_true_eq, not_and, not_not]
      rintro rfl
      by_contra hcd
      exact hsource c he ⟨(hE c d he).1, hcd⟩

omit hE in
theorem inv_start (hV : V.Nodup) : Inv E V [] (indegree E) (V.filter fun n => indegree E n = 0) := by
  refine ⟨by simpa using hV.filter _, List.nil_subset _, by simp [indegree], by simp, ?_⟩
  intro l b l' hl
  cases l <;> cases hl

/-- The whole elimination: a sorted list of nodes, that has all of them exactly when there is no cycle. -/
theorem eliminate_spec {pick : List α → Option (α × List α)} (hp : Picks pick) (hV : V.Nodup) {n : Nat}
    (hn : V.length < n) :
    let order := eliminate E pick n (indegree E) (V.filter fun n => indegree E n = 0)
    Sorted E order ∧ order.Subperm V ∧ (order.length = V.length ↔ Acyclic E) := by
  intro order
  obtain ⟨degree', hend⟩ := inv_eliminate hE hp (inv_start hV) (n := n) (by simpa using hn)
  rw [List.nil_append] at hend
  have hnodup : order.Nodup := (List.nodup_append.1 hend.nodup).1
  have hsub : order.Subperm V := hnodup.subperm hend.subset
  refine ⟨hend.sorted, hsub, ?_⟩
  rw [← hend.all_iff hE]
  constructor
  · exact fun hlength => (hsub.perm_of_length_le hlength.ge).symm.subset
  · exact fun hVo => le_antisymm hsub.length_le (hV.subperm hVo).length_le

/-- A graph without a cycle can be listed along its edges. -/
theorem Acyclic.exists_sorted (h : Acyclic E) (hV : V.Nodup) : ∃ order, order.Perm V ∧ Sorted E order := by
  have hpicks : Picks (α := α) fun q => q.head?.map fun a => (a, q.tail) := by
    constructor
    · intro q hq
      simpa using hq
    · intro q a q' hq
      cases q with
      | nil => cases hq
      | cons b q =>
        obtain ⟨rfl, rfl⟩ := Prod.mk.inj (Option.some.inj hq)
        exact .refl _
  obtain ⟨hsorted, hsub, hall⟩ := eliminate_spec hE hpicks hV (Nat.lt_succ_self _)
  exact ⟨_, hsub.perm_of_length_le (hall.2 h).ge, hsorted⟩

end Steps

end Elimination
