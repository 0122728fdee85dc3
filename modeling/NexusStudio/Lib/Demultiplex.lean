import Mathlib

/-!
# Interleaved fragments, gathered by key

A slot for each key, in the order in which the keys come first; a fragment updates the slot of its key.

* (slots) The slot of a key is what its own fragments make of a new one, whatever comes between them: `own`.
* (fragments) `gathered_feed` for one fragment, `gathered_feedAll` for a list of them.
* (order) In the order of their keys the slots are those of any list of the same keys: `Gathered.sorted`.
-/

namespace Demultiplex

structure Gatherer (κ σ φ : Type*) where
  key : φ → κ
  keyOf : σ → κ
  fresh : κ → σ
  update : σ → φ → σ
  keyOf_fresh : ∀ k, keyOf (fresh k) = k
  keyOf_update : ∀ s f, keyOf (update s f) = keyOf s

namespace Gatherer

variable {κ σ φ : Type*} [DecidableEq κ] (G : Gatherer κ σ φ)

def put (slots : List σ) (slot : σ) : List σ :=
  if slots.any fun s => G.keyOf s = G.keyOf slot then
    slots.map fun s => if G.keyOf s = G.keyOf slot then slot else s
  else slots ++ [slot]

def feed (slots : List σ) (f : φ) : List σ :=
  G.put slots (G.update ((slots.find? fun s => G.keyOf s = G.key f).getD (G.fresh (G.key f))) f)

/-- What the fragments of a key make of its slot. -/
def own (fs : List φ) (k : κ) : σ := (fs.filter fun f => G.key f = k).foldl G.update (G.fresh k)

/-- One slot for each key of the fragments, made by its own ones. -/
structure Gathered (fs : List φ) (slots : List σ) : Prop where
  nodup : (slots.map G.keyOf).Nodup
  mem : ∀ k, k ∈ slots.map G.keyOf ↔ k ∈ fs.map G.key
  eq_own : ∀ s ∈ slots, s = G.own fs (G.keyOf s)

variable {G} {fs : List φ} {slots : List σ} {f : φ} {k : κ}

theorem own_append : G.own (fs ++ [f]) k = if G.key f = k then G.update (G.own fs k) f else G.own fs k := by
  rw [own, List.filter_append]
  split
  case isTrue h =>
    rw [List.filter_cons_of_pos (by simpa using h), List.filter_nil, List.foldl_append]
    rfl
  case isFalse h =>
    rw [List.filter_cons_of_neg (by simpa using h), List.filter_nil, List.append_nil]
    rfl

theorem own_of_notMem (h : k ∉ fs.map G.key) : G.own fs k = G.fresh k := by
  have hnil : (fs.filter fun f => G.key f = k) = [] :=
    List.filter_eq_nil_iff.2 fun f hf he => h (List.mem_map.2 ⟨f, hf, of_decide_eq_true he⟩)
  rw [own, hnil, List.foldl_nil]

theorem keyOf_own : G.keyOf (G.own fs k) = k := by
  have hfold : ∀ (l : List φ) (s : σ), G.keyOf (l.foldl G.update s) = G.keyOf s := by
    intro l
    induction l with
    | nil => exact fun s => rfl
    | cons f l ih => exact fun s => (ih _).trans (G.keyOf_update s f)
  exact (hfold _ _).trans (G.keyOf_fresh k)

/-- The slot of a key that is there. -/
theorem Gathered.find_eq (h : G.Gathered fs slots) (hk : k ∈ slots.map G.keyOf) :
    slots.find? (fun s => G.keyOf s = k) = some (G.own fs k) := by
  obtain ⟨s, hs, rfl⟩ := List.mem_map.1 hk
  cases hfind : slots.find? (fun t => G.keyOf t = G.keyOf s) with
  | none => exact absurd (decide_eq_true rfl) (List.find?_eq_none.1 hfind s hs)
  | some t =>
    have hkey : G.keyOf t = G.keyOf s := of_decide_eq_true (List.find?_some hfind :)
    rw [h.eq_own t (List.mem_of_find?_eq_some hfind), hkey]

theorem map_keyOf_replace (s : σ) (l : List σ) :
    (l.map fun t => if G.keyOf t = G.keyOf s then s else t).map G.keyOf = l.map G.keyOf := by
  rw [List.map_map]
  refine List.map_congr_left fun t _ => ?_
  rw [Function.comp_apply]
  split
  case isTrue h => exact h.symm
  case isFalse => rfl

/-- A fragment changes the slot of its key and no other one. -/
theorem gathered_feed (h : G.Gathered fs slots) (f : φ) : G.Gathered (fs ++ [f]) (G.feed slots f) := by
  have hown : ∀ s ∈ slots, G.keyOf s ≠ G.key f → s = G.own (fs ++ [f]) (G.keyOf s) := by
    intro s hs hne
    rw [own_append, if_neg (Ne.symm hne)]
    exact h.eq_own s hs
  have hkey : G.keyOf (G.own (fs ++ [f]) (G.key f)) = G.key f := keyOf_own
  have hslot : G.own (fs ++ [f]) (G.key f) = G.update (G.own fs (G.key f)) f := by
    rw [own_append, if_pos rfl]
  by_cases hk : G.key f ∈ slots.map G.keyOf
  · have hany : (slots.any fun s => G.keyOf s = G.keyOf (G.own (fs ++ [f]) (G.key f))) = true := by
      rw [hkey]
      obtain ⟨s, hs, hsk⟩ := List.mem_map.1 hk
      exact List.any_eq_true.2 ⟨s, hs, decide_eq_true hsk⟩
    have hput : G.feed slots f = G.put slots (G.own (fs ++ [f]) (G.key f)) := by
      rw [feed, h.find_eq hk, Option.getD_some, hslot]
    rw [hput, put, if_pos hany]
    refine ⟨?_, fun k => ?_, fun s hs => ?_⟩
    · rw [map_keyOf_replace]
      exact h.nodup
    · rw [map_keyOf_replace, List.map_append, List.mem_append, h.mem]
      refine (or_iff_left_of_imp fun hlast => ?_).symm
      rw [List.mem_singleton.1 hlast]
      exact (h.mem _).1 hk
    · obtain ⟨t, ht, rfl⟩ := List.mem_map.1 hs
      split
      case isTrue => rw [hkey]
      case isFalse hne => exact hown t ht (hkey ▸ hne)
  · have hnew : G.key f ∉ fs.map G.key := fun hmem => hk ((h.mem _).2 hmem)
    have hnone : slots.find? (fun s => G.keyOf s = G.key f) = none :=
      List.find?_eq_none.2 fun s hs he => hk (List.mem_map.2 ⟨s, hs, of_decide_eq_true he⟩)
    have hany : ¬ (slots.any fun s => G.keyOf s = G.key f) = true := by
      rw [List.any_eq_true]
      rintro ⟨s, hs, he⟩
      exact hk (List.mem_map.2 ⟨s, hs, of_decide_eq_true he⟩)
    have hput : G.feed slots f = G.put slots (G.own (fs ++ [f]) (G.key f)) := by
      rw [feed, hnone, Option.getD_none, hslot, own_of_notMem hnew]
    rw [hput, put, hkey, if_neg hany]
    refine ⟨?_, fun k => ?_, fun s hs => ?_⟩
    · rw [List.map_append, List.map_singleton, hkey]
      exact List.nodup_append.2 ⟨h.nodup, List.nodup_singleton _, fun a ha b hb => by
        rw [List.mem_singleton.1 hb]
        exact fun he => hk (he ▸ ha)⟩
    · rw [List.map_append, List.map_append, List.mem_append, List.mem_append, h.mem, List.map_singleton, hkey,
        List.map_singleton]
    · rcases List.mem_append.1 hs with hs | hs
      · exact hown s hs fun he => hk (he ▸ List.mem_map_of_mem hs)
      · rw [List.mem_singleton.1 hs, hkey]

theorem gathered_nil : G.Gathered [] [] := ⟨List.nodup_nil, fun _ => Iff.rfl, nofun⟩

/-- Fragments one after the other, in any order of their keys. -/
theorem gathered_feedAll (fs : List φ) : G.Gathered fs (fs.foldl G.feed []) := by
  induction fs using List.reverseRecOn with
  | nil => exact gathered_nil
  | append_singleton fs f ih =>
    rw [List.foldl_append]
    exact gathered_feed ih f

/-- The slots in the order of their keys. -/
theorem Gathered.sorted [LinearOrder κ] (h : G.Gathered fs slots) {keys : List κ} (hnodup : keys.Nodup)
    (hkeys : ∀ k, k ∈ keys ↔ k ∈ fs.map G.key) :
    (slots.insertionSort fun s t => G.keyOf s ≤ G.keyOf t) = (keys.insertionSort (· ≤ ·)).map (G.own fs) := by
  have hslots : slots = (slots.map G.keyOf).map (G.own fs) := by
    rw [List.map_map]
    exact (List.map_id slots).symm.trans (List.map_congr_left fun s hs => h.eq_own s hs)
  have hperm : (slots.map G.keyOf).Perm keys :=
    (List.perm_ext_iff_of_nodup h.nodup hnodup).2 fun k => (h.mem k).trans (hkeys k).symm
  have hsorted : (slots.map G.keyOf).insertionSort (· ≤ ·) = keys.insertionSort (· ≤ ·) :=
    ((List.perm_insertionSort _ _).trans (hperm.trans (List.perm_insertionSort _ _).symm)).eq_of_pairwise'
      (List.pairwise_insertionSort _ _) (List.pairwise_insertionSort _ _)
  rw [← hsorted, List.map_insertionSort (· ≤ ·) (fun s t => G.keyOf s ≤ G.keyOf t)]
  · rw [← hslots]
  · intro a _ b _
    rw [keyOf_own, keyOf_own]

end Gatherer

end Demultiplex
