import Mathlib.Data.Set.Basic
import Mathlib.Data.List.Induction

/-!
# Trees of paths

A tree is a set `S` of paths with the set `D` of its directories: what lies above a path of `S` is in `D`. There may be
any number of paths of one step, so the empty path is none of them.

* (paths) `Below`, and `graft from to`, which moves what is at or below `from`.
* (trees) `Rooted S D`; one lemma for each of insert, remove and move, with the exact condition under which the tree
  stays one.
-/

namespace PathTrees

variable {α : Type*} {S D T : Set (List α)} {p q source target : List α}

/-- `q` begins with `p` and goes on. -/
def Below (p q : List α) : Prop := p <+: q ∧ p ≠ q

instance [DecidableEq α] (p q : List α) : Decidable (Below p q) := inferInstanceAs (Decidable (_ ∧ _))

theorem Below.trans_prefix (h : Below p q) {r : List α} (hq : q <+: r) : Below p r := by
  refine ⟨h.1.trans hq, fun heq => h.2 ?_⟩
  exact h.1.eq_of_length (Nat.le_antisymm h.1.length_le (heq ▸ hq.length_le))

theorem below_concat_iff {a : α} : Below p (q ++ [a]) ↔ p <+: q := by
  constructor
  · rintro ⟨hp, hne⟩
    exact (List.prefix_concat_iff.1 hp).resolve_left hne
  · intro hp
    refine ⟨hp.trans (List.prefix_append q [a]), fun heq => ?_⟩
    have hlen := hp.length_le
    rw [heq, List.length_append, List.length_singleton] at hlen
    omega

/-- The path after what is at or below `source` has moved to `target`. -/
def graft [DecidableEq α] (source target q : List α) : List α :=
  if source <+: q then target ++ q.drop source.length else q

theorem graft_append [DecidableEq α] (s : List α) : graft source target (source ++ s) = target ++ s := by
  rw [graft, if_pos (List.prefix_append source s), List.drop_left]

theorem graft_self [DecidableEq α] : graft source target source = target := by
  rw [graft, if_pos (List.prefix_refl source), List.drop_length, List.append_nil]

theorem graft_of_not [DecidableEq α] (h : ¬ source <+: q) : graft source target q = q :=
  if_neg h

/-- What lies above a path is a directory. -/
def Rooted (S D : Set (List α)) : Prop := ∀ p a, p ≠ [] → p ++ [a] ∈ S → p ∈ D

theorem Rooted.mem_of_below (h : Rooted S D) (hD : D ⊆ S) (hp : p ≠ []) (hq : q ∈ S) (hb : Below p q) : p ∈ D := by
  induction q using List.reverseRecOn with
  | nil => exact absurd (List.prefix_nil.1 hb.1) hp
  | append_singleton q a ih =>
    have hpre : p <+: q := below_concat_iff.1 hb
    have hne : q ≠ [] := by
      rintro rfl
      exact hp (List.prefix_nil.1 hpre)
    have hmem : q ∈ D := h q a hne hq
    by_cases heq : p = q
    · exact heq ▸ hmem
    · exact ih (hD hmem) ⟨hpre, heq⟩

theorem rooted_insert (h : Rooted S D) (hD : D ⊆ T) (hq : ∀ p a, p ≠ [] → q = p ++ [a] → p ∈ D) :
    Rooted (insert q S) T := by
  rintro p a hp (heq | hmem)
  · exact hD (hq p a hp heq.symm)
  · exact hD (h p a hp hmem)

/-- What stays must not lie below what goes. -/
theorem rooted_diff (h : Rooted S D) (hT : ∀ p a, p ∈ T → p ++ [a] ∈ S → p ++ [a] ∈ T) : Rooted (S \ T) (D \ T) := by
  rintro p a hp ⟨hmem, hstay⟩
  exact ⟨h p a hp hmem, fun hgone => hstay (hT p a hgone hmem)⟩

theorem not_rooted_diff (hD : D ⊆ S) (hp : p ≠ []) (hgone : p ∈ T) (hq : q ∈ S) (hstay : q ∉ T) (hb : Below p q) :
    ¬ Rooted (S \ T) (D \ T) := by
  intro h
  have hmem : p ∈ D \ T := h.mem_of_below (fun x hx => ⟨hD hx.1, hx.2⟩) hp ⟨hq, hstay⟩ hb
  exact hmem.2 hgone

/-- A move needs a directory to move into, which is not moved itself. -/
theorem rooted_graft [DecidableEq α] (h : Rooted S D) (hsource : source ≠ []) (happart : ¬ source <+: target)
    (ht : ∀ p a, p ≠ [] → target = p ++ [a] → p ∈ D) :
    Rooted (Set.image (graft source target) S) (Set.image (graft source target) D) := by
  rintro p a hp ⟨q, hq, heq⟩
  by_cases hpre : source <+: q
  · obtain ⟨s, rfl⟩ := hpre
    rw [graft_append] at heq
    rcases List.eq_nil_or_concat s with rfl | ⟨t, b, rfl⟩
    · rw [List.append_nil] at heq
      refine ⟨p, ht p a hp heq, graft_of_not fun hs => happart ?_⟩
      rw [heq]
      exact hs.trans (List.prefix_append p [a])
    · rw [List.concat_eq_append, ← List.append_assoc] at heq hq
      obtain ⟨rfl, -⟩ := List.append_inj' heq rfl
      refine ⟨source ++ t, h _ b ?_ hq, graft_append t⟩
      exact fun hnil => hsource (List.append_eq_nil_iff.1 hnil).1
  · rw [graft_of_not hpre] at heq
    subst heq
    exact ⟨p, h p a hp hq, graft_of_not fun hs => hpre (hs.trans (List.prefix_append p [a]))⟩

theorem Rooted.of_graft [DecidableEq α]
    (h : Rooted (Set.image (graft source target) S) (Set.image (graft source target) D)) (hq : source ∈ S) {a : α}
    (hp : p ≠ []) (htarget : target = p ++ [a]) : p ∈ D := by
  have hmem : p ++ [a] ∈ Set.image (graft source target) S := by
    refine ⟨source, hq, ?_⟩
    rw [graft_self, htarget]
  obtain ⟨d, hd, heq⟩ := h p a hp hmem
  by_cases hpre : source <+: d
  · obtain ⟨s, rfl⟩ := hpre
    rw [graft_append, htarget, List.append_assoc] at heq
    have hlen := congrArg List.length heq
    simp only [List.length_append, List.length_singleton] at hlen
    omega
  · rw [graft_of_not hpre] at heq
    exact heq ▸ hd

end PathTrees
