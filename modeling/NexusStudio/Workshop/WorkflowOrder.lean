import Mathlib
import NexusStudio.Lib.Elimination
import NexusStudio.Workshop.Workflow

/-!
# The order of a workflow

`_has_cycle` and `topological_order`: two eliminations of one graph, that take the last node of the queue and the
smallest one.

* (agreement) Both come to an end with all nodes exactly when the graph has no cycle.
* (order) What the second returns are the nodes, with the source of every edge before its target.
-/

namespace NexusStudio.Workshop.Workflow

open Elimination (Acyclic Picks Sorted eliminate)

variable {edges : List WorkflowEdge} {ids : List String}

/-! ### The two searches -/

/-- `queue.pop()`. -/
def pop (queue : List String) : Option (String × List String) := queue.getLast?.map fun i => (i, queue.dropLast)

/-- `queue.sort()` and `queue.pop(0)`. -/
def popSmallest (queue : List String) : Option (String × List String) :=
  match queue.insertionSort (· ≤ ·) with
  | [] => none
  | i :: queue => some (i, queue)

theorem picks_pop : Picks pop := by
  constructor
  · intro q hq
    simpa [pop] using hq
  · intro q i q' hq
    obtain ⟨j, hj, hpair⟩ := Option.map_eq_some_iff.1 hq
    obtain ⟨rfl, rfl⟩ := Prod.mk.inj hpair
    have hsplit := List.dropLast_append_getLast? _ hj
    have hperm := List.perm_append_singleton j q.dropLast
    rwa [hsplit] at hperm

theorem picks_popSmallest : Picks popSmallest := by
  constructor
  · intro q hq
    unfold popSmallest at hq
    split at hq
    · next hsort =>
      have hperm := List.perm_insertionSort (· ≤ ·) q
      rw [hsort] at hperm
      exact hperm.nil_eq.symm
    · cases hq
  · intro q i q' hq
    unfold popSmallest at hq
    split at hq
    · cases hq
    · next j k hsort =>
      obtain ⟨rfl, rfl⟩ := Prod.mk.inj (Option.some.inj hq)
      rw [← hsort]
      exact (List.perm_insertionSort _ _).symm

theorem succs_arrows (i : String) : Elimination.succs (arrows edges) i = outgoing edges i := by
  simp only [Elimination.succs, arrows, outgoing, List.filter_map, List.map_map]
  rfl

theorem indegree_eq : indegree edges = Elimination.indegree (arrows edges) := by
  funext i
  rw [indegree, Elimination.indegree, arrows, List.countP_map]
  rfl

theorem countVisited_eq (n : Nat) (degree : String → Int) (queue : List String) (visited : Nat) :
    countVisited edges n degree queue visited =
      visited + (eliminate (arrows edges) pop n degree queue).length := by
  induction n generalizing degree queue visited with
  | zero => rfl
  | succ n ih =>
    rw [countVisited, eliminate, pop]
    cases queue.getLast? with
    | none => rfl
    | some current =>
      simp only [Option.map_some, succs_arrows, List.length_cons]
      rw [ih, Nat.add_assoc, Nat.add_comm 1]
      rfl

theorem ordered_eq (n : Nat) (degree : String → Int) (queue : List String) :
    ordered edges n degree queue = eliminate (arrows edges) popSmallest n degree queue := by
  induction n generalizing degree queue with
  | zero => rfl
  | succ n ih =>
    rw [ordered, eliminate, popSmallest]
    cases queue.insertionSort (· ≤ ·) with
    | nil => rfl
    | cons current queue =>
      simp only [succs_arrows, ih]
      rfl

/-! ### Agreement -/

theorem mem_arrows {e : String × String} : Worklists.Edge (arrows edges) e.1 e.2 ↔ ⟨e.1, e.2⟩ ∈ edges := by
  constructor
  · intro h
    obtain ⟨f, hf, he⟩ := List.mem_map.1 h
    obtain ⟨h₁, h₂⟩ := Prod.mk.inj he
    rwa [← h₁, ← h₂]
  · exact fun h => List.mem_map.2 ⟨_, h, rfl⟩

theorem edge_arrows (hE : ∀ e ∈ edges, e.fromId ∈ ids ∧ e.toId ∈ ids) (a b : String)
    (h : Worklists.Edge (arrows edges) a b) : a ∈ ids ∧ b ∈ ids :=
  hE _ (mem_arrows (e := (a, b)).1 h)

/-- The search of the validation finds a cycle exactly when there is one. -/
theorem hasCycle_eq_false_iff (hn : ids.Nodup) (hE : ∀ e ∈ edges, e.fromId ∈ ids ∧ e.toId ∈ ids) :
    hasCycle ids edges = false ↔ Acyclic (arrows edges) := by
  have hspec := Elimination.eliminate_spec (edge_arrows hE) picks_pop hn (Nat.lt_succ_self _)
  rw [← hspec.2.2, hasCycle, countVisited_eq, Nat.zero_add]
  simp only [ne_eq, decide_not, Bool.not_eq_false', decide_eq_true_eq, indegree_eq]

section Nodes

variable {κ : Type*} {nodes : List (WorkflowNode κ)}

/-- `by_id.get`. -/
def byId (nodes : List (WorkflowNode κ)) (i : String) : Option (WorkflowNode κ) :=
  nodes.reverse.find? fun n => n.id = i

theorem byId_of_mem {i : String} (h : i ∈ nodes.map WorkflowNode.id) :
    ∃ n ∈ nodes, byId nodes i = some n ∧ n.id = i := by
  obtain ⟨n, hnode, rfl⟩ := List.mem_map.1 h
  have hfound : (byId nodes n.id).isSome := List.find?_isSome.2 ⟨n, List.mem_reverse.2 hnode, by simp⟩
  obtain ⟨m, hm⟩ := Option.isSome_iff_exists.1 hfound
  exact ⟨m, List.mem_reverse.1 (List.mem_of_find?_eq_some hm), hm, by simpa using List.find?_some hm⟩

/-- The nodes that a list of ids stands for. -/
theorem filterMap_byId {order : List String} (h : order ⊆ nodes.map WorkflowNode.id) :
    (order.filterMap (byId nodes)).map WorkflowNode.id = order ∧ order.filterMap (byId nodes) ⊆ nodes := by
  induction order with
  | nil => exact ⟨rfl, List.nil_subset _⟩
  | cons i order ih =>
    obtain ⟨hids, hsub⟩ := ih fun j hj => h (List.mem_cons_of_mem _ hj)
    obtain ⟨n, hn, hfind, hid⟩ := byId_of_mem (h List.mem_cons_self)
    rw [List.filterMap_cons_some hfind]
    exact ⟨by rw [List.map_cons, hids, hid], List.cons_subset.2 ⟨hn, hsub⟩⟩

/-- An order of the ids is one of the nodes. -/
theorem perm_filterMap_byId (hn : (nodes.map WorkflowNode.id).Nodup) {order : List String}
    (h : order.Perm (nodes.map WorkflowNode.id)) :
    (order.filterMap (byId nodes)).map WorkflowNode.id = order ∧ (order.filterMap (byId nodes)).Perm nodes := by
  obtain ⟨hids, hsub⟩ := filterMap_byId h.subset
  have hnodup : (order.filterMap (byId nodes)).Nodup := by
    refine List.Nodup.of_map WorkflowNode.id ?_
    rw [hids]
    exact h.nodup_iff.2 hn
  have hlength := congrArg List.length hids
  rw [List.length_map, h.length_eq, List.length_map] at hlength
  exact ⟨hids, (hnodup.subperm hsub).perm_of_length_le hlength.ge⟩

/-- The order of the execution: all nodes, sorted along the edges, as long as there is no cycle. -/
theorem topologicalOrder_spec (hn : (nodes.map WorkflowNode.id).Nodup)
    (hE : ∀ e ∈ edges, e.fromId ∈ nodes.map WorkflowNode.id ∧ e.toId ∈ nodes.map WorkflowNode.id) :
    (Acyclic (arrows edges) ↔ ∃ order, topologicalOrder nodes edges = .ok order) ∧
      ∀ order, topologicalOrder nodes edges = .ok order →
        order.Perm nodes ∧ Sorted (arrows edges) (order.map WorkflowNode.id) := by
  have hknown : ¬ (edges.any fun e => e.fromId ∉ nodes.map WorkflowNode.id ∨ e.toId ∉ nodes.map WorkflowNode.id) := by
    rw [List.any_eq_true]
    rintro ⟨e, he, hout⟩
    have := hE e he
    simp_all
  have hspec := Elimination.eliminate_spec (edge_arrows hE) picks_popSmallest hn (n := nodes.length + 1) (by simp)
  rw [List.length_map] at hspec
  obtain ⟨hsorted, hsub, hall⟩ := hspec
  generalize hrun : eliminate (arrows edges) popSmallest _ _ _ = order at hsorted hsub hall
  have hresult : topologicalOrder nodes edges =
      if order.length ≠ nodes.length then .error "cycle in workflow graph"
      else .ok (order.filterMap (byId nodes)) := by
    simp only [topologicalOrder, hn.dedup, if_neg hknown, ordered_eq, indegree_eq, hrun]
    rfl
  rw [hresult, ← hall]
  by_cases hlength : order.length = nodes.length
  · obtain ⟨hids, hnodes⟩ := perm_filterMap_byId hn (hsub.perm_of_length_le (by simp [hlength]))
    rw [if_neg (not_not.2 hlength)]
    refine ⟨⟨fun _ => ⟨_, rfl⟩, fun _ => hlength⟩, fun result h => ?_⟩
    obtain rfl := Except.ok.inj h
    exact ⟨hnodes, by rwa [hids]⟩
  · rw [if_pos hlength]
    refine ⟨⟨fun h => absurd h hlength, fun h => ?_⟩, fun _ h => by cases h⟩
    obtain ⟨_, h⟩ := h
    cases h

theorem firstRepeated_eq_none_iff {seen : List String} :
    firstRepeated seen ids = none ↔ ids.Nodup ∧ ∀ i ∈ ids, i ∉ seen := by
  induction ids generalizing seen with
  | nil => simp [firstRepeated]
  | cons i ids ih =>
    rw [firstRepeated]
    by_cases hi : i ∈ seen
    · simp [hi]
    · rw [if_neg hi, ih, List.nodup_cons]
      constructor
      · rintro ⟨hn, hseen⟩
        refine ⟨⟨fun h => hseen i h List.mem_cons_self, hn⟩, fun j hj => ?_⟩
        rcases List.mem_cons.1 hj with rfl | hj
        · exact hi
        · exact fun h => hseen j hj (List.mem_cons_of_mem _ h)
      · rintro ⟨⟨hfree, hn⟩, hseen⟩
        refine ⟨hn, fun j hj h => ?_⟩
        rcases List.mem_cons.1 h with rfl | h
        · exact hfree hj
        · exact hseen j (List.mem_cons_of_mem _ hj) h

/-- What the validation finds before it looks at the nodes one by one. -/
structure Graph (nodes : List (WorkflowNode κ)) (edges : List WorkflowEdge) : Prop where
  nodup : (nodes.map WorkflowNode.id).Nodup
  known : ∀ e ∈ edges, e.fromId ∈ nodes.map WorkflowNode.id ∧ e.toId ∈ nodes.map WorkflowNode.id
  acyclic : Acyclic (arrows edges)

variable [DecidableEq κ]

theorem graph_of_validate {d : WorkflowDefinition κ} (h : validateWorkflowDefinition d = .ok ()) :
    Graph d.nodes d.edges := by
  unfold validateWorkflowDefinition at h
  dsimp only at h
  split at h
  · cases h
  · split at h
    · cases h
    · next hrep =>
      obtain ⟨hn, -⟩ := firstRepeated_eq_none_iff.1 hrep
      split at h
      · cases h
      · next hknown =>
        have hE : ∀ e ∈ d.edges, e.fromId ∈ d.nodes.map WorkflowNode.id ∧ e.toId ∈ d.nodes.map WorkflowNode.id := by
          simpa only [List.any_eq_true, decide_eq_true_eq, not_exists, not_and, not_or, not_not] using hknown
        split at h
        · cases h
        · next hcycle => exact ⟨hn, hE, (hasCycle_eq_false_iff hn hE).1 (Bool.eq_false_iff.2 hcycle)⟩

/-- The two searches agree on every graph, and an accepted definition always has an order. -/
theorem hasCycle_iff_ordered (hn : (nodes.map WorkflowNode.id).Nodup)
    (hE : ∀ e ∈ edges, e.fromId ∈ nodes.map WorkflowNode.id ∧ e.toId ∈ nodes.map WorkflowNode.id) :
    (hasCycle (nodes.map WorkflowNode.id) edges = false ↔ ∃ order, topologicalOrder nodes edges = .ok order) ∧
      (∀ order, topologicalOrder nodes edges = .ok order →
        order.Perm nodes ∧ Sorted (arrows edges) (order.map WorkflowNode.id)) ∧
      ∀ d : WorkflowDefinition κ, validateWorkflowDefinition d = .ok () →
        ∃ order, topologicalOrder d.nodes d.edges = .ok order := by
  obtain ⟨hiff, horder⟩ := topologicalOrder_spec hn hE
  refine ⟨(hasCycle_eq_false_iff hn hE).trans hiff, horder, fun d hd => ?_⟩
  have hgraph := graph_of_validate hd
  exact (topologicalOrder_spec hgraph.nodup hgraph.known).1.1 hgraph.acyclic

/-- Two nodes, with the edge between them twice. -/
theorem ordered_of_repeated_edge :
    let nodes : List (WorkflowNode String) :=
      [⟨"copy", "advisor", [], [], [], .failRun⟩, ⟨"audit", "advisor", [], [], [], .failRun⟩]
    let edges : List WorkflowEdge := [⟨"audit", "copy"⟩, ⟨"audit", "copy"⟩]
    hasCycle (nodes.map WorkflowNode.id) edges = false ∧ ∃ order, topologicalOrder nodes edges = .ok order ∧
      order.Perm nodes ∧ Sorted (arrows edges) (order.map WorkflowNode.id) := by
  intro nodes edges
  obtain ⟨hiff, horder, -⟩ := @hasCycle_iff_ordered edges String nodes _ (by decide) (by decide)
  have hcycle : hasCycle (nodes.map WorkflowNode.id) edges = false := by decide
  obtain ⟨order, ho⟩ := hiff.1 hcycle
  exact ⟨hcycle, order, ho, horder order ho⟩

end Nodes

end NexusStudio.Workshop.Workflow
