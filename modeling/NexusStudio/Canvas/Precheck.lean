import Mathlib
import NexusStudio.Canvas.Patch

/-!
# The precheck of a patch

`_collect_patch_conflicts` goes through the operations on the stored revisions before they are applied.

* (reads) What a read of a row gives after a row has been written.
* (simulation) The revisions that the precheck has come to are those of the rows that the operations have written
  (`Sim`, `outcome`).
* (runs) A precheck without a conflict means that none is raised, and the first conflict that it reports is raised unless
  another error comes first (`precheck_agrees`).
-/

set_option linter.unusedSectionVars false

namespace NexusStudio.CanvasPatch

open CanvasNodes

variable {υ φ δ : Type} [DecidableEq υ] {D : NodeData δ} {e : Nat} {db : Db υ φ δ}

def PatchError.IsConflict : PatchError υ → Prop
  | .revisionConflict _ => True
  | _ => False

def PatchError.IsNotFound : PatchError υ → Prop
  | .nodeNotFound _ | .edgeNotFound _ => True
  | _ => False

/-! ### Reads -/

section Reads

variable {nodes : List (NodeRow υ φ δ)} {edges news : List (EdgeRow υ δ)} {id : υ}

def readNode (e : Nat) (nodes : List (NodeRow υ φ δ)) (id : υ) : Except (PatchError υ) Nat :=
  (getNodeForUpdate e nodes id).map NodeRow.revision

def readEdge (e : Nat) (edges : List (EdgeRow υ δ)) (id : υ) : Except (PatchError υ) Nat :=
  (getEdgeForUpdate e edges id).map EdgeRow.revision

theorem readNode_append {row : NodeRow υ φ δ} (h : row.id ≠ id) :
    readNode e (nodes ++ [row]) id = readNode e nodes id := by
  have hrow : ([row].find? fun n => n.id = id ∧ n.liveIn e) = none :=
    List.find?_eq_none.2 fun n hn hid => h (List.mem_singleton.1 hn ▸ (of_decide_eq_true hid).1)
  rw [readNode, readNode, getNodeForUpdate, getNodeForUpdate, List.find?_append, hrow, Option.or_none]

theorem find_saveNode_ne {row : NodeRow υ φ δ} (h : id ≠ row.id) :
    ((saveNode nodes row).find? fun n => n.id = id ∧ n.liveIn e) = nodes.find? fun n => n.id = id ∧ n.liveIn e := by
  induction nodes with
  | nil => rfl
  | cons n nodes ih =>
    have hcons : saveNode (n :: nodes) row = (if n.id = row.id then row else n) :: saveNode nodes row := rfl
    rw [hcons]
    by_cases hn : n.id = row.id
    · rw [if_pos hn, List.find?_cons_of_neg, List.find?_cons_of_neg, ih]
      · exact fun hid => h ((of_decide_eq_true hid).1.symm.trans hn)
      · exact fun hid => h (of_decide_eq_true hid).1.symm
    · rw [if_neg hn, List.find?_cons, List.find?_cons, ih]

theorem find_saveNode_self {row : NodeRow υ φ δ} (hmem : row.id ∈ nodes.map NodeRow.id) :
    ((saveNode nodes row).find? fun n => n.id = row.id ∧ n.liveIn e) = if row.liveIn e then some row else none := by
  by_cases hlive : row.liveIn e = true
  · rw [if_pos hlive]
    induction nodes with
    | nil => cases hmem
    | cons n nodes ih =>
      have hcons : saveNode (n :: nodes) row = (if n.id = row.id then row else n) :: saveNode nodes row := rfl
      rw [hcons]
      by_cases hn : n.id = row.id
      · rw [if_pos hn, List.find?_cons_of_pos]
        exact decide_eq_true ⟨rfl, hlive⟩
      · rw [if_neg hn, List.find?_cons_of_neg fun hid => hn (of_decide_eq_true hid).1]
        exact ih ((List.mem_cons.1 hmem).resolve_left fun heq => hn heq.symm)
  · rw [if_neg hlive]
    refine List.find?_eq_none.2 fun m hm hid => ?_
    obtain ⟨hid, hm'⟩ := of_decide_eq_true hid
    obtain ⟨n, -, rfl⟩ := List.mem_map.1 hm
    split at hid
    · next hn =>
      rw [if_pos hn] at hm'
      exact hlive hm'
    · next hn => exact hn hid

/-- A row that is written is read, and the others as before. -/
theorem readNode_saveNode {row : NodeRow υ φ δ} (hmem : row.id ∈ nodes.map NodeRow.id) :
    readNode e (saveNode nodes row) = Function.update (readNode e nodes) row.id
      (if row.liveIn e then .ok row.revision else .error (.nodeNotFound (some row.id))) := by
  funext id
  by_cases hid : id = row.id
  · subst hid
    rw [Function.update_self, readNode, getNodeForUpdate, find_saveNode_self hmem]
    by_cases hlive : row.liveIn e = true
    · rw [if_pos hlive, if_pos hlive]
      rfl
    · rw [if_neg hlive, if_neg hlive]
      rfl
  · rw [Function.update_of_ne hid, readNode, readNode, getNodeForUpdate, getNodeForUpdate, find_saveNode_ne hid]

/-- An edge that has been deleted in the transaction. -/
def mark (deleted : List υ) (c : EdgeRow υ δ) : EdgeRow υ δ :=
  if c.id ∈ deleted then { c with deleted := true, revision := c.revision + 1 } else c

theorem mark_id (deleted : List υ) (c : EdgeRow υ δ) : (mark deleted c).id = c.id := by
  unfold mark
  split
  · rfl
  · rfl

/-- An edge is read as it was, unless it has been deleted. -/
theorem readEdge_mark {deleted : List υ} (hnews : ∀ c ∈ news, c.id ≠ id) :
    readEdge e (edges.map (mark deleted) ++ news) id =
      if id ∈ deleted then .error (.edgeNotFound id) else readEdge e edges id := by
  have hnone : (news.find? fun c => c.id = id ∧ c.liveIn e) = none :=
    List.find?_eq_none.2 fun c hc hid => hnews c hc (of_decide_eq_true hid).1
  have hfind : ((edges.map (mark deleted)).find? fun c => c.id = id ∧ c.liveIn e) =
      if id ∈ deleted then none else edges.find? fun c => c.id = id ∧ c.liveIn e := by
    induction edges with
    | nil => split <;> rfl
    | cons c edges ih =>
      rw [List.map_cons, List.find?_cons, ih]
      by_cases hid : c.id = id
      · by_cases hdeleted : id ∈ deleted
        · have hmark : (mark deleted c).liveIn e = false := by
            rw [mark, if_pos (hid ▸ hdeleted)]
            exact edge_not_liveIn rfl e
          simp only [hmark, Bool.false_eq_true, and_false, decide_false, hdeleted, if_true]
        · have hmark : mark deleted c = c := if_neg (hid ▸ hdeleted)
          rw [if_neg hdeleted, if_neg hdeleted, hmark, List.find?_cons]
      · have hid' : (mark deleted c).id ≠ id := by rwa [mark_id]
        simp only [hid', false_and, decide_false, List.find?_cons, hid]
  rw [readEdge, readEdge, getEdgeForUpdate, getEdgeForUpdate, List.find?_append, hnone, Option.or_none, hfind]
  by_cases hdeleted : id ∈ deleted
  · rw [if_pos hdeleted, if_pos hdeleted]
    rfl
  · rw [if_neg hdeleted, if_neg hdeleted]

end Reads

/-! ### The simulation -/

section Simulation

/-- The ids of what an operation creates. -/
def Op.made : Op υ φ δ → List υ
  | .createNode id _ _ _ _ _ anchor => id :: (anchor.map Anchor.edgeId).toList
  | .connect id .. => [id]
  | .updateNode .. | .deleteNode .. | .disconnect .. => []

/-- The row whose revision an operation names. -/
def Op.named : Op υ φ δ → Option υ
  | .createNode .. | .connect .. => none
  | .updateNode id .. | .deleteNode id _ | .disconnect id _ => some id

/-- What the precheck has come to, and what the operations have written; the ids in `made` are those of new rows. -/
structure Sim (db : Db υ φ δ) (e : Nat) (made : List υ) (w : Working υ) (t : Tx υ φ δ) : Prop where
  conflicts : w.conflicts = []
  nodeIds : ∀ id ∈ db.nodes.map NodeRow.id, id ∈ t.nodes.map NodeRow.id
  newNodes : ∀ n ∈ t.nodes, n.id ∈ db.nodes.map NodeRow.id ∨ n.id ∈ made
  nodes : ∀ id ∈ db.nodes.map NodeRow.id, workingNode e db w id = readNode e t.nodes id
  absent : ∀ id ∉ db.nodes.map NodeRow.id, workingNode e db w id = .error (.nodeNotFound (some id))
  edges : ∀ id, workingEdge e db w id =
    if id ∈ w.deletedEdges then .error (.edgeNotFound id) else readEdge e db.edges id
  rows : ∃ news, t.edges = db.edges.map (mark w.deletedEdges) ++ news ∧
    ∀ c ∈ news, c.id ∉ db.edges.map EdgeRow.id ∧ c.id ∈ made

theorem getNode_absent {nodes : List (NodeRow υ φ δ)} {id : υ} (h : id ∉ nodes.map NodeRow.id) :
    getNodeForUpdate e nodes id = .error (.nodeNotFound (some id)) := by
  have hnone : (nodes.find? fun n => n.id = id ∧ n.liveIn e) = none :=
    List.find?_eq_none.2 fun n hn hid => h (List.mem_map.2 ⟨n, hn, (of_decide_eq_true hid).1⟩)
  rw [getNodeForUpdate, hnone]

theorem getEdge_absent {edges : List (EdgeRow υ δ)} {id : υ} (h : id ∉ edges.map EdgeRow.id) :
    getEdgeForUpdate e edges id = .error (.edgeNotFound id) := by
  have hnone : (edges.find? fun c => c.id = id ∧ c.liveIn e) = none :=
    List.find?_eq_none.2 fun c hc hid => h (List.mem_map.2 ⟨c, hc, (of_decide_eq_true hid).1⟩)
  rw [getEdgeForUpdate, hnone]

theorem mark_nil (edges : List (EdgeRow υ δ)) : edges.map (mark []) = edges := by
  have hid : (mark [] : EdgeRow υ δ → EdgeRow υ δ) = id := funext fun c => if_neg List.not_mem_nil
  rw [hid, List.map_id]

theorem sim_begin (counts : EpisodeMeta) (made : List υ) :
    Sim db e made ⟨fun _ => none, fun _ => none, [], [], []⟩ (db.begin counts) where
  conflicts := rfl
  nodeIds _ h := h
  newNodes n hn := .inl (List.mem_map_of_mem hn)
  nodes _ _ := rfl
  absent id h := by
    have hmissing : (getNodeForUpdate e db.nodes id).map NodeRow.revision = .error (.nodeNotFound (some id)) := by
      rw [getNode_absent h]
      rfl
    exact hmissing
  edges _ := rfl
  rows := ⟨[], by rw [mark_nil, List.append_nil]; rfl, fun _ h => absurd h List.not_mem_nil⟩

variable {made : List υ} {w : Working υ} {t t' : Tx υ φ δ}

/-- The precheck and the operations read the same revision of a row that is not new. -/
theorem Sim.readNode (h : Sim db e made w t) {id : υ} (hid : id ∈ db.nodes.map NodeRow.id ∨ id ∉ made) :
    CanvasPatch.readNode e t.nodes id = workingNode e db w id := by
  by_cases hdb : id ∈ db.nodes.map NodeRow.id
  · exact (h.nodes id hdb).symm
  · have habsent : id ∉ t.nodes.map NodeRow.id := by
      intro hmem
      obtain ⟨n, hn, rfl⟩ := List.mem_map.1 hmem
      exact (h.newNodes n hn).elim hdb (hid.resolve_left hdb)
    rw [CanvasPatch.readNode, getNode_absent habsent, h.absent id hdb]
    rfl

theorem Sim.readEdge (h : Sim db e made w t) {id : υ} (hid : id ∈ db.edges.map EdgeRow.id ∨ id ∉ made) :
    CanvasPatch.readEdge e t.edges id = workingEdge e db w id := by
  obtain ⟨news, hrows, hnews⟩ := h.rows
  rw [hrows, h.edges, readEdge_mark]
  rintro c hc rfl
  exact hid.elim (hnews c hc).1 fun hmade => hmade (hnews c hc).2

theorem workingNode_error {id : υ} {err : PatchError υ} (h : workingNode e db w id = .error err) :
    err = .nodeNotFound (some id) := by
  unfold workingNode at h
  split at h
  · cases h
    rfl
  · split at h
    · cases h
    · have hget := map_eq_error h
      unfold getNodeForUpdate at hget
      split at hget
      · cases hget
      · cases hget
        rfl

theorem workingEdge_error {id : υ} {err : PatchError υ} (h : workingEdge e db w id = .error err) :
    err = .edgeNotFound id := by
  unfold workingEdge at h
  split at h
  · cases h
    rfl
  · split at h
    · cases h
    · have hget := map_eq_error h
      unfold getEdgeForUpdate at hget
      split at hget
      · cases hget
      · cases hget
        rfl

/-- A node that the precheck has a revision of is stored, and read with that revision. -/
theorem Sim.getNode (h : Sim db e made w t) {id : υ} {actual : Nat} (hw : workingNode e db w id = .ok actual) :
    id ∈ db.nodes.map NodeRow.id ∧ ∃ row, getNodeForUpdate e t.nodes id = .ok row ∧ row.revision = actual := by
  have hid : id ∈ db.nodes.map NodeRow.id := by
    by_contra hne
    rw [h.absent id hne] at hw
    cases hw
  exact ⟨hid, map_eq_ok ((h.readNode (.inl hid)).trans hw)⟩

theorem Sim.getEdge (h : Sim db e made w t) {id : υ} {actual : Nat} (hw : workingEdge e db w id = .ok actual) :
    (id ∉ w.deletedEdges ∧ id ∈ db.edges.map EdgeRow.id) ∧
      ∃ row, getEdgeForUpdate e t.edges id = .ok row ∧ row.revision = actual := by
  have hread := h.edges id
  rw [hw] at hread
  have hdeleted : id ∉ w.deletedEdges := by
    intro hmem
    rw [if_pos hmem] at hread
    cases hread
  have hid : id ∈ db.edges.map EdgeRow.id := by
    by_contra hne
    rw [if_neg hdeleted, CanvasPatch.readEdge, getEdge_absent hne] at hread
    cases hread
  exact ⟨⟨hdeleted, hid⟩, map_eq_ok ((h.readEdge (.inl hid)).trans hw)⟩

/-! ### What an operation keeps -/

theorem Sim.append_node (h : Sim db e made w t) {row : NodeRow υ φ δ} (hnew : row.id ∉ t.nodes.map NodeRow.id)
    (hmade : row.id ∈ made) (hnodes : t'.nodes = t.nodes ++ [row]) (hedges : t'.edges = t.edges) :
    Sim db e made w t' where
  conflicts := h.conflicts
  nodeIds id hid := by
    rw [hnodes, List.map_append]
    exact List.mem_append_left _ (h.nodeIds id hid)
  newNodes n hn := by
    rw [hnodes] at hn
    rcases List.mem_append.1 hn with hn | hn
    · exact h.newNodes n hn
    · exact .inr (List.mem_singleton.1 hn ▸ hmade)
  nodes id hid := by
    rw [hnodes, readNode_append fun heq => hnew (heq ▸ h.nodeIds id hid)]
    exact h.nodes id hid
  absent := h.absent
  edges := h.edges
  rows := hedges ▸ h.rows

theorem Sim.append_edge (h : Sim db e made w t) {row : EdgeRow υ δ} (hnew : row.id ∉ t.edges.map EdgeRow.id)
    (hmade : row.id ∈ made) (hnodes : t'.nodes = t.nodes) (hedges : t'.edges = t.edges ++ [row]) :
    Sim db e made w t' where
  conflicts := h.conflicts
  nodeIds := hnodes ▸ h.nodeIds
  newNodes := hnodes ▸ h.newNodes
  nodes := hnodes ▸ h.nodes
  absent := h.absent
  edges := h.edges
  rows := by
    obtain ⟨news, hrows, hnews⟩ := h.rows
    refine ⟨news ++ [row], by rw [hedges, hrows, List.append_assoc], fun c hc => ?_⟩
    rcases List.mem_append.1 hc with hc | hc
    · exact hnews c hc
    · obtain rfl := List.mem_singleton.1 hc
      refine ⟨fun hdb => hnew ?_, hmade⟩
      obtain ⟨c', hc', hid⟩ := List.mem_map.1 hdb
      rw [hrows, List.map_append]
      exact List.mem_append_left _ (List.mem_map.2 ⟨_, List.mem_map_of_mem hc', (mark_id _ c').trans hid⟩)

/-- A node is written, and the precheck takes the same revision, or has it as deleted. -/
theorem Sim.save_node (h : Sim db e made w t) {w' : Working υ} {row : NodeRow υ φ δ}
    (hnodes : t'.nodes = saveNode t.nodes row) (hid : row.id ∈ db.nodes.map NodeRow.id)
    (hworking : workingNode e db w' = Function.update (workingNode e db w) row.id
      (if row.liveIn e then .ok row.revision else .error (.nodeNotFound (some row.id))))
    (hconflicts : w'.conflicts = [])
    (hedges : ∀ id, workingEdge e db w' id =
      if id ∈ w'.deletedEdges then .error (.edgeNotFound id) else CanvasPatch.readEdge e db.edges id)
    (hrows : ∃ news, t'.edges = db.edges.map (mark w'.deletedEdges) ++ news ∧
      ∀ c ∈ news, c.id ∉ db.edges.map EdgeRow.id ∧ c.id ∈ made) : Sim db e made w' t' where
  conflicts := hconflicts
  nodeIds id hmem := by
    rw [hnodes, saveNode, map_save]
    exact h.nodeIds id hmem
  newNodes n hn := by
    rw [hnodes] at hn
    obtain ⟨m, hm, rfl⟩ := List.mem_map.1 hn
    split
    · exact .inl hid
    · exact h.newNodes m hm
  nodes id hmem := by
    rw [hnodes, readNode_saveNode (h.nodeIds _ hid), hworking]
    by_cases hrow : id = row.id
    · rw [hrow, Function.update_self, Function.update_self]
    · rw [Function.update_of_ne hrow, Function.update_of_ne hrow]
      exact h.nodes id hmem
  absent id hmem := by
    have hne : id ≠ row.id := by
      rintro rfl
      exact hmem hid
    rw [hworking, Function.update_of_ne hne]
    exact h.absent id hmem
  edges := hedges
  rows := hrows

/-! ### The outcomes of an operation -/

/-- A result that is as it should be, or an error that is no conflict. -/
def Follows {α : Type} (p : α → Prop) : Except (PatchError υ) α → Prop
  | .ok a => p a
  | .error err => ¬ err.IsConflict

theorem follows_bind {α β : Type} {p : α → Prop} {q : β → Prop} {x : Except (PatchError υ) α}
    {f : α → Except (PatchError υ) β} (hx : Follows p x) (hf : ∀ a, p a → Follows q (f a)) : Follows q (x >>= f) := by
  cases x with
  | error err => exact hx
  | ok a => exact hf a hx

theorem follows_liftData {α : Type} (x : Except String α) :
    Follows (fun _ => True) (liftData x : Except (PatchError υ) α) := by
  cases x with
  | error message => exact id
  | ok a => trivial

theorem follows_mergeData (row : NodeRow υ φ δ) (data : Option δ) : Follows (fun _ => True) (mergeData D row data) := by
  cases data with
  | none => trivial
  | some data => exact follows_liftData _

theorem follows_createNode (h : Sim db e made w t) {row : NodeRow υ φ δ} (hmade : row.id ∈ made) :
    Follows (Sim db e made w) (createNode D t row) := by
  unfold createNode
  split
  · exact id
  · next hnew => exact follows_bind (follows_liftData _) fun _ _ => h.append_node hnew hmade rfl rfl

theorem follows_connectNodes (h : Sim db e made w t) {id source target : υ} {wire : Wire δ} (hmade : id ∈ made) :
    Follows (Sim db e made w) (connectNodes e t id source target wire) := by
  have hrequire : Follows (fun _ => True) (requireNodes e t.nodes [source, target]) := by
    unfold requireNodes
    split
    · exact False.elim
    · trivial
  refine follows_bind hrequire fun _ _ => ?_
  dsimp only
  split
  · exact fun hconflict => hconflict
  · next hnew => exact h.append_edge hnew hmade rfl rfl

theorem workingNode_update {id : υ} (hid : id ∉ w.deletedNodes) (revision : Nat) :
    workingNode e db { w with nodeWorking := Function.update w.nodeWorking id (some revision) } =
      Function.update (workingNode e db w) id (.ok revision) := by
  funext id'
  by_cases heq : id' = id
  · subst heq
    rw [Function.update_self, workingNode]
    simp only [hid, if_false, Function.update_self]
  · rw [Function.update_of_ne heq, workingNode, workingNode]
    simp only [Function.update_of_ne heq]

theorem workingNode_delete {w' : Working υ} {id : υ} (hdeleted : w'.deletedNodes = w.deletedNodes ++ [id])
    (hworking : ∀ id', id' ≠ id → w'.nodeWorking id' = w.nodeWorking id') :
    workingNode e db w' = Function.update (workingNode e db w) id (.error (.nodeNotFound (some id))) := by
  funext id'
  by_cases heq : id' = id
  · subst heq
    rw [Function.update_self, workingNode, hdeleted, if_pos (List.mem_append_right _ (List.mem_singleton_self _))]
  · have hmem : id' ∈ w'.deletedNodes ↔ id' ∈ w.deletedNodes := by
      rw [hdeleted, List.mem_append, List.mem_singleton]
      exact or_iff_left heq
    rw [Function.update_of_ne heq, workingNode, workingNode, hworking id' heq]
    simp only [hmem]

theorem Sim.delete_edges (h : Sim db e made w t) {w' : Working υ} {gone : List υ}
    (hdeleted : w'.deletedEdges = w.deletedEdges ++ gone)
    (hworking : ∀ id, id ∉ gone → w'.edgeWorking id = w.edgeWorking id) (id : υ) :
    workingEdge e db w' id =
      if id ∈ w'.deletedEdges then .error (.edgeNotFound id) else CanvasPatch.readEdge e db.edges id := by
  by_cases hmem : id ∈ w'.deletedEdges
  · rw [workingEdge, if_pos hmem, if_pos hmem]
  · have hold : id ∉ w.deletedEdges ∧ id ∉ gone := by
      rwa [hdeleted, List.mem_append, not_or] at hmem
    have hedges := h.edges id
    rw [workingEdge, if_neg hold.1, if_neg hold.1] at hedges
    rw [workingEdge, if_neg hmem, if_neg hmem, hworking id hold.2]
    exact hedges

/-- The edges that a deleted node takes with it are those that the precheck takes for deleted. -/
theorem map_cascade (hkeys : (db.edges.map EdgeRow.id).Nodup) (deleted : List υ) (id : υ) :
    (db.edges.map (mark deleted)).map
        (fun c => if touches e id c then { c with deleted := true, revision := c.revision + 1 } else c) =
      db.edges.map (mark (deleted ++ ((db.edges.filter (touches e id)).map EdgeRow.id).filter fun c => c ∉ deleted)) := by
  rw [List.map_map]
  refine List.map_congr_left fun c hc => ?_
  rw [Function.comp_apply]
  by_cases hdeleted : c.id ∈ deleted
  · have hmark : mark deleted c = { c with deleted := true, revision := c.revision + 1 } := if_pos hdeleted
    have hquiet : ¬ touches e id (mark deleted c) = true := by
      intro htouches
      have hlive := (of_decide_eq_true htouches).1
      rw [hmark, edge_not_liveIn rfl e] at hlive
      cases hlive
    rw [if_neg hquiet, hmark, mark, if_pos (List.mem_append_left _ hdeleted)]
  · have hmark : mark deleted c = c := if_neg hdeleted
    have hmem : c.id ∈ deleted ++ ((db.edges.filter (touches e id)).map EdgeRow.id).filter (fun c => c ∉ deleted) ↔
        touches e id c = true := by
      rw [List.mem_append, or_iff_right hdeleted, List.mem_filter, and_iff_left (decide_eq_true hdeleted)]
      constructor
      · intro hid
        obtain ⟨c', hc', heq⟩ := List.mem_map.1 hid
        obtain ⟨hc', htouches⟩ := List.mem_filter.1 hc'
        exact List.inj_on_of_nodup_map hkeys hc' hc heq ▸ htouches
      · exact fun htouches => List.mem_map_of_mem (List.mem_filter.2 ⟨hc, htouches⟩)
    rw [hmark, mark]
    by_cases htouches : touches e id c = true
    · rw [if_pos htouches, if_pos (hmem.2 htouches)]
    · rw [if_neg htouches, if_neg fun h => htouches (hmem.1 h)]

/-- An edge that is saved as deleted is one that the precheck takes for deleted. -/
theorem map_disconnect (hkeys : (db.edges.map EdgeRow.id).Nodup) {deleted : List υ} {c : EdgeRow υ δ} (hc : c ∈ db.edges)
    (hdeleted : c.id ∉ deleted) :
    saveEdge (db.edges.map (mark deleted)) { c with deleted := true, revision := c.revision + 1 } =
      db.edges.map (mark (deleted ++ [c.id])) := by
  rw [saveEdge, List.map_map]
  refine List.map_congr_left fun c' hc' => ?_
  rw [Function.comp_apply, mark_id]
  dsimp only
  by_cases hid : c'.id = c.id
  · obtain rfl := List.inj_on_of_nodup_map hkeys hc' hc hid
    rw [if_pos rfl, mark, if_pos (List.mem_append_right _ (List.mem_singleton_self _))]
  · rw [if_neg hid, mark, mark]
    have hmem : c'.id ∈ deleted ++ [c.id] ↔ c'.id ∈ deleted := by
      rw [List.mem_append, List.mem_singleton]
      exact or_iff_left hid
    simp only [hmem]

/-- What comes of an operation in the precheck, and of the operation itself. -/
inductive Outcome (D : NodeData δ) (e : Nat) (db : Db υ φ δ) (made : List υ) (w : Working υ) (t : Tx υ φ δ)
    (op : Op υ φ δ) : Prop
  | clean {w' : Working υ} (hw : collect e db w op = .ok w') (hnone : w'.conflicts = [])
      (happly : Follows (Sim db e made w') (applyOp D e t op))
  | conflict {w' : Working υ} {c : Conflict υ} (hw : collect e db w op = .ok w') (hc : w'.conflicts = [c])
      (happly : applyOp D e t op = .error (.revisionConflict [c]))
  | missing {err : PatchError υ} (hw : collect e db w op = .error err) (hmissing : err.IsNotFound)
      (happly : (∀ id ∈ op.named, id ∉ made) → applyOp D e t op = .error err)

/-- An operation that names a revision: the precheck has one of the row, and the operation reads the row with it. -/
theorem outcome_of_revision {ρ : Type} {op : Op υ φ δ} {kind : EntityKind} {id : υ} {expected : Nat}
    {working : Except (PatchError υ) Nat} {get : Except (PatchError υ) ρ} {revision : ρ → Nat}
    {stays next : Nat → Working υ} {rest : ρ → Except (PatchError υ) (Tx υ φ δ)}
    (hcollect : collect e db w op = working >>= fun actual =>
      if actual ≠ expected then .ok ((stays actual).conflict kind id expected actual) else .ok (next actual))
    (happly : applyOp D e t op = get >>= fun row =>
      requireEntityRevision kind id expected (revision row) >>= fun _ => rest row)
    (hstays : ∀ actual, (stays actual).conflicts = [] ∧ (next actual).conflicts = [])
    (hmissing : ∀ err, working = .error err → err.IsNotFound ∧ ((∀ id ∈ op.named, id ∉ made) → get = .error err))
    (hread : ∀ actual, working = .ok actual → ∃ row, get = .ok row ∧ revision row = actual ∧
      Follows (Sim db e made (next actual)) (rest row)) : Outcome D e db made w t op := by
  cases hworking : working with
  | error err =>
    obtain ⟨hnotFound, hget⟩ := hmissing err hworking
    refine .missing (by rw [hcollect, hworking]; rfl) hnotFound fun hfresh => ?_
    rw [happly, hget hfresh]
    rfl
  | ok actual =>
    obtain ⟨row, hget, rfl, hrest⟩ := hread actual hworking
    by_cases heq : revision row = expected
    · have hw : collect e db w op = .ok (next (revision row)) := by
        rw [hcollect, hworking]
        exact if_neg (not_not.2 heq)
      have hrequire : requireEntityRevision kind id expected (revision row) = .ok () := if_neg (not_not.2 heq)
      refine .clean hw (hstays _).2 ?_
      have hop : applyOp D e t op = rest row := by
        rw [happly, hget]
        change requireEntityRevision kind id expected (revision row) >>= _ = _
        rw [hrequire]
        rfl
      rwa [hop]
    · have hw : collect e db w op = .ok ((stays (revision row)).conflict kind id expected (revision row)) := by
        rw [hcollect, hworking]
        exact if_pos heq
      have hrequire : requireEntityRevision kind id expected (revision row) =
          .error (.revisionConflict [⟨kind, id, expected, revision row⟩]) := if_pos heq
      refine .conflict hw (congrArg (· ++ _) (hstays _).1) ?_
      rw [happly, hget]
      change requireEntityRevision kind id expected (revision row) >>= _ = _
      rw [hrequire]
      rfl

theorem Sim.missing_node (h : Sim db e made w t) {id : υ} {err : PatchError υ} (hw : workingNode e db w id = .error err) :
    err.IsNotFound ∧ (id ∉ made → getNodeForUpdate e t.nodes id = .error err) := by
  refine ⟨by rw [workingNode_error hw]; trivial, fun hfresh => ?_⟩
  exact map_eq_error ((h.readNode (.inr hfresh)).trans hw)

theorem Sim.missing_edge (h : Sim db e made w t) {id : υ} {err : PatchError υ} (hw : workingEdge e db w id = .error err) :
    err.IsNotFound ∧ (id ∉ made → getEdgeForUpdate e t.edges id = .error err) := by
  refine ⟨by rw [workingEdge_error hw]; trivial, fun hfresh => ?_⟩
  exact map_eq_error ((h.readEdge (.inr hfresh)).trans hw)

/-- The precheck takes the next revision of a node that is updated, and so does the row. -/
theorem outcome_updateNode (h : Sim db e made w t) (id : υ) (revision : Nat) (position : Option (φ × φ))
    (width height : Option φ) (data : Option δ) :
    Outcome D e db made w t (.updateNode id revision position width height data) := by
  refine outcome_of_revision rfl rfl (fun _ => ⟨h.conflicts, h.conflicts⟩)
    (fun err hw => (h.missing_node hw).imp_right fun hget hfresh => hget (hfresh id rfl)) fun actual hw => ?_
  obtain ⟨hid, row, hrow, rfl⟩ := h.getNode hw
  obtain ⟨-, rfl, hlive⟩ := getNode_ok hrow
  refine ⟨row, hrow, rfl, follows_bind (follows_mergeData row data) fun data' _ =>
    follows_bind (follows_liftData _) fun _ _ => h.save_node rfl hid ?_ h.conflicts h.edges h.rows⟩
  have hdeleted : row.id ∉ w.deletedNodes := by
    intro hgone
    rw [workingNode, if_pos hgone] at hw
    cases hw
  let w₁ : Working υ := { w with nodeWorking := Function.update w.nodeWorking row.id (some row.revision) }
  have hdeleted₁ : row.id ∉ w₁.deletedNodes := hdeleted
  have hfirst : workingNode e db w₁ = Function.update (workingNode e db w) row.id (.ok row.revision) :=
    workingNode_update hdeleted _
  refine (workingNode_update hdeleted₁ (row.revision + 1)).trans ?_
  rw [hfirst, Function.update_idem]
  exact congrArg (Function.update _ _) (if_pos hlive).symm

/-- A deleted node takes its edges with it, in the precheck those that are stored. -/
theorem outcome_deleteNode (hkeys : (db.edges.map EdgeRow.id).Nodup) (h : Sim db e made w t) (id : υ)
    (expected : Nat) : Outcome D e db made w t (.deleteNode id expected) := by
  refine outcome_of_revision rfl rfl (fun _ => ⟨h.conflicts, h.conflicts⟩)
    (fun err hw => (h.missing_node hw).imp_right fun hget hfresh => hget (hfresh id rfl)) fun actual hw => ?_
  obtain ⟨hid, row, hrow, rfl⟩ := h.getNode hw
  obtain ⟨-, rfl, -⟩ := getNode_ok hrow
  refine ⟨row, hrow, rfl, h.save_node rfl hid ?_ h.conflicts (h.delete_edges rfl fun id hgone => if_neg hgone) ?_⟩
  · refine (workingNode_delete rfl fun id' hne => ?_).trans (congrArg (Function.update _ _) (if_neg ?_).symm)
    · exact (Function.update_of_ne hne _ _).trans (Function.update_of_ne hne _ _)
    · rw [node_not_liveIn rfl e]
      exact Bool.false_ne_true
  · obtain ⟨news, hrows, hnews⟩ := h.rows
    refine ⟨news.map fun c =>
      if touches e row.id c then { c with deleted := true, revision := c.revision + 1 } else c, ?_, fun c hc => ?_⟩
    · rw [hrows, List.map_append, map_cascade hkeys]
    · obtain ⟨c', hc', rfl⟩ := List.mem_map.1 hc
      split
      · exact hnews c' hc'
      · exact hnews c' hc'

theorem outcome_disconnect (hkeys : (db.edges.map EdgeRow.id).Nodup) (h : Sim db e made w t) (id : υ)
    (expected : Nat) : Outcome D e db made w t (.disconnect id expected) := by
  refine outcome_of_revision rfl rfl (fun _ => ⟨h.conflicts, h.conflicts⟩)
    (fun err hw => (h.missing_edge hw).imp_right fun hget hfresh => hget (hfresh id rfl)) fun actual hw => ?_
  obtain ⟨⟨hdeleted, hid⟩, row, hrow, rfl⟩ := h.getEdge hw
  obtain ⟨hmem, rfl, -⟩ := getEdge_ok hrow
  obtain ⟨news, hrows, hnews⟩ := h.rows
  have hstored : row ∈ db.edges := by
    rw [hrows] at hmem
    rcases List.mem_append.1 hmem with hmem | hmem
    · obtain ⟨c, hc, rfl⟩ := List.mem_map.1 hmem
      rw [mark_id] at hdeleted
      rwa [mark, if_neg hdeleted]
    · exact absurd hid (hnews row hmem).1
  have hother : saveEdge news { row with deleted := true, revision := row.revision + 1 } = news := by
    refine (List.map_congr_left fun c hc => if_neg fun heq : c.id = row.id => ?_).trans (List.map_id news)
    exact (hnews c hc).1 (heq ▸ hid)
  refine ⟨row, hrow, rfl, h.conflicts, h.nodeIds, h.newNodes, h.nodes, h.absent, ?_, news, ?_, hnews⟩
  · refine h.delete_edges rfl fun id hgone => ?_
    have hne : id ≠ row.id := fun heq => hgone (List.mem_singleton.2 heq)
    exact (Function.update_of_ne hne _ _).trans (Function.update_of_ne hne _ _)
  · have happend : saveEdge t.edges { row with deleted := true, revision := row.revision + 1 } =
        saveEdge (db.edges.map (mark w.deletedEdges)) { row with deleted := true, revision := row.revision + 1 } ++
          saveEdge news { row with deleted := true, revision := row.revision + 1 } := by
      rw [hrows]
      exact List.map_append
    exact happend.trans (by rw [map_disconnect hkeys hstored hdeleted, hother])

/-- What is created has no revision that the precheck would compare. -/
theorem outcome_create (h : Sim db e made w t) {op : Op υ φ δ} (hcollect : collect e db w op = .ok w)
    (happly : Follows (Sim db e made w) (applyOp D e t op)) : Outcome D e db made w t op :=
  .clean hcollect h.conflicts happly

theorem outcome (hkeys : (db.edges.map EdgeRow.id).Nodup) (h : Sim db e made w t) (op : Op υ φ δ)
    (hmade : ∀ id ∈ op.made, id ∈ made) : Outcome D e db made w t op := by
  cases op with
  | createNode id kind position width height data anchor =>
    refine outcome_create h rfl (follows_bind (follows_liftData _) fun data _ => ?_)
    refine follows_bind (follows_createNode h (hmade id List.mem_cons_self)) fun u hu => ?_
    cases anchor with
    | none => exact hu
    | some a =>
      have hedge : a.edgeId ∈ made := hmade _ (List.mem_cons_of_mem _ (List.mem_singleton_self _))
      dsimp only
      split
      · exact follows_connectNodes hu hedge
      · exact follows_connectNodes hu hedge
  | updateNode id revision position width height data => exact outcome_updateNode h id revision position width height data
  | deleteNode id expected => exact outcome_deleteNode hkeys h id expected
  | connect id source target wire =>
    exact outcome_create h rfl (follows_connectNodes h (hmade id (List.mem_singleton_self _)))
  | disconnect id expected => exact outcome_disconnect hkeys h id expected

/-! ### Runs -/

/-- The precheck of an operation that names a revision. -/
theorem collect_cases (w : Working υ) (op : Op υ φ δ) : collect e db w op = .ok w ∨
    ∃ (working : Except (PatchError υ) Nat) (c : Nat → Conflict υ) (expected : Nat) (stays next : Nat → Working υ),
      collect e db w op = (working >>= fun actual =>
        if actual ≠ expected then .ok { stays actual with conflicts := w.conflicts ++ [c actual] } else .ok (next actual)) ∧
      (∀ actual, (next actual).conflicts = w.conflicts) ∧ ∀ err, working = .error err → err.IsNotFound := by
  cases op with
  | createNode id kind position width height data anchor => exact .inl rfl
  | connect id source target wire => exact .inl rfl
  | updateNode id revision position width height data =>
    refine .inr ⟨_, _, _, _, _, rfl, fun _ => rfl, fun err herr => ?_⟩
    rw [workingNode_error herr]
    trivial
  | deleteNode id expected =>
    refine .inr ⟨_, _, _, _, _, rfl, fun _ => rfl, fun err herr => ?_⟩
    rw [workingNode_error herr]
    trivial
  | disconnect id expected =>
    refine .inr ⟨_, _, _, _, _, rfl, fun _ => rfl, fun err herr => ?_⟩
    rw [workingEdge_error herr]
    trivial

theorem collect_error {op : Op υ φ δ} {err : PatchError υ} (h : collect e db w op = .error err) : err.IsNotFound := by
  rcases collect_cases w op with hok | ⟨working, c, expected, stays, next, hcollect, -, hmissing⟩
  · rw [hok] at h
    cases h
  · rw [hcollect] at h
    cases hworking : working with
    | error err' =>
      rw [hworking] at h
      cases h
      exact hmissing err hworking
    | ok actual =>
      rw [hworking] at h
      change (if actual ≠ expected then _ else _) = _ at h
      split at h
      · cases h
      · cases h

/-- A conflict that has been found stays the first. -/
theorem collect_conflicts {op : Op υ φ δ} {w' : Working υ} (h : collect e db w op = .ok w') :
    w.conflicts <+: w'.conflicts := by
  rcases collect_cases w op with hok | ⟨working, c, expected, stays, next, hcollect, hnext, -⟩
  · rw [hok] at h
    cases h
    exact List.prefix_rfl
  · rw [hcollect] at h
    obtain ⟨actual, -, h⟩ := bind_eq_ok.1 h
    split at h
    · cases h
      exact List.prefix_append _ _
    · cases h
      rw [hnext]

theorem foldlM_collect_conflicts {ops : List (Op υ φ δ)} {w' : Working υ}
    (h : ops.foldlM (collect e db) w = .ok w') : w.conflicts <+: w'.conflicts := by
  induction ops generalizing w with
  | nil =>
    cases h
    exact List.prefix_rfl
  | cons op ops ih =>
    rw [List.foldlM_cons] at h
    obtain ⟨w₁, hw₁, h⟩ := bind_eq_ok.1 h
    exact (collect_conflicts hw₁).trans (ih h)

theorem foldlM_collect_error {ops : List (Op υ φ δ)} {err : PatchError υ}
    (h : ops.foldlM (collect e db) w = .error err) : err.IsNotFound := by
  induction ops generalizing w with
  | nil => cases h
  | cons op ops ih =>
    rw [List.foldlM_cons] at h
    cases hw₁ : collect e db w op with
    | error err' =>
      rw [hw₁] at h
      cases h
      exact collect_error hw₁
    | ok w₁ =>
      rw [hw₁] at h
      exact ih h

/-- What the precheck says of a patch, and what comes of its operations. -/
structure Agree {α : Type} (precheck : Except (PatchError υ) (List (Conflict υ))) (applied : Except (PatchError υ) α) :
    Prop where
  clean : precheck = .ok [] → ∀ conflicts, applied ≠ .error (.revisionConflict conflicts)
  reported : ∀ c rest, precheck = .ok (c :: rest) →
    applied = .error (.revisionConflict [c]) ∨ ∃ err, applied = .error err ∧ ¬ err.IsConflict
  raised : ∀ conflicts, applied = .error (.revisionConflict conflicts) →
    (∃ c rest, conflicts = [c] ∧ precheck = .ok (c :: rest)) ∨ ∃ err, precheck = .error err ∧ err.IsNotFound

theorem agree_of_error {α : Type} {precheck : Except (PatchError υ) (List (Conflict υ))} {err : PatchError υ}
    (h : ¬ err.IsConflict) : Agree precheck (.error err : Except (PatchError υ) α) where
  clean _ conflicts heq := by
    cases heq
    exact h trivial
  reported _ _ _ := .inr ⟨err, rfl, h⟩
  raised conflicts heq := by
    cases heq
    exact absurd trivial h

theorem agree_of_missing {α : Type} {applied : Except (PatchError υ) α} {err : PatchError υ} (h : err.IsNotFound) :
    Agree (.error err) applied where
  clean heq := by cases heq
  reported _ _ heq := by cases heq
  raised _ _ := .inr ⟨err, rfl, h⟩

/-- A conflict of the precheck that the operation raises, whatever the precheck goes on with. -/
theorem agree_of_conflict {α : Type} {w' : Working υ} {c : Conflict υ} (hc : w'.conflicts = [c])
    (ops : List (Op υ φ δ)) : Agree ((ops.foldlM (collect e db) w').map Working.conflicts)
      (.error (.revisionConflict [c]) : Except (PatchError υ) α) := by
  cases hrest : ops.foldlM (collect e db) w' with
  | error err => exact agree_of_missing (foldlM_collect_error hrest)
  | ok w'' =>
    obtain ⟨rest, hrest⟩ := foldlM_collect_conflicts hrest
    have hconflicts : (Except.ok w'' : Except (PatchError υ) (Working υ)).map Working.conflicts = .ok (c :: rest) := by
      rw [hc] at hrest
      exact congrArg Except.ok hrest.symm
    rw [hconflicts]
    refine ⟨fun heq => (by cases heq), fun c' rest' heq => ?_, fun conflicts heq => ?_⟩
    · cases heq
      exact .inl rfl
    · cases heq
      exact .inl ⟨c, rest, rfl, rfl⟩

/-- By induction on the operations: up to the first conflict or error both go on together. -/
theorem agree_foldlM (hkeys : (db.edges.map EdgeRow.id).Nodup) (h : Sim db e made w t) (ops : List (Op υ φ δ))
    (hmade : ∀ op ∈ ops, ∀ id ∈ op.made, id ∈ made) :
    Agree ((ops.foldlM (collect e db) w).map Working.conflicts) (ops.foldlM (applyOp D e) t) ∧
      ((∀ op ∈ ops, ∀ id ∈ op.named, id ∉ made) →
        ∀ conflicts, ops.foldlM (applyOp D e) t = .error (.revisionConflict conflicts) →
          ∃ k c, conflicts = [c] ∧ ((ops.take k).foldlM (collect e db) w).map Working.conflicts = .ok [c]) := by
  induction ops generalizing w t with
  | nil =>
    have hnone : (Except.ok w : Except (PatchError υ) (Working υ)).map Working.conflicts = .ok [] :=
      congrArg Except.ok h.conflicts
    refine ⟨⟨fun _ _ heq => (by cases heq), fun c rest heq => ?_, fun _ heq => (by cases heq)⟩,
      fun _ _ heq => (by cases heq)⟩
    rw [List.foldlM_nil] at heq
    cases hnone.symm.trans heq
  | cons op ops ih =>
    obtain ⟨hop, hops⟩ := List.forall_mem_cons.1 hmade
    have hout : Outcome D e db made w t op := outcome hkeys h op hop
    rw [List.foldlM_cons, List.foldlM_cons]
    cases hout with
    | @clean w' hw hnone happly =>
      rw [hw]
      cases hresult : applyOp D e t op with
      | error err =>
        rw [hresult] at happly
        refine ⟨agree_of_error happly, fun _ conflicts heq => ?_⟩
        cases heq
        exact absurd trivial happly
      | ok t' =>
        rw [hresult] at happly
        obtain ⟨hagree, hlocated⟩ := ih happly hops
        refine ⟨hagree, fun hfresh conflicts heq => ?_⟩
        obtain ⟨k, c, hc, hk⟩ := hlocated (List.forall_mem_cons.1 hfresh).2 conflicts heq
        refine ⟨k + 1, c, hc, ?_⟩
        rw [List.take_succ_cons, List.foldlM_cons, hw]
        exact hk
    | @conflict w' c hw hc happly =>
      rw [hw, happly]
      refine ⟨agree_of_conflict hc ops, fun _ conflicts heq => ?_⟩
      cases heq
      refine ⟨1, c, rfl, ?_⟩
      rw [List.take_succ_cons, List.take_zero, List.foldlM_cons, hw]
      exact congrArg Except.ok hc
    | @missing err hw hmissing happly =>
      rw [hw]
      refine ⟨agree_of_missing hmissing, fun hfresh conflicts heq => ?_⟩
      rw [happly (List.forall_mem_cons.1 hfresh).1] at heq
      cases heq
      exact hmissing.elim

/-- **The precheck of a patch.** In every episode and for every patch: where the precheck finds no conflict the operations
raise none; its first conflict is the one that the operations raise unless they stop before it with another error; and a
conflict that they raise is the first one of the precheck, unless that does not find a row of an operation after it. -/
theorem precheck_agrees (D : NodeData δ) (e : Nat) {db : Db υ φ δ} (hkeys : (db.edges.map EdgeRow.id).Nodup)
    (counts : EpisodeMeta) (ops : List (Op υ φ δ)) :
    Agree (collectPatchConflicts e db ops) (ops.foldlM (applyOp D e) (db.begin counts)) ∧
      ((∀ op ∈ ops, ∀ id ∈ op.named, id ∉ ops.flatMap Op.made) →
        ∀ conflicts, ops.foldlM (applyOp D e) (db.begin counts) = .error (.revisionConflict conflicts) →
          ∃ k c, conflicts = [c] ∧ collectPatchConflicts e db (ops.take k) = .ok [c]) :=
  agree_foldlM hkeys (sim_begin counts _) ops fun op hop _ hid => List.mem_flatMap.2 ⟨op, hop, hid⟩

/-- The conflicts that a call raises are all those of its precheck: the operations raise none after it. -/
theorem transaction_revisionConflict (hkeys : (db.edges.map EdgeRow.id).Nodup) {c : Call υ φ δ}
    {conflicts : List (Conflict υ)} (h : transaction D db c = .error (.revisionConflict conflicts)) :
    collectPatchConflicts c.episodeId db c.ops = .ok conflicts := by
  unfold transaction at h
  split at h
  · cases h
  split at h
  · cases h
  next counts _ =>
  cases hprecheck : collectPatchConflicts c.episodeId db c.ops with
  | error err =>
    rw [hprecheck] at h
    cases h
    exact (foldlM_collect_error (map_eq_error hprecheck)).elim
  | ok found =>
    rw [hprecheck] at h
    change (if found ≠ [] then _ else _) = _ at h
    split at h
    · cases h
      rfl
    · next hnone =>
      have hagree : Agree (collectPatchConflicts c.episodeId db c.ops)
          (c.ops.foldlM (applyOp D c.episodeId) (db.begin counts)) :=
        (agree_foldlM hkeys (sim_begin counts _) c.ops fun op hop _ hid => List.mem_flatMap.2 ⟨op, hop, hid⟩).1
      cases happlied : c.ops.foldlM (applyOp D c.episodeId) (db.begin counts) with
      | error err =>
        rw [happlied] at h
        cases h
        exact absurd happlied (hagree.clean (hprecheck.trans (congrArg Except.ok (not_not.1 hnone))) conflicts)
      | ok t =>
        rw [happlied] at h
        change (if c.aborts = true then _ else _) = _ at h
        split at h
        · cases h
        · cases h

end Simulation

/-! ### A canvas with one node -/

def oneNode : Db Nat Int Unit where
  episodes _ := true
  metas _ := some ⟨1, 0⟩
  nodes := [⟨1, 0, .TEXT, 1, (0, 0), none, none, (), false⟩]
  edges := []
  operations := []

/-- An update of the node at a revision. -/
def updateAt (revision : Nat) : Op Nat Int Unit := .updateNode 1 revision none (some 5) none none

/-- Two updates of the node, the second at a revision that the first has left, and its deletion. -/
theorem precheck_agrees_oneNode :
    Agree (collectPatchConflicts 0 oneNode [updateAt 1, updateAt 1, .deleteNode 1 2])
      ([updateAt 1, updateAt 1, .deleteNode 1 2].foldlM (applyOp plain 0) (oneNode.begin ⟨1, 0⟩)) :=
  (precheck_agrees plain 0 (show (oneNode.edges.map EdgeRow.id).Nodup from List.nodup_nil) ⟨1, 0⟩ _).1

/-- An edge between nodes that are not there comes before a conflict that the precheck reports; a node that is not there
hides one from it. -/
theorem precheck_disagrees :
    (collectPatchConflicts 0 oneNode [.connect 10 5 6 ⟨"out", "in", "dependency", ()⟩, updateAt 7] =
        .ok [⟨.node, 1, 7, 1⟩] ∧
      [.connect 10 5 6 ⟨"out", "in", "dependency", ()⟩, updateAt 7].foldlM (applyOp plain 0) (oneNode.begin ⟨1, 0⟩) =
        .error (.nodeNotFound none)) ∧
    collectPatchConflicts 0 oneNode [updateAt 7, .deleteNode 9 1] = .error (.nodeNotFound (some 9)) ∧
      [updateAt 7, .deleteNode 9 1].foldlM (applyOp plain 0) (oneNode.begin ⟨1, 0⟩) =
        .error (.revisionConflict [⟨.node, 1, 7, 1⟩]) :=
  ⟨⟨rfl, rfl⟩, rfl, rfl⟩

end NexusStudio.CanvasPatch
