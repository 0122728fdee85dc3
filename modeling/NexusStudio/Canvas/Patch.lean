import NexusStudio.Canvas.Node
import NexusStudio.Lib.Machine
import Mathlib.Data.List.Nodup
import Mathlib.Data.List.Perm.Subperm
import Mathlib.Data.List.Dedup
import Mathlib.Logic.Function.Basic

/-!
# Patches of a canvas

`apply_patch`: a list of operations on the nodes and edges of an episode, in one transaction.

* (conflicts) The revisions that the operations name are gone through first, with the changes that the patch makes to
  them on the way.
* (counts) `node_count` and `edge_count` are kept by each operation; a deleted node takes its edges with it.
* (law) After every patch the counts are those of the live rows, and the ends of a live edge are live nodes of its
  episode.
* (revisions) Every row has a revision of its own, and the episode has none.
-/

set_option linter.unusedSectionVars false

namespace NexusStudio.CanvasPatch

open CanvasNodes

/-! ### Rows and operations -/

/-- Ids are of a type `υ`, coordinates of a type `φ`, and what is stored as JSON of a type `δ`. -/
structure NodeRow (υ φ δ : Type) where
  id : υ
  episodeId : Nat
  kind : CanvasNodeKind
  revision : Nat
  position : φ × φ
  width : Option φ
  height : Option φ
  data : δ
  deleted : Bool
  deriving DecidableEq

/-- The columns of an edge that a client gives. -/
structure Wire (δ : Type) where
  sourcePort : String
  targetPort : String
  edgeType : String
  metadata : δ
  deriving DecidableEq

structure EdgeRow (υ δ : Type) where
  id : υ
  episodeId : Nat
  revision : Nat
  source : υ
  target : υ
  wire : Wire δ
  deleted : Bool
  deriving DecidableEq

/-- `CanvasEpisodeMeta`. -/
structure EpisodeMeta where
  nodeCount : Nat
  edgeCount : Nat
  deriving DecidableEq

/-- `CreateNodeConnectAnchor`, with the id that `uuid4` gives the edge. -/
structure Anchor (υ δ : Type) where
  nodeId : υ
  right : Bool
  wire : Wire δ
  edgeId : υ
  deriving DecidableEq

/-- `CanvasPatchOp`, with the ids that `uuid4` gives what it creates. -/
inductive Op (υ φ δ : Type)
  | createNode (id : υ) (kind : CanvasNodeKind) (position : φ × φ) (width height : Option φ) (data : δ)
      (anchor : Option (Anchor υ δ))
  | updateNode (id : υ) (revision : Nat) (position : Option (φ × φ)) (width height : Option φ) (data : Option δ)
  | deleteNode (id : υ) (expectedRevision : Nat)
  | connect (id source target : υ) (wire : Wire δ)
  | disconnect (id : υ) (expectedRevision : Nat)
  deriving DecidableEq

inductive EntityKind
  | node
  | edge
  deriving DecidableEq

/-- `CanvasRevisionConflictItem`. -/
structure Conflict (υ : Type) where
  kind : EntityKind
  id : υ
  expectedRevision : Nat
  actualRevision : Nat
  deriving DecidableEq

inductive PatchError (υ : Type)
  | episodeNotFound
  | metaNotFound
  | nodeNotFound (id : Option υ)
  | edgeNotFound (id : υ)
  | revisionConflict (conflicts : List (Conflict υ))
  | invalidData (message : String)
  -- the primary key
  | duplicateId (id : υ)
  -- another failure of a statement or of the commit
  | database
  deriving DecidableEq

/-- `CanvasOperations`. -/
structure Operation (υ φ δ : Type) where
  opId : υ
  episodeId : Nat
  userId : Nat
  turnId : Option String
  ops : List (Op υ φ δ)
  deriving DecidableEq

structure Db (υ φ δ : Type) where
  -- the episodes that are there and not deleted
  episodes : Nat → Bool
  metas : Nat → Option EpisodeMeta
  nodes : List (NodeRow υ φ δ)
  edges : List (EdgeRow υ δ)
  operations : List (Operation υ φ δ)

/-- What the code takes of node data: `ensure_create_defaults`, `merge_client_node_data` with the parse before it, and
the parse of `node_view_from_row`. -/
structure NodeData (δ : Type) where
  createDefaults : CanvasNodeKind → δ → Except String δ
  merge : CanvasNodeKind → δ → δ → Except String δ
  parse : δ → Except String δ

section Model

variable {υ φ δ : Type} [DecidableEq υ] (D : NodeData δ) (e : Nat)

def NodeRow.liveIn (n : NodeRow υ φ δ) : Bool := n.episodeId = e ∧ n.deleted = false

def EdgeRow.liveIn (c : EdgeRow υ δ) : Bool := c.episodeId = e ∧ c.deleted = false

/-- `_get_node_for_update`. -/
def getNodeForUpdate (nodes : List (NodeRow υ φ δ)) (id : υ) : Except (PatchError υ) (NodeRow υ φ δ) :=
  match nodes.find? fun n => n.id = id ∧ n.liveIn e with
  | some n => .ok n
  | none => .error (.nodeNotFound (some id))

def getEdgeForUpdate (edges : List (EdgeRow υ δ)) (id : υ) : Except (PatchError υ) (EdgeRow υ δ) :=
  match edges.find? fun c => c.id = id ∧ c.liveIn e with
  | some c => .ok c
  | none => .error (.edgeNotFound id)

/-- The live edges of a node. -/
def touches (id : υ) (c : EdgeRow υ δ) : Bool := c.liveIn e ∧ (c.source = id ∨ c.target = id)

/-- `_require_nodes`. -/
def requireNodes (nodes : List (NodeRow υ φ δ)) (ids : List υ) : Except (PatchError υ) Unit :=
  if nodes.countP (fun n => n.id ∈ ids.dedup ∧ n.liveIn e) ≠ ids.dedup.length then .error (.nodeNotFound none)
  else .ok ()

/-- `_require_entity_revision`. -/
def requireEntityRevision (kind : EntityKind) (id : υ) (expected actual : Nat) : Except (PatchError υ) Unit :=
  if actual ≠ expected then .error (.revisionConflict [⟨kind, id, expected, actual⟩]) else .ok ()

/-! ### The conflicts of a patch -/

/-- What `_collect_patch_conflicts` goes through the operations with. -/
structure Working (υ : Type) where
  nodeWorking : υ → Option Nat
  edgeWorking : υ → Option Nat
  deletedNodes : List υ
  deletedEdges : List υ
  conflicts : List (Conflict υ)

variable (db : Db υ φ δ)

/-- The revision of a node that the patch has come to. -/
def workingNode (w : Working υ) (id : υ) : Except (PatchError υ) Nat :=
  if id ∈ w.deletedNodes then .error (.nodeNotFound (some id))
  else
    match w.nodeWorking id with
    | some revision => .ok revision
    | none => (getNodeForUpdate e db.nodes id).map NodeRow.revision

def workingEdge (w : Working υ) (id : υ) : Except (PatchError υ) Nat :=
  if id ∈ w.deletedEdges then .error (.edgeNotFound id)
  else
    match w.edgeWorking id with
    | some revision => .ok revision
    | none => (getEdgeForUpdate e db.edges id).map EdgeRow.revision

def Working.conflict (w : Working υ) (kind : EntityKind) (id : υ) (expected actual : Nat) : Working υ :=
  { w with conflicts := w.conflicts ++ [⟨kind, id, expected, actual⟩] }

def collect (w : Working υ) : Op υ φ δ → Except (PatchError υ) (Working υ)
  | .createNode .. | .connect .. => .ok w
  | .updateNode id revision .. => do
    let actual ← workingNode e db w id
    let w := { w with nodeWorking := Function.update w.nodeWorking id (some actual) }
    if actual ≠ revision then return w.conflict .node id revision actual
    else return { w with nodeWorking := Function.update w.nodeWorking id (some (actual + 1)) }
  | .deleteNode id expected => do
    let actual ← workingNode e db w id
    let w := { w with nodeWorking := Function.update w.nodeWorking id (some actual) }
    if actual ≠ expected then return w.conflict .node id expected actual
    else
      let cascade := ((db.edges.filter (touches e id)).map EdgeRow.id).filter fun c => c ∉ w.deletedEdges
      return { w with
        nodeWorking := Function.update w.nodeWorking id (some (actual + 1))
        deletedNodes := w.deletedNodes ++ [id]
        deletedEdges := w.deletedEdges ++ cascade
        edgeWorking := fun c => if c ∈ cascade then none else w.edgeWorking c }
  | .disconnect id expected => do
    let actual ← workingEdge e db w id
    let w := { w with edgeWorking := Function.update w.edgeWorking id (some actual) }
    if actual ≠ expected then return w.conflict .edge id expected actual
    else
      return { w with
        edgeWorking := Function.update w.edgeWorking id (some (actual + 1))
        deletedEdges := w.deletedEdges ++ [id] }

/-- `_collect_patch_conflicts`. -/
def collectPatchConflicts (ops : List (Op υ φ δ)) : Except (PatchError υ) (List (Conflict υ)) :=
  (ops.foldlM (collect e db) ⟨fun _ => none, fun _ => none, [], [], []⟩).map Working.conflicts

/-! ### The operations -/

/-- What the transaction has written, and what it returns. -/
structure Tx (υ φ δ : Type) where
  nodes : List (NodeRow υ φ δ)
  edges : List (EdgeRow υ δ)
  counts : EpisodeMeta
  changedNodes : List (NodeRow υ φ δ)
  changedEdges : List (EdgeRow υ δ)
  deletedNodeIds : List υ
  deletedEdgeIds : List υ

def saveNode (nodes : List (NodeRow υ φ δ)) (row : NodeRow υ φ δ) : List (NodeRow υ φ δ) :=
  nodes.map fun n => if n.id = row.id then row else n

def saveEdge (edges : List (EdgeRow υ δ)) (row : EdgeRow υ δ) : List (EdgeRow υ δ) :=
  edges.map fun c => if c.id = row.id then row else c

def liftData {α : Type} (x : Except String α) : Except (PatchError υ) α := x.mapError .invalidData

/-- A live edge is created between two live nodes. -/
def connectNodes (t : Tx υ φ δ) (id source target : υ) (wire : Wire δ) : Except (PatchError υ) (Tx υ φ δ) := do
  requireNodes e t.nodes [source, target]
  if id ∈ t.edges.map EdgeRow.id then throw (.duplicateId id)
  else
    let row : EdgeRow υ δ := ⟨id, e, 1, source, target, wire, false⟩
    return { t with
      edges := t.edges ++ [row]
      counts := { t.counts with edgeCount := t.counts.edgeCount + 1 }
      changedEdges := t.changedEdges ++ [row] }

def createNode (t : Tx υ φ δ) (row : NodeRow υ φ δ) : Except (PatchError υ) (Tx υ φ δ) :=
  if row.id ∈ t.nodes.map NodeRow.id then throw (.duplicateId row.id)
  else do
    let _ ← liftData (D.parse row.data)
    return { t with
      nodes := t.nodes ++ [row]
      counts := { t.counts with nodeCount := t.counts.nodeCount + 1 }
      changedNodes := t.changedNodes ++ [row] }

/-- The data of an update, which the client need not give. -/
def mergeData (row : NodeRow υ φ δ) : Option δ → Except (PatchError υ) δ
  | none => .ok row.data
  | some data => liftData (D.merge row.kind row.data data)

/-- One operation; a count is decreased down to zero. -/
def applyOp (t : Tx υ φ δ) : Op υ φ δ → Except (PatchError υ) (Tx υ φ δ)
  | .createNode id kind position width height data anchor => do
    let data ← liftData (D.createDefaults kind data)
    let t ← createNode D t ⟨id, e, kind, 1, position, width, height, data, false⟩
    match anchor with
    | none => return t
    | some a =>
      if a.right then connectNodes e t a.edgeId a.nodeId id a.wire else connectNodes e t a.edgeId id a.nodeId a.wire
  | .updateNode id revision position width height data => do
    let row ← getNodeForUpdate e t.nodes id
    requireEntityRevision .node id revision row.revision
    let data ← mergeData D row data
    let _ ← liftData (D.parse data)
    let row := { row with
      position := position.getD row.position
      width := width.or row.width
      height := height.or row.height
      data := data
      revision := row.revision + 1 }
    return { t with nodes := saveNode t.nodes row, changedNodes := t.changedNodes ++ [row] }
  | .deleteNode id expected => do
    let row ← getNodeForUpdate e t.nodes id
    requireEntityRevision .node id expected row.revision
    let cascade := t.edges.filter (touches e row.id)
    return { t with
      nodes := saveNode t.nodes { row with deleted := true, revision := row.revision + 1 }
      edges := t.edges.map fun c =>
        if touches e row.id c then { c with deleted := true, revision := c.revision + 1 } else c
      counts := ⟨t.counts.nodeCount - 1, t.counts.edgeCount - cascade.length⟩
      deletedNodeIds := t.deletedNodeIds ++ [id]
      deletedEdgeIds := t.deletedEdgeIds ++ cascade.map EdgeRow.id }
  | .connect id source target wire => connectNodes e t id source target wire
  | .disconnect id expected => do
    let row ← getEdgeForUpdate e t.edges id
    requireEntityRevision .edge id expected row.revision
    return { t with
      edges := saveEdge t.edges { row with deleted := true, revision := row.revision + 1 }
      counts := { t.counts with edgeCount := t.counts.edgeCount - 1 }
      deletedEdgeIds := t.deletedEdgeIds ++ [id] }

/-! ### The call -/

/-- `CanvasPatchResponse`. -/
structure Response (υ φ δ : Type) where
  opId : υ
  nodes : List (NodeRow υ φ δ)
  edges : List (EdgeRow υ δ)
  deletedNodeIds : List υ
  deletedEdgeIds : List υ

structure Call (υ φ δ : Type) where
  episodeId : Nat
  userId : Nat
  turnId : Option String
  ops : List (Op υ φ δ)
  opId : υ
  -- a statement of the transaction or its commit fails, or `refresh_node_asset_urls` does after it
  aborts : Bool
  urlsFail : Bool

def Db.begin (counts : EpisodeMeta) : Tx υ φ δ := ⟨db.nodes, db.edges, counts, [], [], [], []⟩

def Db.commit (c : Call υ φ δ) (t : Tx υ φ δ) : Db υ φ δ :=
  { db with
    metas := Function.update db.metas c.episodeId (some t.counts)
    nodes := t.nodes
    edges := t.edges
    operations := db.operations ++ [⟨c.opId, c.episodeId, c.userId, c.turnId, c.ops⟩] }

/-- The transaction of `apply_patch`. -/
def transaction (c : Call υ φ δ) : Except (PatchError υ) (Tx υ φ δ) :=
  if db.episodes c.episodeId = false then .error .episodeNotFound
  else
    match db.metas c.episodeId with
    | none => .error .metaNotFound
    | some counts => do
      let conflicts ← collectPatchConflicts c.episodeId db c.ops
      if conflicts ≠ [] then throw (.revisionConflict conflicts)
      else
        let t ← c.ops.foldlM (applyOp D c.episodeId) (db.begin counts)
        if c.aborts then throw .database else return t

/-- `apply_patch`. -/
def applyPatch (c : Call υ φ δ) : Db υ φ δ × Except (PatchError υ) (Response υ φ δ) :=
  match transaction D db c with
  | .error err => (db, .error err)
  | .ok t =>
    (db.commit c t, if c.urlsFail then .error .database else
      .ok ⟨c.opId, t.changedNodes, t.changedEdges, t.deletedNodeIds, t.deletedEdgeIds⟩)

/-! ### The law -/

/-- The ends of every live edge are live nodes of its episode. -/
def Joined (nodes : List (NodeRow υ φ δ)) (edges : List (EdgeRow υ δ)) : Prop :=
  ∀ c ∈ edges, c.deleted = false → (∃ n ∈ nodes, n.id = c.source ∧ n.liveIn c.episodeId) ∧
    ∃ n ∈ nodes, n.id = c.target ∧ n.liveIn c.episodeId

/-- The counts of every episode are those of its live rows, and its live edges join live nodes. -/
structure Consistent (db : Db υ φ δ) : Prop where
  nodeKeys : (db.nodes.map NodeRow.id).Nodup
  edgeKeys : (db.edges.map EdgeRow.id).Nodup
  nodeCount : ∀ e, ∀ m ∈ db.metas e, m.nodeCount = db.nodes.countP (NodeRow.liveIn e)
  edgeCount : ∀ e, ∀ m ∈ db.metas e, m.edgeCount = db.edges.countP (EdgeRow.liveIn e)
  joined : Joined db.nodes db.edges

/-- Every row is there with its key, and is the same or of a higher revision. -/
def Grown {α κ : Type} (key : α → κ) (revision : α → Nat) (l l' : List α) : Prop :=
  ∀ x ∈ l, ∃ y ∈ l', key y = key x ∧ (y = x ∨ revision x < revision y)

def NodeRow.key (n : NodeRow υ φ δ) : υ × Nat := (n.id, n.episodeId)

def EdgeRow.key (c : EdgeRow υ δ) : υ × υ × υ × Nat := (c.id, c.source, c.target, c.episodeId)

end Model

/-! ### Tables with a key -/

section Tables

variable {α κ : Type} {p : α → Bool} {f : α → α} {l l' l'' : List α}

/-- The rows that are found by `q` are taken out of those that are counted. -/
theorem countP_map_add {q : α → Prop} [DecidablePred q]
    (h : ∀ x ∈ l, q x → p x = true ∧ p (f x) = false) :
    (l.map fun x => if q x then f x else x).countP p + l.countP q = l.countP p := by
  induction l with
  | nil => rfl
  | cons x l ih =>
    have ih := ih fun y hy => h y (List.mem_cons_of_mem x hy)
    rw [List.map_cons, List.countP_cons, List.countP_cons, List.countP_cons]
    by_cases hq : q x
    · obtain ⟨hp, hf⟩ := h x List.mem_cons_self hq
      simp only [hq, if_true, hp, hf, Bool.false_eq_true, if_false, decide_true]
      omega
    · simp only [hq, if_false, decide_false, Bool.false_eq_true]
      omega

theorem countP_map_eq (h : ∀ x ∈ l, p (f x) = p x) : (l.map f).countP p = l.countP p := by
  rw [List.countP_map]
  exact List.countP_congr fun x hx => by rw [Function.comp_apply, h x hx]

variable [DecidableEq κ] {key : α → κ} {revision : α → Nat} {r x : α}

/-- One row has the key of a row that is there. -/
theorem countP_key (hkeys : (l.map key).Nodup) (hr : r ∈ l) : l.countP (fun x => key x = key r) = 1 := by
  have h := List.count_eq_one_of_mem hkeys (List.mem_map_of_mem hr)
  rw [List.count, List.countP_map] at h
  rw [← h]
  refine List.countP_congr fun x _ => ?_
  rw [Function.comp_apply, decide_eq_true_iff, beq_iff_eq]

theorem map_key (h : ∀ x, key (f x) = key x) : (l.map f).map key = l.map key := by
  rw [List.map_map]
  exact List.map_congr_left fun x _ => h x

theorem grown_refl (key : α → κ) (revision : α → Nat) (l : List α) : Grown key revision l l :=
  fun x hx => ⟨x, hx, rfl, .inl rfl⟩

theorem grown_trans (h : Grown key revision l l') (h' : Grown key revision l' l'') : Grown key revision l l'' := by
  intro x hx
  obtain ⟨y, hy, hkey, hyx⟩ := h x hx
  obtain ⟨z, hz, hkey', hzy⟩ := h' y hy
  refine ⟨z, hz, hkey'.trans hkey, ?_⟩
  rcases hyx with rfl | hyx
  · exact hzy
  · rcases hzy with rfl | hzy
    · exact .inr hyx
    · exact .inr (Nat.lt_trans hyx hzy)

theorem grown_append (key : α → κ) (revision : α → Nat) (l l' : List α) : Grown key revision l (l ++ l') :=
  fun x hx => ⟨x, List.mem_append_left l' hx, rfl, .inl rfl⟩

theorem grown_map (hkey : ∀ x ∈ l, key (f x) = key x) (hf : ∀ x ∈ l, f x = x ∨ revision x < revision (f x)) :
    Grown key revision l (l.map f) :=
  fun x hx => ⟨f x, List.mem_map_of_mem hx, hkey x hx, hf x hx⟩

end Tables

/-! ### What the operations do -/

section Operations

variable {υ φ δ : Type} [DecidableEq υ] {D : NodeData δ} {e e' : Nat} {db : Db υ φ δ} {t t' : Tx υ φ δ}
  {nodes : List (NodeRow υ φ δ)} {edges : List (EdgeRow υ δ)} {n n' : NodeRow υ φ δ} {c c' : EdgeRow υ δ} {id : υ}

theorem node_liveIn : n.liveIn e = true ↔ n.episodeId = e ∧ n.deleted = false := decide_eq_true_iff

theorem edge_liveIn : c.liveIn e = true ↔ c.episodeId = e ∧ c.deleted = false := decide_eq_true_iff

theorem node_not_liveIn (h : n.deleted = true) (e : Nat) : n.liveIn e = false :=
  decide_eq_false fun hl => by cases h.symm.trans hl.2

theorem edge_not_liveIn (h : c.deleted = true) (e : Nat) : c.liveIn e = false :=
  decide_eq_false fun hl => by cases h.symm.trans hl.2

theorem getNode_ok (h : getNodeForUpdate e nodes id = .ok n) : n ∈ nodes ∧ n.id = id ∧ n.liveIn e = true := by
  unfold getNodeForUpdate at h
  split at h
  · next m hm =>
    cases h
    have hfound := List.find?_some hm
    exact ⟨List.mem_of_find?_eq_some hm, of_decide_eq_true hfound⟩
  · cases h

theorem getEdge_ok (h : getEdgeForUpdate e edges id = .ok c) : c ∈ edges ∧ c.id = id ∧ c.liveIn e = true := by
  unfold getEdgeForUpdate at h
  split at h
  · next d hd =>
    cases h
    have hfound := List.find?_some hd
    exact ⟨List.mem_of_find?_eq_some hd, of_decide_eq_true hfound⟩
  · cases h

/-- As many live nodes as ids are all of them. -/
theorem requireNodes_ok (hkeys : (nodes.map NodeRow.id).Nodup) {ids : List υ} (h : requireNodes e nodes ids = .ok ()) :
    ∀ id ∈ ids, ∃ n ∈ nodes, n.id = id ∧ n.liveIn e = true := by
  unfold requireNodes at h
  split at h
  · cases h
  · next hcount =>
    let found := (nodes.filter fun n => n.id ∈ ids.dedup ∧ n.liveIn e).map NodeRow.id
    have hmem : ∀ id, id ∈ found ↔ ∃ n ∈ nodes, (n.id ∈ ids.dedup ∧ n.liveIn e = true) ∧ n.id = id := by
      intro id
      simp only [found, List.mem_map, List.mem_filter, decide_eq_true_eq, and_assoc]
    have hnodup : found.Nodup := (List.filter_sublist.map NodeRow.id).nodup hkeys
    have hsubset : found ⊆ ids.dedup := by
      intro id hid
      obtain ⟨n, -, hn, rfl⟩ := (hmem id).1 hid
      exact hn.1
    have hlength : ids.dedup.length ≤ found.length := by
      rw [List.length_map, ← List.countP_eq_length_filter]
      exact Nat.le_of_eq (not_not.1 hcount).symm
    have hperm := (List.subperm_of_subset hnodup hsubset).perm_of_length_le hlength
    intro id hid
    obtain ⟨n, hn, hlive, hn'⟩ := (hmem id).1 (hperm.mem_iff.2 (List.mem_dedup.2 hid))
    exact ⟨n, hn, hn', hlive.2⟩

/-- The state of a transaction on the episode `e` that began on `db`. -/
structure TxInv (db : Db υ φ δ) (e : Nat) (t : Tx υ φ δ) : Prop where
  nodeKeys : (t.nodes.map NodeRow.id).Nodup
  edgeKeys : (t.edges.map EdgeRow.id).Nodup
  nodeCount : t.counts.nodeCount = t.nodes.countP (NodeRow.liveIn e)
  edgeCount : t.counts.edgeCount = t.edges.countP (EdgeRow.liveIn e)
  joined : Joined t.nodes t.edges
  otherNodes : ∀ e', e' ≠ e → t.nodes.countP (NodeRow.liveIn e') = db.nodes.countP (NodeRow.liveIn e')
  otherEdges : ∀ e', e' ≠ e → t.edges.countP (EdgeRow.liveIn e') = db.edges.countP (EdgeRow.liveIn e')
  nodesGrown : Grown NodeRow.key NodeRow.revision db.nodes t.nodes
  edgesGrown : Grown EdgeRow.key EdgeRow.revision db.edges t.edges

theorem inv_createNode (hI : TxInv db e t) {row : NodeRow υ φ δ} (hrow : row.episodeId = e ∧ row.deleted = false)
    (h : createNode D t row = .ok t') : TxInv db e t' := by
  unfold createNode at h
  split at h
  · cases h
  · next hnew =>
    obtain ⟨_, -, h⟩ := bind_eq_ok.1 h
    cases h
    have hlive : row.liveIn e = true := node_liveIn.2 hrow
    have hother : ∀ e', e' ≠ e → row.liveIn e' = false :=
      fun e' he => decide_eq_false fun hl => he (hl.1.symm.trans hrow.1)
    refine ⟨?_, hI.edgeKeys, ?_, hI.edgeCount, ?_, fun e' he => ?_, hI.otherEdges,
      grown_trans hI.nodesGrown (grown_append _ _ _ _), hI.edgesGrown⟩
    · rw [List.map_append, List.map_singleton]
      exact List.nodup_append'.2 ⟨hI.nodeKeys, List.nodup_singleton _,
        fun x hx hx' => hnew (List.mem_singleton.1 hx' ▸ hx)⟩
    · simp [hI.nodeCount, hlive]
    · intro c hc hdeleted
      obtain ⟨⟨m, hm, hsource⟩, k, hk, htarget⟩ := hI.joined c hc hdeleted
      exact ⟨⟨m, List.mem_append_left _ hm, hsource⟩, k, List.mem_append_left _ hk, htarget⟩
    · rw [← hI.otherNodes e' he]
      simp [hother e' he]

theorem inv_connectNodes (hI : TxInv db e t) {source target : υ} {wire : Wire δ}
    (h : connectNodes e t id source target wire = .ok t') : TxInv db e t' := by
  obtain ⟨_, hnodes, h⟩ := bind_eq_ok.1 h
  have hends := requireNodes_ok hI.nodeKeys hnodes
  dsimp only at h
  split at h
  · cases h
  · next hnew =>
    cases h
    refine ⟨hI.nodeKeys, ?_, hI.nodeCount, ?_, ?_, hI.otherNodes, fun e' he => ?_, hI.nodesGrown,
      grown_trans hI.edgesGrown (grown_append _ _ _ _)⟩
    · rw [List.map_append, List.map_singleton]
      refine List.nodup_append'.2 ⟨hI.edgeKeys, List.nodup_singleton _, fun x hx hx' => ?_⟩
      obtain rfl := List.mem_singleton.1 hx'
      exact hnew hx
    · simp [hI.edgeCount, EdgeRow.liveIn]
    · intro c hc hdeleted
      rcases List.mem_append.1 hc with hc | hc
      · exact hI.joined c hc hdeleted
      · obtain rfl := List.mem_singleton.1 hc
        exact ⟨hends source (by simp), hends target (by simp)⟩
    · rw [← hI.otherEdges e' he]
      simp [EdgeRow.liveIn, Ne.symm he]

/-- A row that was read is written, of a higher revision: the others with its id are none. -/
structure Saves {α : Type} (id : α → υ) (revision : α → Nat) (l : List α) (row row' : α) : Prop where
  keys : (l.map id).Nodup
  mem : row ∈ l
  id : id row' = id row
  revision : revision row < revision row'

section Saves

variable {α κ : Type} [DecidableEq κ] {key : α → κ} {idOf : α → υ} {revision : α → Nat} {l : List α} {row row' : α}

theorem Saves.eq (h : Saves idOf revision l row row') {x : α} (hx : x ∈ l) (hid : idOf x = idOf row') : x = row :=
  List.inj_on_of_nodup_map h.keys hx h.mem (hid.trans h.id)

theorem map_save (idOf : α → υ) (l : List α) (row' : α) :
    (l.map fun x => if idOf x = idOf row' then row' else x).map idOf = l.map idOf := by
  refine map_key fun x => ?_
  split
  · next hid => exact hid.symm
  · rfl

theorem Saves.grown (h : Saves idOf revision l row row') (hkey : key row' = key row) :
    Grown key revision l (l.map fun x => if idOf x = idOf row' then row' else x) := by
  refine grown_map (fun x hx => ?_) fun x hx => ?_
  · split
    · next hid => rw [h.eq hx hid, hkey]
    · rfl
  · split
    · next hid => exact .inr (h.eq hx hid ▸ h.revision)
    · exact .inl rfl

/-- A row that is written as live as it was leaves the count. -/
theorem Saves.countP_eq {p : α → Bool} (h : Saves idOf revision l row row') (hp : p row' = p row) :
    (l.map fun x => if idOf x = idOf row' then row' else x).countP p = l.countP p := by
  refine countP_map_eq fun x hx => ?_
  split
  · next hid => rw [h.eq hx hid, hp]
  · rfl

/-- A row that is deleted is one less. -/
theorem Saves.countP_sub {p : α → Bool} (h : Saves idOf revision l row row') (hp : p row = true)
    (hp' : p row' = false) :
    (l.map fun x => if idOf x = idOf row' then row' else x).countP p = l.countP p - 1 := by
  have hadd := countP_map_add (l := l) (p := p) (f := fun _ => row') (q := fun x => idOf x = idOf row')
    fun x hx hid => ⟨h.eq hx hid ▸ hp, hp'⟩
  rw [h.id, countP_key h.keys h.mem] at hadd
  rw [← hadd, h.id, Nat.add_sub_cancel]

end Saves

/-- The ends of live edges stay live where the nodes that are written are. -/
theorem joined_saveNode (h : Joined nodes edges) {row row' : NodeRow υ φ δ}
    (hsaves : Saves NodeRow.id NodeRow.revision nodes row row') (hlive : ∀ e, row'.liveIn e = row.liveIn e) :
    Joined (saveNode nodes row') edges := by
  have hkept : ∀ id e, (∃ n ∈ nodes, n.id = id ∧ n.liveIn e = true) →
      ∃ n ∈ saveNode nodes row', n.id = id ∧ n.liveIn e = true := by
    rintro id e ⟨n, hn, hid, hn'⟩
    refine ⟨_, List.mem_map_of_mem hn, ?_⟩
    by_cases hsame : n.id = row'.id
    · rw [if_pos hsame, hlive, ← hsaves.eq hn hsame]
      exact ⟨hsame.symm.trans hid, hn'⟩
    · rw [if_neg hsame]
      exact ⟨hid, hn'⟩
  intro c hc hdeleted
  obtain ⟨hsource, htarget⟩ := h c hc hdeleted
  exact ⟨hkept _ _ hsource, hkept _ _ htarget⟩

/-- A node is deleted with its live edges. -/
theorem joined_deleteNode (h : Joined nodes edges) {row row' : NodeRow υ φ δ}
    (hsaves : Saves NodeRow.id NodeRow.revision nodes row row') (hrow : row.liveIn e = true) :
    Joined (saveNode nodes row') (edges.map fun c =>
      if touches e row.id c then { c with deleted := true, revision := c.revision + 1 } else c) := by
  have hepisode := (node_liveIn.1 hrow).1
  -- an end of another episode is another row, as ids are unique
  have hkept : ∀ (c : EdgeRow υ δ) (id : υ), (c.episodeId = e → id ≠ row.id) →
      (∃ n ∈ nodes, n.id = id ∧ n.liveIn c.episodeId = true) →
        ∃ n ∈ saveNode nodes row', n.id = id ∧ n.liveIn c.episodeId = true := by
    rintro c id hne ⟨n, hn, rfl, hlive⟩
    have hother : n.id ≠ row'.id := by
      intro hsame
      obtain rfl := hsaves.eq hn hsame
      exact hne ((node_liveIn.1 hlive).1.symm.trans hepisode) rfl
    exact ⟨_, List.mem_map_of_mem hn, by rw [if_neg hother]; exact ⟨rfl, hlive⟩⟩
  intro c' hc' hdeleted
  obtain ⟨c, hc, rfl⟩ := List.mem_map.1 hc'
  split at hdeleted
  · cases hdeleted
  · next htouches =>
    rw [if_neg htouches]
    have hfree : ∀ id, id = c.source ∨ id = c.target → c.episodeId = e → id ≠ row.id := by
      rintro id hid hce rfl
      exact htouches (decide_eq_true ⟨edge_liveIn.2 ⟨hce, hdeleted⟩, hid.imp Eq.symm Eq.symm⟩)
    obtain ⟨hsource, htarget⟩ := h c hc hdeleted
    exact ⟨hkept c c.source (hfree _ (.inl rfl)) hsource, hkept c c.target (hfree _ (.inr rfl)) htarget⟩

theorem joined_saveEdge (h : Joined nodes edges) {row' : EdgeRow υ δ} (hrow : row'.deleted = true) :
    Joined nodes (saveEdge edges row') := by
  intro c' hc' hdeleted
  obtain ⟨c, hc, rfl⟩ := List.mem_map.1 hc'
  split at hdeleted
  · cases hrow.symm.trans hdeleted
  · next hid =>
    rw [if_neg hid]
    exact h c hc hdeleted

theorem inv_updateNode (hI : TxInv db e t) {row row' : NodeRow υ φ δ}
    (hsaves : Saves NodeRow.id NodeRow.revision t.nodes row row') (hepisode : row'.episodeId = row.episodeId)
    (hdeleted : row'.deleted = row.deleted) :
    TxInv db e { t with nodes := saveNode t.nodes row', changedNodes := t.changedNodes ++ [row'] } := by
  have hlive : ∀ e, row'.liveIn e = row.liveIn e := by
    intro e
    rw [NodeRow.liveIn, NodeRow.liveIn, hepisode, hdeleted]
  have hkey : row'.key = row.key := Prod.ext hsaves.id hepisode
  refine ⟨?_, hI.edgeKeys, ?_, hI.edgeCount, joined_saveNode hI.joined hsaves hlive, fun e' he => ?_, hI.otherEdges,
    grown_trans hI.nodesGrown (hsaves.grown hkey), hI.edgesGrown⟩
  · exact (map_save NodeRow.id t.nodes row').symm ▸ hI.nodeKeys
  · exact hI.nodeCount.trans (hsaves.countP_eq (hlive e)).symm
  · exact (hsaves.countP_eq (hlive e')).trans (hI.otherNodes e' he)

theorem inv_deleteNode (hI : TxInv db e t) {row row' : NodeRow υ φ δ} (hrow : row.liveIn e = true)
    (hsaves : Saves NodeRow.id NodeRow.revision t.nodes row row') (hepisode : row'.episodeId = row.episodeId)
    (hdeleted : row'.deleted = true) (nodeIds edgeIds : List υ) :
    TxInv db e { t with
      nodes := saveNode t.nodes row'
      edges := t.edges.map fun c =>
        if touches e row.id c then { c with deleted := true, revision := c.revision + 1 } else c
      counts := ⟨t.counts.nodeCount - 1, t.counts.edgeCount - (t.edges.filter (touches e row.id)).length⟩
      deletedNodeIds := nodeIds
      deletedEdgeIds := edgeIds } := by
  have hkey : row'.key = row.key := Prod.ext hsaves.id hepisode
  have hgone : ∀ e, row'.liveIn e = false := node_not_liveIn hdeleted
  have hother : ∀ e', e' ≠ e → row.liveIn e' = false :=
    fun e' he => decide_eq_false fun hl => he (hl.1.symm.trans (node_liveIn.1 hrow).1)
  have hlive : ∀ c : EdgeRow υ δ, touches e row.id c = true → c.liveIn e = true := fun c hc => (of_decide_eq_true hc).1
  refine ⟨?_, ?_, ?_, ?_, joined_deleteNode hI.joined hsaves hrow, fun e' he => ?_, fun e' he => ?_,
    grown_trans hI.nodesGrown (hsaves.grown hkey), grown_trans hI.edgesGrown ?_⟩
  · exact (map_save NodeRow.id t.nodes row').symm ▸ hI.nodeKeys
  · rw [map_key fun c => by split <;> rfl]
    exact hI.edgeKeys
  · exact (congrArg (· - 1) hI.nodeCount).trans (hsaves.countP_sub hrow (hgone e)).symm
  · have hadd := countP_map_add (l := t.edges) (p := EdgeRow.liveIn e)
      (f := fun c => { c with deleted := true, revision := c.revision + 1 }) (q := fun c => touches e row.id c = true)
      fun c _ hc => ⟨hlive c hc, edge_not_liveIn rfl e⟩
    simp only [Bool.decide_eq_true] at hadd
    rw [hI.edgeCount, ← List.countP_eq_length_filter, ← hadd, Nat.add_sub_cancel]
  · exact (hsaves.countP_eq ((hgone e').trans (hother e' he).symm)).trans (hI.otherNodes e' he)
  · refine (countP_map_eq fun c hc => ?_).trans (hI.otherEdges e' he)
    split
    · next htouches =>
      have hce := (edge_liveIn.1 (hlive c htouches)).1
      rw [edge_not_liveIn rfl e']
      exact (decide_eq_false fun hl => he (hl.1.symm.trans hce)).symm
    · rfl
  · refine grown_map (fun c _ => ?_) fun c _ => ?_
    · split
      · rfl
      · rfl
    · split
      · exact .inr (Nat.lt_succ_self c.revision)
      · exact .inl rfl

theorem inv_disconnect (hI : TxInv db e t) {row row' : EdgeRow υ δ} (hrow : row.liveIn e = true)
    (hsaves : Saves EdgeRow.id EdgeRow.revision t.edges row row') (hkey : row'.key = row.key)
    (hdeleted : row'.deleted = true) (edgeIds : List υ) :
    TxInv db e { t with
      edges := saveEdge t.edges row'
      counts := { t.counts with edgeCount := t.counts.edgeCount - 1 }
      deletedEdgeIds := edgeIds } := by
  have hgone : ∀ e, row'.liveIn e = false := edge_not_liveIn hdeleted
  have hother : ∀ e', e' ≠ e → row.liveIn e' = false :=
    fun e' he => decide_eq_false fun hl => he (hl.1.symm.trans (edge_liveIn.1 hrow).1)
  refine ⟨hI.nodeKeys, ?_, hI.nodeCount, ?_, joined_saveEdge hI.joined hdeleted, hI.otherNodes, fun e' he => ?_,
    hI.nodesGrown, grown_trans hI.edgesGrown (hsaves.grown hkey)⟩
  · exact (map_save EdgeRow.id t.edges row').symm ▸ hI.edgeKeys
  · exact (congrArg (· - 1) hI.edgeCount).trans (hsaves.countP_sub hrow (hgone e)).symm
  · exact (hsaves.countP_eq ((hgone e').trans (hother e' he).symm)).trans (hI.otherEdges e' he)

theorem inv_applyOp (hI : TxInv db e t) {op : Op υ φ δ} (h : applyOp D e t op = .ok t') : TxInv db e t' := by
  cases op with
  | createNode id kind position width height data anchor =>
    obtain ⟨data, -, h⟩ := bind_eq_ok.1 h
    obtain ⟨u, hu, h⟩ := bind_eq_ok.1 h
    have hu : TxInv db e u := inv_createNode hI ⟨rfl, rfl⟩ hu
    cases anchor with
    | none =>
      cases h
      exact hu
    | some a =>
      dsimp only at h
      split at h
      · exact inv_connectNodes hu h
      · exact inv_connectNodes hu h
  | updateNode id revision position width height data =>
    obtain ⟨row, hrow, h⟩ := bind_eq_ok.1 h
    obtain ⟨_, -, h⟩ := bind_eq_ok.1 h
    obtain ⟨data', -, h⟩ := bind_eq_ok.1 h
    obtain ⟨_, -, h⟩ := bind_eq_ok.1 h
    cases h
    obtain ⟨hmem, -, -⟩ := getNode_ok hrow
    have hsaves : ∀ row', row'.id = row.id → row'.revision = row.revision + 1 →
        Saves NodeRow.id NodeRow.revision t.nodes row row' :=
      fun row' hid hrevision => ⟨hI.nodeKeys, hmem, hid, hrevision ▸ Nat.lt_succ_self row.revision⟩
    exact inv_updateNode hI (hsaves _ rfl rfl) rfl rfl
  | deleteNode id expected =>
    obtain ⟨row, hrow, h⟩ := bind_eq_ok.1 h
    obtain ⟨_, -, h⟩ := bind_eq_ok.1 h
    cases h
    obtain ⟨hmem, -, hlive⟩ := getNode_ok hrow
    have hsaves : Saves NodeRow.id NodeRow.revision t.nodes row
        { row with deleted := true, revision := row.revision + 1 } :=
      ⟨hI.nodeKeys, hmem, rfl, Nat.lt_succ_self row.revision⟩
    exact inv_deleteNode hI hlive hsaves rfl rfl _ _
  | connect id source target wire => exact inv_connectNodes hI h
  | disconnect id expected =>
    obtain ⟨row, hrow, h⟩ := bind_eq_ok.1 h
    obtain ⟨_, -, h⟩ := bind_eq_ok.1 h
    cases h
    obtain ⟨hmem, -, hlive⟩ := getEdge_ok hrow
    have hsaves : Saves EdgeRow.id EdgeRow.revision t.edges row
        { row with deleted := true, revision := row.revision + 1 } :=
      ⟨hI.edgeKeys, hmem, rfl, Nat.lt_succ_self row.revision⟩
    exact inv_disconnect hI hlive hsaves rfl rfl _

theorem inv_applyOps (hI : TxInv db e t) {ops : List (Op υ φ δ)} (h : ops.foldlM (applyOp D e) t = .ok t') :
    TxInv db e t' := by
  induction ops generalizing t with
  | nil =>
    cases h
    exact hI
  | cons op ops ih =>
    rw [List.foldlM_cons] at h
    obtain ⟨u, hu, h⟩ := bind_eq_ok.1 h
    exact ih (inv_applyOp hI hu) h

theorem inv_begin (h : Consistent db) {counts : EpisodeMeta} (hcounts : db.metas e = some counts) :
    TxInv db e (db.begin counts) where
  nodeKeys := h.nodeKeys
  edgeKeys := h.edgeKeys
  nodeCount := h.nodeCount e counts hcounts
  edgeCount := h.edgeCount e counts hcounts
  joined := h.joined
  otherNodes _ _ := rfl
  otherEdges _ _ := rfl
  nodesGrown := grown_refl _ _ _
  edgesGrown := grown_refl _ _ _

theorem inv_transaction (h : Consistent db) {c : Call υ φ δ} (ht : transaction D db c = .ok t) :
    TxInv db c.episodeId t := by
  unfold transaction at ht
  split at ht
  · cases ht
  · split at ht
    · cases ht
    · next counts hcounts =>
      obtain ⟨conflicts, -, ht⟩ := bind_eq_ok.1 ht
      split at ht
      · cases ht
      · obtain ⟨u, hu, ht⟩ := bind_eq_ok.1 ht
        split at ht
        · cases ht
        · cases ht
          exact inv_applyOps (inv_begin h hcounts) hu

theorem mem_metas_commit {c : Call υ φ δ} {m : EpisodeMeta} :
    m ∈ (db.commit c t).metas e ↔ e = c.episodeId ∧ m = t.counts ∨ e ≠ c.episodeId ∧ m ∈ db.metas e := by
  by_cases he : e = c.episodeId
  · subst he
    simp [Db.commit, eq_comm]
  · simp [Db.commit, he]

theorem consistent_commit (h : Consistent db) {c : Call υ φ δ} (hI : TxInv db c.episodeId t) :
    Consistent (db.commit c t) := by
  refine ⟨hI.nodeKeys, hI.edgeKeys, fun e m hm => ?_, fun e m hm => ?_, hI.joined⟩
  · rcases mem_metas_commit.1 hm with ⟨rfl, rfl⟩ | ⟨he, hm⟩
    · exact hI.nodeCount
    · exact (h.nodeCount e m hm).trans (hI.otherNodes e he).symm
  · rcases mem_metas_commit.1 hm with ⟨rfl, rfl⟩ | ⟨he, hm⟩
    · exact hI.edgeCount
    · exact (h.edgeCount e m hm).trans (hI.otherEdges e he).symm

end Operations

/-! ### Runs of patches -/

section Runs

variable {υ φ δ : Type} [DecidableEq υ] (D : NodeData δ) {db : Db υ φ δ}

/-- One call after the other, on any episodes. -/
def patches : Concurrent.Machine (Db υ φ δ) (Call υ φ δ) where
  init := Consistent
  step db c := some (applyPatch D db c).1

theorem consistent_applyPatch (h : Consistent db) (c : Call υ φ δ) : Consistent (applyPatch D db c).1 := by
  unfold applyPatch
  split
  · exact h
  · next t ht => exact consistent_commit h (inv_transaction h ht)

/-- After any patches the counts are those of the live rows and every live edge joins live nodes of its episode; a patch
that raises in its transaction has changed nothing, and one that commits keeps every row, the same or of a higher
revision. -/
theorem patches_consistent (h : (patches D).Reach Concurrent.Free db) : Consistent db ∧ ∀ c,
    (∀ err, transaction D db c = .error err → applyPatch D db c = (db, .error err)) ∧
      Grown NodeRow.key NodeRow.revision db.nodes (applyPatch D db c).1.nodes ∧
        Grown EdgeRow.key EdgeRow.revision db.edges (applyPatch D db c).1.edges := by
  have hdb : Consistent db := by
    refine h.induct (fun _ h => h) fun db c db' h _ hstep => ?_
    cases hstep
    exact consistent_applyPatch D h c
  refine ⟨hdb, fun c => ⟨fun err herr => by rw [applyPatch, herr], ?_⟩⟩
  unfold applyPatch
  split
  · exact ⟨grown_refl _ _ _, grown_refl _ _ _⟩
  · next t ht =>
    have hI := inv_transaction hdb ht
    exact ⟨hI.nodesGrown, hI.edgesGrown⟩

end Runs

/-! ### Two nodes and an edge -/

def plain : NodeData Unit where
  createDefaults _ d := .ok d
  merge _ _ d := .ok d
  parse d := .ok d

def emptyCanvas : Db Nat Int Unit := ⟨fun _ => true, fun _ => some ⟨0, 0⟩, [], [], []⟩

theorem consistent_emptyCanvas : Consistent emptyCanvas where
  nodeKeys := .nil
  edgeKeys := .nil
  nodeCount _ _ hm := Option.some.inj hm ▸ rfl
  edgeCount _ _ hm := Option.some.inj hm ▸ rfl
  joined _ hc := absurd hc List.not_mem_nil

def patch (ops : List (Op Nat Int Unit)) (urlsFail : Bool) : Call Nat Int Unit :=
  ⟨0, 7, none, ops, 100, false, urlsFail⟩

def createText (id : Nat) (anchor : Option (Anchor Nat Unit)) : Op Nat Int Unit :=
  .createNode id .TEXT (0, 0) none none () anchor

/-- Two nodes are created with an edge between them, and the first is deleted. -/
theorem patches_consistent_of_delete : ∃ db : Db Nat Int Unit, (patches plain).Reach Concurrent.Free db ∧
    db.metas 0 = some ⟨1, 0⟩ ∧ db.nodes.length = 2 ∧ db.edges.length = 1 ∧ Consistent db ∧ ∀ c,
      (∀ err, transaction plain db c = .error err → applyPatch plain db c = (db, .error err)) ∧
        Grown NodeRow.key NodeRow.revision db.nodes (applyPatch plain db c).1.nodes ∧
          Grown EdgeRow.key EdgeRow.revision db.edges (applyPatch plain db c).1.edges := by
  obtain ⟨db, -, hreach, hend⟩ := Concurrent.Machine.reach_of_exec (M := patches plain) (C := Concurrent.Free)
    (s := emptyCanvas) (p := fun db => db.metas 0 = some ⟨1, 0⟩ ∧ db.nodes.length = 2 ∧ db.edges.length = 1)
    [patch [createText 1 none, createText 2 (some ⟨1, true, ⟨"out", "in", "dependency", ()⟩, 10⟩)] false,
      patch [.deleteNode 1 1] false]
    consistent_emptyCanvas (by decide)
  obtain ⟨hmetas, hnodes, hedges⟩ := of_decide_eq_true hend
  exact ⟨db, hreach, hmetas, hnodes, hedges, patches_consistent plain hreach⟩

/-- An update of the first node, and the creation of another one after which the URLs fail. -/
def widen : Call Nat Int Unit := patch [.updateNode 1 1 none (some 5) none none] false

def addLate : Call Nat Int Unit := patch [createText 2 none] true

/-- Nothing that is stored of the episode grows by one with a patch that updates a node; and a patch that raises when it
has committed has created its node. -/
theorem episode_without_revision : ∃ db : Db Nat Int Unit, (patches plain).Reach Concurrent.Free db ∧
    (∃ c r, (applyPatch plain db c).2 = .ok r ∧ ∀ revision : Bool × Option EpisodeMeta → Nat,
      revision ((applyPatch plain db c).1.episodes 0, (applyPatch plain db c).1.metas 0) ≠
        revision (db.episodes 0, db.metas 0) + 1) ∧
    ∃ c err, (applyPatch plain db c).2 = .error err ∧ (applyPatch plain db c).1.nodes ≠ db.nodes := by
  obtain ⟨db, -, hreach, hend⟩ := Concurrent.Machine.reach_of_exec (M := patches plain) (C := Concurrent.Free)
    (s := emptyCanvas) (p := fun db =>
      (applyPatch plain db widen).2.toBool = true ∧
        (applyPatch plain db widen).1.episodes 0 = db.episodes 0 ∧ (applyPatch plain db widen).1.metas 0 = db.metas 0 ∧
        (applyPatch plain db addLate).2.toBool = false ∧ (applyPatch plain db addLate).1.nodes ≠ db.nodes)
    [patch [createText 1 none] false] consistent_emptyCanvas (by decide)
  obtain ⟨hok, hepisodes, hmetas, herror, hnodes⟩ := of_decide_eq_true hend
  refine ⟨db, hreach, ⟨widen, ?_⟩, addLate, ?_⟩
  · cases hr : (applyPatch plain db widen).2 with
    | error err =>
      rw [hr] at hok
      cases hok
    | ok r =>
      refine ⟨r, rfl, fun revision hgrown => ?_⟩
      rw [hepisodes, hmetas] at hgrown
      exact absurd hgrown (Nat.ne_of_lt (Nat.lt_succ_self _))
  · cases hr : (applyPatch plain db addLate).2 with
    | error err => exact ⟨err, rfl, hnodes⟩
    | ok r =>
      rw [hr] at herror
      cases herror

end NexusStudio.CanvasPatch
