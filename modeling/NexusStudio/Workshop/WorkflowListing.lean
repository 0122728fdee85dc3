import Mathlib
import NexusStudio.Workshop.WorkflowOrder

/-!
# The listing of a workflow

`validate_workflow_definition` collects the declared outputs in the pass that checks the bindings, so a binding is
checked against the nodes that are listed up to its own.

* (demands) A binding without `from_node_id` asks that its declarer is listed before, one that names another node than
  the declarer that it is listed after.
* (verdict) The definition is accepted when the checks without the listing hold and the listing meets every demand.
-/

set_option linter.unusedSectionVars false

namespace NexusStudio.Workshop.Workflow

open Elimination (Acyclic Sorted)

variable {κ : Type*}

/-! ### Checks without the listing -/

/-- The node that a binding takes its artifact from: the one it names, or the one that declares it. -/
def NodeInput.source (owners : Owners) (i : NodeInput) : Option String := i.fromNodeId.or (owners.lookup i.name)

/-- What a binding asks of the listing: pairs of a node and one that has to follow it. -/
def NodeInput.demands (owners : Owners) (consumer : String) (i : NodeInput) : List (String × String) :=
  if i.kind ≠ .artifact then []
  else
    match owners.lookup i.name with
    | none => []
    | some owner =>
      match i.fromNodeId with
      | none => [(owner, consumer)]
      | some f => if f = owner then [] else [(consumer, owner)]

def demands (nodes : List (WorkflowNode κ)) : List (String × String) :=
  nodes.flatMap fun n => n.inputs.flatMap (NodeInput.demands (declared nodes) n.id)

namespace WorkflowDefinition

variable (d : WorkflowDefinition κ)

def ids : List String := d.nodes.map WorkflowNode.id

def roots : List String := d.ids.filter fun i => incoming d.edges i = []

/-- The entry nodes, where they are given, are the roots. -/
def EntriesFit : Prop :=
  d.roots ≠ [] ∧ ∀ entries, d.entryNodeIds = some entries →
    entries ≠ [] ∧ "" ∉ entries.map strip ∧ entries.map strip ⊆ d.roots ∧ d.roots ⊆ entries.map strip

/-- The preset is known, and allows the capabilities of the node. -/
def PresetFits (n : WorkflowNode κ) : Prop :=
  n.presetKey ∈ d.knownPresetKeys ∧ ∃ allowlist, d.presetAllowlists n.presetKey = some allowlist ∧
    n.externalCapabilities ⊆ allowlist

/-- Everything but the bindings. -/
structure Checked : Prop where
  nodes : d.nodes ≠ []
  graph : Graph d.nodes d.edges
  entries : d.EntriesFit
  names : ((declared d.nodes).map Prod.fst).Nodup
  presets : ∀ n ∈ d.nodes, d.PresetFits n

/-- Every artifact is taken from an ancestor. -/
def Sourced : Prop :=
  ∀ n ∈ d.nodes, ∀ i ∈ n.inputs, i.kind = .artifact →
    ∃ f, i.source (declared d.nodes) = some f ∧ Ancestor d.edges f n.id

/-- Every artifact is an output of an ancestor, the one that the binding names if it names any. -/
def WellFormed : Prop :=
  d.Checked ∧ ∀ n ∈ d.nodes, ∀ i ∈ n.inputs, i.kind = .artifact →
    ∃ owner, (i.name, owner) ∈ declared d.nodes ∧ Ancestor d.edges owner n.id ∧ ∀ f ∈ i.fromNodeId, f = owner

/-- The listing is left open: no listing will do, or all of them. -/
def Unordered : Prop := ¬ (d.Checked ∧ d.Sourced) ∨ ¬ Acyclic (demands d.nodes) ∨ demands d.nodes = []

/-- The same definition, with its nodes and edges in another order. -/
def listed (nodes : List (WorkflowNode κ)) (edges : List WorkflowEdge) : WorkflowDefinition κ :=
  { d with nodes := nodes, edges := edges }

def Accepted [DecidableEq κ] : Prop := validateWorkflowDefinition d = .ok ()

end WorkflowDefinition

/-! ### One binding -/

section Binding

variable {nodes : List (WorkflowNode κ)} {edges : List WorkflowEdge} {owners : Owners}

theorem lookup_eq_some_iff (hn : (owners.map Prod.fst).Nodup) {name owner : String} :
    owners.lookup name = some owner ↔ (name, owner) ∈ owners := by
  constructor
  · intro h
    obtain ⟨l, l', rfl, -⟩ := List.lookup_eq_some_iff.1 h
    exact List.mem_append_right _ List.mem_cons_self
  · intro h
    cases hl : owners.lookup name with
    | none =>
      have hnone := List.lookup_eq_none_iff.1 hl _ h
      simp at hnone
    | some o =>
      obtain ⟨l, l', rfl, -⟩ := List.lookup_eq_some_iff.1 hl
      have hmem : (name, o) ∈ l ++ (name, o) :: l' := List.mem_append_right _ List.mem_cons_self
      rw [(Prod.mk.inj (List.inj_on_of_nodup_map hn hmem h rfl)).2]

theorem owner_of_lookup {name owner : String} (h : (declared nodes).lookup name = some owner) :
    owner ∈ nodes.map WorkflowNode.id := by
  obtain ⟨l, l', hl, -⟩ := List.lookup_eq_some_iff.1 h
  have hmem : (name, owner) ∈ declared nodes := by
    rw [hl]
    exact List.mem_append_right _ List.mem_cons_self
  obtain ⟨n, hn, hout⟩ := List.mem_flatMap.1 hmem
  obtain ⟨o, -, ho⟩ := List.mem_map.1 hout
  exact List.mem_map.2 ⟨n, hn, (Prod.mk.inj ho).2⟩

/-- What is declared up to a node is what its owner is listed up to. -/
theorem lookup_upto {l l' : List (WorkflowNode κ)} {n : WorkflowNode κ} (hsplit : nodes = l ++ n :: l')
    (hn : (nodes.map WorkflowNode.id).Nodup) (name : String) :
    (declared (l ++ [n])).lookup name = ((declared nodes).lookup name).filter fun owner =>
      (nodes.map WorkflowNode.id).idxOf owner ≤ (nodes.map WorkflowNode.id).idxOf n.id := by
  have hparts : declared nodes = declared (l ++ [n]) ++ declared l' := by
    rw [hsplit]
    simp [declared]
  have hids : nodes.map WorkflowNode.id = l.map WorkflowNode.id ++ n.id :: l'.map WorkflowNode.id := by
    rw [hsplit, List.map_append, List.map_cons]
  rw [hids] at hn ⊢
  rw [hparts, List.lookup_append]
  have hbefore : ∀ a, (l.map WorkflowNode.id ++ n.id :: l'.map WorkflowNode.id).idxOf a ≤
      (l.map WorkflowNode.id ++ n.id :: l'.map WorkflowNode.id).idxOf n.id ↔ a ∈ (l ++ [n]).map WorkflowNode.id := by
    intro a
    rw [List.map_append, List.mem_append, Elimination.mem_left_iff hn, le_iff_lt_or_eq]
    refine or_congr_right ?_
    rw [eq_comm, List.idxOf_inj (List.mem_append_right _ List.mem_cons_self), eq_comm]
    simp
  cases hl : (declared (l ++ [n])).lookup name with
  | some owner =>
    have := (hbefore owner).2 (owner_of_lookup hl)
    simp [Option.filter, this]
  | none =>
    cases hl' : (declared l').lookup name with
    | none => rfl
    | some owner =>
      have hlater : owner ∉ (l ++ [n]).map WorkflowNode.id := by
        intro h
        rw [List.map_append, List.map_singleton] at h
        rw [← List.singleton_append, ← List.append_assoc] at hn
        exact (List.nodup_append.1 hn).2.2 owner h owner (owner_of_lookup hl') rfl
      rw [← hbefore owner] at hlater
      simp [Option.filter, hlater]

/-- A binding passes when it is sourced and the listing meets what it asks. -/
theorem checkInput_iff {l l' : List (WorkflowNode κ)} {n : WorkflowNode κ} (hsplit : nodes = l ++ n :: l')
    (hn : (nodes.map WorkflowNode.id).Nodup) (hacyclic : Acyclic (arrows edges)) (i : NodeInput) :
    checkInput (declared (l ++ [n])) (ancestors edges n.id) i = .ok () ↔
      (i.kind = .artifact → ∃ f, i.source (declared nodes) = some f ∧ Ancestor edges f n.id) ∧
        ∀ p ∈ i.demands (declared nodes) n.id,
          (nodes.map WorkflowNode.id).idxOf p.1 < (nodes.map WorkflowNode.id).idxOf p.2 := by
  have hlookup := lookup_upto hsplit hn i.name
  have hne : ∀ owner, Ancestor edges owner n.id →
      (nodes.map WorkflowNode.id).idxOf owner ≠ (nodes.map WorkflowNode.id).idxOf n.id := by
    intro owner hanc hidx
    have hmem : n.id ∈ nodes.map WorkflowNode.id := by simp [hsplit]
    rw [(List.idxOf_inj hmem).1 hidx.symm] at hanc
    exact hacyclic owner hanc
  by_cases hk : i.kind = .artifact
  · unfold checkInput NodeInput.demands NodeInput.source
    simp only [hk, ne_eq, not_true_eq_false, if_false, forall_const, hlookup]
    cases hdecl : (declared nodes).lookup i.name with
    | none =>
      cases i.fromNodeId with
      | none => simp
      | some f => simp [mem_ancestors_iff]
    | some owner =>
      by_cases hupto : (nodes.map WorkflowNode.id).idxOf owner ≤ (nodes.map WorkflowNode.id).idxOf n.id
      · cases i.fromNodeId with
        | none =>
          have hbefore := fun hanc => lt_of_le_of_ne hupto (hne owner hanc)
          simpa [Option.filter, hupto, mem_ancestors_iff] using hbefore
        | some f =>
          by_cases hf : f = owner
          · simp [Option.filter, hupto, mem_ancestors_iff, hf]
          · simp [Option.filter, hupto, hf]
      · cases i.fromNodeId with
        | none =>
          have hlater := fun h => hupto (le_of_lt h)
          simpa [Option.filter, hupto] using fun _ => le_of_not_gt hlater
        | some f =>
          by_cases hf : f = owner
          · simp [Option.filter, hupto, mem_ancestors_iff, hf]
          · have hlater := lt_of_not_ge hupto
            simpa [Option.filter, hupto, mem_ancestors_iff, hf] using fun _ => hlater
  · simp [checkInput, NodeInput.demands, hk]

end Binding

/-! ### The verdict -/

section Verdict

variable [DecidableEq κ] {d : WorkflowDefinition κ} {owners owners' : Owners} {nodes : List (WorkflowNode κ)}
  {n : WorkflowNode κ}

theorem declareOutputs_iff {nodeId : String} {outputs : List NodeOutput} (hn : (owners.map Prod.fst).Nodup) :
    declareOutputs nodeId owners outputs = .ok owners' ↔
      owners' = owners ++ outputs.map (fun o => (o.name, nodeId)) ∧ (owners'.map Prod.fst).Nodup := by
  refine ⟨fun h => declareOutputs_ok h hn, ?_⟩
  rintro ⟨rfl, hnodup⟩
  induction outputs generalizing owners with
  | nil => rw [declareOutputs, List.map_nil, List.append_nil]
  | cons o outputs ih =>
    have hassoc : owners ++ (o :: outputs).map (fun o => (o.name, nodeId)) =
        owners ++ [(o.name, nodeId)] ++ outputs.map fun o => (o.name, nodeId) := by simp
    rw [hassoc] at hnodup ⊢
    have hfirst : ((owners ++ [(o.name, nodeId)]).map Prod.fst).Nodup := by
      rw [List.map_append] at hnodup
      exact (List.nodup_append.1 hnodup).1
    have hfree : ¬ (owners.lookup o.name).isSome := by
      intro h
      obtain ⟨owner, ho⟩ := Option.isSome_iff_exists.1 h
      rw [List.map_append] at hfirst
      exact (List.nodup_append.1 hfirst).2.2 o.name
        (List.mem_map_of_mem (f := Prod.fst) ((lookup_eq_some_iff hn).1 ho)) o.name (by simp) rfl
    rw [declareOutputs, if_neg hfree]
    exact ih hfirst hnodup

theorem checkPreset_iff : checkPreset d n = .ok () ↔ d.PresetFits n := by
  unfold checkPreset WorkflowDefinition.PresetFits
  by_cases hk : n.presetKey ∈ d.knownPresetKeys
  · rw [if_neg (not_not.2 hk)]
    cases d.presetAllowlists n.presetKey with
    | none => simp
    | some allowlist => simp [hk, List.subset_def]
  · simp [hk]

theorem checkInputs_iff {ancestors : List String} {inputs : List NodeInput} :
    checkInputs owners ancestors inputs = .ok () ↔ ∀ i ∈ inputs, checkInput owners ancestors i = .ok () := by
  refine ⟨checkInput_of_checkInputs, fun h => ?_⟩
  induction inputs with
  | nil => rfl
  | cons i inputs ih =>
    rw [checkInputs, h i List.mem_cons_self]
    exact ih fun j hj => h j (List.mem_cons_of_mem _ hj)

theorem checkNode_iff (hn : (owners.map Prod.fst).Nodup) :
    checkNode d owners n = .ok owners' ↔
      (owners' = owners ++ declared [n] ∧ (owners'.map Prod.fst).Nodup) ∧ d.PresetFits n ∧
        ∀ i ∈ n.inputs, checkInput owners' (ancestors d.edges n.id) i = .ok () := by
  have hone : declared [n] = n.outputs.map fun o => (o.name, n.id) := by simp [declared]
  rw [hone, ← declareOutputs_iff hn, ← checkPreset_iff, ← checkInputs_iff]
  unfold checkNode
  cases declareOutputs n.id owners n.outputs with
  | error e => simp
  | ok owners₁ =>
    cases checkPreset d n with
    | error e => simp
    | ok u =>
      cases hi : checkInputs owners₁ (ancestors d.edges n.id) n.inputs with
      | error e =>
        simp only [hi, reduceCtorEq, false_iff, not_and]
        intro h _ hok
        rw [← Except.ok.inj h, hi] at hok
        cases hok
      | ok u =>
        simp only [hi]
        refine ⟨fun h => ⟨h, trivial, ?_⟩, fun h => h.1⟩
        rw [← Except.ok.inj h, hi]

theorem checkNodes_iff (hn : (owners.map Prod.fst).Nodup) :
    checkNodes d owners nodes = .ok () ↔
      ((owners ++ declared nodes).map Prod.fst).Nodup ∧ (∀ n ∈ nodes, d.PresetFits n) ∧
        ∀ l n l', nodes = l ++ n :: l' → ∀ i ∈ n.inputs,
          checkInput (owners ++ declared (l ++ [n])) (ancestors d.edges n.id) i = .ok () := by
  induction nodes generalizing owners with
  | nil => simp [checkNodes, declared, hn]
  | cons m nodes ih =>
    have hfirst : declared (m :: nodes) = declared [m] ++ declared nodes := by simp [declared]
    have hstep : checkNodes d owners (m :: nodes) = .ok () ↔
        ∃ owners', checkNode d owners m = .ok owners' ∧ checkNodes d owners' nodes = .ok () := by
      rw [checkNodes]
      cases checkNode d owners m <;> simp
    rw [hstep, hfirst, ← List.append_assoc]
    constructor
    · rintro ⟨owners', hm, hrest⟩
      obtain ⟨⟨rfl, hn'⟩, hp, hi⟩ := (checkNode_iff hn).1 hm
      obtain ⟨hnames, hps, his⟩ := (ih hn').1 hrest
      refine ⟨hnames, List.forall_mem_cons.2 ⟨hp, hps⟩, fun l n l' hl => ?_⟩
      cases l with
      | nil =>
        obtain ⟨rfl, rfl⟩ := List.cons.inj hl
        exact hi
      | cons k l =>
        obtain ⟨rfl, rfl⟩ := List.cons.inj hl
        have hmore : declared (m :: l ++ [n]) = declared [m] ++ declared (l ++ [n]) := by simp [declared]
        rw [hmore, ← List.append_assoc]
        exact his l n l' rfl
    · rintro ⟨hnames, hps, his⟩
      obtain ⟨hp, hps⟩ := List.forall_mem_cons.1 hps
      have hn' : ((owners ++ declared [m]).map Prod.fst).Nodup := by
        rw [List.map_append] at hnames
        exact (List.nodup_append.1 hnames).1
      refine ⟨_, (checkNode_iff hn).2 ⟨⟨rfl, hn'⟩, hp, his [] m nodes rfl⟩, (ih hn').2 ⟨hnames, hps, ?_⟩⟩
      rintro l n l' rfl
      have hmore : declared (m :: l ++ [n]) = declared [m] ++ declared (l ++ [n]) := by simp [declared]
      have := his (m :: l) n l' rfl
      rwa [hmore, ← List.append_assoc] at this

theorem checkEntries_iff : checkEntries d d.roots = .ok () ↔ d.EntriesFit := by
  unfold checkEntries WorkflowDefinition.EntriesFit
  by_cases hr : d.roots = []
  · simp [hr]
  · cases d.entryNodeIds with
    | none => simp [hr]
    | some entries =>
      by_cases he : entries = [] ∨ "" ∈ entries.map strip
      · simp only [hr, if_false, List.map_eq_nil_iff, he, if_true, reduceCtorEq, false_iff]
        rintro ⟨-, h⟩
        obtain ⟨h₁, h₂, -⟩ := h entries rfl
        exact he.elim h₁ h₂
      · obtain ⟨h₁, h₂⟩ := not_or.1 he
        by_cases hs : entries.map strip ⊆ d.roots ∧ d.roots ⊆ entries.map strip
        · have hblank : ∀ e ∈ entries, strip e ≠ "" := by simpa using h₂
          simp +contextual [hr, h₁, hs, hblank]
        · simp [hr, h₁, h₂, hs]

theorem entries_of_validate (h : d.Accepted) : d.nodes ≠ [] ∧ d.EntriesFit := by
  unfold WorkflowDefinition.Accepted validateWorkflowDefinition at h
  dsimp only at h
  split at h
  · cases h
  · next hne =>
    split at h
    · cases h
    · split at h
      · cases h
      · split at h
        · cases h
        · split at h
          · cases h
          · next he => exact ⟨hne, checkEntries_iff.1 he⟩

theorem validate_of_checks (h : d.Checked) (hnodes : checkNodes d [] d.nodes = .ok ()) : d.Accepted := by
  have hknown : ¬ (d.edges.any fun e => e.fromId ∉ d.nodes.map WorkflowNode.id ∨
      e.toId ∉ d.nodes.map WorkflowNode.id) := by
    simpa only [List.any_eq_true, decide_eq_true_eq, not_exists, not_and, not_or, not_not] using h.graph.known
  have hrep := firstRepeated_eq_none_iff.2 ⟨h.graph.nodup, fun i _ => List.not_mem_nil⟩
  have hcycle := (hasCycle_eq_false_iff h.graph.nodup h.graph.known).2 h.graph.acyclic
  have he : checkEntries d ((d.nodes.map WorkflowNode.id).filter fun i => incoming d.edges i = []) = .ok () :=
    checkEntries_iff.2 h.entries
  simp only [WorkflowDefinition.Accepted, validateWorkflowDefinition, if_neg h.nodes, hrep, if_neg hknown, hcycle, he,
    Bool.false_eq_true, if_false, hnodes]

/-- A definition is accepted when the checks without the listing hold and the listing meets every demand. -/
theorem accepted_iff :
    d.Accepted ↔ (d.Checked ∧ d.Sourced) ∧ ∀ p ∈ demands d.nodes, d.ids.idxOf p.1 < d.ids.idxOf p.2 := by
  have hnodes : Graph d.nodes d.edges → (checkNodes d [] d.nodes = .ok () ↔
      (((declared d.nodes).map Prod.fst).Nodup ∧ ∀ n ∈ d.nodes, d.PresetFits n) ∧ d.Sourced ∧
        ∀ p ∈ demands d.nodes, d.ids.idxOf p.1 < d.ids.idxOf p.2) := by
    intro hgraph
    have hempty : (([] : Owners).map Prod.fst).Nodup := List.nodup_nil
    rw [checkNodes_iff hempty, List.nil_append, and_assoc]
    refine and_congr_right fun hnames => and_congr_right fun hpresets => ?_
    have hinput : ∀ l n l', d.nodes = l ++ n :: l' → ∀ i ∈ n.inputs, _ :=
      fun l n l' hl i hi => checkInput_iff hl hgraph.nodup hgraph.acyclic i
    constructor
    · intro h
      constructor
      · intro n hn i hi hk
        obtain ⟨l, l', hl⟩ := List.append_of_mem hn
        exact ((hinput l n l' hl i hi).1 (h l n l' hl i hi)).1 hk
      · intro p hp
        obtain ⟨n, hn, hp⟩ := List.mem_flatMap.1 hp
        obtain ⟨i, hi, hp⟩ := List.mem_flatMap.1 hp
        obtain ⟨l, l', hl⟩ := List.append_of_mem hn
        exact ((hinput l n l' hl i hi).1 (h l n l' hl i hi)).2 p hp
    · rintro ⟨hsourced, hdemands⟩ l n l' hl i hi
      have hn : n ∈ d.nodes := by simp [hl]
      refine (hinput l n l' hl i hi).2 ⟨hsourced n hn i hi, fun p hp => hdemands p ?_⟩
      exact List.mem_flatMap.2 ⟨n, hn, List.mem_flatMap.2 ⟨i, hi, hp⟩⟩
  constructor
  · intro h
    have hgraph := graph_of_validate h
    obtain ⟨hne, he⟩ := entries_of_validate h
    obtain ⟨⟨hnames, hpresets⟩, hsourced, hdemands⟩ := (hnodes hgraph).1 (validate_ok h)
    exact ⟨⟨⟨hne, hgraph, he, hnames, hpresets⟩, hsourced⟩, hdemands⟩
  · rintro ⟨⟨hchecked, hsourced⟩, hdemands⟩
    exact validate_of_checks hchecked
      ((hnodes hchecked.graph).2 ⟨⟨hchecked.names, hchecked.presets⟩, hsourced, hdemands⟩)

end Verdict

/-! ### Listings of one definition -/

section Listings

variable [DecidableEq κ] {d : WorkflowDefinition κ} {owners owners' : Owners} {nodes nodes' : List (WorkflowNode κ)}
  {edges edges' : List WorkflowEdge}

theorem mem_ids_of_demand {p : String × String} (hp : p ∈ demands nodes) :
    p.1 ∈ nodes.map WorkflowNode.id ∧ p.2 ∈ nodes.map WorkflowNode.id := by
  obtain ⟨n, hn, hp⟩ := List.mem_flatMap.1 hp
  obtain ⟨i, -, hp⟩ := List.mem_flatMap.1 hp
  have hconsumer : n.id ∈ nodes.map WorkflowNode.id := List.mem_map_of_mem hn
  unfold NodeInput.demands at hp
  split at hp
  · exact absurd hp List.not_mem_nil
  · split at hp
    · exact absurd hp List.not_mem_nil
    · next owner hlookup =>
      have howner := owner_of_lookup hlookup
      split at hp
      · obtain rfl := List.mem_singleton.1 hp
        exact ⟨howner, hconsumer⟩
      · split at hp
        · exact absurd hp List.not_mem_nil
        · obtain rfl := List.mem_singleton.1 hp
          exact ⟨hconsumer, howner⟩

theorem declared_perm (h : nodes.Perm nodes') : (declared nodes).Perm (declared nodes') := h.flatMap_right _

theorem lookup_perm (h : nodes.Perm nodes') (hn : ((declared nodes').map Prod.fst).Nodup) (name : String) :
    (declared nodes).lookup name = (declared nodes').lookup name := by
  have hperm := declared_perm h
  refine Option.ext fun owner => ?_
  rw [lookup_eq_some_iff hn, lookup_eq_some_iff ((hperm.map Prod.fst).nodup_iff.2 hn), hperm.mem_iff]

theorem demands_perm (h : nodes.Perm nodes') (hn : ((declared nodes').map Prod.fst).Nodup) :
    (demands nodes).Perm (demands nodes') := by
  have hsame : ∀ n : WorkflowNode κ, n.inputs.flatMap (NodeInput.demands (declared nodes) n.id) =
      n.inputs.flatMap (NodeInput.demands (declared nodes') n.id) := by
    intro n
    simp only [funext fun i => NodeInput.demands.eq_1 (declared nodes) n.id i, lookup_perm h hn]
    rfl
  simp only [demands, hsame]
  exact h.flatMap_right _

theorem ancestor_perm (h : edges.Perm edges') {a b : String} : Ancestor edges a b ↔ Ancestor edges' a b := by
  have hedge : Worklists.Edge (arrows edges) = Worklists.Edge (arrows edges') :=
    funext₂ fun _ _ => propext (h.map _).mem_iff
  rw [Ancestor, Ancestor, hedge]

theorem checked_listed (hnodes : nodes.Perm d.nodes) (hedges : edges.Perm d.edges) (h : d.Checked) :
    (d.listed nodes edges).Checked := by
  have hids : ∀ i, i ∈ nodes.map WorkflowNode.id ↔ i ∈ d.nodes.map WorkflowNode.id :=
    fun i => (hnodes.map _).mem_iff
  have hincoming : ∀ i, incoming edges i = [] ↔ incoming d.edges i = [] := by
    intro i
    have hperm : (incoming edges i).Perm (incoming d.edges i) := ((hedges.map _).filter _).map _
    rw [← List.length_eq_zero_iff, hperm.length_eq, List.length_eq_zero_iff]
  have hroots : ∀ i, i ∈ (d.listed nodes edges).roots ↔ i ∈ d.roots := fun i => by
    simp only [WorkflowDefinition.roots, WorkflowDefinition.ids, WorkflowDefinition.listed, List.mem_filter, hids,
      hincoming]
  refine ⟨fun hnil => h.nodes ?_, ⟨?_, ?_, ?_⟩, ⟨?_, ?_⟩, ?_, fun n hn => h.presets n (hnodes.mem_iff.1 hn)⟩
  · exact (hnodes.symm.trans (.of_eq hnil)).eq_nil
  · exact (hnodes.map _).nodup_iff.2 h.graph.nodup
  · intro e he
    obtain ⟨hfrom, hto⟩ := h.graph.known e (hedges.mem_iff.1 he)
    exact ⟨(hids _).2 hfrom, (hids _).2 hto⟩
  · exact fun a ha => h.graph.acyclic a ((ancestor_perm hedges).1 ha)
  · obtain ⟨i, hi⟩ := List.exists_mem_of_ne_nil _ h.entries.1
    exact List.ne_nil_of_mem ((hroots i).2 hi)
  · intro entries hentries
    obtain ⟨hne, hblank, hsub, hsup⟩ := h.entries.2 entries hentries
    exact ⟨hne, hblank, fun i hi => (hroots i).2 (hsub hi), fun i hi => hsup ((hroots i).1 hi)⟩
  · exact ((declared_perm hnodes).map _).nodup_iff.2 h.names

theorem sourced_listed (hnodes : nodes.Perm d.nodes) (hedges : edges.Perm d.edges)
    (hn : ((declared d.nodes).map Prod.fst).Nodup) (h : d.Sourced) : (d.listed nodes edges).Sourced := by
  intro n hnode i hi hk
  obtain ⟨f, hf, hanc⟩ := h n (hnodes.mem_iff.1 hnode) i hi hk
  refine ⟨f, ?_, (ancestor_perm hedges).2 hanc⟩
  rw [← hf]
  exact congrArg i.fromNodeId.or (lookup_perm hnodes hn i.name)

/-- Whether a listing is accepted: the demands are those of the definition, the places are its own. -/
theorem accepted_listed_iff (hnodes : nodes.Perm d.nodes) (hedges : edges.Perm d.edges) :
    (d.listed nodes edges).Accepted ↔ (d.Checked ∧ d.Sourced) ∧
      ∀ p ∈ demands d.nodes, (nodes.map WorkflowNode.id).idxOf p.1 < (nodes.map WorkflowNode.id).idxOf p.2 := by
  rw [accepted_iff]
  constructor
  · rintro ⟨⟨hchecked, hsourced⟩, hdemands⟩
    have hback : d.Checked := checked_listed (d := d.listed nodes edges) hnodes.symm hedges.symm hchecked
    refine ⟨⟨hback, ?_⟩, fun p hp => hdemands p ((demands_perm hnodes hback.names).mem_iff.2 hp)⟩
    exact sourced_listed (d := d.listed nodes edges) hnodes.symm hedges.symm hchecked.names hsourced
  · rintro ⟨⟨hchecked, hsourced⟩, hdemands⟩
    refine ⟨⟨checked_listed hnodes hedges hchecked, sourced_listed hnodes hedges hchecked.names hsourced⟩, ?_⟩
    exact fun p hp => hdemands p ((demands_perm hnodes hchecked.names).mem_iff.1 hp)

/-- A well-formed definition passes the checks, and asks only that ancestors are listed before. -/
theorem wellFormed_cases (h : d.WellFormed) : (d.Checked ∧ d.Sourced) ∧ Acyclic (demands d.nodes) := by
  obtain ⟨hchecked, hbindings⟩ := h
  have hlookup : ∀ n ∈ d.nodes, ∀ i ∈ n.inputs, i.kind = .artifact → ∃ owner,
      (declared d.nodes).lookup i.name = some owner ∧ Ancestor d.edges owner n.id ∧ ∀ f ∈ i.fromNodeId, f = owner := by
    intro n hn i hi hk
    obtain ⟨owner, hdecl, hanc, hfrom⟩ := hbindings n hn i hi hk
    exact ⟨owner, (lookup_eq_some_iff hchecked.names).2 hdecl, hanc, hfrom⟩
  refine ⟨⟨hchecked, fun n hn i hi hk => ?_⟩, ?_⟩
  · obtain ⟨owner, hl, hanc, hfrom⟩ := hlookup n hn i hi hk
    refine ⟨owner, ?_, hanc⟩
    rw [NodeInput.source, hl]
    cases hf : i.fromNodeId with
    | none => rfl
    | some f => rw [hfrom f hf, Option.some_or]
  · have hancestor : ∀ a b, Worklists.Edge (demands d.nodes) a b → Ancestor d.edges a b := by
      intro a b hab
      obtain ⟨n, hn, hp⟩ := List.mem_flatMap.1 hab
      obtain ⟨i, hi, hp⟩ := List.mem_flatMap.1 hp
      unfold NodeInput.demands at hp
      split at hp
      · exact absurd hp List.not_mem_nil
      · next hk =>
        obtain ⟨owner, hl, hanc, hfrom⟩ := hlookup n hn i hi (not_not.1 hk)
        rw [hl] at hp
        dsimp only at hp
        split at hp
        · obtain ⟨rfl, rfl⟩ := Prod.mk.inj (List.mem_singleton.1 hp)
          exact hanc
        · next f hf =>
          rw [if_pos (hfrom f hf)] at hp
          exact absurd hp List.not_mem_nil
    intro a ha
    refine hchecked.graph.acyclic a ?_
    have hgen : Relation.TransGen (Relation.TransGen (Worklists.Edge (arrows d.edges))) a a :=
      Relation.TransGen.mono hancestor a a ha
    rwa [Relation.transGen_eq_self] at hgen

/-- Where the checks hold and the demands can be met, some listing is accepted. -/
theorem exists_listing (h : d.Checked ∧ d.Sourced) (hacyclic : Acyclic (demands d.nodes)) :
    ∃ nodes, nodes.Perm d.nodes ∧ (d.listed nodes d.edges).Accepted := by
  obtain ⟨order, hperm, hsorted⟩ :=
    hacyclic.exists_sorted (fun a b hab => mem_ids_of_demand (p := (a, b)) hab) h.1.graph.nodup
  obtain ⟨hids, hnodes⟩ := perm_filterMap_byId h.1.graph.nodup hperm
  refine ⟨_, hnodes, (accepted_listed_iff hnodes (.refl _)).2 ⟨h, ?_⟩⟩
  rw [hids]
  have htargets : ∀ a b, Worklists.Edge (demands d.nodes) a b → b ∈ order :=
    fun a b hab => hperm.mem_iff.2 (mem_ids_of_demand (p := (a, b)) hab).2
  have hnodup := hperm.nodup_iff.2 h.1.graph.nodup
  exact fun p hp => (Elimination.sorted_iff_idxOf hnodup htargets).1 hsorted p.1 p.2 hp

/-- Every listing has one verdict, and every well-formed definition is accepted, exactly when the listing is left
open. -/
theorem same_verdict_iff (d : WorkflowDefinition κ) :
    ((∀ nodes edges, nodes.Perm d.nodes → edges.Perm d.edges → ((d.listed nodes edges).Accepted ↔ d.Accepted)) ∧
      (d.WellFormed → ∀ nodes edges, nodes.Perm d.nodes → edges.Perm d.edges → (d.listed nodes edges).Accepted)) ↔
      d.Unordered := by
  constructor
  · rintro ⟨hsame, -⟩
    by_contra hopen
    simp only [WorkflowDefinition.Unordered, not_or, not_not] at hopen
    obtain ⟨hfit, hacyclic, hne⟩ := hopen
    obtain ⟨p, hp⟩ := List.exists_mem_of_ne_nil _ hne
    obtain ⟨nodes, hnodes, haccepted⟩ := exists_listing hfit hacyclic
    have hback : nodes.reverse.Perm d.nodes := nodes.reverse_perm.trans hnodes
    have hreverse := (hsame _ _ hback (.refl _)).2 ((hsame _ _ hnodes (.refl _)).1 haccepted)
    have hbefore := ((accepted_listed_iff hnodes (.refl _)).1 haccepted).2 p hp
    have hafter := ((accepted_listed_iff hback (.refl _)).1 hreverse).2 p hp
    rw [List.map_reverse] at hafter
    refine Elimination.not_lt_reverse ((hnodes.map _).nodup_iff.2 hfit.1.graph.nodup) ?_ hbefore hafter
    exact (hnodes.map _).mem_iff.2 (mem_ids_of_demand hp).2
  · intro hopen
    have hverdict : ∀ nodes edges, nodes.Perm d.nodes → edges.Perm d.edges →
        ((d.listed nodes edges).Accepted ↔ (d.Checked ∧ d.Sourced) ∧ Acyclic (demands d.nodes)) := by
      intro nodes edges hnodes hedges
      rw [accepted_listed_iff hnodes hedges]
      refine and_congr_right fun hfit => ⟨?_, fun hacyclic => ?_⟩
      · exact fun h => Elimination.acyclic_of_lt (nodes.map WorkflowNode.id).idxOf fun a b hab => h (a, b) hab
      · rcases hopen with h | h | h
        · exact absurd hfit h
        · exact absurd hacyclic h
        · simp [h]
    refine ⟨fun nodes edges hnodes hedges => ?_, fun h nodes edges hnodes hedges => ?_⟩
    · rw [hverdict nodes edges hnodes hedges]
      exact (hverdict d.nodes d.edges (.refl _) (.refl _)).symm
    · exact (hverdict nodes edges hnodes hedges).2 (wellFormed_cases h)

end Listings

/-- The node `copy` takes the brief of `audit`, and is listed before it. -/
def copyBeforeAudit : WorkflowDefinition String where
  nodes := [⟨"copy", "advisor", [⟨.artifact, "brief", none⟩], [], [], .failRun⟩,
    ⟨"audit", "advisor", [], [⟨"brief"⟩], [], .failRun⟩]
  edges := [⟨"audit", "copy"⟩]
  knownPresetKeys := ["advisor"]
  presetAllowlists := fun _ => some []
  entryNodeIds := none

/-- It is well-formed, but only its other listing is accepted. -/
theorem listing_matters :
    ¬ ((∀ (d : WorkflowDefinition String) nodes edges, nodes.Perm d.nodes → edges.Perm d.edges →
        ((d.listed nodes edges).Accepted ↔ d.Accepted)) ∧
      ∀ (d : WorkflowDefinition String) nodes edges, nodes.Perm d.nodes → edges.Perm d.edges →
        d.WellFormed → (d.listed nodes edges).Accepted) := by
  rintro ⟨hsame, -⟩
  have hother : (copyBeforeAudit.listed copyBeforeAudit.nodes.reverse copyBeforeAudit.edges).Accepted := by
    unfold WorkflowDefinition.Accepted
    decide +kernel
  have hfirst : ¬ copyBeforeAudit.Accepted := by
    unfold WorkflowDefinition.Accepted
    decide
  exact hfirst ((hsame copyBeforeAudit _ _ (List.reverse_perm _) (.refl _)).1 hother)

end NexusStudio.Workshop.Workflow
