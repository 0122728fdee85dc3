import NexusStudio.Workshop.Schedules
import NexusStudio.Lib.Machine
import Mathlib.Data.List.Nodup
import Mathlib.Logic.Function.Basic

/-!
# The status of a workflow run

Workers that execute runs next to deletes that cancel them; every statement is a transaction of its own, and every call
may raise between two of them.

* (revisions) A write of a run names the revision it was read with, and raises it by one.
* (law) A run that has ended stays ended, and its status is kept; a worker that is in the graph has moved the run to
  RUNNING by a write of its own, no two by the same revision, and one at most from QUEUED.
* (second read) `update_workflow_run_cas` reads the run again after its write. A worker that gets a run there that has
  been cancelled since goes on, and ends by writing over the cancellation: `Safe` leaves such a worker out.
-/

set_option linter.unusedSectionVars false

namespace NexusStudio.WorkflowRuns

open Concurrent Schedules

/-! ### The machine -/

/-- Where a party is. -/
inductive Pc
  | idle
  -- `execute_run`
  | fetch (run : Nat)
  | load (r : WorkflowRun)
  | start (r : WorkflowRun)
  | reread (r : WorkflowRun)
  | graph (r own : WorkflowRun)
  | finish (own : WorkflowRun) (status : RunStatus) (error : Option String)
  -- the runs that `delete_workflow` cancels
  | listActive (workflowId : String)
  | cancel (todo : List WorkflowRun)
  deriving DecidableEq

structure State (κ τ ι : Type) where
  db : Db κ τ
  pc : ι → Pc
  -- the rows that the starts have found, and those of the workers that have gone into the graph, the last one first
  started : List WorkflowRun
  graphs : List WorkflowRun

inductive Action (ι : Type)
  | execute (i : ι) (run : Nat)
  | cancel (i : ι) (workflowId : String)
  -- the call under way takes a step, or raises where it must
  | run (i : ι)
  -- `execute_workflow_graph` returns
  | ended (i : ι) (status : RunStatus) (error : Option String)
  -- the call under way raises, or the worker crashes
  | fail (i : ι)

section Model

variable {κ τ ι : Type} [DecidableEq ι]

def State.goto (s : State κ τ ι) (i : ι) (pc : Pc) : State κ τ ι := { s with pc := Function.update s.pc i pc }

/-- The next step of the call under way, `none` where it raises. -/
def next (s : State κ τ ι) (i : ι) : Option (State κ τ ι) :=
  match s.pc i with
  | .idle | .graph _ _ => none
  | .fetch run =>
    (s.db.getWorkflowRun run).map fun r => s.goto i (if r.status.active then .load r else .idle)
  | .load r => (s.db.getWorkflow r.workflowId).map fun _ => s.goto i (.start r)
  | .start r =>
    (s.db.updateWorkflowRunCas r.id r.revision .running none).map fun db =>
      { s.goto i (.reread r) with db, started := r :: s.started }
  | .reread r =>
    (s.db.getWorkflowRun r.id).map fun own => { s.goto i (.graph r own) with graphs := r :: s.graphs }
  | .finish own status error =>
    (s.db.updateWorkflowRunCas own.id own.revision status error).map fun db => { s.goto i .idle with db }
  | .listActive workflowId => some (s.goto i (.cancel (s.db.listActiveWorkflowRuns workflowId)))
  | .cancel [] => some (s.goto i .idle)
  | .cancel (r :: todo) =>
    (s.db.cancelWorkflowRunCas r.id r.revision "workflow deleted").map fun db => { s.goto i (.cancel todo) with db }

def step (s : State κ τ ι) : Action ι → Option (State κ τ ι)
  | .execute i run => if s.pc i = .idle then some (s.goto i (.fetch run)) else none
  | .cancel i workflowId => if s.pc i = .idle then some (s.goto i (.listActive workflowId)) else none
  | .run i =>
    match s.pc i with
    | .idle | .graph _ _ => none
    | _ => some ((next s i).getD (s.goto i .idle))
  | .ended i status error =>
    match s.pc i with
    | .graph _ own => if status.active then none else some (s.goto i (.finish own status error))
    | _ => none
  | .fail i => some (s.goto i .idle)

/-- Any runs, each with an id of its own. -/
structure Initial (s : State κ τ ι) : Prop where
  keys : (s.db.workflowRuns.map WorkflowRun.id).Nodup
  pc : ∀ i, s.pc i = .idle
  ghosts : s.started = [] ∧ s.graphs = []

def runs : Machine (State κ τ ι) (Action ι) where
  init := Initial
  step := step

/-! ### The law -/

/-- A worker writes its result only when the run that it has read after its start had not ended. -/
def Safe (s : State κ τ ι) : Action ι → Prop
  | .run i =>
    match s.pc i with
    | .finish own _ _ => own.status.active = true
    | _ => True
  | _ => True

instance (s : State κ τ ι) (a : Action ι) : Decidable (Safe s a) := by
  unfold Safe
  repeat' split
  all_goals infer_instance

/-- The runs that have ended are there, and have ended. -/
def Ended (s t : State κ τ ι) : Prop :=
  ∀ row ∈ s.db.workflowRuns, row.status.active = false →
    ∃ row' ∈ t.db.workflowRuns, row'.id = row.id ∧ row'.status.active = false

/-- The runs that have ended are there with their status. -/
def Kept (s t : State κ τ ι) : Prop :=
  ∀ row ∈ s.db.workflowRuns, row.status.active = false →
    ∃ row' ∈ t.db.workflowRuns, row'.id = row.id ∧ row'.status = row.status

/-- `r` was found by a later start than `r'`. -/
def After (r r' : WorkflowRun) : Prop := r.id = r'.id → r'.revision < r.revision ∧ r.status ≠ .queued

/-- Every worker that has gone into the graph has found its run QUEUED or RUNNING and moved it to RUNNING, no two by the
same revision, and one at most from QUEUED. -/
structure Started (started graphs : List WorkflowRun) : Prop where
  active : ∀ r ∈ started, r.status.active = true
  order : started.Pairwise After
  nodup : graphs.Nodup
  subset : graphs ⊆ started

end Model

/-! ### What a step does -/

section Proofs

variable {κ τ ι : Type} [DecidableEq ι] {s t : State κ τ ι} {a : Action ι} {i : ι} {db db' : Db κ τ}
  {r own : WorkflowRun}

/-- The runs of which the party has read a row that it may name in a write. -/
def Pc.held : Pc → List WorkflowRun
  | .load r | .start r => [r]
  | .graph _ own | .finish own _ _ => [own]
  | .cancel todo => todo
  | _ => []

/-- A run that a worker starts has been found active, and a result is a status that ends a run. -/
def Pc.Fair : Pc → Prop
  | .load r | .start r => r.status.active = true
  | .finish _ status _ => status.active = false
  | _ => True

/-- The row of `r` is `r`, or was written since. -/
def Older (db : Db κ τ) (r : WorkflowRun) : Prop :=
  ∀ row ∈ db.workflowRuns, row.id = r.id → row = r ∨ r.revision < row.revision

/-- The row of `r` was written since, and is not QUEUED. -/
def Past (db : Db κ τ) (r : WorkflowRun) : Prop :=
  ∀ row ∈ db.workflowRuns, row.id = r.id → r.revision < row.revision ∧ row.status ≠ .queued

/-- A write of one row with a status that is not QUEUED, by the revision of the row. -/
structure Writes (db db' : Db κ τ) (id revision : Nat) (status : RunStatus) : Prop where
  found : ∃ row ∈ db.workflowRuns, row.id = id ∧ row.revision = revision
  written : ∃ row' ∈ db'.workflowRuns, row'.id = id ∧ row'.revision = revision + 1 ∧ row'.status = status
  keys : db'.workflowRuns.map WorkflowRun.id = db.workflowRuns.map WorkflowRun.id
  row : ∀ row' ∈ db'.workflowRuns, row' ∈ db.workflowRuns ∨ ∃ row ∈ db.workflowRuns, row.id = id ∧
    row.revision = revision ∧ row'.id = id ∧ row'.revision = revision + 1 ∧ row'.status = status
  kept : ∀ row ∈ db.workflowRuns, row ∈ db'.workflowRuns ∨ row.id = id ∧ row.revision = revision

theorem writes_of_update {id revision : Nat} {p : WorkflowRun → Bool} {write : WorkflowRun → WorkflowRun}
    {status : RunStatus} (h : db.updateRunWhere id revision p write = some db') (hid : ∀ row, (write row).id = row.id)
    (hstatus : ∀ row, (write row).status = status) :
    Writes db db' id revision status ∧
      ∃ row ∈ db.workflowRuns, row.id = id ∧ row.revision = revision ∧ p row = true := by
  obtain ⟨hany, h⟩ := Option.ite_none_right_eq_some.1 h
  cases h
  obtain ⟨row, hrow, hp⟩ := List.any_eq_true.1 hany
  have hp := of_decide_eq_true hp
  refine ⟨⟨⟨row, hrow, hp.1, hp.2.1⟩, ?_, ?_, ?_, ?_⟩, row, hrow, hp⟩
  · exact ⟨_, List.mem_map.2 ⟨row, hrow, if_pos hp⟩, (hid row).trans hp.1, rfl, hstatus row⟩
  · rw [List.map_map]
    refine List.map_congr_left fun row _ => ?_
    rw [Function.comp_apply]
    split
    · exact hid row
    · rfl
  · intro row' hrow'
    obtain ⟨row, hrow, rfl⟩ := List.mem_map.1 hrow'
    split
    · next hc => exact .inr ⟨row, hrow, hc.1, hc.2.1, (hid row).trans hc.1, rfl, hstatus row⟩
    · exact .inl hrow
  · intro row hrow
    by_cases hc : row.id = id ∧ row.revision = revision ∧ p row
    · exact .inr ⟨hc.1, hc.2.1⟩
    · exact .inl (List.mem_map.2 ⟨row, hrow, if_neg hc⟩)

theorem writes_of_updateCas {id revision : Nat} {status : RunStatus} {error : Option String}
    (h : db.updateWorkflowRunCas id revision status error = some db') : Writes db db' id revision status :=
  (writes_of_update h (fun _ => rfl) fun _ => rfl).1

/-- A cancellation finds a run that has not ended. -/
theorem writes_of_cancelCas {id revision : Nat} {reason : String}
    (h : db.cancelWorkflowRunCas id revision reason = some db') : Writes db db' id revision .cancelled ∧
      ∃ row ∈ db.workflowRuns, row.id = id ∧ row.revision = revision ∧ row.status.active = true :=
  writes_of_update h (fun _ => rfl) fun _ => rfl

/-- What a step of a party may do: it reads, it starts a run, it reads that run again and goes into the graph, or it
ends a run. -/
inductive Effect (s : State κ τ ι) (a : Action ι) : State κ τ ι → Prop
  | reads {i : ι} {pc : Pc} (held : ∀ r ∈ pc.held, r ∈ s.db.workflowRuns ∨ r ∈ (s.pc i).held) (fair : pc.Fair)
      (reread : ∀ r, pc ≠ .reread r) : Effect s a (s.goto i pc)
  | starts {i : ι} {r : WorkflowRun} {db : Db κ τ} (hpc : s.pc i = .start r)
      (writes : Writes s.db db r.id r.revision .running) :
      Effect s a { s.goto i (.reread r) with db, started := r :: s.started }
  | enters {i : ι} {r own : WorkflowRun} (hpc : s.pc i = .reread r) (hown : own ∈ s.db.workflowRuns) :
      Effect s a { s.goto i (.graph r own) with graphs := r :: s.graphs }
  | ends {i : ι} {pc : Pc} {db : Db κ τ} {r : WorkflowRun} {status : RunStatus} (ha : a = .run i)
      (writes : Writes s.db db r.id r.revision status) (hstatus : status.active = false)
      (held : pc.held ⊆ (s.pc i).held) (fair : pc.Fair) (reread : ∀ r, pc ≠ .reread r)
      (whose : (∃ row ∈ s.db.workflowRuns, row.id = r.id ∧ row.revision = r.revision ∧ row.status.active = true) ∨
        ∃ error, s.pc i = .finish r status error) : Effect s a { s.goto i pc with db }

theorem effect_idle (s : State κ τ ι) (a : Action ι) (i : ι) : Effect s a (s.goto i .idle) :=
  .reads (by simp [Pc.held]) trivial nofun

theorem effect_next (fair : (s.pc i).Fair) (h : next s i = some t) : Effect s (.run i) t := by
  cases hpc : s.pc i with
  | idle => simp only [next, hpc, reduceCtorEq] at h
  | graph r own => simp only [next, hpc, reduceCtorEq] at h
  | fetch run =>
    simp only [next, hpc] at h
    obtain ⟨r, hr, rfl⟩ := Option.map_eq_some_iff.1 h
    have hmem : r ∈ s.db.workflowRuns := List.mem_of_find?_eq_some hr
    cases hactive : r.status.active with
    | true => exact .reads (fun r' hr' => .inl (List.mem_singleton.1 hr' ▸ hmem)) hactive nofun
    | false => exact effect_idle s _ i
  | load r =>
    simp only [next, hpc] at h
    obtain ⟨w, -, rfl⟩ := Option.map_eq_some_iff.1 h
    refine .reads (fun r' hr' => .inr ?_) (by rwa [hpc] at fair) nofun
    rw [hpc]
    exact hr'
  | start r =>
    simp only [next, hpc] at h
    obtain ⟨db, hdb, rfl⟩ := Option.map_eq_some_iff.1 h
    exact .starts hpc (writes_of_updateCas hdb)
  | reread r =>
    simp only [next, hpc] at h
    obtain ⟨own, hown, rfl⟩ := Option.map_eq_some_iff.1 h
    exact .enters hpc (List.mem_of_find?_eq_some hown)
  | finish own status error =>
    simp only [next, hpc] at h
    obtain ⟨db, hdb, rfl⟩ := Option.map_eq_some_iff.1 h
    have hstatus : status.active = false := by rwa [hpc] at fair
    exact .ends rfl (writes_of_updateCas hdb) hstatus (List.nil_subset _) trivial nofun (.inr ⟨error, hpc⟩)
  | listActive workflowId =>
    simp only [next, hpc] at h
    cases h
    exact .reads (fun r hr => .inl (List.mem_of_mem_filter hr)) trivial nofun
  | cancel todo =>
    cases todo with
    | nil =>
      simp only [next, hpc] at h
      cases h
      exact effect_idle s _ i
    | cons r todo =>
      simp only [next, hpc] at h
      obtain ⟨db, hdb, rfl⟩ := Option.map_eq_some_iff.1 h
      obtain ⟨hwrites, hactive⟩ := writes_of_cancelCas hdb
      refine .ends rfl hwrites rfl ?_ trivial nofun (.inl hactive)
      rw [hpc]
      exact List.subset_cons_self r todo

theorem effect_step (fair : ∀ i, (s.pc i).Fair) (h : step s a = some t) : Effect s a t := by
  cases a with
  | execute i run =>
    obtain ⟨-, h⟩ := Option.ite_none_right_eq_some.1 h
    cases h
    exact .reads (by simp [Pc.held]) trivial nofun
  | cancel i workflowId =>
    obtain ⟨-, h⟩ := Option.ite_none_right_eq_some.1 h
    cases h
    exact .reads (by simp [Pc.held]) trivial nofun
  | run i =>
    have h : some ((next s i).getD (s.goto i .idle)) = some t := by
      simp only [step] at h
      split at h
      · cases h
      · cases h
      · exact h
    cases hnext : next s i with
    | none =>
      rw [hnext] at h
      cases h
      exact effect_idle s _ i
    | some u =>
      rw [hnext] at h
      cases h
      exact effect_next (fair i) hnext
  | ended i status error =>
    cases hpc : s.pc i with
    | graph r own =>
      simp only [step, hpc] at h
      obtain ⟨hstatus, h⟩ := Option.ite_none_left_eq_some.1 h
      cases h
      refine .reads (fun r' hr' => .inr ?_) (Bool.eq_false_iff.2 hstatus) nofun
      rw [hpc]
      exact hr'
    | _ => simp only [step, hpc, reduceCtorEq] at h
  | fail i =>
    cases h
    exact effect_idle s _ i

/-! ### The invariant -/

/-- A worker that is about to read its run again has started it, alone, and has not gone into the graph. -/
def Rereads (pc : ι → Pc) (started graphs : List WorkflowRun) : Prop :=
  ∀ i r, pc i = .reread r → r ∈ started ∧ r ∉ graphs ∧ ∀ j, pc j = .reread r → j = i

structure Inv (s : State κ τ ι) : Prop where
  keys : (s.db.workflowRuns.map WorkflowRun.id).Nodup
  fair : ∀ i, (s.pc i).Fair
  older : ∀ i, ∀ r ∈ (s.pc i).held, Older s.db r
  past : ∀ r ∈ s.started, Past s.db r
  rereads : Rereads s.pc s.started s.graphs
  started : Started s.started s.graphs

theorem older_of_mem (hkeys : (db.workflowRuns.map WorkflowRun.id).Nodup) (hr : r ∈ db.workflowRuns) : Older db r :=
  fun _ hrow hid => .inl (List.inj_on_of_nodup_map hkeys hrow hr hid)

/-- The row that a write by the revision of `r` finds is `r`. -/
theorem Older.mem {status : RunStatus} (h : Older db r) (hw : Writes db db' r.id r.revision status) :
    r ∈ db.workflowRuns := by
  obtain ⟨row, hrow, hid, hrevision⟩ := hw.found
  rcases h row hrow hid with rfl | hlt
  · exact hrow
  · exact absurd hrevision (Nat.ne_of_gt hlt)

theorem Older.writes {id revision : Nat} {status : RunStatus} (h : Older db r)
    (hw : Writes db db' id revision status) : Older db' r := by
  intro row' hrow' hid
  rcases hw.row row' hrow' with hrow | ⟨row, hrow, hrowid, hrevision, hid', hrevision', -⟩
  · exact h row' hrow hid
  · have hid : row.id = r.id := hrowid.trans (hid'.symm.trans hid)
    refine .inr ?_
    rcases h row hrow hid with rfl | hlt
    · omega
    · omega

theorem Past.writes {id revision : Nat} {status : RunStatus} (h : Past db r)
    (hw : Writes db db' id revision status) (hstatus : status ≠ .queued) : Past db' r := by
  intro row' hrow' hid
  rcases hw.row row' hrow' with hrow | ⟨row, hrow, hrowid, hrevision, hid', hrevision', hstatus'⟩
  · exact h row' hrow hid
  · have hlt := (h row hrow (hrowid.trans (hid'.symm.trans hid))).1
    exact ⟨by omega, hstatus'.trans_ne hstatus⟩

/-- After its own start a run is of a later revision, and not QUEUED. -/
theorem past_of_starts (hkeys : (db.workflowRuns.map WorkflowRun.id).Nodup)
    (hw : Writes db db' r.id r.revision .running) : Past db' r := by
  obtain ⟨written, hmem, hid, hrevision, hstatus⟩ := hw.written
  intro row' hrow' hid'
  obtain rfl := List.inj_on_of_nodup_map (hw.keys ▸ hkeys) hrow' hmem (hid'.trans hid.symm)
  exact ⟨by omega, hstatus.trans_ne (by decide)⟩

theorem Rereads.goto {pc : ι → Pc} {started graphs : List WorkflowRun} {pc' : Pc} (h : Rereads pc started graphs)
    (hpc : ∀ r, pc' ≠ .reread r) : Rereads (Function.update pc i pc') started graphs := by
  have hback : ∀ j r, Function.update pc i pc' j = .reread r → pc j = .reread r := by
    intro j r hj
    by_cases hji : j = i
    · subst hji
      rw [Function.update_self] at hj
      exact absurd hj (hpc r)
    · rwa [Function.update_of_ne hji] at hj
  intro j r hj
  obtain ⟨hstarted, hgraphs, halone⟩ := h j r (hback j r hj)
  exact ⟨hstarted, hgraphs, fun k hk => halone k (hback k r hk)⟩

/-- A run is started of which no worker has started the same row. -/
theorem Rereads.starts {pc : ι → Pc} {started graphs : List WorkflowRun} (h : Rereads pc started graphs)
    (hsubset : graphs ⊆ started) (hr : r ∉ started) :
    Rereads (Function.update pc i (.reread r)) (r :: started) graphs := by
  have hother : ∀ j, j ≠ i → Function.update pc i (.reread r) j ≠ .reread r := by
    intro j hji hj
    rw [Function.update_of_ne hji] at hj
    exact hr (h j r hj).1
  intro j r' hj
  by_cases hji : j = i
  · subst hji
    rw [Function.update_self] at hj
    cases hj
    refine ⟨List.mem_cons_self, fun hg => hr (hsubset hg), fun k hk => ?_⟩
    by_contra hkj
    exact hother k hkj hk
  · have hj' := hj
    rw [Function.update_of_ne hji] at hj'
    obtain ⟨hstarted, hgraphs, halone⟩ := h j r' hj'
    refine ⟨List.mem_cons_of_mem r hstarted, hgraphs, fun k hk => ?_⟩
    by_cases hki : k = i
    · subst hki
      rw [Function.update_self] at hk
      cases hk
      exact absurd hstarted hr
    · rw [Function.update_of_ne hki] at hk
      exact halone k hk

/-- The worker that has read its run again goes into the graph. -/
theorem Rereads.enters {pc : ι → Pc} {started graphs : List WorkflowRun} (h : Rereads pc started graphs)
    (hpc : pc i = .reread r) : Rereads (Function.update pc i (.graph r own)) started (r :: graphs) := by
  intro j r' hj
  have hgoto : Rereads (Function.update pc i (.graph r own)) started graphs := h.goto nofun
  obtain ⟨hstarted, hgraphs, halone⟩ := hgoto j r' hj
  refine ⟨hstarted, fun hmem => ?_, halone⟩
  rcases List.mem_cons.1 hmem with rfl | hmem
  · by_cases hji : j = i
    · subst hji
      rw [Function.update_self] at hj
      cases hj
    · rw [Function.update_of_ne hji] at hj
      exact hji ((h i r' hpc).2.2 j hj)
  · exact hgraphs hmem

theorem inv_reads (hI : Inv s) {pc : Pc} (held : ∀ r ∈ pc.held, r ∈ s.db.workflowRuns ∨ r ∈ (s.pc i).held)
    (fair : pc.Fair) (reread : ∀ r, pc ≠ .reread r) : Inv (s.goto i pc) := by
  refine ⟨hI.keys, ?_, ?_, hI.past, hI.rereads.goto reread, hI.started⟩
  · exact (Function.forall_update_iff s.pc fun _ pc => pc.Fair).2 ⟨fair, fun j _ => hI.fair j⟩
  · refine (Function.forall_update_iff s.pc fun _ pc => ∀ r ∈ pc.held, Older s.db r).2
      ⟨fun r hr => ?_, fun j _ => hI.older j⟩
    rcases held r hr with hr | hr
    · exact older_of_mem hI.keys hr
    · exact hI.older i r hr

theorem inv_starts (hI : Inv s) (hpc : s.pc i = .start r) (hw : Writes s.db db r.id r.revision .running) :
    Inv { s.goto i (.reread r) with db, started := r :: s.started } := by
  have hr : r ∈ s.db.workflowRuns := (hI.older i r (by simp [hpc, Pc.held])).mem hw
  have hactive : r.status.active = true := by
    have hfair := hI.fair i
    rwa [hpc] at hfair
  have hafter : ∀ r' ∈ s.started, After r r' := fun r' hr' hid => hI.past r' hr' r hr hid
  have hnew : r ∉ s.started := fun hmem => absurd (hafter r hmem rfl).1 (Nat.lt_irrefl _)
  refine ⟨hw.keys ▸ hI.keys, ?_, ?_, ?_, hI.rereads.starts hI.started.subset hnew, ?_⟩
  · exact (Function.forall_update_iff s.pc fun _ pc => pc.Fair).2 ⟨trivial, fun j _ => hI.fair j⟩
  · exact (Function.forall_update_iff s.pc fun _ pc => ∀ r ∈ pc.held, Older db r).2
      ⟨fun _ hr => absurd hr List.not_mem_nil, fun j _ r' hr' => (hI.older j r' hr').writes hw⟩
  · intro r' hr'
    rcases List.mem_cons.1 hr' with rfl | hr'
    · exact past_of_starts hI.keys hw
    · exact (hI.past r' hr').writes hw (by decide)
  · refine ⟨fun r' hr' => ?_, List.pairwise_cons.2 ⟨hafter, hI.started.order⟩, hI.started.nodup,
      List.subset_cons_of_subset r hI.started.subset⟩
    rcases List.mem_cons.1 hr' with rfl | hr'
    · exact hactive
    · exact hI.started.active r' hr'

theorem inv_enters (hI : Inv s) (hpc : s.pc i = .reread r) (hown : own ∈ s.db.workflowRuns) :
    Inv { s.goto i (.graph r own) with graphs := r :: s.graphs } := by
  obtain ⟨hstarted, hgraphs, -⟩ := hI.rereads i r hpc
  refine ⟨hI.keys, ?_, ?_, hI.past, hI.rereads.enters hpc, ?_⟩
  · exact (Function.forall_update_iff s.pc fun _ pc => pc.Fair).2 ⟨trivial, fun j _ => hI.fair j⟩
  · refine (Function.forall_update_iff s.pc fun _ pc => ∀ r ∈ pc.held, Older s.db r).2
      ⟨fun r' hr' => ?_, fun j _ => hI.older j⟩
    obtain rfl := List.mem_singleton.1 hr'
    exact older_of_mem hI.keys hown
  · exact ⟨hI.started.active, hI.started.order, List.nodup_cons.2 ⟨hgraphs, hI.started.nodup⟩,
      List.cons_subset.2 ⟨hstarted, hI.started.subset⟩⟩

theorem inv_ends (hI : Inv s) {pc : Pc} {status : RunStatus} (hw : Writes s.db db r.id r.revision status)
    (hstatus : status.active = false) (held : pc.held ⊆ (s.pc i).held) (fair : pc.Fair)
    (reread : ∀ r, pc ≠ .reread r) : Inv { s.goto i pc with db } := by
  have hqueued : status ≠ .queued := by
    rintro rfl
    cases hstatus
  refine ⟨hw.keys ▸ hI.keys, ?_, ?_, fun r' hr' => (hI.past r' hr').writes hw hqueued, hI.rereads.goto reread,
    hI.started⟩
  · exact (Function.forall_update_iff s.pc fun _ pc => pc.Fair).2 ⟨fair, fun j _ => hI.fair j⟩
  · exact (Function.forall_update_iff s.pc fun _ pc => ∀ r ∈ pc.held, Older db r).2
      ⟨fun r' hr' => (hI.older i r' (held hr')).writes hw, fun j _ r' hr' => (hI.older j r' hr').writes hw⟩

theorem inv_step (hI : Inv s) (h : step s a = some t) : Inv t := by
  cases effect_step hI.fair h with
  | reads held fair reread => exact inv_reads hI held fair reread
  | starts hpc writes => exact inv_starts hI hpc writes
  | enters hpc hown => exact inv_enters hI hpc hown
  | ends _ writes hstatus held fair reread _ => exact inv_ends hI writes hstatus held fair reread

theorem inv_init (h : Initial s) : Inv s := by
  obtain ⟨hstarted, hgraphs⟩ := h.ghosts
  refine ⟨h.keys, fun i => ?_, fun i r hr => ?_, ?_, fun i r hr => ?_, ?_⟩
  · rw [h.pc i]
    trivial
  · rw [h.pc i] at hr
    exact absurd hr List.not_mem_nil
  · rw [hstarted]
    exact fun r hr => absurd hr List.not_mem_nil
  · cases (h.pc i).symm.trans hr
  · rw [hstarted, hgraphs]
    exact ⟨fun r hr => absurd hr List.not_mem_nil, .nil, .nil, List.Subset.refl _⟩

/-! ### The status of a run that has ended -/

/-- A start finds no run that has ended. -/
theorem mem_of_starts (hI : Inv s) (hpc : s.pc i = .start r) (hw : Writes s.db db r.id r.revision .running)
    {row : WorkflowRun} (hrow : row ∈ s.db.workflowRuns) (hended : row.status.active = false) :
    row ∈ db.workflowRuns := by
  rcases hw.kept row hrow with hkept | ⟨hid, hrevision⟩
  · exact hkept
  · have hfair := hI.fair i
    rw [hpc] at hfair
    rcases hI.older i r (by simp [hpc, Pc.held]) row hrow hid with rfl | hlt
    · cases hended.symm.trans hfair
    · omega

theorem ended_step (hI : Inv s) (h : step s a = some t) : Ended s t := by
  intro row hrow hended
  cases effect_step hI.fair h with
  | reads => exact ⟨row, hrow, rfl, hended⟩
  | enters => exact ⟨row, hrow, rfl, hended⟩
  | starts hpc writes => exact ⟨row, mem_of_starts hI hpc writes hrow hended, rfl, hended⟩
  | ends _ writes hstatus =>
    rcases writes.kept row hrow with hkept | ⟨hid, -⟩
    · exact ⟨row, hkept, rfl, hended⟩
    · obtain ⟨row', hrow', hid', -, hstatus'⟩ := writes.written
      exact ⟨row', hrow', hid'.trans hid.symm, hstatus'.symm ▸ hstatus⟩

/-- A cancellation finds no run that has ended, nor does the result of a worker that has read the run before. -/
theorem kept_step (hI : Inv s) (hsafe : Safe s a) (h : step s a = some t) : Kept s t := by
  intro row hrow hended
  cases effect_step hI.fair h with
  | reads => exact ⟨row, hrow, rfl, rfl⟩
  | enters => exact ⟨row, hrow, rfl, rfl⟩
  | starts hpc writes => exact ⟨row, mem_of_starts hI hpc writes hrow hended, rfl, rfl⟩
  | @ends i _ _ r _ ha writes _ _ _ _ whose =>
    rcases writes.kept row hrow with hkept | ⟨hid, hrevision⟩
    · exact ⟨row, hkept, rfl, rfl⟩
    · exfalso
      rcases whose with ⟨row', hrow', hid', -, hactive⟩ | ⟨error, hpc⟩
      · obtain rfl := List.inj_on_of_nodup_map hI.keys hrow hrow' (hid.trans hid'.symm)
        cases hended.symm.trans hactive
      · subst ha
        simp only [Safe, hpc] at hsafe
        rcases hI.older i r (by simp [hpc, Pc.held]) row hrow hid with rfl | hlt
        · cases hended.symm.trans hsafe
        · omega

theorem ended_trans {u : State κ τ ι} (h : Ended s t) (h' : Ended t u) : Ended s u := by
  intro row hrow hended
  obtain ⟨row', hrow', hid, hended'⟩ := h row hrow hended
  obtain ⟨row'', hrow'', hid', hended''⟩ := h' row' hrow' hended'
  exact ⟨row'', hrow'', hid'.trans hid, hended''⟩

theorem kept_trans {u : State κ τ ι} (h : Kept s t) (h' : Kept t u) : Kept s u := by
  intro row hrow hended
  obtain ⟨row', hrow', hid, hstatus⟩ := h row hrow hended
  obtain ⟨row'', hrow'', hid', hstatus'⟩ := h' row' hrow' (hstatus ▸ hended)
  exact ⟨row'', hrow'', hid'.trans hid, hstatus'.trans hstatus⟩

theorem inv_reach (h : (runs (κ := κ) (τ := τ) (ι := ι)).Reach Free s) : Inv s :=
  h.induct (fun _ => inv_init) fun _ _ _ hI _ hstep => inv_step hI hstep

/-- Every worker in the graph has started its run itself; a run that has ended stays ended, and keeps its status in
every run on from there in which no worker writes a result that has read the run ended after its start. -/
theorem statuses_kept (h : (runs (κ := κ) (τ := τ) (ι := ι)).Reach Free s) : Started s.started s.graphs ∧
    (∀ t, runs.Run Free s t → Ended s t) ∧ ∀ t, runs.Run Safe s t → Kept s t := by
  have hI : Inv s := inv_reach h
  refine ⟨hI.started, fun t hrun => ?_, fun t hrun => ?_⟩
  · exact hrun.rel (P := Inv) (fun s row hrow hended => ⟨row, hrow, rfl, hended⟩) (fun _ _ _ => ended_trans)
      (fun _ _ _ hI _ hstep => inv_step hI hstep) (fun _ _ _ hI _ hstep => ended_step hI hstep) hI
  · exact hrun.rel (P := Inv) (fun s row hrow _ => ⟨row, hrow, rfl, rfl⟩) (fun _ _ _ => kept_trans)
      (fun _ _ _ hI _ hstep => inv_step hI hstep) (fun _ _ _ hI hsafe hstep => kept_step hI hsafe hstep) hI

/-- The result of any other worker raises, or is written over the status of a run that has ended. -/
theorem overwrites_of_not_safe (hI : Inv s) (hsafe : ¬ Safe s a) (h : step s a = some t) :
    t.db = s.db ∨ ∃ row ∈ s.db.workflowRuns, row.status.active = false ∧
      ∃ row' ∈ t.db.workflowRuns, row'.id = row.id ∧ row'.revision = row.revision + 1 := by
  cases a with
  | run i =>
    cases hpc : s.pc i with
    | finish own status error =>
      simp only [Safe, hpc, Bool.not_eq_true] at hsafe
      simp only [step, next, hpc, Option.some.injEq] at h
      cases hdb : s.db.updateWorkflowRunCas own.id own.revision status error with
      | none =>
        rw [hdb] at h
        cases h
        exact .inl rfl
      | some db =>
        rw [hdb] at h
        cases h
        have hw := writes_of_updateCas hdb
        obtain ⟨row', hrow', hid, hrevision, -⟩ := hw.written
        exact .inr ⟨own, (hI.older i own (by simp [hpc, Pc.held])).mem hw, hsafe, row', hrow', hid, hrevision⟩
    | _ => simp only [Safe, hpc, not_true] at hsafe
  | _ => exact absurd trivial hsafe

end Proofs

/-! ### Runs of two workers -/

def run (status : RunStatus) (error : Option String) (revision : Nat) : WorkflowRun :=
  ⟨0, "w", 1, none, .manual, status, error, revision⟩

def oneRun : State String Nat Bool where
  db := ⟨[⟨"w", 1, true, ["a"]⟩], [], [run .queued none 1], [], []⟩
  pc _ := .idle
  started := []
  graphs := []

theorem initial_oneRun : Initial oneRun := ⟨by decide, fun _ => rfl, rfl, rfl⟩

/-- A worker up to its start. -/
def starts (i : Bool) : List (Action Bool) := [.execute i 0, .run i, .run i, .run i]

/-- A worker starts the run, reads it again, and writes its result. -/
theorem statuses_kept_of_succeeded : ∃ s : State String Nat Bool, runs.Reach Free s ∧
    s.db.workflowRuns = [run .succeeded none 3] ∧ s.graphs = [run .queued none 1] ∧ Started s.started s.graphs ∧
      (∀ t, runs.Run Free s t → Ended s t) ∧ ∀ t, runs.Run Safe s t → Kept s t := by
  obtain ⟨s, -, hreach, hend⟩ := Machine.reach_of_exec (M := runs (κ := String) (τ := Nat)) (C := Free) (s := oneRun)
    (p := fun s => s.db.workflowRuns = [run .succeeded none 3] ∧ s.graphs = [run .queued none 1])
    (starts true ++ [.run true, .ended true .succeeded none, .run true]) initial_oneRun (by decide)
  obtain ⟨hruns, hgraphs⟩ := of_decide_eq_true hend
  exact ⟨s, hreach, hruns, hgraphs, statuses_kept hreach⟩

/-- A worker starts a run that another one has started, and both go into the graph; and a worker whose run is cancelled
before it reads it again writes its result over the cancellation. -/
theorem two_workers_in_graph : (∃ s : State String Nat Bool, runs.Reach Free s ∧ s.graphs.length = 2) ∧
    ∃ s t : State String Nat Bool, runs.Reach Free s ∧ runs.Run Free s t ∧ ¬ Kept s t := by
  constructor
  · obtain ⟨s, -, hreach, hend⟩ := Machine.reach_of_exec (M := runs (κ := String) (τ := Nat)) (C := Free) (s := oneRun)
      (p := fun s => s.graphs.length = 2) (starts true ++ starts false ++ [.run true, .run false]) initial_oneRun
      (by decide)
    exact ⟨s, hreach, of_decide_eq_true hend⟩
  · obtain ⟨s, -, hreach, hend⟩ := Machine.reach_of_exec (M := runs (κ := String) (τ := Nat)) (C := Free) (s := oneRun)
      (p := fun s => s.db.workflowRuns = [run .cancelled (some "workflow deleted") 3] ∧
        (runs.exec Free s [.run true, .ended true .succeeded none, .run true]).any fun t =>
          t.db.workflowRuns = [run .succeeded none 4])
      (starts true ++ [.cancel false "w", .run false, .run false]) initial_oneRun (by decide)
    obtain ⟨hcancelled, hend⟩ := of_decide_eq_true hend
    obtain ⟨t, ht, hend⟩ := (Option.any_eq_true _ _).1 hend
    have hsucceeded : t.db.workflowRuns = [run .succeeded none 4] := of_decide_eq_true hend
    refine ⟨s, t, hreach, Machine.run_of_exec ht, fun hkept => ?_⟩
    obtain ⟨row, hrow, -, hstatus⟩ := hkept _ (hcancelled ▸ List.mem_singleton_self _) rfl
    rw [hsucceeded] at hrow
    obtain rfl := List.mem_singleton.1 hrow
    cases hstatus

end NexusStudio.WorkflowRuns
