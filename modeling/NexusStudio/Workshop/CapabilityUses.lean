import NexusStudio.Workshop.TaskOrchestrator
import Mathlib.Data.Fintype.Basic

/-!
# The capability uses of a task that is done

* (law) A task that is DONE has the grant of every external capability that was recorded as used.
* (defect) `record_capability_use` checks the status and inserts later, by no revision: the use may come after the
  acceptance has listed the uses, or after the task is DONE.
* (condition) `Safe`: no use without its grant is inserted in a task that is DONE or about to be.
-/

set_option linter.unusedSectionVars false

namespace NexusStudio.CapabilityUses

open Concurrent AuthorizedOperations TaskOrchestrator

section Model

variable {ι : Type} [DecidableEq ι]

/-- Every external capability that was used is granted. -/
def Covered (db : Db) : Prop := ∀ c ∈ db.capabilityUses, isExternalCapability c = true → c ∈ db.task.externalAuth

instance (db : Db) : Decidable (Covered db) := inferInstanceAs (Decidable (∀ c ∈ _, _ → _))

def Law (s : State ι) : Prop := s.db.task.status = .done → Covered s.db

instance (pc : Pc) (task : TaskRecord) : Decidable (pc.Decides task) := by
  unfold Pc.Decides
  split
  all_goals infer_instance

/-- A use that is new and has no grant comes while the task is not DONE and no acceptance of it has been decided. -/
def Safe (s : State ι) : Action ι → Prop
  | .run i =>
    match s.pc i with
    | .insertUse c _ =>
      isExternalCapability c = true → c ∉ s.db.capabilityUses → c ∉ s.db.task.externalAuth →
        s.db.task.status ≠ .done ∧ ∀ j, ¬ (s.pc j).Decides s.db.task
    | _ => True
  | _ => True

instance [Fintype ι] (s : State ι) (a : Action ι) : Decidable (Safe s a) := by
  unfold Safe
  repeat' split
  all_goals infer_instance

end Model

/-! ### The invariant -/

section Proofs

variable {ι : Type} [DecidableEq ι] {deliverable : String → String → Bool} {s t : State ι} {i : ι} {a : Action ι}

structure Inv (s : State ι) : Prop where
  checked : ∀ i, (s.pc i).Checked
  -- a task that a call holds is the row, or older
  held : ∀ i, ∀ task ∈ (s.pc i).held, task = s.db.task ∨ task.revision < s.db.task.revision
  judged : ∀ i, (s.pc i).Decides s.db.task → Covered s.db
  done : s.db.task.status = .done → Covered s.db

theorem decides_held {pc : Pc} {task : TaskRecord} (h : pc.Decides task) :
    ∃ a read, pc = .complete a read ∧ read.revision = task.revision ∧ task.status = .reviewing := by
  cases pc with
  | complete a read => exact ⟨a, read, rfl, h⟩
  | _ => exact h.elim

/-- An acceptance that decides holds the row, so what it has judged is of the row. -/
theorem covered_of_judged {pc : Pc} (hjudged : pc.Judged s.db.capabilityUses) (hdecides : pc.Decides s.db.task)
    (hheld : ∀ task ∈ pc.held, task = s.db.task ∨ task.revision < s.db.task.revision) : Covered s.db := by
  obtain ⟨a, read, rfl, hrevision, -⟩ := decides_held hdecides
  rcases hheld read rfl with rfl | hlt
  · exact hjudged
  · exact absurd hrevision (Nat.ne_of_lt hlt)

theorem not_decides_of_held_none {pc : Pc} {task : TaskRecord} (h : pc.held = none) : ¬ pc.Decides task := by
  intro hd
  obtain ⟨a, read, rfl, -⟩ := decides_held hd
  cases h

theorem inv_reads (hI : Inv s) (h : Reads s t i) : Inv t := by
  obtain ⟨pc, rfl, hchecked, hjudged, hheld⟩ := h
  have hown : ∀ task ∈ pc.held, task = s.db.task ∨ task.revision < s.db.task.revision := by
    intro task ht
    rcases hheld task ht with ht | ht
    · exact hI.held i task ht
    · exact .inl ht
  refine ⟨checked_goto hI.checked hchecked, ?_, ?_, hI.done⟩
  · exact (Function.forall_update_iff s.pc fun _ pc =>
      ∀ task ∈ pc.held, task = s.db.task ∨ task.revision < s.db.task.revision).2 ⟨hown, fun j _ => hI.held j⟩
  · exact (Function.forall_update_iff s.pc fun _ pc => pc.Decides s.db.task → Covered s.db).2
      ⟨fun hd => covered_of_judged hjudged hd hown, fun j _ => hI.judged j⟩

/-- A write of the task: nobody else decides any more. -/
theorem inv_writesTask (hI : Inv s) {pc : Pc} {name : EffectName} {task : TaskRecord} {db : Db}
    (hname : name.writesTask = true) (hchecked : pc.Checked) (hheld : pc.held = none)
    (hcommits : Commits s i name task db) : Inv (s.write i pc name task db) := by
  obtain ⟨hlawful, huses, hdone⟩ := hcommits
  obtain ⟨-, hrevision⟩ := hlawful.raises hname
  have hrevision : db.task.revision = s.db.task.revision + 1 := hrevision
  have huses : db.capabilityUses = s.db.capabilityUses := by
    rcases huses with huses | ⟨rfl, -⟩
    · exact huses
    · cases hname
  have hold : ∀ j, ∀ u ∈ (s.pc j).held, u.revision < db.task.revision := by
    intro j u hu
    rcases hI.held j u hu with rfl | hlt
    · omega
    · omega
  have hstale : ∀ j, ¬ (s.pc j).Decides db.task := by
    intro j hd
    obtain ⟨a, read, hpc, hread, -⟩ := decides_held hd
    exact absurd hread (Nat.ne_of_lt (hold j read (by rw [hpc]; rfl)))
  refine ⟨checked_goto hI.checked hchecked, ?_, ?_, fun hd => ?_⟩
  · refine (Function.forall_update_iff s.pc fun _ pc => ∀ u ∈ pc.held, u = db.task ∨ u.revision < db.task.revision).2
      ⟨fun u hu => (by cases hheld.symm.trans hu), fun j _ u hu => .inr (hold j u hu)⟩
  · exact (Function.forall_update_iff s.pc fun _ pc => pc.Decides db.task → Covered db).2
      ⟨fun hd => absurd hd (not_decides_of_held_none hheld), fun j _ hd => absurd hd (hstale j)⟩
  · have hd : db.task.status = .done := hd
    have hnot : s.db.task.status ≠ .done := by
      intro hbefore
      have hre := hlawful.done hname hbefore
      cases hd.symm.trans hre
    obtain ⟨hdecides, hauth⟩ := hdone hd hnot
    have hcovered := hI.judged i hdecides
    change Covered db
    unfold Covered
    rw [huses, hauth]
    exact hcovered

/-- A write of another table, of a use that the condition allows. -/
theorem inv_writesOther (hI : Inv s) (hsafe : Safe s (.run i)) {pc : Pc} {name : EffectName} {task : TaskRecord}
    {db : Db} (hname : name.writesTask = false) (hchecked : pc.Checked) (hheld : pc.held = none)
    (hcommits : Commits s i name task db) : Inv (s.write i pc name task db) := by
  obtain ⟨hlawful, huses, -⟩ := hcommits
  have htask : db.task = s.db.task := hlawful.keeps hname
  have hcovered : (s.db.task.status = .done ∨ ∃ j, (s.pc j).Decides s.db.task) → Covered s.db → Covered db := by
    intro hwhen hcovered c hc hext
    rw [htask]
    rcases huses with huses | ⟨-, d, hpc, hnew, huses⟩
    · exact hcovered c (huses ▸ hc) hext
    · rw [huses] at hc
      rcases List.mem_append.1 hc with hc | hc
      · exact hcovered c hc hext
      · obtain rfl := List.mem_singleton.1 hc
        simp only [Safe, hpc] at hsafe
        by_contra hgrant
        obtain ⟨hstatus, hdecides⟩ := hsafe hext hnew hgrant
        rcases hwhen with hwhen | ⟨j, hj⟩
        · exact hstatus hwhen
        · exact hdecides j hj
  refine ⟨checked_goto hI.checked hchecked, ?_, ?_, fun hd => ?_⟩
  · change ∀ j, ∀ u ∈ (Function.update s.pc i pc j).held, u = db.task ∨ u.revision < db.task.revision
    rw [htask]
    exact (Function.forall_update_iff s.pc fun _ pc =>
      ∀ u ∈ pc.held, u = s.db.task ∨ u.revision < s.db.task.revision).2
      ⟨fun u hu => (by cases hheld.symm.trans hu), fun j _ => hI.held j⟩
  · refine (Function.forall_update_iff s.pc fun _ pc => pc.Decides db.task → Covered db).2
      ⟨fun hd => absurd hd (not_decides_of_held_none hheld), fun j _ hd => ?_⟩
    rw [htask] at hd
    exact hcovered (.inr ⟨j, hd⟩) (hI.judged j hd)
  · have hd : s.db.task.status = .done := htask ▸ hd
    exact hcovered (.inl hd) (hI.done hd)

theorem inv_step (hI : Inv s) (hsafe : Safe s a) (h : step deliverable s a = some t) : Inv t := by
  obtain ⟨i, hr | ⟨rfl, hw⟩⟩ := step_cases hI.checked h
  · exact inv_reads hI hr
  · obtain ⟨pc, name, task, db, rfl, hchecked, hheld, hcommits⟩ := hw
    cases hname : name.writesTask with
    | true => exact inv_writesTask hI hname hchecked hheld hcommits
    | false => exact inv_writesOther hI hsafe hname hchecked hheld hcommits

theorem inv_init (h : Initial s) : Inv s := by
  have hcovered : Covered s.db := by
    unfold Covered
    rw [h.uses]
    exact fun c hc => absurd hc List.not_mem_nil
  refine ⟨fun i => ?_, fun i task ht => ?_, fun _ _ => hcovered, fun _ => hcovered⟩
  · rw [h.pc i]
    trivial
  · rw [h.pc i] at ht
    cases ht

/-- In every run whose steps all meet the condition a task that is DONE has the grant of every external capability that
was recorded for it. -/
theorem uses_granted_of_safe (h : (tasks deliverable).Reach Safe s) : s.db.task.status = .done → Covered s.db :=
  have hI : Inv s := h.induct (fun _ => inv_init) fun _ _ _ hI hsafe hstep => inv_step hI hsafe hstep
  hI.done

/-- A call that has been decided writes DONE next. -/
theorem done_of_decides (deliverable : String → String → Bool) (hpc : (s.pc i).Decides s.db.task) :
    ∃ t, next deliverable s i = some t ∧ t.db.task.status = .done ∧ t.db.capabilityUses = s.db.capabilityUses ∧
      t.db.task.externalAuth = s.db.task.externalAuth := by
  obtain ⟨a, read, hpc, hrevision, hstatus⟩ := decides_held hpc
  have hcas : s.db.updateTaskStatusCas read .reviewing .done =
      some { s.db with task := { s.db.task with status := .done, revision := read.revision + 1 } } :=
    if_pos ⟨hrevision.symm, hstatus⟩
  simp only [next, hpc, Db.completeWeakAccept, hcas, Option.map_some]
  exact ⟨_, rfl, rfl, rfl, rfl⟩

/-- A step that does not meet the condition leaves a task that is DONE with a use without its grant, or that the call
of some party makes so next. -/
theorem uncovered_of_not_safe (hsafe : ¬ Safe s a) (h : step deliverable s a = some t) :
    ¬ Covered t.db ∧ (t.db.task.status = .done ∨ ∃ j u, next deliverable t j = some u ∧ u.db.task.status = .done ∧
      ¬ Covered u.db) := by
  cases a with
  | call i c => exact absurd trivial hsafe
  | fail i => exact absurd trivial hsafe
  | run i =>
    cases hpc : s.pc i with
    | insertUse c task =>
      simp only [Safe, hpc] at hsafe
      have hext : isExternalCapability c = true := by
        by_contra hn
        exact hsafe fun h => absurd h hn
      have hnew : c ∉ s.db.capabilityUses := by
        intro hn
        exact hsafe fun _ h => absurd hn h
      have hgrant : c ∉ s.db.task.externalAuth := by
        intro hn
        exact hsafe fun _ _ h => absurd hn h
      have hwhen : s.db.task.status = .done ∨ ∃ j, (s.pc j).Decides s.db.task := by
        by_contra hn
        obtain ⟨hstatus, hdecides⟩ := not_or.1 hn
        exact hsafe fun _ _ _ => ⟨hstatus, fun j hj => hdecides ⟨j, hj⟩⟩
      simp only [step, next, hpc, if_neg hnew] at h
      cases h
      have huncovered : ∀ db : Db, db.capabilityUses = s.db.capabilityUses ++ [c] →
          db.task.externalAuth = s.db.task.externalAuth → ¬ Covered db := by
        intro db huses hauth hcovered
        refine hgrant (hauth ▸ hcovered c ?_ hext)
        rw [huses]
        exact List.mem_append_right _ (List.mem_singleton_self c)
      refine ⟨huncovered _ rfl rfl, hwhen.imp id fun hdecided => ?_⟩
      obtain ⟨j, hj⟩ := hdecided
      have hji : j ≠ i := by
        rintro rfl
        rw [hpc] at hj
        exact hj.elim
      have hdecides : (Function.update s.pc i .idle j).Decides s.db.task := by
        rw [Function.update_of_ne hji]
        exact hj
      obtain ⟨u, hu, hstatus, huses, hauth⟩ := done_of_decides deliverable
        (s := s.write i .idle .recordCapabilityUse task { s.db with capabilityUses := s.db.capabilityUses ++ [c] })
        hdecides
      exact ⟨j, u, hu, hstatus, huncovered u.db huses hauth⟩
    | _ => simp only [Safe, hpc, not_true] at hsafe

end Proofs

/-! ### A use that comes late -/

def accept : Call := .accept ⟨["report"], [], false⟩

/-- The use is granted while the task is executed, and the task is accepted with it. -/
theorem uses_granted_of_grant : ∃ s : State Bool, (tasks fun _ _ => true).Reach Safe s ∧
    s.db.capabilityUses = [.mcp] ∧ s.db.task.status = .done ∧ (s.db.task.status = .done → Covered s.db) := by
  obtain ⟨s, -, hreach, hend⟩ := Machine.reach_of_exec (M := tasks (ι := Bool) fun _ _ => true) (C := Safe)
    (s := taskState .executing) (p := fun s => s.db.capabilityUses = [.mcp] ∧ s.db.task.status = .done)
    (alone true (.recordCapabilityUse .mcp) ++ alone true (.grantExternalAuth [.mcp]) ++
      alone true (.transition .markReviewing) ++ alone false accept ++ [.run false])
    initial_executing (by decide)
  obtain ⟨huses, hstatus⟩ := of_decide_eq_true hend
  exact ⟨s, hreach, huses, hstatus, uses_granted_of_safe hreach⟩

/-- A call has checked that the task is EXECUTING, and inserts its use when the task is DONE. -/
theorem use_recorded_after_done : ∃ s : State Bool, (tasks fun _ _ => true).Reach Free s ∧
    s.db.task.status = .done ∧ s.db.capabilityUses = [.mcp] ∧ ¬ (s.db.task.status = .done → Covered s.db) := by
  obtain ⟨s, -, hreach, hend⟩ := Machine.reach_of_exec (M := tasks (ι := Bool) fun _ _ => true) (C := Free)
    (s := taskState .executing)
    (p := fun s => s.db.task.status = .done ∧ s.db.capabilityUses = [.mcp] ∧ ¬ Covered s.db)
    ([.call true (.recordCapabilityUse .mcp), .run true] ++ alone false (.transition .markReviewing) ++
      alone false accept ++ [.run false, .run true]) initial_executing (by decide)
  obtain ⟨hstatus, huses, hcovered⟩ := of_decide_eq_true hend
  exact ⟨s, hreach, hstatus, huses, fun h => hcovered (h hstatus)⟩

end NexusStudio.CapabilityUses
