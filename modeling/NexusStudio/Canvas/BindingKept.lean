import NexusStudio.Canvas.NodeAdvance

/-!
# Advances that keep bindings and projections

What an advance knows of the node between its reads and its writes, and what its writes leave alone.

* (tasks) A task that is not in flight never is again, so a gate that was idle stays so until the node is rebound.
* (parties) `Proc.Ok` says what a party knows of the node at its place in the code, given its marks.
* (result) In the runs that meet `Safe`, every write of an advance keeps the binding and what is projected.
* (defect) A submit that is refused because another advance has bound a task removes the binding to it.
-/

set_option linter.unusedSectionVars false

namespace NexusStudio.NodeAdvance

open Concurrent CanvasNodes Generation

/-! ### Tasks -/

theorem inFlight_eq_true {tasks : Nat → Option GenerateTask} {id : Nat} :
    inFlight tasks id = true ↔ ∃ t, tasks id = some t ∧ t.deleted = false ∧ t.status.isTerminal = false := by
  unfold inFlight liveTask
  cases tasks id with
  | none => simp
  | some t => cases hd : t.deleted <;> simp [Option.filter, hd]

/-- More tasks, and no known task comes to be in flight. -/
structure Core.Grows (c c' : Core) : Prop where
  nextTask : c.nextTask ≤ c'.nextTask
  inFlight : ∀ id, id < c.nextTask → inFlight c'.tasks id = true → inFlight c.tasks id = true

/-- The ids of the node's task and of the tasks have been given out. -/
structure Core.Known (c : Core) : Prop where
  bound : ∀ id, c.boundTask = some id → id < c.nextTask
  tasks : ∀ id, c.tasks id ≠ none → id < c.nextTask

variable {c c' : Core} {id : Nat} {t t' : GenerateTask} {x : Option Nat} {n n' : CanvasNode}

theorem Core.Grows.refl (c : Core) : c.Grows c := ⟨le_refl _, fun _ _ h => h⟩

/-- A task whose row changes stays over, or deleted. -/
theorem Core.grows_setTask (ht : c.tasks id = some t) (hstatus : t.status.isTerminal → t'.status.isTerminal)
    (hdeleted : t.deleted → t'.deleted) : c.Grows (c.setTask id t') := by
  refine ⟨le_refl _, fun id' _ h => ?_⟩
  obtain ⟨r, hr, hlive, hrun⟩ := inFlight_eq_true.1 h
  by_cases hid : id' = id
  · subst hid
    have hr' : r = t' := by simpa [Core.setTask] using hr.symm
    subst hr'
    refine inFlight_eq_true.2 ⟨t, ht, ?_, ?_⟩
    · by_contra hd
      rw [hdeleted (by simpa using hd)] at hlive
      cases hlive
    · by_contra hs
      rw [hstatus (by simpa using hs)] at hrun
      cases hrun
  · refine inFlight_eq_true.2 ⟨r, ?_, hlive, hrun⟩
    simpa [Core.setTask, hid] using hr

theorem Core.Known.setTask (hK : c.Known) (ht : c.tasks id = some t) : (c.setTask id t').Known := by
  refine ⟨hK.bound, fun id' h => ?_⟩
  by_cases hid : id' = id
  · subst hid
    exact hK.tasks id' (by rw [ht]; nofun)
  · refine hK.tasks id' ?_
    simpa [Core.setTask, hid] using h

theorem Core.grows_modifyTask {f : GenerateTask → GenerateTask}
    (hstatus : ∀ t, t.status.isTerminal → (f t).status.isTerminal) (hdeleted : ∀ t, t.deleted → (f t).deleted) :
    c.Grows (c.modifyTask id f) := by
  unfold Core.modifyTask
  cases ht : c.tasks id with
  | none => exact Core.Grows.refl c
  | some t => exact Core.grows_setTask ht (hstatus t) (hdeleted t)

theorem Core.Known.modifyTask {f : GenerateTask → GenerateTask} (hK : c.Known) : (c.modifyTask id f).Known := by
  unfold Core.modifyTask
  cases ht : c.tasks id with
  | none => exact hK
  | some t => exact hK.setTask ht

@[simp] theorem Core.modifyTask_row {f : GenerateTask → GenerateTask} : (c.modifyTask id f).row = c.row := by
  unfold Core.modifyTask
  cases c.tasks id <;> rfl

theorem Core.grows_createTask (kind : GenerationKind) : c.Grows (c.createTask kind) := by
  refine ⟨Nat.le_succ _, fun id' hid h => ?_⟩
  obtain ⟨r, hr, hlive, hrun⟩ := inFlight_eq_true.1 h
  have hne : id' ≠ c.nextTask := by omega
  refine inFlight_eq_true.2 ⟨r, ?_, hlive, hrun⟩
  simpa [Core.createTask, Core.setTask, hne] using hr

theorem Core.Known.createTask (hK : c.Known) (kind : GenerationKind) : (c.createTask kind).Known := by
  refine ⟨fun id' h => Nat.lt_succ_of_lt (hK.bound id' h), fun id' h => ?_⟩
  by_cases hid : id' = c.nextTask
  · subst hid
    exact Nat.lt_succ_self _
  · refine Nat.lt_succ_of_lt (hK.tasks id' ?_)
    simpa [Core.createTask, Core.setTask, hid] using h

theorem bindUnionTaskQueued_isTerminal (u : Nat) (h : t.status.isTerminal) :
    (bindUnionTaskQueued u t).status.isTerminal := by
  unfold bindUnionTaskQueued GenerateTask.bindQueued
  by_cases hs : t.status = .CREATED
  · rw [hs] at h
    cases h
  · rw [if_neg hs]
    exact h

theorem bindUnionTaskQueued_deleted (u : Nat) : (bindUnionTaskQueued u t).deleted = t.deleted := by
  unfold bindUnionTaskQueued GenerateTask.bindQueued
  split <;> rfl

/-! ### The node's task -/

theorem busyTask_eq_some : c.busyTask = some id ↔ c.boundTask = some id ∧ inFlight c.tasks id = true := by
  unfold Core.busyTask
  rw [Option.filter_eq_some_iff]

/-- What is spared stays so while the tasks go on. -/
theorem Spares.grow (hS : Spares c x) (hK : c.Known) (hg : c.Grows c') (hrow : c'.row = c.row) : Spares c' x := by
  intro id hid
  obtain ⟨hbound, hrun⟩ := busyTask_eq_some.1 hid
  have hbound' : c.boundTask = some id := by
    unfold Core.boundTask at hbound ⊢
    rw [← hrow]
    exact hbound
  exact hS id (busyTask_eq_some.2 ⟨hbound', hg.inFlight id (hK.bound id hbound') hrun⟩)

/-- What is spared stays so when the node is written and not rebound. -/
theorem Spares.write (hS : Spares c x) (hrow : c.row = some n) (hr : rebinds n.data n'.data = false) :
    Spares { c with row := some n' } x := by
  intro id hid
  obtain ⟨hbound, hrun⟩ := busyTask_eq_some.1 hid
  have hid' : n'.data.generateTaskId = some id := hbound
  have hsame : n.data.generateTaskId = some id := by
    by_contra hne
    have : rebinds n.data n'.data = true := by
      unfold rebinds
      rw [hid']
      simpa using fun h => hne h.symm
    rw [hr] at this
    cases this
  refine hS id (busyTask_eq_some.2 ⟨?_, hrun⟩)
  unfold Core.boundTask
  rw [hrow]
  exact hsame

/-- A read of the node spares the task it has read. -/
theorem Spares.read (hrow : c.row = some n) : Spares c n.data.generateTaskId := by
  intro id hid
  have hbound := (busyTask_eq_some.1 hid).1
  unfold Core.boundTask at hbound
  rw [hrow] at hbound
  exact hbound

theorem getNode_eq_some : c.getNode = some n ↔ c.row = some n ∧ n.deleted = false := by
  unfold Core.getNode
  rw [Option.filter_eq_some_iff]
  simp

/-- An idle gate has seen that the task it read is not in flight. -/
theorem Spares.gate {d : CanvasNodeData} (hS : Spares c d.generateTaskId)
    (hgate : classifyNodeGenerateGate d (d.generateTaskId.bind (liveTask c.tasks)) = .idle) : Spares c none := by
  intro id hid
  have hd : d.generateTaskId = some id := hS id hid
  obtain ⟨t, ht, hlive, hrun⟩ := inFlight_eq_true.1 (busyTask_eq_some.1 hid).2
  have hread : liveTask c.tasks id = some t := by simp [liveTask, ht, hlive, Option.filter]
  have hover := not_busy (by rw [hgate]; nofun) hd t (by rw [hd]; exact hread)
  rw [hrun] at hover
  cases hover

/-! ### Parties -/

namespace Proc

/-- The task that a party may write or project. -/
def known : Proc → Option Nat
  | classifyRow n | classifyTask n _ | resolveConfig n | resolveInputs _ _ n => n.data.generateTaskId
  | waitingWritable taskId _ | writeWaiting taskId _ => taskId
  | persistWritable _ _ d | persistWrite _ _ d => d.generateTaskId
  | submit _ (.submitToGateway id) | submit _ (.markFailed id _ _) | submit _ (.bindQueued id _) | submit _ (.bind id)
  | submit _ (.publish id) | reconcile id _ | sync id _ | project id _ => some id
  | _ => none

/-- The only task that may be in flight for the node: the one an advance has read, and none past the gate. -/
def tracked : Proc → Option (Option Nat)
  | classifyTask _ d => some d.generateTaskId
  | resolveConfig _ | persistRead .. | persistWritable .. | persistWrite .. | persistPublish .. | getNodeAgain ..
  | resolveInputs .. | waitingWritable .. | writeWaiting .. | prepare | submit true _ | failedWritable _
  | writeFailed _ => some none
  | _ => none

/-- The row that `_persist_generation_config` has read. -/
def rowData : Proc → Option CanvasNodeData
  | persistWritable _ _ d | persistWrite _ _ d => some d
  | _ => none

/-- What a party knows of the node, given what has happened to it since the party's reads. -/
structure Ok (c : Core) (m : Marks) (p : Proc) : Prop where
  known : ∀ id, p.known = some id → id < c.nextTask
  tracked : ∀ x, p.tracked = some x → m.rebound = false → Spares c x
  rowTracked : ∀ d, p.rowData = some d → m.rowRebound = false → Spares c d.generateTaskId
  rowShown : ∀ d, p.rowData = some d → m.rowProjected = false → m.shown = true → ∀ n, c.row = some n →
    n.data.dataStatus = d.dataStatus ∧ dataGenerateError n.data = dataGenerateError d

end Proc

variable {m : Marks} {p p' : Proc}

/-- A party that has read no row to persist. -/
theorem Proc.Ok.of_rowData (hr : p.rowData = none) (hk : ∀ id, p.known = some id → id < c.nextTask)
    (ht : ∀ x, p.tracked = some x → m.rebound = false → Spares c x) : p.Ok c m := by
  refine ⟨hk, ht, fun d hd => ?_, fun d hd => ?_⟩
  · rw [hr] at hd
    cases hd
  · rw [hr] at hd
    cases hd

/-- A party goes on with what it knows. -/
theorem Proc.Ok.next (h : p.Ok c m) (hk : p'.known = none ∨ p'.known = p.known)
    (ht : p'.tracked = none ∨ p'.tracked = p.tracked) (hr : p'.rowData = none ∨ p'.rowData = p.rowData) :
    p'.Ok c m := by
  refine ⟨fun id hid => ?_, fun x hx => ?_, fun d hd => ?_, fun d hd => ?_⟩
  · rcases hk with hk | hk
    · rw [hk] at hid
      cases hid
    · exact h.known id (by rw [← hk, hid])
  · rcases ht with ht | ht
    · rw [ht] at hx
      cases hx
    · exact h.tracked x (by rw [← ht, hx])
  · rcases hr with hr | hr
    · rw [hr] at hd
      cases hd
    · exact h.rowTracked d (by rw [← hr, hd])
  · rcases hr with hr | hr
    · rw [hr] at hd
      cases hd
    · exact h.rowShown d (by rw [← hr, hd])

/-- A place in the code where nothing is known. -/
theorem Proc.Ok.blank (hk : p.known = none) (ht : p.tracked = none) (hr : p.rowData = none) : p.Ok c m := by
  refine .of_rowData hr (fun id hid => ?_) fun x hx => ?_
  · rw [hk] at hid
    cases hid
  · rw [ht] at hx
    cases hx

theorem Proc.Ok.over : Proc.over.Ok c m := .blank rfl rfl rfl

/-- An exception that leaves a submit. -/
theorem Proc.Ok.raised {own : Bool} {q : SubmitPc} {message : String} (h : (Proc.submit own q).Ok c m) :
    (raised own message).Ok c m := by
  cases own with
  | true => exact h.next (.inl rfl) (.inr rfl) (.inl rfl)
  | false => exact .over

theorem Proc.Ok.grow (h : p.Ok c m) (hK : c.Known) (hg : c.Grows c') (hrow : c'.row = c.row) : p.Ok c' m := by
  refine ⟨fun id hid => ?_, fun x hx hm => ?_, fun d hd hm => ?_, fun d hd hm hshown n hn => ?_⟩
  · exact (h.known id hid).trans_le hg.nextTask
  · exact (h.tracked x hx hm).grow hK hg hrow
  · exact (h.rowTracked d hd hm).grow hK hg hrow
  · exact h.rowShown d hd hm hshown n (by rw [← hrow, hn])

theorem showsSame_eq_true {d d' : CanvasNodeData} : showsSame d d' = true ↔
    d.dataStatus = d'.dataStatus ∧ dataGenerateError d = dataGenerateError d' ∧ d.outputAssetIds = d'.outputAssetIds := by
  unfold showsSame
  simp only [Bool.and_eq_true, decide_eq_true_eq, and_assoc]

/-- A bind or a write of an advance: what the parties know is kept, or marked. -/
theorem Proc.Ok.afterWrite (h : p.Ok c m) (hrow : c.row = some n) :
    p.Ok { c with row := some n' } (m.afterWrite n.data n'.data) := by
  refine ⟨h.known, fun x hx hm => ?_, fun d hd hm => ?_, fun d hd hm hshown k hk => ?_⟩
  · obtain ⟨hm, hr⟩ := Bool.or_eq_false_iff.1 hm
    exact (h.tracked x hx hm).write hrow hr
  · obtain ⟨hm, hr⟩ := Bool.or_eq_false_iff.1 hm
    exact (h.rowTracked d hd hm).write hrow hr
  · obtain ⟨hshown, hsame⟩ := Bool.and_eq_true_iff.1 hshown
    obtain ⟨hs, he, -⟩ := showsSame_eq_true.1 hsame
    obtain ⟨hs', he'⟩ := h.rowShown d hd hm hshown n hrow
    have hkn : n' = k := Option.some.inj hk
    subst hkn
    exact ⟨hs ▸ hs', he ▸ he'⟩

/-- A projection: what the parties know is kept, or marked. -/
theorem Proc.Ok.afterProjection (h : p.Ok c m) (hrow : c.row = some n) :
    p.Ok { c with row := some n' } (m.afterProjection n.data n'.data) := by
  have hw : p.Ok { c with row := some n' } (m.afterWrite n.data n'.data) := h.afterWrite hrow
  refine ⟨hw.known, hw.tracked, hw.rowTracked, fun d _ hm => ?_⟩
  cases hm

/-- A patch of the user keeps what the parties know. -/
theorem Proc.Ok.patch (h : p.Ok c m) (hrow : c.row = some n) (hid : n'.data.generateTaskId = n.data.generateTaskId)
    (hstatus : n'.data.dataStatus = n.data.dataStatus)
    (herror : dataGenerateError n'.data = dataGenerateError n.data) : p.Ok { c with row := some n' } m := by
  have hr : rebinds n.data n'.data = false := by
    unfold rebinds
    simp [hid]
  refine ⟨h.known, fun x hx hm => ?_, fun d hd hm => ?_, fun d hd hm hshown k hk => ?_⟩
  · exact (h.tracked x hx hm).write hrow hr
  · exact (h.rowTracked d hd hm).write hrow hr
  · have hkn : n' = k := Option.some.inj hk
    subst hkn
    rw [hstatus, herror]
    exact h.rowShown d hd hm hshown n hrow

/-- No node is left to know of. -/
theorem Proc.Ok.deleteAll (h : p.Ok c m) : p.Ok { c with row := none } m := by
  refine ⟨h.known, fun x _ _ id hid => ?_, fun d _ _ id hid => ?_, fun d _ _ _ n hn => ?_⟩
  · cases (busyTask_eq_some.1 hid).1
  · cases (busyTask_eq_some.1 hid).1
  · cases hn

/-! ### The invariant -/

section Model

variable {ι : Type*} [DecidableEq ι]

/-- What holds in every reachable state of a run that meets the condition. -/
structure Inv (s : State ι) : Prop where
  core : s.core.Known
  parties : ∀ i, (s.proc i).Ok s.core (s.marks i)
  written : Respectful s

variable {E : Target} {s s' : State ι} {i : ι}

theorem Inv.setProc (hI : Inv s) (h : p.Ok s.core (s.marks i)) : Inv (s.setProc i p) := by
  refine ⟨hI.core, fun j => ?_, hI.written⟩
  by_cases hj : j = i
  · subst hj
    simpa [State.setProc] using h
  · simpa [State.setProc, hj] using hI.parties j

theorem Inv.party {q : Proc} (hI : Inv s) (hi : s.proc i = q) : q.Ok s.core (s.marks i) := hi ▸ hI.parties i

/-- A party goes on with what it knows. -/
theorem Inv.next {q : Proc} (hI : Inv s) (hi : s.proc i = q) (hk : p.known = none ∨ p.known = q.known)
    (ht : p.tracked = none ∨ p.tracked = q.tracked) (hr : p.rowData = none ∨ p.rowData = q.rowData) :
    Inv (s.setProc i p) :=
  hI.setProc ((hI.party hi).next hk ht hr)

theorem Inv.over (hI : Inv s) : Inv (s.setProc i .over) := hI.setProc .over

/-- A party reads the node, and with that resets its marks. -/
theorem Inv.setMarks (hI : Inv s) (h : p.Ok s.core m) : Inv ((s.setMarks i m).setProc i p) := by
  refine ⟨hI.core, fun j => ?_, hI.written⟩
  by_cases hj : j = i
  · subst hj
    simpa [State.setProc, State.setMarks] using h
  · simpa [State.setProc, State.setMarks, hj] using hI.parties j

/-- The tasks go on. -/
theorem Inv.grow (hI : Inv s) (hK : c.Known) (hg : s.core.Grows c) (hrow : c.row = s.core.row)
    (h : p.Ok c (s.marks i)) : Inv { s.setProc i p with core := c } := by
  refine ⟨hK, fun j => ?_, hI.written⟩
  by_cases hj : j = i
  · subst hj
    simpa [State.setProc] using h
  · simpa [State.setProc, hj] using (hI.parties j).grow hI.core hg hrow

theorem Core.Known.write (hK : c.Known) (hid : ∀ id, n.data.generateTaskId = some id → id < c.nextTask) :
    Core.Known { c with row := some n } :=
  ⟨hid, hK.tasks⟩

/-- A transaction commits, and the other parties are marked. -/
theorem Inv.commit {mark : CanvasNodeData → CanvasNodeData → Marks → Marks} (hI : Inv s) (hrow : s.core.row = some n)
    (hid : ∀ id, n'.data.generateTaskId = some id → id < s.core.nextTask)
    (hmark : ∀ (p : Proc) m, p.Ok s.core m → p.Ok { s.core with row := some n' } (mark n.data n'.data m)) :
    Inv (s.commit n' mark) := by
  unfold State.commit
  rw [hrow]
  exact ⟨hI.core.write hid, fun j => hmark _ _ (hI.parties j), hI.written⟩

theorem commit_eq (hrow : s.core.row = some n) (mark : CanvasNodeData → CanvasNodeData → Marks → Marks) :
    s.commit n' mark =
      { s with core := { s.core with row := some n' }, marks := fun j => mark n.data n'.data (s.marks j) } := by
  unfold State.commit
  rw [hrow]

/-- A write of an advance, which spares the task in flight and what is projected. -/
theorem Inv.write {taskId : Option Nat} {status : CanvasNodeStatus} {error model : Option String}
    {duration : Option Int} (hI : Inv s) (hknown : ∀ id, taskId = some id → id < s.core.nextTask)
    (hsafe : ∀ n, s.core.row = some n → n.deleted = false → Spares s.core taskId ∧
      ((s.marks i).shown → showsSame n.data (applyGenerationToData n.data status taskId error none model duration)))
    (hk : p.known = none) (ht : p.tracked = none ∨ p.tracked = (s.proc i).tracked) (hr : p.rowData = none) :
    Inv (s.write i (updateNodeGeneration s.core.row taskId status none error model duration none) p) := by
  cases hu : updateNodeGeneration s.core.row taskId status none error model duration none with
  | error e => exact hI.over
  | ok n' =>
    obtain ⟨n, hrow, hlive, -, rfl⟩ := transaction_ok.1 hu
    obtain ⟨hspares, hsame⟩ := hsafe n hrow hlive
    have hC : Inv (s.commit (n.save (applyGenerationToData n.data status taskId error none model duration))
        Marks.afterWrite) := hI.commit hrow hknown fun _ _ h => h.afterWrite hrow
    have hproc : (s.commit (n.save (applyGenerationToData n.data status taskId error none model duration))
        Marks.afterWrite).proc = s.proc := by rw [commit_eq hrow]
    have hP := hC.next (p := p) (congrFun hproc i) (.inl hk) ht (.inl hr)
    refine ⟨hP.core, hP.parties, fun w hw => ?_⟩
    rcases List.mem_append.1 hw with hw | hw
    · exact hI.written w hw
    · unfold State.record at hw
      rw [hrow] at hw
      rw [List.mem_singleton.1 hw]
      refine ⟨fun hbusy => ?_, hsame⟩
      obtain ⟨id, hid⟩ := Option.isSome_iff_exists.1 hbusy
      have hbound : n.data.generateTaskId = some id := Spares.read hrow id hid
      have hwrites : taskId = some id := hspares id hid
      show taskId = n.data.generateTaskId
      rw [hwrites, hbound]

/-! ### The steps -/

theorem inv_runSubmit {own : Bool} {q : SubmitPc} (hI : Inv s) (hi : s.proc i = .submit own q)
    (h : runSubmit E s i own q = some s') : Inv s' := by
  have hP : (Proc.submit own q).Ok s.core (s.marks i) := hI.party hi
  have htracked : ∀ q' : SubmitPc, (Proc.submit own q').tracked = (Proc.submit own q).tracked := by
    intro q'
    cases own <;> rfl
  cases q with
  | assertWritable =>
    simp only [runSubmit, Option.some.injEq] at h
    subst h
    refine hI.setProc ?_
    split
    · exact hP.raised
    · exact hP.next (.inl rfl) (.inr (htracked _)) (.inl rfl)
  | readNode =>
    simp only [runSubmit, Option.some.injEq] at h
    subst h
    refine hI.setProc ?_
    split
    · exact hP.next (.inl rfl) (.inr (htracked _)) (.inl rfl)
    · exact hP.raised
  | readTask d =>
    simp only [runSubmit, Option.some.injEq] at h
    subst h
    refine hI.setProc ?_
    split
    · split
      · exact hP.raised
      · exact hP.next (.inl rfl) (.inr (htracked _)) (.inl rfl)
    · exact hP.next (.inl rfl) (.inr (htracked _)) (.inl rfl)
  | validate =>
    simp only [runSubmit, Option.some.injEq] at h
    subst h
    exact hI.setProc (hP.next (.inl rfl) (.inr (htracked _)) (.inl rfl))
  | create =>
    simp only [runSubmit, Option.some.injEq] at h
    subst h
    have hg := Core.grows_createTask (c := s.core) E.kind
    have hG := hP.grow hI.core hg rfl
    refine hI.grow (hI.core.createTask E.kind) hg rfl (.of_rowData rfl (fun id hid => ?_) fun x hx => ?_)
    · have hid' : s.core.nextTask = id := Option.some.inj hid
      rw [← hid']
      exact Nat.lt_succ_self _
    · exact hG.tracked x (by rw [← htracked, hx])
  | submitToGateway id => cases h
  | markFailed id reason message =>
    simp only [runSubmit, Option.some.injEq] at h
    subst h
    have hg : s.core.Grows (s.core.modifyTask id fun t => t.markFailedIfNonTerminal reason) := by
      refine Core.grows_modifyTask (fun t ht => ?_) (fun t ht => ?_)
      · unfold GenerateTask.markFailedIfNonTerminal
        rw [if_pos ht]
        exact ht
      · unfold GenerateTask.markFailedIfNonTerminal
        split <;> exact ht
    exact hI.grow hI.core.modifyTask hg Core.modifyTask_row (hP.raised.grow hI.core hg Core.modifyTask_row)
  | bindQueued id unionTaskId =>
    simp only [runSubmit, Option.some.injEq] at h
    subst h
    have hg : s.core.Grows (s.core.modifyTask id (bindUnionTaskQueued unionTaskId)) := by
      refine Core.grows_modifyTask (fun t ht => bindUnionTaskQueued_isTerminal unionTaskId ht) (fun t ht => ?_)
      rw [bindUnionTaskQueued_deleted]
      exact ht
    have hP' : (Proc.submit own (.bind id)).Ok s.core (s.marks i) :=
      hP.next (.inr rfl) (.inr (htracked _)) (.inl rfl)
    exact hI.grow hI.core.modifyTask hg Core.modifyTask_row (hP'.grow hI.core hg Core.modifyTask_row)
  | bind id =>
    simp only [runSubmit] at h
    split at h
    case h_1 n' hb =>
      cases h
      obtain ⟨n, hrow, -, -, rfl⟩ := transaction_ok.1 hb
      have hid : id < s.core.nextTask := hP.known id rfl
      have hC : Inv (s.commit (n.save { n.data with generateTaskId := some id }) Marks.afterWrite) := by
        refine hI.commit hrow (fun id' hid' => ?_) fun _ _ h => h.afterWrite hrow
        rw [← Option.some.inj (show some id = some id' from hid')]
        exact hid
      have hproc : (s.commit (n.save { n.data with generateTaskId := some id }) Marks.afterWrite).proc = s.proc := by
        rw [commit_eq hrow]
      exact hC.next ((congrFun hproc i).trans hi) (.inr rfl) (.inr (htracked _)) (.inl rfl)
    case h_2 e hb =>
      cases h
      exact hI.setProc hP.raised
  | publish id =>
    simp only [runSubmit, Option.some.injEq] at h
    subst h
    exact hI.over

/-- A party reads the node and knows what it has read. -/
theorem known_of_read (hI : Inv s) (hn : s.core.getNode = some n) :
    ∀ id, n.data.generateTaskId = some id → id < s.core.nextTask := by
  intro id hid
  refine hI.core.bound id ?_
  unfold Core.boundTask
  rw [(getNode_eq_some.1 hn).1]
  exact hid

theorem isOk_of_live (hrow : s.core.row = some n) (hlive : n.deleted = false) : (lockNode s.core.row).isOk = true := by
  rw [lockNode_ok.2 ⟨hrow, hlive⟩]
  rfl

/-- The write of the configuration. -/
theorem inv_persistWrite {model : String} {duration : Option Int} {d : CanvasNodeData} (hI : Inv s)
    (hC : Safe s (.run i)) (hi : s.proc i = .persistWrite model duration d) :
    Inv (s.write i (updateNodeGeneration s.core.row d.generateTaskId d.dataStatus none (dataGenerateError d)
      (some model) duration none) (.persistPublish model duration)) := by
  have hP := hI.party hi
  refine hI.write hP.known (fun n hrow hlive => ?_) rfl (.inr (by rw [hi]; rfl)) rfl
  have hsafe := hC (isOk_of_live hrow hlive)
  rw [hi] at hsafe
  refine ⟨?_, fun hshown => ?_⟩
  · cases hm : (s.marks i).rowRebound with
    | true => exact hsafe.2 hm
    | false => exact hP.rowTracked d rfl hm
  · obtain ⟨hs, he⟩ := hP.rowShown d rfl (hsafe.1 hshown) hshown n hrow
    refine showsSame_eq_true.2 ⟨hs, ?_, rfl⟩
    rw [he]
    show dataGenerateError d = (dataGenerateError d).filter _
    unfold dataGenerateError
    rw [Option.filter_filter]
    simp

/-- The write of WAITING_INPUTS or FAILED. -/
theorem inv_writeState {taskId : Option Nat} {status : CanvasNodeStatus} {error : String} (hI : Inv s)
    (hknown : ∀ id, taskId = some id → id < s.core.nextTask) (htracked : (s.proc i).tracked = some none)
    (hsafe : (lockNode s.core.row).isOk →
      (s.marks i).shown = false ∧ ((s.marks i).rebound → Spares s.core taskId)) :
    Inv (s.write i (updateNodeGeneration s.core.row taskId status none (some error) none none none) .publishState) := by
  refine hI.write hknown (fun n hrow hlive => ?_) rfl (.inl rfl) rfl
  obtain ⟨hshown, hspares⟩ := hsafe (isOk_of_live hrow hlive)
  refine ⟨?_, fun h => ?_⟩
  · cases hm : (s.marks i).rebound with
    | true => exact hspares hm
    | false =>
      have hnone : Spares s.core none := (hI.parties i).tracked none htracked hm
      intro id hid
      cases hnone id hid
  · rw [hshown] at h
    cases h

theorem inv_run (hI : Inv s) (hC : Safe s (.run i)) (h : run E s i = some s') : Inv s' := by
  unfold run at h
  cases hi : s.proc i with
  | getNode =>
    simp only [hi] at h
    split at h
    case h_1 n hn =>
      split at h
      · cases h
        exact hI.setMarks (.of_rowData rfl (known_of_read hI hn) nofun)
      · cases h
        exact hI.over
    case h_2 =>
      cases h
      exact hI.over
  | classifyRow n =>
    simp only [hi, Option.some.injEq] at h
    subst h
    split
    case h_1 k hk =>
      have hP := hI.party hi
      refine hI.setProc (.of_rowData rfl hP.known fun x hx _ => ?_)
      rw [← Option.some.inj (show some k.data.generateTaskId = some x from hx)]
      exact Spares.read (getNode_eq_some.1 hk).1
    case h_2 => exact hI.over
  | classifyTask n d =>
    simp only [hi, Option.some.injEq] at h
    subst h
    split
    case isTrue hgate =>
      have hP := hI.party hi
      refine hI.setProc (.of_rowData rfl hP.known fun x hx hm => ?_)
      rw [← Option.some.inj (show some none = some x from hx)]
      exact (hP.tracked _ rfl hm).gate hgate
    case isFalse => exact hI.over
  | persistRead model duration =>
    simp only [hi] at h
    split at h
    case h_1 n hn =>
      cases h
      have hP := hI.party hi
      refine hI.setMarks ⟨known_of_read hI hn, hP.tracked, fun d hd _ => ?_, fun d hd _ _ k hk => ?_⟩
      · rw [← Option.some.inj (show some n.data = some d from hd)]
        exact Spares.read (getNode_eq_some.1 hn).1
      · rw [← Option.some.inj (show some n.data = some d from hd)]
        have hnk : n = k := Option.some.inj ((getNode_eq_some.1 hn).1.symm.trans hk)
        rw [hnk]
        exact ⟨rfl, rfl⟩
    case h_2 =>
      cases h
      exact hI.next hi (.inl rfl) (.inr rfl) (.inl rfl)
  | persistWritable model duration d =>
    simp only [hi, Option.some.injEq] at h
    subst h
    split
    · exact hI.over
    · exact hI.next hi (.inr rfl) (.inr rfl) (.inr rfl)
  | persistWrite model duration d =>
    simp only [hi, Option.some.injEq] at h
    subst h
    exact inv_persistWrite hI hC hi
  | persistPublish model duration | prepare =>
    simp only [hi, Option.some.injEq] at h
    subst h
    exact hI.next hi (.inl rfl) (.inr rfl) (.inl rfl)
  | getNodeAgain model duration =>
    simp only [hi, Option.some.injEq] at h
    subst h
    split
    case h_1 n hn =>
      have hP := hI.party hi
      exact hI.setProc (.of_rowData rfl (known_of_read hI hn) hP.tracked)
    case h_2 => exact hI.over
  | waitingWritable taskId error | failedWritable error =>
    simp only [hi, Option.some.injEq] at h
    subst h
    split
    · exact hI.over
    · exact hI.next hi (.inr rfl) (.inr rfl) (.inl rfl)
  | writeWaiting taskId error =>
    simp only [hi, Option.some.injEq] at h
    subst h
    have hP := hI.party hi
    exact inv_writeState hI hP.known (by rw [hi]; rfl) fun hlive => by simpa only [hi] using hC hlive
  | writeFailed error =>
    simp only [hi, Option.some.injEq] at h
    subst h
    exact inv_writeState hI nofun (by rw [hi]; rfl) fun hlive => by simpa only [hi] using hC hlive
  | submit own q =>
    simp only [hi] at h
    exact inv_runSubmit hI hi h
  | publishState =>
    simp only [hi, Option.some.injEq] at h
    subst h
    exact hI.over
  | sync id t =>
    simp only [hi, Option.some.injEq] at h
    subst h
    split
    · exact hI.next hi (.inr rfl) (.inl rfl) (.inl rfl)
    · exact hI.over
  | project id t =>
    simp only [hi] at h
    split at h
    case h_1 n' hn =>
      cases h
      obtain ⟨n, hrow, -, -, rfl⟩ := transaction_ok.1 hn
      have hP := hI.party hi
      refine Inv.over (hI.commit hrow (fun id' hid' => ?_) fun _ _ h => h.afterProjection hrow)
      rw [← Option.some.inj (show some id = some id' from hid')]
      exact hP.known id rfl
    case h_2 =>
      cases h
      exact hI.over
  | _ =>
    rw [hi] at h
    cases h

theorem inv_fail {message : String} (hI : Inv s) (h : fail s i message = some s') : Inv s' := by
  unfold fail at h
  split at h
  case h_1 | h_2 => cases h
  case h_3 hi =>
    cases h
    exact hI.next hi (.inl rfl) (.inr rfl) (.inl rfl)
  case h_4 own id hi =>
    cases h
    exact hI.next hi (.inr rfl) (.inr (by cases own <;> rfl)) (.inl rfl)
  case h_5 own q _ hi =>
    cases h
    have hP := hI.party hi
    exact hI.setProc hP.raised
  case h_6 =>
    cases h
    exact hI.over

/-- A patch of the user. -/
theorem inv_patch {revision : Nat} {f : CanvasNode → CanvasNode} (hI : Inv s)
    (hid : ∀ n, (f n).data.generateTaskId = n.data.generateTaskId)
    (hstatus : ∀ n, (f n).data.dataStatus = n.data.dataStatus)
    (herror : ∀ n, dataGenerateError (f n).data = dataGenerateError n.data) :
    Inv (s.patch (transaction s.core.row (revisionConflict (some revision)) f)) := by
  cases ht : transaction s.core.row (revisionConflict (some revision)) f with
  | ok n' =>
    obtain ⟨n, hrow, -, -, rfl⟩ := transaction_ok.1 ht
    refine ⟨hI.core.write fun id h => ?_, fun j => ?_, hI.written⟩
    · refine hI.core.bound id ?_
      unfold Core.boundTask
      rw [hrow]
      exact (hid n).symm.trans h
    · exact (hI.parties j).patch hrow (hid n) (hstatus n) (herror n)
  | error e => exact hI

theorem inv_ensureResultAssets {assetIds : List Nat} (hI : Inv s)
    (h : step E s (.ensureResultAssets i assetIds) = some s') : Inv s' := by
  simp only [step] at h
  split at h
  case h_2 => cases h
  case h_1 id t hi =>
    have hP := hI.party hi
    have hnext : ∀ t', (Proc.sync id t').Ok s.core (s.marks i) := fun t' => hP.next (.inr rfl) (.inl rfl) (.inl rfl)
    split at h
    case h_1 n hn =>
      split at h
      · cases h
        have hg : s.core.Grows (s.core.modifyTask id fun r => { r with resultAssetIds := some assetIds }) :=
          Core.grows_modifyTask (fun _ ht => ht) fun _ hd => hd
        refine hI.grow hI.core.modifyTask hg Core.modifyTask_row ?_
        split
        · exact (hnext _).grow hI.core hg Core.modifyTask_row
        · exact .over
      · cases h
        refine hI.setProc ?_
        split
        · exact hnext t
        · exact .over
    case h_2 =>
      cases h
      exact hI.over

theorem inv_step {a : Action ι} (hI : Inv s) (hC : Safe s a) (h : step E s a = some s') : Inv s' := by
  cases a with
  | advance i =>
    simp only [step, Option.ite_none_right_eq_some, Option.some.injEq] at h
    obtain ⟨-, rfl⟩ := h
    exact hI.setProc (.blank rfl rfl rfl)
  | submit i =>
    simp only [step, Option.ite_none_right_eq_some, Option.some.injEq] at h
    obtain ⟨-, rfl⟩ := h
    exact hI.setProc (.blank rfl rfl rfl)
  | projectFromTask i id =>
    simp only [step, Option.ite_none_right_eq_some, Option.some.injEq] at h
    obtain ⟨-, rfl⟩ := h
    split
    case h_2 => exact hI.over
    case h_1 t ht =>
      have hid : id < s.core.nextTask := by
        refine hI.core.tasks id fun hnone => ?_
        unfold liveTask at ht
        rw [hnone] at ht
        cases ht
      refine hI.setProc ?_
      split
      · exact .of_rowData rfl (fun id' hid' => Option.some.inj hid' ▸ hid) nofun
      · exact .of_rowData rfl (fun id' hid' => Option.some.inj hid' ▸ hid) nofun
  | run i => exact inv_run hI hC h
  | resolveConfig i firstModel defaultDuration =>
    simp only [step] at h
    split at h
    case h_2 => cases h
    case h_1 n hi =>
      cases h
      refine hI.setProc ?_
      have hP := hI.party hi
      split
      · exact hP.next (.inl rfl) (.inr rfl) (.inl rfl)
      · exact hP.next (.inr rfl) (.inr rfl) (.inl rfl)
  | resolveInputs i localPrompt missingReasons =>
    simp only [step] at h
    split at h
    case h_2 => cases h
    case h_1 model duration n hi =>
      cases h
      refine hI.setProc ?_
      have hP := hI.party hi
      split
      · exact hP.next (.inl rfl) (.inr rfl) (.inl rfl)
      · exact hP.next (.inr rfl) (.inr rfl) (.inl rfl)
  | gatewayAccepts i unionTaskId | gatewayDown i =>
    simp only [step] at h
    split at h
    case h_2 => cases h
    case h_1 own id hi =>
      cases h
      exact hI.next hi (.inr rfl) (.inr (by cases own <;> rfl)) (.inl rfl)
  | ensureResultAssets i assetIds => exact inv_ensureResultAssets hI h
  | fail i message => exact inv_fail hI h
  | cancel i =>
    simp only [step, Option.ite_none_left_eq_some, Option.some.injEq] at h
    obtain ⟨-, rfl⟩ := h
    exact hI.over
  | updateTask id t =>
    simp only [step] at h
    split at h
    case h_2 => cases h
    case h_1 r hr =>
      simp only [Option.ite_none_right_eq_some, Option.some.injEq] at h
      obtain ⟨⟨hstatus, hdeleted⟩, rfl⟩ := h
      have hg : s.core.Grows (s.core.setTask id t) := Core.grows_setTask hr hstatus hdeleted
      exact ⟨hI.core.setTask hr, fun j => (hI.parties j).grow hI.core hg rfl, hI.written⟩
  | setFence taken =>
    cases h
    exact ⟨hI.core, hI.parties, hI.written⟩
  | updateNode revision content model config =>
    simp only [step, Option.some.injEq] at h
    subst h
    exact inv_patch hI (fun n => rfl) (fun n => rfl) fun n => rfl
  | deleteNode revision =>
    simp only [step, Option.some.injEq] at h
    subst h
    exact inv_patch hI (fun n => rfl) (fun n => rfl) fun n => rfl
  | deleteAll =>
    simp only [step, Option.some.injEq] at h
    subst h
    refine ⟨⟨fun id hid => ?_, hI.core.tasks⟩, fun j => (hI.parties j).deleteAll, hI.written⟩
    cases hid

theorem inv_reach (h : (advances E).Reach Safe s) : Inv s := by
  refine h.induct (P := Inv) (fun s h₀ => ?_) fun _ _ _ hI hC ht => inv_step hI hC ht
  refine ⟨⟨fun id hid => ?_, h₀.tasks⟩, fun j => ?_, fun w hw => ?_⟩
  · obtain ⟨n, hrow, hn⟩ := Option.bind_eq_some_iff.1 hid
    exact h₀.row n hrow id hn
  · rw [h₀.proc j]
    exact .blank rfl rfl rfl
  · rw [h₀.written] at hw
    cases hw

/-- In every run that meets the condition, the writes of the advances keep the binding to a task in flight and what a
projection after their read has written. -/
theorem respectful_of_safe (h : (advances E).Reach Safe s) : Respectful s := (inv_reach h).written

instance (c : Core) (x : Option Nat) : Decidable (Spares c x) :=
  match h : c.busyTask with
  | some id => decidable_of_iff (x = some id) (by simp [Spares, h])
  | none => isTrue (by simp [Spares, h])

instance (w : Written) : Decidable w.Kept := inferInstanceAs (Decidable (_ ∧ _))

instance (s : State ι) (a : Action ι) : Decidable (Safe s a) :=
  match a with
  | .run i =>
    match hi : s.proc i with
    | .persistWrite _ _ d =>
      decidable_of_iff ((lockNode s.core.row).isOk → ((s.marks i).shown → (s.marks i).rowProjected = false) ∧
        ((s.marks i).rowRebound → Spares s.core d.generateTaskId)) (by simp only [Safe, hi])
    | .writeWaiting taskId _ =>
      decidable_of_iff ((lockNode s.core.row).isOk → (s.marks i).shown = false ∧
        ((s.marks i).rebound → Spares s.core taskId)) (by simp only [Safe, hi])
    | .writeFailed _ =>
      decidable_of_iff ((lockNode s.core.row).isOk → (s.marks i).shown = false ∧
        ((s.marks i).rebound → Spares s.core none)) (by simp only [Safe, hi])
    | .idle | .getNode | .classifyRow _ | .classifyTask _ _ | .resolveConfig _ | .persistRead _ _
    | .persistWritable _ _ _ | .persistPublish _ _ | .getNodeAgain _ _ | .resolveInputs _ _ _ | .waitingWritable _ _
    | .prepare | .submit _ _ | .failedWritable _ | .publishState | .reconcile _ _ | .sync _ _ | .project _ _ | .over =>
      isTrue (by simp only [Safe, hi, implies_true])
  | .advance _ | .submit _ | .projectFromTask _ _ | .resolveConfig _ _ _ | .resolveInputs _ _ _ | .gatewayAccepts _ _
  | .gatewayDown _ | .ensureResultAssets _ _ | .fail _ _ | .cancel _ | .updateTask _ _ | .setFence _
  | .updateNode _ _ _ _ | .deleteNode _ | .deleteAll => isTrue trivial

end Model

/-- An image node of the episode `1`. -/
def target : Target where
  episodeId := 1
  nodeId := "n"
  kind := .IMAGE

/-- The node has a model and was never generated. -/
def imageNode {k : Nat} : State (Fin k) where
  core := {
    row := some ⟨.IMAGE, 1, false, ⟨some .IDLE, none, none, some "image-model", none, none, none, none, none⟩⟩
    tasks _ := none
    nextTask := 1 }
  fenced := false
  proc _ := .idle
  marks _ := ⟨false, false, false, false⟩
  written := []

theorem imageNode_initial {k : Nat} : Initial (imageNode (k := k)) := by
  refine ⟨fun _ => rfl, rfl, fun _ h => absurd rfl h, ?_⟩
  rintro n ⟨⟩ id h
  cases h

/-- An advance reads the node, its gate and its inputs, and comes to a submit or to the write of WAITING_INPUTS. -/
def advanceTo {k : Nat} (i : Fin k) (missingReasons : List String) : List (Action (Fin k)) :=
  [.advance i, .run i, .run i, .run i, .resolveConfig i "image-model" 5, .resolveInputs i "a cat" missingReasons, .run i]

/-- A submit creates a task, the gateway accepts it, and it is bound to the node. -/
def submitTask {k : Nat} (i : Fin k) : List (Action (Fin k)) :=
  List.replicate 5 (.run i) ++ [.gatewayAccepts i 7, .run i, .run i, .run i]

/-- An advance writes that the node waits, another one submits, and the task is projected. -/
theorem projected_respectful :
    ∃ s : State (Fin 3), (advances target).Reach Safe s ∧ s.core.busyTask = some 1 ∧ s.written ≠ [] ∧
      Respectful s := by
  obtain ⟨s, -, hr, hp⟩ := Machine.reach_of_exec (M := advances target) (C := Safe) (s := imageNode)
    (p := fun s : State (Fin 3) => decide (s.core.busyTask = some 1 ∧ s.written ≠ []))
    (advanceTo 0 ["upstream_not_ready"] ++ [.run 0, .run 0] ++ advanceTo 1 [] ++ submitTask 1 ++
      [.projectFromTask 2 1, .run 2, .run 2])
    imageNode_initial (by decide)
  obtain ⟨hbusy, hwritten⟩ := of_decide_eq_true hp
  exact ⟨s, hr, hbusy, hwritten, respectful_of_safe hr⟩

/-- Two advances find the node idle; the submit of the second is refused because the first has bound its task, and
the second one writes FAILED with no task. -/
theorem not_respectful : ¬ ∀ s : State (Fin 2), (advances target).Reach Free s → Respectful s := by
  intro hall
  obtain ⟨s, -, hr, hp⟩ := Machine.reach_of_exec (M := advances target) (C := Free) (s := imageNode)
    (p := fun s : State (Fin 2) => decide (∃ w ∈ s.written, ¬ w.Kept))
    (advanceTo 0 [] ++ advanceTo 1 [] ++ submitTask 0 ++ List.replicate 5 (.run 1))
    imageNode_initial (by decide)
  obtain ⟨w, hw, hnot⟩ := of_decide_eq_true hp
  exact hnot (hall s hr w hw)

end NexusStudio.NodeAdvance
