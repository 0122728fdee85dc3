import NexusStudio.Canvas.BindingKept

/-!
# Submits that raise

Any number of calls of `GenerationService.submit` for one node; every read and every transaction is one step, and each
of them can raise or be cancelled.

* (commits) The gate, the row of the task, the gateway, the queued task and the binding come one after the other, with
  no lock over them.
* (handler) Only an exception of the gateway ends the task; what raises afterwards leaves it as it is.
* (law) A task whose submit has raised is over or the node's, and of the tasks of the node one is in flight at most.
* (condition) `Safe`: with a task in flight a submit raises only in the gateway, and its binding is not refused.
-/

set_option linter.unusedSectionVars false

namespace NexusStudio.SubmitRaises

open Concurrent CanvasNodes Generation NodeAdvance

/-! ### The machine -/

structure State (ι : Type) where
  core : Core
  -- the exclusive mutex of the episode is taken
  fenced : Bool
  pc : ι → Option SubmitPc
  -- the tasks that the node has had, and those whose submit has raised
  bound : List Nat
  raised : List Nat

inductive Action (ι : Type)
  | submit (i : ι)
  -- the call under way returns
  | run (i : ι)
  | gatewayAccepts (i : ι) (unionTaskId : Nat)
  -- an exception of the call under way, of the gateway an `AppError` or another one
  | fail (i : ι) (message : String)
  | gatewayDown (i : ι)
  | cancel (i : ι)
  -- others
  | updateTask (id : Nat) (t : GenerateTask)
  | setFence (taken : Bool)
  | updateNode (revision : Nat) (content model : Option String) (config : Option CanvasNodeConfig)
  | deleteNode (revision : Nat)

/-- The task that the call has created. -/
def created : SubmitPc → Option Nat
  | .submitToGateway id | .markFailed id _ _ | .bindQueued id _ | .bind id | .publish id => some id
  | _ => none

/-- The task that the call has created and not bound. -/
def pending : SubmitPc → Option Nat
  | .publish _ => none
  | p => created p

section Model

variable {ι : Type} [DecidableEq ι] (kind : ι → GenerationKind)

namespace State

def goto (s : State ι) (i : ι) (p : SubmitPc) : State ι := { s with pc := Function.update s.pc i (some p) }

/-- The exception leaves the call. -/
def raise (s : State ι) (i : ι) (task : Option Nat) : State ι :=
  { s with pc := Function.update s.pc i none, raised := task.toList ++ s.raised }

def withCore (s : State ι) (c : Core) : State ι := { s with core := c }

/-- The binding commits. -/
def bindTask (s : State ι) (i : ι) (id : Nat) (n : CanvasNode) : State ι :=
  { (s.withCore { s.core with row := some n }).goto i (.publish id) with bound := id :: s.bound }

/-- A patch of the user commits, or raises. -/
def patch (s : State ι) (r : Except NodeError CanvasNode) : State ι :=
  match r with
  | .ok n => s.withCore { s.core with row := some n }
  | .error _ => s

end State

/-- The call under way returns, and goes on or raises; `none` where it waits for the gateway. -/
def run (s : State ι) (i : ι) : SubmitPc → Option (State ι)
  | .assertWritable => some (if s.fenced then s.raise i none else s.goto i .readNode)
  | .readNode =>
    match s.core.getNode with
    | some n => some (s.goto i (.readTask n.data))
    | none => some (s.raise i none)
  | .readTask d =>
    some (if classifyNodeGenerateGate d (d.generateTaskId.bind (liveTask s.core.tasks)) = .busy then s.raise i none
      else s.goto i .validate)
  | .validate => some (s.goto i .create)
  | .create => some ((s.goto i (.submitToGateway s.core.nextTask)).withCore (s.core.createTask (kind i)))
  | .submitToGateway _ => none
  | .markFailed id reason _ =>
    some ((s.withCore (s.core.modifyTask id fun t => t.markFailedIfNonTerminal reason)).raise i (some id))
  | .bindQueued id unionTaskId =>
    some ((s.withCore (s.core.modifyTask id (bindUnionTaskQueued unionTaskId))).goto i (.bind id))
  | .bind id =>
    match bindGenerateTaskToNode s.core.tasks s.core.row id with
    | .ok n => some (s.bindTask i id n)
    | .error _ => some (s.raise i (some id))
  | .publish _ => some { s with pc := Function.update s.pc i none }

/-- The call under way raises: the handler catches what the gateway raises. -/
def fail (s : State ι) (i : ι) (message : String) : SubmitPc → State ι
  | .submitToGateway id => s.goto i (.markFailed id message message)
  | p => s.raise i (created p)

def step (s : State ι) : Action ι → Option (State ι)
  | .submit i => if s.pc i = none then some (s.goto i .assertWritable) else none
  | .run i => (s.pc i).bind (run kind s i)
  | .gatewayAccepts i unionTaskId =>
    match s.pc i with
    | some (.submitToGateway id) => some (s.goto i (.bindQueued id unionTaskId))
    | _ => none
  | .fail i message => (s.pc i).map (fail s i message)
  | .gatewayDown i =>
    match s.pc i with
    | some (.submitToGateway id) =>
      some (s.goto i (.markFailed id "upstream unavailable" "提交生成任务失败：上游服务暂不可用"))
    | _ => none
  -- no handler catches the cancellation
  | .cancel i => (s.pc i).map fun p => s.raise i (created p)
  | .updateTask id t =>
    match s.core.tasks id with
    | some r =>
      -- a task that is over stays over, and a deleted one stays deleted
      if (r.status.isTerminal → t.status.isTerminal) ∧ (r.deleted → t.deleted) then
        some (s.withCore (s.core.setTask id t))
      else none
    | none => none
  | .setFence taken => some { s with fenced := taken }
  | .updateNode revision content model config =>
    some (s.patch (updateNodeOp s.core.row revision content model config))
  | .deleteNode revision => some (s.patch (deleteNodeOp s.core.row revision))

/-- Any node and any tasks, before the calls. -/
structure Initial (s : State ι) : Prop where
  pc : ∀ i, s.pc i = none
  known : s.core.Known
  bound : s.bound = s.core.boundTask.toList
  raised : s.raised = []

def submits : Machine (State ι) (Action ι) where
  init := Initial
  step := step kind

/-! ### The law and its condition -/

/-- No task whose submit has raised is in flight and not the node's, and the node has had one task in flight at most. -/
structure Law (s : State ι) : Prop where
  raised : ∀ id ∈ s.raised, inFlight s.core.tasks id = true → s.core.boundTask = some id
  single : ∀ a ∈ s.bound, ∀ b ∈ s.bound, inFlight s.core.tasks a = true → inFlight s.core.tasks b = true → a = b

/-- The transaction of the binding finds the node, and no other task in flight. -/
def Admits (c : Core) (id : Nat) : Prop :=
  ∃ n ∈ c.row, n.deleted = false ∧ ∀ id' ∈ n.data.generateTaskId, id' = id ∨ inFlight c.tasks id' = false

/-- With a task in flight that is not bound, a call raises only in the gateway, is not cancelled, and its binding is not
refused. -/
def Safe (s : State ι) : Action ι → Prop
  | .run i =>
    match s.pc i with
    | some (.bind id) => inFlight s.core.tasks id = true → Admits s.core id
    | _ => True
  | .fail i _ =>
    match s.pc i with
    | none | some (.submitToGateway _) => True
    | some p => ∀ id ∈ pending p, inFlight s.core.tasks id = false
  | .cancel i => ∀ p ∈ s.pc i, ∀ id ∈ pending p, inFlight s.core.tasks id = false
  | _ => True

instance (c : Core) (id : Nat) : Decidable (Admits c id) := by
  unfold Admits
  infer_instance

instance (s : State ι) (a : Action ι) : Decidable (Safe s a) := by
  unfold Safe
  repeat' split
  all_goals infer_instance

end Model

/-! ### Tasks and the node -/

section Proofs

variable {ι : Type} [DecidableEq ι] {kind : ι → GenerationKind} {s t : State ι} {a : Action ι} {i : ι} {p : SubmitPc}
  {c : Core} {id : Nat}

theorem admits_iff : Admits c id ↔ ∃ n, bindGenerateTaskToNode c.tasks c.row id = .ok n := by
  constructor
  · rintro ⟨n, hn, hlive, hfree⟩
    refine ⟨_, transaction_ok.2 ⟨n, hn, hlive, generationInProgress_eq_none.2 fun id' hid' => ?_, rfl⟩⟩
    exact (hfree id' hid').imp_left fun h => by rw [h]
  · rintro ⟨n', hn'⟩
    obtain ⟨n, hn, hlive, hfree, -⟩ := transaction_ok.1 hn'
    refine ⟨n, hn, hlive, fun id' hid' => ?_⟩
    exact (generationInProgress_eq_none.1 hfree id' hid').imp_left Option.some.inj

/-- A task that was marked as failed is over. -/
theorem inFlight_markFailed (reason : String) :
    inFlight (c.modifyTask id fun t => t.markFailedIfNonTerminal reason).tasks id = false := by
  by_contra h
  obtain ⟨t, ht, -, hrun⟩ := inFlight_eq_true.1 (Bool.eq_true_of_not_eq_false h)
  unfold Core.modifyTask at ht
  cases hr : c.tasks id with
  | none =>
    rw [hr] at ht
    cases hr.symm.trans ht
  | some r =>
    simp only [hr, Core.setTask, Function.update_self, Option.some.injEq] at ht
    subst ht
    unfold GenerateTask.markFailedIfNonTerminal at hrun
    split at hrun
    · next hover => cases hover.symm.trans hrun
    · cases hrun

theorem markFailed_isTerminal (reason : String) (r : GenerateTask) (h : r.status.isTerminal) :
    (r.markFailedIfNonTerminal reason).status.isTerminal := by
  unfold GenerateTask.markFailedIfNonTerminal
  rw [if_pos h]
  exact h

theorem markFailed_deleted (reason : String) (r : GenerateTask) :
    (r.markFailedIfNonTerminal reason).deleted = r.deleted := by
  unfold GenerateTask.markFailedIfNonTerminal
  split <;> rfl

/-! ### The invariant -/

/-- The task that a party has created and not bound. -/
def State.waits (s : State ι) (i : ι) : Option Nat := (s.pc i).bind pending

/-- A task that was created and not bound is the node's for no one, and a task in flight that was bound still is. -/
structure Inv (s : State ι) : Prop where
  known : s.core.Known
  waits : ∀ i id, s.waits i = some id → id < s.core.nextTask ∧ s.core.boundTask ≠ some id
  alone : ∀ i j id, s.waits i = some id → s.waits j = some id → i = j
  publish : ∀ i id, s.pc i = some (.publish id) → id ∈ s.bound
  bound : ∀ id ∈ s.bound, id < s.core.nextTask ∧ (inFlight s.core.tasks id = true → s.core.boundTask = some id)
  raised : ∀ id ∈ s.raised, id < s.core.nextTask

theorem inv_init (h : Initial s) : Inv s where
  known := h.known
  waits i id hid := by
    unfold State.waits at hid
    rw [h.pc i] at hid
    cases hid
  alone i j id hid _ := by
    unfold State.waits at hid
    rw [h.pc i] at hid
    cases hid
  publish i id hid := by
    rw [h.pc i] at hid
    cases hid
  bound id hid := by
    rw [h.bound, Option.mem_toList] at hid
    exact ⟨h.known.bound id hid, fun _ => hid⟩
  raised id hid := by
    rw [h.raised] at hid
    cases hid

/-- Two tasks in flight that were bound are both the node's. -/
theorem law_of_raised (hI : Inv s) (h : ∀ id ∈ s.raised, inFlight s.core.tasks id = true → s.core.boundTask = some id) :
    Law s := by
  refine ⟨h, fun a ha b hb hrunA hrunB => ?_⟩
  exact Option.some.inj (((hI.bound a ha).2 hrunA).symm.trans ((hI.bound b hb).2 hrunB))

theorem law_init (h : Initial s) : Law s := by
  refine law_of_raised (inv_init h) fun id hid => ?_
  rw [h.raised] at hid
  cases hid

/-- A party after one has gone on is that one, or as it was. -/
theorem update_cases {o : Option SubmitPc} {j : ι} {P : Option SubmitPc → Prop} (h : P (Function.update s.pc i o j)) :
    j = i ∧ P o ∨ j ≠ i ∧ P (s.pc j) := by
  by_cases hj : j = i
  · subst hj
    rw [Function.update_self] at h
    exact .inl ⟨rfl, h⟩
  · rw [Function.update_of_ne hj] at h
    exact .inr ⟨hj, h⟩

/-- A party goes on with the task it has, or with none. -/
theorem inv_update (hI : Inv s) (i : ι) (o : Option SubmitPc)
    (hwaits : ∀ id, o.bind pending = some id → s.waits i = some id)
    (hpublish : ∀ id, o = some (.publish id) → id ∈ s.bound) : Inv { s with pc := Function.update s.pc i o } := by
  have hback : ∀ j id, State.waits { s with pc := Function.update s.pc i o } j = some id → s.waits j = some id := by
    intro j id hid
    rcases update_cases (P := fun p => p.bind pending = some id) hid with ⟨rfl, hown⟩ | ⟨-, hold⟩
    · exact hwaits id hown
    · exact hold
  refine ⟨hI.known, fun j id hid => hI.waits j id (hback j id hid), fun j k id hj hk => ?_, fun j id hid => ?_,
    hI.bound, hI.raised⟩
  · exact hI.alone j k id (hback j id hj) (hback k id hk)
  · rcases update_cases (P := fun p => p = some (.publish id)) hid with ⟨-, hid⟩ | ⟨-, hid⟩
    · exact hpublish id hid
    · exact hI.publish j id hid

theorem inv_goto (hI : Inv s) (i : ι) (p : SubmitPc) (hwaits : ∀ id, pending p = some id → s.waits i = some id)
    (hpublish : ∀ id, p ≠ .publish id) : Inv (s.goto i p) :=
  inv_update hI i (some p) hwaits fun id h => absurd (Option.some.inj h) (hpublish id)

/-- The task of a call has been given out. -/
theorem created_lt (hI : Inv s) (hpc : s.pc i = some p) : ∀ id ∈ created p, id < s.core.nextTask := by
  intro id hid
  cases p with
  | publish id' =>
    cases hid
    exact (hI.bound id (hI.publish i id hpc)).1
  | submitToGateway | markFailed | bindQueued | bind =>
    cases hid
    refine (hI.waits i id ?_).1
    unfold State.waits
    rw [hpc]
    rfl
  | assertWritable | readNode | readTask | validate | create => cases hid

theorem inv_raise (hI : Inv s) (i : ι) {task : Option Nat} (htask : ∀ id ∈ task, id < s.core.nextTask) :
    Inv (s.raise i task) := by
  have hI' := inv_update hI i none nofun nofun
  refine ⟨hI'.known, hI'.waits, hI'.alone, hI'.publish, hI'.bound, fun id hid => ?_⟩
  rcases List.mem_append.1 hid with hid | hid
  · exact htask id (Option.mem_toList.1 hid)
  · exact hI.raised id hid

/-- The tasks go on, and the node keeps its task. -/
structure Keeps (c c' : Core) : Prop where
  grows : c.Grows c'
  known : c.Known → c'.Known
  bound : c'.boundTask = c.boundTask

theorem keeps_modifyTask (c : Core) (id : Nat) {f : GenerateTask → GenerateTask}
    (hstatus : ∀ t, t.status.isTerminal → (f t).status.isTerminal) (hdeleted : ∀ t, (f t).deleted = t.deleted) :
    Keeps c (c.modifyTask id f) := by
  refine ⟨Core.grows_modifyTask hstatus fun t h => ?_, fun hK => hK.modifyTask, ?_⟩
  · rw [hdeleted, h]
  · unfold Core.boundTask
    rw [Core.modifyTask_row]

theorem keeps_markFailed (c : Core) (id : Nat) (reason : String) :
    Keeps c (c.modifyTask id fun t => t.markFailedIfNonTerminal reason) :=
  keeps_modifyTask c id (markFailed_isTerminal reason) (markFailed_deleted reason)

theorem keeps_bindQueued (c : Core) (id unionTaskId : Nat) :
    Keeps c (c.modifyTask id (bindUnionTaskQueued unionTaskId)) :=
  keeps_modifyTask c id (fun _ => bindUnionTaskQueued_isTerminal unionTaskId) fun _ =>
    bindUnionTaskQueued_deleted unionTaskId

theorem keeps_createTask (c : Core) (k : GenerationKind) : Keeps c (c.createTask k) :=
  ⟨Core.grows_createTask k, fun hK => hK.createTask k, rfl⟩

theorem inv_withCore (hI : Inv s) (hkeeps : Keeps s.core c) : Inv (s.withCore c) := by
  obtain ⟨hg, hknown, hbound⟩ := hkeeps
  have hk := hknown hI.known
  refine ⟨hk, fun i id hid => ?_, hI.alone, hI.publish, fun id hid => ?_, fun id hid => ?_⟩
  · obtain ⟨hlt, hne⟩ := hI.waits i id hid
    refine ⟨hlt.trans_le hg.nextTask, fun h => hne ?_⟩
    rw [← hbound]
    exact h
  · obtain ⟨hlt, hkept⟩ := hI.bound id hid
    exact ⟨hlt.trans_le hg.nextTask, fun hrun => hbound.trans (hkept (hg.inFlight id hlt hrun))⟩
  · exact (hI.raised id hid).trans_le hg.nextTask

theorem law_withCore (hI : Inv s) (hL : Law s) (hkeeps : Keeps s.core c) : Law (s.withCore c) := by
  obtain ⟨hg, -, hbound⟩ := hkeeps
  refine ⟨fun id hid hrun => ?_, fun a ha b hb hrunA hrunB => ?_⟩
  · exact hbound.trans (hL.raised id hid (hg.inFlight id (hI.raised id hid) hrun))
  · exact hL.single a ha b hb (hg.inFlight a (hI.bound a ha).1 hrunA) (hg.inFlight b (hI.bound b hb).1 hrunB)

/-! ### One step -/

/-- A new task is the caller's. -/
theorem inv_create (hI : Inv s) (i : ι) (k : GenerationKind) :
    Inv ((s.goto i (.submitToGateway s.core.nextTask)).withCore (s.core.createTask k)) := by
  have hI' : Inv (s.withCore (s.core.createTask k)) :=
    inv_withCore hI (keeps_createTask s.core k)
  have hnew : ∀ j, s.waits j ≠ some s.core.nextTask := fun j h => lt_irrefl _ (hI.waits j _ h).1
  have hwaits : ∀ j id, State.waits ((s.goto i (.submitToGateway s.core.nextTask)).withCore (s.core.createTask k)) j =
      some id → j = i ∧ id = s.core.nextTask ∨ s.waits j = some id := by
    intro j id hid
    rcases update_cases (P := fun p => p.bind pending = some id) hid with ⟨rfl, hown⟩ | ⟨-, hold⟩
    · exact .inl ⟨rfl, (Option.some.inj hown).symm⟩
    · exact .inr hold
  refine ⟨hI'.known, fun j id hid => ?_, fun j l id hj hl => ?_, fun j id hid => ?_, hI'.bound, hI'.raised⟩
  · rcases hwaits j id hid with ⟨-, rfl⟩ | hid
    · exact ⟨Nat.lt_succ_self _, fun h => lt_irrefl _ (hI.known.bound _ h)⟩
    · exact hI'.waits j id hid
  · rcases hwaits j id hj with ⟨rfl, rfl⟩ | hj
    · rcases hwaits l _ hl with ⟨rfl, -⟩ | hl
      · rfl
      · exact absurd hl (hnew l)
    · rcases hwaits l id hl with ⟨-, rfl⟩ | hl
      · exact absurd hj (hnew j)
      · exact hI.alone j l id hj hl
  · rcases update_cases (P := fun p => p = some (.publish id)) hid with ⟨-, hid⟩ | ⟨-, hid⟩
    · cases hid
    · exact hI.publish j id hid

/-- The binding replaces a task only when it is over. -/
theorem kept_of_bind {n' : CanvasNode} (hn' : bindGenerateTaskToNode s.core.tasks s.core.row id = .ok n') {id' : Nat}
    (hbound : s.core.boundTask = some id') (hrun : inFlight s.core.tasks id' = true) : id' = id := by
  obtain ⟨n, hn, -, hfree, -⟩ := transaction_ok.1 hn'
  have htask : n.data.generateTaskId = some id' := by
    unfold Core.boundTask at hbound
    rw [hn] at hbound
    exact hbound
  rcases generationInProgress_eq_none.1 hfree id' htask with h | h
  · exact Option.some.inj h
  · cases hrun.symm.trans h

theorem boundTask_bindTask {n' : CanvasNode} (hn' : bindGenerateTaskToNode s.core.tasks s.core.row id = .ok n') :
    (s.bindTask i id n').core.boundTask = some id := by
  obtain ⟨n, -, -, -, rfl⟩ := transaction_ok.1 hn'
  rfl

theorem inv_bindTask (hI : Inv s) (hpc : s.pc i = some (.bind id)) {n' : CanvasNode}
    (hn' : bindGenerateTaskToNode s.core.tasks s.core.row id = .ok n') : Inv (s.bindTask i id n') := by
  have hwaits : s.waits i = some id := by
    unfold State.waits
    rw [hpc]
    rfl
  have hlt := (hI.waits i id hwaits).1
  have hbound := boundTask_bindTask (i := i) hn'
  have hothers : ∀ j id', State.waits (s.bindTask i id n') j = some id' → j ≠ i ∧ s.waits j = some id' := by
    intro j id' hid'
    rcases update_cases (P := fun p => p.bind pending = some id') hid' with ⟨-, hid'⟩ | hothers
    · cases hid'
    · exact hothers
  refine ⟨⟨fun id' h => ?_, hI.known.tasks⟩, fun j id' hid' => ?_, fun j k id' hj hk => ?_, fun j id' hid' => ?_,
    fun id' hid' => ?_, hI.raised⟩
  · cases hbound.symm.trans h
    exact hlt
  · obtain ⟨hne, hold⟩ := hothers j id' hid'
    refine ⟨(hI.waits j id' hold).1, fun h => hne ?_⟩
    cases hbound.symm.trans h
    exact hI.alone j i id hold hwaits
  · exact hI.alone j k id' (hothers j id' hj).2 (hothers k id' hk).2
  · rcases update_cases (P := fun p => p = some (.publish id')) hid' with ⟨-, hid'⟩ | ⟨-, hid'⟩
    · cases hid'
      exact List.mem_cons_self
    · exact List.mem_cons_of_mem _ (hI.publish j id' hid')
  · rcases List.mem_cons.1 hid' with rfl | hid'
    · exact ⟨hlt, fun _ => hbound⟩
    · obtain ⟨hlt', hkept⟩ := hI.bound id' hid'
      exact ⟨hlt', fun hrun => kept_of_bind hn' (hkept hrun) hrun ▸ hbound⟩

theorem law_bindTask (hI : Inv s) (hL : Law s) (hpc : s.pc i = some (.bind id)) {n' : CanvasNode}
    (hn' : bindGenerateTaskToNode s.core.tasks s.core.row id = .ok n') : Law (s.bindTask i id n') := by
  refine law_of_raised (inv_bindTask hI hpc hn') fun id' hid' hrun => ?_
  obtain rfl := kept_of_bind hn' (hL.raised id' hid' hrun) hrun
  exact boundTask_bindTask hn'

/-- A raise keeps the law exactly when the task is over or the node's. -/
theorem law_raise (hL : Law s) (i : ι) (task : Option Nat) :
    Law (s.raise i task) ↔ ∀ id ∈ task, inFlight s.core.tasks id = true → s.core.boundTask = some id := by
  constructor
  · intro h id hid
    exact h.raised id (List.mem_append_left _ (Option.mem_toList.2 hid))
  · refine fun h => ⟨fun id hid => ?_, hL.single⟩
    rcases List.mem_append.1 hid with hid | hid
    · exact h id (Option.mem_toList.1 hid)
    · exact hL.raised id hid

/-- A call that raises keeps the law exactly when it has no task in flight that is not bound. -/
theorem law_raise_created (hI : Inv s) (hL : Law s) (hpc : s.pc i = some p) :
    Law (s.raise i (created p)) ↔ ∀ id ∈ pending p, inFlight s.core.tasks id = false := by
  rw [law_raise hL]
  have hwaits : ∀ id ∈ pending p, s.core.boundTask ≠ some id := by
    intro id hid
    refine (hI.waits i id ?_).2
    unfold State.waits
    rw [hpc]
    exact hid
  cases p with
  | publish id =>
    refine iff_of_true (fun id' hid' => ?_) nofun
    cases hid'
    exact (hI.bound id (hI.publish i id hpc)).2
  | submitToGateway | markFailed | bindQueued | bind | assertWritable | readNode | readTask | validate | create =>
    refine forall₂_congr fun id hid => ?_
    rw [← Bool.not_eq_true]
    exact ⟨fun h hrun => hwaits id hid (h hrun), fun h hrun => absurd hrun h⟩

theorem created_of_pending (h : pending p = some id) : created p = some id := by
  cases p with
  | publish => cases h
  | _ => exact h

/-- A party that has created no task. -/
theorem inv_goto_fresh (hI : Inv s) (i : ι) (hp : created p = none) : Inv (s.goto i p) := by
  refine inv_goto hI i p (fun id hid => ?_) fun id => ?_
  · cases hp.symm.trans (created_of_pending hid)
  · rintro rfl
    cases hp

/-- A party goes on with its task. -/
theorem inv_goto_next {q : SubmitPc} (hI : Inv s) (hpc : s.pc i = some p) (hq : pending q = pending p)
    (hpublish : ∀ id, q ≠ .publish id) : Inv (s.goto i q) := by
  refine inv_goto hI i q (fun id hid => ?_) hpublish
  unfold State.waits
  rw [hpc]
  exact hq.symm.trans hid

theorem inv_run (hI : Inv s) (hpc : s.pc i = some p) (h : run kind s i p = some t) : Inv t := by
  cases p with
  | assertWritable =>
    cases h
    split
    · exact inv_raise hI i nofun
    · exact inv_goto_fresh hI i rfl
  | readNode =>
    simp only [run] at h
    split at h
    · cases h
      exact inv_goto_fresh hI i rfl
    · cases h
      exact inv_raise hI i nofun
  | readTask d =>
    cases h
    split
    · exact inv_raise hI i nofun
    · exact inv_goto_fresh hI i rfl
  | validate =>
    cases h
    exact inv_goto_fresh hI i rfl
  | create =>
    cases h
    exact inv_create hI i (kind i)
  | submitToGateway id => cases h
  | markFailed id reason message =>
    cases h
    have hkeeps := keeps_markFailed s.core id reason
    refine inv_raise (inv_withCore hI hkeeps) i fun id' hid' => ?_
    exact (created_lt hI hpc id' hid').trans_le hkeeps.grows.nextTask
  | bindQueued id unionTaskId =>
    cases h
    have hI' := inv_withCore hI (keeps_bindQueued s.core id unionTaskId)
    exact inv_goto_next (p := .bindQueued id unionTaskId) hI' hpc rfl nofun
  | bind id =>
    simp only [run] at h
    split at h
    · next n hn =>
      cases h
      exact inv_bindTask hI hpc hn
    · cases h
      exact inv_raise hI i (created_lt hI hpc)
  | publish id =>
    cases h
    exact inv_update hI i none nofun nofun

/-- Where the call goes on nothing is lost. -/
theorem law_goto (hL : Law s) (i : ι) (p : SubmitPc) : Law (s.goto i p) := ⟨hL.raised, hL.single⟩

theorem law_run (hI : Inv s) (hL : Law s) (hpc : s.pc i = some p) (h : run kind s i p = some t) :
    Law t ↔ Safe s (.run i) := by
  have hnone : Law (s.raise i none) := (law_raise hL i none).2 nofun
  simp only [Safe, hpc]
  cases p with
  | assertWritable =>
    cases h
    refine iff_of_true ?_ trivial
    split
    · exact hnone
    · exact law_goto hL i _
  | readNode =>
    refine iff_of_true ?_ trivial
    simp only [run] at h
    split at h
    · cases h
      exact law_goto hL i _
    · cases h
      exact hnone
  | readTask d =>
    cases h
    refine iff_of_true ?_ trivial
    split
    · exact hnone
    · exact law_goto hL i _
  | validate =>
    cases h
    exact iff_of_true (law_goto hL i _) trivial
  | create =>
    cases h
    exact iff_of_true (law_goto (law_withCore hI hL (keeps_createTask s.core _)) i _) trivial
  | submitToGateway id => cases h
  | markFailed id reason message =>
    cases h
    refine iff_of_true ((law_raise (law_withCore hI hL (keeps_markFailed s.core id reason)) i _).2 ?_) trivial
    intro id' hid' hrun
    cases hid'
    cases hrun.symm.trans (inFlight_markFailed reason)
  | bindQueued id unionTaskId =>
    cases h
    exact iff_of_true (law_goto (law_withCore hI hL (keeps_bindQueued s.core id unionTaskId)) i _) trivial
  | bind id =>
    simp only [run] at h
    split at h
    · next n hn =>
      cases h
      exact iff_of_true (law_bindTask hI hL hpc hn) fun _ => admits_iff.2 ⟨n, hn⟩
    · next e he =>
      cases h
      have hrefused : ¬ Admits s.core id := by
        rintro hadmits
        obtain ⟨n, hn⟩ := admits_iff.1 hadmits
        cases he.symm.trans hn
      refine (law_raise_created hI hL hpc).trans ?_
      simp only [pending, created, Option.mem_some_iff, forall_eq', hrefused, imp_false, Bool.not_eq_true]
  | publish id =>
    cases h
    exact iff_of_true ⟨hL.raised, hL.single⟩ trivial

/-- A patch of the user leaves the task of the node. -/
theorem keeps_patch {r : Except NodeError CanvasNode} (hr : ∀ n', r = .ok n' →
    ∃ n, s.core.row = some n ∧ n'.data.generateTaskId = n.data.generateTaskId) :
    ∃ c, s.patch r = s.withCore c ∧ Keeps s.core c := by
  cases r with
  | error e => exact ⟨s.core, rfl, Core.Grows.refl _, id, rfl⟩
  | ok n' =>
    obtain ⟨n, hn, htask⟩ := hr n' rfl
    have hbound : Core.boundTask { s.core with row := some n' } = s.core.boundTask := by
      unfold Core.boundTask
      rw [hn]
      exact htask
    refine ⟨_, rfl, ⟨le_refl _, fun _ _ h => h⟩, fun hK => ⟨fun id hid => hK.bound id ?_, hK.tasks⟩, hbound⟩
    rw [← hbound]
    exact hid

/-- The change keeps the invariant, and the law. -/
theorem spec_withCore (hI : Inv s) (hL : Law s) (h : Keeps s.core c) :
    Inv (s.withCore c) ∧ (Law (s.withCore c) ↔ True) :=
  ⟨inv_withCore hI h, iff_true_intro (law_withCore hI hL h)⟩

theorem spec_fail (hI : Inv s) (hL : Law s) (hpc : s.pc i = some p) (message : String) :
    Inv (fail s i message p) ∧ (Law (fail s i message p) ↔ Safe s (.fail i message)) := by
  simp only [Safe, hpc]
  cases p with
  | submitToGateway id => exact ⟨inv_goto_next hI hpc rfl nofun, iff_of_true (law_goto hL i _) trivial⟩
  | assertWritable | readNode | readTask | validate | create | markFailed | bindQueued | bind | publish =>
    exact ⟨inv_raise hI i (created_lt hI hpc), law_raise_created hI hL hpc⟩

/-- A step keeps the invariant, and from a state with the law it keeps the law exactly under the condition. -/
theorem spec_step (hI : Inv s) (hL : Law s) (h : step kind s a = some t) : Inv t ∧ (Law t ↔ Safe s a) := by
  cases a with
  | submit i =>
    obtain ⟨-, h⟩ := Option.ite_none_right_eq_some.1 h
    cases h
    exact ⟨inv_goto_fresh hI i rfl, iff_of_true (law_goto hL i _) trivial⟩
  | run i =>
    obtain ⟨p, hpc, hrun⟩ := Option.bind_eq_some_iff.1 h
    exact ⟨inv_run hI hpc hrun, law_run hI hL hpc hrun⟩
  | gatewayAccepts i unionTaskId =>
    simp only [step] at h
    split at h
    · next id hpc =>
      cases h
      exact ⟨inv_goto_next hI hpc rfl nofun, iff_of_true (law_goto hL i _) trivial⟩
    · cases h
  | fail i message =>
    obtain ⟨p, hpc, rfl⟩ := Option.map_eq_some_iff.1 h
    exact spec_fail hI hL hpc message
  | gatewayDown i =>
    simp only [step] at h
    split at h
    · next id hpc =>
      cases h
      exact ⟨inv_goto_next hI hpc rfl nofun, iff_of_true (law_goto hL i _) trivial⟩
    · cases h
  | cancel i =>
    obtain ⟨p, hpc, rfl⟩ := Option.map_eq_some_iff.1 h
    refine ⟨inv_raise hI i (created_lt hI hpc), (law_raise_created hI hL hpc).trans ?_⟩
    simp only [Safe, hpc, Option.mem_some_iff, forall_eq']
  | updateTask id task =>
    simp only [step] at h
    split at h
    · next r hr =>
      obtain ⟨⟨hstatus, hdeleted⟩, h⟩ := Option.ite_none_right_eq_some.1 h
      cases h
      exact spec_withCore hI hL ⟨Core.grows_setTask hr hstatus hdeleted, fun hK => hK.setTask hr, rfl⟩
    · cases h
  | setFence taken =>
    cases h
    exact ⟨⟨hI.known, hI.waits, hI.alone, hI.publish, hI.bound, hI.raised⟩, iff_of_true ⟨hL.raised, hL.single⟩ trivial⟩
  | updateNode revision content model config =>
    cases h
    obtain ⟨c, hc, hkeeps⟩ := keeps_patch (s := s) fun _ => task_of_updateNodeOp
    rw [hc]
    exact spec_withCore hI hL hkeeps
  | deleteNode revision =>
    cases h
    obtain ⟨c, hc, hkeeps⟩ := keeps_patch (s := s) fun _ => task_of_deleteNodeOp
    rw [hc]
    exact spec_withCore hI hL hkeeps

/-- In the runs that meet the condition every task whose submit has raised is over or the node's, and of the tasks the
node has had one is in flight at most; after any one step it is so exactly when that step meets the condition. -/
theorem raised_settled_of_safe (h : (submits kind).Reach Safe s) :
    Law s ∧ ∀ a t, step kind s a = some t → (Law t ↔ Safe s a) := by
  have hIL : Inv s ∧ Law s := by
    refine h.induct (P := fun s => Inv s ∧ Law s) (fun _ h => ⟨inv_init h, law_init h⟩) fun _ _ _ hIL hsafe hstep => ?_
    obtain ⟨hI, hiff⟩ := spec_step hIL.1 hIL.2 hstep
    exact ⟨hI, hiff.2 hsafe⟩
  obtain ⟨hI, hL⟩ := hIL
  exact ⟨hL, fun _ _ hstep => (spec_step hI hL hstep).2⟩

end Proofs

/-! ### Two submits past the gate -/

/-- A node without a task. -/
def unbound : State Bool where
  core := ⟨some ⟨.IMAGE, 1, false, ⟨none, none, none, none, none, none, none, none, none⟩⟩, fun _ => none, 0⟩
  fenced := false
  pc _ := none
  bound := []
  raised := []

theorem initial_unbound : Initial unbound :=
  ⟨fun _ => rfl, ⟨nofun, fun _ h => absurd rfl h⟩, rfl, rfl⟩

/-- A call up to the gateway. -/
def toGateway (i : Bool) : List (Action Bool) := [.submit i, .run i, .run i, .run i, .run i, .run i]

/-- The gateway takes the task, and the call goes on to its binding. -/
def toBinding (i : Bool) : List (Action Bool) := [.gatewayAccepts i 7, .run i, .run i]

/-- The gateway rejects one submit, and another is bound. -/
theorem raised_settled_of_rejection : ∃ s : State Bool, (submits fun _ => .IMAGE).Reach Safe s ∧ s.raised = [0] ∧
    s.core.boundTask = some 1 ∧ Law s ∧ ∀ a t, step (fun _ => .IMAGE) s a = some t → (Law t ↔ Safe s a) := by
  obtain ⟨s, -, hreach, hend⟩ := Machine.reach_of_exec (M := submits fun _ => .IMAGE) (C := Safe) (s := unbound)
    (p := fun s => s.raised = [0] ∧ s.core.boundTask = some 1)
    (toGateway false ++ [.fail false "rejected", .run false] ++ toGateway true ++ toBinding true)
    initial_unbound (by decide)
  obtain ⟨hraised, hbound⟩ := of_decide_eq_true hend
  exact ⟨s, hreach, hraised, hbound, raised_settled_of_safe hreach⟩

/-- Both submits pass the gate and the gateway takes both tasks: the second binding is refused, and its task stays in
flight with no node. -/
theorem raised_in_flight : ∃ s : State Bool, (submits fun _ => .IMAGE).Reach Free s ∧ s.raised = [1] ∧
    s.core.boundTask = some 0 ∧ (s.core.tasks 1).map GenerateTask.status = some .QUEUED ∧ ¬ Law s := by
  obtain ⟨s, -, hreach, hend⟩ := Machine.reach_of_exec (M := submits fun _ => .IMAGE) (C := Free) (s := unbound)
    (p := fun s => s.raised = [1] ∧ s.core.boundTask = some 0 ∧
      (s.core.tasks 1).map GenerateTask.status = some .QUEUED ∧ inFlight s.core.tasks 1 = true)
    (toGateway false ++ toGateway true ++ toBinding false ++ toBinding true)
    initial_unbound (by decide)
  obtain ⟨hraised, hbound, hstatus, hrun⟩ := of_decide_eq_true hend
  refine ⟨s, hreach, hraised, hbound, hstatus, fun hL => ?_⟩
  cases hbound.symm.trans (hL.raised 1 (hraised ▸ List.mem_cons_self) hrun)

end NexusStudio.SubmitRaises
