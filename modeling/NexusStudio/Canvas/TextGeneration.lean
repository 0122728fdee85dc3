import NexusStudio.Canvas.Node
import NexusStudio.Canvas.EpisodeFence

/-!
# Text generations

`execute_text_node_generation` on one text node, with user patches of the node and deletions of its episode.

* (machine) The fence of the episode, the row of the node, and the place of every generation in its code.
* (claim) A generation claims the node as RUNNING and writes its outcome under the revision of its own last write.
* (result) When no generation runs the node is not RUNNING, in the runs that meet `Safe`.
* (defect) A step that raises after the claim, a patch or the fence leave the node RUNNING for good.
-/

set_option linter.unusedSectionVars false

namespace NexusStudio.TextGeneration

open Concurrent CanvasNodes Generation

/-- Where a generation is; `rev` is the revision its next write expects. -/
inductive Pc
  -- at the fence
  | enter
  | requireNodeKind
  | resolveExecutePrompt
  -- the calls of `assert_writable` in `claim_node_for_generation` and in the port
  | guardWritable
  | claimWritable
  | claim
  | publishClaim (rev : Nat)
  | modelWritable (rev : Nat)
  | writeModel (rev : Nat)
  | getModelSpec (rev : Nat)
  | buildSystemPrompt (rev : Nat)
  | buildParams (rev : Nat)
  -- the `try` block
  | gateway (rev : Nat)
  | failedWritable (rev : Nat) (error : String)
  | writeFailed (rev : Nat) (error : String)
  | publishFailed
  | successWritable (rev : Nat) (text : String)
  | writeSuccess (rev : Nat) (text : String)
  | publishSuccess
  | dispatchNodeTerminal
  | returned
  | raised
  deriving DecidableEq, Repr

namespace Pc

/-- The revision that a generation holds between its claim and its last write. -/
def rev : Pc → Option Nat
  | publishClaim r | modelWritable r | writeModel r | getModelSpec r | buildSystemPrompt r | buildParams r | gateway r
  | failedWritable r _ | writeFailed r _ | successWritable r _ | writeSuccess r _ => some r
  | enter | requireNodeKind | resolveExecutePrompt | guardWritable | claimWritable | claim | publishFailed
  | publishSuccess | dispatchNodeTerminal | returned | raised => none

/-- The generation has come through the fence and is not over. -/
def running : Pc → Bool
  | enter | returned | raised => false
  | _ => true

theorem running_of_rev {p : Pc} {r : Nat} (h : p.rev = some r) : p.running = true := by
  cases p <;> first | rfl | cases h

end Pc

/-- The generations with the model they ask for, and the deletions with their owner strings. -/
structure Requests (γ δ ω : Type*) where
  modelKey : γ → String
  owner : δ → ω

structure State (γ δ ω : Type*) where
  fence : EpisodeFence.State γ δ ω
  row : Option CanvasNode
  tasks : Nat → Option GenerateTask
  -- the models whose capabilities the catalog has
  catalog : String → Bool
  pc : γ → Pc
  -- the deletions that have found no node RUNNING
  deleting : δ → Bool

inductive Action (γ δ : Type*)
  | fence (a : EpisodeFence.Action γ δ)
  | mutexExpires
  | inflightExpires
  -- the call under way returns
  | run (g : γ)
  -- the gateway answers
  | answer (g : γ) (content : String)
  -- the call under way raises
  | fail (g : γ) (message : String)
  -- the task of the generation is cancelled
  | cancel (g : γ)
  | updateNode (revision : Nat) (content model : Option String) (config : Option CanvasNodeConfig)
  | deleteNode (revision : Nat)
  | raiseIfCanvasBusy (d : δ)
  | deleteAll (d : δ)
  | setTask (id : Nat) (t : Option GenerateTask)
  | updateCatalog (model : String) (known : Bool)

section Model

variable {γ δ ω : Type*} [DecidableEq γ] [DecidableEq δ] [DecidableEq ω]

namespace State

def setPc (s : State γ δ ω) (g : γ) (p : Pc) : State γ δ ω :=
  { s with pc := Function.update s.pc g p }

/-- `assert_writable`. -/
def assertWritable (s : State γ δ ω) (g : γ) (next : Pc) : State γ δ ω :=
  s.setPc g (if s.fence.mutex = none then next else .raised)

/-- The generation's transaction commits and it goes on with the new revision, or the transaction raises. -/
def commit (s : State γ δ ω) (g : γ) (r : Except NodeError CanvasNode) (next : Nat → Pc) : State γ δ ω :=
  match r with
  | .ok n => { s.setPc g (next n.revision) with row := some n }
  | .error _ => s.setPc g .raised

/-- A patch of the user commits, or it raises and changes nothing. -/
def patch (s : State γ δ ω) (r : Except NodeError CanvasNode) : State γ δ ω :=
  match r with
  | .ok n => { s with row := some n }
  | .error _ => s

/-- `running_node_count` of `get_delete_state`, which counts deleted nodes too. -/
def runningNodeCount (s : State γ δ ω) : Nat :=
  if s.row.any fun n => n.data.dataStatus = .RUNNING then 1 else 0

end State

/-- The call under way of a generation returns, `none` where it waits for the gateway or is over. -/
def run (E : Requests γ δ ω) (s : State γ δ ω) (g : γ) : Option (State γ δ ω) :=
  match s.pc g with
  | .enter => if s.fence.gen g = .inside then some (s.setPc g .requireNodeKind) else none
  | .requireNodeKind =>
    some (s.setPc g (if s.row.any (fun n => !n.deleted && n.kind = .TEXT) then .resolveExecutePrompt else .raised))
  | .resolveExecutePrompt => some (s.setPc g .guardWritable)
  | .guardWritable => some (s.assertWritable g .claimWritable)
  | .claimWritable => some (s.assertWritable g .claim)
  | .claim => some (s.commit g (claimNodeForGeneration s.tasks s.row) .publishClaim)
  | .publishClaim r => some (s.setPc g (if E.modelKey g ≠ "" then .modelWritable r else .getModelSpec r))
  | .modelWritable r => some (s.assertWritable g (.writeModel r))
  | .writeModel r =>
    some (s.commit g (updateNodeTextOutput s.row .RUNNING none (some "") (some (E.modelKey g)) (some r)) .getModelSpec)
  | .getModelSpec r => some (s.setPc g (if s.catalog (E.modelKey g) then .buildSystemPrompt r else .raised))
  | .buildSystemPrompt r => some (s.setPc g (.buildParams r))
  | .buildParams r => some (s.setPc g (.gateway r))
  | .failedWritable r e => some (s.assertWritable g (.writeFailed r e))
  | .writeFailed r e =>
    some (s.commit g (updateNodeTextOutput s.row .FAILED none (some e) none (some r)) fun _ => .publishFailed)
  | .publishFailed => some (s.setPc g .raised)
  | .successWritable r t => some (s.assertWritable g (.writeSuccess r t))
  | .writeSuccess r t =>
    some (s.commit g (updateNodeTextOutput s.row .SUCCESS (some t) (some "") none (some r)) fun _ => .publishSuccess)
  | .publishSuccess => some (s.setPc g .dispatchNodeTerminal)
  | .dispatchNodeTerminal => some (s.setPc g .returned)
  | .gateway _ | .returned | .raised => none

/-- A command of the fence; a generation goes back to it only when its body is over. -/
def stepFence (E : Requests γ δ ω) (s : State γ δ ω) (a : EpisodeFence.Action γ δ) : Option (State γ δ ω) :=
  (EpisodeFence.step E.owner s.fence a).bind fun f =>
    match a with
    | .finish g | .abandon g => if (s.pc g).running then none else some { s with fence := f }
    | .releaseExclusive d => some { s with fence := f, deleting := Function.update s.deleting d false }
    | _ => some { s with fence := f }

/-- One step of one party, `none` when the party is elsewhere in its code. -/
def step (E : Requests γ δ ω) (s : State γ δ ω) : Action γ δ → Option (State γ δ ω)
  | .fence a => stepFence E s a
  | .mutexExpires => some { s with fence := { s.fence with mutex := none } }
  | .inflightExpires => some { s with fence := { s.fence with inflight := ∅ } }
  | .run g => run E s g
  | .answer g content =>
    match s.pc g with
    | .gateway r =>
      let text := strip content
      some (s.setPc g (if text = "" then .failedWritable r "模型返回空文本" else .successWritable r text))
    | _ => none
  | .fail g message =>
    match s.pc g with
    | .gateway r => some (s.setPc g (.failedWritable r message))
    | p => if p.running then some (s.setPc g .raised) else none
  | .cancel g => if (s.pc g).running then some (s.setPc g .raised) else none
  | .updateNode revision content model config => some (s.patch (updateNodeOp s.row revision content model config))
  | .deleteNode revision => some (s.patch (deleteNodeOp s.row revision))
  | .raiseIfCanvasBusy d =>
    if s.fence.deleter d = .idle ∧ s.runningNodeCount = 0 then
      some { s with deleting := Function.update s.deleting d true }
    else none
  | .deleteAll d => if s.deleting d then some { s with row := none } else none
  | .setTask id t => some { s with tasks := Function.update s.tasks id t }
  | .updateCatalog model known => some { s with catalog := Function.update s.catalog model known }

/-- Any row that is not RUNNING, before the generations of the node start. -/
structure Initial (s : State γ δ ω) : Prop where
  fence : s.fence = EpisodeFence.start
  pc : ∀ g, s.pc g = .enter
  deleting : ∀ d, s.deleting d = false
  row : ∀ n, s.row = some n → n.data.dataStatus ≠ .RUNNING

def generations (E : Requests γ δ ω) : Machine (State γ δ ω) (Action γ δ) where
  init := Initial
  step := step E

/-! ### The result -/

/-- When no generation of the node runs, so once the last call has returned or raised, the node is not RUNNING. -/
def NotStuck (s : State γ δ ω) : Prop :=
  (∀ g, (s.pc g).running = false) → ∀ n, s.row = some n → n.data.dataStatus ≠ .RUNNING

/-- The node is RUNNING under the revision that a generation at `p` holds. -/
def Carries (row : Option CanvasNode) (p : Pc) : Prop :=
  match row with
  | some n => n.deleted = false ∧ n.data.dataStatus = .RUNNING ∧ p.rev = some n.revision
  | none => False

/-- The user's patch carries the revision of a RUNNING node. -/
def Disturbs (row : Option CanvasNode) (revision : Nat) : Prop :=
  match row with
  | some n => n.data.dataStatus = .RUNNING ∧ n.revision = revision
  | none => False

/-- A generation under whose claim the node is RUNNING does not find the fence taken or its model unknown, does not
raise outside the `try` block and is not cancelled, and no patch of the RUNNING node commits. -/
def Safe (E : Requests γ δ ω) (s : State γ δ ω) : Action γ δ → Prop
  | .run g =>
    match s.pc g with
    | .modelWritable _ | .failedWritable .. | .successWritable .. => Carries s.row (s.pc g) → s.fence.mutex = none
    | .getModelSpec _ => Carries s.row (s.pc g) → s.catalog (E.modelKey g)
    | _ => True
  | .fail g _ =>
    match s.pc g with
    | .gateway _ => True
    | p => ¬ Carries s.row p
  | .cancel g => ¬ Carries s.row (s.pc g)
  | .updateNode revision .. => ¬ Disturbs s.row revision
  | .deleteNode revision => ¬ Disturbs s.row revision
  | _ => True

/-- A RUNNING node is RUNNING under the claim of some generation. -/
def Inv (row : Option CanvasNode) (pc : γ → Pc) : Prop :=
  ∀ n, row = some n → n.data.dataStatus = .RUNNING → ∃ g, Carries row (pc g)

variable {E : Requests γ δ ω} {s s' : State γ δ ω} {row : Option CanvasNode} {n n' : CanvasNode} {pc : γ → Pc} {g : γ}
  {p p' : Pc}

/-- Whether a generation carries the node depends on the revision it holds only. -/
theorem carries_congr (h : p'.rev = p.rev) : Carries row p' ↔ Carries row p := by
  unfold Carries
  rw [h]

theorem not_carries_of_rev (h : p.rev = none) : ¬ Carries row p := by
  intro hc
  cases row with
  | none => exact hc
  | some n =>
    have hrev : p.rev = some n.revision := hc.2.2
    rw [h] at hrev
    cases hrev

/-- The transaction of a generation under whose claim the node is RUNNING commits. -/
theorem commits_of_carries {r : Nat} {write : CanvasNode → CanvasNode} (hp : p.rev = some r) (hc : Carries row p) :
    ∃ n, row = some n ∧ transaction row (revisionConflict (some r)) write = .ok (write n) := by
  cases row with
  | none => exact hc.elim
  | some n =>
    obtain ⟨hlive, -, hrev⟩ := hc
    have hr : n.revision = r := by
      rw [hp] at hrev
      exact (Option.some.inj hrev).symm
    refine ⟨n, rfl, transaction_ok.2 ⟨n, rfl, hlive, ?_, rfl⟩⟩
    rw [revisionConflict_eq_none]
    rintro _ ⟨⟩
    exact hr

/-- The other generations go on carrying the node, whatever a generation that did not carry it does. -/
theorem Inv.setPc (hI : Inv row pc) (h : Carries row (pc g) → Carries row p) :
    Inv row (Function.update pc g p) := by
  intro n hrow hrun
  obtain ⟨g', hc⟩ := hI n hrow hrun
  by_cases hg : g' = g
  · subst hg
    refine ⟨g', ?_⟩
    rw [Function.update_self]
    exact h hc
  · refine ⟨g', ?_⟩
    rw [Function.update_of_ne hg]
    exact hc

/-- A generation goes on with the revision it holds. -/
theorem Inv.keep (hI : Inv row pc) (h : p.rev = (pc g).rev) : Inv row (Function.update pc g p) :=
  hI.setPc (carries_congr h).2

/-- A generation that does not carry the node goes on, wherever it goes. -/
theorem Inv.leave (hI : Inv row pc) (h : ¬ Carries row (pc g)) : Inv row (Function.update pc g p) :=
  hI.setPc fun hc => absurd hc h

/-- A generation has made the node RUNNING, and holds the new revision. -/
theorem Inv.own (hlive : n.deleted = false) (hp : p.rev = some n.revision) :
    Inv (some n) (Function.update pc g p) := by
  rintro _ ⟨⟩ hrun
  refine ⟨g, ?_⟩
  rw [Function.update_self]
  exact ⟨hlive, hrun, hp⟩

/-- A node that is not RUNNING. -/
theorem Inv.rest (h : n.data.dataStatus ≠ .RUNNING) : Inv (some n) pc := by
  rintro _ ⟨⟩ hrun
  exact absurd hrun h

theorem inv_assertWritable {next : Pc} (hI : Inv s.row s.pc) (hnext : next.rev = (s.pc g).rev)
    (hsafe : Carries s.row (s.pc g) → s.fence.mutex = none) :
    Inv (s.assertWritable g next).row (s.assertWritable g next).pc := by
  by_cases hm : s.fence.mutex = none
  · unfold State.assertWritable
    rw [if_pos hm]
    exact hI.keep hnext
  · unfold State.assertWritable
    rw [if_neg hm]
    exact hI.leave fun hc => hm (hsafe hc)

/-- A transaction of a generation: where it commits the new row keeps the invariant, and where it raises the
generation did not carry the node. -/
theorem inv_commit {refuse : CanvasNode → Option NodeError} {write : CanvasNode → CanvasNode} {next : Nat → Pc}
    (hI : Inv s.row s.pc)
    (hok : ∀ n, n.deleted = false → Inv (some (write n)) (Function.update s.pc g (next (write n).revision)))
    (hraise : Carries s.row (s.pc g) → ∃ n', transaction s.row refuse write = .ok n') :
    Inv (s.commit g (transaction s.row refuse write) next).row
      (s.commit g (transaction s.row refuse write) next).pc := by
  cases ht : transaction s.row refuse write with
  | ok n' =>
    obtain ⟨n, -, hlive, -, rfl⟩ := transaction_ok.1 ht
    exact hok n hlive
  | error e =>
    refine hI.leave fun hc => ?_
    obtain ⟨n', hn⟩ := hraise hc
    rw [ht] at hn
    cases hn

theorem inv_run (hI : Inv s.row s.pc) (hC : Safe E s (.run g)) (h : run E s g = some s') : Inv s'.row s'.pc := by
  unfold run at h
  unfold Safe at hC
  cases hpc : s.pc g with
  | enter =>
    simp only [hpc, Option.ite_none_right_eq_some, Option.some.injEq] at h
    obtain ⟨-, rfl⟩ := h
    exact hI.keep (by rw [hpc]; rfl)
  | requireNodeKind =>
    simp only [hpc, Option.some.injEq] at h
    subst h
    exact hI.leave (not_carries_of_rev (by rw [hpc]; rfl))
  | resolveExecutePrompt =>
    simp only [hpc, Option.some.injEq] at h
    subst h
    exact hI.keep (by rw [hpc]; rfl)
  | guardWritable | claimWritable =>
    simp only [hpc, Option.some.injEq] at h
    subst h
    have hrev : (s.pc g).rev = none := by rw [hpc]; rfl
    exact inv_assertWritable hI (by rw [hrev]; rfl) fun hc => absurd hc (not_carries_of_rev hrev)
  | claim =>
    simp only [hpc, Option.some.injEq] at h
    subst h
    refine inv_commit hI (fun n hlive => Inv.own hlive rfl) fun hc => ?_
    exact absurd hc (not_carries_of_rev (by rw [hpc]; rfl))
  | publishClaim r =>
    simp only [hpc, Option.some.injEq] at h
    subst h
    refine hI.keep ?_
    rw [hpc]
    split <;> rfl
  | modelWritable r | failedWritable r e | successWritable r t =>
    simp only [hpc, Option.some.injEq] at h hC
    subst h
    exact inv_assertWritable hI (by rw [hpc]; rfl) (by rw [hpc]; exact hC)
  | writeModel r =>
    simp only [hpc, Option.some.injEq] at h
    subst h
    refine inv_commit hI (fun n hlive => Inv.own hlive rfl) fun hc => ?_
    obtain ⟨n, -, hok⟩ := commits_of_carries (by rw [hpc]; rfl) hc
    exact ⟨_, hok⟩
  | getModelSpec r =>
    simp only [hpc, Option.some.injEq] at h hC
    subst h
    by_cases hk : s.catalog (E.modelKey g) = true
    · rw [if_pos hk]
      exact hI.keep (by rw [hpc]; rfl)
    · rw [if_neg hk]
      refine hI.leave fun hc => hk (hC ?_)
      rwa [hpc] at hc
  | buildSystemPrompt r | buildParams r =>
    simp only [hpc, Option.some.injEq] at h
    subst h
    exact hI.keep (by rw [hpc]; rfl)
  | writeFailed r e | writeSuccess r t =>
    simp only [hpc, Option.some.injEq] at h
    subst h
    refine inv_commit hI (fun n _ => Inv.rest nofun) fun hc => ?_
    obtain ⟨n, -, hok⟩ := commits_of_carries (by rw [hpc]; rfl) hc
    exact ⟨_, hok⟩
  | publishFailed | publishSuccess | dispatchNodeTerminal =>
    simp only [hpc, Option.some.injEq] at h
    subst h
    exact hI.keep (by rw [hpc]; rfl)
  | gateway r | returned | raised =>
    rw [hpc] at h
    cases h

/-- A patch that does not carry the revision of a RUNNING node leaves the invariant alone. -/
theorem inv_patch {revision : Nat} {write : CanvasNode → CanvasNode} (hI : Inv s.row s.pc)
    (hC : ¬ Disturbs s.row revision) (hstatus : ∀ n, (write n).data.dataStatus = n.data.dataStatus) :
    Inv (s.patch (transaction s.row (revisionConflict (some revision)) write)).row
      (s.patch (transaction s.row (revisionConflict (some revision)) write)).pc := by
  cases ht : transaction s.row (revisionConflict (some revision)) write with
  | ok n' =>
    obtain ⟨n, hrow, -, hrev, rfl⟩ := transaction_ok.1 ht
    refine Inv.rest fun hrun => hC ?_
    rw [hrow]
    rw [hstatus] at hrun
    exact ⟨hrun, revisionConflict_eq_none.1 hrev revision rfl⟩
  | error e => exact hI

/-- A command of the fence leaves the node and the bodies of the generations alone. -/
theorem stepFence_frame {a : EpisodeFence.Action γ δ} (h : stepFence E s a = some s') :
    s'.row = s.row ∧ s'.pc = s.pc := by
  obtain ⟨f, -, hf⟩ := Option.bind_eq_some_iff.1 h
  split at hf
  case h_1 | h_2 =>
    split at hf
    · cases hf
    · cases hf
      exact ⟨rfl, rfl⟩
  case h_3 | h_4 =>
    cases hf
    exact ⟨rfl, rfl⟩

theorem inv_fail {message : String} (hI : Inv s.row s.pc) (hC : Safe E s (.fail g message))
    (h : step E s (.fail g message) = some s') : Inv s'.row s'.pc := by
  simp only [step] at h
  simp only [Safe] at hC
  split at h
  case h_1 r hpc =>
    cases h
    exact hI.keep (by rw [hpc]; rfl)
  case h_2 p hne =>
    simp only [Option.ite_none_right_eq_some, Option.some.injEq] at h
    obtain ⟨-, rfl⟩ := h
    refine hI.leave ?_
    split at hC
    case h_1 r hpc => exact absurd hpc (hne r)
    case h_2 => exact hC

theorem inv_step {a : Action γ δ} (hI : Inv s.row s.pc) (hC : Safe E s a) (h : step E s a = some s') :
    Inv s'.row s'.pc := by
  cases a with
  | fence a =>
    obtain ⟨hrow, hpc⟩ := stepFence_frame h
    rw [hrow, hpc]
    exact hI
  | run g => exact inv_run hI hC h
  | answer g content =>
    simp only [step] at h
    split at h
    case h_2 => cases h
    case h_1 r hpc =>
      cases h
      refine hI.keep ?_
      rw [hpc]
      split <;> rfl
  | fail g message => exact inv_fail hI hC h
  | cancel g =>
    simp only [step, Option.ite_none_right_eq_some, Option.some.injEq] at h
    obtain ⟨-, rfl⟩ := h
    exact hI.leave hC
  | updateNode revision content model config =>
    simp only [step, Option.some.injEq] at h
    subst h
    exact inv_patch hI hC fun n => rfl
  | deleteNode revision =>
    simp only [step, Option.some.injEq] at h
    subst h
    exact inv_patch hI hC fun n => rfl
  | deleteAll d =>
    simp only [step, Option.ite_none_right_eq_some, Option.some.injEq] at h
    obtain ⟨-, rfl⟩ := h
    rintro n ⟨⟩
  | raiseIfCanvasBusy d =>
    simp only [step, Option.ite_none_right_eq_some, Option.some.injEq] at h
    obtain ⟨-, rfl⟩ := h
    exact hI
  | mutexExpires | inflightExpires | setTask | updateCatalog =>
    cases h
    exact hI

theorem inv_reach (h : (generations E).Reach (Safe E) s) : Inv s.row s.pc := by
  refine h.induct (P := fun s => Inv s.row s.pc) (fun s h₀ => ?_) fun _ _ _ hI hC ht => inv_step hI hC ht
  intro n hrow hrun
  exact absurd hrun (h₀.row n hrow)

/-- In every run that meets the condition, no node stays RUNNING when its generations are over. -/
theorem notStuck_of_safe (h : (generations E).Reach (Safe E) s) : NotStuck s := by
  intro hover n hrow hrun
  obtain ⟨g, hc⟩ := inv_reach h n hrow hrun
  rw [hrow] at hc
  have hg : (s.pc g).running = true := Pc.running_of_rev hc.2.2
  rw [hover g] at hg
  cases hg

instance : Decidable (Carries row p) :=
  match row with
  | some n => inferInstanceAs (Decidable (n.deleted = false ∧ n.data.dataStatus = .RUNNING ∧ p.rev = some n.revision))
  | none => isFalse id

instance (revision : Nat) : Decidable (Disturbs row revision) :=
  match row with
  | some n => inferInstanceAs (Decidable (n.data.dataStatus = .RUNNING ∧ n.revision = revision))
  | none => isFalse id

instance (s : State γ δ ω) (a : Action γ δ) : Decidable (Safe E s a) :=
  match a with
  | .run g =>
    match hpc : s.pc g with
    | .modelWritable _ | .failedWritable _ _ | .successWritable _ _ =>
      decidable_of_iff (Carries s.row (s.pc g) → s.fence.mutex = none) (by simp only [Safe, hpc])
    | .getModelSpec _ =>
      decidable_of_iff (Carries s.row (s.pc g) → s.catalog (E.modelKey g)) (by simp only [Safe, hpc])
    | .enter | .requireNodeKind | .resolveExecutePrompt | .guardWritable | .claimWritable | .claim | .publishClaim _
    | .writeModel _ | .buildSystemPrompt _ | .buildParams _ | .gateway _ | .writeFailed _ _ | .publishFailed
    | .writeSuccess _ _ | .publishSuccess | .dispatchNodeTerminal | .returned | .raised =>
      isTrue (by simp only [Safe, hpc])
  | .fail g _ =>
    match hpc : s.pc g with
    | .gateway _ => isTrue (by simp only [Safe, hpc])
    | .enter | .requireNodeKind | .resolveExecutePrompt | .guardWritable | .claimWritable | .claim | .publishClaim _
    | .modelWritable _ | .writeModel _ | .getModelSpec _ | .buildSystemPrompt _ | .buildParams _ | .failedWritable _ _
    | .writeFailed _ _ | .publishFailed | .successWritable _ _ | .writeSuccess _ _ | .publishSuccess
    | .dispatchNodeTerminal | .returned | .raised =>
      decidable_of_iff (¬ Carries s.row (s.pc g)) (by simp only [Safe, hpc])
  | .cancel g => inferInstanceAs (Decidable (¬ Carries s.row (s.pc g)))
  | .updateNode revision _ _ _ => inferInstanceAs (Decidable (¬ Disturbs s.row revision))
  | .deleteNode revision => inferInstanceAs (Decidable (¬ Disturbs s.row revision))
  | .fence _ | .mutexExpires | .inflightExpires | .answer _ _ | .raiseIfCanvasBusy _ | .deleteAll _ | .setTask _ _
  | .updateCatalog _ _ => isTrue trivial

end Model

/-- Two generations with a model of the catalog, and one deletion. -/
def twoGenerations : Requests (Fin 2) Unit String where
  modelKey _ := "text-model"
  owner _ := "delete:0"

/-- A text node that has never been generated. -/
def textNode : State (Fin 2) Unit String where
  fence := EpisodeFence.start
  row := some ⟨.TEXT, 1, false, ⟨some .IDLE, none, none, none, none, none, none, none, none⟩⟩
  tasks _ := none
  catalog _ := true
  pc _ := .enter
  deleting _ := false

theorem textNode_initial : Initial textNode :=
  ⟨rfl, fun _ => rfl, fun _ => rfl, by rintro n ⟨⟩; decide⟩

/-- A generation enters the fence and claims the node. -/
def enterAndClaim (g : Fin 2) : List (Action (Fin 2) Unit) :=
  [.fence (.assertWritable g), .fence (.sadd g), .fence (.expire g), .fence (.recheck g)] ++ List.replicate 6 (.run g)

/-- From the claim to the call of the gateway. -/
def prepareRequest (g : Fin 2) : List (Action (Fin 2) Unit) := List.replicate 6 (.run g)

/-- The second generation takes the node over from the first one, whose write is refused. -/
theorem takenOver_notStuck :
    ∃ s : State (Fin 2) Unit String, (generations twoGenerations).Reach (Safe twoGenerations) s ∧
      s.pc 0 = .raised ∧ s.pc 1 = .returned ∧ ∀ n, s.row = some n → n.data.dataStatus ≠ .RUNNING := by
  obtain ⟨s, -, hr, hp⟩ := Machine.reach_of_exec (M := generations twoGenerations) (C := Safe twoGenerations)
    (s := textNode) (p := fun s => decide (s.pc 0 = .raised ∧ s.pc 1 = .returned))
    (enterAndClaim 0 ++ prepareRequest 0 ++ enterAndClaim 1 ++ prepareRequest 1 ++
      [.fail 0 "timeout", .run 0, .run 0, .answer 1 "scene", .run 1, .run 1, .run 1, .run 1])
    textNode_initial (by decide)
  obtain ⟨h0, h1⟩ := of_decide_eq_true hp
  refine ⟨s, hr, h0, h1, notStuck_of_safe hr ?_⟩
  rw [Fin.forall_fin_two, h0, h1]
  exact ⟨rfl, rfl⟩

/-- The user moves the node while the gateway writes its text, and the write-back is refused. -/
theorem not_notStuck :
    ¬ ∀ s : State (Fin 2) Unit String, (generations twoGenerations).Reach Free s → NotStuck s := by
  intro hall
  obtain ⟨s, -, hr, hp⟩ := Machine.reach_of_exec (M := generations twoGenerations) (C := Free) (s := textNode)
    (p := fun s => decide (s.pc 0 = .raised ∧ s.pc 1 = .enter ∧ s.row.any fun n => n.data.dataStatus = .RUNNING))
    (enterAndClaim 0 ++ prepareRequest 0 ++
      [.updateNode 3 none (some "text-model") (some (withModel none "text-model")), .answer 0 "scene", .run 0, .run 0,
        .fence (.finish 0), .fence (.srem 0)])
    textNode_initial (by decide)
  obtain ⟨h0, h1, hrun⟩ := of_decide_eq_true hp
  obtain ⟨n, hrow, hn⟩ := (Option.any_eq_true _ _).1 hrun
  refine hall s hr ?_ n hrow (of_decide_eq_true hn)
  rw [Fin.forall_fin_two, h0, h1]
  exact ⟨rfl, rfl⟩

end NexusStudio.TextGeneration
