import NexusStudio.Workshop.Schedules
import NexusStudio.Lib.Machine
import Mathlib.Logic.Function.Basic
import Mathlib.Data.List.Count

/-!
# Ticking workers

`tick_once` by any number of workers: every transaction, insert and message of a tick is one step, and may fail.

* (stages) A fire is claimed, gets its run, the task of the run and the message that executes it.
* (law) A fire whose `next_run_at` was advanced has exactly one run, with one task and one message, once no worker is
  at it any more.
* (defect) Nothing goes on with a fire whose worker fails after the claim, and a claim that finds the fire recorded gives
  it another run.
* (condition) `Safe`: no worker fails while it is at a fire, and no claim finds its fire recorded.
-/

set_option linter.unusedSectionVars false

namespace NexusStudio.ScheduleTick

open Concurrent Schedules

/-! ### The machine -/

/-- Where a worker is in `tick_once`. -/
inductive Pc (κ τ : Type)
  | idle
  | claim (todo : List (Schedule κ τ))
  | requireSaved (c : Schedule κ τ) (f : Fire) (todo : List (Schedule κ τ))
  | createRun (c : Schedule κ τ) (f : Fire) (w : Workflow) (todo : List (Schedule κ τ))
  | createTask (c : Schedule κ τ) (f : Fire) (run : Nat) (todo : List (Schedule κ τ))
  | enqueue (f : Fire) (run : Nat) (todo : List (Schedule κ τ))
  deriving DecidableEq

structure State (κ τ ι : Type) where
  db : Db κ τ
  -- the runs that messages are sent for
  queue : List Nat
  nextId : Nat
  pc : ι → Pc κ τ
  -- the fires whose `next_run_at` was advanced, and the runs that were made for a fire
  advanced : List Fire
  made : Fire → List Nat

inductive Action (κ τ ι : Type)
  | tick (i : ι) (now : τ) (batchSize : Nat)
  -- the call under way returns
  | run (i : ι)
  -- the row is locked by another transaction
  | locked (i : ι)
  -- the call under way raises, or the worker crashes
  | fail (i : ι)
  | edit (workflows : List Workflow) (schedules : List (Schedule κ τ))

section Model

variable {κ τ ι : Type} [LinearOrder τ] [DecidableEq ι] (C : Cron τ)

def State.setPc (s : State κ τ ι) (i : ι) (c : Pc κ τ) : State κ τ ι := { s with pc := Function.update s.pc i c }

/-- The call under way returns, `none` where it raises. -/
def run (s : State κ τ ι) (i : ι) : Option (State κ τ ι) :=
  match s.pc i with
  | .idle => none
  | .claim [] => some (s.setPc i .idle)
  | .claim (c :: todo) =>
    match c.nextRunAt with
    | none => some (s.setPc i (.claim todo))
    | some due =>
      match s.db.claimDueScheduleRun C c.id due s.nextId with
      | none => none
      | some (none, _) => some (s.setPc i (.claim todo))
      | some (some r, db) =>
        some { s.setPc i (.requireSaved c r.fire todo) with
          db, nextId := s.nextId + 1, advanced := r.fire :: s.advanced }
  | .requireSaved c f todo => (s.db.requireSaved c.workflowId).map fun w => s.setPc i (.createRun c f w todo)
  | .createRun c f w todo =>
    (s.db.createWorkflowRun ⟨s.nextId, w.id, w.revision, some c.id, .schedule, .queued, none, 1⟩).map fun db =>
      { s.setPc i (.createTask c f s.nextId todo) with
        db, nextId := s.nextId + 1, made := Function.update s.made f (s.made f ++ [s.nextId]) }
  | .createTask c f r todo =>
    (s.db.createExecutingTask c.workflowId r c.authorizedExternalCapabilities).map fun db =>
      { s.setPc i (.enqueue f r todo) with db }
  | .enqueue _ r todo => some { s.setPc i (.claim todo) with queue := s.queue ++ [r] }

def step (s : State κ τ ι) : Action κ τ ι → Option (State κ τ ι)
  | .tick i now batchSize =>
    match s.pc i with
    | .idle => if 1 ≤ batchSize then some (s.setPc i (.claim (s.db.listDueSchedules now batchSize))) else none
    | _ => none
  | .run i => run C s i
  | .locked i =>
    match s.pc i with
    | .claim (_ :: todo) => some (s.setPc i (.claim todo))
    | _ => none
  | .fail i =>
    match s.pc i with
    | .idle => none
    | _ => some (s.setPc i .idle)
  | .edit workflows schedules => some { s with db := { s.db with workflows, schedules } }

/-- How many runs, tasks and messages there are of an id. -/
def State.counts (s : State κ τ ι) (r : Nat) : Nat × Nat × Nat :=
  (s.db.workflowRuns.countP fun x => x.id = r, s.db.tasks.countP fun t => t.id = r, s.queue.count r)

/-- Workers with any workflows, schedules, runs and tasks, before the first fire. -/
structure Initial (s : State κ τ ι) : Prop where
  pc : ∀ i, s.pc i = .idle
  advanced : s.advanced = []
  made : ∀ f, s.made f = []
  counts : ∀ r, s.nextId ≤ r → s.counts r = (0, 0, 0)

def ticks : Machine (State κ τ ι) (Action κ τ ι) where
  init := Initial
  step := step C

/-! ### The law and its condition -/

/-- The fire that a worker is at. -/
def Pc.fire : Pc κ τ → Option Fire
  | idle | claim _ => none
  | requireSaved _ f _ | createRun _ f _ _ | createTask _ f _ _ | enqueue f _ _ => some f

/-- The fire has one run, with one task and one message. -/
def State.Delivered (s : State κ τ ι) (f : Fire) : Prop := ∃ r, s.made f = [r] ∧ s.counts r = (1, 1, 1)

structure Law (s : State κ τ ι) : Prop where
  once : ∀ f, (s.made f).length ≤ 1
  delivered : ∀ f ∈ s.advanced, (∀ i, (s.pc i).fire ≠ some f) → s.Delivered f

/-- A claim that gets its row finds the fire not recorded, and a worker fails at no fire. -/
def Safe (s : State κ τ ι) : Action κ τ ι → Prop
  | .run i =>
    match s.pc i with
    | .claim (c :: _) =>
      ∀ due ∈ c.nextRunAt, s.db.dueRow c.id due ≠ none → s.db.scheduleRun ⟨c.id, C.triggerKey c.id due⟩ = none
    | _ => True
  | .fail i => (s.pc i).fire = none
  | _ => True

instance [DecidableEq κ] (s : State κ τ ι) (a : Action κ τ ι) : Decidable (Safe C s a) := by
  unfold Safe
  repeat' split
  all_goals infer_instance

end Model

/-! ### What the transactions do -/

section Proofs

variable {κ τ ι : Type} [LinearOrder τ] [DecidableEq ι] {C : Cron τ} {db db' : Db κ τ} {f g : Fire} {r : Nat}

theorem fire_of_scheduleRun {x : ScheduleRun} (h : db.scheduleRun f = some x) : x.fire = f :=
  of_decide_eq_true (List.find?_some (p := fun r => decide (ScheduleRun.fire r = f)) h)

/-- Rows of fires are only added. -/
theorem scheduleRun_ne_none_of_prefix (h : db.scheduleRuns <+: db'.scheduleRuns) (hf : db.scheduleRun f ≠ none) :
    db'.scheduleRun f ≠ none := by
  obtain ⟨l, hl⟩ := h
  obtain ⟨x, hx⟩ := Option.ne_none_iff_exists'.1 hf
  rw [Db.scheduleRun] at hx
  rw [Db.scheduleRun, ← hl, List.find?_append, hx, Option.some_or]
  exact Option.some_ne_none x

/-- A claim that returns a row has found it, or has inserted it with its task. -/
structure Claimed (db db' : Db κ τ) (taskId : Nat) (f : Fire) : Prop where
  runs : db'.workflowRuns = db.workflowRuns
  recorded : db'.scheduleRun f ≠ none
  others : db.scheduleRuns <+: db'.scheduleRuns
  tasks : ∀ r, r ≠ taskId → (db'.tasks.countP fun t => t.id = r) = db.tasks.countP fun t => t.id = r

theorem claimed_of_claim {scheduleId : String} {due : τ} {taskId : Nat} {x : ScheduleRun}
    (h : db.claimDueScheduleRun C scheduleId due taskId = some (some x, db')) :
    x.fire = ⟨scheduleId, C.triggerKey scheduleId due⟩ ∧ db.dueRow scheduleId due ≠ none ∧
      Claimed db db' taskId x.fire := by
  rcases Db.claimDueScheduleRun_cases h with ⟨hx, -⟩ | ⟨c, next, hrow, ⟨y, hfound, hx, hdb⟩ | ⟨y, hx, hinsert⟩⟩
  · cases hx
  · cases hx
    subst hdb
    have hfire := fire_of_scheduleRun hfound
    refine ⟨hfire, by rw [hrow]; nofun, rfl, ?_, List.prefix_rfl, fun _ _ => rfl⟩
    rw [hfire]
    exact fun hn => Option.some_ne_none x (hfound.symm.trans hn)
  · cases hx
    obtain ⟨hx, rfl⟩ := Db.insertScheduleTrigger_eq hinsert
    have hid := (Db.dueRow_spec hrow).2
    refine ⟨by rw [hx, ScheduleRun.fire, hid], by rw [hrow]; nofun, rfl, ?_, List.prefix_append _ _, fun r hr => ?_⟩
    · rw [Db.scheduleRun]
      refine fun hn => List.find?_eq_none.1 hn _ (List.mem_append_right _ (List.mem_singleton_self _)) ?_
      exact decide_eq_true rfl
    · rw [List.countP_append, List.countP_singleton, if_neg]
      · rfl
      · exact fun he => hr (of_decide_eq_true he).symm

/-! ### Stages -/

/-- How far a fire has come. -/
inductive Stage
  | unclaimed
  | claimed
  | created (run : Nat)
  | tasked (run : Nat)
  | delivered (run : Nat)

/-- The stage at which a worker holds a fire. -/
def Pc.stage : Pc κ τ → Stage
  | idle | claim _ => .unclaimed
  | requireSaved .. | createRun .. => .claimed
  | createTask _ _ r _ => .created r
  | enqueue _ r _ => .tasked r

variable {s s' : State κ τ ι} {i : ι} {c : Pc κ τ}

def Stage.Fits (s : State κ τ ι) (f : Fire) : Stage → Prop
  | unclaimed => f ∉ s.advanced ∧ s.made f = []
  | claimed => f ∈ s.advanced ∧ s.made f = []
  | created r => f ∈ s.advanced ∧ s.made f = [r] ∧ s.counts r = (1, 0, 0)
  | tasked r => f ∈ s.advanced ∧ s.made f = [r] ∧ s.counts r = (1, 1, 0)
  | delivered r => f ∈ s.advanced ∧ s.made f = [r] ∧ s.counts r = (1, 1, 1)

/-- A fire that a step is not about stays at its stage. -/
theorem Stage.Fits.congr {t : Stage} (h : t.Fits s f) (hadvanced : f ∈ s'.advanced ↔ f ∈ s.advanced)
    (hmade : s'.made f = s.made f) (hcounts : ∀ r ∈ s.made f, s'.counts r = s.counts r) : t.Fits s' f := by
  have hown : ∀ r, s.made f = [r] → s'.counts r = s.counts r := fun r hr =>
    hcounts r (hr ▸ List.mem_singleton_self r)
  cases t with
  | unclaimed => exact ⟨fun hf => h.1 (hadvanced.1 hf), hmade.trans h.2⟩
  | claimed => exact ⟨hadvanced.2 h.1, hmade.trans h.2⟩
  | created r => exact ⟨hadvanced.2 h.1, hmade.trans h.2.1, (hown r h.2.1).trans h.2.2⟩
  | tasked r => exact ⟨hadvanced.2 h.1, hmade.trans h.2.1, (hown r h.2.1).trans h.2.2⟩
  | delivered r => exact ⟨hadvanced.2 h.1, hmade.trans h.2.1, (hown r h.2.1).trans h.2.2⟩

/-! ### The invariant -/

/-- Nobody is at the fire: it was never claimed, or it is delivered. -/
def Rests (s : State κ τ ι) (f : Fire) : Prop := Stage.unclaimed.Fits s f ∨ ∃ r, (Stage.delivered r).Fits s f

/-- Every fire is at the stage of the one worker that is at it, or rests. -/
structure Inv (s : State κ τ ι) : Prop where
  new : ∀ r, s.nextId ≤ r → s.counts r = (0, 0, 0)
  known : ∀ f, ∀ r ∈ s.made f, r < s.nextId
  apart : ∀ f g r, r ∈ s.made f → r ∈ s.made g → f = g
  recorded : ∀ f ∈ s.advanced, s.db.scheduleRun f ≠ none
  held : ∀ i f, (s.pc i).fire = some f → (s.pc i).stage.Fits s f
  single : ∀ i j f, (s.pc i).fire = some f → (s.pc j).fire = some f → i = j
  rests : ∀ f, (∀ i, (s.pc i).fire ≠ some f) → Rests s f

/-- What a step of `i` to `c` about the fire `f` leaves of the other fires. -/
structure Moves (s s' : State κ τ ι) (i : ι) (c : Pc κ τ) (f : Fire) : Prop where
  pc : s'.pc = Function.update s.pc i c
  ids : s.nextId ≤ s'.nextId
  new : ∀ r, s'.nextId ≤ r → s'.counts r = (0, 0, 0)
  made : ∀ g, g ≠ f → s'.made g = s.made g
  known : ∀ r ∈ s'.made f, r ∈ s.made f ∨ s.nextId ≤ r ∧ r < s'.nextId
  advanced : ∀ g, g ≠ f → (g ∈ s'.advanced ↔ g ∈ s.advanced)
  recorded : ∀ g, s.db.scheduleRun g ≠ none → s'.db.scheduleRun g ≠ none
  counts : ∀ g, g ≠ f → ∀ r ∈ s.made g, s'.counts r = s.counts r
  before : ∀ j, (s.pc j).fire = some f → j = i
  own : (s.pc i).fire = none ∨ (s.pc i).fire = some f

theorem inv_of (hI : Inv s) (hm : Moves s s' i c f) (hrecorded : f ∈ s'.advanced → s'.db.scheduleRun f ≠ none)
    (hafter : c.fire = some f ∧ c.stage.Fits s' f ∨ c.fire = none ∧ Rests s' f) : Inv s' := by
  have hown : s'.pc i = c := by rw [hm.pc, Function.update_self]
  have hother : ∀ j, j ≠ i → s'.pc j = s.pc j := fun j hj => by rw [hm.pc, Function.update_of_ne hj]
  have hframe : ∀ g, g ≠ f → ∀ t : Stage, t.Fits s g → t.Fits s' g := fun g hg t ht =>
    ht.congr (hm.advanced g hg) (hm.made g hg) (hm.counts g hg)
  have hfire : ∀ g, c.fire = some g → g = f ∧ c.stage.Fits s' f := by
    intro g hg
    rcases hafter with ⟨hc, ht⟩ | ⟨hc, -⟩
    · exact ⟨Option.some.inj (hg.symm.trans hc), ht⟩
    · cases hc.symm.trans hg
  have hnot : ∀ j, j ≠ i → (s.pc j).fire ≠ some f := fun j hj hf => hj (hm.before j hf)
  have hold : ∀ g, ∀ r ∈ s'.made g, r ∈ s.made g ∨ g = f ∧ s.nextId ≤ r ∧ r < s'.nextId := by
    intro g r hr
    by_cases hg : g = f
    · subst hg
      exact (hm.known r hr).imp_right fun h => ⟨rfl, h⟩
    · exact .inl (hm.made g hg ▸ hr)
  refine ⟨hm.new, fun g r hr => ?_, fun g g' r hr hr' => ?_, fun g hg => ?_, fun j g hj => ?_, fun j k g hj hk => ?_,
    fun g hg => ?_⟩
  · rcases hold g r hr with h | h
    · exact Nat.lt_of_lt_of_le (hI.known g r h) hm.ids
    · exact h.2.2
  · rcases hold g r hr with h | ⟨rfl, h, -⟩
    · rcases hold g' r hr' with h' | ⟨-, h', -⟩
      · exact hI.apart g g' r h h'
      · exact absurd (hI.known g r h) (Nat.not_lt_of_le h')
    · rcases hold g' r hr' with h' | ⟨rfl, -⟩
      · exact absurd (hI.known g' r h') (Nat.not_lt_of_le h)
      · rfl
  · by_cases hgf : g = f
    · subst hgf
      exact hrecorded hg
    · exact hm.recorded g (hI.recorded g ((hm.advanced g hgf).1 hg))
  · by_cases hji : j = i
    · subst hji
      rw [hown] at hj ⊢
      obtain ⟨rfl, ht⟩ := hfire g hj
      exact ht
    · rw [hother j hji] at hj ⊢
      have hgf : g ≠ f := by
        rintro rfl
        exact hnot j hji hj
      exact hframe g hgf _ (hI.held j g hj)
  · by_cases hji : j = i
    · by_cases hki : k = i
      · rw [hji, hki]
      · rw [hji, hown] at hj
        rw [hother k hki, (hfire g hj).1] at hk
        exact absurd hk (hnot k hki)
    · by_cases hki : k = i
      · rw [hki, hown] at hk
        rw [hother j hji, (hfire g hk).1] at hj
        exact absurd hj (hnot j hji)
      · rw [hother j hji] at hj
        rw [hother k hki] at hk
        exact hI.single j k g hj hk
  · by_cases hgf : g = f
    · subst hgf
      rcases hafter with ⟨hc, -⟩ | ⟨-, hr⟩
      · exact absurd hc (hown ▸ hg i)
      · exact hr
    · have hbefore : ∀ j, (s.pc j).fire ≠ some g := by
        intro j hj
        by_cases hji : j = i
        · subst hji
          rcases hm.own with ho | ho
          · cases ho.symm.trans hj
          · exact hgf (Option.some.inj (hj.symm.trans ho))
        · exact hg j (hother j hji ▸ hj)
      rcases hI.rests g hbefore with h | ⟨r, h⟩
      · exact .inl (hframe g hgf _ h)
      · exact .inr ⟨r, hframe g hgf _ h⟩

/-- A step that is about no fire, or leaves it at its stage. -/
theorem inv_same (hI : Inv s) (hpc : ∀ j, (s'.pc j).fire = (s.pc j).fire ∧ (s'.pc j).stage = (s.pc j).stage)
    (hids : s'.nextId = s.nextId) (hcounts : ∀ r, s'.counts r = s.counts r) (hmade : s'.made = s.made)
    (hadvanced : s'.advanced = s.advanced) (hrecorded : s'.db.scheduleRuns = s.db.scheduleRuns) : Inv s' := by
  have hframe : ∀ g, ∀ t : Stage, t.Fits s g → t.Fits s' g := fun g t ht =>
    ht.congr (by rw [hadvanced]) (by rw [hmade]) fun r _ => hcounts r
  refine ⟨fun r hr => ?_, fun f r hr => ?_, fun f g r hr hr' => ?_, fun f hf => ?_, fun j f hj => ?_,
    fun j k f hj hk => ?_, fun f hf => ?_⟩
  · rw [hcounts]
    exact hI.new r (hids ▸ hr)
  · rw [hids]
    exact hI.known f r (hmade ▸ hr)
  · rw [hmade] at hr hr'
    exact hI.apart f g r hr hr'
  · rw [Db.scheduleRun, hrecorded]
    exact hI.recorded f (hadvanced ▸ hf)
  · rw [(hpc j).2]
    exact hframe f _ (hI.held j f ((hpc j).1 ▸ hj))
  · exact hI.single j k f ((hpc j).1 ▸ hj) ((hpc k).1 ▸ hk)
  · have hbefore : ∀ j, (s.pc j).fire ≠ some f := fun j => (hpc j).1 ▸ hf j
    rcases hI.rests f hbefore with h | ⟨r, h⟩
    · exact .inl (hframe f _ h)
    · exact .inr ⟨r, hframe f _ h⟩

theorem inv_setPc (hI : Inv s) (hfire : c.fire = (s.pc i).fire) (hstage : c.stage = (s.pc i).stage) :
    Inv (s.setPc i c) := by
  have hpc : ∀ j, ((s.setPc i c).pc j).fire = (s.pc j).fire ∧ ((s.setPc i c).pc j).stage = (s.pc j).stage :=
    (Function.forall_update_iff s.pc fun j c => c.fire = (s.pc j).fire ∧ c.stage = (s.pc j).stage).2
      ⟨⟨hfire, hstage⟩, fun _ _ => ⟨rfl, rfl⟩⟩
  exact inv_same hI hpc rfl (fun _ => rfl) rfl rfl rfl

/-! ### The steps of a tick -/

theorem advanced_of_fire (hI : Inv s) (h : (s.pc i).fire = some f) : f ∈ s.advanced := by
  have hheld := hI.held i f h
  cases hpc : s.pc i with
  | idle | claim _ =>
    rw [hpc] at h
    cases h
  | _ =>
    rw [hpc] at hheld
    exact hheld.1

theorem counts_mk (s : State κ τ ι) (r : Nat) : s.counts r =
    ((s.db.workflowRuns.countP fun x => x.id = r), (s.db.tasks.countP fun t => t.id = r), s.queue.count r) := rfl

/-- A claim of a fire that is not recorded. -/
theorem inv_claim (hI : Inv s) (hpc : (s.pc i).fire = none) (hnew : s.db.scheduleRun f = none)
    (hc : Claimed s.db db' s.nextId f) (hfire : c.fire = some f) (hstage : c.stage = .claimed) :
    Inv ({ s.setPc i c with db := db', nextId := s.nextId + 1, advanced := f :: s.advanced } : State κ τ ι) := by
  have hnot : f ∉ s.advanced := fun hf => hI.recorded f hf hnew
  have hnone : ∀ j, (s.pc j).fire ≠ some f := fun j hj => hnot (advanced_of_fire hI hj)
  have hmade : s.made f = [] := by
    rcases hI.rests f hnone with h | ⟨r, h⟩
    · exact h.2
    · exact absurd h.1 hnot
  have hcounts : ∀ r, r ≠ s.nextId →
      State.counts ({ s.setPc i c with db := db', nextId := s.nextId + 1, advanced := f :: s.advanced } : State κ τ ι) r
        = s.counts r := by
    intro r hr
    rw [counts_mk, counts_mk]
    dsimp only [State.setPc]
    rw [hc.runs, hc.tasks r hr]
  refine inv_of (f := f) (c := c) (i := i) hI ⟨rfl, Nat.le_succ _, fun r hr => ?_, fun _ _ => rfl, fun r hr => .inl hr,
    fun g hg => ?_, fun g hg => scheduleRun_ne_none_of_prefix hc.others hg, fun g _ r hr => ?_,
    fun j hj => absurd hj (hnone j), .inl hpc⟩ (fun _ => hc.recorded) (.inl ⟨hfire, ?_⟩)
  · rw [hcounts r (Nat.ne_of_gt hr)]
    exact hI.new r (Nat.le_of_succ_le hr)
  · rw [List.mem_cons]
    exact or_iff_right hg
  · exact hcounts r (Nat.ne_of_lt (hI.known g r hr))
  · rw [hstage]
    exact ⟨List.mem_cons_self, hmade⟩

/-- The run of a fire is inserted. -/
theorem inv_createRun (hI : Inv s) (hpc : (s.pc i).fire = some f) (hstage : (s.pc i).stage = .claimed)
    {x : WorkflowRun} (hx : x.id = s.nextId) (hruns : db'.workflowRuns = s.db.workflowRuns ++ [x])
    (htasks : db'.tasks = s.db.tasks) (hrows : db'.scheduleRuns = s.db.scheduleRuns) (hfire : c.fire = some f)
    (hcreated : c.stage = .created s.nextId) :
    Inv ({ s.setPc i c with
      db := db', nextId := s.nextId + 1
      made := Function.update s.made f (s.made f ++ [s.nextId]) } : State κ τ ι) := by
  have hheld := hI.held i f hpc
  rw [hstage] at hheld
  have hmade : Function.update s.made f (s.made f ++ [s.nextId]) f = [s.nextId] := by
    rw [Function.update_self, hheld.2, List.nil_append]
  have hcounts : ∀ r, ((db'.workflowRuns.countP fun x => x.id = r), (db'.tasks.countP fun t => t.id = r), s.queue.count r)
      = if r = s.nextId then (1, 0, 0) else s.counts r := by
    intro r
    rw [hruns, htasks, List.countP_append, List.countP_singleton, hx]
    by_cases hr : r = s.nextId
    · have hzero := hI.new r (Nat.le_of_eq hr.symm)
      rw [counts_mk, Prod.mk.injEq, Prod.mk.injEq] at hzero
      rw [hzero.1, hzero.2.1, hzero.2.2, if_pos (decide_eq_true hr.symm), if_pos hr]
    · rw [if_neg fun he => hr (of_decide_eq_true he).symm, if_neg hr]
      rfl
  refine inv_of (f := f) (c := c) (i := i) hI ⟨rfl, Nat.le_succ _, fun r hr => ?_, fun g hg => ?_, fun r hr => ?_,
    fun _ _ => .rfl, fun g hg => ?_, fun g _ r hr => ?_, fun j hj => hI.single j i f hj hpc, .inr hpc⟩ (fun _ => ?_)
    (.inl ⟨hfire, ?_⟩)
  · refine (hcounts r).trans ?_
    rw [if_neg (Nat.ne_of_gt hr)]
    exact hI.new r (Nat.le_of_succ_le hr)
  · exact Function.update_of_ne hg ..
  · dsimp only at hr
    rw [hmade, List.mem_singleton] at hr
    subst hr
    exact .inr ⟨Nat.le_refl _, Nat.lt_succ_self _⟩
  · rwa [Db.scheduleRun, hrows]
  · refine (hcounts r).trans (if_neg ?_)
    exact Nat.ne_of_lt (hI.known g r hr)
  · rw [Db.scheduleRun, hrows]
    exact hI.recorded f hheld.1
  · rw [hcreated]
    exact ⟨hheld.1, hmade, (hcounts s.nextId).trans (if_pos rfl)⟩

/-- The task or the message of a run is added, which makes `n` of its counts. -/
theorem inv_advance (hI : Inv s) (hpc : (s.pc i).fire = some f) (hmade : s.made f = [r]) (hadvanced : f ∈ s.advanced)
    {n : Nat × Nat × Nat} (hpc' : s'.pc = Function.update s.pc i c) (hids : s'.nextId = s.nextId)
    (hmade' : s'.made = s.made) (hadvanced' : s'.advanced = s.advanced)
    (hrows : s'.db.scheduleRuns = s.db.scheduleRuns) (hcounts : ∀ q, s'.counts q = if q = r then n else s.counts q)
    (hafter : c.fire = some f ∧ c.stage.Fits s' f ∨ c.fire = none ∧ Rests s' f) : Inv s' := by
  have hr : r ∈ s.made f := hmade ▸ List.mem_singleton_self r
  refine inv_of (f := f) (c := c) (i := i) hI ⟨hpc', Nat.le_of_eq hids.symm, fun q hq => ?_, fun g _ => by rw [hmade'],
    fun q hq => .inl (hmade' ▸ hq), fun g _ => by rw [hadvanced'], fun g hg => ?_, fun g hg q hq => ?_,
    fun j hj => hI.single j i f hj hpc, .inr hpc⟩ (fun _ => ?_) hafter
  · rw [hids] at hq
    rw [hcounts, if_neg]
    · exact hI.new q hq
    · exact Nat.ne_of_gt (Nat.lt_of_lt_of_le (hI.known f r hr) hq)
  · rwa [Db.scheduleRun, hrows]
  · rw [hcounts, if_neg]
    rintro rfl
    exact hg (hI.apart g f q hq hr)
  · rw [Db.scheduleRun, hrows]
    exact hI.recorded f hadvanced

theorem inv_run (hI : Inv s) (hsafe : Safe C s (.run i)) (h : run C s i = some s') : Inv s' := by
  cases hpc : s.pc i with
  | idle =>
    simp only [run, hpc] at h
    cases h
  | claim todo =>
    cases todo with
    | nil =>
      simp only [run, hpc] at h
      cases h
      exact inv_setPc hI (by rw [hpc]; rfl) (by rw [hpc]; rfl)
    | cons c todo =>
      simp only [run, hpc] at h
      cases hdue : c.nextRunAt with
      | none =>
        rw [hdue] at h
        cases h
        exact inv_setPc hI (by rw [hpc]; rfl) (by rw [hpc]; rfl)
      | some due =>
        rw [hdue] at h
        dsimp only at h
        simp only [Safe, hpc] at hsafe
        split at h
        · cases h
        · cases h
          exact inv_setPc hI (by rw [hpc]; rfl) (by rw [hpc]; rfl)
        · next x db hclaim =>
          cases h
          obtain ⟨hfire, hrow, hclaimed⟩ := claimed_of_claim hclaim
          have hnew : s.db.scheduleRun x.fire = none := hfire ▸ hsafe due hdue hrow
          exact inv_claim hI (by rw [hpc]; rfl) hnew hclaimed rfl rfl
  | requireSaved c f todo =>
    simp only [run, hpc] at h
    obtain ⟨w, -, rfl⟩ := Option.map_eq_some_iff.1 h
    exact inv_setPc hI (by rw [hpc]; rfl) (by rw [hpc]; rfl)
  | createRun c f w todo =>
    simp only [run, hpc] at h
    obtain ⟨db, hdb, rfl⟩ := Option.map_eq_some_iff.1 h
    obtain ⟨_, -, rfl⟩ := Option.map_eq_some_iff.1 hdb
    exact inv_createRun hI (by rw [hpc]; rfl) (by rw [hpc]; rfl) rfl rfl rfl rfl rfl rfl
  | createTask c f r todo =>
    simp only [run, hpc] at h
    obtain ⟨db, hdb, rfl⟩ := Option.map_eq_some_iff.1 h
    obtain ⟨_, -, rfl⟩ := Option.map_eq_some_iff.1 hdb
    have hheld := hI.held i f (by rw [hpc]; rfl)
    rw [hpc] at hheld
    obtain ⟨hadvanced, hmade, hcounts⟩ := hheld
    rw [counts_mk, Prod.mk.injEq, Prod.mk.injEq] at hcounts
    refine inv_advance (f := f) (r := r) (n := (1, 1, 0)) (c := .enqueue f r todo) hI (by rw [hpc]; rfl) hmade hadvanced
      rfl rfl rfl rfl rfl (fun q => ?_) (.inl ⟨rfl, hadvanced, hmade, ?_⟩)
    · rw [counts_mk, counts_mk]
      dsimp only [State.setPc]
      rw [List.countP_append, List.countP_singleton]
      by_cases hq : q = r
      · rw [if_pos (decide_eq_true hq.symm), if_pos hq, hq, hcounts.1, hcounts.2.1, hcounts.2.2]
      · rw [if_neg fun he => hq (of_decide_eq_true he).symm, if_neg hq]
        rfl
    · rw [counts_mk]
      dsimp only [State.setPc]
      rw [List.countP_append, List.countP_singleton, if_pos (decide_eq_true rfl), hcounts.1, hcounts.2.1, hcounts.2.2]
  | enqueue f r todo =>
    simp only [run, hpc] at h
    cases h
    have hheld := hI.held i f (by rw [hpc]; rfl)
    rw [hpc] at hheld
    obtain ⟨hadvanced, hmade, hcounts⟩ := hheld
    rw [counts_mk, Prod.mk.injEq, Prod.mk.injEq] at hcounts
    have hsent : (s.queue ++ [r]).count r = 1 := by
      rw [List.count_append, List.count_singleton_self, hcounts.2.2]
    refine inv_advance (f := f) (r := r) (n := (1, 1, 1)) (c := .claim todo) hI (by rw [hpc]; rfl) hmade hadvanced
      rfl rfl rfl rfl rfl (fun q => ?_) (.inr ⟨rfl, .inr ⟨r, hadvanced, hmade, ?_⟩⟩)
    · rw [counts_mk, counts_mk]
      dsimp only [State.setPc]
      by_cases hq : q = r
      · rw [if_pos hq, hq, hsent, hcounts.1, hcounts.2.1]
      · rw [if_neg hq, List.count_append, List.count_singleton, if_neg fun he => hq (beq_iff_eq.1 he).symm]
        rfl
    · rw [counts_mk]
      dsimp only [State.setPc]
      rw [hsent, hcounts.1, hcounts.2.1]

theorem inv_step {a : Action κ τ ι} (hI : Inv s) (hsafe : Safe C s a) (h : step C s a = some s') : Inv s' := by
  cases a with
  | tick i now batchSize =>
    simp only [step] at h
    split at h
    · next hpc =>
      obtain ⟨-, h⟩ := Option.ite_none_right_eq_some.1 h
      cases h
      exact inv_setPc hI (by rw [hpc]; rfl) (by rw [hpc]; rfl)
    · cases h
  | run i => exact inv_run hI hsafe h
  | locked i =>
    simp only [step] at h
    split at h
    · next hpc =>
      cases h
      exact inv_setPc hI (by rw [hpc]; rfl) (by rw [hpc]; rfl)
    · cases h
  | fail i =>
    simp only [step, Safe] at h hsafe
    have hstage : (s.pc i).stage = .unclaimed := by
      cases hpc : s.pc i with
      | idle | claim _ => rfl
      | _ =>
        rw [hpc] at hsafe
        cases hsafe
    split at h
    · cases h
    · cases h
      exact inv_setPc hI hsafe.symm hstage.symm
  | edit workflows schedules =>
    cases h
    exact inv_same hI (fun _ => ⟨rfl, rfl⟩) rfl (fun _ => rfl) rfl rfl rfl

theorem inv_reach (h : (ticks C).Reach (Safe C) s) : Inv s := by
  refine h.induct (fun s hs => ?_) fun _ _ _ hI hsafe hstep => inv_step hI hsafe hstep
  refine ⟨hs.counts, fun f r hr => ?_, fun f g r hr => ?_, fun f hf => ?_, fun i f hf => ?_, fun i j f hf => ?_,
    fun f _ => .inl ⟨?_, hs.made f⟩⟩
  · rw [hs.made] at hr
    cases hr
  · rw [hs.made] at hr
    cases hr
  · rw [hs.advanced] at hf
    cases hf
  · rw [hs.pc] at hf
    cases hf
  · rw [hs.pc] at hf
    cases hf
  · rw [hs.advanced]
    exact List.not_mem_nil

/-! ### When every fire is delivered once -/

theorem law_of_inv (hI : Inv s) : Law s := by
  constructor
  · intro f
    by_cases hf : ∀ i, (s.pc i).fire ≠ some f
    · rcases hI.rests f hf with h | ⟨r, h⟩
      · rw [h.2]
        exact Nat.zero_le 1
      · rw [h.2.1]
        exact Nat.le_refl 1
    · obtain ⟨i, hi⟩ := not_forall_not.1 hf
      have hheld := hI.held i f hi
      cases ht : (s.pc i).stage with
      | unclaimed | claimed =>
        rw [ht] at hheld
        rw [hheld.2]
        exact Nat.zero_le 1
      | _ =>
        rw [ht] at hheld
        rw [hheld.2.1]
        exact Nat.le_refl 1
  · intro f hf hnone
    rcases hI.rests f hnone with h | ⟨r, h⟩
    · exact absurd hf h.1
    · exact ⟨r, h.2⟩

/-- In every run under the condition a fire gets at most one run, and an advanced fire that no worker is at has exactly
one run with one task and one message. -/
theorem delivered_once_of_safe (h : (ticks C).Reach (Safe C) s) : Law s := law_of_inv (inv_reach h)

/-- A worker that fails at a fire leaves it undelivered, with nobody at it. -/
theorem lost_of_fail (hI : Inv s) (hf : (s.pc i).fire = some f) (h : step C s (.fail i) = some s') :
    f ∈ s'.advanced ∧ (∀ j, (s'.pc j).fire ≠ some f) ∧ ¬ s'.Delivered f := by
  have hs' : s' = s.setPc i .idle := by
    simp only [step] at h
    split at h
    · cases h
    · exact (Option.some.inj h).symm
  have hheld := hI.held i f hf
  have hadvanced := advanced_of_fire hI hf
  subst hs'
  refine ⟨hadvanced, ?_, ?_⟩
  · have hidle : (Pc.idle : Pc κ τ).fire ≠ some f := by
      intro hn
      cases hn
    refine (Function.forall_update_iff s.pc fun _ c => c.fire ≠ some f).2 ⟨hidle, fun j hj hjf => ?_⟩
    exact hj (hI.single j i f hjf hf)
  · rintro ⟨r, hmade, hcounts⟩
    have hmade : s.made f = [r] := hmade
    have hcounts : s.counts r = (1, 1, 1) := hcounts
    cases ht : (s.pc i).stage with
    | unclaimed | claimed =>
      rw [ht] at hheld
      cases hheld.2.symm.trans hmade
    | created q | tasked q =>
      rw [ht] at hheld
      cases hheld.2.1.symm.trans hmade
      cases hheld.2.2.symm.trans hcounts
    | delivered q =>
      cases hpc : s.pc i with
      | _ =>
        rw [hpc] at ht
        cases ht

end Proofs

/-! ### A worker that fails between the claim and the message -/

/-- A schedule of a saved workflow that is due at the instant 60. -/
def dueDb : Db Unit Nat :=
  ⟨[⟨"w", 1, true, ["n"]⟩], [⟨"s", "w", "* * * * *", "UTC", true, [], some 60⟩], [], [], []⟩

def everyMinute : Cron Nat := ⟨fun _ _ t => some (t + 60), fun t => toString t⟩

def dueState : State Unit Nat Unit := ⟨dueDb, [], 0, fun _ => .idle, [], fun _ => []⟩

def dueFire : Fire := ⟨"s", everyMinute.triggerKey "s" 60⟩

theorem initial_dueState : Initial dueState := ⟨fun _ => rfl, rfl, fun _ => rfl, fun _ _ => rfl⟩

/-- A tick under the condition delivers the fire, and a tick at the same minute finds it claimed. -/
theorem delivered_once_of_two_ticks : ∃ s : State Unit Nat Unit, (ticks everyMinute).Reach (Safe everyMinute) s ∧
    dueFire ∈ s.advanced ∧ s.made dueFire = [1] ∧ s.queue = [1] ∧ Law s := by
  obtain ⟨s, -, hreach, hend⟩ := Machine.reach_of_exec (M := ticks everyMinute) (C := Safe everyMinute) (s := dueState)
    (p := fun s => dueFire ∈ s.advanced ∧ s.made dueFire = [1] ∧ s.queue = [1])
    [.tick () 60 10, .run (), .run (), .run (), .run (), .run (), .run (), .tick () 60 10, .run ()]
    initial_dueState (by decide)
  obtain ⟨hadvanced, hmade, hqueue⟩ := of_decide_eq_true hend
  exact ⟨s, hreach, hadvanced, hmade, hqueue, delivered_once_of_safe hreach⟩

/-- The worker fails after its claim: `next_run_at` is advanced, nobody is at the fire, and there is no run of it. -/
theorem fire_lost_after_claim : ∃ s : State Unit Nat Unit, (ticks everyMinute).Reach Free s ∧ ¬ Law s := by
  obtain ⟨s, -, hreach, hend⟩ := Machine.reach_of_exec (M := ticks everyMinute) (C := Free) (s := dueState)
    (p := fun s => dueFire ∈ s.advanced ∧ (s.pc ()).fire = none ∧ s.made dueFire = [])
    [.tick () 60 10, .run (), .fail ()] initial_dueState (by decide)
  obtain ⟨hadvanced, hpc, hmade⟩ := of_decide_eq_true hend
  refine ⟨s, hreach, fun hlaw => ?_⟩
  obtain ⟨r, hr, -⟩ := hlaw.delivered dueFire hadvanced fun i hi => by
    cases hpc.symm.trans hi
  cases hmade.symm.trans hr

end NexusStudio.ScheduleTick
