import Mathlib
import NexusStudio.Workshop.Schedules
import NexusStudio.Lib.Machine

/-!
# Triggers of a schedule

`trigger_schedule` by any number of callers: every read, transaction and message of a call is one step, and may fail.

* (fire) The fire of a key is recorded once: who finds it or loses the insert to another call loads the recorded one.
* (run) Every call goes on with the fire it got and creates a run with a task and a message.
* (law) All calls with one key return the same fire, run and task, and calls with different keys return different ones.
* (defect) Nothing looks for the run of a fire that was there already: the second call with a key creates another one.
* (condition) `Safe`: no call creates a run for a fire that has one.
-/

set_option linter.unusedSectionVars false

namespace NexusStudio.ScheduleTriggers

open Concurrent Schedules

/-! ### The machine -/

/-- `MANUAL_TRIGGER_KEY_PREFIX`. -/
def manualTriggerKeyPrefix : String := "manual:"

/-- `_namespace_manual_trigger_key`. -/
def namespaceManualTriggerKey (triggerKey : String) : Except String String :=
  let key := strip triggerKey
  if key = "" then .error "trigger_key required"
  else if manualTriggerKeyPrefix.toList.isPrefixOf key.toList then
    .error "trigger_key must not include manual: prefix; service namespaces it"
  else .ok (manualTriggerKeyPrefix ++ key)

/-- The arguments of `trigger_schedule`. -/
structure Call where
  scheduleId : String
  triggerKey : String
  deriving DecidableEq, Repr

/-- What the call is to record. -/
def Call.fire (c : Call) : Except String Fire :=
  (namespaceManualTriggerKey c.triggerKey).map fun key => ⟨c.scheduleId, key⟩

/-- A call with the fire that it got. -/
structure Bundle where
  call : Call
  row : ScheduleRun
  deriving DecidableEq, Repr

/-- What a call returns: the fire with its task, and the run. -/
structure TriggerResult where
  bundle : Bundle
  workflowRun : Nat
  deriving DecidableEq, Repr

/-- Where a caller is in `trigger_schedule`. -/
inductive Pc (κ τ : Type)
  | idle
  -- `trigger_schedule_run`: the look for the fire, the insert, and the look after a conflict
  | trigger (c : Call) (f : Fire)
  | insert (c : Call) (f : Fire) (schedule : Schedule κ τ)
  | reload (c : Call) (f : Fire)
  | getSchedule (b : Bundle)
  | requireSaved (b : Bundle) (schedule : Schedule κ τ)
  | createRun (b : Bundle) (schedule : Schedule κ τ) (workflow : Workflow)
  | createTask (b : Bundle) (schedule : Schedule κ τ) (workflow : Workflow) (run : Nat)
  | enqueue (b : Bundle) (run : Nat)
  deriving DecidableEq

structure State (κ τ ι : Type) where
  db : Db κ τ
  -- the runs that messages are sent for
  queue : List Nat
  nextId : Nat
  pc : ι → Pc κ τ
  -- the runs that were created, each with its fire, and what the calls returned
  made : List (Fire × Nat)
  results : List TriggerResult

inductive Action (κ τ ι : Type)
  | call (i : ι) (c : Call)
  -- the statement under way returns
  | run (i : ι)
  -- the statement under way raises, or the caller crashes
  | fail (i : ι)
  | edit (workflows : List Workflow) (schedules : List (Schedule κ τ))

section Model

variable {κ τ ι : Type} [DecidableEq ι]

def State.setPc (s : State κ τ ι) (i : ι) (c : Pc κ τ) : State κ τ ι := { s with pc := Function.update s.pc i c }

/-- The statement under way returns, `none` where it raises. -/
def run (s : State κ τ ι) (i : ι) : Option (State κ τ ι) :=
  match s.pc i with
  | .idle => none
  | .trigger c f =>
    match s.db.scheduleRun f with
    | some r => (s.db.loadTriggerBundle r).map fun r => s.setPc i (.getSchedule ⟨c, r⟩)
    | none => ((s.db.getSchedule f.scheduleId).filter Schedule.enabled).map fun c' => s.setPc i (.insert c f c')
  | .insert c f schedule =>
    (s.db.insertScheduleTrigger schedule f.triggerKey s.nextId).map fun (r, db) =>
      -- the unique key of the table
      if (s.db.scheduleRun f).isSome then s.setPc i (.reload c f)
      else { s.setPc i (.getSchedule ⟨c, r⟩) with db, nextId := s.nextId + 1 }
  | .reload c f => ((s.db.scheduleRun f).bind s.db.loadTriggerBundle).map fun r => s.setPc i (.getSchedule ⟨c, r⟩)
  | .getSchedule b => (s.db.getSchedule b.call.scheduleId).map fun c => s.setPc i (.requireSaved b c)
  | .requireSaved b c => (s.db.requireSaved c.workflowId).map fun w => s.setPc i (.createRun b c w)
  | .createRun b c w =>
    (s.db.createWorkflowRun ⟨s.nextId, w.id, w.revision, some b.call.scheduleId, .schedule, .queued, none, 1⟩).map
      fun db => { s.setPc i (.createTask b c w s.nextId) with
        db, nextId := s.nextId + 1, made := s.made ++ [(b.row.fire, s.nextId)] }
  | .createTask b c w r =>
    (s.db.createExecutingTask w.id r c.authorizedExternalCapabilities).map fun db =>
      { s.setPc i (.enqueue b r) with db }
  | .enqueue b r => some { s.setPc i .idle with queue := s.queue ++ [r], results := s.results ++ [⟨b, r⟩] }

def step (s : State κ τ ι) : Action κ τ ι → Option (State κ τ ι)
  | .call i c =>
    match s.pc i with
    | .idle => c.fire.toOption.map fun f => s.setPc i (.trigger c f)
    | _ => none
  | .run i => run s i
  | .fail i =>
    match s.pc i with
    | .idle => none
    | _ => some (s.setPc i .idle)
  | .edit workflows schedules => some { s with db := { s.db with workflows, schedules } }

/-- How many runs, tasks and messages there are of an id. -/
def State.counts (s : State κ τ ι) (r : Nat) : Nat × Nat × Nat :=
  (s.db.workflowRuns.countP fun x => x.id = r, s.db.tasks.countP fun t => t.id = r, s.queue.count r)

/-- The recorded fires are different, and each has a task of its own. -/
structure Recorded (s : State κ τ ι) : Prop where
  fires : (s.db.scheduleRuns.map ScheduleRun.fire).Nodup
  tasks : (s.db.scheduleRuns.map ScheduleRun.taskId).Nodup
  task : ∀ r ∈ s.db.scheduleRuns, s.counts r.taskId = (0, 1, 0)

/-- Callers with any workflows, schedules, runs, tasks and fires, before the first call. -/
structure Initial (s : State κ τ ι) : Prop where
  pc : ∀ i, s.pc i = .idle
  made : s.made = []
  results : s.results = []
  recorded : Recorded s
  counts : ∀ r, s.nextId ≤ r → s.counts r = (0, 0, 0)

def triggers : Machine (State κ τ ι) (Action κ τ ι) where
  init := Initial
  step := step

/-! ### The law and its condition -/

def TriggerResult.Same (x y : TriggerResult) : Prop := x.bundle.row = y.bundle.row ∧ x.workflowRun = y.workflowRun

/-- Another fire with another task, and another run. -/
def TriggerResult.Apart (x y : TriggerResult) : Prop :=
  x.bundle.row.fire ≠ y.bundle.row.fire ∧ x.bundle.row.taskId ≠ y.bundle.row.taskId ∧ x.workflowRun ≠ y.workflowRun

/-- The fire of a result is recorded once, with one task, and its run is there once, with one task and one message. -/
structure Single (s : State κ τ ι) (x : TriggerResult) : Prop where
  fire : s.db.scheduleRuns.filter (fun r => r.fire = x.bundle.row.fire) = [x.bundle.row]
  task : s.counts x.bundle.row.taskId = (0, 1, 0)
  run : s.counts x.workflowRun = (1, 1, 1)

structure Law (s : State κ τ ι) : Prop where
  -- no fire gets a second run
  once : (s.made.map Prod.fst).Nodup
  results : s.results.Pairwise fun x y =>
    (x.bundle.call = y.bundle.call → x.Same y) ∧ (x.bundle.call ≠ y.bundle.call → x.Apart y)
  single : ∀ x ∈ s.results, Single s x

/-- No call creates a run for a fire that has one. -/
def Safe (s : State κ τ ι) : Action κ τ ι → Prop
  | .run i =>
    match s.pc i with
    | .createRun b _ _ => b.row.fire ∉ s.made.map Prod.fst
    | _ => True
  | _ => True

instance (s : State κ τ ι) (a : Action κ τ ι) : Decidable (Safe s a) := by
  unfold Safe
  repeat' split
  all_goals infer_instance

end Model

/-! ### The invariant -/

section Proofs

variable {κ τ ι : Type} [DecidableEq ι] {s s' : State κ τ ι} {i : ι} {c : Pc κ τ} {b : Bundle} {r : Nat}

/-- The bundle is of its call, and its fire is recorded. -/
def Bundle.Fits (db : Db κ τ) (b : Bundle) : Prop := b.row ∈ db.scheduleRuns ∧ b.call.fire = .ok b.row.fire

def Pc.Fits (db : Db κ τ) : Pc κ τ → Prop
  | idle => True
  | trigger c f | reload c f => c.fire = .ok f
  | insert c f schedule => c.fire = .ok f ∧ schedule.id = f.scheduleId
  | getSchedule b | requireSaved b _ | createRun b _ _ | createTask b _ _ _ | enqueue b _ => b.Fits db

/-- The run that a caller has created, with its fire and what there is of it so far. -/
def Pc.holds : Pc κ τ → Option (Fire × Nat × Nat × Nat × Nat)
  | createTask b _ _ r => some (b.row.fire, r, 1, 0, 0)
  | enqueue b r => some (b.row.fire, r, 1, 1, 0)
  | _ => none

structure Inv (s : State κ τ ι) : Prop where
  recorded : Recorded s
  new : ∀ r, s.nextId ≤ r → s.counts r = (0, 0, 0)
  ids : (s.made.map Prod.snd).Nodup
  known : ∀ m ∈ s.made, m.2 < s.nextId
  fits : ∀ i, (s.pc i).Fits s.db
  held : ∀ i f r n, (s.pc i).holds = some (f, r, n) → (f, r) ∈ s.made ∧ s.counts r = n
  apart : ∀ i j f g r n m, (s.pc i).holds = some (f, r, n) → (s.pc j).holds = some (g, r, m) → i = j
  results : ∀ x ∈ s.results, x.bundle.Fits s.db ∧ (x.bundle.row.fire, x.workflowRun) ∈ s.made ∧
    s.counts x.workflowRun = (1, 1, 1)
  resultIds : (s.results.map TriggerResult.workflowRun).Nodup

theorem fits_congr {db db' : Db κ τ} (hrows : db.scheduleRuns ⊆ db'.scheduleRuns) (h : c.Fits db) : c.Fits db' := by
  cases c with
  | idle | trigger _ _ | reload _ _ | insert _ _ _ => exact h
  | _ => exact ⟨hrows h.1, h.2⟩

theorem forall_setPc {P : ι → Pc κ τ → Prop} (hc : P i c) (h : ∀ j, P j (s.pc j)) :
    ∀ j, P j (Function.update s.pc i c j) := by
  intro j
  by_cases hj : j = i
  · subst hj
    rwa [Function.update_self]
  · rw [Function.update_of_ne hj]
    exact h j

/-- A step that only reads. -/
theorem inv_setPc (hI : Inv s) (hfits : c.Fits s.db) (hholds : c.holds = none) : Inv (s.setPc i c) := by
  have hold : ∀ j x, (Function.update s.pc i c j).holds = some x → (s.pc j).holds = some x := by
    intro j x hx
    by_cases hj : j = i
    · subst hj
      rw [Function.update_self, hholds] at hx
      cases hx
    · rwa [Function.update_of_ne hj] at hx
  exact { hI with
    recorded := ⟨hI.recorded.1, hI.recorded.2, hI.recorded.3⟩
    fits := forall_setPc hfits hI.fits
    held := fun j f r n h => hI.held j f r n (hold j _ h)
    apart := fun j k f g r n m h h' => hI.apart j k f g r n m (hold j _ h) (hold k _ h') }

theorem counts_mk (s : State κ τ ι) (r : Nat) : s.counts r =
    ((s.db.workflowRuns.countP fun x => x.id = r), (s.db.tasks.countP fun t => t.id = r), s.queue.count r) := rfl

/-- Ids that are in use are below the next one. -/
theorem lt_of_counts (hI : Inv s) (h : s.counts r ≠ (0, 0, 0)) : r < s.nextId := by
  by_contra hr
  exact h (hI.new r (not_lt.1 hr))

theorem holds_counts {f : Fire} {n : Nat × Nat × Nat} (h : c.holds = some (f, r, n)) : n.1 = 1 ∧ n.2.2 = 0 := by
  cases c with
  | createTask _ _ _ _ | enqueue _ _ =>
    cases h
    exact ⟨rfl, rfl⟩
  | _ => cases h

/-- A new id, or the one that the caller holds. -/
def Own (s : State κ τ ι) (i : ι) (r : Nat) : Prop := s.nextId ≤ r ∨ ∃ f n, (s.pc i).holds = some (f, r, n)

/-- The id is no other one's. -/
structure Unused (s : State κ τ ι) (i : ι) (r : Nat) : Prop where
  rows : ∀ x ∈ s.db.scheduleRuns, x.taskId ≠ r
  results : ∀ x ∈ s.results, x.workflowRun ≠ r
  others : ∀ j, j ≠ i → ∀ f q n, (s.pc j).holds = some (f, q, n) → q ≠ r

theorem unused_of_own (hI : Inv s) (h : Own s i r) : Unused s i r := by
  rcases h with hr | ⟨f, n, hheld⟩
  · have hused : ∀ q, s.counts q ≠ (0, 0, 0) → q ≠ r := fun q hq =>
      Nat.ne_of_lt (Nat.lt_of_lt_of_le (lt_of_counts hI hq) hr)
    refine ⟨fun x hx => hused _ ?_, fun x hx => hused _ ?_, fun j _ g q n hq => hused _ ?_⟩
    · rw [hI.recorded.task x hx]
      decide
    · rw [(hI.results x hx).2.2]
      decide
    · rw [(hI.held j g q n hq).2]
      rintro rfl
      cases (holds_counts hq).1
  · obtain ⟨hone, hzero⟩ := holds_counts hheld
    have hcounts := (hI.held i f r n hheld).2
    refine ⟨fun x hx hxr => ?_, fun x hx hxr => ?_, fun j hj g q m hq hqr => ?_⟩
    · rw [← hcounts, ← hxr, hI.recorded.task x hx] at hone
      cases hone
    · rw [← hcounts, ← hxr, (hI.results x hx).2.2] at hzero
      cases hzero
    · rw [hqr] at hq
      exact hj (hI.apart j i g f r m n hq hheld)

/-- A step of `i` to `c` that changes the counts of one id. -/
structure Moves (s s' : State κ τ ι) (i : ι) (c : Pc κ τ) (r : Nat) (n : Nat × Nat × Nat) : Prop where
  pc : s'.pc = Function.update s.pc i c
  own : Own s i r
  counts : ∀ q, s'.counts q = if q = r then n else s.counts q
  rows : s.db.scheduleRuns ⊆ s'.db.scheduleRuns
  made : s.made ⊆ s'.made
  fits : c.Fits s'.db
  held : ∀ f q m, c.holds = some (f, q, m) → q = r ∧ m = n ∧ (f, r) ∈ s'.made

theorem inv_of {n : Nat × Nat × Nat} (hI : Inv s) (hm : Moves s s' i c r n) (hrecorded : Recorded s')
    (hnew : ∀ q, s'.nextId ≤ q → s'.counts q = (0, 0, 0)) (hids : (s'.made.map Prod.snd).Nodup)
    (hknown : ∀ m ∈ s'.made, m.2 < s'.nextId)
    (hresults : ∀ x ∈ s'.results, x ∈ s.results ∨
      x.bundle.Fits s'.db ∧ (x.bundle.row.fire, x.workflowRun) ∈ s'.made ∧ s'.counts x.workflowRun = (1, 1, 1))
    (hresultIds : (s'.results.map TriggerResult.workflowRun).Nodup) : Inv s' := by
  have hfree := unused_of_own hI hm.own
  have hown : s'.pc i = c := by rw [hm.pc, Function.update_self]
  have hother : ∀ j, j ≠ i → s'.pc j = s.pc j := fun j hj => by rw [hm.pc, Function.update_of_ne hj]
  refine ⟨hrecorded, hnew, hids, hknown, fun j => ?_, fun j f q m hq => ?_, fun j k f g q m m' hq hq' => ?_,
    fun x hx => ?_, hresultIds⟩
  · by_cases hj : j = i
    · rw [hj, hown]
      exact hm.fits
    · rw [hother j hj]
      exact fits_congr hm.rows (hI.fits j)
  · by_cases hj : j = i
    · rw [hj, hown] at hq
      obtain ⟨rfl, rfl, hmade⟩ := hm.held f q m hq
      exact ⟨hmade, by rw [hm.counts, if_pos rfl]⟩
    · rw [hother j hj] at hq
      obtain ⟨hmade, hcounts⟩ := hI.held j f q m hq
      exact ⟨hm.made hmade, by rw [hm.counts, if_neg (hfree.others j hj f q m hq), hcounts]⟩
  · by_cases hj : j = i
    · by_cases hk : k = i
      · rw [hj, hk]
      · rw [hj, hown] at hq
        rw [hother k hk] at hq'
        exact absurd (hm.held f q m hq).1 (hfree.others k hk g q m' hq')
    · by_cases hk : k = i
      · rw [hother j hj] at hq
        rw [hk, hown] at hq'
        exact absurd (hm.held g q m' hq').1 (hfree.others j hj f q m hq)
      · rw [hother j hj] at hq
        rw [hother k hk] at hq'
        exact hI.apart j k f g q m m' hq hq'
  · rcases hresults x hx with hx | hx
    · obtain ⟨⟨hrow, hcall⟩, hmade, hcounts⟩ := hI.results x hx
      exact ⟨⟨hm.rows hrow, hcall⟩, hm.made hmade, by rw [hm.counts, if_neg (hfree.results x hx), hcounts]⟩
    · exact hx

/-- The counts after a row with the id `r` is added where there was none. -/
theorem countP_append_singleton {α : Type} (id : α → Nat) (l : List α) (x : α) (q : Nat) :
    (l ++ [x]).countP (fun y => id y = q) = (l.countP fun y => id y = q) + if q = id x then 1 else 0 := by
  rw [List.countP_append, List.countP_singleton]
  by_cases hq : q = id x
  · rw [if_pos (decide_eq_true hq.symm), if_pos hq]
  · rw [if_neg fun he => hq (of_decide_eq_true he).symm, if_neg hq]

theorem counts_of {s s' : State κ τ ι} {a b m : Nat × Nat × Nat} (h : s.counts r = a) (hb : a + m = b)
    (hs' : ∀ q, s'.counts q = s.counts q + if q = r then m else 0) (q : Nat) :
    s'.counts q = if q = r then b else s.counts q := by
  rw [hs']
  by_cases hq : q = r
  · rw [if_pos hq, if_pos hq, hq, h, hb]
  · rw [if_neg hq, if_neg hq, add_zero]

theorem recorded_of_same {n : Nat × Nat × Nat} (hI : Inv s) (hm : Moves s s' i c r n)
    (hrows : s'.db.scheduleRuns = s.db.scheduleRuns) : Recorded s' := by
  have hunused := unused_of_own hI hm.own
  refine ⟨by rw [hrows]; exact hI.recorded.fires, by rw [hrows]; exact hI.recorded.tasks, fun x hx => ?_⟩
  rw [hrows] at hx
  rw [hm.counts, if_neg (hunused.rows x hx), hI.recorded.task x hx]

/-- The fire is recorded, with its task. -/
theorem inv_insert (hI : Inv s) {x : ScheduleRun} {t : Schedules.Task κ} (hcall : b.call.fire = .ok x.fire)
    (hrow : b.row = x) (hx : x.taskId = s.nextId) (ht : t.id = s.nextId) (hfree : s.db.scheduleRun x.fire = none) :
    Inv ({ s.setPc i (.getSchedule b) with
      db := { s.db with tasks := s.db.tasks ++ [t], scheduleRuns := s.db.scheduleRuns ++ [x] }
      nextId := s.nextId + 1 } : State κ τ ι) := by
  generalize hs' : ({ s.setPc i (.getSchedule b) with
    db := { s.db with tasks := s.db.tasks ++ [t], scheduleRuns := s.db.scheduleRuns ++ [x] }
    nextId := s.nextId + 1 } : State κ τ ι) = s'
  have hcounts : ∀ q, s'.counts q = if q = s.nextId then (0, 1, 0) else s.counts q := by
    refine counts_of (m := (0, 1, 0)) (hI.new _ (Nat.le_refl _)) rfl fun q => ?_
    subst hs'
    rw [counts_mk, counts_mk]
    dsimp only [State.setPc]
    rw [countP_append_singleton, ht]
    by_cases hq : q = s.nextId <;> simp [hq]
  have hm : Moves s s' i (.getSchedule b) s.nextId (0, 1, 0) := by
    subst hs'
    refine ⟨rfl, .inl (Nat.le_refl _), hcounts, List.subset_append_left _ _, List.Subset.refl _, ⟨?_, ?_⟩, ?_⟩
    · rw [hrow]
      exact List.mem_append_right _ (List.mem_singleton_self x)
    · rw [hrow]
      exact hcall
    · intro f q m h
      cases h
  have hunused := unused_of_own hI hm.own
  have hrecorded : Recorded s' := by
    subst hs'
    refine ⟨?_, ?_, fun y hy => ?_⟩
    · rw [List.map_append]
      refine hI.recorded.fires.append (List.nodup_singleton _) (List.disjoint_singleton.2 fun hf => ?_)
      obtain ⟨y, hy, hyf⟩ := List.mem_map.1 hf
      exact List.find?_eq_none.1 hfree y hy (decide_eq_true hyf)
    · rw [List.map_append]
      refine hI.recorded.tasks.append (List.nodup_singleton _) (List.disjoint_singleton.2 fun hf => ?_)
      obtain ⟨y, hy, hyt⟩ := List.mem_map.1 hf
      exact hunused.rows y hy (hyt.trans hx)
    · rw [hcounts]
      rcases List.mem_append.1 hy with hy | hy
      · rw [if_neg (hunused.rows y hy), hI.recorded.task y hy]
      · rw [List.mem_singleton.1 hy, if_pos hx]
  subst hs'
  refine inv_of hI hm hrecorded (fun q hq => ?_) hI.ids (fun m hmade => ?_) (fun y hy => .inl hy) hI.resultIds
  · rw [hcounts, if_neg (Nat.ne_of_gt hq)]
    exact hI.new q (Nat.le_of_succ_le hq)
  · exact Nat.lt_succ_of_lt (hI.known m hmade)

/-- A run is created for the fire of the call. -/
theorem inv_createRun (hI : Inv s) {schedule : Schedule κ τ} {w : Workflow} {x : WorkflowRun} (hb : b.Fits s.db)
    (hx : x.id = s.nextId) :
    Inv ({ s.setPc i (.createTask b schedule w s.nextId) with
      db := { s.db with workflowRuns := s.db.workflowRuns ++ [x] }
      nextId := s.nextId + 1
      made := s.made ++ [(b.row.fire, s.nextId)] } : State κ τ ι) := by
  generalize hs' : ({ s.setPc i (.createTask b schedule w s.nextId) with
    db := { s.db with workflowRuns := s.db.workflowRuns ++ [x] }
    nextId := s.nextId + 1
    made := s.made ++ [(b.row.fire, s.nextId)] } : State κ τ ι) = s'
  have hcounts : ∀ q, s'.counts q = if q = s.nextId then (1, 0, 0) else s.counts q := by
    refine counts_of (m := (1, 0, 0)) (hI.new _ (Nat.le_refl _)) rfl fun q => ?_
    subst hs'
    rw [counts_mk, counts_mk]
    dsimp only [State.setPc]
    rw [countP_append_singleton, hx]
    by_cases hq : q = s.nextId <;> simp [hq]
  have hm : Moves s s' i (.createTask b schedule w s.nextId) s.nextId (1, 0, 0) := by
    subst hs'
    refine ⟨rfl, .inl (Nat.le_refl _), hcounts, List.Subset.refl _, List.subset_append_left _ _, hb, ?_⟩
    intro f q m h
    cases h
    exact ⟨rfl, rfl, List.mem_append_right _ (List.mem_singleton_self _)⟩
  have hrecorded : Recorded s' := recorded_of_same hI hm (by subst hs'; rfl)
  subst hs'
  refine inv_of hI hm hrecorded (fun q hq => ?_) ?_ (fun m hmade => ?_) (fun y hy => .inl hy) hI.resultIds
  · rw [hcounts, if_neg (Nat.ne_of_gt hq)]
    exact hI.new q (Nat.le_of_succ_le hq)
  · rw [List.map_append]
    refine hI.ids.append (List.nodup_singleton _) (List.disjoint_singleton.2 fun hid => ?_)
    obtain ⟨m, hmade, hid⟩ := List.mem_map.1 hid
    exact Nat.ne_of_lt (hI.known m hmade) hid
  · rcases List.mem_append.1 hmade with hmade | hmade
    · exact Nat.lt_succ_of_lt (hI.known m hmade)
    · rw [List.mem_singleton.1 hmade]
      exact Nat.lt_succ_self _

/-- The run gets its task. -/
theorem inv_createTask (hI : Inv s) {schedule : Schedule κ τ} {w : Workflow} {t : Schedules.Task κ}
    (hpc : s.pc i = .createTask b schedule w r) (ht : t.id = r) :
    Inv ({ s.setPc i (.enqueue b r) with db := { s.db with tasks := s.db.tasks ++ [t] } } : State κ τ ι) := by
  have hholds : (s.pc i).holds = some (b.row.fire, r, 1, 0, 0) := by rw [hpc]; rfl
  have hb : b.Fits s.db := by
    have := hI.fits i
    rwa [hpc] at this
  obtain ⟨hmade, hbefore⟩ := hI.held i _ _ _ hholds
  generalize hs' : ({ s.setPc i (.enqueue b r) with
    db := { s.db with tasks := s.db.tasks ++ [t] } } : State κ τ ι) = s'
  have hcounts : ∀ q, s'.counts q = if q = r then (1, 1, 0) else s.counts q := by
    refine counts_of (m := (0, 1, 0)) hbefore rfl fun q => ?_
    subst hs'
    rw [counts_mk, counts_mk]
    dsimp only [State.setPc]
    rw [countP_append_singleton, ht]
    by_cases hq : q = r <;> simp [hq]
  have hm : Moves s s' i (.enqueue b r) r (1, 1, 0) := by
    subst hs'
    refine ⟨rfl, .inr ⟨_, _, hholds⟩, hcounts, List.Subset.refl _, List.Subset.refl _, hb, ?_⟩
    intro f q m h
    cases h
    exact ⟨rfl, rfl, hmade⟩
  have hrecorded : Recorded s' := recorded_of_same hI hm (by subst hs'; rfl)
  subst hs'
  refine inv_of hI hm hrecorded (fun q hq => ?_) hI.ids hI.known (fun y hy => .inl hy) hI.resultIds
  rw [hcounts, if_neg (Nat.ne_of_gt (Nat.lt_of_lt_of_le (hI.known _ hmade) hq))]
  exact hI.new q hq

/-- The message of the run is sent, and the call returns. -/
theorem inv_enqueue (hI : Inv s) (hpc : s.pc i = .enqueue b r) :
    Inv ({ s.setPc i .idle with queue := s.queue ++ [r], results := s.results ++ [⟨b, r⟩] } : State κ τ ι) := by
  have hholds : (s.pc i).holds = some (b.row.fire, r, 1, 1, 0) := by rw [hpc]; rfl
  have hb : b.Fits s.db := by
    have := hI.fits i
    rwa [hpc] at this
  obtain ⟨hmade, hbefore⟩ := hI.held i _ _ _ hholds
  generalize hs' : ({ s.setPc i .idle with
    queue := s.queue ++ [r], results := s.results ++ [⟨b, r⟩] } : State κ τ ι) = s'
  have hcounts : ∀ q, s'.counts q = if q = r then (1, 1, 1) else s.counts q := by
    refine counts_of (m := (0, 0, 1)) hbefore rfl fun q => ?_
    subst hs'
    rw [counts_mk, counts_mk]
    dsimp only [State.setPc]
    rw [List.count_append, List.count_singleton]
    by_cases hq : q = r
    · simp [hq]
    · simp [hq, Ne.symm hq]
  have hm : Moves s s' i .idle r (1, 1, 1) := by
    subst hs'
    refine ⟨rfl, .inr ⟨_, _, hholds⟩, hcounts, List.Subset.refl _, List.Subset.refl _, trivial, ?_⟩
    intro f q m h
    cases h
  have hunused := unused_of_own hI hm.own
  have hrecorded : Recorded s' := recorded_of_same hI hm (by subst hs'; rfl)
  subst hs'
  refine inv_of hI hm hrecorded (fun q hq => ?_) hI.ids hI.known (fun x hx => ?_) ?_
  · rw [hcounts, if_neg (Nat.ne_of_gt (Nat.lt_of_lt_of_le (hI.known _ hmade) hq))]
    exact hI.new q hq
  · rcases List.mem_append.1 hx with hx | hx
    · exact .inl hx
    · rw [List.mem_singleton.1 hx]
      exact .inr ⟨hb, hmade, (hcounts r).trans (if_pos rfl)⟩
  · rw [List.map_append]
    refine hI.resultIds.append (List.nodup_singleton _) (List.disjoint_singleton.2 fun hid => ?_)
    obtain ⟨x, hx, hxr⟩ := List.mem_map.1 hid
    exact hunused.results x hx hxr

/-! ### Steps -/

theorem fire_of_scheduleRun {db : Db κ τ} {f : Fire} {x : ScheduleRun} (h : db.scheduleRun f = some x) :
    x ∈ db.scheduleRuns ∧ x.fire = f :=
  ⟨List.mem_of_find?_eq_some h, of_decide_eq_true (List.find?_some (p := fun r => decide (ScheduleRun.fire r = f)) h)⟩

theorem fits_of_load {db : Db κ τ} {call : Call} {f : Fire} {x y : ScheduleRun} (hcall : call.fire = .ok f)
    (hx : db.scheduleRun f = some x) (hy : db.loadTriggerBundle x = some y) : Bundle.Fits db ⟨call, y⟩ := by
  obtain ⟨-, hxy⟩ := Option.ite_none_right_eq_some.1 hy
  obtain rfl := Option.some.inj hxy
  obtain ⟨hmem, hfire⟩ := fire_of_scheduleRun hx
  exact ⟨hmem, hfire ▸ hcall⟩

theorem inv_run (hI : Inv s) (h : run s i = some s') : Inv s' := by
  have hfits := hI.fits i
  unfold run at h
  cases hpc : s.pc i with
  | idle =>
    rw [hpc] at h
    cases h
  | trigger call f =>
    rw [hpc] at h hfits
    dsimp only at h
    cases hrow : s.db.scheduleRun f with
    | some x =>
      rw [hrow] at h
      obtain ⟨y, hy, rfl⟩ := Option.map_eq_some_iff.1 h
      exact inv_setPc hI (fits_of_load hfits hrow hy) rfl
    | none =>
      rw [hrow] at h
      obtain ⟨schedule, hschedule, rfl⟩ := Option.map_eq_some_iff.1 h
      have hfound := (Option.filter_eq_some_iff.1 hschedule).1
      have hid : schedule.id = f.scheduleId := of_decide_eq_true
        (List.find?_some (p := fun c : Schedule κ τ => decide (c.id = f.scheduleId)) hfound)
      exact inv_setPc hI ⟨hfits, hid⟩ rfl
  | insert call f schedule =>
    rw [hpc] at h hfits
    obtain ⟨⟨x, db⟩, hinsert, rfl⟩ := Option.map_eq_some_iff.1 h
    obtain ⟨hcall, hid⟩ := hfits
    dsimp only
    by_cases hrow : (s.db.scheduleRun f).isSome
    · rw [if_pos hrow]
      exact inv_setPc hI hcall rfl
    · rw [if_neg hrow]
      obtain ⟨_, -, hinserted⟩ := Option.map_eq_some_iff.1 hinsert
      obtain ⟨rfl, rfl⟩ := Prod.mk.inj hinserted
      have hfire : ScheduleRun.fire ⟨schedule.id, f.triggerKey, s.nextId⟩ = f := by rw [ScheduleRun.fire, hid]
      refine inv_insert hI (hfire ▸ hcall) rfl rfl rfl ?_
      rw [hfire]
      exact Option.not_isSome_iff_eq_none.1 hrow
  | reload call f =>
    rw [hpc] at h hfits
    obtain ⟨y, hy, rfl⟩ := Option.map_eq_some_iff.1 h
    obtain ⟨x, hrow, hload⟩ := Option.bind_eq_some_iff.1 hy
    exact inv_setPc hI (fits_of_load hfits hrow hload) rfl
  | getSchedule b =>
    rw [hpc] at h hfits
    obtain ⟨schedule, -, rfl⟩ := Option.map_eq_some_iff.1 h
    exact inv_setPc hI hfits rfl
  | requireSaved b schedule =>
    rw [hpc] at h hfits
    obtain ⟨w, -, rfl⟩ := Option.map_eq_some_iff.1 h
    exact inv_setPc hI hfits rfl
  | createRun b schedule w =>
    rw [hpc] at h hfits
    obtain ⟨db, hdb, rfl⟩ := Option.map_eq_some_iff.1 h
    obtain ⟨_, -, rfl⟩ := Option.map_eq_some_iff.1 hdb
    exact inv_createRun hI hfits rfl
  | createTask b schedule w r =>
    rw [hpc] at h
    obtain ⟨db, hdb, rfl⟩ := Option.map_eq_some_iff.1 h
    obtain ⟨_, -, rfl⟩ := Option.map_eq_some_iff.1 hdb
    exact inv_createTask hI hpc rfl
  | enqueue b r =>
    rw [hpc] at h
    obtain rfl := Option.some.inj h
    exact inv_enqueue hI hpc

theorem inv_step {a : Action κ τ ι} (hI : Inv s) (h : step s a = some s') : Inv s' := by
  cases a with
  | call i c =>
    simp only [step] at h
    split at h
    · obtain ⟨f, hf, rfl⟩ := Option.map_eq_some_iff.1 h
      refine inv_setPc hI ?_ rfl
      cases hc : c.fire with
      | error e =>
        rw [hc] at hf
        cases hf
      | ok g =>
        rw [hc] at hf
        exact hc.trans (congrArg Except.ok (Option.some.inj hf))
    · cases h
  | run i => exact inv_run hI h
  | fail i =>
    simp only [step] at h
    split at h
    · cases h
    · cases h
      exact inv_setPc hI trivial rfl
  | edit workflows schedules =>
    cases h
    exact { hI with
      recorded := ⟨hI.recorded.1, hI.recorded.2, hI.recorded.3⟩
      fits := fun j => fits_congr (List.Subset.refl _) (hI.fits j) }

theorem inv_of_initial (h : Initial s) : Inv s := by
  have hnone : ∀ i, (s.pc i).holds = none := fun i => by rw [h.pc]; rfl
  refine ⟨h.recorded, h.counts, by rw [h.made]; exact List.nodup_nil, by rw [h.made]; simp, fun i => ?_,
    fun i f r n hn => ?_, fun i j f g r n m hn => ?_, by rw [h.results]; simp, by rw [h.results]; exact List.nodup_nil⟩
  · rw [h.pc]
    trivial
  · rw [hnone] at hn
    cases hn
  · rw [hnone] at hn
    cases hn

/-! ### When a key is one fire with one run -/

theorem law_iff (hI : Inv s) : Law s ↔ (s.made.map Prod.fst).Nodup := by
  refine ⟨Law.once, fun honce => ⟨honce, ?_, fun x hx => ?_⟩⟩
  · have hapart : s.results.Pairwise fun x y => x.workflowRun ≠ y.workflowRun := List.pairwise_map.1 hI.resultIds
    refine hapart.imp_of_mem fun {x y} hx hy hne => ?_
    obtain ⟨⟨hxrow, hxcall⟩, hxmade, -⟩ := hI.results x hx
    obtain ⟨⟨hyrow, hycall⟩, hymade, -⟩ := hI.results y hy
    have hfires : x.bundle.row.fire ≠ y.bundle.row.fire := by
      intro hf
      exact hne (Prod.mk.inj (List.inj_on_of_nodup_map honce hxmade hymade hf)).2
    refine ⟨fun hcall => ?_, fun _ => ⟨hfires, fun htask => ?_, hne⟩⟩
    · rw [hcall, hycall] at hxcall
      exact absurd (Except.ok.inj hxcall).symm hfires
    · exact hfires (congrArg ScheduleRun.fire (List.inj_on_of_nodup_map hI.recorded.tasks hxrow hyrow htask))
  · obtain ⟨⟨hrow, -⟩, -, hcounts⟩ := hI.results x hx
    refine ⟨?_, hI.recorded.task _ hrow, hcounts⟩
    obtain ⟨l, l', hsplit⟩ := List.append_of_mem hrow
    have hfires := hI.recorded.fires
    rw [hsplit, List.map_append, List.map_cons] at hfires
    obtain ⟨-, hright, hleft⟩ := List.nodup_append.1 hfires
    have hl : l.filter (fun r => r.fire = x.bundle.row.fire) = [] := by
      rw [List.filter_eq_nil_iff]
      intro y hy hf
      exact hleft y.fire (List.mem_map_of_mem hy) _ List.mem_cons_self (of_decide_eq_true hf)
    have hl' : l'.filter (fun r => r.fire = x.bundle.row.fire) = [] := by
      rw [List.filter_eq_nil_iff]
      intro y hy hf
      exact (List.nodup_cons.1 hright).1 (of_decide_eq_true hf ▸ List.mem_map_of_mem hy)
    rw [hsplit, List.filter_append, List.filter_cons_of_pos (by simp), hl, hl', List.nil_append]

/-- A step creates no run, or one whose fire the condition is about. -/
theorem made_of_step {a : Action κ τ ι} (h : step s a = some s') : (s'.made = s.made ∧ Safe s a) ∨
    ∃ f, s'.made = s.made ++ [(f, s.nextId)] ∧ (Safe s a ↔ f ∉ s.made.map Prod.fst) := by
  cases a with
  | call i c =>
    simp only [step] at h
    split at h
    · obtain ⟨f, -, rfl⟩ := Option.map_eq_some_iff.1 h
      exact .inl ⟨rfl, trivial⟩
    · cases h
  | fail i =>
    simp only [step] at h
    split at h
    · cases h
    · cases h
      exact .inl ⟨rfl, trivial⟩
  | edit workflows schedules =>
    cases h
    exact .inl ⟨rfl, trivial⟩
  | run i =>
    simp only [step, run] at h
    cases hpc : s.pc i with
    | idle =>
      rw [hpc] at h
      cases h
    | createRun b schedule w =>
      rw [hpc] at h
      obtain ⟨db, -, rfl⟩ := Option.map_eq_some_iff.1 h
      exact .inr ⟨b.row.fire, rfl, by simp only [Safe, hpc]⟩
    | trigger call f =>
      have hsafe : Safe s (.run i) := by simp only [Safe, hpc]
      rw [hpc] at h
      dsimp only at h
      cases hrow : s.db.scheduleRun f with
      | some x =>
        rw [hrow] at h
        obtain ⟨y, -, rfl⟩ := Option.map_eq_some_iff.1 h
        exact .inl ⟨rfl, hsafe⟩
      | none =>
        rw [hrow] at h
        obtain ⟨schedule, -, rfl⟩ := Option.map_eq_some_iff.1 h
        exact .inl ⟨rfl, hsafe⟩
    | insert call f schedule =>
      have hsafe : Safe s (.run i) := by simp only [Safe, hpc]
      rw [hpc] at h
      obtain ⟨⟨x, db⟩, -, rfl⟩ := Option.map_eq_some_iff.1 h
      dsimp only
      by_cases hrow : (s.db.scheduleRun f).isSome
      · rw [if_pos hrow]
        exact .inl ⟨rfl, hsafe⟩
      · rw [if_neg hrow]
        exact .inl ⟨rfl, hsafe⟩
    | enqueue b r =>
      have hsafe : Safe s (.run i) := by simp only [Safe, hpc]
      rw [hpc] at h
      obtain rfl := Option.some.inj h
      exact .inl ⟨rfl, hsafe⟩
    | _ =>
      have hsafe : Safe s (.run i) := by simp only [Safe, hpc]
      rw [hpc] at h
      obtain ⟨_, -, rfl⟩ := Option.map_eq_some_iff.1 h
      exact .inl ⟨rfl, hsafe⟩

/-- A step keeps the law exactly when it meets the condition. -/
theorem law_step {a : Action κ τ ι} (hI : Inv s) (hL : Law s) (h : step s a = some s') : Law s' ↔ Safe s a := by
  rw [law_iff (inv_step hI h)]
  have honce := hL.once
  rcases made_of_step h with ⟨hmade, hsafe⟩ | ⟨f, hmade, hsafe⟩
  · rw [hmade]
    exact ⟨fun _ => hsafe, fun _ => honce⟩
  · rw [hmade, hsafe, List.map_append, List.map_singleton]
    constructor
    · intro hn hf
      exact (List.nodup_append.1 hn).2.2 f hf f (List.mem_singleton_self f) rfl
    · exact fun hf => honce.append (List.nodup_singleton _) (List.disjoint_singleton.2 hf)

end Proofs

/-! ### Two calls with one key -/

/-- A schedule of a saved workflow, and nothing recorded. -/
def savedDb : Db Unit Nat :=
  ⟨[⟨"w", 1, true, ["n"]⟩], [⟨"s", "w", "* * * * *", "UTC", true, [], some 60⟩], [], [], []⟩

def twoCallers : State Unit Nat Bool := ⟨savedDb, [], 0, fun _ => .idle, [], []⟩

theorem initial_twoCallers : Initial twoCallers :=
  ⟨fun _ => rfl, rfl, rfl, ⟨List.nodup_nil, List.nodup_nil, fun _ h => by cases h⟩, fun _ _ => rfl⟩

end NexusStudio.ScheduleTriggers
