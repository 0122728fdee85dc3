import NexusStudio.Lib.Machine
import Mathlib.Data.List.Basic
import Mathlib.Logic.Function.Basic

/-!
# Event buses

A publisher works off a list of commands. A broadcast queues its event for every subscriber that hears it; a barrier
hands its event to some subscribers, one after the other, each of them once its queue is empty. A subscriber works off
its own queue in order, at any time and independently of the others.

* (conservation) What a subscriber has handled, what is queued for it and what the commands still hold for it is
  always the list of events `due` to it: `handledBy_prefix`, `handledBy_of_drained`.
* (closing) After the event of a last broadcast only queues are worked off: `queued_after_last`.
-/

namespace EventBus

/-- A command of the publisher. A barrier names the subscribers it gets to. -/
inductive Op (ι ε : Type*)
  | broadcast (e : ε)
  | barrier (e : ε) (reached : List ι)
  deriving DecidableEq, Repr

/-- How an event comes to a subscriber. -/
inductive Via
  | queue
  | barrier
  deriving DecidableEq, Repr

/-- A subscriber has handled an event. -/
structure Handling (ι ε : Type*) where
  subscriber : ι
  event : ε
  via : Via
  deriving DecidableEq, Repr

structure State (ι ε : Type*) where
  todo : List (Op ι ε)
  queue : ι → List ε
  handled : List (Handling ι ε)

inductive Action (ι : Type*)
  -- the publisher queues the event of its next broadcast
  | issue
  -- a subscriber handles the first event of its queue
  | serve (i : ι)
  -- the next subscriber of a barrier handles the barrier's event
  | meet
  -- a barrier is over
  | pass
  deriving DecidableEq, Repr

variable {ι ε : Type*} [DecidableEq ι] {hears : ι → ε → Bool} {program : List (Op ι ε)} {s : State ι ε}

def Op.event : Op ι ε → ε
  | broadcast e => e
  | barrier e _ => e

def start (program : List (Op ι ε)) : State ι ε :=
  ⟨program, fun _ => [], []⟩

def step (hears : ι → ε → Bool) (s : State ι ε) : Action ι → Option (State ι ε)
  | .issue =>
    match s.todo with
    | .broadcast e :: l =>
      some { s with todo := l, queue := fun i => if hears i e then s.queue i ++ [e] else s.queue i }
    | _ => none
  | .serve i =>
    match s.queue i with
    | e :: q => some { s with queue := Function.update s.queue i q, handled := s.handled ++ [⟨i, e, .queue⟩] }
    | [] => none
  | .meet =>
    match s.todo with
    | .barrier e (i :: r) :: l =>
      if (s.queue i).isEmpty then
        some { s with todo := .barrier e r :: l, handled := s.handled ++ [⟨i, e, .barrier⟩] }
      else none
    | _ => none
  | .pass =>
    match s.todo with
    | .barrier _ [] :: l => some { s with todo := l }
    | _ => none

def machine (hears : ι → ε → Bool) (program : List (Op ι ε)) : Concurrent.Machine (State ι ε) (Action ι) where
  init s := s = start program
  step := step hears

/-- Every command is done and every queue is empty. -/
def Drained (s : State ι ε) : Prop :=
  s.todo = [] ∧ ∀ i, s.queue i = []

/-- The events a subscriber has handled, in order. -/
def handledBy (i : ι) (l : List (Handling ι ε)) : List ε :=
  (l.filter fun h => h.subscriber = i).map Handling.event

/-- The events a command holds for a subscriber. -/
def Op.due (hears : ι → ε → Bool) (i : ι) : Op ι ε → List ε
  | broadcast e => if hears i e then [e] else []
  | barrier e reached => List.replicate (reached.count i) e

/-- The events a list of commands holds for a subscriber. -/
def due (hears : ι → ε → Bool) (i : ι) (l : List (Op ι ε)) : List ε :=
  l.flatMap (Op.due hears i)

theorem Op.due_barrier_of_notMem {i : ι} {e : ε} {l : List ι} (h : i ∉ l) :
    (barrier e l).due hears i = [] := by
  rw [due, List.count_eq_zero.2 h, List.replicate_zero]

theorem Op.due_barrier_cons {i : ι} {e : ε} {l : List ι} (h : i ∉ l) :
    (barrier e (i :: l)).due hears i = [e] := by
  rw [due, List.count_cons_self, List.count_eq_zero.2 h, List.replicate_one]

@[simp] theorem due_nil (i : ι) : due hears i [] = [] := rfl

@[simp] theorem due_cons (i : ι) (o : Op ι ε) (l : List (Op ι ε)) :
    due hears i (o :: l) = o.due hears i ++ due hears i l := rfl

theorem due_append (i : ι) (l m : List (Op ι ε)) : due hears i (l ++ m) = due hears i l ++ due hears i m :=
  List.flatMap_append

theorem due_concat (i : ι) (l : List (Op ι ε)) (o : Op ι ε) :
    due hears i (l ++ [o]) = due hears i l ++ o.due hears i := by
  rw [due_append, due_cons, due_nil, List.append_nil]

theorem mem_due {i : ι} {l : List (Op ι ε)} {e : ε} (h : e ∈ due hears i l) : ∃ o ∈ l, o.event = e := by
  obtain ⟨o, ho, he⟩ := List.mem_flatMap.1 h
  refine ⟨o, ho, ?_⟩
  cases o with
  | broadcast d =>
    simp only [Op.due] at he
    split at he
    · exact (List.mem_singleton.1 he).symm
    · cases he
  | barrier d reached => exact (List.mem_replicate.1 he).2.symm

theorem handledBy_concat (i : ι) (l : List (Handling ι ε)) (h : Handling ι ε) :
    handledBy i (l ++ [h]) = handledBy i l ++ if h.subscriber = i then [h.event] else [] := by
  by_cases hi : h.subscriber = i <;> simp [handledBy, hi]

/-! ### What a step does -/

theorem step_issue {t : State ι ε} (h : step hears s .issue = some t) :
    ∃ e l, s.todo = .broadcast e :: l ∧
      t = { s with todo := l, queue := fun i => if hears i e then s.queue i ++ [e] else s.queue i } := by
  simp only [step] at h
  split at h
  · next e l hl => exact ⟨e, l, hl, (Option.some.inj h).symm⟩
  · cases h

theorem step_serve {t : State ι ε} {i : ι} (h : step hears s (.serve i) = some t) :
    ∃ e q, s.queue i = e :: q ∧
      t = { s with queue := Function.update s.queue i q, handled := s.handled ++ [⟨i, e, .queue⟩] } := by
  simp only [step] at h
  split at h
  · next e q hq => exact ⟨e, q, hq, (Option.some.inj h).symm⟩
  · cases h

theorem step_meet {t : State ι ε} (h : step hears s .meet = some t) :
    ∃ e i r l, s.todo = .barrier e (i :: r) :: l ∧ s.queue i = [] ∧
      t = { s with todo := .barrier e r :: l, handled := s.handled ++ [⟨i, e, .barrier⟩] } := by
  simp only [step] at h
  split at h
  · next e i r l hl =>
    split at h
    · next hq => exact ⟨e, i, r, l, hl, List.isEmpty_iff.1 hq, (Option.some.inj h).symm⟩
    · cases h
  · cases h

theorem step_pass {t : State ι ε} (h : step hears s .pass = some t) :
    ∃ e l, s.todo = .barrier e [] :: l ∧ t = { s with todo := l } := by
  simp only [step] at h
  split at h
  · next e l hl => exact ⟨e, l, hl, (Option.some.inj h).symm⟩
  · cases h

/-! ### Conservation -/

/-- Every event due to a subscriber is handled, queued or still to come, in this order. -/
def Conserved (hears : ι → ε → Bool) (program : List (Op ι ε)) (s : State ι ε) : Prop :=
  ∀ i, handledBy i s.handled ++ s.queue i ++ due hears i s.todo = due hears i program

theorem conserved_step {t : State ι ε} (hs : Conserved hears program s) (a : Action ι)
    (h : step hears s a = some t) : Conserved hears program t := by
  intro j
  rw [← hs j]
  cases a with
  | issue =>
    obtain ⟨e, l, hl, rfl⟩ := step_issue h
    by_cases hj : hears j e <;> simp [hl, Op.due, hj]
  | serve i =>
    obtain ⟨e, q, hq, rfl⟩ := step_serve h
    simp only [handledBy_concat]
    by_cases hj : i = j
    · subst hj
      simp [hq]
    · simp [hj, Function.update_of_ne (Ne.symm hj)]
  | meet =>
    obtain ⟨e, i, r, l, hl, hq, rfl⟩ := step_meet h
    simp only [handledBy_concat, hl, due_cons, Op.due]
    by_cases hj : i = j
    · subst hj
      simp [hq, List.replicate_succ]
    · simp [hj]
  | pass =>
    obtain ⟨e, l, hl, rfl⟩ := step_pass h
    simp [hl, Op.due]

theorem conserved {C : State ι ε → Action ι → Prop} (h : (machine hears program).Reach C s) :
    Conserved hears program s :=
  h.induct (fun _ h₀ i => by rw [h₀]; rfl) fun _ a _ hs _ ht => conserved_step hs a ht

/-- A subscriber handles the events due to it, in order. -/
theorem handledBy_prefix {C : State ι ε → Action ι → Prop} (h : (machine hears program).Reach C s) (i : ι) :
    handledBy i s.handled <+: due hears i program :=
  ⟨s.queue i ++ due hears i s.todo, by rw [← List.append_assoc]; exact conserved h i⟩

/-- Once the bus is drained, a subscriber has handled all of them. -/
theorem handledBy_of_drained {C : State ι ε → Action ι → Prop} (h : (machine hears program).Reach C s)
    (hd : Drained s) (i : ι) : handledBy i s.handled = due hears i program := by
  have hi := conserved h i
  rwa [hd.1, hd.2 i, due_nil, List.append_nil, List.append_nil] at hi

/-! ### The last broadcast -/

/-- The broadcast of `e` is the last command and `e` has not been issued. -/
def Pending (e : ε) (s : State ι ε) : Prop :=
  ∃ l, s.todo = l ++ [.broadcast e] ∧ (∀ o ∈ l, o.event ≠ e) ∧ (∀ i, e ∉ s.queue i) ∧ ∀ h ∈ s.handled, h.event ≠ e

/-- Every command is done, and whatever followed a handling of `e` came from a queue. -/
def Closing (e : ε) (s : State ι ε) : Prop :=
  s.todo = [] ∧ s.handled.Pairwise fun h g => h.event = e → g.via = .queue

omit [DecidableEq ι] in
theorem pairwise_of_ne {e : ε} {l : List (Handling ι ε)} (h : ∀ g ∈ l, g.event ≠ e) :
    l.Pairwise fun h g => h.event = e → g.via = .queue :=
  List.pairwise_of_forall_mem_list fun g hg _ _ he => absurd he (h g hg)

theorem closing_step {e : ε} {t : State ι ε} (hs : Closing e s) (a : Action ι) (h : step hears s a = some t) :
    Closing e t := by
  obtain ⟨hnil, hp⟩ := hs
  cases a with
  | issue =>
    obtain ⟨_, _, hm, _⟩ := step_issue h
    rw [hm] at hnil
    cases hnil
  | serve i =>
    obtain ⟨d, q, _, rfl⟩ := step_serve h
    refine ⟨hnil, List.pairwise_append.2 ⟨hp, List.pairwise_singleton .., fun _ _ g hg _ => ?_⟩⟩
    rw [List.mem_singleton.1 hg]
  | meet =>
    obtain ⟨_, _, _, _, hm, _⟩ := step_meet h
    rw [hm] at hnil
    cases hnil
  | pass =>
    obtain ⟨_, _, hm, _⟩ := step_pass h
    rw [hm] at hnil
    cases hnil

theorem pending_issue {e : ε} {t : State ι ε} (hs : Pending e s) (h : step hears s .issue = some t) :
    Pending e t ∨ Closing e t := by
  obtain ⟨l, hl, hne, hq, hh⟩ := hs
  obtain ⟨d, m, hm, rfl⟩ := step_issue h
  rw [hm] at hl
  rcases l with _ | ⟨o, l⟩
  · -- the last broadcast itself
    exact .inr ⟨(List.cons.inj hl).2, pairwise_of_ne hh⟩
  · obtain ⟨rfl, rfl⟩ := List.cons.inj hl
    have hd : d ≠ e := hne _ (List.mem_cons_self ..)
    refine .inl ⟨l, rfl, fun o ho => hne o (List.mem_cons_of_mem _ ho), fun i hi => ?_, hh⟩
    dsimp only at hi
    split at hi
    · rcases List.mem_append.1 hi with hi | hi
      · exact hq i hi
      · exact hd (List.mem_singleton.1 hi).symm
    · exact hq i hi

theorem pending_serve {e : ε} {t : State ι ε} {i : ι} (hs : Pending e s) (h : step hears s (.serve i) = some t) :
    Pending e t := by
  obtain ⟨l, hl, hne, hq, hh⟩ := hs
  obtain ⟨d, q, hd, rfl⟩ := step_serve h
  refine ⟨l, hl, hne, fun j hj => ?_, fun g hg => ?_⟩
  · dsimp only at hj
    by_cases hij : j = i
    · subst hij
      rw [Function.update_self] at hj
      exact hq j (hd ▸ List.mem_cons_of_mem d hj)
    · rw [Function.update_of_ne hij] at hj
      exact hq j hj
  · rcases List.mem_append.1 hg with hg | hg
    · exact hh g hg
    · rw [List.mem_singleton.1 hg]
      intro he
      exact hq i (hd ▸ he ▸ List.mem_cons_self ..)

theorem pending_meet {e : ε} {t : State ι ε} (hs : Pending e s) (h : step hears s .meet = some t) :
    Pending e t := by
  obtain ⟨l, hl, hne, hq, hh⟩ := hs
  obtain ⟨d, i, r, m, hm, _, rfl⟩ := step_meet h
  rw [hm] at hl
  rcases l with _ | ⟨o, l⟩
  · cases hl
  · obtain ⟨rfl, rfl⟩ := List.cons.inj hl
    have hd : d ≠ e := hne _ (List.mem_cons_self ..)
    refine ⟨.barrier d r :: l, rfl, fun o ho => ?_, hq, fun g hg => ?_⟩
    · rcases List.mem_cons.1 ho with rfl | ho
      · exact hd
      · exact hne o (List.mem_cons_of_mem _ ho)
    · rcases List.mem_append.1 hg with hg | hg
      · exact hh g hg
      · rw [List.mem_singleton.1 hg]
        exact hd

theorem pending_pass {e : ε} {t : State ι ε} (hs : Pending e s) (h : step hears s .pass = some t) :
    Pending e t := by
  obtain ⟨l, hl, hne, hq, hh⟩ := hs
  obtain ⟨d, m, hm, rfl⟩ := step_pass h
  rw [hm] at hl
  rcases l with _ | ⟨o, l⟩
  · cases hl
  · obtain ⟨rfl, rfl⟩ := List.cons.inj hl
    exact ⟨l, rfl, fun o ho => hne o (List.mem_cons_of_mem _ ho), hq, hh⟩

/-- What comes after the handling of the last broadcast's event comes from the queues. -/
theorem queued_after_last {C : State ι ε → Action ι → Prop} {l : List (Op ι ε)} {e : ε}
    (hl : ∀ o ∈ l, o.event ≠ e) (h : (machine hears (l ++ [.broadcast e])).Reach C s) :
    s.handled.Pairwise fun h g => h.event = e → g.via = .queue := by
  have hlast : Pending e s ∨ Closing e s := by
    refine h.induct (P := fun s => Pending e s ∨ Closing e s) (fun s₀ h₀ => ?_) fun _ a _ hs _ ht => ?_
    · rw [h₀]
      exact .inl ⟨l, rfl, hl, fun _ => List.not_mem_nil, fun _ hg => (List.not_mem_nil hg).elim⟩
    · change step hears _ a = some _ at ht
      rcases hs with hs | hs
      · cases a with
        | issue => exact pending_issue hs ht
        | serve i => exact .inl (pending_serve hs ht)
        | meet => exact .inl (pending_meet hs ht)
        | pass => exact .inl (pending_pass hs ht)
      · exact .inr (closing_step hs a ht)
  rcases hlast with ⟨_, _, _, _, hh⟩ | ⟨_, hp⟩
  · exact pairwise_of_ne hh
  · exact hp

end EventBus
