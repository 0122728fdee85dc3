import NexusStudio.Turn.EngineSpec
import Mathlib.Data.Fintype.Option

/-!
# The frames of a turn

What the engine puts on the bus, what the bus hands to the subscribers and what they emit, taken together.

* (stream) `sent`: the frames of the SSE subscriber and of the side-effect subscribers in the order of the handlings.
* (order) `orderly`: at most one ERROR and one DONE, late frames, the ERROR of a failing turn, the reported answer.
* (limits) `not_orderly`: what each condition of `orderly` is for.
-/

namespace NexusStudio.Turn

open EventBus Concurrent

variable {ω κ : Type} {c : Sse.Settings} {side : Nat → List Frame} {s : Sse.State} {n : Nat}

/-- A frame with its sender and the way the event came that it was sent for. -/
structure Sent (κ : Type) where
  sender : Option κ
  via : Via
  frame : Frame
  deriving DecidableEq, Repr

/-- The frames of a list of handlings, where `side n` are the frames of the `n`-th one if that is not the SSE
subscriber's. -/
def sent (c : Sse.Settings) (side : Nat → List Frame) :
    Sse.State → Nat → List (Handling (Option κ) TurnEvent) → List (Sent κ)
  | _, _, [] => []
  | s, n, ⟨none, e, via⟩ :: l => (Sse.handle c s e).2.map (⟨none, via, ·⟩) ++ sent c side (Sse.handle c s e).1 (n + 1) l
  | s, n, ⟨some k, _, via⟩ :: l => (side n).map (⟨some k, via, ·⟩) ++ sent c side s (n + 1) l

/-- The frames of a turn so far. -/
def stream (c : Sse.Settings) (side : Nat → List Frame) (b : State (Option κ) TurnEvent) : List (Sent κ) :=
  sent c side .init 0 b.handled

/-- A frame that comes late: a side-effect subscriber sent it for a broadcast event. -/
def Sent.Late (g : Sent κ) : Prop :=
  (∃ k, g.sender = some k) ∧ g.via = .queue

theorem map_frame (i : Option κ) (via : Via) (l : List Frame) :
    (l.map fun f => (⟨i, via, f⟩ : Sent κ)).map Sent.frame = l :=
  List.map_map.trans (List.map_id l)

theorem mem_sent {l : List (Handling (Option κ) TurnEvent)} {g : Sent κ} (h : g ∈ sent c side s n l) :
    ∃ d ∈ l, g.sender = d.subscriber ∧ g.via = d.via := by
  induction l generalizing s n with
  | nil => cases h
  | cons d l ih =>
    obtain ⟨_ | k, e, via⟩ := d
    · rcases List.mem_append.1 h with h | h
      · obtain ⟨f, _, rfl⟩ := List.mem_map.1 h
        exact ⟨_, List.mem_cons_self .., rfl, rfl⟩
      · obtain ⟨d, hd, hg⟩ := ih h
        exact ⟨d, List.mem_cons_of_mem _ hd, hg⟩
    · rcases List.mem_append.1 h with h | h
      · obtain ⟨f, _, rfl⟩ := List.mem_map.1 h
        exact ⟨_, List.mem_cons_self .., rfl, rfl⟩
      · obtain ⟨d, hd, hg⟩ := ih h
        exact ⟨d, List.mem_cons_of_mem _ hd, hg⟩

variable [DecidableEq κ]

theorem handledBy_none_cons_none (e : TurnEvent) (via : Via) (l : List (Handling (Option κ) TurnEvent)) :
    handledBy none (⟨none, e, via⟩ :: l) = e :: handledBy none l := by
  simp [handledBy]

theorem handledBy_none_cons_some (k : κ) (e : TurnEvent) (via : Via) (l : List (Handling (Option κ) TurnEvent)) :
    handledBy none (⟨some k, e, via⟩ :: l) = handledBy none l := by
  simp [handledBy]

theorem subscriber_ne_none {l : List (Handling (Option κ) TurnEvent)} (h : handledBy none l = [])
    {d : Handling (Option κ) TurnEvent} (hd : d ∈ l) : ∃ k, d.subscriber = some k := by
  rcases hs : d.subscriber with _ | k
  · have hm : d ∈ l.filter fun d => d.subscriber = none := List.mem_filter.2 ⟨hd, by simpa using hs⟩
    rw [List.map_eq_nil_iff.1 h] at hm
    cases hm
  · exact ⟨k, rfl⟩

/-- As to the owned frames, the stream is the SSE subscriber's. -/
theorem sent_owned (hside : ∀ n, ∀ f ∈ side n, f.isOwned = false) (l : List (Handling (Option κ) TurnEvent)) :
    ((sent c side s n l).map Sent.frame).filter Frame.isOwned =
      (Sse.emits c s (handledBy none l)).filter Frame.isOwned := by
  induction l generalizing s n with
  | nil => rfl
  | cons d l ih =>
    obtain ⟨_ | k, e, via⟩ := d
    · rw [sent, List.map_append, map_frame, List.filter_append, ih, handledBy_none_cons_none, Sse.emits,
        List.filter_append]
    · have hnil : (side n).filter Frame.isOwned = [] :=
        List.filter_eq_nil_iff.2 fun f hf => by rw [hside n f hf]; decide
      rw [sent, List.map_append, map_frame, List.filter_append, hnil, List.nil_append, ih, handledBy_none_cons_some]

theorem countP_sent (hside : ∀ n, ∀ f ∈ side n, f.isOwned = false) {q : Frame → Bool}
    (hq : ∀ f, q f = true → f.isOwned = true) (l : List (Handling (Option κ) TurnEvent)) :
    ((sent c side s n l).map Sent.frame).countP q = (Sse.emits c s (handledBy none l)).countP q := by
  rw [← Frame.countP_owned hq, sent_owned hside, Frame.countP_owned hq]

theorem answerText_sent (hside : ∀ n, ∀ f ∈ side n, f.isOwned = false) (l : List (Handling (Option κ) TurnEvent)) :
    Frame.answerText ((sent c side s n l).map Sent.frame) = Frame.answerText (Sse.emits c s (handledBy none l)) := by
  rw [← Frame.answerText_owned, sent_owned hside, Frame.answerText_owned]

/-! ### After DONE -/

/-- Only late frames come after a DONE. -/
def DoneLast (l : List (Sent κ)) : Prop :=
  l.Pairwise fun f g => f.frame.isDone = true → g.Late

omit [DecidableEq κ] in
theorem doneLast_append {l m : List (Sent κ)} (hl : ∀ f ∈ l, f.frame.isDone = false) (hm : DoneLast m) :
    DoneLast (l ++ m) := by
  have hno : ∀ f ∈ l, ∀ g : Sent κ, f.frame.isDone = true → g.Late := fun f hf g hd => by
    rw [hl f hf] at hd
    cases hd
  exact List.pairwise_append.2 ⟨List.pairwise_of_forall_mem_list fun f hf g _ => hno f hf g, hm,
    fun f hf g _ => hno f hf g⟩

omit [DecidableEq κ] in
theorem doneLast_of_late {l : List (Sent κ)} (h : ∀ g ∈ l, g.Late) (i : Option κ) (via : Via) (m : List Frame)
    (hm : m.Pairwise fun f _ => f.isDone = false) : DoneLast (m.map (⟨i, via, ·⟩) ++ l) := by
  refine List.pairwise_append.2 ⟨?_, List.pairwise_of_forall_mem_list fun _ _ g hg _ => h g hg,
    fun _ _ g hg _ => h g hg⟩
  refine List.pairwise_map.2 (hm.imp fun hf hd => ?_)
  rw [hf] at hd
  cases hd

theorem pairwise_handleEnded (c : Sse.Settings) (s : Sse.State) (t : TerminatedBy) (failedEmitted : Bool) :
    (Sse.handleEnded c s t failedEmitted).2.Pairwise fun f _ => f.isDone = false := by
  obtain ⟨errors, dones, heq, he, _, hd, _⟩ := Sse.handleEnded_frames c s t failedEmitted
  rw [heq]
  rcases he with rfl | ⟨code, message, rfl⟩ <;> rcases hd with rfl | rfl <;> simp [Frame.isDone]

/-- By induction on the handlings: up to `TurnEnded` there is no DONE, and once the SSE subscriber has handled it the
rest is the work of the others, from their queues. -/
theorem doneLast_sent (hside : ∀ n, ∀ f ∈ side n, f.isOwned = false) {l : List (Handling (Option κ) TurnEvent)}
    {pre : List TurnEvent} {t : TerminatedBy} {failedEmitted : Bool} (hpre : ∀ e ∈ pre, e.isEnded = false)
    (hl : handledBy none l <+: pre ++ [.turnEnded t failedEmitted])
    (hp : l.Pairwise fun h g => h.event = .turnEnded t failedEmitted → g.via = .queue) :
    DoneLast (sent c side s n l) := by
  induction l generalizing s n pre with
  | nil => exact List.Pairwise.nil
  | cons d l ih =>
    obtain ⟨_ | k, e, via⟩ := d
    · rw [handledBy_none_cons_none] at hl
      rcases pre with _ | ⟨e', pre⟩
      · obtain ⟨rfl, hnil⟩ := List.cons_prefix_cons.1 hl
        refine doneLast_of_late (fun g hg => ?_) none via _ (pairwise_handleEnded c s t failedEmitted)
        obtain ⟨d, hd, hs, hv⟩ := mem_sent hg
        obtain ⟨k, hk⟩ := subscriber_ne_none (List.prefix_nil.1 hnil) hd
        exact ⟨⟨k, hs.trans hk⟩, hv.trans ((List.pairwise_cons.1 hp).1 d hd rfl)⟩
      · obtain ⟨rfl, hrest⟩ := List.cons_prefix_cons.1 hl
        refine doneLast_append (fun f hf => ?_)
          (ih (fun d hd => hpre d (List.mem_cons_of_mem _ hd)) hrest (List.pairwise_cons.1 hp).2)
        obtain ⟨g, hg, rfl⟩ := List.mem_map.1 hf
        exact (Sse.handle_frames (hpre e (List.mem_cons_self ..))).2.1 g hg
    · rw [handledBy_none_cons_some] at hl
      refine doneLast_append (fun f hf => ?_) (ih hpre hl (List.pairwise_cons.1 hp).2)
      obtain ⟨g, hg, rfl⟩ := List.mem_map.1 hf
      have hg := hside n g hg
      cases g <;> first | rfl | cases hg

/-! ### Order -/

/-- What a client can rely on in the stream of a turn, whose bus has come to `b`. -/
structure Orderly (S : Surroundings ω κ) (events : List AgentEvent) (r : Run ω κ) (b : State (Option κ) TurnEvent)
    (l : List (Sent κ)) : Prop where
  error_le : (l.map Sent.frame).countP Frame.isError ≤ 1
  done_le : (l.map Sent.frame).countP Frame.isDone ≤ 1
  doneLast : DoneLast l
  error_iff : ProperReasons S events → Drained b → r.terminatedBy ≠ .cancelled →
    (0 < (l.map Sent.frame).countP Frame.isError ↔ r.terminatedBy.Failing)
  interrupted : ProperReasons S events → r.terminatedBy = .interrupted →
    (l.map Sent.frame).countP Frame.isError = 0 ∧ (l.map Sent.frame).countP Frame.isDone = 0
  answer : CompletesLast events → Drained b → ∀ text ∈ reports r.ops, Frame.answerText (l.map Sent.frame) = text

/-- What a run `r` puts on the bus: `l` for the SSE subscriber, and `TurnEnded` as the last broadcast. -/
structure PutsOut (S : Surroundings ω κ) (p f : Prop) (r : Run ω κ) (l : List TurnEvent) : Prop where
  ops : ∃ ops, r.ops = ops ++ [.broadcast (.turnEnded r.terminatedBy r.failedEmitted)] ∧
    ∀ o ∈ ops, o.event.isEnded = false
  due : due S.hears none r.ops = l ++ [.turnEnded r.terminatedBy r.failedEmitted]
  notEnded : ∀ e ∈ l, e.isEnded = false
  failures : l.countP TurnEvent.isFailed = r.failedEmitted.toNat
  failing : p → r.failedEmitted = true → r.terminatedBy ≠ .completed ∧ r.terminatedBy ≠ .interrupted
  answer : f → ∀ text ∈ reports r.ops, answerText l = text

theorem runTurn_putsOut {S : Surroundings ω κ} {events : List AgentEvent} {p f : Prop}
    (hp : p → ProperReasons S events) (hf : f → CompletesLast events) (raised : Option Exn) (world : ω) :
    ∃ l, PutsOut S p f (runTurn S events raised world) l := by
  obtain ⟨r, hover, hstate, hops⟩ := runTurn_spec hp hf raised world
  have hended : ∀ o ∈ r.ops, o.event.isEnded = false := fun o ho =>
    Bool.eq_false_of_not_eq_true (List.any_eq_false.1 hover.balanced.notEnded o ho)
  have ht : (runTurn S events raised world).terminatedBy = r.terminatedBy := congrArg RunState.terminatedBy hstate
  have he : (runTurn S events raised world).failedEmitted = r.failedEmitted := congrArg RunState.failedEmitted hstate
  refine ⟨S.heard r, ⟨r.ops, ?_, hended⟩, ?_, fun e he => ?_, ?_, ?_, fun h text hm => ?_⟩
  · rw [ht, he]
    exact hops
  · rw [hops, due_concat, ht, he]
    rfl
  · obtain ⟨o, ho, rfl⟩ := mem_due he
    exact hended o ho
  · rw [he]
    exact hover.balanced.failures
  · rw [ht, he]
    exact hover.failing
  · rw [hops] at hm
    have hm : text ∈ reports r.ops := by simpa [reports, TurnEvent.reported, Op.event] using hm
    exact hover.balanced.answer.trans (hover.faithful h text hm).symm

/-- The stream of every turn is orderly at every moment: whatever the agent yields, the recovery hook and the guards
answer, and whoever raises, if the side-effect subscribers leave TOKEN, ERROR and DONE to the SSE subscriber. -/
theorem orderly (S : Surroundings ω κ) (c : Sse.Settings) (events : List AgentEvent) (raised : Option Exn)
    (world : ω) (hside : ∀ n, ∀ f ∈ side n, f.isOwned = false) {b : State (Option κ) TurnEvent}
    (hb : (machine S.hears (runTurn S events raised world).ops).Reach Free b) :
    Orderly S events (runTurn S events raised world) b (stream c side b) := by
  obtain ⟨l, h⟩ := runTurn_putsOut (p := ProperReasons S events) (f := CompletesLast events) id id raised world
  obtain ⟨ops, hops, hended⟩ := h.ops
  generalize runTurn S events raised world = r at *
  obtain ⟨herror, hdone, hint, htext⟩ := Sse.emits_turn c (t := r.terminatedBy) h.notEnded h.failures
  have hprefix : handledBy none b.handled <+: l ++ [.turnEnded r.terminatedBy r.failedEmitted] :=
    h.due ▸ handledBy_prefix hb none
  have hsub := (Sse.emits_prefix (c := c) (s := .init) hprefix).sublist
  have hdrained : Drained b → handledBy none b.handled = l ++ [.turnEnded r.terminatedBy r.failedEmitted] :=
    fun hd => h.due ▸ handledBy_of_drained hb hd none
  have hcountE := countP_sent (c := c) (s := .init) (n := 0) hside (q := Frame.isError)
    (fun f hf => by cases f <;> first | rfl | cases hf) b.handled
  have hcountD := countP_sent (c := c) (s := .init) (n := 0) hside (q := Frame.isDone)
    (fun f hf => by cases f <;> first | rfl | cases hf) b.handled
  have hfail : ProperReasons S events → r.terminatedBy = .interrupted →
      (r.failedEmitted || decide r.terminatedBy.Failing) = false := by
    intro hp ht
    have hq : r.failedEmitted = false := Bool.eq_false_of_not_eq_true fun hf => (h.failing hp hf).2 ht
    rw [hq, ht]
    rfl
  constructor
  case error_le =>
    rw [stream, hcountE]
    exact (hsub.countP_le).trans (herror ▸ Bool.toNat_le _)
  case done_le =>
    rw [stream, hcountD]
    exact (hsub.countP_le).trans hdone
  case doneLast =>
    refine doneLast_sent hside h.notEnded hprefix ?_
    refine queued_after_last (l := ops) (fun o ho he => ?_) (hops ▸ hb)
    have hno := hended o ho
    rw [he] at hno
    cases hno
  case error_iff =>
    intro hp hd hc
    have hpos : ∀ x : Bool, 0 < x.toNat ↔ x = true := by decide
    rw [stream, hcountE, hdrained hd, herror, hpos, Bool.or_eq_true, decide_eq_true_iff]
    refine ⟨fun hor => hor.elim (fun hf => ?_) id, .inr⟩
    exact ⟨(h.failing hp hf).1, (h.failing hp hf).2, hc⟩
  case interrupted =>
    intro hp ht
    rw [stream, hcountE, hcountD]
    refine ⟨Nat.le_zero.1 ?_, Nat.le_zero.1 ?_⟩
    · exact (hsub.countP_le).trans (by rw [herror, hfail hp ht]; exact Nat.le_refl 0)
    · exact (hsub.countP_le).trans (by rw [hint ht])
  case answer =>
    intro hl hd text hm
    rw [stream, answerText_sent hside, hdrained hd, htext]
    exact h.answer hl text hm

/-! ### Limits -/

/-- Some course of the bus brings a turn to an end that looks like `Q`. -/
def Possible (S : Surroundings Unit κ) (side : Nat → List Frame) (events : List AgentEvent)
    (Q : Run Unit κ → List Frame → Prop) : Prop :=
  ∃ b, (machine S.hears (runTurn S events none ()).ops).Reach Free b ∧ Drained b ∧
    Q (runTurn S events none ()) ((stream .default side b).map Sent.frame)

instance [Fintype κ] (b : State (Option κ) TurnEvent) : Decidable (Drained b) :=
  inferInstanceAs (Decidable (_ ∧ _))

theorem possible_of_exec [Fintype κ] {S : Surroundings Unit κ} {side : Nat → List Frame} {events : List AgentEvent}
    {Q : Run Unit κ → List Frame → Prop} [∀ r l, Decidable (Q r l)] (acts : List (Action (Option κ)))
    (h : (((machine S.hears (runTurn S events none ()).ops).exec Free
      (start (runTurn S events none ()).ops) acts).any fun b => decide (Drained b ∧
        Q (runTurn S events none ()) ((stream .default side b).map Sent.frame))) = true) :
    Possible S side events Q := by
  obtain ⟨b, -, hr, hp⟩ := Machine.reach_of_exec acts rfl h
  exact ⟨b, hr, of_decide_eq_true hp⟩

/-- A hook that answers the same after every model step, before every completion and on every broken stream. -/
def answering (afterModelStep beforeComplete onStreamBreak : Option TerminatedBy) : RecoveryHook Unit where
  afterModelStep _ _ _ _ w := (⟨[], .ok afterModelStep⟩, w)
  beforeComplete _ _ _ w := (⟨[], .ok beforeComplete⟩, w)
  onStreamBreak _ _ w := (⟨[], .ok onStreamBreak⟩, w)
  forceFailed _ := none
  forceInterrupted _ := false

/-- Surroundings with one side-effect subscriber, which hears of finished tools. -/
def calm (hook : Option (RecoveryHook Unit)) : Surroundings Unit Unit where
  subscribers := [()]
  barrierEvents _ _ := false
  broadcastEvents _ k := k = .toolFinished
  start _ := pure ()
  handle _ _ := pure ()
  recoveryHook := hook
  cancelEvent := pure false
  checkWallClock := pure true
  onModelStepFinished := pure ()
  exceededModelSteps := pure false
  onToolFinished _ _ := pure .continue_
  lastStopReason := pure none
  emitInvalidToolCallFrames := true
  healInvalidToolCalls := true
  isResume := false
  onTurnStartRepair := pure ()
  onTurnCleanupRepair := pure ()
  collectInterrupts := pure none
  toToolMessage r := r.output

/-- The agent answers "A". -/
def answerA : AgentEvent := .turnCompleted 0 [.human, .ai ⟨"A", []⟩]

def composerTool : AgentEvent := .toolFinished 0 "1" "apply_composer_prompt" [] "{}" false none

theorem orderly_answered :
    ∃ b, Drained b ∧ ProperReasons (calm none) [composerTool, answerA] ∧ CompletesLast [composerTool, answerA] ∧
      Orderly (calm none) [composerTool, answerA] (runTurn (calm none) [composerTool, answerA] none ()) b
        (stream .default (fun _ => [.other "composer_prompt_applied"]) b) := by
  obtain ⟨b, hb, hd, -⟩ : Possible (calm none) (fun _ => []) [composerTool, answerA] fun _ _ => True :=
    possible_of_exec [.pass, .issue, .issue, .issue, .pass, .issue, .issue, .serve none, .serve none, .serve none,
      .serve (some ())] (by decide)
  refine ⟨b, hd, ⟨nofun, nofun, nofun, nofun⟩, ⟨nofun, fun _ => rfl, trivial⟩,
    orderly _ _ _ _ _ (fun _ f hf => ?_) hb⟩
  rw [List.mem_singleton.1 hf]
  rfl

/-- Each condition is needed: an ERROR of a turn that ends interrupted or completed, because of one of the hook's
answers or of an error class; a token after the reported answer; a side-effect subscriber's ERROR in a completed turn,
and its frame after DONE. -/
theorem not_orderly :
    Possible (calm (some (answering none none (some .interrupted)))) (fun _ => []) []
      (fun r l => r.terminatedBy = .interrupted ∧ 0 < l.countP Frame.isError) ∧
    Possible (calm (some (answering (some .completed) none none))) (fun _ => [])
      [.modelStepFinished 0 ⟨"A", []⟩ []]
      (fun r l => r.terminatedBy = .completed ∧ 0 < l.countP Frame.isError) ∧
    Possible (calm (some (answering none (some .completed) none))) (fun _ => []) [answerA]
      (fun r l => r.terminatedBy = .completed ∧ 0 < l.countP Frame.isError) ∧
    Possible (calm none) (fun _ => []) [.turnFailed 0 "x" "completed"]
      (fun r l => r.terminatedBy = .completed ∧ 0 < l.countP Frame.isError) ∧
    Possible (calm none) (fun _ => []) [answerA, .modelToken 0 .answer "B"]
      (fun r l => reports r.ops = ["A", "A"] ∧ Frame.answerText l = "AB") ∧
    Possible (calm none) (fun _ => [.error .internal "composer prompt apply payload invalid"]) [composerTool, answerA]
      (fun r l => r.terminatedBy = .completed ∧ 0 < l.countP Frame.isError) ∧
    Possible (calm none) (fun _ => [.other "composer_prompt_applied"]) [composerTool, answerA]
      (fun _ l => .done none ∈ l ∧ l.getLast? = some (.other "composer_prompt_applied")) := by
  refine ⟨?_, ?_, ?_, ?_, ?_, ?_, ?_⟩
  · exact possible_of_exec [.pass, .issue, .meet, .pass, .issue, .serve none] (by decide)
  · exact possible_of_exec [.pass, .issue, .issue, .meet, .pass, .issue, .serve none] (by decide)
  · exact possible_of_exec [.pass, .issue, .issue, .serve none, .meet, .pass, .issue, .serve none] (by decide)
  · exact possible_of_exec [.pass, .issue, .meet, .pass, .issue, .serve none] (by decide)
  · exact possible_of_exec [.pass, .issue, .issue, .pass, .issue, .issue, .issue, .serve none, .serve none, .serve none]
      (by decide)
  · exact possible_of_exec [.pass, .issue, .issue, .issue, .pass, .issue, .issue, .serve (some ()), .serve none,
      .serve none, .serve none] (by decide)
  · exact possible_of_exec [.pass, .issue, .issue, .issue, .pass, .issue, .issue, .serve none, .serve none, .serve none,
      .serve (some ())] (by decide)

end NexusStudio.Turn
