import NexusStudio.Lib.Machine
import NexusStudio.Server.Errors
import Mathlib.Data.Fintype.Basic

/-!
# Register codes

A code is sent to an address that wants to register and then has to be given with the registration. Redis keeps the
code with the number of wrong guesses, and a cooldown for each address.

* (machine) Every Redis command is one step of the call that sends it; a call may raise before any of them, and a key
  may expire at any time.
* (guesses) A verification reads the counter and writes it back, so that overlapping ones count once. In `Alone` runs
  five guesses about a code are answered at most, and none after the right one: `guesses_bounded`.
-/

set_option linter.unusedSectionVars false

namespace NexusStudio.RegisterCodes

open Concurrent

/-! ### Calls -/

def maxVerifyAttempts : ℕ := 5

/-- A code that has been drawn, numbered so that no two are the same. -/
structure Issue where
  key : String
  number : ℕ
  code : String
  deriving DecidableEq

/-- The payload of a code's key: the code and the wrong guesses. Nothing but these calls writes it, so it can be
decoded. -/
structure Stored where
  issue : Issue
  attempts : ℕ
  deriving DecidableEq

/-- What a call has told about a guess. -/
structure Answer where
  issue : Issue
  guess : String
  right : Bool
  deriving DecidableEq

inductive Call
  -- the address, and the code that `generate_code` draws
  | issue (email code : String)
  | verify (email code : String)
  deriving DecidableEq

/-- Where a call is: the Redis command that it sends next, with what it needs for it. -/
inductive Pc
  | start
  -- `issue_register_code`: EXISTS of the cooldown, SET of the code and SET of the cooldown
  | checking (key code : String)
  | storing (key code : String)
  | cooling (key code : String)
  -- `verify_and_consume_register_code`: GET; after a wrong guess TTL, then SET or DEL
  | reading (key guess : String)
  | timing (key : String) (stored : Stored) (guess : String)
  | saving (key : String) (stored : Stored) (guess : String)
  | dropping (key : String) (stored : Stored) (guess : String)
  -- DEL when there have been too many guesses, and after the right one
  | exhausted (key : String)
  | consuming (key : String) (stored : Stored) (guess : String)
  -- what a call has done
  | issued (code : String)
  | rateLimited
  | verified
  | refused
  | raised
  deriving DecidableEq

structure State (ι : Type) where
  -- `auth:register_code:{email}` and `auth:register_code:cooldown:{email}`
  codes : String → Option Stored
  cooldowns : String → Bool
  issues : ℕ
  -- the last answer first
  answers : List Answer
  pc : ι → Pc

inductive Act (ι : Type)
  | begin (i : ι) (call : Call)
  -- the next Redis command, and the seconds that its key has left
  | next (i : ι) (seconds : ℕ)
  | crash (i : ι)
  | expireCode (key : String)
  | expireCooldown (key : String)
  deriving DecidableEq

section Model

variable (lower : String → String) {ι : Type} [DecidableEq ι]

def normalizeEmail (email : String) : String := lower (strip email)

/-- Both keys normalize the address once more. -/
def keyOf (email : String) : String := normalizeEmail lower (normalizeEmail lower email)

/-- The branch that a verification takes on what it has read. -/
def Stored.next (st : Stored) (key guess : String) : Pc :=
  if st.attempts ≥ maxVerifyAttempts then .exhausted key
  else if st.issue.code ≠ strip guess then .timing key st guess
  else .consuming key st guess

namespace State

variable (s : State ι)

def setPc (i : ι) (pc : Pc) : State ι := { s with pc := Function.update s.pc i pc }

def begin (i : ι) : Call → State ι
  | .issue email code => s.setPc i (.checking (keyOf lower email) code)
  | .verify email code => s.setPc i (.reading (keyOf lower email) code)

/-- The SET of a new code. -/
def store (i : ι) (key code : String) : State ι where
  codes := Function.update s.codes key (some ⟨⟨key, s.issues, code⟩, 0⟩)
  cooldowns := s.cooldowns
  issues := s.issues + 1
  answers := s.answers
  pc := Function.update s.pc i (.cooling key code)

/-- The last command of a verification that has compared: what it leaves under the key, and its answer. -/
def answer (i : ι) (key : String) (left : Option Stored) (a : Answer) : State ι where
  codes := Function.update s.codes key left
  cooldowns := s.cooldowns
  issues := s.issues
  answers := a :: s.answers
  pc := Function.update s.pc i (if a.right then .verified else .refused)

/-- TTL: a key that is not there has -2, and one about to expire has 0. -/
def ttl (key : String) (seconds : ℕ) : ℤ := (s.codes key).elim (-2) fun _ => seconds

def command (i : ι) (seconds : ℕ) : Pc → Option (State ι)
  | .checking key code => some (s.setPc i (if s.cooldowns key then .rateLimited else .storing key code))
  | .storing key code => some (s.store i key code)
  | .cooling key code => some { s.setPc i (.issued code) with cooldowns := Function.update s.cooldowns key true }
  | .reading key guess => some (s.setPc i ((s.codes key).elim .refused fun st => st.next key guess))
  | .timing key st guess =>
    some (s.setPc i (if s.ttl key seconds > 0 then .saving key st guess else .dropping key st guess))
  | .saving key st guess =>
    some (s.answer i key (some { st with attempts := st.attempts + 1 }) ⟨st.issue, guess, false⟩)
  | .dropping key st guess => some (s.answer i key none ⟨st.issue, guess, false⟩)
  | .exhausted key => some { s.setPc i .refused with codes := Function.update s.codes key none }
  | .consuming key st guess => some (s.answer i key none ⟨st.issue, guess, true⟩)
  | .start | .issued _ | .rateLimited | .verified | .refused | .raised => none

end State

def step (s : State ι) : Act ι → Option (State ι)
  | .begin i call => if s.pc i = .start then some (s.begin lower i call) else none
  | .next i seconds => s.command i seconds (s.pc i)
  | .crash i => some (s.setPc i .raised)
  | .expireCode key => some { s with codes := Function.update s.codes key none }
  | .expireCooldown key => some { s with cooldowns := Function.update s.cooldowns key false }

def codes (ι : Type) [DecidableEq ι] : Machine (State ι) (Act ι) where
  init s := s = ⟨fun _ => none, fun _ => false, 0, [], fun _ => .start⟩
  step := step lower

/-- What a verification holds between its comparison and its answer. -/
structure Held where
  key : String
  stored : Stored
  guess : String
  right : Bool

def Pc.held : Pc → Option Held
  | .timing key st guess | .saving key st guess | .dropping key st guess => some ⟨key, st, guess, false⟩
  | .consuming key st guess => some ⟨key, st, guess, true⟩
  | _ => none

/-- The key that a verification is about to read. -/
def Pc.reads : Pc → Option String
  | .reading key _ => some key
  | _ => none

def Act.caller : Act ι → Option ι
  | .next i _ => some i
  | _ => none

/-- No verification reads an address while another one of it has yet to answer. -/
def Alone (s : State ι) (a : Act ι) : Prop :=
  ∀ i j, a.caller = some i → (s.pc i).reads ≠ none → (s.pc j).held.map Held.key ≠ (s.pc i).reads

/-- The answers about a code, the last one first. -/
def answersOf (answers : List Answer) (issue : Issue) : List Answer := answers.filter (·.issue = issue)

variable {lower} {s t : State ι} {i j : ι} {answers : List Answer} {issues : ℕ} {key key' code : String} {st : Stored}
  {pc : Pc} {left : Option Stored} {a : Answer}

namespace State

theorem setPc_pc_self : (s.setPc i pc).pc i = pc := Function.update_self ..

theorem setPc_pc_of_ne (h : j ≠ i) : (s.setPc i pc).pc j = s.pc j := Function.update_of_ne h ..

theorem store_codes_self : (s.store i key code).codes key = some ⟨⟨key, s.issues, code⟩, 0⟩ :=
  Function.update_self ..

theorem store_codes_of_ne (h : key' ≠ key) : (s.store i key code).codes key' = s.codes key' :=
  Function.update_of_ne h ..

theorem answer_codes_self : (s.answer i key left a).codes key = left := Function.update_self ..

theorem answer_codes_of_ne (h : key' ≠ key) : (s.answer i key left a).codes key' = s.codes key' :=
  Function.update_of_ne h ..

theorem answer_pc : (s.answer i key left a).pc = (s.setPc i (if a.right then .verified else .refused)).pc := rfl

theorem answer_answers : (s.answer i key left a).answers = a :: s.answers := rfl

end State

theorem answersOf_cons_self (a : Answer) (answers : List Answer) :
    answersOf (a :: answers) a.issue = a :: answersOf answers a.issue :=
  List.filter_cons_of_pos (decide_eq_true rfl)

theorem answersOf_cons_of_ne {issue : Issue} (h : a.issue ≠ issue) :
    answersOf (a :: answers) issue = answersOf answers issue :=
  List.filter_cons_of_neg fun heq => h (of_decide_eq_true heq)

/-! ### The counter -/

/-- A payload of a key, as the answers have it: it counts the guesses about its code, and all of them were wrong. -/
structure Counted (answers : List Answer) (issues : ℕ) (key : String) (st : Stored) : Prop where
  key_eq : st.issue.key = key
  known : st.issue.number < issues
  count : (answersOf answers st.issue).length = st.attempts
  wrong : ∀ a ∈ answersOf answers st.issue, a.right = false

/-- What a verification holds has been compared. -/
def Held.Compared (h : Held) : Prop :=
  h.stored.attempts < maxVerifyAttempts ∧ (h.right = true ↔ strip h.guess = h.stored.issue.code)

structure Inv (s : State ι) : Prop where
  stored : ∀ key st, s.codes key = some st →
    Counted s.answers s.issues key st ∧ st.attempts ≤ maxVerifyAttempts
  held : ∀ i h, (s.pc i).held = some h → Counted s.answers s.issues h.key h.stored ∧ h.Compared
  alone : ∀ i j h h', (s.pc i).held = some h → (s.pc j).held = some h' → h.key = h'.key → i = j
  known : ∀ a ∈ s.answers, a.issue.number < s.issues
  bounded : ∀ issue, (answersOf s.answers issue).length ≤ maxVerifyAttempts
  last : ∀ issue, ∀ a ∈ (answersOf s.answers issue).tail, a.right = false
  right : ∀ a ∈ s.answers, a.right = true ↔ strip a.guess = a.issue.code

/-- A call goes on, with nothing in hand or with what it has compared alone. -/
theorem Inv.setPc (h : Inv s)
    (hheld : ∀ hd, pc.held = some hd → Counted s.answers s.issues hd.key hd.stored ∧ hd.Compared ∧
      ∀ j h', j ≠ i → (s.pc j).held = some h' → h'.key ≠ hd.key) : Inv (s.setPc i pc) := by
  refine ⟨h.stored, fun j hd hj => ?_, fun j k hd hd' hj hk hkey => ?_, h.known, h.bounded, h.last, h.right⟩
  · by_cases hji : j = i
    · rw [hji, State.setPc_pc_self] at hj
      exact ⟨(hheld hd hj).1, (hheld hd hj).2.1⟩
    · rw [State.setPc_pc_of_ne hji] at hj
      exact h.held j hd hj
  · by_cases hji : j = i
    · by_cases hki : k = i
      · exact hji.trans hki.symm
      · rw [hji, State.setPc_pc_self] at hj
        rw [State.setPc_pc_of_ne hki] at hk
        exact absurd hkey.symm ((hheld hd hj).2.2 k hd' hki hk)
    · rw [State.setPc_pc_of_ne hji] at hj
      by_cases hki : k = i
      · rw [hki, State.setPc_pc_self] at hk
        exact absurd hkey ((hheld hd' hk).2.2 j hd hji hj)
      · rw [State.setPc_pc_of_ne hki] at hk
        exact h.alone j k hd hd' hj hk hkey

theorem Inv.setPc_of_none (h : Inv s) (hnone : pc.held = none) : Inv (s.setPc i pc) :=
  h.setPc fun _ hheld => by rw [hnone] at hheld; cases hheld

/-- Codes go away and cooldowns change. -/
theorem Inv.expire (h : Inv s) {codes : String → Option Stored} (cooldowns : String → Bool)
    (hcodes : ∀ key st, codes key = some st → s.codes key = some st) : Inv { s with codes, cooldowns } :=
  ⟨fun key st hst => h.stored key st (hcodes key st hst), h.held, h.alone, h.known, h.bounded, h.last, h.right⟩

theorem codes_of_update_none (hst : Function.update s.codes key none key' = some st) :
    s.codes key' = some st := by
  by_cases hkey : key' = key
  · rw [hkey, Function.update_self] at hst
    cases hst
  · rwa [Function.update_of_ne hkey] at hst

theorem Counted.later (h : Counted answers issues key st) : Counted answers (issues + 1) key st :=
  ⟨h.key_eq, Nat.lt_succ_of_lt h.known, h.count, h.wrong⟩

theorem Inv.store (h : Inv s) : Inv (s.store i key code) := by
  have hpc : Inv (s.setPc i (.cooling key code)) := h.setPc_of_none rfl
  refine ⟨fun key' st hst => ?_, fun j hd hj => ?_, hpc.alone, fun a ha => Nat.lt_succ_of_lt (h.known a ha), h.bounded,
    h.last, h.right⟩
  · by_cases hkey : key' = key
    · rw [hkey, State.store_codes_self] at hst
      cases hst
      have hnone : answersOf s.answers ⟨key, s.issues, code⟩ = [] := by
        refine List.filter_eq_nil_iff.2 fun a ha hissue => ?_
        have hnumber := h.known a ha
        rw [of_decide_eq_true hissue] at hnumber
        exact Nat.lt_irrefl _ hnumber
      refine ⟨⟨hkey.symm, Nat.lt_succ_self _, ?_, ?_⟩, Nat.zero_le _⟩
      · exact congrArg List.length hnone
      · exact fun a ha => absurd (hnone ▸ ha) List.not_mem_nil
    · rw [State.store_codes_of_ne hkey] at hst
      exact ⟨(h.stored key' st hst).1.later, (h.stored key' st hst).2⟩
  · exact ⟨(hpc.held j hd hj).1.later, (hpc.held j hd hj).2⟩

/-- A payload of another key is about another code. -/
theorem Counted.cons (h : Counted answers issues key st) (hkey : a.issue.key ≠ key) :
    Counted (a :: answers) issues key st := by
  have hne : a.issue ≠ st.issue := fun heq => hkey (heq ▸ h.key_eq)
  refine ⟨h.key_eq, h.known, ?_, ?_⟩
  · rw [answersOf_cons_of_ne hne, h.count]
  · rw [answersOf_cons_of_ne hne]
    exact h.wrong

/-- The answer of a verification: one more guess about its code, and no more of them when it was right. -/
theorem Inv.answer (h : Inv s) {hd : Held} (hheld : (s.pc i).held = some hd)
    (hleft : ∀ st ∈ left, hd.right = false ∧ st = { hd.stored with attempts := hd.stored.attempts + 1 }) :
    Inv (s.answer i hd.key left ⟨hd.stored.issue, hd.guess, hd.right⟩) := by
  obtain ⟨hcounted, hattempts, hright⟩ := h.held i hd hheld
  have hself := answersOf_cons_self ⟨hd.stored.issue, hd.guess, hd.right⟩ s.answers
  dsimp only at hself
  have hnone : (if hd.right then Pc.verified else .refused).held = none := by
    split <;> rfl
  refine ⟨fun key st hst => ?_, fun j hd' hj => ?_, (h.setPc_of_none hnone).alone, fun a ha => ?_, fun issue => ?_,
    fun issue => ?_, fun a ha => ?_⟩
  · by_cases hkey : key = hd.key
    · rw [hkey, State.answer_codes_self] at hst
      obtain ⟨hwrong, rfl⟩ := hleft st hst
      refine ⟨⟨hcounted.key_eq.trans hkey.symm, hcounted.known, ?_, ?_⟩, hattempts⟩
      · rw [State.answer_answers, hself, List.length_cons, hcounted.count]
      · rw [State.answer_answers, hself]
        intro a ha
        rcases List.mem_cons.1 ha with rfl | ha
        · exact hwrong
        · exact hcounted.wrong a ha
    · rw [State.answer_codes_of_ne hkey] at hst
      obtain ⟨hst, hle⟩ := h.stored key st hst
      exact ⟨hst.cons fun heq => hkey (heq.symm.trans hcounted.key_eq), hle⟩
  · have hji : j ≠ i := by
      rintro rfl
      rw [State.answer_pc, State.setPc_pc_self, hnone] at hj
      cases hj
    rw [State.answer_pc, State.setPc_pc_of_ne hji] at hj
    obtain ⟨hst, hcompared⟩ := h.held j hd' hj
    refine ⟨hst.cons fun heq => hji ?_, hcompared⟩
    exact h.alone j i hd' hd hj hheld (heq.symm.trans hcounted.key_eq)
  · rcases List.mem_cons.1 ha with rfl | ha
    · exact hcounted.known
    · exact h.known a ha
  · by_cases hissue : hd.stored.issue = issue
    · rw [State.answer_answers, ← hissue, hself, List.length_cons, hcounted.count]
      exact hattempts
    · rw [State.answer_answers, answersOf_cons_of_ne hissue]
      exact h.bounded issue
  · by_cases hissue : hd.stored.issue = issue
    · rw [State.answer_answers, ← hissue, hself, List.tail_cons]
      exact hcounted.wrong
    · rw [State.answer_answers, answersOf_cons_of_ne hissue]
      exact h.last issue
  · rcases List.mem_cons.1 ha with rfl | ha
    · exact hright
    · exact h.right a ha

/-! ### Runs -/

/-- The comparison of a verification that is alone. -/
theorem Inv.read (h : Inv s) (hst : s.codes key = some st) (guess : String)
    (halone : ∀ j hd, (s.pc j).held = some hd → hd.key ≠ key) : Inv (s.setPc i (st.next key guess)) := by
  obtain ⟨hcounted, -⟩ := h.stored key st hst
  rw [Stored.next]
  split
  · exact h.setPc_of_none rfl
  · next hattempts =>
    have hattempts : st.attempts < maxVerifyAttempts := Nat.lt_of_not_le hattempts
    split
    · next hne =>
      refine h.setPc fun hd hheld => ?_
      cases hheld
      have hcompared : (false = true ↔ strip guess = st.issue.code) :=
        ⟨fun hfalse => absurd hfalse Bool.false_ne_true, fun heq => absurd heq.symm hne⟩
      exact ⟨hcounted, ⟨hattempts, hcompared⟩, fun j h' _ hj => halone j h' hj⟩
    · next heq =>
      refine h.setPc fun hd hheld => ?_
      cases hheld
      exact ⟨hcounted, ⟨hattempts, fun _ => (not_not.1 heq).symm, fun _ => rfl⟩, fun j h' _ hj => halone j h' hj⟩

theorem inv_command (h : Inv s) {seconds : ℕ} (halone : Alone s (.next i seconds))
    (hcommand : s.command i seconds (s.pc i) = some t) : Inv t := by
  cases hpc : s.pc i with
  | checking key code =>
    rw [hpc] at hcommand
    cases hcommand
    refine h.setPc_of_none ?_
    split <;> rfl
  | storing key code =>
    rw [hpc] at hcommand
    cases hcommand
    exact h.store
  | cooling key code =>
    rw [hpc] at hcommand
    cases hcommand
    exact (h.setPc_of_none rfl).expire _ fun _ _ hst => hst
  | reading key guess =>
    rw [hpc] at hcommand
    cases hcommand
    have hfree : ∀ j hd, (s.pc j).held = some hd → hd.key ≠ key := by
      rintro j hd hj rfl
      have hreads : (s.pc i).reads = some hd.key := by rw [hpc]; rfl
      refine halone i j rfl ?_ ?_
      · rw [hreads]
        exact Option.some_ne_none _
      · rw [hj, hreads]
        rfl
    cases hst : s.codes key with
    | none => exact h.setPc_of_none rfl
    | some st => exact h.read hst guess hfree
  | timing key st guess =>
    rw [hpc] at hcommand
    cases hcommand
    have hheld : (s.pc i).held = some ⟨key, st, guess, false⟩ := by rw [hpc]; rfl
    obtain ⟨hcounted, hcompared⟩ := h.held i _ hheld
    refine h.setPc fun hd hhd => ?_
    have heq : hd = ⟨key, st, guess, false⟩ := by
      split at hhd <;> cases hhd <;> rfl
    rw [heq]
    exact ⟨hcounted, hcompared, fun j h' hji hj hkey => hji (h.alone j i h' _ hj hheld hkey)⟩
  | saving key st guess =>
    rw [hpc] at hcommand
    cases hcommand
    have hheld : (s.pc i).held = some ⟨key, st, guess, false⟩ := by rw [hpc]; rfl
    refine h.answer hheld fun st' hst' => ?_
    cases hst'
    exact ⟨rfl, rfl⟩
  | dropping key st guess =>
    rw [hpc] at hcommand
    cases hcommand
    have hheld : (s.pc i).held = some ⟨key, st, guess, false⟩ := by rw [hpc]; rfl
    exact h.answer hheld fun st' hst' => by cases hst'
  | exhausted key =>
    rw [hpc] at hcommand
    cases hcommand
    exact (h.setPc_of_none rfl).expire _ fun _ _ hst => codes_of_update_none hst
  | consuming key st guess =>
    rw [hpc] at hcommand
    cases hcommand
    have hheld : (s.pc i).held = some ⟨key, st, guess, true⟩ := by rw [hpc]; rfl
    exact h.answer hheld fun st' hst' => by cases hst'
  | start | issued _ | rateLimited | verified | refused | raised =>
    rw [hpc] at hcommand
    cases hcommand

theorem inv_step (h : Inv s) {a : Act ι} (halone : Alone s a) (hstep : step lower s a = some t) : Inv t := by
  cases a with
  | begin i call =>
    rw [step] at hstep
    split at hstep
    · cases hstep
      cases call with
      | issue email code => exact h.setPc_of_none rfl
      | verify email code => exact h.setPc_of_none rfl
    · cases hstep
  | next i seconds => exact inv_command h halone hstep
  | crash i =>
    cases hstep
    exact h.setPc_of_none rfl
  | expireCode key =>
    cases hstep
    exact h.expire s.cooldowns fun _ _ hst => codes_of_update_none hst
  | expireCooldown key =>
    cases hstep
    exact h.expire _ fun _ _ hst => hst

theorem inv_init (h : (codes lower ι).init s) : Inv s := by
  cases h
  refine ⟨?_, ?_, ?_, ?_, fun _ => Nat.zero_le _, ?_, ?_⟩
  · exact fun _ _ hst => by cases hst
  · exact fun _ _ hheld => by cases hheld
  · exact fun _ _ _ _ hheld => by cases hheld
  · exact fun a ha => absurd ha List.not_mem_nil
  · exact fun _ a ha => absurd ha List.not_mem_nil
  · exact fun a ha => absurd ha List.not_mem_nil

/-- While verifications of one address do not overlap, whatever else runs, raises or expires: at most five guesses about
a code are answered, the answer says whether the guess is the code, and after the right one there is no other. -/
theorem guesses_bounded (h : (codes lower ι).Reach Alone s) (issue : Issue) :
    (answersOf s.answers issue).length ≤ maxVerifyAttempts ∧
      (∀ a ∈ answersOf s.answers issue, a.right = true ↔ strip a.guess = issue.code) ∧
      ∀ a ∈ (answersOf s.answers issue).tail, a.right = false := by
  have hinv : Inv s := h.induct (P := fun s => Inv s) (fun _ hinit => inv_init hinit)
    fun _ _ _ hs halone hstep => inv_step hs halone hstep
  refine ⟨hinv.bounded issue, fun a ha => ?_, hinv.last issue⟩
  obtain ⟨hmem, hissue⟩ := List.mem_filter.1 ha
  rw [← of_decide_eq_true hissue]
  exact hinv.right a hmem

instance [Fintype ι] (s : State ι) (a : Act ι) : Decidable (Alone s a) := inferInstanceAs (Decidable (∀ _, _))

/-- A wrong guess and then the right one. -/
theorem guesses_bounded_twice : ∃ s, (codes id (Fin 3)).Reach Alone s ∧
    s.answers = [⟨⟨"a", 0, "42"⟩, "42", true⟩, ⟨⟨"a", 0, "42"⟩, "41", false⟩] ∧
    (answersOf s.answers ⟨"a", 0, "42"⟩).length ≤ maxVerifyAttempts := by
  obtain ⟨s, -, hreach, hanswers⟩ := (codes id (Fin 3)).reach_of_exec (C := Alone)
    (p := fun s => decide (s.answers = [⟨⟨"a", 0, "42"⟩, "42", true⟩, ⟨⟨"a", 0, "42"⟩, "41", false⟩]))
    [.begin 0 (.issue "a" "42"), .next 0 60, .next 0 60, .next 0 60,
      .begin 1 (.verify "a" "41"), .next 1 60, .next 1 60, .next 1 60,
      .begin 2 (.verify "a" "42"), .next 2 60, .next 2 60] rfl (by decide)
  exact ⟨s, hreach, of_decide_eq_true hanswers, (guesses_bounded hreach _).1⟩

-- two wrong guesses that overlap count once
example : ((codes id ℕ).exec Free ⟨fun _ => none, fun _ => false, 0, [], fun _ => .start⟩
    [.begin 0 (.issue "a" "42"), .next 0 60, .next 0 60, .next 0 60,
      .begin 1 (.verify "a" "40"), .begin 2 (.verify "a" "41"),
      .next 1 60, .next 2 60, .next 1 60, .next 2 60, .next 1 60, .next 2 60]).any
    (fun s => s.codes "a" = some ⟨⟨"a", 0, "42"⟩, 1⟩ ∧ s.answers.length = 2) = true := by
  decide

end Model

end NexusStudio.RegisterCodes
