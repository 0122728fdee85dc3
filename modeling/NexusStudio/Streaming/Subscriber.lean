import NexusStudio.Streaming.ReplayLog

/-!
# A subscriber of a replay log

`stream_replay` for a client that may go away at any frame and come back with the id of the last frame it has got.

* (text) The id of a frame is read back from `Last-Event-ID` as it was written.
* (stream) Reads, metadata and lease are calls of their own, between which the workers go on.
* (law) What the client has got is a prefix of the log, and a stream that ends has delivered a closed log.
* (heartbeats) A HEARTBEAT has no id and is not in the log.
-/

set_option linter.unusedSectionVars false

namespace NexusStudio.Subscriber

open Concurrent Replay ReplayStore
open Streaming (StreamFrame Settings)

/-! ### Ids as text -/

def idText (a : EventId) : String := a.major.repr ++ "-" ++ a.minor.repr

theorem digit_of_mem_toDigits {n : Nat} {d : Char} (h : d ∈ Nat.toDigits 10 n) : ('0' ≤ d && d ≤ '9') = true :=
  Nat.isDigit_of_mem_toDigits (by decide) (by decide) h

theorem toDigits_head {n : Nat} (h : 0 < n) :
    ∃ d l, Nat.toDigits 10 n = d :: l ∧ ('1' ≤ d && d ≤ '9') = true := by
  induction n using Nat.strongRecOn with
  | ind n ih =>
    by_cases hn : n < 10
    · rw [Nat.toDigits_of_lt_base hn]
      refine ⟨_, _, rfl, ?_⟩
      interval_cases n <;> decide
    · have hle : 10 ≤ n := Nat.le_of_not_lt hn
      obtain ⟨d, l, hl, hd⟩ := ih (n / 10) (by omega) (by omega)
      rw [Nat.toDigits_of_base_le (by decide) hle, hl]
      exact ⟨d, _, rfl, hd⟩

theorem decimal_toDigits (n : Nat) : decimal (Nat.toDigits 10 n) = some n := by
  rcases Nat.eq_zero_or_pos n with rfl | h
  · rfl
  obtain ⟨d, l, hl, hd⟩ := toDigits_head h
  have hall : (l.all fun d => '0' ≤ d && d ≤ '9') = true :=
    List.all_eq_true.2 fun _ he => digit_of_mem_toDigits (hl ▸ List.mem_cons_of_mem d he)
  have hvalue := Nat.ofDigitChars_ten_toDigits (n := n)
  rw [Nat.ofDigitChars_eq_foldl, hl] at hvalue
  rw [hl]
  unfold decimal
  split
  case h_1 h => cases h
  case h_2 h =>
    cases h
    exact absurd hd (by decide)
  case h_3 h =>
    cases h
    rw [hd, hall, Bool.and_self, if_pos rfl]
    exact congrArg some hvalue

theorem toList_idText (a : EventId) :
    (idText a).toList = Nat.toDigits 10 a.major ++ '-' :: Nat.toDigits 10 a.minor := by
  rw [idText, String.toList_append, String.toList_append, Nat.toList_repr, Nat.toList_repr, List.append_assoc]
  rfl

theorem parseEventId_idText (a : EventId) : parseEventId (idText a) = some a := by
  have hne : ∀ d ∈ Nat.toDigits 10 a.major, decide (d ≠ '-') = true := by
    rintro d hd
    refine decide_eq_true ?_
    rintro rfl
    exact absurd (digit_of_mem_toDigits hd) (by decide)
  rw [parseEventId, toList_idText, List.span_eq_takeWhile_dropWhile, List.takeWhile_append_of_pos hne,
    List.dropWhile_append_of_pos hne, List.takeWhile_cons_of_neg (by decide), List.dropWhile_cons_of_neg (by decide),
    List.append_nil]
  simp only [decimal_toDigits]
  rfl

theorem dropWhile_of_none {p : Char → Bool} {l : List Char} (h : ∀ d ∈ l, p d = false) : l.dropWhile p = l := by
  refine List.dropWhile_eq_self_iff.2 fun hl => ?_
  rw [h _ (List.getElem_mem hl)]
  exact Bool.false_ne_true

theorem strip_of_none {s : String} (h : ∀ d ∈ s.toList, isSpace d = false) : strip s = s := by
  rw [strip, dropWhile_of_none h, dropWhile_of_none fun d hd => h d (List.mem_reverse.1 hd), List.reverse_reverse,
    String.ofList_toList]

theorem isSpace_of_digit {d : Char} (h : ('0' ≤ d && d ≤ '9') = true) : isSpace d = false := by
  rw [Bool.and_eq_true, decide_eq_true_eq, decide_eq_true_eq] at h
  have h₀ : 48 ≤ d.toNat := h.1
  have h₁ : d.toNat ≤ 57 := h.2
  unfold isSpace
  simp
  omega

theorem strip_idText (a : EventId) : strip (idText a) = idText a := by
  refine strip_of_none fun d hd => ?_
  rw [toList_idText] at hd
  rcases List.mem_append.1 hd with hd | hd
  · exact isSpace_of_digit (digit_of_mem_toDigits hd)
  · rcases List.mem_cons.1 hd with rfl | hd
    · decide
    · exact isSpace_of_digit (digit_of_mem_toDigits hd)

theorem validateEventId_idText {δ : Type} (a : EventId) : validateEventId (δ := δ) (some (idText a)) = .ok a := by
  have hne : idText a ≠ "" := by
    intro h
    have hparse := parseEventId_idText a
    rw [h] at hparse
    cases hparse
  rw [validateEventId, Option.getD_some, strip_idText, if_neg hne, parseEventId_idText]

/-! ### The machine -/

/-- What `stream_replay` yields. -/
inductive Chunk
  | entry (e : Entry)
  | heartbeat (turnId : String) (ts : Nat)
  deriving DecidableEq, Repr

def Chunk.frame : Chunk → StreamFrame
  | entry e => e.frame
  | heartbeat .. => .heartbeat

def Chunk.entry? : Chunk → Option Entry
  | entry e => some e
  | heartbeat .. => none

/-- The parameter `meta` of a stream, and its cursor. -/
structure Stream where
  opened : StoredMeta
  cursor : EventId
  deriving DecidableEq, Repr

inductive Pc
  -- the client has no connection
  | away
  -- `ensure_replay_available` of a request
  | requesting (m : StoredMeta)
  | reading (r : Stream)
  | yielding (r : Stream) (entries : List Entry)
  -- `require_meta`, after entries and after none
  | checking (r : Stream)
  | waiting (r : Stream)
  -- `has_lease` for an active log
  | leasing (r : Stream) (current : StoredMeta)
  | marking (r : Stream)
  | beating (r : Stream)
  -- the stream has ended normally
  | ended
  deriving DecidableEq, Repr

structure State (ι : Type) where
  log : ReplayLog.State ι
  pc : Pc
  received : List Chunk

inductive Action (ι : Type)
  | worker (a : ReplayLog.Action ι)
  | connect
  | disconnect
  -- the call under way, or the next `yield`
  | run (ms now : Nat)
  -- the read under way times out
  | timeout

def State.entries {ι : Type} (s : State ι) : List Entry := s.received.filterMap Chunk.entry?

/-- `Last-Event-ID`: the id of the last frame with an id. -/
def State.header {ι : Type} (s : State ι) : Option String := s.entries.getLast?.map fun e => idText e.id

/-- `validate_replay_cursor` with the cursor it returns. -/
def replayCursor (m : StoredMeta) (value : Option String) : Option EventId :=
  match validateReplayCursor (δ := Unit) m.toReplayMeta value, validateEventId (δ := Unit) value with
  | .ok (), .ok cursor => some cursor
  | _, _ => none

/-- `read_after`. -/
def readAfter (k : Keys) (cursor : EventId) (count : Nat) : List Entry :=
  (k.events.filter fun e => e.id.ahead cursor).take count

section Model

variable {ι : Type} [DecidableEq ι] (c : Settings) (leaseTtl : Nat)

def State.goto (s : State ι) (pc : Pc) : State ι := { s with pc }

def State.receive (s : State ι) (x : Chunk) (pc : Pc) : State ι := { s with pc, received := s.received ++ [x] }

def run (s : State ι) (ms now : Nat) : Option (State ι) :=
  let k := s.log.keys
  match s.pc with
  | .away | .ended => none
  | .requesting m =>
    if m.lastEventId ≠ none ∧ m.status.closed ∧ k.events = [] then some (s.goto .away)
    else match replayCursor m s.header with
      | none => some (s.goto .away)
      | some cursor => some (s.goto (.reading ⟨m, cursor⟩))
  | .reading r =>
    match readAfter k r.cursor 100 with
    | [] => some (s.goto (.waiting r))
    | entries => some (s.goto (.yielding r entries))
  | .yielding r [] => some (s.goto (.checking r))
  | .yielding r (e :: entries) =>
    some (s.receive (.entry e) (.yielding { r with cursor := e.id } entries))
  | .checking r =>
    match k.hash with
    | none => some (s.goto .away)
    | some current =>
      if current.status.closed ∧ some r.cursor = current.lastEventId then some (s.goto .ended)
      else some (s.goto (.reading r))
  | .waiting r =>
    match k.hash with
    | none => some (s.goto .away)
    | some current =>
      if current.status.closed ∧ (current.lastEventId = none ∨ some r.cursor = current.lastEventId) then
        some (s.goto .ended)
      else if current.status.closed then some (s.goto (.beating r))
      else some (s.goto (.leasing r current))
  | .leasing r current =>
    if k.lease.isSome then some (s.goto (.beating r))
    else if current.status = .running ∨ current.createdAt + leaseTtl ≤ now then some (s.goto (.marking r))
    else some (s.goto (.beating r))
  | .marking r =>
    some { s with log := s.log.write (k.markLost c ms now (some r.opened.turnId)).2, pc := .reading r }
  | .beating r => some (s.receive (.heartbeat r.opened.turnId now) (.reading r))

def step (s : State ι) : Action ι → Option (State ι)
  | .worker a => (ReplayLog.step c s.log a).map fun log => { s with log }
  | .connect =>
    match s.pc, s.log.keys.hash with
    | .away, some m | .ended, some m => some (s.goto (.requesting m))
    | _, _ => none
  | .disconnect => some (s.goto .away)
  | .run ms now => run c leaseTtl s ms now
  | .timeout =>
    match s.pc with
    | .reading r => some (s.goto (.waiting r))
    | _ => none

/-- A client that has got nothing yet. -/
structure Initial (s : State ι) : Prop where
  log : ReplayLog.Initial s.log
  pc : s.pc = .away
  received : s.received = []

def subscriber : Machine (State ι) (Action ι) where
  init := Initial
  step := step c leaseTtl

/-- The frames of the log that the client has got are a prefix of it, and all of it when the stream has ended. -/
structure Law (s : State ι) : Prop where
  delivered : s.entries <+: s.log.keys.events
  ended : s.pc = .ended → s.log.keys.Closed ∧ s.entries = s.log.keys.events

end Model

/-! ### What a cursor leaves -/

section Cursors

variable {k k' : Keys} {m : StoredMeta} {l r : List Entry} {a : EventId}

theorem not_ahead_of_ahead {a b : EventId} (h : b.ahead a = true) : a.ahead b = false :=
  Bool.eq_false_of_not_eq_true fun h' => Bool.false_ne_true ((ahead_irrefl a).symm.trans (ahead_trans h' h))

/-- No entry is ahead of the last one. -/
theorem not_ahead_lastId (h : Increasing l) {e : Entry} (he : e ∈ l) : e.id.ahead (lastId l) = false := by
  rcases List.eq_nil_or_concat' l with rfl | ⟨l, last, rfl⟩
  · cases he
  · rw [lastId_concat]
    rcases List.mem_append.1 he with hl | hl
    · exact not_ahead_of_ahead ((List.pairwise_append.1 h).2.2 e hl last (List.mem_singleton_self last))
    · rw [List.mem_singleton.1 hl]
      exact ahead_irrefl last.id

/-- The entries ahead of a delivered part are the others. -/
theorem filter_ahead (h : Increasing (l ++ r)) (hp : ∀ e ∈ l ++ r, e.id.ahead ⟨0, 0⟩ = true) :
    ((l ++ r).filter fun e => e.id.ahead (lastId l)) = r := by
  have hl : (l.filter fun e => e.id.ahead (lastId l)) = [] := by
    refine List.filter_eq_nil_iff.2 fun e he => ?_
    rw [not_ahead_lastId (List.pairwise_append.1 h).1 he]
    exact Bool.false_ne_true
  have hr : (r.filter fun e => e.id.ahead (lastId l)) = r := by
    refine List.filter_eq_self.2 fun e he => ?_
    rcases List.eq_nil_or_concat' l with rfl | ⟨l, last, rfl⟩
    · exact hp e he
    · rw [lastId_concat]
      have hlast : last ∈ l ++ [last] := List.mem_append_right l (List.mem_singleton_self last)
      exact (List.pairwise_append.1 h).2.2 last hlast e he
  rw [List.filter_append, hl, hr, List.nil_append]

theorem append_readAfter (hs : Sound k) (h : l <+: k.events) (count : Nat) :
    l ++ readAfter k (lastId l) count <+: k.events := by
  obtain ⟨r, hr⟩ := h
  have hrest : (k.events.filter fun e => e.id.ahead (lastId l)) = r := by
    rw [← hr]
    exact filter_ahead (hr ▸ hs.increasing) (hr ▸ hs.positive)
  rw [readAfter, hrest, ← hr]
  exact List.prefix_append_right_inj l |>.2 (List.take_prefix count r)

/-- A delivered part whose last id is the one of the log is the log. -/
theorem eq_of_lastId (hs : Sound k) (hk : k.hash = some m) (h : l <+: k.events)
    (hlast : m.lastEventId = none ∨ some (lastId l) = m.lastEventId) : l = k.events := by
  have hstored := hs.last m hk
  obtain ⟨r, hr⟩ := h
  rcases List.eq_nil_or_concat' r with rfl | ⟨r, last, rfl⟩
  · rw [← hr, List.append_nil]
  · have hmem : last ∈ k.events := by
      rw [← hr, ← List.append_assoc]
      exact List.mem_append_right _ (List.mem_singleton_self last)
    have hrest := filter_ahead (hr ▸ hs.increasing) (hr ▸ hs.positive)
    rw [← hr, ← List.append_assoc, List.getLast?_append] at hstored
    rcases hlast with hnone | hsome
    · cases hnone.symm.trans hstored
    · have hid : lastId l = last.id := Option.some.inj (hsome.trans hstored)
      have hahead : last ∈ r ++ [last] := List.mem_append_right r (List.mem_singleton_self last)
      rw [← hrest] at hahead
      have hself := (List.mem_filter.1 hahead).2
      rw [hid, ahead_irrefl] at hself
      cases hself

theorem replayCursor_of {value : Option String} (hv : validateEventId (δ := Unit) value = .ok a)
    (ha : a = ⟨0, 0⟩ ∨ ∃ last ∈ m.lastEventId, a.ahead last = false) : replayCursor m value = some a := by
  have hcheck : validateReplayCursor (δ := Unit) m.toReplayMeta value = .ok () := by
    unfold validateReplayCursor
    rw [hv]
    rcases ha with rfl | ⟨last, hlast, hbehind⟩
    · rfl
    · have hlast : m.lastEventId = some last := hlast
      simp only [bind, Except.bind]
      rw [if_neg]
      · rfl
      · rw [hlast, Option.all_some, hbehind]
        exact fun h => Bool.false_ne_true h.2
  rw [replayCursor, hcheck, hv]

end Cursors

/-! ### The invariant -/

section Proofs

variable {ι : Type} [DecidableEq ι] {c : Settings} {leaseTtl : Nat} {s s' : State ι} {a : Action ι} {m : StoredMeta}

/-- The cursor of a stream is the last id that the client has got. -/
def Pc.Fits (s : State ι) : Pc → Prop
  | away => True
  | requesting m => replayCursor m s.header = some (lastId s.entries) ∧ (m.lastEventId ≠ none → s.log.keys.events ≠ [])
  | reading r | checking r | waiting r | leasing r _ | marking r | beating r => r.cursor = lastId s.entries
  | yielding r l => r.cursor = lastId s.entries ∧ s.entries ++ l <+: s.log.keys.events
  | ended => s.log.keys.Closed ∧ s.entries = s.log.keys.events

structure Inv (s : State ι) : Prop where
  log : ReplayLog.Inv s.log
  delivered : s.entries <+: s.log.keys.events
  pc : s.pc.Fits s

/-- What the workers do leaves a stream where it is. -/
theorem Pc.Fits.of_effect {pc : Pc} (hs : Sound s.log.keys) (he : Effect s.log.keys s'.log.keys)
    (hr : s'.received = s.received) (h : pc.Fits s) : pc.Fits s' := by
  have hentries : s'.entries = s.entries := by rw [State.entries, State.entries, hr]
  have hheader : s'.header = s.header := by rw [State.header, State.header, hentries]
  have hgrow := prefix_of_effect hs he
  cases pc with
  | away => trivial
  | requesting m =>
    refine ⟨hheader ▸ hentries ▸ h.1, fun hm hnil => h.2 hm ?_⟩
    exact List.prefix_nil.1 (hnil ▸ hgrow)
  | yielding r l => exact ⟨hentries ▸ h.1, hentries ▸ h.2.trans hgrow⟩
  | ended =>
    refine ⟨closed_of_effect he h.1, ?_⟩
    rw [hentries, (frozen_of_effect he h.1).2]
    exact h.2
  | _ => exact Eq.trans h (congrArg lastId hentries.symm)

theorem inv_goto (hI : Inv s) {pc : Pc} (h : pc.Fits s) : Inv (s.goto pc) := by
  refine ⟨hI.log, hI.delivered, ?_⟩
  cases pc with
  | _ => exact h

theorem header_cursor (hI : Inv s) (hm : s.log.keys.hash = some m) :
    replayCursor m s.header = some (lastId s.entries) := by
  have hlast := hI.log.sound.last m hm
  have hdelivered := hI.delivered
  unfold State.header
  rcases List.eq_nil_or_concat' s.entries with hnil | ⟨l, e, hl⟩
  · rw [hnil]
    exact replayCursor_of rfl (.inl rfl)
  · rw [hl] at hdelivered ⊢
    rw [lastId_concat, List.getLast?_append]
    refine replayCursor_of (validateEventId_idText e.id) (.inr ?_)
    have he : e ∈ s.log.keys.events := hdelivered.subset (List.mem_append_right l (List.mem_singleton_self e))
    rcases List.eq_nil_or_concat' s.log.keys.events with hnil | ⟨l', last, hl'⟩
    · rw [hnil] at he
      cases he
    · have hbehind := not_ahead_lastId hI.log.sound.increasing he
      rw [hl', lastId_concat] at hbehind
      refine ⟨last.id, ?_, hbehind⟩
      rw [hlast, hl', List.getLast?_append]
      rfl

theorem entries_receive (s : State ι) (x : Chunk) (pc : Pc) :
    (s.receive x pc).entries = s.entries ++ x.entry?.toList := by
  rw [State.entries, State.receive, List.filterMap_append]
  cases x with
  | _ => rfl

/-- A script that the stream itself calls. -/
theorem inv_log (hI : Inv s) {log : ReplayLog.State ι} (hlog : ReplayLog.Inv log) (he : Effect s.log.keys log.keys)
    {pc : Pc} (h : pc.Fits s) : Inv ({ s with log, pc } : State ι) :=
  ⟨hlog, hI.delivered.trans (prefix_of_effect hI.log.sound he), h.of_effect hI.log.sound he rfl⟩

theorem inv_run (hI : Inv s) {ms now : Nat} (h : run c leaseTtl s ms now = some s') : Inv s' := by
  have hpc := hI.pc
  unfold run at h
  cases hs : s.pc with
  | away | ended =>
    simp only [hs] at h
    cases h
  | requesting m =>
    rw [hs] at hpc
    simp only [hs, hpc.1] at h
    split at h
    · cases h
      exact inv_goto hI trivial
    · cases h
      exact inv_goto hI rfl
  | reading r =>
    rw [hs] at hpc
    simp only [hs] at h
    have hread := append_readAfter hI.log.sound hI.delivered 100
    rw [← show r.cursor = _ from hpc] at hread
    split at h
    · cases h
      exact inv_goto hI hpc
    · cases h
      exact inv_goto hI ⟨hpc, hread⟩
  | yielding r l =>
    rw [hs] at hpc
    cases l with
    | nil =>
      simp only [hs] at h
      cases h
      exact inv_goto hI hpc.1
    | cons e l =>
      simp only [hs] at h
      cases h
      have hentries : (s.receive (.entry e) (.yielding { r with cursor := e.id } l)).entries = s.entries ++ [e] :=
        entries_receive s (.entry e) _
      have hgot := hpc.2
      rw [List.append_cons] at hgot
      refine ⟨hI.log, ?_, ?_, ?_⟩
      · rw [hentries]
        exact (List.prefix_append _ l).trans hgot
      · rw [hentries, lastId_concat]
      · rw [hentries]
        exact hgot
  | checking r =>
    rw [hs] at hpc
    simp only [hs] at h
    split at h
    · cases h
      exact inv_goto hI trivial
    · rename_i current hcurrent
      split at h
      · rename_i hend
        cases h
        refine inv_goto hI ⟨⟨current, hcurrent, hend.1⟩, eq_of_lastId hI.log.sound hcurrent hI.delivered (.inr ?_)⟩
        exact (congrArg some hpc).symm.trans hend.2
      · cases h
        exact inv_goto hI hpc
  | waiting r =>
    rw [hs] at hpc
    simp only [hs] at h
    split at h
    · cases h
      exact inv_goto hI trivial
    · rename_i current hcurrent
      split at h
      · rename_i hend
        cases h
        refine inv_goto hI ⟨⟨current, hcurrent, hend.1⟩, eq_of_lastId hI.log.sound hcurrent hI.delivered ?_⟩
        exact hend.2.imp_right (congrArg some hpc).symm.trans
      · split at h
        · cases h
          exact inv_goto hI hpc
        · cases h
          exact inv_goto hI hpc
  | leasing r current =>
    rw [hs] at hpc
    simp only [hs] at h
    split at h
    · cases h
      exact inv_goto hI hpc
    · split at h
      · cases h
        exact inv_goto hI hpc
      · cases h
        exact inv_goto hI hpc
  | marking r =>
    rw [hs] at hpc
    simp only [hs] at h
    cases h
    exact inv_log hI (ReplayLog.inv_write hI.log (effect_markLost _)) (effect_markLost _) hpc
  | beating r =>
    rw [hs] at hpc
    simp only [hs] at h
    cases h
    have hentries : (s.receive (.heartbeat r.opened.turnId now) (.reading r)).entries = s.entries := by
      rw [entries_receive]
      exact List.append_nil _
    refine ⟨hI.log, ?_, ?_⟩
    · rw [hentries]
      exact hI.delivered
    · exact Eq.trans hpc (congrArg lastId hentries.symm)

theorem inv_step (hI : Inv s) (h : step c leaseTtl s a = some s') : Inv s' := by
  cases a with
  | worker a =>
    obtain ⟨log, hlog, hs'⟩ := Option.map_eq_some_iff.1 h
    subst hs'
    obtain ⟨heffect, hinv⟩ := ReplayLog.effect_of_step hI.log hlog
    exact inv_log hI hinv heffect hI.pc
  | connect =>
    have hrequest : ∀ m, s.log.keys.hash = some m → Inv (s.goto (.requesting m)) := by
      intro m hm
      refine inv_goto hI ⟨header_cursor hI hm, fun hlast hnil => hlast ?_⟩
      rw [hI.log.sound.last m hm, hnil]
      rfl
    simp only [step] at h
    split at h
    · rename_i m _ hm
      cases h
      exact hrequest m hm
    · rename_i m _ hm
      cases h
      exact hrequest m hm
    · cases h
  | disconnect =>
    cases h
    exact inv_goto hI trivial
  | run ms now => exact inv_run hI h
  | timeout =>
    have hpc := hI.pc
    simp only [step] at h
    split at h
    · rename_i r hs
      cases h
      rw [hs] at hpc
      exact inv_goto hI hpc
    · cases h

theorem inv_reach (h : (subscriber c leaseTtl).Reach Free s) : Inv s := by
  refine h.induct (fun s hs => ?_) fun _ _ _ hI _ hstep => inv_step hI hstep
  have hentries : s.entries = [] := by rw [State.entries, hs.received]; rfl
  refine ⟨ReplayLog.inv_init hs.log, hentries ▸ List.nil_prefix, ?_⟩
  rw [hs.pc]
  trivial

/-! ### What the client gets -/

/-- In every run the entries that the client has got are a prefix of the log, and a stream that has ended has delivered
a closed log. -/
theorem delivered_prefix (h : (subscriber c leaseTtl).Reach Free s) : Law s := by
  have hI := inv_reach h
  refine ⟨hI.delivered, fun hs => ?_⟩
  have hpc := hI.pc
  rw [hs] at hpc
  exact hpc

/-- A client that comes back with the id of its last frame is not turned away. -/
theorem resumes_of_requesting (h : (subscriber c leaseTtl).Reach Free s) (hs : s.pc = .requesting m) (ms now : Nat) :
    run c leaseTtl s ms now = some (s.goto (.reading ⟨m, lastId s.entries⟩)) := by
  have hpc := (inv_reach h).pc
  rw [hs] at hpc
  unfold run
  simp only [hs, hpc.1]
  exact if_neg fun hn => hpc.2 hn.1 hn.2.2

end Proofs

/-! ### A client that comes back -/

def idle : State Unit := ⟨ReplayLog.untouched, .away, []⟩

theorem initial_idle : Initial idle := ⟨ReplayLog.initial_untouched, rfl, rfl⟩

def smallLog : Settings := ⟨100, 1000, fun _ => 10⟩

/-- A client that goes away after its first frame gets the other one when it comes back, and then the end. -/
theorem delivered_prefix_of_return : ∃ s : State Unit, (subscriber smallLog 60).Reach Free s ∧
    (s.pc = .ended ∧ s.entries = [⟨⟨7, 0⟩, .answer "hello"⟩, ⟨⟨7, 1⟩, .done⟩]) ∧ Law s := by
  obtain ⟨s, -, hreach, hend⟩ := Machine.reach_of_exec (M := subscriber smallLog 60) (C := Free) (s := idle)
    (p := fun s => s.pc = .ended ∧ s.entries = [⟨⟨7, 0⟩, .answer "hello"⟩, ⟨⟨7, 1⟩, .done⟩])
    [.worker (.claim ReplayLog.turnMeta), .worker (.setRunning "owner"), .connect, .run 7 7,
      .worker (.append () (.answer "hello") 7 7), .run 7 7, .run 7 7, .disconnect, .connect, .run 7 7,
      .worker (.append () .done 7 7), .run 8 8, .run 8 8, .run 8 8, .run 8 8] initial_idle (by decide)
  exact ⟨s, hreach, of_decide_eq_true hend, delivered_prefix hreach⟩

/-- A read that finds nothing for a while yields a HEARTBEAT, which is no frame of the log. -/
theorem heartbeat_not_in_log : ∃ s : State Unit, (subscriber smallLog 60).Reach Free s ∧
    ¬ s.received.map Chunk.frame <+: s.log.keys.events.map Entry.frame := by
  obtain ⟨s, -, hreach, hend⟩ := Machine.reach_of_exec (M := subscriber smallLog 60) (C := Free) (s := idle)
    (p := fun s => s.received = [.heartbeat "turn" 9] ∧ s.log.keys.events = [])
    [.worker (.claim ReplayLog.turnMeta), .worker (.setRunning "owner"), .connect, .run 7 7, .run 7 7, .run 8 8,
      .run 9 9, .run 9 9] initial_idle (by decide)
  obtain ⟨hreceived, hevents⟩ := of_decide_eq_true hend
  refine ⟨s, hreach, fun hprefix => ?_⟩
  rw [hreceived, hevents] at hprefix
  cases List.prefix_nil.1 hprefix

end NexusStudio.Subscriber
