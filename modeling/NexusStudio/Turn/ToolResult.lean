import NexusStudio.Lib.JsonRead
import NexusStudio.Turn.EngineEvents
import NexusStudio.Turn.Frames
import NexusStudio.Turn.ToolCalls

/-!
# Results of tools

The text of a tool message is a JSON envelope with the fields of a `ToolResult`.

* (validity) `validateOutcome`; a `CheckedResult` carries it.
* (texts) `toToolMessage` and `parseToolMessage`, which is strict about keys and types: `parse_written`.
* (display) What is shown of a result is never empty.
* (runs) Every result on the bus of a turn is an envelope that says the same as the event that carries it:
  `results_consistent`.
-/

namespace NexusStudio.Turn

open JsonText

/-! ### Validity -/

/-- `validate_outcome`, after the check of the length of `error_type`. -/
def ToolResult.validateOutcome (r : ToolResult) : Except String Unit :=
  if r.errorType = some "" then .error "String should have at least 1 character"
  else if r.success then
    if r.output = "" then .error "successful tool result requires non-empty output"
    else if r.errorType ≠ none ∨ r.errorDetail ≠ none then .error "successful tool result cannot contain error fields"
    else .ok ()
  else if r.errorType = none then .error "failed tool result requires error_type"
  else .ok ()

/-- What a `ToolResult` that could be built satisfies. -/
structure ToolResult.Valid (r : ToolResult) : Prop where
  errorType_ne : r.errorType ≠ some ""
  outcome : if r.success then r.output ≠ "" ∧ r.errorType = none ∧ r.errorDetail = none else r.errorType ≠ none

theorem ToolResult.validateOutcome_ok_iff (r : ToolResult) : r.validateOutcome = .ok () ↔ r.Valid := by
  unfold validateOutcome
  constructor
  · intro h
    split_ifs at h with htype hsuccess houtput herror hnone
    · rw [not_or, not_ne_iff, not_ne_iff] at herror
      exact ⟨htype, by rw [if_pos hsuccess]; exact ⟨houtput, herror⟩⟩
    · exact ⟨htype, by rw [if_neg hsuccess]; exact hnone⟩
  · rintro ⟨htype, houtcome⟩
    rw [if_neg htype]
    split
    · next hsuccess =>
      rw [if_pos hsuccess] at houtcome
      obtain ⟨houtput, hnone, hdetail⟩ := houtcome
      rw [if_neg houtput, if_neg (by simp [hnone, hdetail])]
    · next hsuccess =>
      rw [if_neg hsuccess] at houtcome
      exact if_neg houtcome

/-- A result that has passed its own validation. -/
structure CheckedResult extends ToolResult where
  valid : toToolResult.Valid

theorem CheckedResult.ext {r r' : CheckedResult} (h : r.toToolResult = r'.toToolResult) : r = r' := by
  obtain ⟨r, _⟩ := r
  obtain ⟨r', _⟩ := r'
  cases h
  rfl

/-- Building a `ToolResult` of its fields. -/
def ToolResult.check (r : ToolResult) : Except String CheckedResult :=
  match h : r.validateOutcome with
  | .ok () => .ok ⟨r, r.validateOutcome_ok_iff.1 h⟩
  | .error e => .error e

theorem ToolResult.check_of_valid {r : ToolResult} (h : r.Valid) : r.check = .ok ⟨r, h⟩ := by
  have hok := r.validateOutcome_ok_iff.2 h
  unfold check
  split
  · rfl
  · next e he =>
    rw [hok] at he
    cases he

theorem ToolResult.eq_of_check {r : ToolResult} {c : CheckedResult} (h : r.check = .ok c) : c.toToolResult = r := by
  unfold check at h
  split at h
  · cases h
    rfl
  · cases h

theorem CheckedResult.check_toToolResult (r : CheckedResult) : r.check = .ok r := ToolResult.check_of_valid r.valid

/-- `ToolResult.ok`. -/
def CheckedResult.ok (output : String) : Except String CheckedResult :=
  ToolResult.check ⟨true, output, none, none⟩

/-- `ToolResult.fail` for an error type of the source. -/
def CheckedResult.fail (errorType : String) (detail : Option String) (output : String) (h : errorType ≠ "") :
    CheckedResult :=
  ⟨⟨false, output, some errorType, detail⟩, ⟨fun he => h (Option.some.inj he), Option.some_ne_none _⟩⟩

theorem CheckedResult.errorType_eq_none_iff (r : CheckedResult) : r.errorType = none ↔ r.success = true := by
  have houtcome := r.valid.outcome
  split at houtcome
  · next hsuccess => exact iff_of_true houtcome.2.1 hsuccess
  · next hsuccess => exact iff_of_false houtcome hsuccess

/-! ### The envelope -/

section Envelope

variable {ν : Type}

def optional : Option String → Value ν
  | none => .null
  | some s => .string s

/-- `model_dump`. -/
def ToolResult.modelDump (r : ToolResult) : Value ν :=
  .dict [("success", .bool r.success), ("output", .string r.output), ("error_type", optional r.errorType),
    ("error_detail", optional r.errorDetail)]

def ToolResult.toToolMessage (N : Reader ν) (r : ToolResult) : String :=
  String.ofList (write N.toNumbers [' '] (.dict [("tool_result", r.modelDump)]))

/-- A field of type `bool`, strictly. -/
def boolField : Option (Value ν) → Option Bool
  | some (.bool b) => some b
  | _ => none

def stringField : Option (Value ν) → Option String
  | some (.string s) => some s
  | _ => none

/-- A field of type `str | None` that is `None` by default. -/
def optionalField : Option (Value ν) → Option (Option String)
  | none => some none
  | some .null => some none
  | some (.string s) => some (some s)
  | _ => none

/-- The fields of a `ToolResult`. -/
def resultFields : List String := ["success", "output", "error_type", "error_detail"]

/-- `model_validate`, strict and without extra fields. -/
def modelValidate : Value ν → Option CheckedResult
  | .dict fields =>
    if (fields.map Prod.fst).all (· ∈ resultFields) then do
      let success ← boolField (fields.lookup "success")
      let output ← stringField (fields.lookup "output")
      let errorType ← optionalField (fields.lookup "error_type")
      let errorDetail ← optionalField (fields.lookup "error_detail")
      (ToolResult.check ⟨success, output, errorType, errorDetail⟩).toOption
    else none
  | _ => none

/-- What `parse_tool_message` makes of the value of its text. -/
def readEnvelope : Value ν → Except String CheckedResult
  | .dict [(key, payload)] =>
    if key = "tool_result" then
      match modelValidate payload with
      | some r => .ok r
      | none => .error "tool result payload violates contract"
    else .error "tool result envelope must contain only tool_result"
  | _ => .error "tool result envelope must contain only tool_result"

def parseToolMessage (N : Reader ν) (content : String) : Except String CheckedResult :=
  if strip content = "" then .error "tool result cannot be empty"
  else
    match loads N (strip content).toList with
    | none => .error "tool result is not valid JSON"
    | some raw => readEnvelope raw

theorem optionalField_optional (o : Option String) : optionalField (some (optional o : Value ν)) = some o := by
  cases o with
  | none => rfl
  | some s => rfl

theorem modelValidate_modelDump (r : CheckedResult) : modelValidate (r.modelDump : Value ν) = some r := by
  have hcheck := congrArg Except.toOption r.check_toToolResult
  have hall : resultFields.all (· ∈ resultFields) = true := by decide
  change (if resultFields.all (· ∈ resultFields) = true then _ else none) = some r
  rw [if_pos hall]
  have htype : optionalField (some (optional r.errorType : Value ν)) = some r.errorType := optionalField_optional _
  have hdetail : optionalField (some (optional r.errorDetail : Value ν)) = some r.errorDetail :=
    optionalField_optional _
  change (optionalField (some (optional r.errorType : Value ν))).bind (fun t =>
    (optionalField (some (optional r.errorDetail : Value ν))).bind fun d =>
      (ToolResult.check ⟨r.success, r.output, t, d⟩).toOption) = some r
  rw [htype, hdetail]
  exact hcheck

theorem keyed_modelDump (r : ToolResult) : (r.modelDump : Value ν).Keyed := by
  have hoptional : ∀ o, (optional o : Value ν).Keyed := fun o => by cases o <;> trivial
  exact ⟨(by decide : resultFields.Nodup), trivial, trivial, hoptional _, hoptional _, trivial⟩

/-- A text within white space is stripped of it. -/
theorem strip_surrounded {a s b : List Char} (ha : ∀ c ∈ a, isSpace c = true) (hb : ∀ c ∈ b, isSpace c = true)
    (hne : s ≠ []) (hhead : ∀ c ∈ s.head?, isSpace c = false) (hlast : ∀ c ∈ s.getLast?, isSpace c = false) :
    strip (String.ofList (a ++ s ++ b)) = String.ofList s := by
  have hfront : (a ++ (s ++ b)).dropWhile isSpace = s ++ b := by
    rw [List.dropWhile_append_of_pos ha]
    cases s with
    | nil => exact absurd rfl hne
    | cons c s => exact List.dropWhile_cons_of_neg (by simp [hhead c rfl])
  have hback : (b.reverse ++ s.reverse).dropWhile isSpace = s.reverse := by
    rw [List.dropWhile_append_of_pos fun c hc => hb c (List.mem_reverse.1 hc)]
    rw [← List.head?_reverse] at hlast
    generalize s.reverse = t at hlast ⊢
    cases t with
    | nil => rfl
    | cons c t => exact List.dropWhile_cons_of_neg (by simp [hlast c rfl])
  rw [strip, String.toList_ofList, List.append_assoc, hfront, List.reverse_append, hback, List.reverse_reverse]

/-- The text of an envelope ends with a brace. -/
theorem envelope_ends (N : Reader ν) (v : Value ν) :
    ∃ l, write N.toNumbers [' '] (.dict [("tool_result", v)]) = '\x7b' :: (l ++ ['\x7d']) := by
  refine ⟨writeString "tool_result" ++ ':' :: ' ' :: write N.toNumbers [' '] v, ?_⟩
  simp [write, writeFields]

/-- What a tool has returned is what is read from its message, whatever white space stands around it. -/
theorem parse_written (N : Reader ν) (r : CheckedResult) {before after : String}
    (hbefore : ∀ c ∈ before.toList, isSpace c = true) (hafter : ∀ c ∈ after.toList, isSpace c = true) :
    parseToolMessage N (before ++ r.toToolMessage N ++ after) = .ok r := by
  set v : Value ν := .dict [("tool_result", r.modelDump)] with hv
  obtain ⟨l, hl⟩ := envelope_ends N (r.modelDump : Value ν)
  have hstrip : strip (before ++ r.toToolMessage N ++ after) = String.ofList (write N.toNumbers [' '] v) := by
    have htext : before ++ r.toToolMessage N ++ after =
        String.ofList (before.toList ++ write N.toNumbers [' '] v ++ after.toList) := by
      apply String.toList_inj.1
      simp [ToolResult.toToolMessage, hv]
    rw [htext, hv, hl]
    refine strip_surrounded hbefore hafter (List.cons_ne_nil _ _) ?_ ?_
    · rintro c ⟨⟩
      decide
    · intro c hc
      rw [← List.cons_append, List.getLast?_concat] at hc
      obtain rfl := Option.some.inj hc
      decide
  have hne : String.ofList (write N.toNumbers [' '] v) ≠ "" := by
    rw [hv, hl]
    intro h
    have := congrArg String.toList h
    simp at this
  have hkeyed : v.Keyed := ⟨List.nodup_singleton _, keyed_modelDump r.toToolResult, trivial⟩
  rw [parseToolMessage, hstrip, if_neg hne, String.toList_ofList, loads_write N hkeyed]
  change readEnvelope (.dict [("tool_result", r.modelDump)]) = .ok r
  rw [readEnvelope, if_pos rfl, modelValidate_modelDump]

/-! ### Display -/

/-- The lines that `display_text` joins for a failure. -/
def ToolResult.failureLines (r : ToolResult) : List String :=
  (if r.output = "" then [] else [r.output]) ++ (r.errorDetail.filter fun d => d ≠ "").toList ++
    ((r.errorType.filter fun t => t ≠ "").map fun t => s!"error_type={t}").toList

def ToolResult.displayText (r : ToolResult) : String :=
  if r.success then r.output
  else if r.failureLines = [] then "error_type=" ++ r.errorType.getD "None"
  else "\n".intercalate r.failureLines

/-- `text[:limit]`. -/
def truncate (limit : ℕ) (text : String) : String := String.ofList (text.toList.take limit)

def ToolResult.previewText (r : ToolResult) (limit : ℕ) : String := truncate limit r.displayText

def displayFromMessage (N : Reader ν) (content : String) (limit : Option ℕ) : Except String String :=
  (parseToolMessage N content).map fun r => (limit.map fun n => truncate n r.displayText).getD r.displayText

def summarizeToolResult (N : Reader ν) (result : String) (limit : ℕ) : String :=
  match parseToolMessage N result with
  | .ok r => r.previewText limit
  | .error _ => truncate limit result

theorem ToolResult.failureLines_ne_nil {r : ToolResult} {t : String} (ht : r.errorType = some t) (hne : t ≠ "") :
    r.failureLines ≠ [] := by
  have hmem : s!"error_type={t}" ∈ r.failureLines := by
    rw [failureLines, ht, Option.filter_some_pos (by simpa using hne)]
    exact List.mem_append_right _ (List.mem_singleton_self _)
  exact List.ne_nil_of_mem hmem

theorem ToolResult.ne_of_mem_failureLines {r : ToolResult} {s : String} (h : s ∈ r.failureLines) : s ≠ "" := by
  rcases List.mem_append.1 h with h | h
  · rcases List.mem_append.1 h with h | h
    · split at h
      · exact absurd h List.not_mem_nil
      · next hne => exact (List.mem_singleton.1 h).symm ▸ hne
    · have hfilter := Option.filter_eq_some_iff.1 (Option.mem_toList.1 h)
      simpa using hfilter.2
  · obtain ⟨t, -, rfl⟩ := Option.map_eq_some_iff.1 (Option.mem_toList.1 h)
    intro hempty
    have hlist := congrArg String.toList hempty
    simp at hlist
    exact absurd hlist.1 (by decide)

/-- Nothing is ever shown of a result as an empty text. -/
theorem CheckedResult.displayText_ne_empty (r : CheckedResult) : r.displayText ≠ "" := by
  have houtcome := r.valid.outcome
  unfold ToolResult.displayText
  split
  · next hsuccess =>
    rw [if_pos hsuccess] at houtcome
    exact houtcome.1
  · next hsuccess =>
    rw [if_neg hsuccess] at houtcome
    obtain ⟨t, ht⟩ := Option.ne_none_iff_exists'.1 houtcome
    have hne : t ≠ "" := fun h => r.valid.errorType_ne (h ▸ ht)
    rw [if_neg (ToolResult.failureLines_ne_nil ht hne)]
    cases hlines : r.failureLines with
    | nil => exact absurd hlines (ToolResult.failureLines_ne_nil ht hne)
    | cons s l =>
      have hs : s ≠ "" := ToolResult.ne_of_mem_failureLines (hlines ▸ List.mem_cons_self)
      cases l with
      | nil => simpa using hs
      | cons u l =>
        rw [String.intercalate_cons_cons]
        intro hempty
        have hlist := congrArg String.toList hempty
        simp at hlist

/-- Who reads the message of a result, parses the result and shows its text, which is not empty: the message may stand
within white space. -/
theorem shown_as_returned (N : Reader ν) (r : CheckedResult) {before after message : String}
    (hbefore : ∀ c ∈ before.toList, isSpace c = true) (hafter : ∀ c ∈ after.toList, isSpace c = true)
    (hmessage : message = before ++ r.toToolMessage N ++ after) :
    parseToolMessage N message = .ok r ∧ displayFromMessage N message none = .ok r.displayText ∧
      (∀ limit, displayFromMessage N message (some limit) = .ok (summarizeToolResult N message limit) ∧
        summarizeToolResult N message limit = truncate limit r.displayText) ∧ r.displayText ≠ "" := by
  have hparse : parseToolMessage N message = .ok r := hmessage ▸ parse_written N r hbefore hafter
  have hsummary : ∀ limit, summarizeToolResult N message limit = truncate limit r.displayText := by
    intro limit
    rw [summarizeToolResult, hparse]
    rfl
  refine ⟨hparse, ?_, fun limit => ⟨?_, hsummary limit⟩, r.displayText_ne_empty⟩
  · rw [displayFromMessage, hparse]
    rfl
  · rw [displayFromMessage, hparse, hsummary]
    rfl

/-- A sandbox that has failed, with its message on a line of its own. -/
theorem shown_sandbox :
    let r := CheckedResult.fail "sandbox_error" (some "exit 1") "" (by decide)
    let message := "\n" ++ r.toToolMessage integersReader ++ " \n"
    parseToolMessage integersReader message = .ok r ∧
      displayFromMessage integersReader message none = .ok r.displayText ∧
      (∀ limit, displayFromMessage integersReader message (some limit) =
          .ok (summarizeToolResult integersReader message limit) ∧
        summarizeToolResult integersReader message limit = truncate limit r.displayText) ∧ r.displayText ≠ "" :=
  shown_as_returned integersReader _ (by simp [isSpace]) (by simp [isSpace]) rfl

end Envelope

/-! ### Runs -/

section Runs

variable {ν ω κ : Type} (N : Reader ν)

/-- What the runner takes of a tool message, and what it makes of an exception. -/
def toolResults : ToolResults where
  parse content := (parseToolMessage N content).toOption.map fun r => (r.success, r.errorType)
  fail error := (CheckedResult.fail "internal" (some error) "" (by decide)).toToolMessage N

def AgentEvent.isToolFinished : AgentEvent → Bool
  | toolFinished .. => true
  | _ => false

/-- A result that can be parsed, with the fields that are told of it. -/
def Says (text : String) (error : Bool) (errorClass : Option String) : Prop :=
  ∃ r, parseToolMessage N text = .ok r ∧ error = !r.success ∧ errorClass = r.errorType

/-- An event with a tool's result says what the result says. -/
def Consistent : TurnEvent → Prop
  | .toolFinished _ _ _ text error errorClass _ => Says N text error errorClass
  | _ => True

variable {N}

theorem says_written (r : CheckedResult) : Says N (r.toToolMessage N) (!r.success) r.errorType := by
  have hempty : ∀ c ∈ "".toList, isSpace c = true := by simp
  have h := parse_written N r hempty hempty
  rw [String.empty_append, String.append_empty] at h
  exact ⟨r, h, rfl, rfl⟩

theorem says_of_parse {content : String} {success : Bool} {errorType : Option String}
    (h : (toolResults N).parse content = some (success, errorType)) : Says N content (!success) errorType := by
  obtain ⟨r, hr, hfields⟩ := Option.map_eq_some_iff.1 h
  cases hfields
  cases hparse : parseToolMessage N content with
  | error e =>
    rw [hparse] at hr
    cases hr
  | ok r' =>
    rw [hparse] at hr
    cases hr
    exact ⟨r, hparse, rfl, rfl⟩

theorem says_handle {s s' : Runner} {g : GraphEvent} {out : List AgentEvent}
    (h : handle (toolResults N) s g = .ok (s', out)) {step : ℕ} {callId name text : String} {args : ToolArgs}
    {error : Bool} {errorClass : Option String}
    (hmem : AgentEvent.toolFinished step callId name args text error errorClass ∈ out) :
    Says N text error errorClass := by
  cases g with
  | chatModelEnd message invalid =>
    rw [handle] at h
    split at h
    · cases h
    · split_ifs at h
      all_goals
        cases h
        simp at hmem
  | toolStart callId' toolName input =>
    rw [handle] at h
    split at h
    · cases h
    · cases h
      simp at hmem
  | toolEnd callId' toolName content =>
    rw [handle] at h
    split at h
    · cases h
    · split at h
      · cases h
      · next success errorType hparse =>
        cases h
        cases List.mem_singleton.1 hmem
        exact says_of_parse hparse
  | toolError callId' toolName message interrupt =>
    cases interrupt with
    | true =>
      cases h
      cases hmem
    | false =>
      rw [handle] at h
      split at h
      · cases h
      · cases h
        cases List.mem_singleton.1 hmem
        exact says_written (CheckedResult.fail "internal" (some _) "" (by decide))

theorem says_agentTurnStream (s : Runner) (graph : List GraphEvent) {step : ℕ} {callId name text : String}
    {args : ToolArgs} {error : Bool} {errorClass : Option String}
    (hmem : AgentEvent.toolFinished step callId name args text error errorClass ∈
      (agentTurnStream (toolResults N) s graph).1) : Says N text error errorClass := by
  induction graph generalizing s with
  | nil => cases hmem
  | cons g graph ih =>
    rw [agentTurnStream] at hmem
    cases hhandle : handle (toolResults N) s g with
    | error x =>
      rw [hhandle] at hmem
      cases hmem
    | ok r =>
      obtain ⟨s', out⟩ := r
      rw [hhandle] at hmem
      rcases List.mem_append.1 hmem with hmem | hmem
      · exact says_handle hhandle hmem
      · exact ih s' hmem

/-- Whatever the graph and the tools do, a turn puts no result on its bus that cannot be parsed or that says something
else than its event does. -/
theorem results_consistent (N : Reader ν) (S : Surroundings ω κ) (s : Runner) (graph : List GraphEvent)
    {ending : List AgentEvent} (hending : ∀ e ∈ ending, e.isToolFinished = false) (raised : Option Exn) (world : ω) :
    ∀ o ∈ (runTurn { S with toToolMessage := ToolResult.toToolMessage N }
      ((agentTurnStream (toolResults N) s graph).1 ++ ending) raised world).ops, Consistent N o.event := by
  set S' : Surroundings ω κ := { S with toToolMessage := ToolResult.toToolMessage N }
  set events := (agentTurnStream (toolResults N) s graph).1 ++ ending
  have hsources : Sources S' events (Consistent N) := by
    refine ⟨?_, ?_, ?_⟩
    · intro e he
      cases e with
      | toolFinished => exact absurd rfl he
      | _ => trivial
    · intro step callId name args text error errorClass hmem
      rcases List.mem_append.1 hmem with hmem | hmem
      · exact says_agentTurnStream s graph hmem
      · exact absurd (hending _ hmem) (by simp [AgentEvent.isToolFinished])
    · intro step c
      exact says_written (CheckedResult.fail "invalid_arguments" (some (invalidToolCallDetail c)) "" (by decide))
  obtain ⟨l, hl, hconsistent⟩ := puts_run hsources raised { RunState.init with ops := [], world }
  intro o ho
  exact hconsistent o ((hl.trans (List.nil_append l)) ▸ ho)

/-- What the runner reports of a search that raises. -/
def raisedSearch : List AgentEvent :=
  (agentTurnStream (toolResults integersReader) ⟨1, []⟩
    [.toolStart "c1" "web_search" [], .toolError "c1" "web_search" "timeout" false]).1

/-- A turn that completes after it. -/
theorem results_consistent_search :
    ∃ o ∈ (runTurn { calm none with toToolMessage := ToolResult.toToolMessage integersReader }
      (raisedSearch ++ [answerA]) none ()).ops, o.event.kind = .toolFinished ∧ Consistent integersReader o.event := by
  obtain ⟨o, ho, hkind⟩ : ∃ o ∈ (runTurn { calm none with toToolMessage := ToolResult.toToolMessage integersReader }
      (raisedSearch ++ [answerA]) none ()).ops, o.event.kind = .toolFinished := by decide
  exact ⟨o, ho, hkind, results_consistent integersReader (calm none) ⟨1, []⟩ _ (by decide) none () o ho⟩

end Runs

end NexusStudio.Turn
