import NexusStudio.Llm.Assembler
import NexusStudio.Turn.ToolCalls

/-!
# The tokens of a streamed model step

`_astream` of the gateway model with its attempts, and the events that the runner yields for its chunks.

* (attempts) An attempt that fails is made again only when no piece of it was yielded, each with a new assembler.
* (chunks) Every piece is a chunk, and the last chunk has the assembled message.
* (runner) The assembled text is yielded where no answer token was; how the events of the graph hand on the chunks and
  the result is not part of the code, so `Handing` leaves it open.
* (law) The answer tokens of the step are the answer text of the assembled message.
* (defect) What the tag parser has held back at the end of the stream is in the message and in no chunk.
-/

namespace NexusStudio.Llm

open Turn JsonText

/-! ### The gateway model -/

inductive GenerationInfo (ν : Type)
  | tokenPiece (piece : TokenPiece)
  | assembledStep (content thinkContent : String) (invalidToolCalls : List InvalidToolCall)
      (finishReason : Option (Value ν))

structure GenerationChunk (ν : Type) where
  content : String
  toolCalls : List ToolCall
  info : GenerationInfo ν

/-- What the gateway does on an attempt. -/
structure Attempt where
  -- the lines of the stream, with whether the cancel event is set when the line comes
  lines : List (Bool × String)
  -- what the stream raises after the lines
  raises : Option StepError

/-- `_RETRYABLE_GATEWAY_APP_CODES`. -/
def retryableGatewayAppCodes : List Nat := [50301, 42902, 50002]

def StepError.retryable : StepError → Bool
  | .gateway _ _ retryable => retryable
  | .app code _ => code ∈ retryableGatewayAppCodes
  | .other _ => false

/-- The data of a line, `none` for other lines. -/
def dataOf (line : String) : Option String :=
  let text := (strip line).toList
  if "data:".toList.isPrefixOf text then some (strip (String.ofList (text.drop 5))) else none

section Model

variable {ν : Type} (P : Python ν) (thinking : ThinkingConfig) (gateway : Nat → Attempt)

/-- The loop over the lines: what is yielded, and the assembler when the stream has ended. -/
def readStream (raises : Option StepError) :
    Assembler ν → List (Bool × String) → List TokenPiece × Except StepError (Assembler ν)
  | asm, [] =>
    ([], match raises with
      | some e => .error e
      | none => .ok asm)
  | asm, (cancelled, line) :: lines =>
    if cancelled then ([], .ok asm)
    else
      match dataOf line with
      | none => readStream raises asm lines
      | some data =>
        match asm.feedSseData P data with
        | .error e => ([], .error e)
        | .ok (pieces, asm') =>
          if data = "[DONE]" then (pieces, .ok asm')
          else
            let (later, r) := readStream raises asm' lines
            (pieces ++ later, r)

/-- The `try` block of an attempt, with its assembler. -/
def runAttempt (n : Nat) : List TokenPiece × Except StepError (Assembler ν × AssembledStep ν) :=
  let (pieces, r) := readStream P (gateway n).raises (.init thinking) (gateway n).lines
  (pieces, match r with
    | .error e => .error e
    | .ok asm =>
      match asm.finish P with
      | .error e => .error e
      | .ok step => .ok (asm, step))

/-- The attempts that are left, the next one with the number `n`. -/
def attempts : Nat → Nat → List TokenPiece × Except StepError (Assembler ν × AssembledStep ν)
  | 0, _ => ([], .error (.gateway "gateway_empty_stream" "gateway stream ended without model output" true))
  | left + 1, n =>
    match runAttempt P thinking gateway n with
    | (pieces, .ok r) => (pieces, .ok r)
    | (pieces, .error e) =>
      if e.retryable ∧ pieces = [] ∧ left ≠ 0 then attempts left (n + 1) else (pieces, .error e)

def tokenChunk (piece : TokenPiece) : GenerationChunk ν where
  content := if piece.lane = .answer then String.ofList piece.text else ""
  toolCalls := []
  info := .tokenPiece piece

def assembledChunk (step : AssembledStep ν) : GenerationChunk ν where
  content := ""
  toolCalls := step.message.toolCalls
  info := .assembledStep step.message.content (String.ofList (laneText .think step.tokenPieces)) step.invalidToolCalls
    step.finishReason

/-- `_astream`: the chunks that are yielded, and the assembled step. -/
def astream (retries : Nat) : List (GenerationChunk ν) × Except StepError (AssembledStep ν) :=
  match attempts P thinking gateway (retries + 1) 1 with
  | (pieces, .error e) => (pieces.map tokenChunk, .error e)
  | (pieces, .ok (_, step)) => (pieces.map tokenChunk ++ [assembledChunk step], .ok step)

/-- The assembler of the attempt that is finished, when its stream has ended. -/
def lastAssembler (retries : Nat) : Option (Assembler ν) :=
  match (attempts P thinking gateway (retries + 1) 1).2 with
  | .error _ => none
  | .ok (asm, _) => some asm

/-! ### The runner -/

/-- The events of the graph have the chunk and the result with their `generation_info`, or the messages alone. -/
structure Handing where
  chunk : Bool
  result : Bool
  deriving DecidableEq, Repr

/-- What the runner reads of a chunk: its `generation_info` and the content of its `message`. -/
structure Chunk (ν : Type) where
  info : Option (GenerationInfo ν)
  content : Option String

/-- What the runner reads of the output: the first generation of a result, or a message. -/
inductive Output (ν : Type)
  | result (info : Option (GenerationInfo ν)) (message : AiMessage)
  | message (message : AiMessage)

def Handing.chunkOf (h : Handing) (c : GenerationChunk ν) : Chunk ν :=
  if h.chunk then ⟨some c.info, some c.content⟩ else ⟨none, none⟩

/-- The message of all chunks, merged. -/
def mergedMessage (chunks : List (GenerationChunk ν)) : AiMessage :=
  ⟨String.join (chunks.map GenerationChunk.content), chunks.flatMap GenerationChunk.toolCalls⟩

/-- The `assembled_step` in the merged `generation_info` of the chunks. -/
def assembledInfo (chunks : List (GenerationChunk ν)) : Option (GenerationInfo ν) :=
  (chunks.map GenerationChunk.info).find? fun
    | .assembledStep .. => true
    | .tokenPiece _ => false

def Handing.outputOf (h : Handing) (chunks : List (GenerationChunk ν)) : Output ν :=
  if h.result then .result (assembledInfo chunks) (mergedMessage chunks) else .message (mergedMessage chunks)

/-- `on_chat_model_stream`: whether an answer token was emitted, and what is yielded. -/
def onChatModelStream (step : Nat) (emitted : Bool) (c : Chunk ν) : Except StreamError (Bool × List AgentEvent) :=
  match c.info with
  | some (.assembledStep content _ _ _) =>
    .ok (emitted, if !emitted && content ≠ "" then [.modelToken step .answer content] else [])
  | some (.tokenPiece piece) =>
    if piece.text = [] then .error (.gateway "stream token metadata violates contract")
    else .ok (emitted || piece.lane = .answer, [.modelToken step piece.lane (String.ofList piece.text)])
  | none =>
    match c.content with
    | some content => .ok (emitted, if content ≠ "" then [.modelToken step .answer content] else [])
    | none => .ok (emitted, [])

def streamChunks (step : Nat) : Bool → List (Chunk ν) → List AgentEvent × Except StreamError Bool
  | emitted, [] => ([], .ok emitted)
  | emitted, c :: chunks =>
    match onChatModelStream step emitted c with
    | .error e => ([], .error e)
    | .ok (emitted, out) =>
      let (later, r) := streamChunks step emitted chunks
      (out ++ later, r)

/-- `_invalid_from_dict`. -/
def invalidFromDict (items : List InvalidToolCall) : Except StreamError (List InvalidToolCall) :=
  if items.any fun c => c.callId = "" ∨ c.name = "" ∨ c.rawArguments = "" ∨ c.parseError = "" then
    .error (.gateway "invalid tool call metadata violates contract")
  else .ok items

variable (T : ToolResults)

/-- The rest of `on_chat_model_end`, with its message. -/
def endStep (s : Runner) (m : AiMessage) (invalid : List InvalidToolCall) :
    List AgentEvent × Except StreamError Runner :=
  match handle T s (.chatModelEnd m invalid) with
  | .error e => ([], .error e)
  | .ok (s', out) => (out, .ok s')

def onChatModelEnd (s : Runner) (emitted : Bool) : Output ν → List AgentEvent × Except StreamError Runner
  | .result (some (.assembledStep content _ invalid _)) base =>
    let m : AiMessage := ⟨content, base.toolCalls⟩
    let tokens : List AgentEvent :=
      if !emitted && content ≠ "" && m.toolCalls = [] then [.modelToken s.stepIndex .answer content] else []
    match invalidFromDict invalid with
    | .error e => (tokens, .error e)
    | .ok invalid =>
      let (out, r) := endStep T s m invalid
      (tokens ++ out, r)
  | .result _ base => endStep T s base []
  | .message base => endStep T s base []

/-- The events of one model step, from its start to its end. -/
def modelStep (h : Handing) (s : Runner) (chunks : List (GenerationChunk ν)) :
    List AgentEvent × Except StreamError Runner :=
  match streamChunks s.stepIndex false (chunks.map h.chunkOf) with
  | (tokens, .error e) => (tokens, .error e)
  | (tokens, .ok emitted) =>
    let (out, r) := onChatModelEnd T s emitted (h.outputOf chunks)
    (tokens ++ out, r)

/-! ### The law and its condition -/

/-- The texts of the answer tokens, joined. -/
def answerTokens (events : List AgentEvent) : Text :=
  events.flatMap fun
    | .modelToken _ .answer text => text.toList
    | _ => []

/-- The answer tokens are the answer text of the assembled message. -/
def Law (events : List AgentEvent) (step : AssembledStep ν) : Prop :=
  answerTokens events = step.message.content.toList

/-- The tool slots make a valid call. -/
def Assembler.hasCalls (asm : Assembler ν) : Bool :=
  match asm.assembleCalls P with
  | .error _ => false
  | .ok (validCalls, _) => validCalls ≠ []

/-- Where the chunks are handed on, no answer text is held back at the end of the stream, or it is all the answer and
is not yielded once more with the result. Where they are not, there is no answer text, or it is yielded with the
result. -/
def Shown (h : Handing) (asm : Assembler ν) : Prop :=
  if h.chunk then asm.heldAnswer = [] ∨ asm.answer = [] ∧ (h.result = true → asm.hasCalls P = true)
  else asm.answer ++ asm.heldAnswer = [] ∨ h.result = true ∧ asm.hasCalls P = false

end Model

/-! ### The attempts -/

section Proofs

variable {ν : Type} {P : Python ν} {thinking : ThinkingConfig} {gateway : Nat → Attempt} {T : ToolResults}
  {pieces pieces' : List TokenPiece} {asm asm₁ asm' : Assembler ν} {step : AssembledStep ν}

/-- What was yielded is what the assembler has more, and no piece of it is empty. -/
structure Yielded (asm : Assembler ν) (pieces : List TokenPiece) (asm' : Assembler ν) : Prop where
  kept : asm'.tokenPieces = asm.tokenPieces ++ pieces
  ne : ∀ p ∈ pieces, p.text ≠ []

theorem Yielded.nil (asm : Assembler ν) : Yielded asm [] asm := ⟨(List.append_nil _).symm, nofun⟩

theorem Yielded.append (h : Yielded asm pieces asm₁) (h' : Yielded asm₁ pieces' asm') :
    Yielded asm (pieces ++ pieces') asm' := by
  refine ⟨?_, fun p hp => (List.mem_append.1 hp).elim (h.ne p) (h'.ne p)⟩
  rw [h'.kept, h.kept, List.append_assoc]

theorem readStream_ok {raises : Option StepError} {lines : List (Bool × String)}
    (h : readStream P raises asm lines = (pieces, .ok asm')) : Yielded asm pieces asm' := by
  induction lines generalizing asm pieces with
  | nil =>
    cases raises with
    | some e => cases h
    | none =>
      cases h
      exact .nil _
  | cons line lines ih =>
    obtain ⟨cancelled, line⟩ := line
    rw [readStream] at h
    split at h
    · cases h
      exact .nil _
    split at h
    · exact ih h
    next data _ =>
    split at h
    · cases h
    next first asm₁ hfeed =>
    obtain ⟨hkept, hne⟩ := feedSseData_ok hfeed
    have hfirst : Yielded asm first asm₁ := ⟨hkept, hne⟩
    split at h
    · cases h
      exact hfirst
    · obtain ⟨hpieces, hlater⟩ := Prod.mk.inj h
      rw [← hpieces]
      exact hfirst.append (ih (Prod.ext rfl hlater))

/-- An attempt that ends well has yielded what its assembler has, and finished it. -/
theorem runAttempt_ok {n : Nat} (h : runAttempt P thinking gateway n = (pieces, .ok (asm, step))) :
    Yielded (.init thinking) pieces asm ∧ asm.finish P = .ok step := by
  unfold runAttempt at h
  obtain ⟨hpieces, hr⟩ := Prod.mk.inj h
  split at hr
  · cases hr
  next asm' hread =>
  split at hr
  · cases hr
  next step' hfinish =>
  cases hr
  exact ⟨readStream_ok (Prod.ext hpieces hread), hfinish⟩

/-- So have all attempts together: those before have yielded nothing. -/
theorem attempts_ok {left n : Nat} (h : attempts P thinking gateway left n = (pieces, .ok (asm, step))) :
    Yielded (.init thinking) pieces asm ∧ asm.finish P = .ok step := by
  induction left generalizing n with
  | zero => cases h
  | succ left ih =>
    rw [attempts] at h
    split at h
    · next hrun =>
      cases h
      exact runAttempt_ok hrun
    · split at h
      · exact ih h
      · cases h

theorem astream_ok {retries : Nat} (h : (astream P thinking gateway retries).2 = .ok step) :
    ∃ asm pieces, lastAssembler P thinking gateway retries = some asm ∧ asm.finish P = .ok step ∧
      Yielded (.init thinking) pieces asm ∧
        (astream P thinking gateway retries).1 = pieces.map tokenChunk ++ [assembledChunk step] := by
  unfold astream at h ⊢
  unfold lastAssembler
  split at h
  · cases h
  next pieces asm step' hattempts =>
  cases h
  obtain ⟨hyielded, hfinish⟩ := attempts_ok hattempts
  refine ⟨asm, pieces, ?_, hfinish, hyielded, rfl⟩
  rw [hattempts]

/-! ### The runner -/

/-- Some piece is one of the answer. -/
def answers (pieces : List TokenPiece) : Bool := pieces.any fun p => p.lane = .answer

def tokenEvent (step : Nat) (p : TokenPiece) : AgentEvent := .modelToken step p.lane (String.ofList p.text)

theorem streamChunks_append (i : Nat) (emitted : Bool) (l l' : List (Chunk ν)) :
    streamChunks i emitted (l ++ l') =
      match streamChunks i emitted l with
      | (out, .error e) => (out, .error e)
      | (out, .ok emitted') => (out ++ (streamChunks i emitted' l').1, (streamChunks i emitted' l').2) := by
  induction l generalizing emitted with
  | nil => rfl
  | cons c l ih =>
    rw [List.cons_append, streamChunks, streamChunks]
    cases onChatModelStream i emitted c with
    | error e => rfl
    | ok r =>
      obtain ⟨emitted₁, out⟩ := r
      simp only [ih]
      cases hr : streamChunks i emitted₁ l with
      | mk later r =>
        cases r with
        | error e => rfl
        | ok emitted₂ => simp only [List.append_assoc]

/-- Chunks that are handed on are yielded one by one. -/
theorem streamChunks_tokens {h : Handing} (hchunk : h.chunk = true) (i : Nat) (emitted : Bool)
    (hne : ∀ p ∈ pieces, p.text ≠ []) :
    streamChunks i emitted ((pieces.map (tokenChunk (ν := ν))).map h.chunkOf) =
      (pieces.map (tokenEvent i), .ok (emitted || answers pieces)) := by
  induction pieces generalizing emitted with
  | nil => simp [streamChunks, answers]
  | cons p pieces ih =>
    have hfirst : onChatModelStream (ν := ν) i emitted (h.chunkOf (tokenChunk p)) =
        .ok (emitted || p.lane = .answer, [tokenEvent i p]) := by
      rw [Handing.chunkOf, if_pos hchunk]
      exact if_neg (hne p List.mem_cons_self)
    rw [List.map_cons, List.map_cons, streamChunks, hfirst]
    simp only [ih _ fun q hq => hne q (List.mem_cons_of_mem _ hq)]
    simp [answers, Bool.or_assoc]

/-- The assembled text is yielded after pieces without answer text. -/
theorem streamChunks_astream {h : Handing} (hchunk : h.chunk = true) (i : Nat) (hne : ∀ p ∈ pieces, p.text ≠ []) :
    streamChunks i false ((pieces.map tokenChunk ++ [assembledChunk step]).map h.chunkOf) =
      (pieces.map (tokenEvent i) ++
          (if !answers pieces && step.message.content ≠ "" then [.modelToken i .answer step.message.content] else []),
        .ok (answers pieces)) := by
  rw [List.map_append, streamChunks_append, streamChunks_tokens hchunk i false hne]
  simp [streamChunks, onChatModelStream, Handing.chunkOf, hchunk, assembledChunk]

/-- Messages alone yield nothing. -/
theorem streamChunks_none {h : Handing} (hchunk : h.chunk = false) (i : Nat) (emitted : Bool)
    (chunks : List (GenerationChunk ν)) : streamChunks i emitted (chunks.map h.chunkOf) = ([], .ok emitted) := by
  induction chunks with
  | nil => rfl
  | cons c chunks ih =>
    have hfirst : onChatModelStream i emitted (h.chunkOf c) = .ok (emitted, []) := by
      rw [Handing.chunkOf, if_neg (by rw [hchunk]; exact Bool.false_ne_true)]
      rfl
    rw [List.map_cons, streamChunks, hfirst]
    simp only [ih, List.append_nil]

/-! ### Answer tokens -/

@[simp] theorem answerTokens_append (l l' : List AgentEvent) :
    answerTokens (l ++ l') = answerTokens l ++ answerTokens l' := by
  simp [answerTokens]

@[simp] theorem answerTokens_answer (i : Nat) (text : String) :
    answerTokens [.modelToken i .answer text] = text.toList := by
  simp [answerTokens]

theorem answerTokens_tokens (i : Nat) (pieces : List TokenPiece) :
    answerTokens (pieces.map (tokenEvent i)) = laneText .answer pieces := by
  induction pieces with
  | nil => rfl
  | cons p pieces ih =>
    obtain ⟨lane, text⟩ := p
    have hcons : ∀ l : List AgentEvent, answerTokens (tokenEvent i ⟨lane, text⟩ :: l) =
        answerTokens [tokenEvent i ⟨lane, text⟩] ++ answerTokens l := fun l => by simp [answerTokens]
    rw [List.map_cons, hcons, ih]
    cases lane with
    | answer => simp [tokenEvent, laneText]
    | think => simp [tokenEvent, laneText, answerTokens]

/-- The end of a step yields no token of its own. -/
theorem answerTokens_endStep (s : Runner) (m : AiMessage) (invalid : List InvalidToolCall) :
    answerTokens (endStep T s m invalid).1 = [] := by
  unfold endStep
  split
  · rfl
  next s' out hhandle =>
  simp only [handle] at hhandle
  split at hhandle
  · cases hhandle
  split at hhandle
  · cases hhandle
    rfl
  split at hhandle
  · cases hhandle
    rfl
  · cases hhandle
    rfl

theorem answers_iff (hne : ∀ p ∈ pieces, p.text ≠ []) : answers pieces = true ↔ laneText .answer pieces ≠ [] := by
  simp only [answers, laneText, List.any_eq_true, ne_eq, List.flatMap_eq_nil_iff, List.mem_filter, decide_eq_true_eq,
    not_forall, and_imp]
  constructor
  · rintro ⟨p, hp, hlane⟩
    exact ⟨p, hp, hlane, hne p hp⟩
  · rintro ⟨p, hp, hlane, -⟩
    exact ⟨p, hp, hlane⟩

theorem assembledInfo_astream (pieces : List TokenPiece) (step : AssembledStep ν) :
    assembledInfo (pieces.map tokenChunk ++ [assembledChunk step]) = some (assembledChunk step).info := by
  have hfind : (pieces.find? fun _ => false) = none := List.find?_eq_none.2 fun _ _ => Bool.false_ne_true
  simp [assembledInfo, tokenChunk, assembledChunk, List.find?_append, Function.comp_def, hfind]

theorem toolCalls_mergedMessage (pieces : List TokenPiece) (step : AssembledStep ν) :
    (mergedMessage (pieces.map tokenChunk ++ [assembledChunk step])).toolCalls = step.message.toolCalls := by
  simp [mergedMessage, tokenChunk, assembledChunk]

/-- The result yields the assembled text once more when no answer token was emitted and there is no call. -/
theorem answerTokens_end {h : Handing} (s : Runner) (emitted : Bool) :
    answerTokens (onChatModelEnd T s emitted (h.outputOf (pieces.map tokenChunk ++ [assembledChunk step]))).1 =
      if h.result = true ∧ emitted = false ∧ step.message.toolCalls = [] then step.message.content.toList else [] := by
  have hcalls := toolCalls_mergedMessage pieces step
  unfold Handing.outputOf
  rw [assembledInfo_astream]
  generalize mergedMessage (pieces.map tokenChunk ++ [assembledChunk step]) = m at hcalls ⊢
  cases hresult : h.result with
  | false => simp [onChatModelEnd, answerTokens_endStep]
  | true =>
    simp only [assembledChunk, onChatModelEnd, if_true, hcalls]
    have htokens : answerTokens (if (!emitted && decide (step.message.content ≠ "") &&
        decide (step.message.toolCalls = [])) = true then [.modelToken s.stepIndex .answer step.message.content]
          else []) = if emitted = false ∧ step.message.toolCalls = [] then step.message.content.toList else [] := by
      by_cases hcontent : step.message.content = ""
      · simp [hcontent, answerTokens]
      · by_cases hcalls : step.message.toolCalls = []
        · cases emitted
          · simp [hcontent, hcalls]
          · simp [answerTokens]
        · simp [hcalls, answerTokens]
    split
    · rw [htokens]
      simp
    · rw [answerTokens_append, answerTokens_endStep, htokens]
      simp

/-! ### The result -/

theorem hasCalls_iff (hfinish : asm.finish P = .ok step) :
    asm.hasCalls P = true ↔ step.message.toolCalls ≠ [] := by
  obtain ⟨validCalls, invalidCalls, hcalls, -, htool, -⟩ := finish_ok hfinish
  unfold Assembler.hasCalls
  rw [hcalls, htool]
  exact decide_eq_true_iff

/-- With the chunks handed on, the tokens are those of the pieces, or the assembled text where there is no answer
piece, and that once more with the result where there is no call. -/
theorem answerTokens_chunks {h : Handing} (hchunk : h.chunk = true) (s : Runner) (hne : ∀ p ∈ pieces, p.text ≠ []) :
    answerTokens (modelStep T h s (pieces.map tokenChunk ++ [assembledChunk step])).1 =
      if laneText .answer pieces ≠ [] then laneText .answer pieces
      else step.message.content.toList ++
        if h.result = true ∧ step.message.toolCalls = [] then step.message.content.toList else [] := by
  unfold modelStep
  rw [streamChunks_astream hchunk s.stepIndex hne]
  simp only [answerTokens_append, answerTokens_tokens, answerTokens_end]
  by_cases hanswer : laneText .answer pieces = []
  · have hflag : answers pieces = false := by
      rw [← Bool.not_eq_true, answers_iff hne]
      exact fun h => h hanswer
    rw [hanswer, hflag]
    by_cases hcontent : step.message.content = ""
    · simp [hcontent, answerTokens]
    · simp [hcontent]
  · have hflag : answers pieces = true := (answers_iff hne).2 hanswer
    rw [if_pos hanswer, hflag]
    simp [answerTokens]

theorem answerTokens_messages {h : Handing} (hchunk : h.chunk = false) (s : Runner) :
    answerTokens (modelStep T h s (pieces.map tokenChunk ++ [assembledChunk step])).1 =
      if h.result = true ∧ step.message.toolCalls = [] then step.message.content.toList else [] := by
  unfold modelStep
  rw [streamChunks_none hchunk]
  simp only [List.nil_append, answerTokens_end, true_and]

/-- With ids and names the end of a step goes through, and stores the text of its message. -/
theorem endStep_stored {m : AiMessage} (hcalls : ∀ c ∈ m.toolCalls, c.id ≠ "" ∧ c.name ≠ "") (s : Runner)
    (invalid : List InvalidToolCall) :
    ∃ s', (endStep T s m invalid).2 = .ok s' ∧
      ∀ i m' invalid', .modelStepFinished i m' invalid' ∈ (endStep T s m invalid).1 → m'.content = m.content := by
  have hdedupe : dedupeToolCalls m = .ok { m with toolCalls := dedupedCalls m.toolCalls } := by
    refine if_neg fun hany => ?_
    obtain ⟨c, hc, hempty⟩ := List.any_eq_true.1 hany
    exact (of_decide_eq_true hempty).elim (hcalls c hc).1 (hcalls c hc).2
  have hhandle : ∃ s' out, handle T s (.chatModelEnd m invalid) = .ok (s', out) ∧
      ∀ i m' invalid', .modelStepFinished i m' invalid' ∈ out → m'.content = m.content := by
    have hone : ∀ i m' invalid', AgentEvent.modelStepFinished i m' invalid' ∈
        [.modelStepFinished s.stepIndex { m with toolCalls := dedupedCalls m.toolCalls } invalid] →
          m'.content = m.content := by
      intro i m' invalid' hmem
      cases List.mem_singleton.1 hmem
      rfl
    simp only [handle, hdedupe]
    split
    · exact ⟨s, [], rfl, fun _ _ _ hmem => absurd hmem List.not_mem_nil⟩
    split
    · exact ⟨s, _, rfl, hone⟩
    · exact ⟨_, _, rfl, hone⟩
  obtain ⟨s', out, hhandle, hstored⟩ := hhandle
  unfold endStep
  rw [hhandle]
  exact ⟨s', rfl, hstored⟩

/-- What the stream of a step yields are tokens. -/
theorem streamChunks_ok (h : Handing) (i : Nat) (step : AssembledStep ν) (hne : ∀ p ∈ pieces, p.text ≠ []) :
    ∃ tokens emitted, streamChunks i false ((pieces.map tokenChunk ++ [assembledChunk step]).map h.chunkOf) =
      (tokens, .ok emitted) ∧ ∀ i m invalid, .modelStepFinished i m invalid ∉ tokens := by
  cases hchunk : h.chunk with
  | false => exact ⟨[], false, streamChunks_none hchunk i false _, nofun⟩
  | true =>
    refine ⟨_, _, streamChunks_astream hchunk i hne, fun j m invalid hmem => ?_⟩
    rcases List.mem_append.1 hmem with hmem | hmem
    · obtain ⟨p, -, hp⟩ := List.mem_map.1 hmem
      cases hp
    · split at hmem
      · cases List.mem_singleton.1 hmem
      · cases hmem

/-- A step that is assembled goes through, and with the result handed on it stores the assembled text. -/
theorem modelStep_stored {retries : Nat} (hrun : (astream P thinking gateway retries).2 = .ok step) (h : Handing)
    (s : Runner) :
    ∃ s', (modelStep T h s (astream P thinking gateway retries).1).2 = .ok s' ∧
      (h.result = true → ∀ i m invalid,
        .modelStepFinished i m invalid ∈ (modelStep T h s (astream P thinking gateway retries).1).1 →
          m.content = step.message.content) := by
  obtain ⟨asm, pieces, -, hfinish, hyielded, hchunks⟩ := astream_ok hrun
  obtain ⟨validCalls, invalidCalls, hcalls, -, hvalid, hinvalid⟩ := finish_ok hfinish
  have hok := assembleCalls_ok hcalls
  rw [hchunks]
  obtain ⟨tokens, emitted, htokens, hnone⟩ := streamChunks_ok h s.stepIndex step hyielded.ne
  have hmerged := toolCalls_mergedMessage pieces step
  unfold modelStep
  rw [htokens]
  simp only [Handing.outputOf, assembledInfo_astream]
  generalize mergedMessage (pieces.map tokenChunk ++ [assembledChunk step]) = base at hmerged ⊢
  cases hresult : h.result with
  | false =>
    rw [if_neg Bool.false_ne_true]
    obtain ⟨s', hend, -⟩ := endStep_stored (T := T) (m := base) (by rw [hmerged, hvalid]; exact hok.valid) s []
    exact ⟨s', hend, nofun⟩
  | true =>
    have hvalidItems : invalidFromDict step.invalidToolCalls = .ok step.invalidToolCalls := by
      refine if_neg fun hany => ?_
      obtain ⟨c, hc, hempty⟩ := List.any_eq_true.1 hany
      obtain ⟨hid, hname, hargs, herror⟩ := hok.invalid c (hinvalid ▸ hc)
      rcases of_decide_eq_true hempty with h | h | h | h
      · exact hid h
      · exact hname h
      · exact hargs h
      · exact herror h
    obtain ⟨s', hend, hstored⟩ := endStep_stored (T := T) (m := ⟨step.message.content, step.message.toolCalls⟩)
      (by rw [hvalid]; exact hok.valid) s step.invalidToolCalls
    simp only [assembledChunk, if_true, onChatModelEnd, hvalidItems, hmerged]
    refine ⟨s', hend, fun _ i m invalid hmem => ?_⟩
    rcases List.mem_append.1 hmem with hmem | hmem
    · exact absurd hmem (hnone i m invalid)
    rcases List.mem_append.1 hmem with hmem | hmem
    · split at hmem
      · cases List.mem_singleton.1 hmem
      · cases hmem
    · exact hstored i m invalid hmem

/-- The answer tokens of a step are the answer text of its assembled message exactly under the condition. -/
theorem law_iff_shown {retries : Nat} (hrun : (astream P thinking gateway retries).2 = .ok step) (h : Handing)
    (s : Runner) :
    Law (modelStep T h s (astream P thinking gateway retries).1).1 step ↔
      ∀ asm ∈ lastAssembler P thinking gateway retries, Shown P h asm := by
  obtain ⟨asm, pieces, hlast, hfinish, hyielded, hchunks⟩ := astream_ok hrun
  obtain ⟨validCalls, invalidCalls, -, hcontent, -⟩ := finish_ok hfinish
  have hanswer : asm.answer = laneText .answer pieces := by
    unfold Assembler.answer
    rw [hyielded.kept]
    rfl
  have hcalls := hasCalls_iff hfinish
  rw [hlast, hchunks]
  simp only [Option.mem_some_iff, forall_eq']
  unfold Law Shown
  cases hchunk : h.chunk with
  | true =>
    rw [answerTokens_chunks hchunk s hyielded.ne, hcontent, if_pos rfl, hanswer]
    by_cases hnone : laneText .answer pieces = []
    · rw [if_neg (not_not_intro hnone), hnone, List.nil_append, List.append_right_eq_self, ite_eq_right_iff]
      constructor
      · intro hheld
        by_cases hnil : asm.heldAnswer = []
        · exact .inl hnil
        · refine .inr ⟨rfl, fun hresult => hcalls.2 fun htool => hnil (hheld ⟨hresult, htool⟩)⟩
      · rintro (hnil | ⟨-, hmade⟩) ⟨hresult, htool⟩
        · exact hnil
        · exact absurd htool (hcalls.1 (hmade hresult))
    · rw [if_pos hnone, List.self_eq_append_right]
      exact ⟨.inl, fun h => h.resolve_right fun h => hnone h.1⟩
  | false =>
    rw [answerTokens_messages hchunk, hcontent, if_neg Bool.false_ne_true, hanswer, ← Bool.not_eq_true, hcalls, not_not]
    split
    · next h => exact iff_of_true rfl (.inr h)
    · next h => exact ⟨fun hnil => .inl hnil.symm, fun hor => (hor.resolve_right h).symm⟩

end Proofs

/-! ### A text that ends with the start of a tag -/

/-- A frame with a delta. -/
def frame (delta : List (String × Value Int)) : Value Int :=
  .dict [("choices", .array [.dict [("delta", .dict delta)]])]

def contentFrame (content : String) : Value Int := frame [("content", .string content)]

/-- A frame with a call without arguments. -/
def callFrame : Value Int :=
  frame [("tool_calls", .array [.dict [
    ("function", .dict [("arguments", .string "\x7b\x7d"), ("name", .string "look")]),
    ("id", .string "call"), ("index", .number 0)]])]

def textOf (v : Value Int) : String := String.ofList (write integers [] v)

/-- The standard library on the texts of these frames. -/
def standard : Python Int where
  loads s :=
    match [contentFrame "Hi <", contentFrame "b", callFrame, .dict []].find? fun v => textOf v = s with
    | some v => .ok v
    | none => .error "Expecting value"
  dumps v := String.ofList (write integers [' '] v)
  str v := String.ofList (write integers [' '] v)
  toInt := some
  isZero n := n = 0

def contentTags : ThinkingConfig := ⟨.CONTENT_TAGS, ["reasoning_content", "reasoning", "thinking"]⟩

/-- A stream of frames that is over. -/
def streamOf (frames : List (Value Int)) : Attempt where
  lines := (frames.map fun v => (false, "data: " ++ textOf v)) ++ [(false, "data: [DONE]")]
  raises := none

/-- The gateway is not available, and then it streams the frames. -/
def afterFailure (frames : List (Value Int)) (n : Nat) : Attempt :=
  if n = 1 then ⟨[], some (.app 50301 "unavailable")⟩ else streamOf frames

def noResults : ToolResults := ⟨fun _ => none, id⟩

instance {ν : Type} (events : List AgentEvent) (step : AssembledStep ν) : Decidable (Law events step) :=
  inferInstanceAs (Decidable (_ = _))

def check {ε α : Type} (r : Except ε α) (p : α → Bool) : Bool :=
  match r with
  | .ok a => p a
  | .error _ => false

theorem exists_of_check {ε α : Type} {r : Except ε α} {p : α → Bool} (h : check r p = true) :
    ∃ a, r = .ok a ∧ p a = true := by
  cases r with
  | error e => cases h
  | ok a => exact ⟨a, rfl, h⟩

/-- What was held back is no tag, and comes with the next piece. -/
def goesOn : Nat → Attempt := afterFailure [contentFrame "Hi <", contentFrame "b"]

/-- The stream ends with the start of a tag and a call. -/
def breaksOff : Nat → Attempt := afterFailure [contentFrame "Hi <", callFrame]

theorem law_iff_shown_of_goesOn : ∃ step, (astream standard contentTags goesOn 1).2 = .ok step ∧
    step.message.content = "Hi <b" ∧
      (Law (modelStep noResults ⟨true, true⟩ ⟨0, []⟩ (astream standard contentTags goesOn 1).1).1 step ↔
        ∀ asm ∈ lastAssembler standard contentTags goesOn 1, Shown standard ⟨true, true⟩ asm) := by
  obtain ⟨step, hrun, hcontent⟩ := exists_of_check (r := (astream standard contentTags goesOn 1).2)
    (p := fun step => step.message.content = "Hi <b") (by decide)
  exact ⟨step, hrun, of_decide_eq_true hcontent, law_iff_shown hrun _ _⟩

/-- The message has the start of the tag, and no token does, however the chunks and the result are handed on. -/
theorem held_text_lost : ∃ step, (astream standard contentTags breaksOff 1).2 = .ok step ∧
    step.message.content = "Hi <" ∧
      answerTokens (modelStep noResults ⟨true, true⟩ ⟨0, []⟩ (astream standard contentTags breaksOff 1).1).1 =
        "Hi ".toList ∧
      ∀ h, ¬ Law (modelStep noResults h ⟨0, []⟩ (astream standard contentTags breaksOff 1).1).1 step := by
  let chunks := (astream standard contentTags breaksOff 1).1
  obtain ⟨step, hrun, hcheck⟩ := exists_of_check (r := (astream standard contentTags breaksOff 1).2)
    (p := fun step => step.message.content = "Hi <" ∧
      answerTokens (modelStep noResults ⟨true, true⟩ ⟨0, []⟩ chunks).1 = "Hi ".toList ∧
        ∀ c r : Bool, ¬ Law (modelStep noResults ⟨c, r⟩ ⟨0, []⟩ chunks).1 step)
    (by decide +kernel)
  obtain ⟨hcontent, htokens, hlaw⟩ := of_decide_eq_true hcheck
  exact ⟨step, hrun, hcontent, htokens, fun h => hlaw h.chunk h.result⟩

end NexusStudio.Llm
