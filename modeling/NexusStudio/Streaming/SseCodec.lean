import Mathlib
import NexusStudio.Lib.JsonRead

/-!
# The texts of stream frames

`encode_sse_frame` and `decode_encoded_sse_frame`.

* (lines) `splitlines` cuts a text at more characters than a JSON text escapes: `rawBreaks`.
* (codec) `encodeSseFrame` and `decodeEncodedSseFrame`, for frames with the dump and the validation of their contract.
* (round trip) `decode_encode_iff`: a frame comes back if and only if its strings are without `rawBreaks`.
* (replay) `replayed`: what a replay execution publishes from a stream of encoded frames.
-/

namespace NexusStudio.SseCodec

open JsonText

/-! ### Lines -/

def isLineBreak (d : Char) : Bool :=
  d ∈ ['\n', '\r', '\x0b', '\x0c', '\x1c', '\x1d', '\x1e', '\x85', '\u2028', '\u2029']

/-- The line breaks that a JSON text holds as they are. -/
def rawBreaks : List Char := ['\x85', '\u2028', '\u2029']

/-- `str.splitlines`. -/
def splitlines : List Char → List (List Char)
  | [] => []
  | '\r' :: '\n' :: l => [] :: splitlines l
  | d :: l =>
    if isLineBreak d then [] :: splitlines l
    else
      match splitlines l with
      | [] => [[d]]
      | line :: lines => (d :: line) :: lines

theorem splitlines_cons {d : Char} (hd : isLineBreak d = false) {x : List Char} {line : List Char}
    {lines : List (List Char)} (h : splitlines x = line :: lines) : splitlines (d :: x) = (d :: line) :: lines := by
  rw [splitlines, hd, h]
  · rfl
  · rintro l rfl
    cases hd

/-- The first line of a text. -/
theorem splitlines_append {x : List Char} (hx : ∀ d ∈ x, isLineBreak d = false) {d : Char} (hd : isLineBreak d = true)
    (hr : d ≠ '\r') (y : List Char) : splitlines (x ++ d :: y) = x :: splitlines y := by
  induction x with
  | nil =>
    rw [List.nil_append, splitlines, if_pos hd]
    rintro l rfl
    exact absurd rfl hr
  | cons c x ih =>
    have hc := hx c List.mem_cons_self
    exact splitlines_cons hc (ih fun e he => hx e (List.mem_cons_of_mem _ he))

theorem mem_rawBreaks {d : Char} : d ∈ rawBreaks ↔ isLineBreak d = true ∧ 32 ≤ d.toNat := by
  constructor
  · intro h
    simp only [rawBreaks, List.mem_cons, List.not_mem_nil, or_false] at h
    rcases h with rfl | rfl | rfl
    · decide
    · decide
    · decide
  · rintro ⟨hbreak, hle⟩
    simp only [isLineBreak, decide_eq_true_eq, List.mem_cons, List.not_mem_nil, or_false] at hbreak
    rcases hbreak with rfl | rfl | rfl | rfl | rfl | rfl | rfl | rfl | rfl | rfl
    all_goals first | exact absurd hle (by decide) | decide

theorem le_of_mem_rawBreaks {d : Char} (h : d ∈ rawBreaks) : 127 ≤ d.toNat := by
  simp only [rawBreaks, List.mem_cons, List.not_mem_nil, or_false] at h
  rcases h with rfl | rfl | rfl
  · decide
  · decide
  · decide

/-! ### The codec -/

inductive DecodeError
  | valueError (message : String)
  | jsonDecodeError
  | validationError
  deriving DecidableEq, Repr

/-- `model_dump(mode="json", exclude_none=True)` of the frame classes and `STREAM_FRAME_ADAPTER.validate_python`. -/
structure FrameAdapter (ν φ : Type) where
  modelDump : φ → List (String × Value ν)
  validatePython : Value ν → Option φ
  keyed : ∀ f, (Value.dict (modelDump f)).Keyed

section Codec

variable {ν φ : Type} (N : Reader ν) (A : FrameAdapter ν φ)

def FrameAdapter.payload (f : φ) : Value ν := .dict (A.modelDump f)

/-- The texts `data: ` and `data:`. -/
def dataStart : List Char := ['d', 'a', 't', 'a', ':', ' ']

def dataField : List Char := ['d', 'a', 't', 'a', ':']

def encodeSseFrame (f : φ) : List Char :=
  dataStart ++ (write N.toNumbers [' '] (A.payload f) ++ ['\n', '\n'])

/-- The value of a `data` line. -/
def dataValue (line : List Char) : Option (List Char) :=
  (List.isPrefixOf? dataField line).map fun value => if value.head? = some ' ' then value.tail else value

def dataParts (chunk : List Char) : List (List Char) := (splitlines chunk).filterMap dataValue

def decodeEncodedSseFrame (chunk : List Char) : Except DecodeError φ :=
  if dataParts chunk = [] then .error (.valueError "encoded SSE chunk has no data field")
  else
    match loads N (['\n'].intercalate (dataParts chunk)) with
    | none => .error .jsonDecodeError
    | some payload =>
      match A.validatePython payload with
      | none => .error .validationError
      | some f => .ok f

/-- The strings of a frame have no line break that its text holds as it is. -/
def Unbroken (f : φ) : Prop := ∀ s ∈ (A.payload f).strings, ∀ d ∈ s.toList, d ∉ rawBreaks

theorem unbroken_iff_all (f : φ) :
    ((A.payload f).strings.all fun s => s.toList.all fun d => d ∉ rawBreaks) = true ↔ Unbroken A f := by
  simp only [Unbroken, List.all_eq_true, decide_eq_true_eq]

instance decidableUnbroken (f : φ) : Decidable (Unbroken A f) :=
  decidable_of_iff _ (unbroken_iff_all A f)

/-! ### The parts of an encoded frame -/

theorem dataValue_data (x : List Char) : dataValue (dataStart ++ x) = some x := rfl

theorem dataParts_encoded {x : List Char} (hx : ∀ d ∈ x, isLineBreak d = false) {d : Char} (hd : isLineBreak d = true)
    (hr : d ≠ '\r') (y : List Char) : dataParts (dataStart ++ (x ++ d :: y)) = x :: dataParts y := by
  have hline : ∀ e ∈ dataStart ++ x, isLineBreak e = false := by
    intro e he
    rcases List.mem_append.1 he with he | he
    · have hall : (dataStart.all fun e => !isLineBreak e) = true := by decide
      exact Bool.not_eq_true' _ ▸ List.all_eq_true.1 hall e he
    · exact hx e he
  rw [dataParts, ← List.append_assoc, splitlines_append hline hd hr, List.filterMap_cons, dataValue_data]
  rfl

/-- The first part, with what follows it. -/
theorem intercalate_cut (x : List Char) (l : List (List Char)) :
    ∃ t, ['\n'].intercalate (x :: l) = x ++ t ∧ Cuts t := by
  cases l with
  | nil =>
    refine ⟨[], ?_, nofun⟩
    rw [List.intercalate_singleton, List.append_nil]
  | cons y l =>
    refine ⟨['\n'] ++ ['\n'].intercalate (y :: l), ?_, ?_⟩
    · rw [List.intercalate_cons_cons, List.append_assoc]
    · rintro d ⟨⟩
      decide

theorem unbroken_iff (f : φ) :
    Unbroken A f ↔ ∀ d ∈ write N.toNumbers [' '] (A.payload f), isLineBreak d = false := by
  constructor
  · intro h d hd
    by_contra hbreak
    have hraw := mem_rawBreaks.2 ⟨Bool.eq_true_of_not_eq_false hbreak, le_of_mem_write N hd⟩
    obtain ⟨s, hs, hmem⟩ := (mem_write_iff N (le_of_mem_rawBreaks hraw) _).1 hd
    exact h s hs d hmem hraw
  · intro h s hs d hd hraw
    have hfalse := h d ((mem_write_iff N (le_of_mem_rawBreaks hraw) _).2 ⟨s, hs, hd⟩)
    rw [(mem_rawBreaks.1 hraw).1] at hfalse
    cases hfalse

/-- The text of an unbroken frame is one line, and it is read as the dump of the frame. -/
theorem decode_of_unbroken {f : φ} (h : Unbroken A f) :
    decodeEncodedSseFrame N A (encodeSseFrame N A f) =
      match A.validatePython (A.payload f) with
      | none => .error .validationError
      | some f => .ok f := by
  have hparts : dataParts (encodeSseFrame N A f) = [write N.toNumbers [' '] (A.payload f)] :=
    dataParts_encoded ((unbroken_iff N A f).1 h) (by decide) (by decide) ['\n']
  have hread := loads_write N (A.keyed f)
  rw [decodeEncodedSseFrame, hparts, if_neg (List.cons_ne_nil _ _), List.intercalate_singleton, FrameAdapter.payload,
    hread]

/-- The text of another frame is cut in one of its strings. -/
theorem decode_of_broken {f : φ} (h : ¬ Unbroken A f) :
    decodeEncodedSseFrame N A (encodeSseFrame N A f) = .error .jsonDecodeError := by
  rw [unbroken_iff N A f] at h
  push Not at h
  obtain ⟨e, he, hbreak⟩ := h
  obtain ⟨d, hd⟩ := Option.isSome_iff_exists.1 (List.find?_isSome.2 ⟨e, he, Bool.eq_true_of_not_eq_false hbreak⟩)
  obtain ⟨hd, p, q, htext, hp⟩ := List.find?_eq_some_iff_append.1 hd
  have hmem : d ∈ write N.toNumbers [' '] (A.payload f) := by
    rw [htext]
    exact List.mem_append_right _ List.mem_cons_self
  have hraw := mem_rawBreaks.2 ⟨hd, le_of_mem_write N hmem⟩
  have hr : d ≠ '\r' := by
    rintro rfl
    exact absurd hraw (by decide)
  have hparts : dataParts (encodeSseFrame N A f) = p :: dataParts (q ++ ['\n', '\n']) := by
    rw [encodeSseFrame, htext, List.append_assoc, List.cons_append]
    exact dataParts_encoded (fun c hc => Bool.not_eq_true' _ ▸ hp c hc) hd hr _
  obtain ⟨t, hjoin, ht⟩ := intercalate_cut p (dataParts (q ++ ['\n', '\n']))
  have hread := loads_cut N (le_of_mem_rawBreaks hraw) ht (A.keyed f) htext
  rw [decodeEncodedSseFrame, hparts, if_neg (List.cons_ne_nil _ _), hjoin, hread]

/-- A frame that the contract reads from its own dump comes back if and only if it is unbroken. -/
theorem decode_encode_iff {f : φ} (hback : A.validatePython (A.payload f) = some f) :
    decodeEncodedSseFrame N A (encodeSseFrame N A f) = .ok f ↔ Unbroken A f := by
  constructor
  · intro h
    by_contra hbroken
    rw [decode_of_broken N A hbroken] at h
    cases h
  · intro h
    rw [decode_of_unbroken N A h, hback]

/-! ### Replay executions -/

/-- The frames that `run_chat_replay_execution` publishes from the chunks of a stream, with the error that ends it. -/
def replayed (isHeartbeat : φ → Bool) : List (List Char) → List φ × Option DecodeError
  | [] => ([], none)
  | chunk :: chunks =>
    match decodeEncodedSseFrame N A chunk with
    | .error e => ([], some e)
    | .ok f =>
      let rest := replayed isHeartbeat chunks
      (if isHeartbeat f then rest.1 else f :: rest.1, rest.2)

/-- A stream of encoded frames is published up to the first broken one, where it ends with an error. -/
theorem replayed_encoded (isHeartbeat : φ → Bool) {l : List φ}
    (hback : ∀ f ∈ l, A.validatePython (A.payload f) = some f) :
    replayed N A isHeartbeat (l.map (encodeSseFrame N A)) =
      ((l.takeWhile fun f => Unbroken A f).filter fun f => !isHeartbeat f,
        if ∀ f ∈ l, Unbroken A f then none else some .jsonDecodeError) := by
  induction l with
  | nil => rfl
  | cons f l ih =>
    have hrest := ih fun g hg => hback g (List.mem_cons_of_mem _ hg)
    by_cases h : Unbroken A f
    · have hdecode := (decode_encode_iff N A (hback f List.mem_cons_self)).2 h
      rw [List.map_cons, replayed, hdecode, List.takeWhile_cons_of_pos (by simpa using h)]
      simp only [List.forall_mem_cons, h, true_and, hrest]
      cases hheart : isHeartbeat f with
      | true => rw [List.filter_cons_of_neg (by simp [hheart]), if_pos rfl]
      | false => rw [List.filter_cons_of_pos (by simp [hheart]), if_neg Bool.false_ne_true]
    · have hdecode := decode_of_broken N A h
      rw [List.map_cons, replayed, hdecode, List.takeWhile_cons_of_neg (by simpa using h)]
      simp only [List.forall_mem_cons, h, false_and, if_false, List.filter_nil]

end Codec

/-! ### Token frames -/

section Token

variable {ν : Type} {k : String} {l : List (String × Option (Value ν))}

/-- The fields of a dump with `exclude_none`. -/
def excludeNone (l : List (String × Option (Value ν))) : List (String × Value ν) :=
  l.filterMap fun f => f.2.map fun v => (f.1, v)

theorem keys_excludeNone (l : List (String × Option (Value ν))) :
    ((excludeNone l).map Prod.fst).Sublist (l.map Prod.fst) := by
  induction l with
  | nil => exact .refl _
  | cons f l ih =>
    obtain ⟨k, _ | v⟩ := f
    · exact ih.cons k
    · exact ih.cons_cons k

theorem lookup_excludeNone (h : (l.map Prod.fst).Nodup) (k : String) :
    (excludeNone l).lookup k = (l.lookup k).bind id := by
  induction l with
  | nil => rfl
  | cons f l ih =>
    obtain ⟨k', v⟩ := f
    rw [List.map_cons, List.nodup_cons] at h
    have hrest := ih h.2
    rw [List.lookup_cons]
    cases hk : k == k' with
    | false =>
      cases v with
      | none => exact hrest
      | some v =>
        rw [excludeNone, List.filterMap_cons, Option.map_some, List.lookup_cons, hk]
        exact hrest
    | true =>
      obtain rfl := eq_of_beq hk
      cases v with
      | none =>
        have hnew : k ∉ l.map Prod.fst := h.1
        rw [excludeNone, List.filterMap_cons, Option.map_none]
        refine List.lookup_eq_none_iff.2 fun f hf => bne_iff_ne.2 fun he => hnew ?_
        rw [he]
        exact (keys_excludeNone l).subset (List.mem_map_of_mem hf)
      | some v =>
        rw [excludeNone, List.filterMap_cons, Option.map_some, List.lookup_cons, hk]
        rfl

theorem keyed_excludeNone (h : ∀ f ∈ l, ∀ v ∈ f.2, v.Keyed) : KeyedFields (excludeNone l) := by
  induction l with
  | nil => trivial
  | cons f l ih =>
    have hrest := ih fun g hg => h g (List.mem_cons_of_mem _ hg)
    obtain ⟨k, _ | v⟩ := f
    · exact hrest
    · exact ⟨h (k, some v) List.mem_cons_self v rfl, hrest⟩

inductive TokenChannel
  | answer
  | think
  deriving DecidableEq, Repr

def TokenChannel.value : TokenChannel → String
  | .answer => "answer"
  | .think => "think"

/-- `TokenFrame`, with its `protocol_version` of at least 1. -/
structure TokenFrame where
  protocolVersion : Int
  channel : TokenChannel
  text : String
  speakerRole : Option String
  expertId : Option String
  expertName : Option String
  avatar : Option String
  taskId : Option String
  version_pos : 1 ≤ protocolVersion
  deriving DecidableEq, Repr

namespace TokenFrame

def fields (f : TokenFrame) : List (String × Option (Value Int)) :=
  [("protocol_version", some (.number f.protocolVersion)), ("type", some (.string "token")),
    ("channel", some (.string f.channel.value)), ("text", some (.string f.text)),
    ("speaker_role", f.speakerRole.map .string), ("expert_id", f.expertId.map .string),
    ("expert_name", f.expertName.map .string), ("avatar", f.avatar.map .string), ("task_id", f.taskId.map .string)]

def names : List String :=
  ["protocol_version", "type", "channel", "text", "speaker_role", "expert_id", "expert_name", "avatar", "task_id"]

/-- The value of a field with the default 2. -/
def readVersion : Option (Value Int) → Option Int
  | none => some 2
  | some (.number n) => some n
  | some _ => none

def readText : Option (Value Int) → Option String
  | some (.string s) => some s
  | _ => none

/-- The value of a field with the default `None`. -/
def readOptional : Option (Value Int) → Option (Option String)
  | none => some none
  | some .null => some none
  | some (.string s) => some (some s)
  | some _ => none

def readChannel (s : String) : Option TokenChannel :=
  if s = "answer" then some .answer else if s = "think" then some .think else none

/-- `validate_python` on the dumps of `TokenFrame`. -/
def validate : Value Int → Option TokenFrame
  | .dict l => do
    guard (l.all fun f => f.1 ∈ names)
    let type ← readText (l.lookup "type")
    guard (type = "token")
    let version ← readVersion (l.lookup "protocol_version")
    let channel ← (readText (l.lookup "channel")).bind readChannel
    let text ← readText (l.lookup "text")
    let speakerRole ← readOptional (l.lookup "speaker_role")
    let expertId ← readOptional (l.lookup "expert_id")
    let expertName ← readOptional (l.lookup "expert_name")
    let avatar ← readOptional (l.lookup "avatar")
    let taskId ← readOptional (l.lookup "task_id")
    if h : 1 ≤ version then
      return ⟨version, channel, text, speakerRole, expertId, expertName, avatar, taskId, h⟩
    none
  | _ => none

theorem readOptional_map (o : Option String) : readOptional (o.map .string) = some o := by
  cases o with
  | none => rfl
  | some s => rfl

theorem readChannel_value (t : TokenChannel) : readChannel t.value = some t := by
  cases t with
  | answer => rfl
  | think => rfl

theorem keys_fields (f : TokenFrame) : (f.fields.map Prod.fst).Nodup := by
  change names.Nodup
  decide

theorem keyed_optional {o : Option String} {v : Value Int} (h : v ∈ o.map Value.string) : v.Keyed := by
  obtain ⟨s, _, rfl⟩ := Option.map_eq_some_iff.1 h
  trivial

theorem keyed_fields (f : TokenFrame) : ∀ g ∈ f.fields, ∀ v ∈ g.2, v.Keyed := by
  have hsome : ∀ v w : Value Int, v.Keyed → w ∈ some v → w.Keyed := by
    rintro v w hv ⟨⟩
    exact hv
  intro g hg v hv
  simp only [fields, List.mem_cons, List.not_mem_nil, or_false] at hg
  rcases hg with rfl | rfl | rfl | rfl | rfl | rfl | rfl | rfl | rfl
  · exact hsome (.number _) v trivial hv
  · exact hsome (.string _) v trivial hv
  · exact hsome (.string _) v trivial hv
  · exact hsome (.string _) v trivial hv
  · exact keyed_optional hv
  · exact keyed_optional hv
  · exact keyed_optional hv
  · exact keyed_optional hv
  · exact keyed_optional hv

/-- A token frame is read from its own dump. -/
theorem validate_dump (f : TokenFrame) : validate (.dict (excludeNone f.fields)) = some f := by
  have hnames : ((excludeNone f.fields).all fun f => f.1 ∈ names) = true := by
    refine List.all_eq_true.2 fun g hg => decide_eq_true ?_
    exact (keys_excludeNone f.fields).subset (List.mem_map_of_mem hg)
  have hlookup : ∀ k v, f.fields.lookup k = some v → (excludeNone f.fields).lookup k = v := by
    intro k v h
    rw [lookup_excludeNone f.keys_fields, h]
    rfl
  rw [validate, hnames, hlookup "type" _ rfl, hlookup "protocol_version" _ rfl, hlookup "channel" _ rfl,
    hlookup "text" _ rfl, hlookup "speaker_role" _ rfl, hlookup "expert_id" _ rfl, hlookup "expert_name" _ rfl,
    hlookup "avatar" _ rfl, hlookup "task_id" _ rfl]
  simp only [readOptional_map, readText, readVersion, readChannel_value, Option.bind_eq_bind, Option.bind_some,
    guard_true, Option.pure_def, f.version_pos]
  exact dif_pos trivial

/-- The dump and the validation of `TokenFrame`. -/
def adapter : FrameAdapter Int TokenFrame where
  modelDump f := excludeNone f.fields
  validatePython := validate
  keyed f := ⟨(keys_excludeNone f.fields).nodup f.keys_fields, keyed_excludeNone f.keyed_fields⟩

def ofText (text : String) : TokenFrame := ⟨2, .answer, text, none, none, none, none, none, by decide⟩

end TokenFrame

open TokenFrame in
theorem decode_encode_controls :
    decodeEncodedSseFrame integersReader adapter (encodeSseFrame integersReader adapter (ofText "a\r\x0cb\nдc")) =
      .ok (ofText "a\r\x0cb\nдc") :=
  (decode_encode_iff integersReader adapter (validate_dump _)).2 (by decide +kernel)

open TokenFrame in
/-- A line separator in the text of a token. -/
theorem decode_encode_separator :
    decodeEncodedSseFrame integersReader adapter (encodeSseFrame integersReader adapter (ofText "a\u2028b")) ≠
      .ok (ofText "a\u2028b") := by
  decide +kernel

end Token

end NexusStudio.SseCodec
