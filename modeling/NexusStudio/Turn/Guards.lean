import NexusStudio.Turn.Engine
import Mathlib.Data.Int.Notation
import Mathlib.Data.Nat.Notation
import Mathlib.Logic.Function.Basic

/-!
# The guards of a turn

`TurnGuards` counts the model steps and the finished tools of a turn, and the errors of each tool for the repeat fuse.

* (guards) The guards of the runtime, of the chat and of the canvas, which differ in what they do after a tool.
* (histories) `Passed`: every tool of a history was let through, and the counters are functions of the history.
* (answers) `chat_answer` and `canvas_answer`: what the guards say to the next tool. A success clears the errors of a
  tool in the chat, but not in the canvas.
-/

namespace NexusStudio.Turn

/-! ### Guards -/

structure TurnGuards where
  maxModelSteps : ℤ
  maxToolCalls : ℤ
  toolRepeatGuard : ℤ
  modelSteps : ℕ
  toolCalls : ℕ
  -- `_tool_errors_by_name`, where a missing entry is a zero
  toolErrorsByName : String → ℕ
  lastStopReason : Option String

namespace TurnGuards

def new (maxModelSteps maxToolCalls toolRepeatGuard : ℤ) : TurnGuards :=
  ⟨maxModelSteps, maxToolCalls, toolRepeatGuard, 0, 0, fun _ => 0, none⟩

def onModelStepFinished (g : TurnGuards) : TurnGuards := { g with modelSteps := g.modelSteps + 1 }

def exceededModelSteps (g : TurnGuards) : Bool := g.maxModelSteps ≤ g.modelSteps

def noteToolCall (g : TurnGuards) : TurnGuards := { g with toolCalls := g.toolCalls + 1 }

/-- `_tool_errors_by_name[tool_name] = count`. -/
def setErrors (g : TurnGuards) (toolName : String) (count : ℕ) : TurnGuards :=
  { g with toolErrorsByName := Function.update g.toolErrorsByName toolName count }

def stop (g : TurnGuards) (reason : String) : GuardAction × TurnGuards :=
  (.stopTurn, { g with lastStopReason := some reason })

/-- One more error of a tool, which stops the turn at `limit`. -/
def countError (g : TurnGuards) (toolName : String) (limit : ℤ) : GuardAction × TurnGuards :=
  let g := g.setErrors toolName (g.toolErrorsByName toolName + 1)
  if limit ≤ g.toolErrorsByName toolName then g.stop "error" else (.continue_, g)

def applyRepeatFuse (eligible : String → Option String → Bool) (g : TurnGuards) (toolName : String)
    (errorClass : Option String) : GuardAction × TurnGuards :=
  if eligible toolName errorClass then g.countError toolName g.toolRepeatGuard
  else if errorClass = none then (.continue_, g.setErrors toolName 0)
  else (.continue_, g)

/-- `on_tool_finished` of the runtime. -/
def onToolFinished (eligible : String → Option String → Bool) (g : TurnGuards) (toolName : String)
    (errorClass : Option String) : GuardAction × TurnGuards :=
  let g := g.noteToolCall
  if g.maxToolCalls ≤ g.toolCalls then g.stop "max_tools" else g.applyRepeatFuse eligible toolName errorClass

end TurnGuards

/-! ### Chat -/

/-- `BROWSER_TOOL_NAMES`. -/
def browserToolNames : List String :=
  ["browser_exec_script", "browser_capture_state", "request_user_gate", "browser_trigger_otp_send",
    "browser_restore_session", "browser_end_session", "browser_auth_status", "signal_browser_blocked",
    "browser_challenge_read_geometry", "browser_challenge_screenshot_element",
    "browser_challenge_dispatch_pointer_trace", "browser_challenge_wait_probe", "cv_image_info", "cv_template_match",
    "cv_find_gap_x"]

/-- `REPEAT_GUARD_ERROR_TYPES`. -/
def repeatGuardErrorTypes : List String :=
  ["invalid_arguments", "invalid_json", "missing_required_arg", "invalid_argument_type", "unknown_tool", "parse_fatal",
    "sandbox_error", "sandbox_timeout"]

def isRepeatGuardEligible (toolName : String) (errorClass : Option String) : Bool :=
  toolName ∉ browserToolNames && errorClass.any (· ∈ repeatGuardErrorTypes)

/-- `on_tool_finished` of the chat. -/
def chatOnToolFinished (g : TurnGuards) (toolName : String) (errorClass : Option String) : GuardAction × TurnGuards :=
  let g := g.noteToolCall
  if errorClass = some "browser_blocked" then (.browserBlocked, g)
  else if g.maxToolCalls ≤ g.toolCalls then g.stop "max_tools"
  else if errorClass = some "gate_setup_failed" then
    -- the first error of this class is enough
    match g.countError toolName 1 with
    | (.continue_, g) => g.applyRepeatFuse isRepeatGuardEligible toolName errorClass
    | r => r
  else g.applyRepeatFuse isRepeatGuardEligible toolName errorClass

/-! ### Canvas -/

/-- `_CANVAS_REPEATABLE_ERRORS`. -/
def canvasRepeatableErrors : List String :=
  ["invalid_arguments", "unknown_tool", "parse_fatal", "revision_conflict", "invalid_node_id", "invalid_patch",
    "generation_failed"]

/-- `on_tool_finished` of the canvas, which never clears the errors of a tool. -/
def canvasOnToolFinished (g : TurnGuards) (toolName : String) (errorClass : Option String) :
    GuardAction × TurnGuards :=
  let g := g.noteToolCall
  if g.maxToolCalls ≤ g.toolCalls then g.stop "max_tools"
  else if errorClass.any (· ∈ canvasRepeatableErrors) then g.countError toolName g.toolRepeatGuard
  else (.continue_, g)

/-! ### Histories -/

/-- A finished tool with the error class of its result. -/
abbrev Finished := String × Option String

/-- The guards after a tool, with what they say of it. -/
abbrev GuardPolicy := TurnGuards → String → Option String → GuardAction × TurnGuards

/-- The tools of a history, the last one first, were all let through, and led from the guards `g` to `g'`. -/
inductive Passed (policy : GuardPolicy) (g : TurnGuards) : List Finished → TurnGuards → Prop
  | nil : Passed policy g [] g
  | cons {h : List Finished} {g' g'' : TurnGuards} {t : Finished} (hp : Passed policy g h g')
      (ht : policy g' t.1 t.2 = (.continue_, g'')) : Passed policy g (t :: h) g''

/-- The errors of a tool since its last success that the fuse counts. -/
def openErrors (eligible : String → Option String → Bool) (toolName : String) : List Finished → ℕ
  | [] => 0
  | (name, errorClass) :: h =>
    if name ≠ toolName then openErrors eligible toolName h
    else if eligible name errorClass then openErrors eligible toolName h + 1
    else if errorClass = none then 0
    else openErrors eligible toolName h

/-- The errors of a tool in the whole history that the fuse of the canvas counts. -/
def repeatedErrors (toolName : String) (h : List Finished) : ℕ :=
  h.countP fun t => t.1 = toolName ∧ t.2.any (· ∈ canvasRepeatableErrors)

/-- The counters are those of a history. -/
structure Counts (count : String → List Finished → ℕ) (g₀ : TurnGuards) (h : List Finished) (g : TurnGuards) :
    Prop where
  maxModelSteps : g.maxModelSteps = g₀.maxModelSteps
  maxToolCalls : g.maxToolCalls = g₀.maxToolCalls
  toolRepeatGuard : g.toolRepeatGuard = g₀.toolRepeatGuard
  modelSteps : g.modelSteps = g₀.modelSteps
  toolCalls : g.toolCalls = h.length
  toolErrorsByName : ∀ name, g.toolErrorsByName name = count name h

theorem counts_new (count : String → List Finished → ℕ) (hcount : ∀ name, count name [] = 0) (a b c : ℤ) :
    Counts count (.new a b c) [] (.new a b c) :=
  ⟨rfl, rfl, rfl, rfl, rfl, fun name => (hcount name).symm⟩

variable {eligible : String → Option String → Bool} {count : String → List Finished → ℕ} {g₀ g g' : TurnGuards}
  {h : List Finished} {toolName : String} {errorClass : Option String}

namespace TurnGuards

/-- What one more error does. -/
theorem countError_cases (g : TurnGuards) (toolName : String) (limit : ℤ) :
    (limit ≤ g.toolErrorsByName toolName + 1 ∧ (g.countError toolName limit).1 = .stopTurn) ∨
      (¬ limit ≤ g.toolErrorsByName toolName + 1 ∧
        g.countError toolName limit = (.continue_, g.setErrors toolName (g.toolErrorsByName toolName + 1))) := by
  set g' := g.setErrors toolName (g.toolErrorsByName toolName + 1)
  have hcount : g'.toolErrorsByName toolName = g.toolErrorsByName toolName + 1 := Function.update_self ..
  have hdef : g.countError toolName limit =
      if limit ≤ g'.toolErrorsByName toolName then g'.stop "error" else (.continue_, g') := rfl
  rw [hdef, hcount]
  split
  · next hlimit => exact .inl ⟨by omega, rfl⟩
  · next hlimit => exact .inr ⟨by omega, rfl⟩

end TurnGuards

/-- A tool that is let through with the error count `n` afterwards. -/
theorem Counts.set (hc : Counts count g₀ h g) {n : ℕ} (hself : n = count toolName ((toolName, errorClass) :: h))
    (hother : ∀ name ≠ toolName, count name ((toolName, errorClass) :: h) = count name h) :
    Counts count g₀ ((toolName, errorClass) :: h) (g.noteToolCall.setErrors toolName n) := by
  refine ⟨hc.maxModelSteps, hc.maxToolCalls, hc.toolRepeatGuard, hc.modelSteps, congrArg (· + 1) hc.toolCalls, ?_⟩
  intro name
  by_cases hname : name = toolName
  · subst hname
    exact (Function.update_self ..).trans hself
  · exact (Function.update_of_ne hname ..).trans ((hc.toolErrorsByName name).trans (hother name hname).symm)

theorem Counts.note (hc : Counts count g₀ h g)
    (hsame : ∀ name, count name ((toolName, errorClass) :: h) = count name h) :
    Counts count g₀ ((toolName, errorClass) :: h) g.noteToolCall :=
  ⟨hc.maxModelSteps, hc.maxToolCalls, hc.toolRepeatGuard, hc.modelSteps, congrArg (· + 1) hc.toolCalls,
    fun name => (hc.toolErrorsByName name).trans (hsame name).symm⟩

theorem openErrors_of_ne {name : String} (hname : name ≠ toolName) :
    openErrors eligible name ((toolName, errorClass) :: h) = openErrors eligible name h :=
  if_pos hname.symm

theorem openErrors_of_eligible (he : eligible toolName errorClass = true) :
    openErrors eligible toolName ((toolName, errorClass) :: h) = openErrors eligible toolName h + 1 := by
  rw [openErrors, if_neg (not_not_intro rfl), if_pos he]

theorem openErrors_of_success (he : eligible toolName none = false) :
    openErrors eligible toolName ((toolName, none) :: h) = 0 := by
  rw [openErrors, if_neg (not_not_intro rfl), if_neg (by rw [he]; decide), if_pos rfl]

theorem openErrors_of_other (he : eligible toolName errorClass = false) (hne : errorClass ≠ none) (name : String) :
    openErrors eligible name ((toolName, errorClass) :: h) = openErrors eligible name h := by
  rw [openErrors]
  split
  · rfl
  · simp [he]

/-- What the fuse does to guards that have noted the tool. -/
theorem applyRepeatFuse_cases (hc : Counts (openErrors eligible) g₀ h g) (toolName : String)
    (errorClass : Option String) :
    (eligible toolName errorClass = true ∧ g₀.toolRepeatGuard ≤ openErrors eligible toolName h + 1 ∧
        (g.noteToolCall.applyRepeatFuse eligible toolName errorClass).1 = .stopTurn) ∨
      (¬ (eligible toolName errorClass = true ∧ g₀.toolRepeatGuard ≤ openErrors eligible toolName h + 1) ∧
        ∃ g', g.noteToolCall.applyRepeatFuse eligible toolName errorClass = (.continue_, g') ∧
          Counts (openErrors eligible) g₀ ((toolName, errorClass) :: h) g') := by
  have herrors : g.noteToolCall.toolErrorsByName toolName = openErrors eligible toolName h := hc.toolErrorsByName _
  have hguard : g.noteToolCall.toolRepeatGuard = g₀.toolRepeatGuard := hc.toolRepeatGuard
  have hother : ∀ name ≠ toolName, openErrors eligible name ((toolName, errorClass) :: h) = openErrors eligible name h :=
    fun name hname => openErrors_of_ne hname
  unfold TurnGuards.applyRepeatFuse
  cases he : eligible toolName errorClass with
  | true =>
    rw [if_pos rfl, hguard]
    rcases g.noteToolCall.countError_cases toolName g₀.toolRepeatGuard with ⟨hlimit, hstop⟩ | ⟨hlimit, hgo⟩
    · rw [herrors] at hlimit
      exact .inl ⟨rfl, hlimit, hstop⟩
    · rw [herrors] at hlimit hgo
      exact .inr ⟨fun hand => hlimit hand.2, _, hgo, hc.set (openErrors_of_eligible he).symm hother⟩
  | false =>
    rw [if_neg (by decide)]
    refine .inr ⟨fun hand => absurd hand.1 (by decide), ?_⟩
    by_cases hnone : errorClass = none
    · subst hnone
      rw [if_pos rfl]
      exact ⟨_, rfl, hc.set (openErrors_of_success he).symm hother⟩
    · rw [if_neg hnone]
      exact ⟨_, rfl, hc.note (openErrors_of_other he hnone)⟩

/-- The next tool reaches the budget of the turn. -/
theorem stopForMaxTools_iff (hc : Counts count g₀ h g) :
    g.noteToolCall.maxToolCalls ≤ g.noteToolCall.toolCalls ↔ g₀.maxToolCalls ≤ h.length + 1 := by
  change g.maxToolCalls ≤ ((g.toolCalls + 1 : ℕ) : ℤ) ↔ _
  rw [hc.maxToolCalls, hc.toolCalls]
  omega

/-! ### The chat's answers -/

/-- What the guards of the chat say to a tool, by the tools before it. -/
def chatAnswer (g₀ : TurnGuards) (h : List Finished) (toolName : String) (errorClass : Option String) : GuardAction :=
  if errorClass = some "browser_blocked" then .browserBlocked
  else if g₀.maxToolCalls ≤ h.length + 1 ∨ errorClass = some "gate_setup_failed" ∨
      (isRepeatGuardEligible toolName errorClass = true ∧
        g₀.toolRepeatGuard ≤ openErrors isRepeatGuardEligible toolName h + 1) then .stopTurn
  else .continue_

theorem chatOnToolFinished_spec (hc : Counts (openErrors isRepeatGuardEligible) g₀ h g) (toolName : String)
    (errorClass : Option String) :
    (chatOnToolFinished g toolName errorClass).1 = chatAnswer g₀ h toolName errorClass ∧
      ∀ g', chatOnToolFinished g toolName errorClass = (.continue_, g') →
        Counts (openErrors isRepeatGuardEligible) g₀ ((toolName, errorClass) :: h) g' := by
  unfold chatOnToolFinished chatAnswer
  by_cases hblocked : errorClass = some "browser_blocked"
  · rw [if_pos hblocked, if_pos hblocked]
    exact ⟨rfl, fun g' hg' => by cases hg'⟩
  rw [if_neg hblocked, if_neg hblocked]
  by_cases hmax : g₀.maxToolCalls ≤ h.length + 1
  · rw [if_pos ((stopForMaxTools_iff hc).2 hmax), if_pos (.inl hmax)]
    exact ⟨rfl, fun g' hg' => by cases hg'⟩
  rw [if_neg fun hstop => hmax ((stopForMaxTools_iff hc).1 hstop)]
  by_cases hsetup : errorClass = some "gate_setup_failed"
  · rw [if_pos hsetup, if_pos (.inr (.inl hsetup))]
    rcases g.noteToolCall.countError_cases toolName 1 with ⟨-, hstop⟩ | ⟨hlimit, -⟩
    · generalize g.noteToolCall.countError toolName 1 = r at hstop ⊢
      obtain ⟨a, g'⟩ := r
      cases hstop
      exact ⟨rfl, fun g' hg' => by cases hg'⟩
    · omega
  rw [if_neg hsetup]
  rcases applyRepeatFuse_cases hc toolName errorClass with ⟨he, hlimit, hstop⟩ | ⟨hno, g', hgo, hcounts⟩
  · rw [if_pos (.inr (.inr ⟨he, hlimit⟩))]
    refine ⟨hstop, fun g' hg' => ?_⟩
    rw [hg'] at hstop
    cases hstop
  · rw [if_neg fun hor => hor.elim hmax fun hor => hor.elim hsetup hno, hgo]
    refine ⟨rfl, fun g'' hg'' => ?_⟩
    cases hg''
    exact hcounts

/-- The chat's guards answer as a function of the turn's history: a tool that signals the block of the browser hands the
turn back, the last tool of the budget, a gate that could not be set up and the last error that the fuse allows since
the tool's last success stop it, and nothing else does. -/
theorem chat_answer (a b c : ℤ) (h : List Finished) (g : TurnGuards)
    (hpassed : Passed chatOnToolFinished (.new a b c) h g) (toolName : String) (errorClass : Option String) :
    (chatOnToolFinished g toolName errorClass).1 = chatAnswer (.new a b c) h toolName errorClass := by
  have hcounts : Counts (openErrors isRepeatGuardEligible) (.new a b c) h g := by
    induction hpassed with
    | nil => exact counts_new _ (fun _ => rfl) a b c
    | cons hp ht ih => exact (chatOnToolFinished_spec ih _ _).2 _ ht
  exact (chatOnToolFinished_spec hcounts toolName errorClass).1

/-- A sandbox that fails, succeeds and fails again: the guards of the chat, which allow one error, let it go on. -/
theorem chat_answer_cleared :
    let g := (chatOnToolFinished (chatOnToolFinished (.new 50 80 2) "python" (some "sandbox_error")).2 "python" none).2
    (chatOnToolFinished g "python" (some "sandbox_error")).1 =
        chatAnswer (.new 50 80 2) [("python", none), ("python", some "sandbox_error")] "python"
          (some "sandbox_error") ∧
      (chatOnToolFinished g "python" (some "sandbox_error")).1 = .continue_ :=
  ⟨chat_answer 50 80 2 _ _ (.cons (.cons .nil rfl) rfl) _ _, by decide⟩

/-! ### The canvas's answers -/

/-- What the guards of the canvas say to a tool, by the tools before it. -/
def canvasAnswer (g₀ : TurnGuards) (h : List Finished) (toolName : String) (errorClass : Option String) :
    GuardAction :=
  if g₀.maxToolCalls ≤ h.length + 1 ∨ (errorClass.any (· ∈ canvasRepeatableErrors) = true ∧
      g₀.toolRepeatGuard ≤ repeatedErrors toolName h + 1) then .stopTurn
  else .continue_

theorem repeatedErrors_of_ne {name : String} (hname : name ≠ toolName) :
    repeatedErrors name ((toolName, errorClass) :: h) = repeatedErrors name h :=
  List.countP_cons_of_neg (by simp [hname.symm])

theorem canvasOnToolFinished_spec (hc : Counts repeatedErrors g₀ h g) (toolName : String)
    (errorClass : Option String) :
    (canvasOnToolFinished g toolName errorClass).1 = canvasAnswer g₀ h toolName errorClass ∧
      ∀ g', canvasOnToolFinished g toolName errorClass = (.continue_, g') →
        Counts repeatedErrors g₀ ((toolName, errorClass) :: h) g' := by
  have herrors : g.noteToolCall.toolErrorsByName toolName = repeatedErrors toolName h := hc.toolErrorsByName _
  have hguard : g.noteToolCall.toolRepeatGuard = g₀.toolRepeatGuard := hc.toolRepeatGuard
  unfold canvasOnToolFinished canvasAnswer
  by_cases hmax : g₀.maxToolCalls ≤ h.length + 1
  · rw [if_pos ((stopForMaxTools_iff hc).2 hmax), if_pos (.inl hmax)]
    exact ⟨rfl, fun g' hg' => by cases hg'⟩
  rw [if_neg fun hstop => hmax ((stopForMaxTools_iff hc).1 hstop)]
  cases he : errorClass.any (· ∈ canvasRepeatableErrors) with
  | true =>
    rw [if_pos rfl, hguard]
    rcases g.noteToolCall.countError_cases toolName g₀.toolRepeatGuard with ⟨hlimit, hstop⟩ | ⟨hlimit, hgo⟩
    · rw [herrors] at hlimit
      rw [if_pos (.inr ⟨rfl, hlimit⟩)]
      refine ⟨hstop, fun g' hg' => ?_⟩
      rw [hg'] at hstop
      cases hstop
    · rw [herrors] at hlimit hgo
      rw [if_neg fun hor => hor.elim hmax fun hand => hlimit hand.2, hgo]
      refine ⟨rfl, fun g' hg' => ?_⟩
      cases hg'
      refine hc.set ?_ fun name hname => repeatedErrors_of_ne hname
      exact (List.countP_cons_of_pos (by simpa using he)).symm
  | false =>
    rw [if_neg (by decide), if_neg fun hor => hor.elim hmax fun hand => absurd hand.1 (by decide)]
    refine ⟨rfl, fun g' hg' => ?_⟩
    cases hg'
    refine hc.note fun name => List.countP_cons_of_neg ?_
    simp [he]

/-- The canvas's guards answer by all repeatable errors of the tool in the turn, however often it has succeeded. -/
theorem canvas_answer (a b c : ℤ) (h : List Finished) (g : TurnGuards)
    (hpassed : Passed canvasOnToolFinished (.new a b c) h g) (toolName : String) (errorClass : Option String) :
    (canvasOnToolFinished g toolName errorClass).1 = canvasAnswer (.new a b c) h toolName errorClass := by
  have hcounts : Counts repeatedErrors (.new a b c) h g := by
    induction hpassed with
    | nil => exact counts_new _ (fun _ => rfl) a b c
    | cons hp ht ih => exact (canvasOnToolFinished_spec ih _ _).2 _ ht
  exact (canvasOnToolFinished_spec hcounts toolName errorClass).1

/-- A patch that fails, succeeds and fails again: the guards of the canvas, which allow one error, stop the turn. -/
theorem canvas_answer_kept :
    let g := (canvasOnToolFinished (canvasOnToolFinished (.new 50 80 2) "apply_canvas_patch" (some "invalid_patch")).2
      "apply_canvas_patch" none).2
    (canvasOnToolFinished g "apply_canvas_patch" (some "invalid_patch")).1 =
        canvasAnswer (.new 50 80 2) [("apply_canvas_patch", none), ("apply_canvas_patch", some "invalid_patch")]
          "apply_canvas_patch" (some "invalid_patch") ∧
      (canvasOnToolFinished g "apply_canvas_patch" (some "invalid_patch")).1 = .stopTurn :=
  ⟨canvas_answer 50 80 2 _ _ (.cons (.cons .nil rfl) rfl) _ _, by decide⟩

end NexusStudio.Turn
