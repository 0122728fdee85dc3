import Mathlib.Data.List.DropRight

/-!
# Errors and text of the server

* (errors) `AppError` with its code and details, and the exceptions that are none.
* (text) `str.strip` with the white space of Unicode, as the source's language has it.
-/

namespace NexusStudio

/-- The members of `ErrorCode` that the modelled endpoints raise. -/
inductive ErrorCode
  | invalidParams
  | conversationBusy
  | streamRequestConflict
  | streamReplayExpired
  | resourceNotFound
  | internalError
  deriving DecidableEq, Repr

/-- What a request fails with: an `AppError` with details, a `ValueError` or any other exception. -/
inductive Failure (δ : Type)
  | app (code : ErrorCode) (message : String) (details : Option δ)
  | value (message : String)
  | other (message : String)
  deriving DecidableEq, Repr

/-- A computed result that passes a test. -/
theorem ok_of_any {ε α : Type*} {r : Except ε α} {p : α → Bool} (h : r.toOption.any p = true) :
    ∃ a, r = .ok a ∧ p a = true := by
  cases r with
  | error e => cases h
  | ok a => exact ⟨a, rfl, h⟩

/-- `str.isspace` of one character. -/
def isSpace (c : Char) : Bool :=
  let n := c.toNat
  (9 ≤ n && n ≤ 13) || (28 ≤ n && n ≤ 32) || n == 0x85 || n == 0xa0 || n == 0x1680 || (0x2000 ≤ n && n ≤ 0x200a) ||
    n == 0x2028 || n == 0x2029 || n == 0x202f || n == 0x205f || n == 0x3000

/-- `str.strip`. -/
def strip (s : String) : String :=
  String.ofList ((s.toList.dropWhile isSpace).reverse.dropWhile isSpace).reverse

theorem toList_strip (s : String) : (strip s).toList = (s.toList.dropWhile isSpace).rdropWhile isSpace :=
  String.toList_ofList

/-- A text that neither begins nor ends with white space is its own `strip`. -/
theorem strip_eq_self {s : String} (hhead : ∀ c ∈ s.toList.head?, isSpace c = false)
    (hlast : ∀ c ∈ s.toList.getLast?, isSpace c = false) : strip s = s := by
  apply String.toList_inj.1
  rw [toList_strip]
  have hdrop : s.toList.dropWhile isSpace = s.toList := by
    cases hs : s.toList with
    | nil => rfl
    | cons c l => exact List.dropWhile_cons_of_neg (by simp [hhead c (by rw [hs]; rfl)])
  rw [hdrop, List.rdropWhile_eq_self_iff]
  intro hne
  simp [hlast _ (List.getLast?_eq_some_getLast hne)]

theorem head?_strip (s : String) : ∀ c ∈ (strip s).toList.head?, isSpace c = false := by
  intro c hc
  rw [toList_strip] at hc
  obtain ⟨t, ht⟩ := List.rdropWhile_prefix isSpace (s.toList.dropWhile isSpace)
  have hhead : (s.toList.dropWhile isSpace).head? = some c := by
    rw [← ht, List.head?_append, hc]
    rfl
  have hnot := List.head?_dropWhile_not isSpace s.toList
  rw [hhead] at hnot
  simpa using hnot

theorem getLast?_strip (s : String) : ∀ c ∈ (strip s).toList.getLast?, isSpace c = false := by
  intro c hc
  rw [toList_strip] at hc
  obtain ⟨hne, rfl⟩ := List.mem_getLast?_eq_getLast hc
  simpa using List.rdropWhile_last_not isSpace (s.toList.dropWhile isSpace) hne

theorem strip_strip (s : String) : strip (strip s) = strip s :=
  strip_eq_self (head?_strip s) (getLast?_strip s)

/-- A computation that goes on after another returns only where both do. -/
theorem bind_eq_ok {ε α β : Type*} {x : Except ε α} {f : α → Except ε β} {b : β} :
    x.bind f = .ok b ↔ ∃ a, x = .ok a ∧ f a = .ok b := by
  cases x with
  | error e => exact ⟨fun h => (by cases h), fun ⟨_, h, _⟩ => (by cases h)⟩
  | ok a =>
    refine ⟨fun h => ⟨a, rfl, h⟩, fun ⟨_, h, hf⟩ => ?_⟩
    cases h
    exact hf

theorem map_eq_ok {ε α β : Type*} {f : α → β} {x : Except ε α} {b : β} (h : x.map f = .ok b) :
    ∃ a, x = .ok a ∧ f a = b := by
  cases x with
  | error e => cases h
  | ok a =>
    cases h
    exact ⟨a, rfl, rfl⟩

theorem map_eq_error {ε α β : Type*} {f : α → β} {x : Except ε α} {e : ε} (h : x.map f = .error e) :
    x = .error e := by
  cases x with
  | error e' =>
    cases h
    rfl
  | ok a => cases h

end NexusStudio
