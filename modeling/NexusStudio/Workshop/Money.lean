import Mathlib
import NexusStudio.Lib.Decimal
import NexusStudio.Server.Errors

/-!
# Amounts of money

`parse_top_yuan_to_fen` reads an amount in yuan as a decimal and gives it in fen.

* (texts) The numbers that `Decimal` reads (`finiteOf_eq_some_iff`): a sign, digits with a point, an exponent. A digit is
  one of any script, and underscores are skipped.
* (amounts) The amount is multiplied by one hundred and rounded to a whole number in a context of 28 digits. The result
  is the amount, and every error a `MoneyParseError`, exactly if the context does not come in between (`meets_iff`).
-/

namespace NexusStudio.Money

open Decimals

/-! ### Decimal texts -/

/-- The zeros of the decimal digits of Unicode 15. -/
def decimalZeros : List Nat :=
  [0x30, 0x660, 0x6f0, 0x7c0, 0x966, 0x9e6, 0xa66, 0xae6, 0xb66, 0xbe6, 0xc66, 0xce6, 0xd66, 0xde6, 0xe50, 0xed0, 0xf20,
    0x1040, 0x1090, 0x17e0, 0x1810, 0x1946, 0x19d0, 0x1a80, 0x1a90, 0x1b50, 0x1bb0, 0x1c40, 0x1c50, 0xa620, 0xa8d0,
    0xa900, 0xa9d0, 0xa9f0, 0xaa50, 0xabf0, 0xff10, 0x104a0, 0x10d30, 0x11066, 0x110f0, 0x11136, 0x111d0, 0x112f0,
    0x11450, 0x114d0, 0x11650, 0x116c0, 0x11730, 0x118e0, 0x11950, 0x11c50, 0x11d50, 0x11da0, 0x11f50, 0x16a60, 0x16ac0,
    0x16b50, 0x1d7ce, 0x1d7d8, 0x1d7e2, 0x1d7ec, 0x1d7f6, 0x1e140, 0x1e2f0, 0x1e4f0, 0x1e950, 0x1fbf0]

def digitOf (c : Char) : Option Nat :=
  (decimalZeros.find? fun z => z ≤ c.toNat ∧ c.toNat < z + 10).map fun z => c.toNat - z

def natOf (digits : List Nat) : Nat := digits.foldl (fun n digit => 10 * n + digit) 0

def splitSign : List Char → Bool × List Char
  | '+' :: rest => (false, rest)
  | '-' :: rest => (true, rest)
  | rest => (false, rest)

/-- The digits at the start of a text, and what comes after them. -/
def spanDigits : List Char → List Nat × List Char
  | [] => ([], [])
  | c :: rest =>
    match digitOf c with
    | some digit => (digit :: (spanDigits rest).1, (spanDigits rest).2)
    | none => ([], c :: rest)

def signedNat (negative : Bool) (n : Nat) : ℤ := if negative then -n else n

def exponentOf : List Char → Option ℤ
  | [] => some 0
  | c :: rest =>
    if c = 'e' ∨ c = 'E' then
      let (negative, rest) := splitSign rest
      let (digits, rest) := spanDigits rest
      if digits ≠ [] ∧ rest = [] then some (signedNat negative (natOf digits)) else none
    else none

/-- The digits after a point. -/
def fractionOf : List Char → List Nat × List Char
  | '.' :: rest => spanDigits rest
  | rest => ([], rest)

/-- A finite number. -/
def finiteOf (text : List Char) : Option Decimal :=
  let (negative, rest) := splitSign text
  let (whole, rest) := spanDigits rest
  let (fraction, rest) := fractionOf rest
  if whole ++ fraction = [] then none
  else (exponentOf rest).map fun exp => ⟨negative, natOf (whole ++ fraction), exp - fraction.length⟩

/-- What the decimal module can hold. -/
structure Limits where
  maxPrec : ℕ
  maxEmax : ℤ
  minEtiny : ℤ

def Limits.Fits (limits : Limits) (d : Decimal) : Prop :=
  limits.minEtiny ≤ d.exp ∧
    if d.coeff = 0 then d.exp ≤ limits.maxEmax
    else digitCount d.coeff ≤ limits.maxPrec ∧ d.adjusted ≤ limits.maxEmax

instance (limits : Limits) (d : Decimal) : Decidable (limits.Fits d) := inferInstanceAs (Decidable (_ ∧ ite _ _ _))

/-- The digits that a NaN may have. -/
def payloadOk (limits : Limits) (text : List Char) : Bool :=
  (spanDigits text).2 = [] ∧ digitCount (natOf (spanDigits text).1) ≤ limits.maxPrec

/-- An infinity or a NaN, after the sign and in small letters. -/
def specialOf (limits : Limits) (text : List Char) : Bool :=
  text = "inf".toList ∨ text = "infinity".toList ∨
    (text.take 3 = "nan".toList ∧ payloadOk limits (text.drop 3) = true) ∨
    (text.take 4 = "snan".toList ∧ payloadOk limits (text.drop 4) = true)

inductive Number
  | finite (d : Decimal)
  | special
  deriving DecidableEq, Repr

/-- The characters of a text that count. -/
def numeralChars (text : String) : List Char := text.toList.filter (· ≠ '_')

/-- `Decimal(text)` for a text without space around it; `none` is `InvalidOperation`. -/
def decimalOf (limits : Limits) (text : String) : Option Number :=
  match finiteOf (numeralChars text) with
  | some d => if limits.Fits d then some (.finite d) else none
  | none => if specialOf limits ((splitSign (numeralChars text)).2.map Char.toLower) then some .special else none

/-! ### The numbers that a text denotes -/

inductive Sign : List Char → Bool → Prop
  | empty : Sign [] false
  | plus : Sign ['+'] false
  | minus : Sign ['-'] true

def Digits (text : List Char) (digits : List Nat) : Prop := text.map digitOf = digits.map some

inductive Exponent : List Char → ℤ → Prop
  | empty : Exponent [] 0
  | digits {c : Char} {sign text : List Char} {negative : Bool} {digits : List Nat} (hc : c = 'e' ∨ c = 'E')
      (hsign : Sign sign negative) (htext : Digits text digits) (hne : digits ≠ []) :
      Exponent (c :: (sign ++ text)) (signedNat negative (natOf digits))

/-- A point and the digits after it. -/
inductive Fraction : List Char → List Nat → Prop
  | empty : Fraction [] []
  | point {text : List Char} {digits : List Nat} (htext : Digits text digits) : Fraction ('.' :: text) digits

inductive Numeral : List Char → Decimal → Prop
  | mk {sign whole fraction exponent : List Char} {negative : Bool} {ws fs : List Nat} {exp : ℤ}
      (hsign : Sign sign negative) (hwhole : Digits whole ws) (hfraction : Fraction fraction fs) (hne : ws ++ fs ≠ [])
      (hexponent : Exponent exponent exp) :
      Numeral (sign ++ (whole ++ (fraction ++ exponent))) ⟨negative, natOf (ws ++ fs), exp - fs.length⟩

/-- The text is a numeral of this value. -/
def Denotes (s : String) (v : ℚ) : Prop := ∃ d, Numeral (numeralChars (strip s)) d ∧ d.value = v

theorem splitSign_append {sign rest : List Char} {negative : Bool} (hsign : Sign sign negative)
    (h : ∀ c ∈ rest.head?, c ≠ '+' ∧ c ≠ '-') : splitSign (sign ++ rest) = (negative, rest) := by
  cases hsign with
  | empty =>
    cases rest with
    | nil => rfl
    | cons c rest =>
      obtain ⟨hplus, hminus⟩ := h c rfl
      rw [List.nil_append, splitSign]
      · exact fun _ heq => hplus (List.cons.inj heq).1
      · exact fun _ heq => hminus (List.cons.inj heq).1
  | plus => rfl
  | minus => rfl

theorem sign_splitSign (text : List Char) :
    ∃ sign, text = sign ++ (splitSign text).2 ∧ Sign sign (splitSign text).1 := by
  unfold splitSign
  split
  · exact ⟨_, rfl, .plus⟩
  · exact ⟨_, rfl, .minus⟩
  · exact ⟨[], rfl, .empty⟩

theorem Digits.eq_nil {digits : List Nat} (h : Digits [] digits) : digits = [] := by
  cases digits with
  | nil => rfl
  | cons digit digits => exact absurd h (by simp [Digits])

theorem spanDigits_append {text rest : List Char} {digits : List Nat} (htext : Digits text digits)
    (h : ∀ c ∈ rest.head?, digitOf c = none) : spanDigits (text ++ rest) = (digits, rest) := by
  induction text generalizing digits with
  | nil =>
    obtain rfl := htext.eq_nil
    cases rest with
    | nil => rfl
    | cons c rest =>
      have hc : digitOf c = none := h c rfl
      rw [List.nil_append, spanDigits, hc]
  | cons c text ih =>
    cases digits with
    | nil => exact absurd htext (by simp [Digits])
    | cons digit digits =>
      obtain ⟨hc, htext⟩ := List.cons.inj htext
      rw [List.cons_append, spanDigits, hc, ih htext]

theorem digits_spanDigits (text : List Char) :
    ∃ front, text = front ++ (spanDigits text).2 ∧ Digits front (spanDigits text).1 := by
  induction text with
  | nil => exact ⟨[], rfl, rfl⟩
  | cons c text ih =>
    rw [spanDigits]
    cases hc : digitOf c with
    | none => exact ⟨[], rfl, rfl⟩
    | some digit =>
      obtain ⟨front, htext, hfront⟩ := ih
      refine ⟨c :: front, congrArg (c :: ·) htext, ?_⟩
      rw [Digits, List.map_cons, hc, hfront, List.map_cons]

theorem ne_of_digitOf {c : Char} (h : digitOf c ≠ none) : c ≠ '+' ∧ c ≠ '-' := by
  constructor
  · rintro rfl
    exact h (by decide)
  · rintro rfl
    exact h (by decide)

/-- A digit is not a sign. -/
theorem Digits.head {text : List Char} {digits : List Nat} (h : Digits text digits) :
    ∀ c ∈ text.head?, c ≠ '+' ∧ c ≠ '-' := by
  intro c hc
  cases text with
  | nil => exact absurd hc (by simp)
  | cons c' text =>
    rw [List.head?_cons, Option.mem_some_iff] at hc
    subst hc
    refine ne_of_digitOf fun hnone => ?_
    cases digits with
    | nil => exact absurd h (by simp [Digits])
    | cons digit digits =>
      have hsome : digitOf c' = some digit := (List.cons.inj h).1
      rw [hnone] at hsome
      cases hsome

theorem exponentOf_eq_some_iff {text : List Char} {exp : ℤ} : exponentOf text = some exp ↔ Exponent text exp := by
  constructor
  · intro h
    cases text with
    | nil =>
      cases h
      exact .empty
    | cons c rest =>
      rw [exponentOf] at h
      obtain ⟨sign, hsplit, hsign⟩ := sign_splitSign rest
      obtain ⟨front, hfront, hdigits⟩ := digits_spanDigits (splitSign rest).2
      dsimp only at h
      split at h
      case isFalse => cases h
      case isTrue hc =>
        split at h
        case isFalse => cases h
        case isTrue hok =>
          obtain ⟨hne, hrest⟩ := hok
          cases h
          rw [hrest, List.append_nil] at hfront
          have hexp := Exponent.digits hc hsign hdigits hne
          rwa [← hfront, ← hsplit] at hexp
  · intro h
    cases h with
    | empty => rfl
    | @digits c sign text negative digits hc hsign htext hne =>
      have hspan : spanDigits (text ++ []) = (digits, []) := spanDigits_append htext fun _ h => absurd h (by simp)
      rw [List.append_nil] at hspan
      rw [exponentOf, if_pos hc, splitSign_append hsign htext.head]
      simp only [hspan, hne, ne_eq, not_false_eq_true, and_self, if_true]

theorem Exponent.head {text : List Char} {exp : ℤ} (h : Exponent text exp) :
    ∀ c ∈ text.head?, digitOf c = none ∧ c ≠ '.' := by
  cases h with
  | empty => exact fun _ h => absurd h (by simp)
  | digits hc =>
    intro c h
    rw [List.head?_cons, Option.mem_some_iff] at h
    subst h
    rcases hc with rfl | rfl
    · exact ⟨by decide, by decide⟩
    · exact ⟨by decide, by decide⟩

theorem fraction_fractionOf (text : List Char) :
    ∃ front, text = front ++ (fractionOf text).2 ∧ Fraction front (fractionOf text).1 := by
  unfold fractionOf
  split
  · next rest =>
    obtain ⟨front, hrest, hfront⟩ := digits_spanDigits rest
    exact ⟨'.' :: front, congrArg ('.' :: ·) hrest, .point hfront⟩
  · exact ⟨[], rfl, .empty⟩

theorem fractionOf_append {text rest : List Char} {digits : List Nat} (htext : Fraction text digits)
    (h : ∀ c ∈ rest.head?, digitOf c = none ∧ c ≠ '.') : fractionOf (text ++ rest) = (digits, rest) := by
  cases htext with
  | empty =>
    cases rest with
    | nil => rfl
    | cons c rest =>
      have hc : c ≠ '.' := (h c rfl).2
      rw [List.nil_append, fractionOf]
      exact fun _ heq => hc (List.cons.inj heq).1
  | point htext => exact spanDigits_append htext fun c hc => (h c hc).1

/-- Reading a number finds exactly the numerals. -/
theorem finiteOf_eq_some_iff {text : List Char} {d : Decimal} : finiteOf text = some d ↔ Numeral text d := by
  constructor
  · intro h
    obtain ⟨sign, hsplit, hsign⟩ := sign_splitSign text
    obtain ⟨whole, hwhole, hws⟩ := digits_spanDigits (splitSign text).2
    obtain ⟨fraction, hfraction, hfs⟩ := fraction_fractionOf (spanDigits (splitSign text).2).2
    unfold finiteOf at h
    dsimp only at h
    split at h
    case isTrue => cases h
    case isFalse hne =>
      obtain ⟨exp, hexp, rfl⟩ := Option.map_eq_some_iff.1 h
      have hmk := Numeral.mk hsign hws hfs hne (exponentOf_eq_some_iff.1 hexp)
      rwa [← hfraction, ← hwhole, ← hsplit] at hmk
  · intro h
    cases h with
    | @mk sign whole fraction exponent negative ws fs exp hsign hwhole hfraction hne hexponent =>
      have hrest : ∀ c ∈ (fraction ++ exponent).head?, digitOf c = none := by
        cases hfraction with
        | empty => exact fun c hc => (hexponent.head c hc).1
        | point _ =>
          intro c hc
          rw [List.cons_append, List.head?_cons, Option.mem_some_iff] at hc
          exact hc ▸ by decide
      have hstart : ∀ c ∈ (whole ++ (fraction ++ exponent)).head?, c ≠ '+' ∧ c ≠ '-' := by
        intro c hc
        cases whole with
        | cons c' whole => exact hwhole.head c hc
        | nil =>
          obtain rfl := hwhole.eq_nil
          cases hfraction with
          | empty => exact absurd rfl hne
          | point _ =>
            rw [List.nil_append, List.cons_append, List.head?_cons, Option.mem_some_iff] at hc
            exact hc ▸ ⟨by decide, by decide⟩
      unfold finiteOf
      simp only [splitSign_append hsign hstart, spanDigits_append hwhole hrest,
        fractionOf_append hfraction hexponent.head, hne, if_false, exponentOf_eq_some_iff.2 hexponent, Option.map_some]

/-! ### Amounts -/

inductive Raised
  | money (code message : String)
  | decimal (signal : Signal)
  deriving DecidableEq, Repr

/-- The default context of the decimal module. -/
def defaultContext : Context := ⟨28, -999999, 999999, by decide, by decide, by decide⟩

/-- `int(d)`. -/
def toInt (d : Decimal) : ℤ :=
  if 0 ≤ d.exp then d.signed * 10 ^ d.exp.toNat else d.signed.tdiv (10 ^ (-d.exp).toNat)

def unavailable : Raised := .money "TAOBAO_MONEY_UNAVAILABLE" "TOP money field empty"

def invalid (message : String) : Raised := .money "TAOBAO_MONEY_INVALID" message

/-- `parse_top_yuan_to_fen`, with the `repr` of a text. -/
def parseTopYuanToFen (repr : String → String) (limits : Limits) (value : Option String) : Except Raised ℤ :=
  match value with
  | none => .error unavailable
  | some s =>
    let text := strip s
    if text = "" then .error unavailable
    else match decimalOf limits text with
      | none => .error (invalid ("invalid TOP yuan string: " ++ repr text))
      | some .special => .error (invalid ("non-finite TOP yuan: " ++ repr text))
      | some (.finite amount) =>
        match defaultContext.multiply amount ⟨false, 100, 0⟩ with
        | .error signal => .error (.decimal signal)
        | .ok scaled =>
          match defaultContext.quantize scaled 0 with
          | .error signal => .error (.decimal signal)
          | .ok fen =>
            if fen.same scaled then .ok (toInt fen)
            else .error (invalid ("TOP yuan must have at most 2 decimal places: " ++ repr text))

section Amounts

variable {repr : String → String} {limits : Limits} {s : String}

/-- What is promised of an amount: it is given exactly, and every other text is a `MoneyParseError`. -/
def Meets (repr : String → String) (limits : Limits) (s : String) : Prop :=
  (∀ n : ℤ, parseTopYuanToFen repr limits (some s) = .ok n ↔ ∃ v, Denotes s v ∧ v * 100 = n) ∧
    ∀ raised, parseTopYuanToFen repr limits (some s) = .error raised → ∃ code message, raised = .money code message

def hundredfold (d : Decimal) : Decimal := { d with coeff := d.coeff * 100 }

theorem value_hundredfold (d : Decimal) : (hundredfold d).value = d.value * 100 := by
  rw [Decimal.value, Decimal.value, hundredfold, Nat.cast_mul, Nat.cast_ofNat]
  ring

theorem multiply_hundred (d : Decimal) :
    defaultContext.multiply d ⟨false, 100, 0⟩ = defaultContext.fix (hundredfold d) := by
  simp only [Context.multiply, Bool.bne_false, Int.add_zero, hundredfold]

/-- A text without a number is a `MoneyParseError`. -/
theorem parse_of_none (h : ∀ d, decimalOf limits (strip s) ≠ some (.finite d)) :
    ∃ code message, parseTopYuanToFen repr limits (some s) = .error (.money code message) := by
  unfold parseTopYuanToFen
  dsimp only
  split
  · exact ⟨_, _, rfl⟩
  · split
    · exact ⟨_, _, rfl⟩
    · exact ⟨_, _, rfl⟩
    · next amount hamount => exact absurd hamount (h amount)

/-- An amount is settled in the context. -/
theorem parse_of_finite {d : Decimal} (h : decimalOf limits (strip s) = some (.finite d)) :
    parseTopYuanToFen repr limits (some s) =
      match defaultContext.settle (hundredfold d) with
      | .error signal => .error (.decimal signal)
      | .ok (scaled, fen) =>
        if fen.same scaled then .ok (toInt fen)
        else .error (invalid ("TOP yuan must have at most 2 decimal places: " ++ repr (strip s))) := by
  have hne : strip s ≠ "" := by
    intro hempty
    have hnone : decimalOf limits "" = none := rfl
    rw [hempty, hnone] at h
    cases h
  unfold parseTopYuanToFen Context.settle
  dsimp only
  rw [if_neg hne, h, ← multiply_hundred]
  dsimp only
  cases defaultContext.multiply d ⟨false, 100, 0⟩ with
  | error signal => rfl
  | ok scaled =>
    dsimp only
    cases defaultContext.quantize scaled 0 with
    | error signal => rfl
    | ok fen => rfl

theorem denotes_iff {d : Decimal} (h : Numeral (numeralChars (strip s)) d) {v : ℚ} : Denotes s v ↔ v = d.value := by
  constructor
  · rintro ⟨d', h', rfl⟩
    have heq := (finiteOf_eq_some_iff.2 h).symm.trans (finiteOf_eq_some_iff.2 h')
    cases heq
    rfl
  · rintro rfl
    exact ⟨d, h, rfl⟩

/-- The context settles an amount as promised exactly if it is clear. -/
theorem meets_of_finite {d : Decimal} (h : Numeral (numeralChars (strip s)) d) (hfits : limits.Fits d) :
    Meets repr limits s ↔ defaultContext.Clear (hundredfold d) := by
  have hdecimal : decimalOf limits (strip s) = some (.finite d) := by
    rw [decimalOf, finiteOf_eq_some_iff.2 h]
    exact if_pos hfits
  have hparse : parseTopYuanToFen repr limits (some s) = _ := parse_of_finite hdecimal
  have hdenotes : ∀ n : ℤ, (∃ v, Denotes s v ∧ v * 100 = n) ↔ (hundredfold d).value = n := by
    intro n
    simp only [denotes_iff h, value_hundredfold, exists_eq_left]
  rw [← Context.exact_iff, Meets, hparse]
  simp only [hdenotes]
  cases hsettle : defaultContext.settle (hundredfold d) with
  | error signal =>
    refine iff_of_false ?_ ?_
    · rintro ⟨-, herror⟩
      obtain ⟨_, _, heq⟩ := herror _ rfl
      cases heq
    · rintro ⟨_, _, hok, -⟩
      rw [hsettle] at hok
      cases hok
  | ok settled =>
    obtain ⟨scaled, fen⟩ := settled
    have hint : toInt fen = fen.signed := by
      rw [toInt, Context.exp_of_settle hsettle]
      exact Int.mul_one _
    dsimp only
    by_cases hsame : fen.same scaled = true
    · rw [if_pos hsame, hint]
      constructor
      · rintro ⟨hok, -⟩
        have hvalue := (hok _).1 rfl
        exact ⟨scaled, fen, hsettle, Context.exp_of_settle hsettle, iff_of_true hsame ⟨_, hvalue⟩, fun _ => hvalue⟩
      · rintro ⟨_, _, hok, -, -, hvalue⟩
        rw [hsettle] at hok
        cases hok
        refine ⟨fun n => ?_, fun _ herror => by cases herror⟩
        rw [hvalue hsame, Int.cast_inj, Except.ok.injEq]
    · rw [if_neg hsame]
      constructor
      · rintro ⟨hok, -⟩
        refine ⟨scaled, fen, hsettle, Context.exp_of_settle hsettle, iff_of_false hsame ?_, fun h => absurd h hsame⟩
        rintro ⟨n, hn⟩
        cases (hok n).2 hn
      · rintro ⟨_, _, hok, -, hwhole, -⟩
        rw [hsettle] at hok
        cases hok
        refine ⟨fun n => iff_of_false (fun h => by cases h) fun hn => hsame (hwhole.2 ⟨n, hn⟩), fun _ herror => ?_⟩
        cases herror
        exact ⟨_, _, rfl⟩

/-- An amount that is too large for the decimal module is refused. -/
theorem meets_of_not_fits {d : Decimal} (h : Numeral (numeralChars (strip s)) d) (hfits : ¬ limits.Fits d) :
    Meets repr limits s ↔ ¬ ∃ n : ℤ, d.value * 100 = n := by
  have hnone : ∀ d, decimalOf limits (strip s) ≠ some (.finite d) := by
    intro d' hd'
    rw [decimalOf, finiteOf_eq_some_iff.2 h] at hd'
    dsimp only at hd'
    rw [if_neg hfits] at hd'
    cases hd'
  obtain ⟨code, message, hparse⟩ : ∃ code message, parseTopYuanToFen repr limits (some s) = _ := parse_of_none hnone
  rw [Meets, hparse]
  constructor
  · rintro ⟨hok, -⟩ ⟨n, hn⟩
    cases (hok n).2 ⟨_, (denotes_iff h).2 rfl, hn⟩
  · intro hwhole
    refine ⟨fun n => iff_of_false (fun hok => by cases hok) ?_, fun _ herror => ?_⟩
    · rintro ⟨v, hv, hn⟩
      rw [denotes_iff h] at hv
      exact hwhole ⟨n, hv ▸ hn⟩
    · cases herror
      exact ⟨_, _, rfl⟩

theorem meets_of_no_numeral (h : ∀ d, ¬ Numeral (numeralChars (strip s)) d) : Meets repr limits s := by
  have hnone : ∀ d, decimalOf limits (strip s) ≠ some (.finite d) := by
    intro d hd
    rw [decimalOf] at hd
    split at hd
    · next d' hd' => exact h d' (finiteOf_eq_some_iff.1 hd')
    · split at hd
      · cases hd
      · cases hd
  obtain ⟨code, message, hparse⟩ : ∃ code message, parseTopYuanToFen repr limits (some s) = _ := parse_of_none hnone
  rw [Meets, hparse]
  refine ⟨fun n => iff_of_false (fun hok => by cases hok) ?_, fun _ herror => ?_⟩
  · rintro ⟨v, ⟨d, hd, -⟩, -⟩
    exact h d hd
  · cases herror
    exact ⟨_, _, rfl⟩

/-- **Exactness.** An amount is given exactly and nothing but a `MoneyParseError` raised, exactly if the number that the
text denotes, if it denotes one, is clear in the context of 28 digits, or is too large to be read and has more than two
decimal places. -/
theorem meets_iff :
    Meets repr limits s ↔ ∀ d, Numeral (numeralChars (strip s)) d →
      (limits.Fits d ∧ defaultContext.Clear (hundredfold d)) ∨ (¬ limits.Fits d ∧ ¬ ∃ n : ℤ, d.value * 100 = n) := by
  constructor
  · intro h d hd
    by_cases hfits : limits.Fits d
    · exact .inl ⟨hfits, (meets_of_finite hd hfits).1 h⟩
    · exact .inr ⟨hfits, (meets_of_not_fits hd hfits).1 h⟩
  · intro h
    by_cases hnumeral : ∃ d, Numeral (numeralChars (strip s)) d
    · obtain ⟨d, hd⟩ := hnumeral
      rcases h d hd with ⟨hfits, hclear⟩ | ⟨hfits, hwhole⟩
      · exact (meets_of_finite hd hfits).2 hclear
      · exact (meets_of_not_fits hd hfits).2 hwhole
    · exact meets_of_no_numeral fun d hd => hnumeral ⟨d, hd⟩

/-- The limits on a machine of 64 bits. -/
def limits64 : Limits := ⟨999999999999999999, 999999999999999999, -1999999999999999997⟩

/-- An amount with more digits than the context is rounded, and one with too many before the point raises an error of
the decimal module. -/
theorem parse_rounded :
    (parseTopYuanToFen id limits64 (some "0.0100000000000000000000000000001") = .ok 1 ∧
      ¬ ∃ v, Denotes "0.0100000000000000000000000000001" v ∧ v * 100 = (1 : ℤ)) ∧
    parseTopYuanToFen id limits64 (some "1e27") = .error (.decimal .invalidOperation) := by
  have hfinite : finiteOf (numeralChars (strip "0.0100000000000000000000000000001")) =
      some ⟨false, 100000000000000000000000000001, -31⟩ := by decide
  refine ⟨⟨by decide, ?_⟩, by decide⟩
  rintro ⟨v, hv, hfen⟩
  rw [denotes_iff (finiteOf_eq_some_iff.1 hfinite)] at hv
  rw [hv, Decimal.value] at hfen
  norm_num at hfen

end Amounts

end NexusStudio.Money
