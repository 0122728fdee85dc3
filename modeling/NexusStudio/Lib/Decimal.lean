import Mathlib

/-!
# Decimal arithmetic with a bounded precision

Numbers of a sign, a coefficient and an exponent, with the operations of a context that rounds half to even.

* (rounding) What dropping the last digits of a coefficient gives, and when it gives a multiple of a power of ten
  (`pow_dvd_roundHalfEven`).
* (fix) A number with too many digits is rounded to the precision, and one out of the range of exponents overflows.
* (whole numbers) Fixing a number and rounding the result to a whole number keep its value exactly if it was a whole
  number before (`settle_iff`).
-/

namespace Decimals

structure Decimal where
  negative : Bool
  coeff : ℕ
  exp : ℤ
  deriving DecidableEq, Repr

/-- The precision and the range of exponents of a context. -/
structure Context where
  prec : ℕ
  emin : ℤ
  emax : ℤ
  prec_pos : 0 < prec
  prec_le : (prec : ℤ) ≤ emax
  emin_nonpos : emin ≤ 0

inductive Signal
  | invalidOperation
  | overflow
  deriving DecidableEq, Repr

/-- The number of digits of a coefficient; zero has one. -/
def digitCount (n : ℕ) : ℕ := Nat.log 10 n + 1

/-- A coefficient without its last `j` digits, rounded half to even. -/
def roundHalfEven (n j : ℕ) : ℕ :=
  let q := n / 10 ^ j
  let r := n % 10 ^ j
  if 10 ^ j < 2 * r ∨ (2 * r = 10 ^ j ∧ q % 2 = 1) then q + 1 else q

namespace Decimal

def value (d : Decimal) : ℚ := (if d.negative then -1 else 1) * (d.coeff * 10 ^ d.exp)

/-- The exponent of the first digit. -/
def adjusted (d : Decimal) : ℤ := d.exp + digitCount d.coeff - 1

/-- The coefficient that the number has with another exponent. -/
def rescaled (d : Decimal) (exp : ℤ) : ℕ :=
  if exp ≤ d.exp then d.coeff * 10 ^ (d.exp - exp).toNat else roundHalfEven d.coeff (exp - d.exp).toNat

/-- The coefficient with its sign. -/
def signed (d : Decimal) : ℤ := if d.negative then -d.coeff else d.coeff

/-- `==` of two numbers. -/
def same (a b : Decimal) : Bool :=
  if a.exp ≤ b.exp then a.signed = b.signed * 10 ^ (b.exp - a.exp).toNat
  else a.signed * 10 ^ (a.exp - b.exp).toNat = b.signed

end Decimal

namespace Context

variable (ctx : Context)

def etiny : ℤ := ctx.emin - ctx.prec + 1

def etop : ℤ := ctx.emax - ctx.prec + 1

/-- A rounded coefficient, which may have got one more digit. -/
def carried (negative : Bool) (q : ℕ) (exp : ℤ) : Decimal :=
  if ctx.prec < digitCount q then ⟨negative, q / 10, exp + 1⟩ else ⟨negative, q, exp⟩

/-- `_fix`: the number as the context has it. -/
def fix (d : Decimal) : Except Signal Decimal :=
  if d.coeff = 0 then .ok { d with exp := min (max d.exp ctx.etiny) ctx.emax }
  else
    let expMin := digitCount d.coeff + d.exp - ctx.prec
    if ctx.etop < expMin then .error .overflow
    else
      let expMin := max expMin ctx.etiny
      if d.exp < expMin then
        let q := roundHalfEven d.coeff (expMin - d.exp).toNat
        let rounded := ctx.carried d.negative q expMin
        if ctx.etop < rounded.exp then .error .overflow else .ok rounded
      else .ok d

def multiply (a b : Decimal) : Except Signal Decimal :=
  ctx.fix ⟨a.negative != b.negative, a.coeff * b.coeff, a.exp + b.exp⟩

/-- `quantize` to an exponent. -/
def quantize (d : Decimal) (exp : ℤ) : Except Signal Decimal :=
  if exp < ctx.etiny ∨ ctx.emax < exp then .error .invalidOperation
  else if d.coeff = 0 then ctx.fix ⟨d.negative, 0, exp⟩
  else if ctx.emax < d.adjusted ∨ (ctx.prec : ℤ) < d.adjusted - exp + 1 then .error .invalidOperation
  else
    let rounded : Decimal := ⟨d.negative, d.rescaled exp, exp⟩
    if ctx.emax < rounded.adjusted ∨ ctx.prec < digitCount rounded.coeff then .error .invalidOperation
    else ctx.fix rounded

end Context

/-! ### Rounding -/

section Rounding

variable {n j k q : ℕ}

theorem pow_le_of_digitCount (h : n ≠ 0) : 10 ^ (digitCount n - 1) ≤ n := Nat.pow_log_le_self 10 h

theorem lt_pow_digitCount (n : ℕ) : n < 10 ^ digitCount n := Nat.lt_pow_succ_log_self (by norm_num) n

theorem digitCount_le (hk : 0 < k) (h : n < 10 ^ k) : digitCount n ≤ k := by
  by_cases hn : n = 0
  · rw [hn, digitCount, Nat.log_zero_right]
    exact hk
  · exact Nat.log_lt_of_lt_pow hn h

theorem lt_digitCount (h : 10 ^ k ≤ n) : k < digitCount n :=
  Nat.lt_succ_of_le ((Nat.le_log_iff_pow_le (by norm_num) (Nat.pos_iff_ne_zero.1 (lt_of_lt_of_le (by positivity) h))).2 h)

/-- Rounding gives a nearest number, and an even one of two. -/
theorem roundHalfEven_eq_iff :
    roundHalfEven n j = q ↔ 2 * (q * 10 ^ j) ≤ 2 * n + 10 ^ j ∧ 2 * n ≤ 2 * (q * 10 ^ j) + 10 ^ j ∧
      (2 * (q * 10 ^ j) = 2 * n + 10 ^ j ∨ 2 * n = 2 * (q * 10 ^ j) + 10 ^ j → q % 2 = 0) := by
  have hpos : 0 < 10 ^ j := by positivity
  have hdiv : n / 10 ^ j * 10 ^ j + n % 10 ^ j = n := Nat.div_add_mod' n (10 ^ j)
  have hmod : n % 10 ^ j < 10 ^ j := Nat.mod_lt n hpos
  unfold roundHalfEven
  generalize 10 ^ j = w at *
  generalize n / w = p at *
  generalize n % w = r at *
  dsimp only
  rcases Nat.lt_trichotomy q p with hlt | rfl | hlt
  · have hle : (q + 1) * w ≤ p * w := Nat.mul_le_mul_right w hlt
    rw [Nat.add_mul, Nat.one_mul] at hle
    split <;> omega
  · split <;> omega
  · rcases Nat.eq_or_lt_of_le (Nat.succ_le_of_lt hlt) with heq | hlt'
    · obtain rfl : q = p + 1 := heq.symm
      rw [Nat.add_mul, Nat.one_mul]
      split <;> omega
    · have hle : (p + 2) * w ≤ q * w := Nat.mul_le_mul_right w hlt'
      rw [Nat.add_mul] at hle
      split <;> omega

theorem roundHalfEven_mul (q j : ℕ) : roundHalfEven (q * 10 ^ j) j = q := by
  have hpos : 0 < 10 ^ j := by positivity
  exact roundHalfEven_eq_iff.2 ⟨by omega, by omega, by omega⟩

/-- Rounding is exact exactly for the multiples. -/
theorem roundHalfEven_mul_eq_iff : roundHalfEven n j * 10 ^ j = n ↔ 10 ^ j ∣ n := by
  constructor
  · intro h
    exact Dvd.intro_left _ h
  · rintro ⟨q, rfl⟩
    rw [Nat.mul_comm (10 ^ j) q, roundHalfEven_mul]

theorem roundHalfEven_le (h : n ≤ q * 10 ^ j) : roundHalfEven n j ≤ q := by
  have hpos : 0 < 10 ^ j := by positivity
  obtain ⟨hle, -, -⟩ := roundHalfEven_eq_iff.1 (rfl : roundHalfEven n j = _)
  by_contra hlt
  have hmul : (q + 1) * 10 ^ j ≤ roundHalfEven n j * 10 ^ j := Nat.mul_le_mul_right _ (Nat.not_le.1 hlt)
  rw [Nat.add_mul, Nat.one_mul] at hmul
  omega

theorem le_roundHalfEven (h : q * 10 ^ j ≤ n) : q ≤ roundHalfEven n j := by
  have hpos : 0 < 10 ^ j := by positivity
  obtain ⟨-, hle, -⟩ := roundHalfEven_eq_iff.1 (rfl : roundHalfEven n j = _)
  by_contra hlt
  have hmul : (roundHalfEven n j + 1) * 10 ^ j ≤ q * 10 ^ j := Nat.mul_le_mul_right _ (Nat.not_le.1 hlt)
  rw [Nat.add_mul, Nat.one_mul] at hmul
  omega

/-- What is left after rounding is a multiple of a power of ten exactly if such a multiple is at most half a unit of the
last digit that is kept away. -/
theorem pow_dvd_roundHalfEven {m : ℕ} :
    10 ^ m ∣ roundHalfEven n j ↔
      ∃ q : ℕ, 2 * (q * 10 ^ (j + m)) ≤ 2 * n + 10 ^ j ∧ 2 * n ≤ 2 * (q * 10 ^ (j + m)) + 10 ^ j := by
  have hsplit : ∀ q : ℕ, q * 10 ^ (j + m) = q * 10 ^ m * 10 ^ j := fun q => by rw [pow_add]; ring
  constructor
  · rintro ⟨q, hq⟩
    obtain ⟨hle, hle', -⟩ := roundHalfEven_eq_iff.1 hq
    refine ⟨q, ?_, ?_⟩
    · rwa [hsplit, Nat.mul_comm q]
    · rwa [hsplit, Nat.mul_comm q]
  · rintro ⟨q, hle, hle'⟩
    rw [hsplit] at hle hle'
    cases m with
    | zero => exact one_dvd _
    | succ m =>
      have heven : q * 10 ^ (m + 1) % 2 = 0 := by
        rw [pow_succ, ← Nat.mul_assoc]
        omega
      exact Dvd.intro_left q (roundHalfEven_eq_iff.2 ⟨hle, hle', fun _ => heven⟩).symm

end Rounding

/-! ### Whole numbers -/

namespace Decimal

variable {d : Decimal}

/-- The number is a whole one. -/
def Whole (d : Decimal) : Prop := 10 ^ (-d.exp).toNat ∣ d.coeff

instance (d : Decimal) : Decidable d.Whole := inferInstanceAs (Decidable (_ ∣ _))

theorem rescaled_of_nonneg (h : 0 ≤ d.exp) : d.rescaled 0 = d.coeff * 10 ^ d.exp.toNat := by
  rw [rescaled, if_pos h, Int.sub_zero]

theorem rescaled_of_neg (h : d.exp < 0) : d.rescaled 0 = roundHalfEven d.coeff (-d.exp).toNat := by
  rw [rescaled, if_neg (not_le.2 h), Int.zero_sub]

/-- Rounding to a whole number keeps the number exactly if it is one. -/
theorem same_rescaled : same ⟨d.negative, d.rescaled 0, 0⟩ d = true ↔ d.Whole := by
  rcases lt_or_ge d.exp 0 with hneg | hnonneg
  · rw [same, if_neg (not_le.2 hneg), decide_eq_true_eq, Whole, ← roundHalfEven_mul_eq_iff, rescaled_of_neg hneg,
      Int.zero_sub]
    generalize roundHalfEven d.coeff (-d.exp).toNat = q
    cases hsign : d.negative with
    | false =>
      simp only [signed, hsign, Bool.false_eq_true, if_false]
      exact_mod_cast Iff.rfl
    | true =>
      simp only [signed, hsign, if_true, Int.neg_mul, neg_inj]
      exact_mod_cast Iff.rfl
  · have hzero : (-d.exp).toNat = 0 := by omega
    rw [same, if_pos hnonneg, decide_eq_true_eq, Whole, hzero, pow_zero, rescaled_of_nonneg hnonneg, Int.sub_zero]
    refine iff_of_true ?_ (one_dvd _)
    cases hsign : d.negative with
    | false => simp [signed, hsign]
    | true => simp [signed, hsign]

/-- The whole number that the number is. -/
theorem value_of_whole (h : d.Whole) : d.value = (signed ⟨d.negative, d.rescaled 0, 0⟩ : ℤ) := by
  have hmag : (d.coeff : ℚ) * 10 ^ d.exp = (d.rescaled 0 : ℕ) := by
    rcases lt_or_ge d.exp 0 with hneg | hnonneg
    · have hmul : (d.rescaled 0 * 10 ^ (-d.exp).toNat : ℕ) = d.coeff := by
        rw [rescaled_of_neg hneg]
        exact roundHalfEven_mul_eq_iff.2 h
      have hexp : d.exp = -((-d.exp).toNat : ℤ) := by omega
      rw [← hmul, hexp, zpow_neg, zpow_natCast]
      push_cast
      field_simp
      rw [← hexp]
    · have hexp : d.exp = (d.exp.toNat : ℤ) := by omega
      rw [rescaled_of_nonneg hnonneg, hexp, zpow_natCast]
      push_cast
      rw [← hexp]
  rw [value, hmag, signed]
  split
  · push_cast
    ring
  · push_cast
    ring

/-- The number is whole exactly if its value is an integer. -/
theorem whole_iff : d.Whole ↔ ∃ n : ℤ, d.value = n := by
  refine ⟨fun h => ⟨_, value_of_whole h⟩, ?_⟩
  rintro ⟨n, hn⟩
  rcases lt_or_ge d.exp 0 with hneg | hnonneg
  · have hexp : d.exp = -((-d.exp).toNat : ℤ) := by omega
    have habs : (d.coeff : ℚ) = (n.natAbs : ℕ) * 10 ^ (-d.exp).toNat := by
      have hvalue := congrArg abs hn
      rw [value, abs_mul, abs_mul, hexp, zpow_neg, zpow_natCast] at hvalue
      have hsign : |(if d.negative then -1 else 1 : ℚ)| = 1 := by split <;> simp
      rw [hsign, one_mul, Nat.abs_cast, abs_inv, abs_pow, Nat.abs_ofNat] at hvalue
      rw [Nat.cast_natAbs, Int.cast_abs, ← hvalue]
      field_simp
    have hnat : d.coeff = n.natAbs * 10 ^ (-d.exp).toNat := by exact_mod_cast habs
    exact Dvd.intro_left _ hnat.symm
  · have hzero : (-d.exp).toNat = 0 := by omega
    rw [Whole, hzero, pow_zero]
    exact one_dvd _

end Decimal

/-! ### The operations of a context -/

namespace Context

variable {ctx : Context} {d : Decimal}

theorem etiny_nonpos (ctx : Context) : ctx.etiny ≤ 0 := by
  have hpos := ctx.prec_pos
  have hmin := ctx.emin_nonpos
  rw [etiny]
  omega

theorem etop_pos (ctx : Context) : 0 < ctx.etop := by
  have hle := ctx.prec_le
  rw [etop]
  omega

/-- A number that fits stays as it is. -/
theorem fix_of_fits (hne : d.coeff ≠ 0) (hexp : ctx.etiny ≤ d.exp) (hdigits : digitCount d.coeff ≤ ctx.prec)
    (hsmall : digitCount d.coeff + d.exp ≤ ctx.prec) : ctx.fix d = .ok d := by
  have htop := ctx.etop_pos
  unfold fix
  dsimp only
  rw [if_neg hne, if_neg (by omega), if_neg (by omega)]

theorem fix_zero (h : d.coeff = 0) : ctx.fix d = .ok { d with exp := min (max d.exp ctx.etiny) ctx.emax } := if_pos h

/-- The exponent of the last digit that is kept. -/
def lastExp (ctx : Context) (d : Decimal) : ℤ := max (digitCount d.coeff + d.exp - ctx.prec) ctx.etiny

/-- The rounding carries into one more digit. -/
theorem pow_le_of_carry {q : ℕ} (h : ctx.prec < digitCount q) : 10 ^ ctx.prec ≤ q := by
  by_contra hlt
  exact absurd (digitCount_le ctx.prec_pos (not_le.1 hlt)) (not_le.2 h)

/-- A number of too many digits before the point overflows or keeps too many. -/
theorem fix_large (hne : d.coeff ≠ 0) (hlarge : (ctx.prec : ℤ) < digitCount d.coeff + d.exp) :
    ctx.fix d = .error .overflow ∨
      ∃ s, ctx.fix d = .ok s ∧ s.coeff ≠ 0 ∧ (ctx.prec : ℤ) < digitCount s.coeff + s.exp := by
  have hprec := ctx.prec_pos
  have htiny := ctx.etiny_nonpos
  unfold fix
  dsimp only
  rw [if_neg hne]
  split
  · exact .inl rfl
  · split
    case isFalse => exact .inr ⟨d, rfl, hne, hlarge⟩
    case isTrue hround =>
      have hlast : max (digitCount d.coeff + d.exp - ctx.prec) ctx.etiny = digitCount d.coeff + d.exp - ctx.prec := by
        omega
      rw [hlast] at hround ⊢
      -- the first digits that are kept
      have hkeep : 10 ^ (ctx.prec - 1) ≤ roundHalfEven d.coeff (digitCount d.coeff + d.exp - ctx.prec - d.exp).toNat := by
        refine le_roundHalfEven ?_
        rw [← pow_add]
        refine (Nat.pow_le_pow_right (by norm_num) ?_).trans (pow_le_of_digitCount hne)
        omega
      have hdigits := lt_digitCount hkeep
      generalize roundHalfEven d.coeff (digitCount d.coeff + d.exp - ctx.prec - d.exp).toNat = q at *
      have hpow : 0 < 10 ^ (ctx.prec - 1) := by positivity
      by_cases hcarry : ctx.prec < digitCount q
      · have htenth : 10 ^ (ctx.prec - 1) ≤ q / 10 := by
          have hq : 10 ^ ctx.prec ≤ q := pow_le_of_carry hcarry
          refine (Nat.le_div_iff_mul_le (by norm_num)).2 ?_
          rwa [← pow_succ, Nat.sub_add_cancel ctx.prec_pos]
        have hdigits' := lt_digitCount htenth
        rw [carried, if_pos hcarry]
        split
        · exact .inl rfl
        · refine .inr ⟨_, rfl, Nat.pos_iff_ne_zero.1 (hpow.trans_le htenth), ?_⟩
          simp only
          omega
      · rw [carried, if_neg hcarry]
        split
        · exact .inl rfl
        · refine .inr ⟨_, rfl, Nat.pos_iff_ne_zero.1 (hpow.trans_le hkeep), ?_⟩
          simp only
          omega

/-- A number of not too many digits before the point is rounded to its last place. -/
theorem fix_small (hne : d.coeff ≠ 0) (hsmall : digitCount d.coeff + d.exp ≤ ctx.prec)
    (hround : d.exp < ctx.lastExp d) :
    ∃ s, ctx.fix d = .ok s ∧ digitCount s.coeff ≤ ctx.prec ∧
      (s.exp ≤ 0 ∨ s.coeff ≠ 0 ∧ (ctx.prec : ℤ) < digitCount s.coeff + s.exp) ∧
      (s.Whole ↔ 10 ^ (-ctx.lastExp d).toNat ∣ roundHalfEven d.coeff (ctx.lastExp d - d.exp).toNat) ∧
      s.value = Decimal.value
        ⟨d.negative, roundHalfEven d.coeff (ctx.lastExp d - d.exp).toNat, ctx.lastExp d⟩ := by
  have htop := ctx.etop_pos
  have hlast : ctx.lastExp d ≤ 0 := max_le (by omega) ctx.etiny_nonpos
  have hplace : digitCount d.coeff + d.exp - ctx.prec ≤ ctx.lastExp d := le_max_left _ _
  have hmax : max (digitCount d.coeff + d.exp - ctx.prec) ctx.etiny = ctx.lastExp d := rfl
  have hfix : ctx.fix d =
      let s := ctx.carried d.negative (roundHalfEven d.coeff (ctx.lastExp d - d.exp).toNat) (ctx.lastExp d)
      if ctx.etop < s.exp then .error .overflow else .ok s := by
    unfold fix
    dsimp only
    rw [if_neg hne, if_neg (by omega), hmax, if_pos hround]
  have hle : roundHalfEven d.coeff (ctx.lastExp d - d.exp).toNat ≤ 10 ^ ctx.prec := by
    refine roundHalfEven_le ((lt_pow_digitCount d.coeff).le.trans ?_)
    rw [← pow_add]
    exact Nat.pow_le_pow_right (by norm_num) (by omega)
  generalize ctx.lastExp d = last at *
  generalize roundHalfEven d.coeff (last - d.exp).toNat = q at *
  by_cases hcarry : ctx.prec < digitCount q
  · obtain rfl : q = 10 ^ ctx.prec := le_antisymm hle (pow_le_of_carry hcarry)
    have htenth : 10 ^ ctx.prec / 10 = 10 ^ (ctx.prec - 1) := by
      obtain ⟨p, hp⟩ := Nat.exists_eq_succ_of_ne_zero ctx.prec_pos.ne'
      rw [hp, Nat.succ_sub_one, pow_succ, Nat.mul_div_cancel _ (by norm_num)]
    have hdigits : ctx.prec - 1 < digitCount (10 ^ (ctx.prec - 1)) := lt_digitCount le_rfl
    have hdigits' : digitCount (10 ^ (ctx.prec - 1)) ≤ ctx.prec :=
      digitCount_le ctx.prec_pos (Nat.pow_lt_pow_right (by norm_num) (Nat.sub_lt ctx.prec_pos Nat.one_pos))
    have hpos := ctx.prec_pos
    rw [carried, if_pos hcarry, htenth] at hfix
    simp only at hfix
    rw [if_neg (by omega)] at hfix
    refine ⟨_, hfix, hdigits', ?_, ?_, ?_⟩
    · simp only
      rcases Int.lt_or_le last 0 with hneg | hzero
      · exact .inl (by omega)
      · exact .inr ⟨by positivity, by omega⟩
    · rw [Decimal.Whole]
      simp only
      rw [Nat.pow_dvd_pow_iff_le_right (by norm_num), Nat.pow_dvd_pow_iff_le_right (by norm_num)]
      omega
    · have hpow : (10 : ℚ) ^ ctx.prec = 10 ^ (ctx.prec - 1) * 10 := by
        rw [← pow_succ, Nat.sub_add_cancel ctx.prec_pos]
      simp only [Decimal.value, Nat.cast_pow, Nat.cast_ofNat, hpow, zpow_add_one₀ (by norm_num : (10 : ℚ) ≠ 0)]
      ring
  · rw [carried, if_neg hcarry] at hfix
    simp only at hfix
    rw [if_neg (by omega)] at hfix
    exact ⟨_, hfix, Nat.not_lt.1 hcarry, .inl hlast, Iff.rfl, rfl⟩

/-- A whole number of at most the precision's digits stays as it is. -/
theorem fix_whole {f : ℕ} (negative : Bool) (h : digitCount f ≤ ctx.prec) :
    ctx.fix ⟨negative, f, 0⟩ = .ok ⟨negative, f, 0⟩ := by
  have htiny := ctx.etiny_nonpos
  have hle := ctx.prec_le
  by_cases hf : f = 0
  · rw [hf, fix_zero rfl]
    simp only [max_eq_left htiny, min_eq_left (show (0 : ℤ) ≤ ctx.emax by omega)]
  · exact fix_of_fits hf htiny h (by simp only; omega)

/-- Rounding a number of at most the precision's digits to a whole number. -/
theorem quantize_of_fits (hdigits : digitCount d.coeff ≤ ctx.prec)
    (hsmall : d.coeff ≠ 0 → digitCount d.coeff + d.exp ≤ ctx.prec) :
    ctx.quantize d 0 = .ok ⟨d.negative, d.rescaled 0, 0⟩ := by
  have htiny := ctx.etiny_nonpos
  have hle := ctx.prec_le
  have hpos := ctx.prec_pos
  have hzero : digitCount 0 ≤ ctx.prec := hpos
  unfold quantize
  rw [if_neg (by omega)]
  by_cases hne : d.coeff = 0
  · have hrescaled : d.rescaled 0 = 0 := by
      rw [Decimal.rescaled, hne]
      split
      · exact Nat.zero_mul _
      · exact Nat.le_zero.1 (roundHalfEven_le (Nat.zero_le _))
    rw [if_pos hne, fix_whole d.negative hzero, hrescaled]
  have hsmall := hsmall hne
  have hadjusted : d.adjusted = d.exp + digitCount d.coeff - 1 := rfl
  have hrescaled : digitCount (d.rescaled 0) ≤ ctx.prec := by
    refine digitCount_le ctx.prec_pos ?_
    rcases lt_or_ge d.exp 0 with hneg | hnonneg
    · -- a digit at least is dropped
      rw [Decimal.rescaled_of_neg hneg]
      refine lt_of_le_of_lt (roundHalfEven_le (q := 10 ^ (ctx.prec - 1)) ?_)
        (Nat.pow_lt_pow_right (by norm_num) (Nat.sub_lt ctx.prec_pos Nat.one_pos))
      rw [← pow_add]
      exact (lt_pow_digitCount d.coeff).le.trans (Nat.pow_le_pow_right (by norm_num) (by omega))
    · rw [Decimal.rescaled_of_nonneg hnonneg]
      refine (Nat.mul_lt_mul_of_pos_right (lt_pow_digitCount d.coeff) (by positivity)).trans_le ?_
      rw [← pow_add]
      exact Nat.pow_le_pow_right (by norm_num) (by omega)
  rw [if_neg hne, if_neg (by omega)]
  dsimp only
  rw [if_neg, fix_whole d.negative hrescaled]
  rw [Decimal.adjusted]
  simp only
  omega

/-- A number of too many digits before the point is not rounded to a whole number. -/
theorem quantize_large (hne : d.coeff ≠ 0) (hlarge : (ctx.prec : ℤ) < digitCount d.coeff + d.exp) :
    ctx.quantize d 0 = .error .invalidOperation := by
  have htiny := ctx.etiny_nonpos
  have hle := ctx.prec_le
  have hpos := ctx.prec_pos
  unfold quantize
  rw [if_neg (by omega), if_neg hne, if_pos]
  right
  rw [Decimal.adjusted]
  omega

theorem exp_of_quantize {f : Decimal} (h : ctx.quantize d 0 = .ok f) : f.exp = 0 := by
  have hzero : digitCount 0 ≤ ctx.prec := ctx.prec_pos
  unfold quantize at h
  split at h
  · cases h
  split at h
  · rw [fix_whole d.negative hzero] at h
    cases h
    rfl
  split at h
  · cases h
  dsimp only at h
  split at h
  · cases h
  next hfits =>
  rw [fix_whole d.negative (by omega)] at h
  cases h
  rfl

/-! ### Fixing and rounding to a whole number -/

/-- The number as the context has it, and what that is rounded to. -/
def settle (d : Decimal) : Except Signal (Decimal × Decimal) :=
  match ctx.fix d with
  | .error signal => .error signal
  | .ok scaled =>
    match ctx.quantize scaled 0 with
    | .error signal => .error signal
    | .ok whole => .ok (scaled, whole)

/-- The number has not more digits before the point than the precision, and is a whole number or farther than half a
unit of its last place from every whole number. -/
def Clear (ctx : Context) (d : Decimal) : Prop :=
  |d.value| < 10 ^ ctx.prec ∧
    ((∃ n : ℤ, d.value = n) ∨ ∀ n : ℤ, (10 : ℚ) ^ ctx.lastExp d < 2 * |d.value - n|)

theorem abs_value (d : Decimal) : |d.value| = d.coeff * 10 ^ d.exp := by
  have hsign : |(if d.negative then -1 else 1 : ℚ)| = 1 := by split <;> simp
  have hpos : (0 : ℚ) ≤ d.coeff * 10 ^ d.exp := by positivity
  rw [Decimal.value, abs_mul, hsign, one_mul, abs_of_nonneg hpos]

theorem abs_value_lt_iff (hne : d.coeff ≠ 0) :
    |d.value| < 10 ^ ctx.prec ↔ digitCount d.coeff + d.exp ≤ ctx.prec := by
  have hten : (1 : ℚ) < 10 := by norm_num
  have hpow : (10 : ℚ) ^ ctx.prec = 10 ^ (ctx.prec : ℤ) := (zpow_natCast _ _).symm
  rw [abs_value, hpow]
  constructor
  · intro hlt
    have hle : (10 : ℚ) ^ (digitCount d.coeff - 1) ≤ d.coeff := by exact_mod_cast pow_le_of_digitCount hne
    have hle' : (10 : ℚ) ^ (((digitCount d.coeff - 1 : ℕ) : ℤ) + d.exp) ≤ d.coeff * 10 ^ d.exp := by
      rw [zpow_add₀ (by norm_num), zpow_natCast]
      exact mul_le_mul_of_nonneg_right hle (by positivity)
    have hexp := (zpow_lt_zpow_iff_right₀ hten).1 (hle'.trans_lt hlt)
    have hdigits : 0 < digitCount d.coeff := Nat.succ_pos _
    omega
  · intro hle
    have hlt : (d.coeff : ℚ) < 10 ^ digitCount d.coeff := by exact_mod_cast lt_pow_digitCount d.coeff
    calc (d.coeff : ℚ) * 10 ^ d.exp < 10 ^ digitCount d.coeff * 10 ^ d.exp :=
          mul_lt_mul_of_pos_right hlt (by positivity)
      _ = 10 ^ ((digitCount d.coeff : ℤ) + d.exp) := by rw [zpow_add₀ (by norm_num), zpow_natCast]
      _ ≤ 10 ^ (ctx.prec : ℤ) := zpow_le_zpow_right₀ hten.le hle

/-- A whole number within half a unit of a place, by coefficients. -/
theorem near_iff {last : ℤ} (hexp : d.exp ≤ last) (hlast : last ≤ 0) :
    (∃ n : ℤ, 2 * |d.value - n| ≤ (10 : ℚ) ^ last) ↔
      ∃ q : ℕ, 2 * (q * 10 ^ (-d.exp).toNat) ≤ 2 * d.coeff + 10 ^ (last - d.exp).toNat ∧
        2 * d.coeff ≤ 2 * (q * 10 ^ (-d.exp).toNat) + 10 ^ (last - d.exp).toNat := by
  have hmag : (d.coeff : ℚ) * 10 ^ d.exp = d.coeff / 10 ^ (-d.exp).toNat := by
    have he : d.exp = -((-d.exp).toNat : ℤ) := by omega
    rw [div_eq_mul_inv, ← zpow_natCast, ← zpow_neg, ← he]
  have hunit : (10 : ℚ) ^ last = 10 ^ (last - d.exp).toNat / 10 ^ (-d.exp).toNat := by
    have hl : last = ((last - d.exp).toNat : ℤ) - ((-d.exp).toNat : ℤ) := by omega
    rw [← zpow_natCast, ← zpow_natCast, ← zpow_sub₀ (by norm_num), ← hl]
  have hcast : ∀ q : ℕ, 2 * |(d.coeff : ℚ) / 10 ^ (-d.exp).toNat - q| ≤ (10 : ℚ) ^ last ↔
      2 * (q * 10 ^ (-d.exp).toNat) ≤ 2 * d.coeff + 10 ^ (last - d.exp).toNat ∧
        2 * d.coeff ≤ 2 * (q * 10 ^ (-d.exp).toNat) + 10 ^ (last - d.exp).toNat := by
    intro q
    have hpos : (0 : ℚ) < 10 ^ (-d.exp).toNat := by positivity
    have hsub : (d.coeff : ℚ) / 10 ^ (-d.exp).toNat - q =
        (d.coeff - q * 10 ^ (-d.exp).toNat) / 10 ^ (-d.exp).toNat := by field_simp
    rw [hunit, hsub, abs_div, abs_of_pos hpos, ← mul_div_assoc, div_le_div_iff_of_pos_right hpos, ← abs_two, ← abs_mul,
      abs_le, ← @Nat.cast_le ℚ, ← @Nat.cast_le ℚ]
    push_cast
    constructor
    · rintro ⟨h, h'⟩
      exact ⟨by linarith, by linarith⟩
    · rintro ⟨h, h'⟩
      exact ⟨by linarith, by linarith⟩
  constructor
  · rintro ⟨n, hn⟩
    refine ⟨n.natAbs, (hcast n.natAbs).1 ?_⟩
    have habs := abs_abs_sub_abs_le d.value n
    rw [abs_value, hmag, ← Int.cast_abs, Int.abs_eq_natAbs, Int.cast_natCast] at habs
    linarith
  · rintro ⟨q, hq⟩
    have hle := (hcast q).2 hq
    rw [← hmag] at hle
    cases hsign : d.negative with
    | false =>
      refine ⟨q, ?_⟩
      simpa only [Decimal.value, hsign, Bool.false_eq_true, if_false, one_mul, Int.cast_natCast] using hle
    | true =>
      refine ⟨-q, ?_⟩
      have hneg : Decimal.value d - ((-q : ℤ) : ℚ) = -(d.coeff * 10 ^ d.exp - q) := by
        rw [Decimal.value, hsign, if_pos rfl]
        push_cast
        ring
      rwa [hneg, abs_neg]

/-- A number that is not whole is a unit of its last digit away from every whole number. -/
theorem lt_of_not_whole (h : ¬ d.Whole) (n : ℤ) {last : ℤ} (hlast : last ≤ d.exp) :
    (10 : ℚ) ^ last < 2 * |d.value - n| := by
  have hneg : d.exp < 0 := by
    by_contra hnonneg
    refine h ?_
    have hzero : (-d.exp).toNat = 0 := by omega
    rw [Decimal.Whole, hzero, pow_zero]
    exact one_dvd _
  by_contra hle
  have hnear := (near_iff (d := d) le_rfl hneg.le).1
    ⟨n, (not_lt.1 hle).trans (zpow_le_zpow_right₀ (by norm_num) hlast)⟩
  obtain ⟨q, hq, hq'⟩ := hnear
  rw [Int.sub_self, Int.toNat_zero, pow_zero] at hq hq'
  exact h (Dvd.intro_left q (by omega))

theorem settle_eq_ok {s f : Decimal} (hs : ctx.fix d = .ok s) (hf : ctx.quantize s 0 = .ok f) :
    ctx.settle d = .ok (s, f) := by
  rw [settle, hs]
  simp only [hf]

theorem settle_of_large {s : Decimal} (hs : ctx.fix d = .ok s) (hne : s.coeff ≠ 0)
    (hlarge : (ctx.prec : ℤ) < digitCount s.coeff + s.exp) : ctx.settle d = .error .invalidOperation := by
  rw [settle, hs]
  simp only [quantize_large hne hlarge]

theorem settle_of_fits {s : Decimal} (hs : ctx.fix d = .ok s) (hdigits : digitCount s.coeff ≤ ctx.prec)
    (hsmall : s.coeff ≠ 0 → digitCount s.coeff + s.exp ≤ ctx.prec) :
    ctx.settle d = .ok (s, ⟨s.negative, s.rescaled 0, 0⟩) :=
  settle_eq_ok hs (quantize_of_fits hdigits hsmall)

theorem exp_of_settle {s f : Decimal} (h : ctx.settle d = .ok (s, f)) : f.exp = 0 := by
  unfold settle at h
  split at h
  · cases h
  split at h
  · cases h
  next hquantize =>
  cases h
  exact exp_of_quantize hquantize

/-- What a settled number is to be: the whole number that the number is, and none for another number. -/
def Exact (ctx : Context) (d : Decimal) : Prop :=
  ∃ s f, ctx.settle d = .ok (s, f) ∧ f.exp = 0 ∧ (Decimal.same f s = true ↔ ∃ n : ℤ, d.value = n) ∧
    (Decimal.same f s = true → d.value = f.signed)

/-- A number that the rounding takes to one which fits, and is whole with it, is settled as it is to be. -/
theorem exact_of_fix {s : Decimal} (hs : ctx.fix d = .ok s) (hdigits : digitCount s.coeff ≤ ctx.prec)
    (hsmall : s.coeff ≠ 0 → digitCount s.coeff + s.exp ≤ ctx.prec) (hwhole : s.Whole ↔ d.Whole)
    (hvalue : d.Whole → s.value = d.value) : ctx.Exact d := by
  refine ⟨s, _, settle_of_fits hs hdigits hsmall, rfl, ?_, fun hsame => ?_⟩
  · rw [Decimal.same_rescaled, hwhole, Decimal.whole_iff]
  · have hs := Decimal.same_rescaled.1 hsame
    rw [← hvalue (hwhole.1 hs), Decimal.value_of_whole hs]

theorem exact_zero (hzero : d.coeff = 0) : ctx.Exact d := by
  have hd : d.value = 0 := by rw [Decimal.value, hzero]; simp
  have hvalue : ∀ e : ℤ, Decimal.value ⟨d.negative, 0, e⟩ = 0 := fun e => by simp [Decimal.value]
  have hwhole : d.Whole := by rw [Decimal.Whole, hzero]; exact dvd_zero _
  refine exact_of_fix (fix_zero hzero) ?_ (fun h => absurd hzero h) (iff_of_true ?_ hwhole) fun _ => ?_
  · rw [hzero]
    exact ctx.prec_pos
  · rw [Decimal.Whole, hzero]
    exact dvd_zero _
  · rw [hzero, hvalue, hd]

theorem clear_zero (hzero : d.coeff = 0) : ctx.Clear d := by
  have hd : d.value = 0 := by rw [Decimal.value, hzero]; simp
  refine ⟨?_, .inl ⟨0, by rw [hd, Int.cast_zero]⟩⟩
  rw [hd, abs_zero]
  positivity

theorem not_exact_of_large (hne : d.coeff ≠ 0) (hlarge : (ctx.prec : ℤ) < digitCount d.coeff + d.exp) :
    ¬ ctx.Exact d := by
  rintro ⟨s, f, hsettle, -⟩
  rcases fix_large hne hlarge with herror | ⟨s', hs', hne', hlarge'⟩
  · rw [settle, herror] at hsettle
    cases hsettle
  · rw [settle_of_large hs' hne' hlarge'] at hsettle
    cases hsettle

/-- A number that is not rounded is settled as it is. -/
theorem exact_of_unrounded (hne : d.coeff ≠ 0) (hsmall : digitCount d.coeff + d.exp ≤ ctx.prec)
    (hexp : ctx.lastExp d ≤ d.exp) : ctx.Exact d := by
  have hplace : digitCount d.coeff + d.exp - ctx.prec ≤ ctx.lastExp d := le_max_left _ _
  have htiny : ctx.etiny ≤ ctx.lastExp d := le_max_right _ _
  have hdigits : digitCount d.coeff ≤ ctx.prec := by omega
  exact exact_of_fix (fix_of_fits hne (htiny.trans hexp) hdigits hsmall) hdigits (fun _ => hsmall) Iff.rfl fun _ => rfl

theorem clear_of_unrounded (hlt : |d.value| < 10 ^ ctx.prec) (hexp : ctx.lastExp d ≤ d.exp) : ctx.Clear d := by
  refine ⟨hlt, ?_⟩
  by_cases hwhole : d.Whole
  · exact .inl (Decimal.whole_iff.1 hwhole)
  · exact .inr fun n => lt_of_not_whole hwhole n hexp

/-- The rounding keeps a whole number. -/
theorem value_rounded (hd : d.Whole) (hround : d.exp < ctx.lastExp d) (hlast : ctx.lastExp d ≤ 0) :
    Decimal.value ⟨d.negative, roundHalfEven d.coeff (ctx.lastExp d - d.exp).toNat, ctx.lastExp d⟩ = d.value := by
  have hdvd : 10 ^ (ctx.lastExp d - d.exp).toNat ∣ d.coeff := (Nat.pow_dvd_pow 10 (by omega)).trans hd
  have hcoeff : ((roundHalfEven d.coeff (ctx.lastExp d - d.exp).toNat : ℕ) : ℚ) *
      10 ^ (ctx.lastExp d - d.exp).toNat = d.coeff := by
    exact_mod_cast roundHalfEven_mul_eq_iff.2 hdvd
  have hsplit : (10 : ℚ) ^ ctx.lastExp d = 10 ^ (ctx.lastExp d - d.exp).toNat * 10 ^ d.exp := by
    rw [← zpow_natCast, ← zpow_add₀ (by norm_num)]
    congr 1
    omega
  rw [Decimal.value, Decimal.value]
  simp only
  rw [hsplit, ← mul_assoc ((roundHalfEven _ _ : ℕ) : ℚ), hcoeff]

/-- The rounding changes nothing about a number exactly if it is clear. -/
theorem exact_iff : ctx.Exact d ↔ ctx.Clear d := by
  by_cases hne : d.coeff = 0
  · exact iff_of_true (exact_zero hne) (clear_zero hne)
  by_cases hsmall : digitCount d.coeff + d.exp ≤ ctx.prec
  case neg =>
    exact iff_of_false (not_exact_of_large hne (not_le.1 hsmall)) fun h => hsmall ((abs_value_lt_iff hne).1 h.1)
  have hlt := (abs_value_lt_iff hne).2 hsmall
  by_cases hround : d.exp < ctx.lastExp d
  case neg =>
    have hexp : ctx.lastExp d ≤ d.exp := not_lt.1 hround
    exact iff_of_true (exact_of_unrounded hne hsmall hexp) (clear_of_unrounded hlt hexp)
  have hlast : ctx.lastExp d ≤ 0 := max_le (by omega) ctx.etiny_nonpos
  obtain ⟨s, hs, hdigits, hexp, hwhole, hvalue⟩ := fix_small hne hsmall hround
  by_cases hd : d.Whole
  · have hsd : s.value = d.value := hvalue.trans (value_rounded hd hround hlast)
    have hsw : s.Whole := Decimal.whole_iff.2 (hsd ▸ Decimal.whole_iff.1 hd)
    refine iff_of_true (exact_of_fix hs hdigits (fun hs0 => ?_) (iff_of_true hsw hd) fun _ => hsd)
      ⟨hlt, .inl (Decimal.whole_iff.1 hd)⟩
    exact (abs_value_lt_iff hs0).1 (hsd ▸ hlt)
  · have hclear : ctx.Clear d ↔ ¬ s.Whole := by
      rw [hwhole, pow_dvd_roundHalfEven]
      have hexps : (ctx.lastExp d - d.exp).toNat + (-ctx.lastExp d).toNat = (-d.exp).toNat := by omega
      rw [hexps, ← near_iff hround.le hlast, Clear, ← Decimal.whole_iff]
      simp only [hlt, hd, false_or, true_and, not_exists, not_le]
    rw [hclear]
    constructor
    · rintro ⟨t, f, hsettle, -, hsame, -⟩ hsw
      rcases hexp with hexp | hexp
      · rw [settle_of_fits hs hdigits fun _ => by omega] at hsettle
        cases hsettle
        exact hd (Decimal.whole_iff.2 (hsame.1 (Decimal.same_rescaled.2 hsw)))
      · rw [settle_of_large hs hexp.1 hexp.2] at hsettle
        cases hsettle
    · intro hsw
      -- a number too large after the rounding is whole
      have hlarge : s.coeff ≠ 0 ∧ (ctx.prec : ℤ) < digitCount s.coeff + s.exp → s.Whole := by
        rintro ⟨-, h⟩
        have hzero : (-s.exp).toNat = 0 := by omega
        rw [Decimal.Whole, hzero, pow_zero]
        exact one_dvd _
      have hexp : s.exp ≤ 0 := hexp.resolve_right fun h => hsw (hlarge h)
      exact exact_of_fix hs hdigits (fun _ => by omega) (iff_of_false hsw hd) fun h => absurd h hd

end Context

end Decimals
