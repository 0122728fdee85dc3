import NexusStudio.Lib.LastWins
import Mathlib.Algebra.Group.Int.Defs

/-!
# Paid GMV

`aggregate_paid_gmv_fen` sums the payments of contributions, of each trade the last one.
-/

namespace NexusStudio.Gmv

/-- `datetime.date`. -/
structure Date where
  year : Nat
  month : Nat
  day : Nat
  deriving DecidableEq, Repr

structure PaidGmvContribution where
  tid : String
  paymentFen : Int
  payDate : Date
  status : String
  deriving DecidableEq, Repr

def aggregatePaidGmvFen (contributions : List PaidGmvContribution) : Int :=
  let byTid := LastWins.table PaidGmvContribution.tid contributions
  LastWins.total PaidGmvContribution.paymentFen byTid

/-- Contributions of one trade have the same payment. -/
abbrev Agree (contributions : List PaidGmvContribution) : Prop :=
  LastWins.Agree PaidGmvContribution.tid PaidGmvContribution.paymentFen contributions

/-- The last contribution of a trade counts; every order has the same total exactly if contributions of one trade have
the same payment, and then they may be repeated. -/
theorem aggregate_last_wins (l : List PaidGmvContribution) :
    (∀ c, aggregatePaidGmvFen (l ++ [c]) = c.paymentFen + aggregatePaidGmvFen (l.filter fun d => d.tid ≠ c.tid)) ∧
    ((∀ l', l'.Perm l → aggregatePaidGmvFen l' = aggregatePaidGmvFen l) ↔ Agree l) ∧
    (Agree l → ∀ l', (∀ c, c ∈ l' ↔ c ∈ l) → aggregatePaidGmvFen l' = aggregatePaidGmvFen l) := by
  refine ⟨fun c => ?_, LastWins.agree_iff_perm.symm, fun h l' hl => LastWins.total_of_agree h hl⟩
  exact LastWins.total_append_singleton PaidGmvContribution.tid PaidGmvContribution.paymentFen l c

/-- Two payments for one trade give another total in the other order. -/
theorem aggregate_conflicting :
    let day : Date := ⟨2026, 7, 1⟩
    let old : PaidGmvContribution := ⟨"1", 100, day, "TRADE_FINISHED"⟩
    let new : PaidGmvContribution := ⟨"1", 200, day, "TRADE_FINISHED"⟩
    [old, new].Perm [new, old] ∧ aggregatePaidGmvFen [old, new] = 200 ∧ aggregatePaidGmvFen [new, old] = 100 := by
  refine ⟨List.Perm.swap _ _ [], by decide, by decide⟩

end NexusStudio.Gmv
