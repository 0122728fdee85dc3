import NexusStudio.Billing.Webhook
import Mathlib.Algebra.BigOperators.Group.List.Basic
import Mathlib.Data.List.Nodup

/-!
# One credit for one order

* (balance) In every state the balance of a user is the sum of the deltas in the ledger.
* (defect) The status that counts is read before the lock, and `mark_paid` of a paid order does nothing and returns.
* (condition) `Safe`: what `mark_paid` finds under the lock is a pending order.
-/

set_option linter.unusedSectionVars false

namespace NexusStudio.Billing

open Concurrent JsonText

section Law

variable {ν τ ι : Type}

/-- The sum of the deltas of a user's ledger entries. -/
def Db.credited (db : Db τ) (userId : Int) : Int := ((db.ledger.filter fun e => e.userId = userId).map (·.delta)).sum

/-- `mark_paid` finds its order pending. -/
def Safe (s : State ν τ ι) : Action ν τ ι → Prop
  | .run i _ =>
    match s.pc i with
    | .claimed _ o => ∀ row ∈ s.db.byId o.id, row.status = .pending
    | _ => True
  | _ => True

instance (s : State ν τ ι) (a : Action ν τ ι) : Decidable (Safe s a) := by
  unfold Safe
  repeat' split
  all_goals infer_instance

end Law

/-! ### The balance -/

section Balance

variable {ν τ ι : Type} [DecidableEq ι] {asInt : ν → Option Int} {upper : String → String}
  {productIdByPack : List (CreditPackKey × String)} {s s' : State ν τ ι} {a : Action ν τ ι} {db db' : Db τ}

/-- The balances are the sums of the ledger, and whoever has a balance locked knows it. -/
structure Balanced (s : State ν τ ι) : Prop where
  owned : Owned s
  sums : ∀ userId, s.db.getBalance userId = s.db.credited userId
  current : ∀ i, (s.pc i).Current s.db

theorem current_of_getBalance {pc : Pc ν τ} (h : pc.Current db)
    (hsame : ∀ k, pc.balanceRow = some k → db'.getBalance k = db.getBalance k) : pc.Current db' := by
  cases pc with
  | locked t b => exact (hsame _ rfl).trans h
  | saved t b => exact (congrArg (· + t.grant.pack.credits) (hsame _ rfl)).trans h
  | credited t b => exact (congrArg (· + t.grant.pack.credits) (hsame _ rfl)).trans h
  | _ => trivial

theorem current_of_not_active {pc : Pc ν τ} (h : ¬ pc.Active) : pc.Current db := by
  cases pc with
  | idle | returned | raised => trivial
  | _ => exact absurd trivial h

theorem getBalance_credit (t : Tx ν τ) (b : CreditBalance) (userId : Int) :
    (db.credit t b).getBalance userId = if userId = t.order.userId then b.balance else db.getBalance userId := by
  have hbalances : (db.credit t b).balances = Function.update db.balances t.order.userId (some b) := rfl
  rw [Db.getBalance, hbalances, Db.getBalance]
  by_cases h : userId = t.order.userId
  · rw [if_pos h, h, Function.update_self]
    rfl
  · rw [if_neg h, Function.update_of_ne h]

theorem credited_credit (t : Tx ν τ) (b : CreditBalance) (userId : Int) :
    (db.credit t b).credited userId =
      if userId = t.order.userId then db.credited userId + t.grant.pack.credits else db.credited userId := by
  unfold Db.credited Db.credit
  rw [List.filter_append, List.map_append, List.sum_append]
  by_cases h : userId = t.order.userId
  · have hentry : [t.entry b.balance].filter (fun e => decide (e.userId = userId)) = [t.entry b.balance] :=
      List.filter_eq_self.2 fun e he => decide_eq_true (by rw [List.mem_singleton.1 he, h]; rfl)
    rw [if_pos h, hentry, List.map_singleton, List.sum_singleton]
    rfl
  · rw [if_neg h, List.filter_cons_of_neg fun he => h (of_decide_eq_true he).symm]
    exact Int.add_zero _

theorem balanced_credit {i : ι} {t : Tx ν τ} {b : CreditBalance} (hB : Balanced s) (hc : Commits s s' i t)
    (hpc : s.pc i = .credited t b) (hdb : s'.db = (s.db.commit t).credit t b) (hO : Owned s') : Balanced s' := by
  have hcurrent : s.db.getBalance t.order.userId + t.grant.pack.credits = b.balance := by
    have h := hB.current i
    rw [hpc] at h
    exact h
  have howner : s.balanceOwner t.order.userId = some i := hB.owned.balance i _ (by rw [hpc]; rfl)
  refine ⟨hO, fun userId => ?_, fun j => ?_⟩
  · rw [hdb, getBalance_credit, credited_credit]
    split
    case isTrue h =>
      subst h
      rw [← hcurrent]
      exact congrArg (· + t.grant.pack.credits) (hB.sums _)
    case isFalse => exact hB.sums userId
  · by_cases hj : j = i
    · subst hj
      exact current_of_not_active hc.ended
    · rw [hc.others j hj, hdb]
      refine current_of_getBalance (hB.current j) fun k hk => ?_
      have hne : k ≠ t.order.userId := by
        rintro rfl
        exact hj (Option.some.inj ((hB.owned.balance j _ hk).symm.trans howner))
      rw [getBalance_credit, if_neg hne]
      rfl

theorem balanced_of_rows (hB : Balanced s) (hO : Owned s') (hbalances : s'.db.balances = s.db.balances)
    (hledger : s'.db.ledger = s.db.ledger) (hpc : ∀ i, (s'.pc i).Current s.db) : Balanced s' := by
  have hget : ∀ k, s'.db.getBalance k = s.db.getBalance k := fun k => by rw [Db.getBalance, hbalances, Db.getBalance]
  refine ⟨hO, fun userId => ?_, fun i => current_of_getBalance (hpc i) fun k _ => hget k⟩
  rw [hget, hB.sums, Db.credited, Db.credited, hledger]

theorem balanced_step (hB : Balanced s) (h : step asInt upper productIdByPack s a = some s') : Balanced s' := by
  obtain ⟨hO, heffect⟩ := effect_of_step hB.owned h
  cases heffect with
  | moves i hm =>
    refine balanced_of_rows hB hO (by rw [hm.db]) (by rw [hm.db]) fun j => ?_
    by_cases hj : j = i
    · subst hj
      exact hm.current (hB.current j)
    · rw [hm.others j hj]
      exact hB.current j
  | commits i t hc =>
    rcases hc.db with hdb | ⟨b, hpc, hdb⟩
    · refine balanced_of_rows hB hO (by rw [hdb]; rfl) (by rw [hdb]; rfl) fun j => ?_
      by_cases hj : j = i
      · subst hj
        exact current_of_not_active hc.ended
      · rw [hc.others j hj]
        exact hB.current j
    · exact balanced_credit hB hc hpc hdb hO
  | orders o ho =>
    refine balanced_of_rows hB hO (by rw [ho.db]) (by rw [ho.db]) fun j => ?_
    rw [ho.pc]
    exact hB.current j

theorem owned_init (h : Initial s) : Owned s := by
  refine ⟨fun i k hk => ?_, fun i k hk => ?_⟩
  all_goals
    rw [h.pc i] at hk
    cases hk

theorem balanced_init (h : Initial s) : Balanced s := by
  refine ⟨owned_init h, fun userId => ?_, fun i => ?_⟩
  · rw [Db.getBalance, h.balances, Db.credited, h.ledger]
    rfl
  · rw [h.pc i]
    trivial

theorem balance_eq_credited {C : State ν τ ι → Action ν τ ι → Prop}
    (h : (webhooks asInt upper productIdByPack).Reach C s) (userId : Int) :
    s.db.getBalance userId = s.db.credited userId :=
  (h.induct (P := Balanced) (fun _ => balanced_init) fun _ _ _ hB _ hstep => balanced_step hB hstep).sums userId

end Balance

/-! ### The orders -/

section Orders

variable {ν τ ι : Type} [DecidableEq ι] {asInt : ν → Option Int} {upper : String → String}
  {productIdByPack : List (CreditPackKey × String)} {s s' : State ν τ ι} {a : Action ν τ ι} {db : Db τ} {i : ι}
  {t : Tx ν τ}

/-- A row of the order is there with the status. -/
def Db.Has (db : Db τ) (orderId : Int) (status : OrderStatus) : Prop :=
  ∃ o, db.byId orderId = some o ∧ o.status = status

/-- An order in the ledger is paid, and one that a delivery has locked is not: the delivery is going to pay it. -/
structure Single (s : State ν τ ι) : Prop where
  owned : Owned s
  once : (s.db.ledger.map (·.orderId)).Nodup
  paid : ∀ e ∈ s.db.ledger, s.db.Has e.orderId .paid
  pending : ∀ i t, (s.pc i).tx = some t → t.paidAt ≠ none ∧ s.db.Has t.order.id .pending

theorem id_of_byId {k : Int} {o : BillingOrder τ} (h : db.byId k = some o) : o.id = k := by
  have hfound := List.find?_some h
  exact of_decide_eq_true hfound

theorem byId_commit {paidAt : τ} (hpaid : t.paidAt = some paidAt) (k : Int) :
    (db.commit t).byId k = (db.byId k).map fun o =>
      if o.id = t.order.id then o.pay t.grant.creemOrderId paidAt else o := by
  have horders : (db.commit t).orders = db.orders.map fun o =>
      if o.id = t.order.id then o.pay t.grant.creemOrderId paidAt else o := by
    simp only [Db.commit, hpaid]
  rw [Db.byId, horders, List.find?_map, Db.byId]
  congr 2
  funext o
  simp only [Function.comp]
  split
  · rfl
  · rfl

theorem has_paid_commit {paidAt : τ} (hpaid : t.paidAt = some paidAt) {k : Int} (h : db.Has k .paid) :
    (db.commit t).Has k .paid := by
  obtain ⟨o, ho, hstatus⟩ := h
  refine ⟨_, by rw [byId_commit hpaid, ho, Option.map_some], ?_⟩
  split
  · rfl
  · exact hstatus

/-- The commit pays the order. -/
theorem has_commit_self {paidAt : τ} (hpaid : t.paidAt = some paidAt) {status : OrderStatus}
    (h : db.Has t.order.id status) : (db.commit t).Has t.order.id .paid := by
  obtain ⟨o, ho, -⟩ := h
  have hid := id_of_byId ho
  refine ⟨_, by rw [byId_commit hpaid, ho, Option.map_some], ?_⟩
  rw [if_pos hid]
  rfl

theorem has_commit_of_ne {paidAt : τ} (hpaid : t.paidAt = some paidAt) {k : Int} (hk : k ≠ t.order.id)
    {status : OrderStatus} (h : db.Has k status) : (db.commit t).Has k status := by
  obtain ⟨o, ho, hstatus⟩ := h
  have hid := id_of_byId ho
  refine ⟨_, by rw [byId_commit hpaid, ho, Option.map_some], ?_⟩
  rw [if_neg (hid ▸ hk)]
  exact hstatus

theorem has_append {k : Int} {status : OrderStatus} (o : BillingOrder τ) (h : db.Has k status) :
    ({ db with orders := db.orders ++ [o] } : Db τ).Has k status := by
  obtain ⟨row, hrow, hstatus⟩ := h
  refine ⟨row, ?_, hstatus⟩
  rw [Db.byId, List.find?_append, ← Db.byId, hrow]
  rfl

theorem not_mem_of_pending (hS : Single s) {k : Int} (h : s.db.Has k .pending) :
    k ∉ s.db.ledger.map (·.orderId) := by
  intro hmem
  obtain ⟨e, he, rfl⟩ := List.mem_map.1 hmem
  obtain ⟨o, ho, hpending⟩ := h
  obtain ⟨o', ho', hpaid⟩ := hS.paid e he
  rw [ho] at ho'
  cases ho'
  rw [hpending] at hpaid
  cases hpaid

theorem single_commits (hS : Single s) (hO : Owned s') (hc : Commits s s' i t) : Single s' := by
  obtain ⟨hne, hpending⟩ := hS.pending i t hc.tx
  obtain ⟨paidAt, hpaid⟩ := Option.ne_none_iff_exists'.1 hne
  have howner : s.orderOwner t.order.id = some i := hS.owned.order i _ (by rw [Pc.orderRow, hc.tx]; rfl)
  have hfresh := not_mem_of_pending hS hpending
  have hothers : ∀ j t', (s'.pc j).tx = some t' →
      t'.paidAt ≠ none ∧ (s.db.commit t).Has t'.order.id .pending := by
    intro j t' ht'
    have hj : j ≠ i := by
      rintro rfl
      rw [(tx_of_not_active hc.ended).1] at ht'
      cases ht'
    rw [hc.others j hj] at ht'
    obtain ⟨hne', hpending'⟩ := hS.pending j t' ht'
    have howner' : s.orderOwner t'.order.id = some j := hS.owned.order j _ (by rw [Pc.orderRow, ht']; rfl)
    refine ⟨hne', has_commit_of_ne hpaid (fun heq => hj ?_) hpending'⟩
    rw [heq, howner] at howner'
    exact (Option.some.inj howner').symm
  rcases hc.db with hdb | ⟨b, -, hdb⟩
  · refine ⟨hO, ?_, ?_, ?_⟩
    · rw [hdb]
      exact hS.once
    · rw [hdb]
      exact fun e he => has_paid_commit hpaid (hS.paid e he)
    · rw [hdb]
      exact hothers
  · have hledger : s'.db.ledger = s.db.ledger ++ [t.entry b.balance] := by rw [hdb]; rfl
    refine ⟨hO, ?_, ?_, ?_⟩
    · rw [hledger, List.map_append, List.nodup_append]
      refine ⟨hS.once, List.nodup_singleton _, fun x hx y hy hxy => hfresh ?_⟩
      have hid : x = t.order.id := hxy.trans (List.mem_singleton.1 hy)
      exact hid ▸ hx
    · rw [hledger, hdb]
      intro e he
      rcases List.mem_append.1 he with he | he
      · exact has_paid_commit hpaid (hS.paid e he)
      · rw [List.mem_singleton.1 he]
        exact has_commit_self hpaid hpending
    · rw [hdb]
      exact hothers

theorem single_step (hS : Single s) (hsafe : Safe s a) (h : step asInt upper productIdByPack s a = some s') :
    Single s' := by
  obtain ⟨hO, heffect⟩ := effect_of_step hS.owned h
  cases heffect with
  | moves i hm =>
    refine ⟨hO, by rw [hm.db]; exact hS.once, by rw [hm.db]; exact hS.paid, ?_⟩
    rw [hm.db]
    intro j t ht
    by_cases hj : j = i
    · subst hj
      rcases hm.tx t ht with htx | ⟨hpc, row, now, rfl, hrow, hpaidAt⟩
      · exact hS.pending j t htx
      · simp only [Safe, hpc] at hsafe
        have hstatus : row.status = .pending := hsafe row hrow
        rw [hstatus] at hpaidAt
        exact ⟨by rw [hpaidAt]; exact nofun, row, hrow, hstatus⟩
    · rw [hm.others j hj] at ht
      exact hS.pending j t ht
  | commits i t hc => exact single_commits hS hO hc
  | orders o ho =>
    refine ⟨hO, by rw [ho.db]; exact hS.once, ?_, ?_⟩
    · rw [ho.db]
      exact fun e he => has_append o (hS.paid e he)
    · rw [ho.db, ho.pc]
      exact fun j t ht => ⟨(hS.pending j t ht).1, has_append o (hS.pending j t ht).2⟩

theorem single_init (h : Initial s) : Single s := by
  refine ⟨owned_init h, ?_, ?_, fun i t ht => ?_⟩
  · rw [h.ledger]
    exact List.nodup_nil
  · rw [h.ledger]
    exact fun _ he => (List.not_mem_nil he).elim
  · rw [h.pc i] at ht
    cases ht

/-- In a run in which `mark_paid` always finds its order pending, no order is credited twice; and in every run the
balances are the sums of the ledger. -/
theorem order_credited_once {t : State ν τ ι} (hs : (webhooks asInt upper productIdByPack).Reach Safe s)
    (ht : (webhooks asInt upper productIdByPack).Reach Free t) :
    (∀ orderId, (s.db.ledger.map (·.orderId)).count orderId ≤ 1) ∧
      ∀ userId, t.db.getBalance userId = t.db.credited userId := by
  have hS : Single s := hs.induct (fun _ => single_init) fun _ _ _ hS hsafe hstep => single_step hS hsafe hstep
  exact ⟨List.nodup_iff_count_le_one.1 hS.once, balance_eq_credited ht⟩

end Orders

/-! ### Two events of one order -/

section Deliveries

def pendingOrder : BillingOrder ℕ where
  id := 1
  userId := 7
  packKey := .usd5
  credits := 50
  priceUsdCents := 500
  status := .pending
  requestId := "billing_7_usd_5"
  creemCheckoutId := some "chk_1"
  creemOrderId := none
  paidAt := none

def checkoutCompleted (eventId : String) : List (String × Value ℤ) := [
  ("eventType", .string "checkout.completed"),
  ("id", .string eventId),
  ("object", .dict [
    ("id", .string "chk_1"),
    ("order", .dict [("amount", .number 500), ("currency", .string "USD"), ("id", .string "ord_1")]),
    ("product", .string "prod_5"),
    ("request_id", .string "billing_7_usd_5")])]

def start : State ℤ ℕ Bool where
  db := ⟨[pendingOrder], fun _ => none, [], []⟩
  pc _ := .idle
  orderOwner _ := none
  balanceOwner _ := none
  eventOwner _ := none

theorem start_initial : Initial start := ⟨rfl, fun _ => rfl, fun _ => rfl⟩

abbrev deliveries : Machine (State ℤ ℕ Bool) (Action ℤ ℕ Bool) := webhooks some id [(.usd5, "prod_5")]

/-- A number of statements of a delivery. -/
def statements (i : Bool) (n : ℕ) : List (Action ℤ ℕ Bool) := List.replicate n (.run i 0)

/-- One event after the other: the second finds the order paid. -/
theorem order_credited_once_in_sequence : ∃ s, deliveries.Reach Safe s ∧ s.db.ledger.length = 1 ∧
    (∀ orderId, (s.db.ledger.map (·.orderId)).count orderId ≤ 1) ∧
      ∀ userId, start.db.getBalance userId = start.db.credited userId := by
  obtain ⟨s, -, hreach, hend⟩ := Machine.reach_of_exec (M := deliveries) (C := Safe) (s := start)
    (p := fun s => s.db.ledger.length = 1)
    ([.deliver true (checkoutCompleted "evt_1")] ++ statements true 10 ++
      [.deliver false (checkoutCompleted "evt_2")] ++ statements false 2) start_initial (by decide)
  exact ⟨s, hreach, of_decide_eq_true hend, order_credited_once hreach (.of_init start_initial)⟩

/-- Both deliveries read the order before one of them has committed. -/
theorem order_credited_twice : ∃ s, deliveries.Reach Free s ∧ s.db.ledger.map (·.orderId) = [1, 1] ∧
    s.db.getBalance 7 = 100 ∧ ¬ ∀ orderId, (s.db.ledger.map (·.orderId)).count orderId ≤ 1 := by
  obtain ⟨s, -, hreach, hend⟩ := Machine.reach_of_exec (M := deliveries) (C := Free) (s := start)
    (p := fun s => s.db.ledger.map (·.orderId) = [1, 1] ∧ s.db.getBalance 7 = 100)
    ([.deliver true (checkoutCompleted "evt_1"), .run true 0, .deliver false (checkoutCompleted "evt_2"),
      .run false 0] ++ statements true 9 ++ statements false 8) start_initial (by decide)
  obtain ⟨hledger, hbalance⟩ := of_decide_eq_true hend
  refine ⟨s, hreach, hledger, hbalance, fun hle => ?_⟩
  have hcount := hle 1
  rw [hledger] at hcount
  exact absurd hcount (by decide)

end Deliveries

end NexusStudio.Billing
