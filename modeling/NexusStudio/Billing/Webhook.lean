import NexusStudio.Billing.Grant
import NexusStudio.Lib.Exclusion

/-!
# Payment webhooks

Deliveries of checkout events, each one a transaction that reads the order, registers its event, marks the order paid
and credits the balance.

* (transactions) Reads see what is committed; the rows of an order and of a balance are locked from
  `select_for_update` to the end, and an inserted event keeps the same event of another transaction waiting.
* (statements) `statement` is the next one of a delivery; any number of deliveries take theirs in any order.
* (effect) A step commits nothing, or it commits the transaction of a delivery that has locked its order, or a checkout
  adds an order.
-/

namespace NexusStudio.Billing

open Concurrent JsonText

/-! ### Tables -/

inductive OrderStatus
  | pending
  | paid
  deriving DecidableEq, Repr

structure BillingOrder (τ : Type) where
  id : Int
  userId : Int
  packKey : CreditPackKey
  credits : Int
  priceUsdCents : Int
  status : OrderStatus
  requestId : String
  creemCheckoutId : Option String
  creemOrderId : Option String
  paidAt : Option τ

structure CreditBalance where
  balance : Int
  version : Int

structure LedgerEntry where
  userId : Int
  orderId : Int
  eventId : String
  delta : Int
  balanceAfter : Int
  deriving DecidableEq, Repr

/-- What is committed. -/
structure Db (τ : Type) where
  orders : List (BillingOrder τ)
  balances : Int → Option CreditBalance
  ledger : List LedgerEntry
  events : List String

section Tables

variable {τ : Type}

def Db.byId (db : Db τ) (id : Int) : Option (BillingOrder τ) := db.orders.find? fun o => o.id = id

/-- `get_by_request_id`. -/
def Db.getByRequestId (db : Db τ) (requestId : String) : Option (BillingOrder τ) :=
  db.orders.find? fun o => o.requestId = requestId

/-- `get_by_creem_checkout_id`. -/
def Db.getByCreemCheckoutId (db : Db τ) (checkoutId : String) : Option (BillingOrder τ) :=
  db.orders.find? fun o => o.creemCheckoutId = some checkoutId

/-- `get_balance`. -/
def Db.getBalance (db : Db τ) (userId : Int) : Int := ((db.balances userId).map (·.balance)).getD 0

/-- The ledger entry of an event. -/
def Db.entryOf (db : Db τ) (eventId : String) : Option LedgerEntry := db.ledger.find? fun e => e.eventId = eventId

end Tables

/-! ### Results -/

inductive WebhookStatus
  | applied
  | duplicate
  | ignored
  deriving DecidableEq, Repr

structure WebhookApplyResult where
  status : WebhookStatus
  eventId : Option String
  creditsGranted : Int
  balanceAfter : Option Int
  deriving DecidableEq, Repr

/-- The details of an error. -/
abbrev Details := List (String × Value Int)

def invalidParams (message : String) (details : Details) : Failure Details := .app .invalidParams message (some details)

section Checks

variable {ν τ : Type} (upper : String → String)

/-- The checks of a grant against its order, with the first that fails. -/
def checkGrant (g : CheckoutCompletedGrant ν) (o : BillingOrder τ) : Except (Failure Details) Unit :=
  if o.credits ≠ g.pack.credits ∨ o.packKey ≠ g.pack.key then
    .error (invalidParams "order credits do not match creem product pack"
      [("order_id", .number o.id), ("pack", .string g.pack.key.text)])
  else match g.amount with
    | none => .error (invalidParams "creem order amount is required" [("order_id", .number o.id)])
    | some amount =>
      if amount ≠ o.priceUsdCents then
        .error (invalidParams "creem order amount does not match billing order"
          [("order_id", .number o.id), ("expected_usd_cents", .number o.priceUsdCents),
            ("actual_amount", .number amount)])
      else if g.currency.map (upper ∘ strip) ≠ some "USD" then
        .error (invalidParams "creem order currency must be USD"
          [("order_id", .number o.id), ("currency", (g.currency.map .string).getD .null)])
      else .ok ()

end Checks

/-! ### Transactions -/

/-- What a transaction has written to the orders and events: the payment of its order unless it was paid. -/
structure Tx (ν τ : Type) where
  grant : CheckoutCompletedGrant ν
  order : BillingOrder τ
  paidAt : Option τ

/-- Where a delivery is. -/
inductive Pc (ν τ : Type)
  | idle
  | returned (r : WebhookApplyResult)
  | raised (e : Failure Details)
  | resolving (g : CheckoutCompletedGrant ν)
  | resolvingCheckout (g : CheckoutCompletedGrant ν)
  | duplicate (g : CheckoutCompletedGrant ν) (o : BillingOrder τ)
  | beginning (g : CheckoutCompletedGrant ν) (o : BillingOrder τ)
  | claiming (g : CheckoutCompletedGrant ν) (o : BillingOrder τ)
  -- with its event inserted
  | claimed (g : CheckoutCompletedGrant ν) (o : BillingOrder τ)
  -- with the row of its order locked
  | paid (t : Tx ν τ)
  | crediting (t : Tx ν τ)
  | creating (t : Tx ν τ)
  -- with the row of the balance locked, too
  | locked (t : Tx ν τ) (b : CreditBalance)
  | saved (t : Tx ν τ) (b : CreditBalance)
  | credited (t : Tx ν τ) (b : CreditBalance)
  -- the ledger had an entry of the event
  | replayed (t : Tx ν τ) (balanceAfter : Int)

structure State (ν τ ι : Type) where
  db : Db τ
  pc : ι → Pc ν τ
  -- who holds the row of an order, of a user's balance, or an event that is not committed
  orderOwner : Int → Option ι
  balanceOwner : Int → Option ι
  eventOwner : String → Option ι

inductive Action (ν τ ι : Type)
  | deliver (i : ι) (payload : List (String × Value ν))
  -- the next statement of a delivery, at a time
  | run (i : ι) (now : τ)
  -- the transaction is rolled back by an error of the database, or is lost with its connection
  | fail (i : ι)
  -- a checkout commits its order
  | checkout (o : BillingOrder τ)

section Model

variable {ν τ ι : Type}

def Pc.tx : Pc ν τ → Option (Tx ν τ)
  | .paid t | .crediting t | .creating t | .locked t _ | .saved t _ | .credited t _ | .replayed t _ => some t
  | _ => none

/-- The order whose row is locked. -/
def Pc.orderRow (pc : Pc ν τ) : Option Int := pc.tx.map (·.order.id)

/-- The user whose balance is locked. -/
def Pc.balanceRow : Pc ν τ → Option Int
  | .locked t _ | .saved t _ | .credited t _ => some t.order.userId
  | _ => none

variable [DecidableEq ι] (asInt : ν → Option Int) (upper : String → String)
  (productIdByPack : List (CreditPackKey × String))

def State.goto (s : State ν τ ι) (i : ι) (pc : Pc ν τ) : State ν τ ι := { s with pc := Function.update s.pc i pc }

/-- What follows `_resolve_order`, up to the next statement. -/
def resolved (g : CheckoutCompletedGrant ν) (o : BillingOrder τ) : Pc ν τ :=
  match checkGrant upper g o with
  | .error e => .raised e
  | .ok _ => if o.status = .paid then .duplicate g o else .beginning g o

/-- `_apply_payload` up to its first statement. -/
def received (payload : List (String × Value ν)) : Pc ν τ :=
  match parseCheckoutCompletedGrant asInt productIdByPack payload with
  | .error e => .raised (invalidParams e.message [("code", .string e.code)])
  | .ok none => .returned ⟨.ignored, stringOf (payload.lookup "id"), 0, none⟩
  | .ok (some g) => .resolving g

/-- The row of an order when it is paid. -/
def BillingOrder.pay (o : BillingOrder τ) (creemOrderId : Option String) (paidAt : τ) : BillingOrder τ :=
  { o with status := .paid, creemOrderId, paidAt := some paidAt }

/-- The commit of the event and of the payment. -/
def Db.commit (db : Db τ) (t : Tx ν τ) : Db τ :=
  { db with
    events := db.events ++ [t.grant.eventId]
    orders := match t.paidAt with
      | none => db.orders
      | some paidAt => db.orders.map fun o =>
        if o.id = t.order.id then o.pay t.grant.creemOrderId paidAt else o }

def Tx.entry (t : Tx ν τ) (balanceAfter : Int) : LedgerEntry :=
  ⟨t.order.userId, t.order.id, t.grant.eventId, t.grant.pack.credits, balanceAfter⟩

/-- The commit of the balance and of the ledger entry. -/
def Db.credit (db : Db τ) (t : Tx ν τ) (b : CreditBalance) : Db τ :=
  { db with
    balances := Function.update db.balances t.order.userId (some b)
    ledger := db.ledger ++ [t.entry b.balance] }

def Tx.applied (t : Tx ν τ) (balanceAfter : Int) : WebhookApplyResult :=
  ⟨.applied, some t.grant.eventId, t.grant.pack.credits, some balanceAfter⟩

/-- A transaction ends, by a commit or a rollback. -/
def State.finish (s : State ν τ ι) (i : ι) (pc : Pc ν τ) : State ν τ ι :=
  { s.goto i pc with
    orderOwner := releaseAll s.orderOwner i
    balanceOwner := releaseAll s.balanceOwner i
    eventOwner := releaseAll s.eventOwner i }

/-- The next statement of a delivery; `none` while it waits for what another transaction holds. -/
def statement (s : State ν τ ι) (i : ι) (now : τ) : Option (State ν τ ι) :=
  match s.pc i with
  | .idle | .returned _ | .raised _ => none
  | .resolving g =>
    match g.requestId.bind s.db.getByRequestId with
    | some o => some (s.goto i (resolved upper g o))
    | none => some (s.goto i (.resolvingCheckout g))
  | .resolvingCheckout g =>
    match s.db.getByCreemCheckoutId g.creemCheckoutId with
    | some o => some (s.goto i (resolved upper g o))
    | none => some (s.goto i (.raised (.app .resourceNotFound "billing order not found for creem checkout"
        (some [("checkout_id", .string g.creemCheckoutId), ("request_id", (g.requestId.map .string).getD .null)]))))
  | .duplicate g o =>
    some (s.finish i (.returned ⟨.duplicate, some g.eventId, 0, some (s.db.getBalance o.userId)⟩))
  -- `try_begin`
  | .beginning g o => some (s.goto i (if g.eventId ∈ s.db.events then .duplicate g o else .claiming g o))
  | .claiming g o =>
    (acquire s.eventOwner i g.eventId).map fun eventOwner =>
      if g.eventId ∈ s.db.events then s.goto i (.duplicate g o) else { s.goto i (.claimed g o) with eventOwner }
  -- `mark_paid`
  | .claimed g o =>
    match s.db.byId o.id with
    | none => some (s.finish i (.raised (.other "DoesNotExist")))
    | some row => (acquire s.orderOwner i o.id).map fun orderOwner =>
      { s.goto i (.paid ⟨g, o, if row.status = .paid then none else some now⟩) with orderOwner }
  -- `credit`
  | .paid t =>
    if t.grant.pack.credits ≤ 0 then some (s.finish i (.raised (.value "credit delta must be positive")))
    else match s.db.entryOf t.grant.eventId with
      | some e => some (s.goto i (.replayed t e.balanceAfter))
      | none => some (s.goto i (.crediting t))
  | .crediting t =>
    match s.db.balances t.order.userId with
    | none => some (s.goto i (.creating t))
    | some b => (acquire s.balanceOwner i t.order.userId).map fun balanceOwner =>
      { s.goto i (.locked t b) with balanceOwner }
  | .creating t =>
    (acquire s.balanceOwner i t.order.userId).map fun balanceOwner =>
      match s.db.balances t.order.userId with
      | some _ => s.finish i (.raised (.other "IntegrityError"))
      | none => { s.goto i (.locked t ⟨0, 0⟩) with balanceOwner }
  | .locked t b => some (s.goto i (.saved t ⟨b.balance + t.grant.pack.credits, b.version + 1⟩))
  | .saved t b =>
    match s.db.entryOf t.grant.eventId with
    | some _ => some (s.finish i (.raised (.other "IntegrityError")))
    | none => some (s.goto i (.credited t b))
  -- the commits
  | .credited t b => some { s.finish i (.returned (t.applied b.balance)) with db := (s.db.commit t).credit t b }
  | .replayed t balanceAfter => some { s.finish i (.returned (t.applied balanceAfter)) with db := s.db.commit t }

/-- The delivery is under way. -/
def Pc.Active : Pc ν τ → Prop
  | .idle | .returned _ | .raised _ => False
  | _ => True

instance (pc : Pc ν τ) : Decidable pc.Active := by
  unfold Pc.Active
  split
  all_goals infer_instance

def step (s : State ν τ ι) : Action ν τ ι → Option (State ν τ ι)
  | .deliver i payload => if (s.pc i).Active then none else some (s.goto i (received asInt productIdByPack payload))
  | .run i now => statement upper s i now
  | .fail i => if (s.pc i).Active then some (s.finish i (.raised (.other "OperationalError"))) else none
  | .checkout o =>
    if o.status = .pending ∧ ∀ row ∈ s.db.orders, row.id ≠ o.id ∧ row.requestId ≠ o.requestId then
      some { s with db.orders := s.db.orders ++ [o] }
    else none

/-- Any orders and events, before the first credit. -/
structure Initial (s : State ν τ ι) : Prop where
  ledger : s.db.ledger = []
  balances : ∀ userId, s.db.balances userId = none
  pc : ∀ i, s.pc i = .idle

def webhooks : Machine (State ν τ ι) (Action ν τ ι) where
  init := Initial
  step := step asInt upper productIdByPack

end Model

/-! ### What a step does -/

section Steps

variable {ν τ ι : Type} [DecidableEq ι] {asInt : ν → Option Int} {upper : String → String}
  {productIdByPack : List (CreditPackKey × String)} {s s' : State ν τ ι} {a : Action ν τ ι} {i : ι}

/-- Whoever is past a lock owns its row. -/
structure Owned (s : State ν τ ι) : Prop where
  order : ∀ i k, (s.pc i).orderRow = some k → s.orderOwner k = some i
  balance : ∀ i k, (s.pc i).balanceRow = some k → s.balanceOwner k = some i

/-- What is known of the committed balance under its lock. -/
def Pc.Current (db : Db τ) : Pc ν τ → Prop
  | .locked t b => db.getBalance t.order.userId = b.balance
  | .saved t b | .credited t b => db.getBalance t.order.userId + t.grant.pack.credits = b.balance
  | _ => True

/-- The delivery locks the row of its order, and pays it where it is not paid. -/
def Pays (s : State ν τ ι) (a : Action ν τ ι) (i : ι) (t : Tx ν τ) : Prop :=
  s.pc i = .claimed t.grant t.order ∧ ∃ row now, a = .run i now ∧ s.db.byId t.order.id = some row ∧
    t.paidAt = if row.status = .paid then none else some now

/-- A step that commits nothing. -/
structure Moves (s : State ν τ ι) (a : Action ν τ ι) (s' : State ν τ ι) (i : ι) : Prop where
  db : s'.db = s.db
  others : ∀ j, j ≠ i → s'.pc j = s.pc j
  tx : ∀ t, (s'.pc i).tx = some t → (s.pc i).tx = some t ∨ Pays s a i t
  current : (s.pc i).Current s.db → (s'.pc i).Current s.db

/-- The commit of a delivery that has locked its order. -/
structure Commits (s s' : State ν τ ι) (i : ι) (t : Tx ν τ) : Prop where
  tx : (s.pc i).tx = some t
  others : ∀ j, j ≠ i → s'.pc j = s.pc j
  ended : ¬ (s'.pc i).Active
  db : s'.db = s.db.commit t ∨ ∃ b, s.pc i = .credited t b ∧ s'.db = (s.db.commit t).credit t b

/-- A checkout commits its order. -/
structure Orders (s s' : State ν τ ι) (o : BillingOrder τ) : Prop where
  fresh : s.db.byId o.id = none
  pc : s'.pc = s.pc
  db : s'.db = { s.db with orders := s.db.orders ++ [o] }

inductive Effect (s : State ν τ ι) (a : Action ν τ ι) (s' : State ν τ ι) : Prop
  | moves (i : ι) (h : Moves s a s' i)
  | commits (i : ι) (t : Tx ν τ) (h : Commits s s' i t)
  | orders (o : BillingOrder τ) (h : Orders s s' o)

theorem goto_of_ne (s : State ν τ ι) {pc : Pc ν τ} {j : ι} (hj : j ≠ i) : (s.goto i pc).pc j = s.pc j :=
  Function.update_of_ne hj _ _

theorem goto_self (s : State ν τ ι) (pc : Pc ν τ) : (s.goto i pc).pc i = pc := Function.update_self _ _ _

theorem tx_of_not_active {pc : Pc ν τ} (h : ¬ pc.Active) : pc.tx = none ∧ pc.balanceRow = none := by
  cases pc with
  | idle | returned | raised => exact ⟨rfl, rfl⟩
  | _ => exact absurd trivial h

theorem resolved_tx (upper : String → String) (g : CheckoutCompletedGrant ν) (o : BillingOrder τ) :
    (resolved upper g o).tx = none ∧ (resolved upper g o).balanceRow = none ∧
      ∀ db, (resolved upper g o).Current db := by
  unfold resolved
  split
  · exact ⟨rfl, rfl, fun _ => trivial⟩
  · split
    · exact ⟨rfl, rfl, fun _ => trivial⟩
    · exact ⟨rfl, rfl, fun _ => trivial⟩

theorem received_tx (asInt : ν → Option Int) (productIdByPack : List (CreditPackKey × String))
    (payload : List (String × Value ν)) :
    (received (τ := τ) asInt productIdByPack payload).tx = none ∧
      (received (τ := τ) asInt productIdByPack payload).balanceRow = none ∧
      ∀ db, (received (τ := τ) asInt productIdByPack payload).Current db := by
  unfold received
  split
  all_goals exact ⟨rfl, rfl, fun _ => trivial⟩

/-- Rows stay owned when a delivery goes on: the others keep theirs, and it owns what it is past the lock of. -/
theorem owned_update (hO : Owned s) {pc : Pc ν τ} (hpc : s'.pc = Function.update s.pc i pc)
    (horder : ∀ j k, j ≠ i → s.orderOwner k = some j → s'.orderOwner k = some j)
    (hbalance : ∀ j k, j ≠ i → s.balanceOwner k = some j → s'.balanceOwner k = some j)
    (hrow : ∀ k, pc.orderRow = some k → s'.orderOwner k = some i)
    (huser : ∀ k, pc.balanceRow = some k → s'.balanceOwner k = some i) : Owned s' := by
  refine ⟨?_, ?_⟩
  · rw [hpc]
    exact (Function.forall_update_iff s.pc fun j pc => ∀ k, pc.orderRow = some k → s'.orderOwner k = some j).2
      ⟨hrow, fun j hj k hk => horder j k hj (hO.order j k hk)⟩
  · rw [hpc]
    exact (Function.forall_update_iff s.pc fun j pc => ∀ k, pc.balanceRow = some k → s'.balanceOwner k = some j).2
      ⟨huser, fun j hj k hk => hbalance j k hj (hO.balance j k hk)⟩

theorem owned_goto (hO : Owned s) {pc : Pc ν τ} (hrow : ∀ k, pc.orderRow = some k → (s.pc i).orderRow = some k)
    (huser : ∀ k, pc.balanceRow = some k → (s.pc i).balanceRow = some k) : Owned (s.goto i pc) :=
  owned_update hO rfl (fun _ _ _ h => h) (fun _ _ _ h => h) (fun k hk => hO.order i k (hrow k hk))
    fun k hk => hO.balance i k (huser k hk)

theorem owned_finish (hO : Owned s) {pc : Pc ν τ} (hpc : ¬ pc.Active) : Owned (s.finish i pc) := by
  obtain ⟨htx, huser⟩ := tx_of_not_active hpc
  refine owned_update hO rfl (fun _ _ hj h => releaseAll_of_owner h hj) (fun _ _ hj h => releaseAll_of_owner h hj) ?_ ?_
  · intro k hk
    rw [Pc.orderRow, htx] at hk
    cases hk
  · intro k hk
    rw [huser] at hk
    cases hk

theorem moves_update {pc : Pc ν τ} (hdb : s'.db = s.db) (hpc : s'.pc = Function.update s.pc i pc)
    (htx : ∀ t, pc.tx = some t → (s.pc i).tx = some t ∨ Pays s a i t)
    (hcurrent : (s.pc i).Current s.db → pc.Current s.db) : Moves s a s' i := by
  have hself : s'.pc i = pc := by rw [hpc, Function.update_self]
  refine ⟨hdb, fun j hj => ?_, ?_, ?_⟩
  · rw [hpc, Function.update_of_ne hj]
  · rw [hself]
    exact htx
  · rw [hself]
    exact hcurrent

/-- A step to a place without locks, or a rollback. -/
theorem moves_bare {pc : Pc ν τ} (hdb : s'.db = s.db) (hpc : s'.pc = Function.update s.pc i pc) (htx : pc.tx = none)
    (hcurrent : pc.Current s.db) : Moves s a s' i :=
  moves_update hdb hpc (fun t ht => by rw [htx] at ht; cases ht) fun _ => hcurrent

theorem owned_bare (hO : Owned s) {pc : Pc ν τ} (hpc : s'.pc = Function.update s.pc i pc) (htx : pc.tx = none)
    (huser : pc.balanceRow = none) (horder : s'.orderOwner = s.orderOwner)
    (hbalance : s'.balanceOwner = s.balanceOwner) : Owned s' := by
  refine owned_update hO hpc (fun _ _ _ h => horder ▸ h) (fun _ _ _ h => hbalance ▸ h) ?_ ?_
  · intro k hk
    rw [Pc.orderRow, htx] at hk
    cases hk
  · intro k hk
    rw [huser] at hk
    cases hk

/-- A step with the same rows locked. -/
theorem effect_keep (hO : Owned s) {pc : Pc ν τ} (htx : pc.tx = (s.pc i).tx)
    (huser : ∀ k, pc.balanceRow = some k → (s.pc i).balanceRow = some k)
    (hcurrent : (s.pc i).Current s.db → pc.Current s.db) : Owned (s.goto i pc) ∧ Effect s a (s.goto i pc) := by
  have hrow : pc.orderRow = (s.pc i).orderRow := by rw [Pc.orderRow, Pc.orderRow, htx]
  exact ⟨owned_goto hO (fun k hk => hrow ▸ hk) huser,
    .moves i (moves_update rfl rfl (fun t ht => .inl (htx ▸ ht)) hcurrent)⟩

/-- The lock of the balance. -/
theorem effect_lock (hO : Owned s) {t : Tx ν τ} {b : CreditBalance} {balanceOwner : Int → Option ι}
    (htx : (s.pc i).tx = some t) (howner : acquire s.balanceOwner i t.order.userId = some balanceOwner)
    (hb : s.db.getBalance t.order.userId = b.balance) :
    Owned { s.goto i (.locked t b) with balanceOwner } ∧ Effect s a { s.goto i (.locked t b) with balanceOwner } := by
  have hrow : (Pc.locked t b).orderRow = (s.pc i).orderRow := by
    rw [Pc.orderRow, Pc.orderRow, htx]
    rfl
  refine ⟨owned_update hO rfl (fun _ _ _ h => h) (fun _ _ _ h => acquire_of_owner howner h)
    (fun k hk => hO.order i k (hrow ▸ hk)) fun k hk => ?_,
    .moves i (moves_update rfl rfl (fun t' ht' => .inl (htx.trans ht')) fun _ => hb)⟩
  cases hk
  exact acquire_self howner

theorem effect_commit (hO : Owned s) {t : Tx ν τ} {r : WebhookApplyResult} {db : Db τ} (htx : (s.pc i).tx = some t)
    (hdb : db = s.db.commit t ∨ ∃ b, s.pc i = .credited t b ∧ db = (s.db.commit t).credit t b) :
    Owned { s.finish i (.returned r) with db } ∧ Effect s a { s.finish i (.returned r) with db } := by
  have hfinish : Owned (s.finish i (.returned r)) := owned_finish hO id
  refine ⟨⟨hfinish.order, hfinish.balance⟩, .commits i t ⟨htx, fun j hj => goto_of_ne s hj, ?_, hdb⟩⟩
  change ¬ ((s.goto i (.returned r)).pc i).Active
  rw [goto_self]
  exact id

theorem effect_of_statement (hO : Owned s) {now : τ} (h : statement upper s i now = some s') :
    Owned s' ∧ Effect s (.run i now) s' := by
  have hgoto : ∀ {pc : Pc ν τ}, pc.tx = none → pc.balanceRow = none → pc.Current s.db →
      Owned (s.goto i pc) ∧ Effect s (.run i now) (s.goto i pc) := fun htx huser hcurrent =>
    ⟨owned_bare hO rfl htx huser rfl rfl, .moves i (moves_bare rfl rfl htx hcurrent)⟩
  have hfinish : ∀ {pc : Pc ν τ}, ¬ pc.Active → pc.Current s.db →
      Owned (s.finish i pc) ∧ Effect s (.run i now) (s.finish i pc) := fun hpc hcurrent =>
    ⟨owned_finish hO hpc, .moves i (moves_bare rfl rfl (tx_of_not_active hpc).1 hcurrent)⟩
  unfold statement at h
  cases hpc : s.pc i with
  | idle | returned | raised =>
    rw [hpc] at h
    cases h
  | resolving g =>
    simp only [hpc] at h
    split at h
    · cases h
      obtain ⟨htx, huser, hcurrent⟩ := resolved_tx upper g _
      exact hgoto htx huser (hcurrent _)
    · cases h
      exact hgoto rfl rfl trivial
  | resolvingCheckout g =>
    simp only [hpc] at h
    split at h
    · cases h
      obtain ⟨htx, huser, hcurrent⟩ := resolved_tx upper g _
      exact hgoto htx huser (hcurrent _)
    · cases h
      exact hgoto rfl rfl trivial
  | duplicate g o =>
    simp only [hpc] at h
    cases h
    exact hfinish id trivial
  | beginning g o =>
    simp only [hpc] at h
    split at h
    · cases h
      exact hgoto rfl rfl trivial
    · cases h
      exact hgoto rfl rfl trivial
  | claiming g o =>
    simp only [hpc] at h
    obtain ⟨eventOwner, -, hs⟩ := Option.map_eq_some_iff.1 h
    split at hs
    · cases hs
      exact hgoto rfl rfl trivial
    · cases hs
      exact ⟨owned_bare hO rfl rfl rfl rfl rfl, .moves i (moves_bare rfl rfl rfl trivial)⟩
  | claimed g o =>
    simp only [hpc] at h
    split at h
    case h_1 =>
      cases h
      exact hfinish id trivial
    case h_2 row hrow =>
      obtain ⟨orderOwner, howner, hs⟩ := Option.map_eq_some_iff.1 h
      cases hs
      refine ⟨owned_update hO rfl (fun _ _ _ h => acquire_of_owner howner h) (fun _ _ _ h => h) ?_ fun _ hk => ?_,
        .moves i (moves_update rfl rfl ?_ fun _ => trivial)⟩
      · intro k hk
        cases hk
        exact acquire_self howner
      · cases hk
      · intro t ht
        cases ht
        exact .inr ⟨hpc, row, now, rfl, hrow, rfl⟩
  | paid t =>
    have hkeep : ∀ {pc : Pc ν τ}, pc.tx = some t → pc.balanceRow = none → pc.Current s.db →
        Owned (s.goto i pc) ∧ Effect s (.run i now) (s.goto i pc) := fun htx huser hcurrent =>
      effect_keep hO (by rw [htx, hpc]; rfl) (fun k hk => by rw [huser] at hk; cases hk) fun _ => hcurrent
    simp only [hpc] at h
    split at h
    · cases h
      exact hfinish id trivial
    · split at h
      · cases h
        exact hkeep rfl rfl trivial
      · cases h
        exact hkeep rfl rfl trivial
  | crediting t =>
    have htx : (s.pc i).tx = some t := by rw [hpc]; rfl
    simp only [hpc] at h
    split at h
    case h_1 =>
      cases h
      exact effect_keep hO htx.symm (fun k hk => by cases hk) fun _ => trivial
    case h_2 b hb =>
      obtain ⟨balanceOwner, howner, hs⟩ := Option.map_eq_some_iff.1 h
      cases hs
      exact effect_lock hO htx howner (by rw [Db.getBalance, hb]; rfl)
  | creating t =>
    have htx : (s.pc i).tx = some t := by rw [hpc]; rfl
    simp only [hpc] at h
    obtain ⟨balanceOwner, howner, hs⟩ := Option.map_eq_some_iff.1 h
    split at hs
    case h_1 =>
      cases hs
      exact hfinish id trivial
    case h_2 hb =>
      cases hs
      exact effect_lock hO htx howner (by rw [Db.getBalance, hb]; rfl)
  | locked t b =>
    simp only [hpc] at h
    cases h
    refine effect_keep hO (by rw [hpc]; rfl) (fun k hk => by rw [hpc]; exact hk) fun hcurrent => ?_
    rw [hpc] at hcurrent
    exact congrArg (· + t.grant.pack.credits) hcurrent
  | saved t b =>
    simp only [hpc] at h
    split at h
    · cases h
      exact hfinish id trivial
    · cases h
      refine effect_keep hO (by rw [hpc]; rfl) (fun k hk => by rw [hpc]; exact hk) fun hcurrent => ?_
      rw [hpc] at hcurrent
      exact hcurrent
  | credited t b =>
    simp only [hpc] at h
    cases h
    exact effect_commit hO (by rw [hpc]; rfl) (.inr ⟨b, hpc, rfl⟩)
  | replayed t balanceAfter =>
    simp only [hpc] at h
    cases h
    exact effect_commit hO (by rw [hpc]; rfl) (.inl rfl)

theorem effect_of_step (hO : Owned s) (h : step asInt upper productIdByPack s a = some s') :
    Owned s' ∧ Effect s a s' := by
  cases a with
  | deliver i payload =>
    obtain ⟨-, hs⟩ := Option.ite_none_left_eq_some.1 h
    cases hs
    obtain ⟨htx, huser, hcurrent⟩ := received_tx (τ := τ) asInt productIdByPack payload
    exact ⟨owned_bare hO rfl htx huser rfl rfl, .moves i (moves_bare rfl rfl htx (hcurrent _))⟩
  | run i now => exact effect_of_statement hO h
  | fail i =>
    obtain ⟨-, hs⟩ := Option.ite_none_right_eq_some.1 h
    cases hs
    exact ⟨owned_finish hO id, .moves i (moves_bare rfl rfl rfl trivial)⟩
  | checkout o =>
    obtain ⟨⟨-, hfresh⟩, hs⟩ := Option.ite_none_right_eq_some.1 h
    cases hs
    refine ⟨⟨hO.order, hO.balance⟩, .orders o ⟨?_, rfl, rfl⟩⟩
    exact List.find?_eq_none.2 fun row hrow => by
      rw [decide_eq_true_iff]
      exact (hfresh row hrow).1

end Steps

end NexusStudio.Billing
