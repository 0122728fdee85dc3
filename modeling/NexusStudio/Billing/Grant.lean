import Mathlib
import NexusStudio.Server.Errors
import NexusStudio.Lib.Json

/-!
# Credit packs and the grants of the payment provider

* (packs) The four packs, found by the product id that the settings give them.
* (grant) `parseCheckoutCompletedGrant` reads the event of a completed checkout.
-/

namespace NexusStudio.Billing

open JsonText

/-! ### Packs -/

inductive CreditPackKey
  | usd5
  | usd15
  | usd50
  | usd100
  deriving DecidableEq, Repr

def CreditPackKey.text : CreditPackKey → String
  | usd5 => "usd_5"
  | usd15 => "usd_15"
  | usd50 => "usd_50"
  | usd100 => "usd_100"

structure CreditPack where
  key : CreditPackKey
  priceUsdCents : Int
  credits : Int
  deriving DecidableEq, Repr

/-- `credits_for_usd_cents` of a whole amount of dollars. -/
def creditsForUsdCents (usdCents : Int) : Int := usdCents / 10

/-- `CREDIT_PACKS`. -/
def creditPacks : CreditPackKey → CreditPack
  | .usd5 => ⟨.usd5, 500, creditsForUsdCents 500⟩
  | .usd15 => ⟨.usd15, 1500, creditsForUsdCents 1500⟩
  | .usd50 => ⟨.usd50, 5000, creditsForUsdCents 5000⟩
  | .usd100 => ⟨.usd100, 10000, creditsForUsdCents 10000⟩

/-- `get_pack_by_creem_product_id`, with the text of its `LookupError`. -/
def getPackByCreemProductId (productIdByPack : List (CreditPackKey × String)) (creemProductId : String) :
    Except String CreditPack :=
  let normalized := strip creemProductId
  if normalized = "" then .error "creem product id is empty"
  else match productIdByPack.find? fun p => p.2 ≠ "" ∧ p.2 = normalized with
    | some p => .ok (creditPacks p.1)
    | none => .error ("unknown creem product id: " ++ normalized)

/-! ### Grants -/

structure CheckoutCompletedGrant (ν : Type) where
  eventId : String
  creemCheckoutId : String
  creemOrderId : Option String
  creemProductId : String
  requestId : Option String
  amount : Option Int
  currency : Option String
  metadata : List (String × Value ν)
  pack : CreditPack

structure WebhookGrantError where
  code : String
  message : String
  deriving DecidableEq, Repr

section Parse

variable {ν : Type} (asInt : ν → Option Int)

/-- A value that is a string. -/
def stringOf : Option (Value ν) → Option String
  | some (.string s) => some s
  | _ => none

/-- A value that is an `int`, which the two booleans are too. -/
def intOf : Option (Value ν) → Option Int
  | some (.number n) => asInt n
  | some (.bool b) => some (if b then 1 else 0)
  | _ => none

def dictOf : Option (Value ν) → Option (List (String × Value ν))
  | some (.dict fields) => some fields
  | _ => none

/-- A string that is more than white space. -/
def nonBlank (s : Option String) : Option String := s.filter fun s => strip s ≠ ""

def malformed (message : String) : WebhookGrantError := ⟨"WEBHOOK_MALFORMED", message⟩

/-- The id of the product: of the product itself, else of the order. -/
def productIdOf (obj : List (String × Value ν)) : Option String :=
  let productId := match obj.lookup "product" with
    | some (.dict product) => stringOf (product.lookup "id")
    | product => stringOf product
  productId <|> (dictOf (obj.lookup "order")).bind fun order => stringOf (order.lookup "product")

/-- `parse_checkout_completed_grant`; `none` for another type of event. -/
def parseCheckoutCompletedGrant (productIdByPack : List (CreditPackKey × String)) (payload : List (String × Value ν)) :
    Except WebhookGrantError (Option (CheckoutCompletedGrant ν)) :=
  match payload.lookup "eventType" with
  | none | some .null => .error (malformed "missing eventType")
  | some eventType =>
    if stringOf (some eventType) ≠ some "checkout.completed" then .ok none else do
      let some eventId := nonBlank (stringOf (payload.lookup "id")) | .error (malformed "missing event id")
      let some obj := dictOf (payload.lookup "object") | .error (malformed "missing checkout object")
      let some checkoutId := nonBlank (stringOf (obj.lookup "id")) | .error (malformed "missing checkout id")
      let order := (dictOf (obj.lookup "order")).getD []
      let some productId := (productIdOf obj).filter (· ≠ "") | .error (malformed "missing product id")
      let pack ← (getPackByCreemProductId productIdByPack productId).mapError (⟨"UNKNOWN_PRODUCT", ·⟩)
      let requestId ← match obj.lookup "request_id" with
        | none | some .null => .ok none
        | some (.string s) => .ok (some s)
        | some _ => .error (malformed "request_id must be string")
      let metadata ← match obj.lookup "metadata" with
        | none | some .null => .ok []
        | some (.dict metadata) => .ok metadata
        | some _ => .error (malformed "metadata must be object")
      return some {
        eventId := strip eventId
        creemCheckoutId := strip checkoutId
        creemOrderId := ((stringOf (order.lookup "id")).filter (· ≠ "")).map strip
        creemProductId := strip productId
        requestId := (nonBlank requestId).map strip
        amount := intOf asInt (order.lookup "amount")
        currency := stringOf (order.lookup "currency")
        metadata
        pack }

end Parse

end NexusStudio.Billing
