import Mathlib
import NexusStudio.Lib.Machine
import NexusStudio.Workshop.Refunds

/-!
# TMC messages

`TmcAccelerator.handle` on messages about trades, refunds and items, next to a REST source whose objects change.

* (source) Every object has a version at the source, and a message announces one that the source has reached.
* (handling) A message is confirmed after a refresh of its object, or as a duplicate by its id or its business key.
* (law) The object of a confirmed message was refreshed after a message of that topic and id, and its snapshot has the
  version that was announced.
* (defect) The business key of a refund has no topic and no key has a version, so later events pass as duplicates; and a
  version that `apply_event` has marked and not stored is dropped when it is delivered again.
-/

set_option linter.unusedSectionVars false

namespace NexusStudio.TmcMessages

open JsonText Concurrent Refunds

/-! ### Messages -/

def v1Topics : List String :=
  ["taobao_trade_TradeBuyerPay", "taobao_trade_TradeSellerShip", "taobao_trade_TradeSuccess",
    "taobao_trade_TradeClose", "taobao_trade_TradeChanged", "taobao_trade_TradePartlyRefund",
    "taobao_refund_RefundCreated", "taobao_refund_RefundSuccess", "taobao_refund_RefundClosed",
    "taobao_item_ItemAdd", "taobao_item_ItemUpdate", "taobao_item_ItemUpshelf", "taobao_item_ItemDownshelf",
    "taobao_item_ItemDelete"]

inductive TmcTopicKind
  | trade
  | refund
  | item
  deriving DecidableEq, Repr

/-- `_topic_kind`. -/
def topicKind (topic : String) : TmcTopicKind :=
  if "taobao_trade_".toList <+: topic.toList then .trade
  else if "taobao_refund_".toList <+: topic.toList then .refund
  else .item

structure TmcMessage (ν : Type) where
  msgId : String
  topic : String
  content : Event ν

structure TmcHandleResult where
  confirmed : Bool
  reason : Option String
  businessKey : Option String
  deriving DecidableEq, Repr

/-- What the body of `try` raises. -/
inductive Failure
  | rest (message : String)
  | raised (r : Raised)

structure RestRefreshPort (ν : Type) where
  refreshTrade : String → Except String (Event ν)
  refreshRefund : String → Except String (Event ν)
  refreshItem : String → Except String (Event ν)

structure TmcAccelerator (ν δ : Type) where
  refundStore : RefundStore ν δ
  seenMsgIds : List String
  seenBusinessKeys : List String
  confirmedMsgIds : List String
  tradeSnapshots : String → Option (Event ν)
  itemSnapshots : String → Option (Event ν)

def TmcAccelerator.empty {ν δ : Type} : TmcAccelerator ν δ := ⟨.empty, [], [], [], fun _ => none, fun _ => none⟩

/-- The REST source: what it has of an object at a version, where a refund names itself and its version. -/
structure Source {ν δ : Type} (B : Builtins ν δ) where
  trade : String → Int → Event ν
  refund : String → Int → Event ν
  item : String → Int → Event ν
  keyOf_refund : ∀ id version, keyOf B (refund id version) = .ok (id, version)

section Model

variable {ν δ : Type} (B : Builtins ν δ)

def idField : TmcTopicKind → String
  | .trade => "tid"
  | .refund => "refund_id"
  | .item => "num_iid"

/-- `content.get` in a text. -/
def getText (content : Event ν) (name : String) : String := B.str ((content.lookup name).getD .null)

/-- The object that a message names. -/
def objectId (m : TmcMessage ν) : String := getText B m.content (idField (topicKind m.topic))

/-- `_business_key`. -/
def businessKey (m : TmcMessage ν) : String :=
  let c := getText B m.content
  if "taobao_refund_".toList <+: m.topic.toList then
    let refundId := c "refund_id"
    s!"refund:{refundId}"
  else if "taobao_item_".toList <+: m.topic.toList then
    let numIid := c "num_iid"
    s!"item:{numIid}:{m.topic}"
  else
    let tid := c "tid"
    s!"trade:{tid}:{m.topic}"

/-- The body of `try`. -/
def refresh (rest : RestRefreshPort ν) (a : TmcAccelerator ν δ) (m : TmcMessage ν) :
    Except Failure Unit × TmcAccelerator ν δ :=
  let kind := topicKind m.topic
  match field m.content (idField kind) with
  | .error r => (.error (.raised r), a)
  | .ok v =>
    match kind with
    | .trade =>
      match rest.refreshTrade (B.str v) with
      | .error e => (.error (.rest e), a)
      | .ok snap => (.ok (), { a with tradeSnapshots := Function.update a.tradeSnapshots (B.str v) (some snap) })
    | .refund =>
      match rest.refreshRefund (B.str v) with
      | .error e => (.error (.rest e), a)
      | .ok snap =>
        match applyEvent B a.refundStore snap with
        | (.error r, store) => (.error (.raised r), { a with refundStore := store })
        | (.ok (), store) => (.ok (), { a with refundStore := store })
    | .item =>
      match rest.refreshItem (B.str v) with
      | .error e => (.error (.rest e), a)
      | .ok snap => (.ok (), { a with itemSnapshots := Function.update a.itemSnapshots (B.str v) (some snap) })

/-- `handle`, with the texts of exceptions. -/
def handle (text : Failure → String) (rest : RestRefreshPort ν) (a : TmcAccelerator ν δ) (m : TmcMessage ν) :
    TmcHandleResult × TmcAccelerator ν δ :=
  if m.topic ∉ v1Topics then (⟨false, some "unsupported_topic", none⟩, a)
  else if m.msgId ∈ a.seenMsgIds ∨ businessKey B m ∈ a.seenBusinessKeys then
    (⟨true, some "duplicate", some (businessKey B m)⟩,
      { a with confirmedMsgIds := a.confirmedMsgIds ++ [m.msgId], seenMsgIds := m.msgId :: a.seenMsgIds })
  else
    match refresh B rest a m with
    | (.error e, a) => (⟨false, some s!"handler_error:{text e}", some (businessKey B m)⟩, a)
    | (.ok (), a) =>
      (⟨true, none, some (businessKey B m)⟩,
        { a with
          seenMsgIds := m.msgId :: a.seenMsgIds
          seenBusinessKeys := businessKey B m :: a.seenBusinessKeys
          confirmedMsgIds := a.confirmedMsgIds ++ [m.msgId] })

/-- A turn of the loop of `rest_compensate_trades`. -/
def restCompensateTrade (rest : RestRefreshPort ν) (a : TmcAccelerator ν δ) (tid : String) :
    Except String Unit × TmcAccelerator ν δ :=
  match rest.refreshTrade tid with
  | .error e => (.error e, a)
  | .ok snap => (.ok (), { a with tradeSnapshots := Function.update a.tradeSnapshots tid (some snap) })

/-- A turn of the loop of `rest_compensate_refunds`. -/
def restCompensateRefund (a : TmcAccelerator ν δ) (payload : Event ν) : Except Raised Unit × TmcAccelerator ν δ :=
  let (r, store) := applyEvent B a.refundStore payload
  (r, { a with refundStore := store })

/-! ### The machine -/

structure State (ν δ : Type) where
  accel : TmcAccelerator ν δ
  -- the versions at the source
  versions : TmcTopicKind → String → Int
  now : Nat
  -- the versions of the stored trades, the first message of a topic and id, and the last refresh of an object
  tradeVersions : String → Option Int
  arrivedAt : String × String → Option Nat
  refreshedAt : TmcTopicKind × String → Option Nat
  -- the messages about refunds and trades that were confirmed under a new id, with what they announced
  confirmed : List (TmcMessage ν × Int)

inductive Action (ν : Type)
  | change (kind : TmcTopicKind) (id : String) (version : Int)
  -- a message with the version that it announces, and what REST calls raise
  | deliver (m : TmcMessage ν) (version : Int) (failure : Option String)
  | compensateTrade (tid : String) (failure : Option String)
  | compensateRefund (payload : Event ν)

variable (text : Failure → String) (S : Source B)

/-- The source with its versions. -/
def port (versions : TmcTopicKind → String → Int) (failure : Option String) : RestRefreshPort ν :=
  let answer (x : Event ν) : Except String (Event ν) :=
    match failure with
    | some e => .error e
    | none => .ok x
  { refreshTrade := fun tid => answer (S.trade tid (versions .trade tid))
    refreshRefund := fun id => answer (S.refund id (versions .refund id))
    refreshItem := fun id => answer (S.item id (versions .item id)) }

/-- The business object of a message was refreshed for the message. -/
def State.refreshed (s : State ν δ) (kind : TmcTopicKind) (id : String) : State ν δ :=
  { s with
    refreshedAt := Function.update s.refreshedAt (kind, id) (some s.now)
    tradeVersions :=
      if kind = .trade then Function.update s.tradeVersions id (some (s.versions .trade id)) else s.tradeVersions }

def State.tick (s : State ν δ) : State ν δ := { s with now := s.now + 1 }

def State.arrive (s : State ν δ) (topic id : String) : State ν δ :=
  { s with arrivedAt := Function.update s.arrivedAt (topic, id) (some ((s.arrivedAt (topic, id)).getD s.now)) }

def State.confirm (s : State ν δ) (m : TmcMessage ν) (version : Int) : State ν δ :=
  { s with
    confirmed :=
      if topicKind m.topic ≠ .item ∧ m.msgId ∉ s.accel.seenMsgIds then (m, version) :: s.confirmed else s.confirmed }

def deliver (s : State ν δ) (m : TmcMessage ν) (version : Int) (failure : Option String) : State ν δ :=
  let (r, accel) := handle B text (port B S s.versions failure) s.accel m
  let s := s.arrive m.topic (objectId B m)
  let s := if r.confirmed then s.confirm m version else s
  let s := if r.confirmed ∧ r.reason = none then s.refreshed (topicKind m.topic) (objectId B m) else s
  { s with accel := accel }.tick

def step (s : State ν δ) : Action ν → Option (State ν δ)
  | .change kind id version =>
    if s.versions kind id < version then
      some { s with versions := Function.update s.versions kind (Function.update (s.versions kind) id version) }
    else none
  | .deliver m version failure =>
    if version ≤ s.versions (topicKind m.topic) (objectId B m) then some (deliver B text S s m version failure)
    else none
  | .compensateTrade tid failure =>
    match restCompensateTrade (port B S s.versions failure) s.accel tid with
    | (.error _, accel) => some { s with accel := accel }.tick
    | (.ok (), accel) => some { s.refreshed .trade tid with accel := accel }.tick
  | .compensateRefund payload => some { s with accel := (restCompensateRefund B s.accel payload).2 }.tick

structure Initial (s : State ν δ) : Prop where
  accel : s.accel = .empty
  tradeVersions : s.tradeVersions = fun _ => none
  arrivedAt : s.arrivedAt = fun _ => none
  refreshedAt : s.refreshedAt = fun _ => none
  confirmed : s.confirmed = []

def tmc : Machine (State ν δ) (Action ν) where
  init := Initial
  step := step B text S

/-- The object of the message was refreshed after a message of its topic. -/
def Covered (s : State ν δ) (m : TmcMessage ν) : Prop :=
  ∃ t₀ ∈ s.arrivedAt (m.topic, objectId B m), ∃ t₁ ∈ s.refreshedAt (topicKind m.topic, objectId B m), t₀ ≤ t₁

/-- The snapshot of the object is as new as a version. -/
def Fresh (s : State ν δ) (m : TmcMessage ν) (version : Int) : Prop :=
  match topicKind m.topic with
  | .trade => ∃ w ∈ s.tradeVersions (objectId B m), version ≤ w
  | .refund => ∃ x ∈ s.accel.refundStore.snapshots (objectId B m), version ≤ x.refundVersion
  | .item => True

instance (s : State ν δ) (m : TmcMessage ν) : Decidable (Covered B s m) :=
  inferInstanceAs (Decidable (∃ t₀ ∈ s.arrivedAt _, ∃ t₁ ∈ s.refreshedAt _, t₀ ≤ t₁))

instance (s : State ν δ) (m : TmcMessage ν) (version : Int) : Decidable (Fresh B s m version) := by
  unfold Fresh
  split
  all_goals infer_instance

/-- The stored trades are those of the source, and what is confirmed was refreshed and is as new as announced. -/
structure Law (s : State ν δ) : Prop where
  trades : ∀ tid, s.accel.tradeSnapshots tid = (s.tradeVersions tid).map (S.trade tid)
  confirmed : ∀ p ∈ s.confirmed, Covered B s p.1 ∧ Fresh B s p.1 p.2

/-- A message that passes as a duplicate by its business key finds its object refreshed after a message of its topic and
as new as announced. One that is handled finds no version marked that was not stored. -/
def Safe (s : State ν δ) : Action ν → Prop
  | .deliver m version failure =>
    m.topic ∈ v1Topics → topicKind m.topic ≠ .item → m.msgId ∉ s.accel.seenMsgIds →
      if businessKey B m ∈ s.accel.seenBusinessKeys then Covered B s m ∧ Fresh B s m version
      else topicKind m.topic = .refund → failure = none → (m.content.lookup "refund_id").isSome →
        (objectId B m, s.versions .refund (objectId B m)) ∈ s.accel.refundStore.seenVersions → Fresh B s m version
  | _ => True

theorem lawfulBEq_seen : LawfulBEq (String × Int) := inferInstance

instance (s : State ν δ) (a : Action ν) : Decidable (Safe B s a) := by
  have hlawful := lawfulBEq_seen
  unfold Safe
  repeat' split
  all_goals infer_instance

end Model

/-! ### Refund snapshots -/

section Proofs

variable {ν δ : Type} {B : Builtins ν δ} {text : Failure → String} {S : Source B}
  {store store' : RefundStore ν δ} {a a' : TmcAccelerator ν δ} {s t : State ν δ} {m : TmcMessage ν}

/-- No snapshot is replaced by one of a smaller version. -/
def Grows (store store' : RefundStore ν δ) : Prop :=
  ∀ id, ∀ x ∈ store.snapshots id, ∃ y ∈ store'.snapshots id, x.refundVersion ≤ y.refundVersion

theorem Grows.refl (store : RefundStore ν δ) : Grows store store := fun _ x hx => ⟨x, hx, le_rfl⟩

theorem grows_applyEvent (store : RefundStore ν δ) (e : Event ν) : Grows store (applyEvent B store e).2 := by
  unfold applyEvent
  split
  · exact .refl store
  · next key hkey =>
    dsimp only
    split
    · exact .refl store
    · split
      · exact .refl store
      · next hstale =>
        split
        · exact .refl store
        · next snapshot hsnapshot =>
          intro id x hx
          by_cases hid : id = key.1
          · subst hid
            refine ⟨snapshot, Function.update_self .., ?_⟩
            rw [(same_of_snapshotOf hsnapshot).2]
            by_contra hlt
            exact hstale ⟨x, hx, .inl (not_le.1 hlt)⟩
          · exact ⟨x, (Function.update_of_ne hid _ _).trans hx, le_rfl⟩

/-- An event that does not raise was marked before, or its refund has a snapshot of at least its version. -/
theorem applyEvent_ok {e : Event ν} {key : String × Int} (hkey : keyOf B e = .ok key)
    (h : applyEvent B store e = (.ok (), store')) :
    key ∈ store.seenVersions ∧ store'.snapshots = store.snapshots ∨
      key ∉ store.seenVersions ∧ ∃ x ∈ store'.snapshots key.1, key.2 ≤ x.refundVersion := by
  unfold applyEvent at h
  rw [hkey] at h
  dsimp only at h
  split at h
  · next hseen =>
    cases h
    exact .inl ⟨hseen, rfl⟩
  · next hseen =>
    refine .inr ⟨hseen, ?_⟩
    split at h
    · next hstale =>
      cases h
      obtain ⟨x, hx, hle⟩ := hstale
      exact ⟨x, hx, hle.elim le_of_lt le_of_eq⟩
    · split at h
      · cases h
      · next x hx =>
        cases h
        exact ⟨x, Function.update_self .., (same_of_snapshotOf hx).2.ge⟩

/-! ### One message -/

/-- A refresh that raises has at most marked a version of a refund. -/
theorem refresh_error {rest : RestRefreshPort ν} {e : Failure} (h : refresh B rest a m = (.error e, a')) :
    ∃ store, Grows a.refundStore store ∧ a' = { a with refundStore := store } := by
  have hsame : ∃ store, Grows a.refundStore store ∧ a = { a with refundStore := store } :=
    ⟨a.refundStore, .refl _, rfl⟩
  unfold refresh at h
  dsimp only at h
  split at h
  · cases h
    exact hsame
  · split at h
    · split at h
      · cases h
        exact hsame
      · cases h
    · split at h
      · cases h
        exact hsame
      · next snap _ =>
        have hgrows := grows_applyEvent (B := B) a.refundStore snap
        split at h
        · next r store' hstore =>
          cases h
          rw [hstore] at hgrows
          exact ⟨store', hgrows, rfl⟩
        · cases h
    · split at h
      · cases h
        exact hsame
      · cases h

/-- What a refresh that does not raise has done to the object of the message. -/
def Refreshed (B : Builtins ν δ) (rest : RestRefreshPort ν) (a a' : TmcAccelerator ν δ) (m : TmcMessage ν) : Prop :=
  match topicKind m.topic with
  | .trade => ∃ snap, rest.refreshTrade (objectId B m) = .ok snap ∧
      a' = { a with tradeSnapshots := Function.update a.tradeSnapshots (objectId B m) (some snap) }
  | .refund => (m.content.lookup "refund_id").isSome ∧ ∃ snap store, rest.refreshRefund (objectId B m) = .ok snap ∧
      applyEvent B a.refundStore snap = (.ok (), store) ∧ a' = { a with refundStore := store }
  | .item => ∃ snap, rest.refreshItem (objectId B m) = .ok snap ∧
      a' = { a with itemSnapshots := Function.update a.itemSnapshots (objectId B m) (some snap) }

theorem refresh_ok {rest : RestRefreshPort ν} (h : refresh B rest a m = (.ok (), a')) : Refreshed B rest a a' m := by
  unfold refresh at h
  dsimp only at h
  split at h
  · cases h
  · next v hv =>
    have hlookup : m.content.lookup (idField (topicKind m.topic)) = some v := by
      unfold field at hv
      split at hv
      · next w hw =>
        cases hv
        exact hw
      · cases hv
    have hid : objectId B m = B.str v := by rw [objectId, getText, hlookup, Option.getD_some]
    unfold Refreshed
    rw [hid]
    split at h
    · split at h
      · cases h
      · next snap hsnap =>
        cases h
        exact ⟨snap, hsnap, rfl⟩
    · next hkind =>
      rw [hkind] at hlookup
      refine ⟨Option.isSome_iff_exists.2 ⟨v, hlookup⟩, ?_⟩
      split at h
      · cases h
      · next snap hsnap =>
        split at h
        · cases h
        · next store' hstore =>
          cases h
          exact ⟨snap, store', hsnap, hstore, rfl⟩
    · split at h
      · cases h
      · next snap hsnap =>
        cases h
        exact ⟨snap, hsnap, rfl⟩

/-! ### One step -/

/-- Times are past, and what a confirmed message announced the source has. -/
structure Inv (B : Builtins ν δ) (s : State ν δ) : Prop where
  arrived : ∀ p, ∀ t₀ ∈ s.arrivedAt p, t₀ < s.now
  refreshed : ∀ p, ∀ t₁ ∈ s.refreshedAt p, t₁ < s.now
  announced : ∀ p ∈ s.confirmed, p.2 ≤ s.versions (topicKind p.1.topic) (objectId B p.1)

/-- What a step does to the times and the snapshots. -/
structure Advances (s t : State ν δ) : Prop where
  arrived : ∀ p, ∀ t₀ ∈ s.arrivedAt p, t₀ ∈ t.arrivedAt p
  refreshed : ∀ p, ∀ t₁ ∈ s.refreshedAt p, ∃ t₂ ∈ t.refreshedAt p, t₁ ≤ t₂
  trades : ∀ tid, ∀ w ∈ s.tradeVersions tid, w ∈ t.tradeVersions tid ∨ s.versions .trade tid ∈ t.tradeVersions tid
  refunds : Grows s.accel.refundStore t.accel.refundStore

theorem inv_init (h : Initial s) : Inv B s :=
  ⟨fun p t₀ h₀ => absurd h₀ (by simp [h.arrivedAt]), fun p t₁ h₁ => absurd h₁ (by simp [h.refreshedAt]),
    fun p hp => absurd hp (by simp [h.confirmed])⟩

theorem law_init (h : Initial s) : Law B S s := by
  refine ⟨fun tid => ?_, fun p hp => absurd hp (by simp [h.confirmed])⟩
  rw [h.accel, h.tradeVersions]
  rfl

theorem Covered.advance (h : Covered B s m) (ht : Advances s t) : Covered B t m := by
  obtain ⟨t₀, h₀, t₁, h₁, hle⟩ := h
  obtain ⟨t₂, h₂, hle'⟩ := ht.refreshed _ t₁ h₁
  exact ⟨t₀, ht.arrived _ t₀ h₀, t₂, h₂, hle.trans hle'⟩

theorem Fresh.advance {version : Int} (h : Fresh B s m version) (ht : Advances s t)
    (hv : version ≤ s.versions (topicKind m.topic) (objectId B m)) : Fresh B t m version := by
  unfold Fresh at h ⊢
  split
  · next hkind =>
    rw [hkind] at h hv
    obtain ⟨w, hw, hle⟩ := h
    rcases ht.trades _ w hw with hw | hw
    · exact ⟨w, hw, hle⟩
    · exact ⟨_, hw, hv⟩
  · next hkind =>
    rw [hkind] at h
    obtain ⟨x, hx, hle⟩ := h
    obtain ⟨y, hy, hxy⟩ := ht.refunds _ x hx
    exact ⟨y, hy, hle.trans hxy⟩
  · trivial

/-- What was confirmed before stays refreshed and as new as announced. -/
theorem confirmed_advance (hI : Inv B s) (hL : Law B S s) (ht : Advances s t) :
    ∀ p ∈ s.confirmed, Covered B t p.1 ∧ Fresh B t p.1 p.2 := fun p hp =>
  ⟨(hL.confirmed p hp).1.advance ht, (hL.confirmed p hp).2.advance ht (hI.announced p hp)⟩

theorem port_trade {versions : TmcTopicKind → String → Int} {failure : Option String} {id : String} {snap : Event ν}
    (h : (port B S versions failure).refreshTrade id = .ok snap) : snap = S.trade id (versions .trade id) := by
  cases failure with
  | none => exact (Except.ok.inj h).symm
  | some e => cases h

theorem port_refund {versions : TmcTopicKind → String → Int} {failure : Option String} {id : String} {snap : Event ν}
    (h : (port B S versions failure).refreshRefund id = .ok snap) :
    failure = none ∧ snap = S.refund id (versions .refund id) := by
  cases failure with
  | none => exact ⟨rfl, (Except.ok.inj h).symm⟩
  | some e => cases h

theorem mem_arrive {topic id : String} {p : String × String} {t₀ : Nat}
    (h : t₀ ∈ (s.arrive topic id).arrivedAt p) : t₀ ∈ s.arrivedAt p ∨ t₀ = s.now := by
  by_cases hp : p = (topic, id)
  · subst hp
    simp only [State.arrive, Function.update_self, Option.mem_def, Option.some.injEq] at h
    cases harr : s.arrivedAt (topic, id) with
    | none =>
      rw [harr] at h
      exact .inr h.symm
    | some t₁ =>
      rw [harr] at h
      exact .inl (congrArg some h)
  · simp only [State.arrive, Function.update_of_ne hp] at h
    exact .inl h

theorem arrive_keeps {topic id : String} {p : String × String} {t₀ : Nat} (h : t₀ ∈ s.arrivedAt p) :
    t₀ ∈ (s.arrive topic id).arrivedAt p := by
  by_cases hp : p = (topic, id)
  · subst hp
    simp only [State.arrive, Function.update_self, Option.mem_def.1 h, Option.getD_some]
    rfl
  · simp only [State.arrive, Function.update_of_ne hp]
    exact h

theorem inv_of_mem (hI : Inv B s) (hnow : t.now = s.now + 1) (hversions : t.versions = s.versions)
    (harrived : ∀ p, ∀ t₀ ∈ t.arrivedAt p, t₀ ∈ s.arrivedAt p ∨ t₀ = s.now)
    (hrefreshed : ∀ p, ∀ t₁ ∈ t.refreshedAt p, t₁ ∈ s.refreshedAt p ∨ t₁ = s.now)
    (hconfirmed : ∀ p ∈ t.confirmed, p ∈ s.confirmed ∨ p.2 ≤ s.versions (topicKind p.1.topic) (objectId B p.1)) :
    Inv B t := by
  refine ⟨fun p t₀ h₀ => ?_, fun p t₁ h₁ => ?_, fun p hp => ?_⟩
  · rw [hnow]
    rcases harrived p t₀ h₀ with h | rfl
    · exact (hI.arrived p t₀ h).trans (Nat.lt_succ_self _)
    · exact Nat.lt_succ_self _
  · rw [hnow]
    rcases hrefreshed p t₁ h₁ with h | rfl
    · exact (hI.refreshed p t₁ h).trans (Nat.lt_succ_self _)
    · exact Nat.lt_succ_self _
  · rw [hversions]
    exact (hconfirmed p hp).elim (hI.announced p) id

theorem mem_refreshed {kind : TmcTopicKind} {id : String} {p : TmcTopicKind × String} {t₁ : Nat}
    (h : t₁ ∈ (s.refreshed kind id).refreshedAt p) : t₁ ∈ s.refreshedAt p ∨ t₁ = s.now := by
  by_cases hp : p = (kind, id)
  · subst hp
    simp only [State.refreshed, Function.update_self, Option.mem_def, Option.some.injEq] at h
    exact .inr h.symm
  · simp only [State.refreshed, Function.update_of_ne hp] at h
    exact .inl h

/-- A refresh is the last one of its object. -/
theorem refreshed_later (hI : Inv B s) {kind : TmcTopicKind} {id : String} {p : TmcTopicKind × String} {t₁ : Nat}
    (h : t₁ ∈ s.refreshedAt p) : ∃ t₂ ∈ (s.refreshed kind id).refreshedAt p, t₁ ≤ t₂ := by
  by_cases hp : p = (kind, id)
  · subst hp
    exact ⟨s.now, Function.update_self .., (hI.refreshed _ t₁ h).le⟩
  · exact ⟨t₁, (Function.update_of_ne hp _ _).trans h, le_rfl⟩

theorem refreshed_trades (kind : TmcTopicKind) (id : String) {tid : String} {w : Int} (h : w ∈ s.tradeVersions tid) :
    w ∈ (s.refreshed kind id).tradeVersions tid ∨ s.versions .trade tid ∈ (s.refreshed kind id).tradeVersions tid := by
  by_cases hkind : kind = .trade
  · simp only [State.refreshed, if_pos hkind]
    by_cases hid : tid = id
    · subst hid
      exact .inr (Function.update_self ..)
    · exact .inl ((Function.update_of_ne hid _ _).trans h)
  · simp only [State.refreshed, if_neg hkind]
    exact .inl h

/-- A message that is not confirmed. -/
theorem law_unconfirmed (hI : Inv B s) (hL : Law B S s) {topic id : String} {store : RefundStore ν δ}
    (hstore : Grows s.accel.refundStore store)
    (ht : t = { s.arrive topic id with accel := { s.accel with refundStore := store } }.tick) :
    Inv B t ∧ Law B S t := by
  have hadvances : Advances s t := by
    subst ht
    exact ⟨fun _ _ => arrive_keeps, fun _ t₁ h₁ => ⟨t₁, h₁, le_rfl⟩, fun _ _ => .inl, hstore⟩
  have hconfirmed := confirmed_advance hI hL hadvances
  subst ht
  exact ⟨inv_of_mem hI rfl rfl (fun _ _ => mem_arrive) (fun _ _ => .inl) fun _ => .inl, hL.trades, hconfirmed⟩

theorem mem_confirm {version : Int} {p : TmcMessage ν × Int} (h : p ∈ (s.confirm m version).confirmed) :
    p ∈ s.confirmed ∨ p = (m, version) ∧ topicKind m.topic ≠ .item ∧ m.msgId ∉ s.accel.seenMsgIds := by
  unfold State.confirm at h
  dsimp only at h
  split at h
  · next hnew => exact (List.mem_cons.1 h).symm.imp_right fun hp => ⟨hp, hnew⟩
  · exact .inl h

theorem confirm_mem {version : Int} (hkind : topicKind m.topic ≠ .item) (hnew : m.msgId ∉ s.accel.seenMsgIds) :
    (m, version) ∈ (s.confirm m version).confirmed := by
  unfold State.confirm
  rw [if_pos ⟨hkind, hnew⟩]
  exact List.mem_cons_self

/-- The law after a message is confirmed, by what it says about this message. -/
theorem law_confirm (hI : Inv B s) (hL : Law B S s) (ha : Advances s t) {version : Int}
    (htrades : ∀ tid, t.accel.tradeSnapshots tid = (t.tradeVersions tid).map (S.trade tid))
    (hconfirmed : t.confirmed = ((s.arrive m.topic (objectId B m)).confirm m version).confirmed) :
    Law B S t ↔ (topicKind m.topic ≠ .item → m.msgId ∉ s.accel.seenMsgIds → Covered B t m ∧ Fresh B t m version) := by
  constructor
  · intro h hkind hnew
    refine h.confirmed (m, version) ?_
    rw [hconfirmed]
    exact confirm_mem hkind hnew
  · refine fun h => ⟨htrades, fun p hp => ?_⟩
    rw [hconfirmed] at hp
    rcases mem_confirm hp with hp | ⟨rfl, hkind, hnew⟩
    · exact confirmed_advance hI hL ha p hp
    · exact h hkind hnew

/-- A duplicate keeps the law exactly where its object is refreshed and new enough. -/
theorem law_duplicate (hI : Inv B s) (hL : Law B S s) {version : Int} {failure : Option String}
    (hv : version ≤ s.versions (topicKind m.topic) (objectId B m)) (htopic : m.topic ∈ v1Topics)
    (hdup : m.msgId ∈ s.accel.seenMsgIds ∨ businessKey B m ∈ s.accel.seenBusinessKeys)
    (ht : t = { (s.arrive m.topic (objectId B m)).confirm m version with
      accel := { s.accel with
        confirmedMsgIds := s.accel.confirmedMsgIds ++ [m.msgId]
        seenMsgIds := m.msgId :: s.accel.seenMsgIds } }.tick) :
    Inv B t ∧ (Law B S t ↔ Safe B s (.deliver m version failure)) := by
  have hadvances : Advances s t := by
    subst ht
    exact ⟨fun _ _ => arrive_keeps, fun _ t₁ h₁ => ⟨t₁, h₁, le_rfl⟩, fun _ _ => .inl, .refl _⟩
  subst ht
  refine ⟨inv_of_mem hI rfl rfl (fun _ _ => mem_arrive) (fun _ _ => .inl) fun p hp => ?_,
    (law_confirm hI hL hadvances hL.trades rfl).trans ?_⟩
  · exact (mem_confirm hp).imp_right fun h => by rw [h.1]; exact hv
  · constructor
    · intro h _ hkind hnew
      obtain ⟨⟨t₀, h₀, t₁, h₁, hle⟩, hfresh⟩ := h hkind hnew
      rw [if_pos (hdup.resolve_left hnew)]
      refine ⟨⟨t₀, (mem_arrive h₀).resolve_right fun hnow => ?_, t₁, h₁, hle⟩, hfresh⟩
      have hpast := hI.refreshed _ t₁ h₁
      omega
    · intro h hkind hnew
      have hsafe := h htopic hkind hnew
      rw [if_pos (hdup.resolve_left hnew)] at hsafe
      exact ⟨hsafe.1.advance hadvances, hsafe.2.advance hadvances hv⟩

theorem arrived_self (hI : Inv B s) (topic id : String) :
    ∃ t₀ ∈ (s.arrive topic id).arrivedAt (topic, id), t₀ ≤ s.now := by
  refine ⟨(s.arrivedAt (topic, id)).getD s.now, Function.update_self .., ?_⟩
  cases harr : s.arrivedAt (topic, id) with
  | none => exact le_rfl
  | some t₀ => exact (hI.arrived _ t₀ harr).le

theorem grows_refreshed {rest : RestRefreshPort ν} (h : Refreshed B rest a a' m) :
    Grows a.refundStore a'.refundStore := by
  unfold Refreshed at h
  split at h
  · obtain ⟨snap, -, rfl⟩ := h
    exact .refl _
  · obtain ⟨-, snap, store, -, hstore, rfl⟩ := h
    have hgrows := grows_applyEvent (B := B) a.refundStore snap
    rwa [hstore] at hgrows
  · obtain ⟨snap, -, rfl⟩ := h
    exact .refl _

/-- A refreshed trade is the one of the source. -/
theorem trades_refreshed (hL : Law B S s) {failure : Option String}
    (h : Refreshed B (port B S s.versions failure) s.accel a m) (tid : String) :
    a.tradeSnapshots tid =
      ((s.refreshed (topicKind m.topic) (objectId B m)).tradeVersions tid).map (S.trade tid) := by
  unfold Refreshed at h
  split at h
  · next hkind =>
    obtain ⟨snap, hsnap, rfl⟩ := h
    simp only [State.refreshed, if_pos hkind]
    by_cases hid : tid = objectId B m
    · subst hid
      rw [Function.update_self, Function.update_self, port_trade hsnap, Option.map_some]
    · rw [Function.update_of_ne hid, Function.update_of_ne hid]
      exact hL.trades tid
  · next hkind =>
    obtain ⟨-, snap, store, -, -, rfl⟩ := h
    simp only [State.refreshed, hkind, reduceCtorEq, if_false]
    exact hL.trades tid
  · next hkind =>
    obtain ⟨snap, -, rfl⟩ := h
    simp only [State.refreshed, hkind, reduceCtorEq, if_false]
    exact hL.trades tid

/-- A message that is handled keeps the law exactly where its refund was not dropped. -/
theorem law_handled (hI : Inv B s) (hL : Law B S s) {version : Int} {failure : Option String}
    (hv : version ≤ s.versions (topicKind m.topic) (objectId B m)) (htopic : m.topic ∈ v1Topics)
    (hdup : ¬ (m.msgId ∈ s.accel.seenMsgIds ∨ businessKey B m ∈ s.accel.seenBusinessKeys))
    (hrefresh : Refreshed B (port B S s.versions failure) s.accel a m)
    (ht : t = { ((s.arrive m.topic (objectId B m)).confirm m version).refreshed (topicKind m.topic) (objectId B m) with
      accel := { a with
        seenMsgIds := m.msgId :: a.seenMsgIds
        seenBusinessKeys := businessKey B m :: a.seenBusinessKeys
        confirmedMsgIds := a.confirmedMsgIds ++ [m.msgId] } }.tick) :
    Inv B t ∧ (Law B S t ↔ Safe B s (.deliver m version failure)) := by
  have hgrows : Grows s.accel.refundStore a.refundStore := grows_refreshed hrefresh
  have htrades := trades_refreshed hL hrefresh
  have hadvances : Advances s t := by
    subst ht
    exact ⟨fun _ _ => arrive_keeps, fun _ _ => refreshed_later hI, fun _ _ => refreshed_trades _ _, hgrows⟩
  have hcovered : Covered B t m := by
    subst ht
    obtain ⟨t₀, h₀, hle⟩ := arrived_self hI m.topic (objectId B m)
    exact ⟨t₀, h₀, s.now, Function.update_self .., hle⟩
  have htrades : ∀ tid, t.accel.tradeSnapshots tid = (t.tradeVersions tid).map (S.trade tid) := by
    subst ht
    exact htrades
  have hconfirmed : t.confirmed = ((s.arrive m.topic (objectId B m)).confirm m version).confirmed := by
    rw [ht]
    rfl
  refine ⟨?_, (law_confirm hI hL hadvances htrades hconfirmed).trans ?_⟩
  · subst ht
    exact inv_of_mem hI rfl rfl (fun _ _ => mem_arrive) (fun _ _ => mem_refreshed) fun p hp =>
      (mem_confirm hp).imp_right fun h => by rw [h.1]; exact hv
  obtain ⟨hnew, hkey⟩ := not_or.1 hdup
  unfold Refreshed at hrefresh
  split at hrefresh
  · next hkind =>
    refine ⟨fun _ _ _ _ => ?_, fun _ _ _ => ⟨hcovered, ?_⟩⟩
    · rw [if_neg hkey]
      exact fun hrefund => absurd (hkind.symm.trans hrefund) (by decide)
    · subst ht
      simp only [Fresh, hkind]
      refine ⟨s.versions .trade (objectId B m), ?_, hkind ▸ hv⟩
      exact Function.update_self ..
  · next hkind =>
    obtain ⟨hsome, snap, store, hsnap, hstore, rfl⟩ := hrefresh
    obtain ⟨rfl, rfl⟩ := port_refund hsnap
    have hfresh : Fresh B t m version ↔ ∃ x ∈ store.snapshots (objectId B m), version ≤ x.refundVersion := by
      subst ht
      simp only [Fresh, hkind]
      rfl
    have hbefore : Fresh B s m version ↔
        ∃ x ∈ s.accel.refundStore.snapshots (objectId B m), version ≤ x.refundVersion := by
      simp only [Fresh, hkind]
    rcases applyEvent_ok (S.keyOf_refund _ _) hstore with ⟨hseen, hsame⟩ | ⟨hunseen, x, hx, hle⟩
    · rw [hsame, ← hbefore] at hfresh
      constructor
      · intro h _ hne hnew
        rw [if_neg hkey]
        exact fun _ _ _ _ => hfresh.1 (h hne hnew).2
      · intro h hne hnew
        have hsafe := h htopic hne hnew
        rw [if_neg hkey] at hsafe
        exact ⟨hcovered, hfresh.2 (hsafe hkind rfl hsome hseen)⟩
    · refine ⟨fun _ _ _ _ => ?_, fun _ _ _ => ⟨hcovered, hfresh.2 ⟨x, hx, (hkind ▸ hv).trans hle⟩⟩⟩
      rw [if_neg hkey]
      exact fun _ _ _ hseen => absurd hseen hunseen
  · next hkind =>
    exact ⟨fun _ _ hne => absurd hkind hne, fun _ hne => absurd hkind hne⟩

/-- A version that was marked is dropped without raising. -/
theorem refresh_of_seen {versions : TmcTopicKind → String → Int} (hkind : topicKind m.topic = .refund)
    (hsome : (m.content.lookup "refund_id").isSome)
    (hseen : (objectId B m, versions .refund (objectId B m)) ∈ a.refundStore.seenVersions) :
    ∃ a', refresh B (port B S versions none) a m = (.ok (), a') := by
  obtain ⟨v, hv⟩ := Option.isSome_iff_exists.1 hsome
  have hfield : field m.content "refund_id" = .ok v := by rw [field, hv]
  have hid : objectId B m = B.str v := by rw [objectId, getText, hkind, idField, hv, Option.getD_some]
  rw [hid] at hseen
  have happly : ∃ store, applyEvent B a.refundStore (S.refund (B.str v) (versions .refund (B.str v))) =
      (.ok (), store) := by
    unfold applyEvent
    rw [S.keyOf_refund]
    exact ⟨_, if_pos hseen⟩
  obtain ⟨store, hstore⟩ := happly
  unfold refresh
  simp only [hkind, idField, hfield, port, hstore]
  exact ⟨_, rfl⟩

/-- A delivered message keeps the law exactly under the condition. -/
theorem law_deliver (hI : Inv B s) (hL : Law B S s) {version : Int} {failure : Option String}
    (hv : version ≤ s.versions (topicKind m.topic) (objectId B m)) (ht : t = deliver B text S s m version failure) :
    Inv B t ∧ (Law B S t ↔ Safe B s (.deliver m version failure)) := by
  unfold deliver handle at ht
  by_cases htopic : m.topic ∈ v1Topics
  · rw [if_neg (not_not.2 htopic)] at ht
    by_cases hdup : m.msgId ∈ s.accel.seenMsgIds ∨ businessKey B m ∈ s.accel.seenBusinessKeys
    · rw [if_pos hdup] at ht
      exact law_duplicate hI hL hv htopic hdup ht
    · rw [if_neg hdup] at ht
      cases hr : refresh B (port B S s.versions failure) s.accel m with
      | mk r a =>
        rw [hr] at ht
        cases r with
        | ok u => exact law_handled hI hL hv htopic hdup (refresh_ok hr) ht
        | error e =>
          obtain ⟨store, hstore, rfl⟩ := refresh_error hr
          obtain ⟨hI', hL'⟩ := law_unconfirmed hI hL hstore ht
          refine ⟨hI', fun _ _ hne hnew => ?_, fun _ => hL'⟩
          rw [if_neg (not_or.1 hdup).2]
          rintro hkind rfl hsome hseen
          obtain ⟨a', ha'⟩ := refresh_of_seen (S := S) hkind hsome hseen
          cases hr.symm.trans ha'
  · rw [if_pos htopic] at ht
    obtain ⟨hI', hL'⟩ := law_unconfirmed hI hL (.refl _) ht
    exact ⟨hI', fun _ h => absurd h htopic, fun _ => hL'⟩

theorem law_compensateTrade (hI : Inv B s) (hL : Law B S s) {tid : String} {failure : Option String}
    (h : step B text S s (.compensateTrade tid failure) = some t) : Inv B t ∧ Law B S t := by
  unfold step restCompensateTrade at h
  cases failure with
  | some e =>
    cases h
    exact ⟨inv_of_mem hI rfl rfl (fun _ _ => .inl) (fun _ _ => .inl) fun _ => .inl, hL.trades, hL.confirmed⟩
  | none =>
    have hadvances : Advances s t := by
      cases h
      exact ⟨fun _ _ h => h, fun _ _ => refreshed_later hI, fun _ _ => refreshed_trades .trade tid, .refl _⟩
    have hconfirmed := confirmed_advance hI hL hadvances
    cases h
    refine ⟨inv_of_mem hI rfl rfl (fun _ _ => .inl) (fun _ _ => mem_refreshed) fun _ => .inl, fun id => ?_, hconfirmed⟩
    by_cases hid : id = tid
    · subst hid
      simp only [State.tick, State.refreshed, if_true, Function.update_self, Option.map_some]
    · simp only [State.tick, State.refreshed, if_true, Function.update_of_ne hid]
      exact hL.trades id

/-- A step from a state with the law keeps it exactly under the condition. -/
theorem law_step {x : Action ν} (hI : Inv B s) (hL : Law B S s) (h : step B text S s x = some t) :
    Inv B t ∧ (Law B S t ↔ Safe B s x) := by
  cases x with
  | change kind id version =>
    obtain ⟨hlt, h⟩ := Option.ite_none_right_eq_some.1 h
    cases h
    refine ⟨⟨hI.arrived, hI.refreshed, fun p hp => (hI.announced p hp).trans ?_⟩, fun _ => trivial,
      fun _ => ⟨hL.trades, hL.confirmed⟩⟩
    by_cases hkind : topicKind p.1.topic = kind
    · subst hkind
      by_cases hid : objectId B p.1 = id
      · subst hid
        simp only [Function.update_self]
        exact hlt.le
      · simp only [Function.update_self, Function.update_of_ne hid, le_refl]
    · simp only [Function.update_of_ne hkind, le_refl]
  | deliver m version failure =>
    obtain ⟨hv, h⟩ := Option.ite_none_right_eq_some.1 h
    exact law_deliver hI hL hv (Option.some.inj h).symm
  | compensateTrade tid failure =>
    obtain ⟨hI', hL'⟩ := law_compensateTrade hI hL h
    exact ⟨hI', fun _ => trivial, fun _ => hL'⟩
  | compensateRefund payload =>
    have hadvances : Advances s t := by
      cases h
      exact ⟨fun _ _ h => h, fun _ t₁ h₁ => ⟨t₁, h₁, le_rfl⟩, fun _ _ => .inl, grows_applyEvent _ payload⟩
    have hconfirmed := confirmed_advance hI hL hadvances
    cases h
    exact ⟨inv_of_mem hI rfl rfl (fun _ _ => .inl) (fun _ _ => .inl) fun _ => .inl, fun _ => trivial,
      fun _ => ⟨hL.trades, hconfirmed⟩⟩

end Proofs

/-! ### A refund that succeeds -/

section Runs

def shop : Source readings where
  trade tid version := [("tid", .string tid), ("modified", .number version)]
  refund id version := [("refund_id", .string id), ("refund_version", .number version), ("status", .string "SUCCESS"),
    ("refund_fee", .string "5.00"), ("end_time", .string "2026-07-04")]
  item id version := [("num_iid", .string id), ("modified", .number version)]
  keyOf_refund _ _ := rfl

def excText : Failure → String
  | .rest message => message
  | .raised _ => ""

/-- Every object has its first version at the source. -/
def opened : State Int String := ⟨.empty, fun _ _ => 1, 0, fun _ => none, fun _ => none, fun _ => none, []⟩

theorem initial_opened : Initial opened := ⟨rfl, rfl, rfl, rfl, rfl⟩

def refundMessage (msgId topic : String) : TmcMessage Int := ⟨msgId, topic, [("refund_id", .string "r1")]⟩

def refundVersion (s : State Int String) : Option Int := (s.accel.refundStore.snapshots "r1").map (·.refundVersion)

end Runs

end NexusStudio.TmcMessages
