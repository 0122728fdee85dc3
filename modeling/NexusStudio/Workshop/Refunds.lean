import Mathlib
import NexusStudio.Lib.Json
import NexusStudio.Server.Errors

/-!
# Refund events

`RefundStore` keeps one snapshot for each refund, of the greatest version that it was handed.

* (money) `parse_top_yuan_to_fen` on decimals of 28 digits.
* (events) `applyEvent` logs an event, marks its version as seen, and only then reads the rest of it.
* (order) Events that are well formed end in the snapshots of the greatest versions, in any order and repeated.
* (defect) An event that is found malformed after its version was marked stays in the log and in the set, and the
  corrected event with its version is dropped.
-/

set_option linter.unusedSectionVars false

namespace NexusStudio.Refunds

open JsonText

/-! ### Money -/

/-- A finite `Decimal`. -/
structure Decimal where
  coefficient : Int
  exponent : Int
  deriving DecidableEq, Repr

def digits (n : Int) : Nat := (Nat.toDigits 10 n.natAbs).length

/-- The precision of the context. -/
def precision : Nat := 28

/-- A coefficient without its last digits, rounded half to even. -/
def dropDigits (n : Int) (k : Nat) : Int :=
  let q := n.natAbs / 10 ^ k
  let r := n.natAbs % 10 ^ k
  n.sign * (if 10 ^ k < 2 * r ∨ 10 ^ k = 2 * r ∧ q % 2 = 1 then q + 1 else q : Nat)

/-- `amount * Decimal(100)`. -/
def Decimal.timesHundred (d : Decimal) : Decimal :=
  let c := d.coefficient * 100
  let k := digits c - precision
  ⟨dropDigits c k, d.exponent + k⟩

/-- `quantize(Decimal("1"))`, which raises where the digits do not fit. -/
def Decimal.quantize (d : Decimal) : Option Int :=
  let n := match d.exponent with
    | .ofNat e => d.coefficient * 10 ^ e
    | .negSucc e => dropDigits d.coefficient (e + 1)
  if precision < digits n then none else some n

/-- The comparison of a number with a decimal. -/
def Decimal.Is (d : Decimal) (n : Int) : Prop :=
  match d.exponent with
  | .ofNat e => n = d.coefficient * 10 ^ e
  | .negSucc e => n * 10 ^ (e + 1) = d.coefficient

instance (d : Decimal) (n : Int) : Decidable (d.Is n) := by
  unfold Decimal.Is
  split
  all_goals infer_instance

/-- What is raised, as far as the code says it. -/
inductive Raised
  | keyError (field : String)
  | notAnInt
  | invalidOperation
  | moneyParseError (code message : String)
  | valueError (message : String)
  deriving DecidableEq, Repr

/-- The built-in readings of values and texts. -/
structure Builtins (ν δ : Type) where
  str : Value ν → String
  repr : String → String
  int : Value ν → Option Int
  truth : Value ν → Bool
  -- `none` for a text that is no number, and a `none` inside for one that is not finite
  decimal : String → Option (Option Decimal)
  strptime : String → String → Option δ

section Model

variable {ν δ : Type} (B : Builtins ν δ)

/-- `parse_top_yuan_to_fen`. -/
def parseTopYuanToFen (value : String) : Except Raised Int :=
  let text := strip value
  if text = "" then .error (.moneyParseError "TAOBAO_MONEY_UNAVAILABLE" "TOP money field empty")
  else
    match B.decimal text with
    | none => .error (.moneyParseError "TAOBAO_MONEY_INVALID" s!"invalid TOP yuan string: {B.repr text}")
    | some none => .error (.moneyParseError "TAOBAO_MONEY_INVALID" s!"non-finite TOP yuan: {B.repr text}")
    | some (some amount) =>
      let scaled := amount.timesHundred
      match scaled.quantize with
      | none => .error .invalidOperation
      | some fen =>
        if scaled.Is fen then .ok fen
        else
          .error (.moneyParseError "TAOBAO_MONEY_INVALID"
            s!"TOP yuan must have at most 2 decimal places: {B.repr text}")

/-! ### Events -/

abbrev Event (ν : Type) := List (String × Value ν)

structure RefundSnapshot (δ : Type) where
  refundId : String
  refundVersion : Int
  status : String
  refundFeeFen : Int
  oid : String
  refundDate : δ
  deriving DecidableEq, Repr

/-- `event[field]`. -/
def field (event : Event ν) (name : String) : Except Raised (Value ν) :=
  match event.lookup name with
  | some v => .ok v
  | none => .error (.keyError name)

/-- `event.get(field)`, which the code compares with `None` and the empty text. -/
def given (event : Event ν) (name : String) : Option (Value ν) :=
  match event.lookup name with
  | none | some .null | some (.string "") => none
  | some v => some v

/-- `_refund_date`. -/
def refundDateOf (event : Event ν) : Except Raised δ :=
  match (given event "end_time").or (given event "modified") with
  | none => .error (.valueError "refund event missing end_time and modified")
  | some raw =>
    let text := strip (B.str raw)
    match (B.strptime text "%Y-%m-%d %H:%M:%S").or (B.strptime text "%Y-%m-%d") with
    | some date => .ok date
    | none => .error (.valueError s!"invalid refund time: {B.repr text}")

/-- The refund and the version that `apply_event` reads first. -/
def keyOf (event : Event ν) : Except Raised (String × Int) := do
  let refundId ← field event "refund_id"
  let version ← field event "refund_version"
  match B.int version with
  | some n => return (B.str refundId, n)
  | none => .error .notAnInt

/-- The snapshot that `apply_event` reads last. -/
def snapshotOf (refundId : String) (version : Int) (event : Event ν) : Except Raised (RefundSnapshot δ) := do
  let fee ← field event "refund_fee"
  let feeFen ← parseTopYuanToFen B (B.str fee)
  let refundDate ← refundDateOf B event
  let status ← field event "status"
  let oid := match event.lookup "oid" with
    | some v => if B.truth v then B.str v else ""
    | none => ""
  return ⟨refundId, version, B.str status, feeFen, oid, refundDate⟩

structure RefundStore (ν δ : Type) where
  events : List (Event ν)
  snapshots : String → Option (RefundSnapshot δ)
  seenVersions : List (String × Int)

def RefundStore.empty : RefundStore ν δ := ⟨[], fun _ => none, []⟩

/-- The snapshot that the store has is of the version or a later one. -/
def RefundStore.Stale (s : RefundStore ν δ) (key : String × Int) : Prop :=
  ∃ current ∈ s.snapshots key.1, key.2 < current.refundVersion ∨ key.2 = current.refundVersion

instance (s : RefundStore ν δ) (key : String × Int) : Decidable (s.Stale key) :=
  inferInstanceAs (Decidable (∃ current ∈ s.snapshots key.1, _))

/-- `apply_event`, with the store as it leaves it. -/
def applyEvent (s : RefundStore ν δ) (event : Event ν) : Except Raised Unit × RefundStore ν δ :=
  match keyOf B event with
  | .error e => (.error e, s)
  | .ok key =>
    let s := { s with events := s.events ++ [event] }
    if key ∈ s.seenVersions then (.ok (), s)
    else
      let s := { s with seenVersions := key :: s.seenVersions }
      if s.Stale key then (.ok (), s)
      else
        match snapshotOf B key.1 key.2 event with
        | .error e => (.error e, s)
        | .ok snapshot => (.ok (), { s with snapshots := Function.update s.snapshots key.1 (some snapshot) })

def applyAll (events : List (Event ν)) : RefundStore ν δ :=
  events.foldl (fun s e => (applyEvent B s e).2) .empty

/-! ### The law -/

/-- What a well-formed event says. -/
def parse (event : Event ν) : Except Raised (RefundSnapshot δ) := do
  let key ← keyOf B event
  snapshotOf B key.1 key.2 event

def WellFormed (event : Event ν) : Prop := ∃ x, parse B event = .ok x

/-- The snapshot of an event that no event of its refund has a greater version than. -/
def Greatest (events : List (Event ν)) (x : RefundSnapshot δ) : Prop :=
  (∃ e ∈ events, parse B e = .ok x) ∧
    ∀ e ∈ events, ∀ y, parse B e = .ok y → y.refundId = x.refundId → y.refundVersion ≤ x.refundVersion

/-- In any order and with repetitions the events end in the snapshots of the greatest versions. -/
def Converges (set : List (Event ν)) : Prop :=
  ∀ events : List (Event ν), (∀ e, e ∈ events ↔ e ∈ set) → ∀ refundId x,
    (applyAll B events).snapshots refundId = some x ↔ Greatest B set x ∧ x.refundId = refundId

/-- The greatest version of a refund stands for one snapshot. -/
def Agree (set : List (Event ν)) : Prop :=
  ∀ x y : RefundSnapshot δ, Greatest B set x → Greatest B set y → x.refundId = y.refundId → x = y

/-- A call that raises leaves the store as it was. -/
def Untouched (s : RefundStore ν δ) (event : Event ν) : Prop :=
  ∀ e t, applyEvent B s event = (.error e, t) → t = s

/-- An event whose version is new to the store, and later than its snapshot, reads to the end. -/
def ReadsThrough (s : RefundStore ν δ) (event : Event ν) : Prop :=
  ∀ key, keyOf B event = .ok key → key ∉ s.seenVersions → ¬ s.Stale key → ∃ x, snapshotOf B key.1 key.2 event = .ok x

end Model

/-! ### Calls -/

section Proofs

variable {ν δ : Type} {B : Builtins ν δ} {s t : RefundStore ν δ} {e : Event ν} {l set : List (Event ν)}
  {x y : RefundSnapshot δ}

theorem same_of_snapshotOf {refundId : String} {version : Int} (h : snapshotOf B refundId version e = .ok x) :
    x.refundId = refundId ∧ x.refundVersion = version := by
  obtain ⟨fee, -, h⟩ := bind_eq_ok.1 h
  obtain ⟨feeFen, -, h⟩ := bind_eq_ok.1 h
  obtain ⟨refundDate, -, h⟩ := bind_eq_ok.1 h
  obtain ⟨status, -, h⟩ := bind_eq_ok.1 h
  cases h
  exact ⟨rfl, rfl⟩

/-- A well-formed event has a key, which its snapshot repeats. -/
theorem key_of_parse (h : parse B e = .ok x) :
    keyOf B e = .ok (x.refundId, x.refundVersion) ∧ snapshotOf B x.refundId x.refundVersion e = .ok x := by
  unfold parse at h
  cases hkey : keyOf B e with
  | error r =>
    rw [hkey] at h
    cases h
  | ok key =>
    rw [hkey] at h
    obtain ⟨hid, hversion⟩ := same_of_snapshotOf h
    rw [hid, hversion]
    exact ⟨rfl, h⟩

/-- A well-formed event never raises, and counts where it is new and not stale. -/
theorem applyEvent_of_parse (h : parse B e = .ok x) (s : RefundStore ν δ) :
    (∀ key, key ∈ (applyEvent B s e).2.seenVersions ↔ key = (x.refundId, x.refundVersion) ∨ key ∈ s.seenVersions) ∧
    (applyEvent B s e).2.snapshots =
      if (x.refundId, x.refundVersion) ∈ s.seenVersions ∨ s.Stale (x.refundId, x.refundVersion) then s.snapshots
      else Function.update s.snapshots x.refundId (some x) := by
  obtain ⟨hkey, hsnapshot⟩ := key_of_parse h
  unfold applyEvent
  rw [hkey]
  simp only
  split
  case isTrue hseen =>
    refine ⟨fun key => ⟨.inr, fun hk => ?_⟩, (if_pos (.inl hseen)).symm⟩
    rcases hk with rfl | hk
    · exact hseen
    · exact hk
  case isFalse hseen =>
    split
    case isTrue hstale => exact ⟨fun key => List.mem_cons, (if_pos (.inr hstale)).symm⟩
    case isFalse hstale =>
      rw [hsnapshot]
      exact ⟨fun key => List.mem_cons, (if_neg (not_or.2 ⟨hseen, hstale⟩)).symm⟩

theorem untouched_iff : Untouched B s e ↔ ReadsThrough B s e := by
  unfold Untouched applyEvent ReadsThrough
  cases hkey : keyOf B e with
  | error r =>
    refine ⟨fun _ key h => (by cases h), fun _ r t h => ?_⟩
    cases h
    rfl
  | ok key =>
    simp only
    split
    case isTrue hseen =>
      refine ⟨fun _ k hk hn => ?_, fun _ r t h => by cases h⟩
      cases hk
      exact absurd hseen hn
    case isFalse hseen =>
      split
      case isTrue hstale =>
        refine ⟨fun _ k hk _ hn => ?_, fun _ r t h => by cases h⟩
        cases hk
        exact absurd hstale hn
      case isFalse hstale =>
        cases hsnapshot : snapshotOf B key.1 key.2 e with
        | error r =>
          refine ⟨fun h => ?_, fun h => ?_⟩
          · have hlength := congrArg (fun t => t.events.length) (h r _ rfl)
            simp at hlength
          · obtain ⟨x, hx⟩ := h key rfl hseen hstale
            cases hsnapshot.symm.trans hx
        | ok x =>
          refine ⟨fun _ k hk _ _ => ?_, fun _ r t h => by cases h⟩
          cases hk
          exact ⟨x, hsnapshot⟩

/-! ### Runs of well-formed events -/

/-- The store after well-formed events. -/
structure Settled (l : List (Event ν)) (s : RefundStore ν δ) : Prop where
  seen : ∀ key ∈ s.seenVersions, ∃ e ∈ l, ∃ x, parse B e = .ok x ∧ key = (x.refundId, x.refundVersion)
  some : ∀ refundId x, s.snapshots refundId = some x → Greatest B l x ∧ x.refundId = refundId
  none : ∀ refundId, s.snapshots refundId = none → ∀ e ∈ l, ∀ x, parse B e = .ok x → x.refundId ≠ refundId

theorem greatest_concat_of_le (h : Greatest B l x)
    (he : ∀ y, parse B e = .ok y → y.refundId = x.refundId → y.refundVersion ≤ x.refundVersion) :
    Greatest B (l ++ [e]) x := by
  obtain ⟨⟨f, hf, hx⟩, hmax⟩ := h
  refine ⟨⟨f, List.mem_append_left _ hf, hx⟩, fun g hg y hy hid => ?_⟩
  rcases List.mem_append.1 hg with hg | hg
  · exact hmax g hg y hy hid
  · rw [List.mem_singleton.1 hg] at hy
    exact he y hy hid

/-- One more well-formed event, by how its version compares with the snapshot of its refund. -/
theorem settled_concat (hs : Settled (B := B) l s) (hy : parse B e = .ok y) :
    Settled (B := B) (l ++ [e]) (applyEvent B s e).2 := by
  obtain ⟨hseen, hsnapshots⟩ := applyEvent_of_parse hy s
  have hown : ∀ z, parse B e = .ok z → z = y := fun z hz => Except.ok.inj (hz.symm.trans hy)
  have hmem : e ∈ l ++ [e] := List.mem_append_right _ (List.mem_singleton_self e)
  have hkeys : ∀ key ∈ (applyEvent B s e).2.seenVersions,
      ∃ f ∈ l ++ [e], ∃ x, parse B f = .ok x ∧ key = (x.refundId, x.refundVersion) := by
    intro key hk
    rcases (hseen key).1 hk with rfl | hk
    · exact ⟨e, hmem, y, hy, rfl⟩
    · obtain ⟨f, hf, x, hx, hkey⟩ := hs.seen key hk
      exact ⟨f, List.mem_append_left _ hf, x, hx, hkey⟩
  by_cases hold : (y.refundId, y.refundVersion) ∈ s.seenVersions ∨ s.Stale (y.refundId, y.refundVersion)
  · -- the store has a snapshot of the refund of at least this version
    have hcurrent : ∃ c, s.snapshots y.refundId = some c ∧ y.refundVersion ≤ c.refundVersion := by
      rcases hold with hold | ⟨c, hc, hle⟩
      · obtain ⟨f, hf, x, hx, hkey⟩ := hs.seen _ hold
        obtain ⟨hid, hversion⟩ := Prod.mk.inj hkey
        cases hsnapshot : s.snapshots y.refundId with
        | none => exact absurd hid.symm (hs.none _ hsnapshot f hf x hx)
        | some c =>
          obtain ⟨⟨-, hmax⟩, hcid⟩ := hs.some _ c hsnapshot
          exact ⟨c, rfl, hversion ▸ hmax f hf x hx (hid.symm.trans hcid.symm)⟩
      · exact ⟨c, hc, hle.elim le_of_lt le_of_eq⟩
    obtain ⟨c, hc, hle⟩ := hcurrent
    rw [if_pos hold] at hsnapshots
    refine ⟨hkeys, fun id x hx => ?_, fun id hid f hf x hx => ?_⟩
    · rw [hsnapshots] at hx
      obtain ⟨hgreatest, hxid⟩ := hs.some id x hx
      refine ⟨greatest_concat_of_le hgreatest fun z hz hid => ?_, hxid⟩
      obtain rfl := hown z hz
      rw [← hxid, ← hid, hc] at hx
      cases hx
      exact hle
    · rw [hsnapshots] at hid
      rcases List.mem_append.1 hf with hf | hf
      · exact hs.none id hid f hf x hx
      · rw [List.mem_singleton.1 hf] at hx
        obtain rfl := hown x hx
        rintro rfl
        cases hc.symm.trans hid
  · rw [if_neg hold] at hsnapshots
    obtain ⟨-, hfresh⟩ := not_or.1 hold
    refine ⟨hkeys, fun id x hx => ?_, fun id hid f hf x hx => ?_⟩
    · rw [hsnapshots] at hx
      by_cases hid : id = y.refundId
      · subst hid
        rw [Function.update_self] at hx
        cases hx
        refine ⟨⟨⟨e, hmem, hy⟩, fun f hf z hz hid => ?_⟩, rfl⟩
        rcases List.mem_append.1 hf with hf | hf
        · cases hsnapshot : s.snapshots y.refundId with
          | none => exact absurd hid (hs.none _ hsnapshot f hf z hz)
          | some c =>
            obtain ⟨⟨-, hmax⟩, hcid⟩ := hs.some _ c hsnapshot
            have hzc : z.refundVersion ≤ c.refundVersion := hmax f hf z hz (hid.trans hcid.symm)
            by_contra hlt
            exact hfresh ⟨c, hsnapshot, by omega⟩
        · rw [List.mem_singleton.1 hf] at hz
          rw [hown z hz]
      · rw [Function.update_of_ne hid] at hx
        obtain ⟨hgreatest, hxid⟩ := hs.some id x hx
        refine ⟨greatest_concat_of_le hgreatest fun z hz hzid => ?_, hxid⟩
        obtain rfl := hown z hz
        exact absurd (hxid.symm.trans hzid.symm) hid
    · rw [hsnapshots] at hid
      rcases List.mem_append.1 hf with hf | hf
      · refine hs.none id ?_ f hf x hx
        by_cases hne : id = y.refundId
        · subst hne
          rw [Function.update_self] at hid
          cases hid
        · rwa [Function.update_of_ne hne] at hid
      · rw [List.mem_singleton.1 hf] at hx
        obtain rfl := hown x hx
        rintro rfl
        rw [Function.update_self] at hid
        cases hid

theorem settled_applyAll (h : ∀ e ∈ l, WellFormed B e) : Settled (B := B) l (applyAll B l) := by
  induction l using List.reverseRecOn with
  | nil =>
    exact ⟨fun _ hk => absurd hk List.not_mem_nil, fun _ _ hx => (by cases hx),
      fun _ _ _ he => absurd he List.not_mem_nil⟩
  | append_singleton l e ih =>
    obtain ⟨y, hy⟩ := h e (List.mem_append_right _ (List.mem_singleton_self e))
    have hs := ih fun f hf => h f (List.mem_append_left _ hf)
    rw [applyAll, List.foldl_concat]
    exact settled_concat hs hy

theorem greatest_congr (h : ∀ e, e ∈ l ↔ e ∈ set) : Greatest B l x ↔ Greatest B set x := by
  unfold Greatest
  simp only [h]

/-- Well-formed events end in the snapshots of the greatest versions, in every order, exactly if each greatest version
stands for one snapshot. -/
theorem converges_iff (hset : ∀ e ∈ set, WellFormed B e) : Converges B set ↔ Agree B set := by
  constructor
  · intro hconverges x y hx hy hid
    have hxs := (hconverges set (fun _ => Iff.rfl) x.refundId x).2 ⟨hx, rfl⟩
    have hys := (hconverges set (fun _ => Iff.rfl) x.refundId y).2 ⟨hy, hid.symm⟩
    exact Option.some.inj (hxs.symm.trans hys)
  · intro hagree l hl refundId x
    have hs : Settled l (applyAll B l) := settled_applyAll fun e he => hset e ((hl e).1 he)
    constructor
    · intro hx
      obtain ⟨hgreatest, hid⟩ := hs.some refundId x hx
      exact ⟨(greatest_congr hl).1 hgreatest, hid⟩
    · rintro ⟨hgreatest, rfl⟩
      cases hsnapshot : (applyAll B l).snapshots x.refundId with
      | none =>
        obtain ⟨⟨e, he, hx⟩, -⟩ := hgreatest
        exact absurd rfl (hs.none _ hsnapshot e ((hl e).2 he) x hx)
      | some y =>
        obtain ⟨hy, hid⟩ := hs.some _ y hsnapshot
        rw [hagree x y hgreatest ((greatest_congr hl).1 hy) hid.symm]

/-- The events of a set end in the snapshots of the greatest versions exactly if those agree, and a call leaves the
store as it was when it raises exactly if its event reads through once its version is new and later than the snapshot. -/
theorem refunds_kept_iff (B : Builtins ν δ) :
    (∀ set : List (Event ν), (∀ e ∈ set, WellFormed B e) → (Converges B set ↔ Agree B set)) ∧
      ∀ (s : RefundStore ν δ) (e : Event ν), Untouched B s e ↔ ReadsThrough B s e :=
  ⟨fun _ hset => converges_iff hset, fun _ _ => untouched_iff⟩

end Proofs

/-! ### A corrected event -/

section Runs

/-- Readings of the values below. -/
def readings : Builtins Int String where
  str v := match v with
    | .string s => s
    | _ => ""
  repr s := s
  int v := match v with
    | .number n => some n
    | _ => none
  truth _ := true
  decimal text := if text = "5.00" then some (some ⟨500, -2⟩) else none
  strptime text format := if text = "2026-07-04" ∧ format = "%Y-%m-%d" then some text else none

def refund (version : Int) (fee : String) : Event Int :=
  [("refund_id", .string "r1"), ("refund_version", .number version), ("status", .string "SUCCESS"),
    ("refund_fee", .string fee), ("oid", .string "o1"), ("end_time", .null), ("modified", .string "2026-07-04")]

def paid (version : Int) : RefundSnapshot String := ⟨"r1", version, "SUCCESS", 500, "o1", "2026-07-04"⟩

theorem parse_refund (version : Int) : parse readings (refund version "5.00") = .ok (paid version) := rfl

/-- Two versions of a refund, the later one first and twice. -/
theorem refunds_kept_of_two_versions :
    (applyAll readings [refund 2 "5.00", refund 1 "5.00", refund 2 "5.00"]).snapshots "r1" = some (paid 2) := by
  have hparse : ∀ e ∈ [refund 1 "5.00", refund 2 "5.00"], ∀ x, parse readings e = .ok x → x = paid 1 ∨ x = paid 2 := by
    intro e he x hx
    rcases List.mem_cons.1 he with rfl | he
    · exact .inl (Except.ok.inj (hx.symm.trans (parse_refund 1)))
    · rw [List.mem_singleton.1 he] at hx
      exact .inr (Except.ok.inj (hx.symm.trans (parse_refund 2)))
  have hwell : ∀ e ∈ [refund 1 "5.00", refund 2 "5.00"], WellFormed readings e := by
    intro e he
    rcases List.mem_cons.1 he with rfl | he
    · exact ⟨paid 1, parse_refund 1⟩
    · rw [List.mem_singleton.1 he]
      exact ⟨paid 2, parse_refund 2⟩
  have hsecond : refund 2 "5.00" ∈ [refund 1 "5.00", refund 2 "5.00"] :=
    List.mem_cons_of_mem _ (List.mem_singleton_self _)
  have hgreatest : Greatest readings [refund 1 "5.00", refund 2 "5.00"] (paid 2) := by
    refine ⟨⟨refund 2 "5.00", hsecond, parse_refund 2⟩, fun e he y hy _ => ?_⟩
    rcases hparse e he y hy with rfl | rfl
    · decide
    · decide
  have honly : ∀ x, Greatest readings [refund 1 "5.00", refund 2 "5.00"] x → x = paid 2 := by
    rintro x ⟨⟨e, he, hx⟩, hmax⟩
    rcases hparse e he x hx with rfl | rfl
    · have hle := hmax (refund 2 "5.00") hsecond (paid 2) (parse_refund 2) rfl
      exact absurd hle (by decide)
    · rfl
  have hagree : Agree readings [refund 1 "5.00", refund 2 "5.00"] := fun x y hx hy _ =>
    (honly x hx).trans (honly y hy).symm
  have hconverges := ((refunds_kept_iff readings).1 _ hwell).2 hagree
  refine (hconverges _ (fun e => ?_) "r1" (paid 2)).2 ⟨hgreatest, rfl⟩
  simp only [List.mem_cons, List.not_mem_nil, or_false]
  exact ⟨fun h => h.elim .inr fun h => h, fun h => h.elim (fun h => .inr (.inl h)) .inl⟩

/-- The malformed event stays in the log and its version in the set, and the corrected event is dropped. -/
theorem corrected_event_dropped : ∃ s : RefundStore Int String, ∃ e,
    applyEvent readings .empty (refund 1 "five") = (.error e, s) ∧ s ≠ .empty ∧
      (applyEvent readings s (refund 1 "5.00")).2.snapshots "r1" = none ∧
      (applyEvent readings .empty (refund 1 "5.00")).2.snapshots "r1" = some (paid 1) ∧
      ¬ Untouched readings .empty (refund 1 "five") := by
  have hne : (applyEvent readings .empty (refund 1 "five")).2 ≠ .empty := by
    intro h
    have hlength : 1 = 0 := congrArg (fun s => s.events.length) h
    cases hlength
  exact ⟨_, _, rfl, hne, rfl, rfl, fun h => hne (h _ _ rfl)⟩

end Runs

end NexusStudio.Refunds
