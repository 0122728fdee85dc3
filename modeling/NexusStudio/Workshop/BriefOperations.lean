import NexusStudio.Workshop.GenerationSubmit
import Mathlib.Data.List.Forall2

/-!
# The operations that a brief lists

What `list_authorized_operations` reads of a brief before and after an edit. The entry of the operations may hold any JSON,
and what is no record of an operation is not listed.

* (append) What is stored of an operation is read back as it (`parseOperation_record`).
* (consume) A record with the id keeps all but its `consumed_at`; the other items stay (`Marks`).
* (law) `operations_law`; a consumption lists nothing new exactly if it makes no record readable
  (`listed_map_iff`).
-/

namespace NexusStudio.BriefOperations

open JsonText AuthorizedOperations ProjectBrief GenerationSubmit

section Model

variable {ν τ : Type} (iso : τ → String) (str : Value ν → String)

/-- The entry of the operations is absent or a list. -/
def Listing (brief : Fields ν) : Prop := brief.lookup briefKey = none ∨ ∃ l, brief.lookup briefKey = some (.array l)

/-- What a consumption makes of an operation. -/
def mark (operationId : String) (consumedAt : τ) (op : AuthorizedOperation τ) : AuthorizedOperation τ :=
  if op.id = operationId then { op with consumedAt := some consumedAt } else op

/-- A record with the id gets its `consumed_at` and keeps its other fields; any other item stays. -/
def Marks (operationId : String) (consumedAt : τ) (v v' : Value ν) : Prop :=
  hasId str operationId v = false ∧ v' = v ∨
    hasId str operationId v = true ∧ ∃ item item', v = .dict item ∧ v' = .dict item' ∧
      item'.lookup "consumed_at" = some (.string (iso consumedAt)) ∧
      ∀ k, k ≠ "consumed_at" → item'.lookup k = item.lookup k

/-- The operations with the id are marked; the others stay as they were and where they were. -/
structure Consumes (operationId : String) (consumedAt : τ) (before after : List (AuthorizedOperation τ)) : Prop where
  others : after.filter (fun op => op.id ≠ operationId) = before.filter fun op => op.id ≠ operationId
  marked : ∀ op ∈ after, op.id = operationId → op.consumedAt = some consumedAt
  kept : (before.map (mark operationId consumedAt)).Sublist after

end Model

section Proofs

variable {ν τ : Type} {N : Numbers ν} {iso : τ → String} {str : Value ν → String} {int : Value ν → Option Int}
  {fromIso : String → Option τ} {brief brief' : Fields ν} {op : AuthorizedOperation τ} {operationId : String}
  {consumedAt : τ} {item : Fields ν}

/-! ### Records -/

theorem find_capability (c : Capability) :
    capabilities.find? (fun c' => capabilityValue c' = capabilityValue c) = some c := by
  cases c with
  | _ => decide

theorem optionalDate_stringOrNull (hiso : ∀ t, fromIso (iso t) = some t) (date : Option τ) :
    optionalDate str fromIso (some (stringOrNull (date.map iso))) = some date := by
  cases date with
  | none => rfl
  | some t =>
    change (fromIso (iso t)).map some = some (some t)
    rw [hiso]
    rfl

/-- What is stored of an operation is read back. -/
theorem parseOperation_record (hint : ∀ n, int (.number (N.ofInt n)) = some n) (hiso : ∀ t, fromIso (iso t) = some t)
    (op : AuthorizedOperation τ) : parseOperation str int fromIso (.dict (record N iso op)) = some op := by
  have hlookup : ∀ k, (record N iso op).lookup k =
      if k = "revoked_at" then some (stringOrNull (op.revokedAt.map iso))
      else if k = "consumed_at" then some (stringOrNull (op.consumedAt.map iso))
      else if k = "granted_at" then some (.string (iso op.grantedAt))
      else if k = "granted_by" then some (.number (N.ofInt op.grantedBy))
      else if k = "payload_hash" then some (.string op.payloadHash)
      else if k = "operation_kind" then some (.string op.operationKind)
      else if k = "capability" then some (.string (capabilityValue op.capability))
      else if k = "task_id" then some (.string op.taskId)
      else if k = "id" then some (.string op.id) else none := by
    intro k
    simp only [record, fieldsOf, List.foldl_cons, List.foldl_nil, lookup_insertField, List.lookup_nil]
  simp [parseOperation, hlookup, text, hint, hiso, optionalDate_stringOrNull hiso, find_capability]

/-- A record is read by its fields. -/
theorem parseOperation_marked {item' : Fields ν} (hiso : ∀ t, fromIso (iso t) = some t)
    (hmark : item'.lookup "consumed_at" = some (.string (iso consumedAt)))
    (hothers : ∀ k, k ≠ "consumed_at" → item'.lookup k = item.lookup k) :
    (∀ op, parseOperation str int fromIso (.dict item) = some op →
      parseOperation str int fromIso (.dict item') = some { op with consumedAt := some consumedAt }) ∧
    ∀ op, parseOperation str int fromIso (.dict item') = some op → op.consumedAt = some consumedAt := by
  have hdate : optionalDate str fromIso (some (.string (iso consumedAt))) = some (some consumedAt) := by
    change (fromIso (iso consumedAt)).map some = some (some consumedAt)
    rw [hiso]
    rfl
  have hfields : ∀ k ∈ ["capability", "id", "task_id", "operation_kind", "payload_hash", "granted_by", "granted_at",
      "revoked_at"], item'.lookup k = item.lookup k := by
    intro k hk
    refine hothers k fun hconsumed => ?_
    subst hconsumed
    exact absurd hk (by decide)
  simp only [List.forall_mem_cons, List.not_mem_nil, false_implies, implies_true, and_true] at hfields
  obtain ⟨hcapability, hid, htaskId, hkind, hhash, hgrantedBy, hgrantedAt, hrevokedAt⟩ := hfields
  simp only [parseOperation, Option.bind_eq_bind, Option.bind_eq_some_iff, Option.pure_def, hcapability, hid, htaskId,
    hkind, hhash, hgrantedBy, hgrantedAt, hrevokedAt, hmark, hdate]
  constructor
  · rintro op ⟨capability, hc, id, hi, taskId, ht, kind, hk, hash, hh, by', hb, at', ha, _, _, revoked, hr, hop⟩
    cases hop
    exact ⟨capability, hc, id, hi, taskId, ht, kind, hk, hash, hh, by', hb, at', ha, _, rfl, revoked, hr, rfl⟩
  · rintro op ⟨capability, -, id, -, taskId, -, kind, -, hash, -, by', -, at', -, date, hdate', revoked, -, hop⟩
    cases hop
    exact (Option.some.inj hdate').symm

/-! ### Lists -/

theorem items_of_listing (h : Listing brief) : (brief.lookup briefKey).getD (.array []) = .array (items brief) := by
  rcases h with h | ⟨l, h⟩
  · rw [items, h]
    rfl
  · rw [items, h]
    rfl

theorem appendAuthorizedOperation_eq (h : Listing brief) (op : AuthorizedOperation τ) :
    appendAuthorizedOperation N iso op brief =
      some (insertField briefKey (.array (items brief ++ [.dict (record N iso op)])) brief) := by
  rw [appendAuthorizedOperation, items_of_listing h]
  rfl

/-- A consumption raises exactly if no record has the id. -/
theorem consumeOperation_eq (h : Listing brief) (operationId : String) (consumedAt : τ) :
    consumeOperation iso str operationId consumedAt brief =
      if (items brief).any (hasId str operationId) then
        some (insertField briefKey (.array ((items brief).map (patch iso str operationId consumedAt))) brief)
      else none := by
  rw [consumeOperation, items_of_listing h]

theorem marks_patch (v : Value ν) : Marks iso str operationId consumedAt v (patch iso str operationId consumedAt v) := by
  cases v with
  | dict item =>
    by_cases hid : idOf str item = operationId
    · refine .inr ⟨decide_eq_true hid, item, _, rfl, if_pos hid, lookup_insertField_self, fun k hk => ?_⟩
      exact lookup_insertField_of_ne hk
    · exact .inl ⟨decide_eq_false hid, if_neg hid⟩
  | _ => exact .inl ⟨rfl, rfl⟩

theorem marks_items (h : consumeOperation iso str operationId consumedAt brief = some brief') :
    List.Forall₂ (Marks iso str operationId consumedAt) (items brief) (items brief') := by
  rw [(items_consumeOperation h).2, List.forall₂_map_right_iff, List.forall₂_same]
  exact fun v _ => marks_patch v

/-- What is listed of an item that a consumption leaves or marks. -/
theorem parse_of_marks (hiso : ∀ t, fromIso (iso t) = some t) {v v' : Value ν}
    (h : Marks iso str operationId consumedAt v v') :
    (∀ op, parseOperation str int fromIso v = some op →
      parseOperation str int fromIso v' = some (mark operationId consumedAt op)) ∧
    (∀ op, parseOperation str int fromIso v' = some op → op.id = operationId → op.consumedAt = some consumedAt) ∧
    ∀ op, parseOperation str int fromIso v' = some op → op.id ≠ operationId →
      parseOperation str int fromIso v = some op := by
  rcases h with ⟨hnot, rfl⟩ | ⟨hhas, item, item', rfl, rfl, hmark, hothers⟩
  · have hid : ∀ op, parseOperation str int fromIso v' = some op → op.id ≠ operationId := by
      intro op hop heq
      cases v' with
      | dict item => exact of_decide_eq_false hnot ((parseOperation_dict hop).1.symm.trans heq)
      | _ => cases hop
    refine ⟨fun op hop => ?_, fun op hop heq => absurd heq (hid op hop), fun op hop _ => hop⟩
    rw [hop, mark, if_neg (hid op hop)]
  · have hid : idOf str item = operationId := of_decide_eq_true hhas
    have hid' : idOf str item' = operationId := by
      rw [← hid, idOf, idOf, hothers "id" (by decide)]
    refine ⟨fun op hop => ?_, fun op hop _ => (parseOperation_marked hiso hmark hothers).2 op hop, fun op hop hne => ?_⟩
    · rw [(parseOperation_marked hiso hmark hothers).1 op hop, mark, if_pos ((parseOperation_dict hop).1.trans hid)]
    · exact absurd ((parseOperation_dict hop).1.trans hid') hne

theorem mark_id (operationId : String) (consumedAt : τ) (op : AuthorizedOperation τ) :
    (mark operationId consumedAt op).id = op.id := by
  unfold mark
  split <;> rfl

theorem consumes_of_marks (hiso : ∀ t, fromIso (iso t) = some t) {l l' : List (Value ν)}
    (h : List.Forall₂ (Marks iso str operationId consumedAt) l l') :
    Consumes operationId consumedAt (l.filterMap (parseOperation str int fromIso))
      (l'.filterMap (parseOperation str int fromIso)) := by
  induction h with
  | nil => exact ⟨rfl, fun op hop => absurd hop List.not_mem_nil, .slnil⟩
  | @cons v v' l l' hv _ ih =>
    have hread : ∀ op, parseOperation str int fromIso v = some op →
      parseOperation str int fromIso v' = some (mark operationId consumedAt op) := (parse_of_marks hiso hv).1
    have hdate : ∀ op, parseOperation str int fromIso v' = some op → op.id = operationId →
      op.consumedAt = some consumedAt := (parse_of_marks hiso hv).2.1
    have hback : ∀ op, parseOperation str int fromIso v' = some op → op.id ≠ operationId →
      parseOperation str int fromIso v = some op := (parse_of_marks hiso hv).2.2
    cases hparse : parseOperation str int fromIso v with
    | none =>
      rw [List.filterMap_cons_none hparse]
      cases hparse' : parseOperation str int fromIso v' with
      | none =>
        rw [List.filterMap_cons_none hparse']
        exact ih
      | some op =>
        -- the mark makes the record readable
        rw [List.filterMap_cons_some hparse']
        have hid : op.id = operationId := by
          by_contra hne
          cases hparse.symm.trans (hback op hparse' hne)
        refine ⟨?_, fun op' hop' hid' => ?_, ih.kept.cons op⟩
        · rw [List.filter_cons_of_neg (by simp [hid])]
          exact ih.others
        · rcases List.mem_cons.1 hop' with rfl | hop'
          · exact hdate op' hparse' hid'
          · exact ih.marked op' hop' hid'
    | some op =>
      have hparse' := hread op hparse
      rw [List.filterMap_cons_some hparse, List.filterMap_cons_some hparse']
      refine ⟨?_, fun op' hop' hid' => ?_, ?_⟩
      · by_cases hid : op.id = operationId
        · rw [List.filter_cons_of_neg (by simp [mark_id, hid]), List.filter_cons_of_neg (by simp [hid])]
          exact ih.others
        · rw [List.filter_cons_of_pos (by simp [mark_id, hid]), List.filter_cons_of_pos (by simp [hid]), mark, if_neg hid,
            ih.others]
      · rcases List.mem_cons.1 hop' with rfl | hop'
        · exact hdate _ hparse' hid'
        · exact ih.marked op' hop' hid'
      · rw [List.map_cons]
        exact ih.kept.cons_cons _

/-- For every brief whose operations are absent or a list: an append lists the operation after the old ones; a consumption
raises exactly if no record has the id, and else marks the records and the listed operations with that id and leaves
every other item and every other listed operation as it was. Both leave the other entries of the brief. -/
theorem operations_law (N : Numbers ν) (iso : τ → String) (str : Value ν → String) (int : Value ν → Option Int)
    (fromIso : String → Option τ) (hint : ∀ n, int (.number (N.ofInt n)) = some n)
    (hiso : ∀ t, fromIso (iso t) = some t) (brief : Fields ν) (h : Listing brief) :
    (∀ op, ∃ brief', appendAuthorizedOperation N iso op brief = some brief' ∧
      listAuthorizedOperations str int fromIso brief' = listAuthorizedOperations str int fromIso brief ++ [op] ∧
      ∀ k, k ≠ briefKey → brief'.lookup k = brief.lookup k) ∧
    ∀ operationId consumedAt,
      (consumeOperation iso str operationId consumedAt brief = none ↔ ∀ v ∈ items brief, hasId str operationId v = false) ∧
      ∀ brief', consumeOperation iso str operationId consumedAt brief = some brief' →
        List.Forall₂ (Marks iso str operationId consumedAt) (items brief) (items brief') ∧
        Consumes operationId consumedAt (listAuthorizedOperations str int fromIso brief)
          (listAuthorizedOperations str int fromIso brief') ∧
        ∀ k, k ≠ briefKey → brief'.lookup k = brief.lookup k := by
  refine ⟨fun op => ?_, fun operationId consumedAt => ⟨?_, fun brief' hconsume => ?_⟩⟩
  · refine ⟨_, appendAuthorizedOperation_eq h op, ?_, fun k hk => lookup_insertField_of_ne hk⟩
    rw [listAuthorizedOperations, items_insertField, List.filterMap_append, List.filterMap_cons_some
      (parseOperation_record hint hiso op)]
    rfl
  · rw [consumeOperation_eq h]
    split
    · next hany =>
      obtain ⟨v, hv, hid⟩ := List.any_eq_true.1 hany
      exact ⟨nofun, fun hnone => absurd ((hnone v hv).symm.trans hid) Bool.false_ne_true⟩
    · next hany =>
      exact iff_of_true rfl fun v hv => Bool.eq_false_iff.2 fun hid => hany (List.any_eq_true.2 ⟨v, hv, hid⟩)
  · refine ⟨marks_items hconsume, consumes_of_marks hiso (marks_items hconsume), fun k hk => ?_⟩
    rw [consumeOperation_eq h] at hconsume
    obtain ⟨-, hbrief⟩ := Option.ite_none_right_eq_some.1 hconsume
    rw [← Option.some.inj hbrief]
    exact lookup_insertField_of_ne hk

/-! ### Unreadable records -/

theorem countP_eq_iff {α : Type*} {p q : α → Bool} {l : List α} (h : ∀ a ∈ l, p a = true → q a = true) :
    l.countP q = l.countP p ↔ ∀ a ∈ l, q a = true → p a = true := by
  induction l with
  | nil => simp
  | cons a l ih =>
    have hl : ∀ b ∈ l, p b = true → q b = true := fun b hb => h b (List.mem_cons_of_mem a hb)
    have hle := List.countP_mono_left hl
    rw [List.forall_mem_cons, ← ih hl]
    by_cases hp : p a = true
    · rw [List.countP_cons_of_pos hp, List.countP_cons_of_pos (h a List.mem_cons_self hp)]
      simp [hp]
    · by_cases hq : q a = true
      · rw [List.countP_cons_of_neg hp, List.countP_cons_of_pos hq]
        simp only [hq, hp, true_implies, Bool.false_eq_true, false_and, iff_false]
        omega
      · rw [List.countP_cons_of_neg hp, List.countP_cons_of_neg hq]
        simp [hq]

/-- The listed operations with their marks are all that is listed after a consumption, unless it makes a record readable
whose `consumed_at` was no date. -/
theorem listed_map_iff (hiso : ∀ t, fromIso (iso t) = some t)
    (h : consumeOperation iso str operationId consumedAt brief = some brief') :
    listAuthorizedOperations str int fromIso brief' =
        (listAuthorizedOperations str int fromIso brief).map (mark operationId consumedAt) ↔
      ∀ v ∈ items brief, (parseOperation str int fromIso (patch iso str operationId consumedAt v)).isSome = true →
        (parseOperation str int fromIso v).isSome = true := by
  have hconsumes : Consumes operationId consumedAt (listAuthorizedOperations str int fromIso brief)
    (listAuthorizedOperations str int fromIso brief') := consumes_of_marks hiso (marks_items h)
  have hlength : ∀ l : List (Value ν), (l.filterMap (parseOperation str int fromIso)).length =
      l.countP fun v => (parseOperation str int fromIso v).isSome := fun l => List.length_filterMap_eq_countP
  have hreadable : ∀ v ∈ items brief, (parseOperation str int fromIso v).isSome = true →
      (parseOperation str int fromIso (patch iso str operationId consumedAt v)).isSome = true := by
    intro v _ hv
    obtain ⟨op, hop⟩ := Option.isSome_iff_exists.1 hv
    rw [(parse_of_marks hiso (marks_patch v)).1 op hop]
    rfl
  rw [← countP_eq_iff hreadable]
  have hafter : (listAuthorizedOperations str int fromIso brief').length =
      (items brief).countP fun v => (parseOperation str int fromIso (patch iso str operationId consumedAt v)).isSome := by
    rw [listAuthorizedOperations, hlength, (items_consumeOperation h).2, List.countP_map]
    rfl
  have hbefore : (listAuthorizedOperations str int fromIso brief).length =
      (items brief).countP fun v => (parseOperation str int fromIso v).isSome := hlength _
  rw [← hafter, ← hbefore]
  constructor
  · intro heq
    rw [heq, List.length_map]
  · intro hlen
    refine (hconsumes.kept.eq_of_length ?_).symm
    rw [List.length_map]
    exact hlen.symm

end Proofs

/-! ### A brief with two operations -/

/-- Two instants with their texts. -/
def isoText : Bool → String
  | false => "2026-07-21T08:00:00+00:00"
  | true => "2026-07-22T08:00:00+00:00"

def fromText (s : String) : Option Bool :=
  if s = isoText false then some false else if s = isoText true then some true else none

def intValue : Value ℤ → Option Int
  | .number n => some n
  | _ => none

def granted (id : String) : AuthorizedOperation Bool :=
  ⟨id, "task", .generationSubmit, "generation_submit", "hash", 1, false, none, none⟩

/-- A brief with two operations, a note among them, and a budget. -/
def office : Fields ℤ := [
  ("budget", .number 5),
  ("authorized_operations", .array [.dict (record integers isoText (granted "first")), .string "note",
    .dict (record integers isoText (granted "second"))])]

/-- The consumption of the first operation leaves the second one and the budget. -/
theorem office_consumes : ∃ brief', consumeOperation isoText (fun _ => "") "first" true office = some brief' ∧
    Consumes "first" true (listAuthorizedOperations (fun _ => "") intValue fromText office)
      (listAuthorizedOperations (fun _ => "") intValue fromText brief') ∧
    brief'.lookup "budget" = some (.number 5) := by
  have hiso : ∀ t, fromText (isoText t) = some t := by decide
  have hlaw := operations_law integers isoText (fun _ => "") intValue fromText (fun _ => rfl) hiso office (.inr ⟨_, rfl⟩)
  obtain ⟨brief', hconsume⟩ : ∃ brief', consumeOperation isoText (fun _ => "") "first" true office = some brief' :=
    ⟨_, rfl⟩
  obtain ⟨-, hconsumes, hothers⟩ := (hlaw.2 "first" true).2 brief' hconsume
  exact ⟨brief', hconsume, hconsumes, hothers "budget" (by decide)⟩

end NexusStudio.BriefOperations
