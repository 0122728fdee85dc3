import Mathlib.Data.List.Range
import Mathlib.Data.Nat.Find
import Mathlib.Order.Basic

/-!
# Import of report rows

`import_normalized_rows` takes the rows of a report that are valid and whose natural key has not been seen.

* (keys) The natural key of a row is a text: its parts with colons between them, `_` for a part that is not there.
* (rows) Each index gets a row or an error; a valid row gets an error exactly if an earlier valid row has its key text
  (`run_eq`).
* (parts) These are the rows with the parts of an earlier one exactly if rows with one key text have the same parts.
-/

namespace NexusStudio.ReportImport

/-! ### Rows -/

inductive NormalizedReportType
  | TAOBAO_ORDER_LINE
  | TAOBAO_PRODUCT_DAILY
  | TAOBAO_INVENTORY_SNAPSHOT
  | TAOBAO_ADS_DAILY
  deriving DecidableEq, Repr

/-- `datetime.datetime`, its offset from UTC in microseconds. -/
structure Datetime where
  year : Nat
  month : Nat
  day : Nat
  hour : Nat
  minute : Nat
  second : Nat
  microsecond : Nat
  utcoffset : Option Int
  deriving DecidableEq, Repr

/-- A number with leading zeros. -/
def zeroFilled (width n : Nat) : String :=
  let digits := toString n
  String.ofList (List.replicate (width - digits.length) '0') ++ digits

def offsetText (offset : Int) : String :=
  let n := offset.natAbs
  let seconds := n / 1000000 % 60
  let micros := n % 1000000
  (if offset < 0 then "-" else "+") ++ zeroFilled 2 (n / 3600000000) ++ ":" ++ zeroFilled 2 (n / 60000000 % 60) ++
    (if seconds = 0 ∧ micros = 0 then "" else
      ":" ++ zeroFilled 2 seconds ++ if micros = 0 then "" else "." ++ zeroFilled 6 micros)

def Datetime.isoformat (d : Datetime) : String :=
  zeroFilled 4 d.year ++ "-" ++ zeroFilled 2 d.month ++ "-" ++ zeroFilled 2 d.day ++ "T" ++ zeroFilled 2 d.hour ++ ":" ++
    zeroFilled 2 d.minute ++ ":" ++ zeroFilled 2 d.second ++
    (if d.microsecond = 0 then "" else "." ++ zeroFilled 6 d.microsecond) ++ (d.utcoffset.map offsetText).getD ""

/-- The rows have more fields, of a type `μ`, that the import does not read. -/
structure TaobaoOrderLineNormalized (μ : Type) where
  orderId : String
  skuId : String
  createdAt : Datetime
  fields : μ

structure TaobaoProductDailyNormalized (μ : Type) where
  statDate : String
  itemId : String
  skuId : Option String
  fields : μ

structure TaobaoInventorySnapshotNormalized (μ : Type) where
  snapshotAt : Datetime
  skuId : String
  fields : μ

structure TaobaoAdsDailyNormalized (μ : Type) where
  statDate : String
  campaignId : String
  adGroupId : Option String
  fields : μ

/-- `_REPORT_MODELS`. -/
def Row (μ : Type) : NormalizedReportType → Type
  | .TAOBAO_ORDER_LINE => TaobaoOrderLineNormalized μ
  | .TAOBAO_PRODUCT_DAILY => TaobaoProductDailyNormalized μ
  | .TAOBAO_INVENTORY_SNAPSHOT => TaobaoInventorySnapshotNormalized μ
  | .TAOBAO_ADS_DAILY => TaobaoAdsDailyNormalized μ

/-- `value or "_"`. -/
def orUnderscore (s : Option String) : String := (s.filter (· ≠ "")).getD "_"

/-- `_natural_key`. -/
def naturalKey {μ : Type} : (t : NormalizedReportType) → Row μ t → String
  | .TAOBAO_ORDER_LINE, (row : TaobaoOrderLineNormalized μ) =>
    row.orderId ++ ":" ++ row.skuId ++ ":" ++ row.createdAt.isoformat
  | .TAOBAO_PRODUCT_DAILY, (row : TaobaoProductDailyNormalized μ) =>
    row.statDate ++ ":" ++ row.itemId ++ ":" ++ orUnderscore row.skuId
  | .TAOBAO_INVENTORY_SNAPSHOT, (row : TaobaoInventorySnapshotNormalized μ) =>
    row.snapshotAt.isoformat ++ ":" ++ row.skuId
  | .TAOBAO_ADS_DAILY, (row : TaobaoAdsDailyNormalized μ) =>
    row.statDate ++ ":" ++ row.campaignId ++ ":" ++ orUnderscore row.adGroupId

def Parts : NormalizedReportType → Type
  | .TAOBAO_ORDER_LINE => String × String × Datetime
  | .TAOBAO_PRODUCT_DAILY => String × String × Option String
  | .TAOBAO_INVENTORY_SNAPSHOT => Datetime × String
  | .TAOBAO_ADS_DAILY => String × String × Option String

/-- The parts of the natural key as a tuple. -/
def parts {μ : Type} : (t : NormalizedReportType) → Row μ t → Parts t
  | .TAOBAO_ORDER_LINE, (row : TaobaoOrderLineNormalized μ) => (row.orderId, row.skuId, row.createdAt)
  | .TAOBAO_PRODUCT_DAILY, (row : TaobaoProductDailyNormalized μ) => (row.statDate, row.itemId, row.skuId)
  | .TAOBAO_INVENTORY_SNAPSHOT, (row : TaobaoInventorySnapshotNormalized μ) => (row.snapshotAt, row.skuId)
  | .TAOBAO_ADS_DAILY, (row : TaobaoAdsDailyNormalized μ) => (row.statDate, row.campaignId, row.adGroupId)

/-- The key text is made of the parts. -/
theorem naturalKey_eq_of_parts {μ : Type} {t : NormalizedReportType} {row row' : Row μ t}
    (h : parts t row = parts t row') : naturalKey t row = naturalKey t row' := by
  cases t with
  | TAOBAO_ORDER_LINE | TAOBAO_PRODUCT_DAILY | TAOBAO_ADS_DAILY =>
    obtain ⟨h₁, h⟩ := Prod.mk.inj h
    obtain ⟨h₂, h₃⟩ := Prod.mk.inj h
    simp only [naturalKey, h₁, h₂, h₃]
  | TAOBAO_INVENTORY_SNAPSHOT =>
    obtain ⟨h₁, h₂⟩ := Prod.mk.inj h
    simp only [naturalKey, h₁, h₂]

/-! ### The import -/

structure RowImportError where
  rowIndex : Nat
  code : String
  message : String
  deriving DecidableEq, Repr

structure ImportResult (α : Type) where
  reportType : Option NormalizedReportType
  status : String
  acceptedRows : Nat
  rejectedRows : Nat
  rows : List α
  errors : List RowImportError

/-- What the loop over the rows has so far. -/
structure Importing (α : Type) where
  accepted : List α
  errors : List RowImportError
  seenKeys : List String

def validationError (index : Nat) (message : String) : RowImportError := ⟨index, "validation_error", message⟩

def duplicateError (index : Nat) (key : String) : RowImportError :=
  ⟨index, "duplicate_natural_key", "duplicate key: " ++ key⟩

section Import

variable {ρ α : Type} (validate : ρ → Except String α) (key : α → String)

/-- One round of the loop. -/
def importRow (s : Importing α) (raw : ρ × Nat) : Importing α :=
  match validate raw.1 with
  | .error message => { s with errors := s.errors ++ [validationError raw.2 message] }
  | .ok row =>
    if key row ∈ s.seenKeys then { s with errors := s.errors ++ [duplicateError raw.2 (key row)] }
    else ⟨s.accepted ++ [row], s.errors, s.seenKeys ++ [key row]⟩

def run (rows : List ρ) : Importing α := rows.zipIdx.foldl (importRow validate key) ⟨[], [], []⟩

/-- The valid row at an index. -/
def rowAt (rows : List ρ) (i : Nat) : Option α := rows[i]?.bind fun raw => (validate raw).toOption

/-- An earlier valid row has the key. -/
def Seen (rows : List ρ) (i : Nat) (k : String) : Prop := ∃ j < i, (rowAt validate rows j).map key = some k

instance (rows : List ρ) (i : Nat) (k : String) : Decidable (Seen validate key rows i k) :=
  inferInstanceAs (Decidable (∃ j < i, (rowAt validate rows j).map key = some k))

/-- The row that an index gives. -/
def acceptedAt (rows : List ρ) (i : Nat) : Option α :=
  (rowAt validate rows i).filter fun row => ¬ Seen validate key rows i (key row)

/-- The error that an index gives. -/
def errorAt (rows : List ρ) (i : Nat) : Option RowImportError :=
  rows[i]?.bind fun raw =>
    match validate raw with
    | .error message => some (validationError i message)
    | .ok row => if Seen validate key rows i (key row) then some (duplicateError i (key row)) else none

end Import

/-! ### What each index gives -/

section Indices

variable {ρ α : Type} {validate : ρ → Except String α} {key : α → String} {rows : List ρ} {raw : ρ} {i : Nat}

theorem rowAt_append (h : i < rows.length) : rowAt validate (rows ++ [raw]) i = rowAt validate rows i := by
  rw [rowAt, List.getElem?_append_left h, rowAt]

theorem rowAt_length (rows : List ρ) (raw : ρ) :
    rowAt validate (rows ++ [raw]) rows.length = (validate raw).toOption := by
  rw [rowAt, List.getElem?_concat_length]
  rfl

theorem seen_append (h : i ≤ rows.length) (k : String) :
    Seen validate key (rows ++ [raw]) i k ↔ Seen validate key rows i k :=
  exists_congr fun j => and_congr_right fun hj => by rw [rowAt_append (Nat.lt_of_lt_of_le hj h)]

theorem acceptedAt_append (h : i < rows.length) :
    acceptedAt validate key (rows ++ [raw]) i = acceptedAt validate key rows i := by
  rw [acceptedAt, acceptedAt, rowAt_append h]
  simp only [seen_append (Nat.le_of_lt h)]

theorem errorAt_append (h : i < rows.length) :
    errorAt validate key (rows ++ [raw]) i = errorAt validate key rows i := by
  rw [errorAt, errorAt, List.getElem?_append_left h]
  simp only [seen_append (Nat.le_of_lt h)]

theorem errorAt_length_error {message : String} (h : validate raw = .error message) :
    errorAt validate key (rows ++ [raw]) rows.length = some (validationError rows.length message) := by
  rw [errorAt, List.getElem?_concat_length, Option.bind_some, h]

theorem errorAt_length_ok {row : α} (h : validate raw = .ok row) :
    errorAt validate key (rows ++ [raw]) rows.length =
      if Seen validate key rows rows.length (key row) then some (duplicateError rows.length (key row)) else none := by
  rw [errorAt, List.getElem?_concat_length, Option.bind_some, h]
  simp only [seen_append (Nat.le_refl rows.length)]

theorem acceptedAt_eq_some {row : α} :
    acceptedAt validate key rows i = some row ↔
      rowAt validate rows i = some row ∧ ¬ Seen validate key rows i (key row) := by
  rw [acceptedAt, Option.filter_eq_some_iff, decide_eq_true_eq]

/-- The first valid row with a key is accepted. -/
theorem exists_accepted {k : String} (h : Seen validate key rows i k) :
    ∃ j < i, ∃ row, acceptedAt validate key rows j = some row ∧ key row = k := by
  classical
  obtain ⟨hlt, hkey⟩ := Nat.find_spec h
  obtain ⟨row, hrow, hk⟩ := Option.map_eq_some_iff.1 hkey
  refine ⟨Nat.find h, hlt, row, acceptedAt_eq_some.2 ⟨hrow, fun hseen => ?_⟩, hk⟩
  obtain ⟨j, hj, hjkey⟩ := hseen
  exact Nat.find_min h hj ⟨hj.trans hlt, hk ▸ hjkey⟩

theorem mem_seenKeys {k : String} :
    k ∈ ((List.range i).filterMap (acceptedAt validate key rows)).map key ↔ Seen validate key rows i k := by
  constructor
  · intro h
    obtain ⟨row, hrow, rfl⟩ := List.mem_map.1 h
    obtain ⟨j, hj, hacc⟩ := List.mem_filterMap.1 hrow
    exact ⟨j, List.mem_range.1 hj, by rw [(acceptedAt_eq_some.1 hacc).1, Option.map_some]⟩
  · intro h
    obtain ⟨j, hj, row, hacc, rfl⟩ := exists_accepted h
    exact List.mem_map_of_mem (List.mem_filterMap.2 ⟨j, List.mem_range.2 hj, hacc⟩)

theorem run_append (rows : List ρ) (raw : ρ) :
    run validate key (rows ++ [raw]) = importRow validate key (run validate key rows) (raw, rows.length) := by
  rw [run, List.zipIdx_append, List.foldl_append, Nat.zero_add]
  rfl

/-- The loop gives the accepted rows and the errors of the indices in their order. -/
theorem run_eq (rows : List ρ) :
    run validate key rows =
      ⟨(List.range rows.length).filterMap (acceptedAt validate key rows),
        (List.range rows.length).filterMap (errorAt validate key rows),
        ((List.range rows.length).filterMap (acceptedAt validate key rows)).map key⟩ := by
  induction rows using List.reverseRecOn with
  | nil => rfl
  | append_singleton rows raw ih =>
    have haccepted : (List.range rows.length).filterMap (acceptedAt validate key (rows ++ [raw])) =
        (List.range rows.length).filterMap (acceptedAt validate key rows) :=
      List.filterMap_congr fun i hi => acceptedAt_append (List.mem_range.1 hi)
    have herrors : (List.range rows.length).filterMap (errorAt validate key (rows ++ [raw])) =
        (List.range rows.length).filterMap (errorAt validate key rows) :=
      List.filterMap_congr fun i hi => errorAt_append (List.mem_range.1 hi)
    have hseen : ∀ k, Seen validate key (rows ++ [raw]) rows.length k ↔ Seen validate key rows rows.length k :=
      seen_append (Nat.le_refl rows.length)
    have hrow : rowAt validate (rows ++ [raw]) rows.length = (validate raw).toOption := rowAt_length rows raw
    rw [run_append, ih, List.length_append, List.length_singleton, List.range_succ, List.filterMap_append,
      List.filterMap_append, haccepted, herrors, importRow]
    simp only [List.filterMap_cons, List.filterMap_nil]
    cases hraw : validate raw with
    | error message =>
      have hnone : acceptedAt validate key (rows ++ [raw]) rows.length = none := by
        rw [acceptedAt, hrow, hraw]
        rfl
      simp only [errorAt_length_error hraw, hnone, List.append_nil]
    | ok row =>
      have herror : errorAt validate key (rows ++ [raw]) rows.length = _ := errorAt_length_ok hraw
      rw [hraw] at hrow
      simp only [mem_seenKeys]
      by_cases h : Seen validate key rows rows.length (key row)
      · have hnone : acceptedAt validate key (rows ++ [raw]) rows.length = none := by
          rw [Option.eq_none_iff_forall_ne_some]
          intro row' hrow'
          obtain ⟨hat, hnot⟩ := acceptedAt_eq_some.1 hrow'
          cases hrow.symm.trans hat
          exact hnot ((hseen _).2 h)
        rw [if_pos h] at herror ⊢
        simp only [herror, hnone, List.append_nil]
      · have hsome : acceptedAt validate key (rows ++ [raw]) rows.length = some row :=
          acceptedAt_eq_some.2 ⟨hrow, fun hs => h ((hseen _).1 hs)⟩
        rw [if_neg h] at herror ⊢
        simp only [herror, hsome, List.append_nil, List.map_append, List.map_cons, List.map_nil]

theorem rowIndex_errorAt {e : RowImportError} (h : errorAt validate key rows i = some e) : e.rowIndex = i := by
  obtain ⟨raw, -, he⟩ := Option.bind_eq_some_iff.1 h
  split at he
  · cases he
    rfl
  · obtain ⟨-, he⟩ := Option.ite_none_right_eq_some.1 he
    cases he
    rfl

/-- An index without an error gives a valid row whose key has not been seen. -/
theorem errorAt_eq_none (h : i < rows.length) :
    errorAt validate key rows i = none ↔ ∃ row, acceptedAt validate key rows i = some row := by
  have hget : rows[i]? = some rows[i] := List.getElem?_eq_getElem h
  simp only [acceptedAt_eq_some]
  rw [errorAt, rowAt, hget, Option.bind_some, Option.bind_some]
  cases hraw : validate rows[i] with
  | error message => simp [Except.toOption]
  | ok row => simp [Except.toOption]

/-- A valid row gets an error exactly if its key has been seen, and then for this reason. -/
theorem errorAt_of_valid {row : α} (h : rowAt validate rows i = some row) :
    errorAt validate key rows i =
      if Seen validate key rows i (key row) then some (duplicateError i (key row)) else none := by
  obtain ⟨raw, hget, hrow⟩ := Option.bind_eq_some_iff.1 h
  rw [errorAt, hget, Option.bind_some]
  cases hraw : validate raw with
  | error message =>
    rw [hraw] at hrow
    cases hrow
  | ok row' =>
    rw [hraw] at hrow
    cases hrow
    rfl

theorem rowAt_isSome (h : i < rows.length) (hnone : errorAt validate key rows i = none) :
    (rowAt validate rows i).isSome := by
  obtain ⟨row, hrow⟩ := (errorAt_eq_none h).1 hnone
  rw [(acceptedAt_eq_some.1 hrow).1]
  rfl

/-- An index gives its valid row if it gives no error. -/
theorem acceptedAt_eq (h : i < rows.length) :
    acceptedAt validate key rows i = if errorAt validate key rows i = none then rowAt validate rows i else none := by
  split
  case isTrue hnone =>
    obtain ⟨row, hrow⟩ := (errorAt_eq_none h).1 hnone
    rw [hrow, (acceptedAt_eq_some.1 hrow).1]
  case isFalse herror =>
    rw [Option.eq_none_iff_forall_ne_some]
    exact fun row hrow => herror ((errorAt_eq_none h).2 ⟨row, hrow⟩)

theorem map_rowIndex (l : List Nat) : (l.filterMap (errorAt validate key rows)).map RowImportError.rowIndex =
    l.filter fun i => (errorAt validate key rows i).isSome := by
  induction l with
  | nil => rfl
  | cons i l ih =>
    cases herror : errorAt validate key rows i with
    | none =>
      rw [List.filterMap_cons_none herror, List.filter_cons_of_neg (by rw [herror]; exact Bool.false_ne_true), ih]
    | some e =>
      rw [List.filterMap_cons_some herror, List.filter_cons_of_pos (by rw [herror]; rfl), List.map_cons,
        rowIndex_errorAt herror, ih]

/-- Each index gives a row or an error. -/
theorem length_add_length {l : List Nat} (hl : ∀ i ∈ l, i < rows.length) :
    (l.filterMap (acceptedAt validate key rows)).length + (l.filterMap (errorAt validate key rows)).length =
      l.length := by
  induction l with
  | nil => rfl
  | cons i l ih =>
    have hi := hl i List.mem_cons_self
    have ih := ih fun j hj => hl j (List.mem_cons_of_mem i hj)
    cases herror : errorAt validate key rows i with
    | none =>
      obtain ⟨row, hrow⟩ := (errorAt_eq_none hi).1 herror
      rw [List.filterMap_cons_none herror, List.filterMap_cons_some hrow, List.length_cons, List.length_cons]
      omega
    | some e =>
      have hnone : acceptedAt validate key rows i = none := by
        rw [acceptedAt_eq hi, herror, if_neg (Option.some_ne_none e)]
      rw [List.filterMap_cons_some herror, List.filterMap_cons_none hnone, List.length_cons, List.length_cons]
      omega

theorem lt_of_rowAt {row : α} (h : rowAt validate rows i = some row) : i < rows.length := by
  obtain ⟨raw, hget, -⟩ := Option.bind_eq_some_iff.1 h
  exact (List.getElem?_eq_some_iff.1 hget).1

end Indices

/-- `import_normalized_rows`; `validate` is `model_validate` of the model of a report type. -/
def importNormalizedRows {ρ μ : Type} (validate : (t : NormalizedReportType) → ρ → Except String (Row μ t))
    (reportType : NormalizedReportType) (rows : List ρ) : ImportResult (Row μ reportType) :=
  let s := run (validate reportType) (naturalKey reportType) rows
  { reportType := some reportType
    status := if s.accepted = [] ∧ s.errors ≠ [] then "rejected" else if s.errors ≠ [] then "partially_accepted"
      else "accepted"
    acceptedRows := s.accepted.length
    rejectedRows := s.errors.length
    rows := s.accepted
    errors := s.errors }

/-! ### Errors and rows -/

section Results

variable {ρ μ : Type} (validate : (t : NormalizedReportType) → ρ → Except String (Row μ t)) (t : NormalizedReportType)
  (rows : List ρ)

/-- The indices of the errors. -/
def ImportResult.rejected {α : Type} (result : ImportResult α) : List Nat := result.errors.map RowImportError.rowIndex

/-- Each index has one error or gives a valid row, and the rows stand in the order of the indices. -/
structure Partitioned (result : ImportResult (Row μ t)) : Prop where
  once : result.rejected.Nodup
  inRange : ∀ i ∈ result.rejected, i < rows.length
  valid : ∀ i < rows.length, i ∉ result.rejected → (rowAt (validate t) rows i).isSome
  rows_eq : result.rows =
    ((List.range rows.length).filter fun i => i ∉ result.rejected).filterMap (rowAt (validate t) rows)
  acceptedRows : result.acceptedRows = result.rows.length
  rejectedRows : result.rejectedRows = result.rejected.length
  total : result.acceptedRows + result.rejectedRows = rows.length

/-- The row of an index is rejected as a duplicate. -/
def Duplicate {α : Type} (result : ImportResult α) (i : Nat) : Prop :=
  ∃ e ∈ result.errors, e.rowIndex = i ∧ e.code = "duplicate_natural_key"

variable {validate t rows}

theorem errors_eq :
    (importNormalizedRows validate t rows).errors =
      (List.range rows.length).filterMap (errorAt (validate t) (naturalKey t) rows) :=
  congrArg Importing.errors (run_eq rows)

theorem rows_eq :
    (importNormalizedRows validate t rows).rows =
      (List.range rows.length).filterMap (acceptedAt (validate t) (naturalKey t) rows) :=
  congrArg Importing.accepted (run_eq rows)

theorem mem_rejected {i : Nat} :
    i ∈ (importNormalizedRows validate t rows).rejected ↔
      i < rows.length ∧ errorAt (validate t) (naturalKey t) rows i ≠ none := by
  rw [ImportResult.rejected, errors_eq]
  constructor
  · intro h
    obtain ⟨e, he, rfl⟩ := List.mem_map.1 h
    obtain ⟨j, hj, herror⟩ := List.mem_filterMap.1 he
    rw [rowIndex_errorAt herror, herror]
    exact ⟨List.mem_range.1 hj, Option.some_ne_none e⟩
  · rintro ⟨hlt, hne⟩
    obtain ⟨e, he⟩ := Option.ne_none_iff_exists'.1 hne
    exact List.mem_map.2 ⟨e, List.mem_filterMap.2 ⟨i, List.mem_range.2 hlt, he⟩, rowIndex_errorAt he⟩

theorem partitioned (validate : (t : NormalizedReportType) → ρ → Except String (Row μ t)) (t : NormalizedReportType)
    (rows : List ρ) : Partitioned validate t rows (importNormalizedRows validate t rows) := by
  have hrejected : (importNormalizedRows validate t rows).rejected =
      (List.range rows.length).filter fun i => (errorAt (validate t) (naturalKey t) rows i).isSome := by
    rw [ImportResult.rejected, errors_eq, map_rowIndex]
  have hnone : ∀ i < rows.length, errorAt (validate t) (naturalKey t) rows i = none ↔
      i ∉ (importNormalizedRows validate t rows).rejected := by
    intro i hi
    rw [mem_rejected, and_iff_right hi, not_not]
  have hrows : (importNormalizedRows validate t rows).rows =
      ((List.range rows.length).filter fun i => i ∉ (importNormalizedRows validate t rows).rejected).filterMap
        (rowAt (validate t) rows) := by
    rw [rows_eq, List.filterMap_filter]
    refine List.filterMap_congr fun i hi => ?_
    rw [acceptedAt_eq (List.mem_range.1 hi)]
    simp only [hnone i (List.mem_range.1 hi), decide_eq_true_eq]
  have htotal : ((List.range rows.length).filterMap (acceptedAt (validate t) (naturalKey t) rows)).length +
      ((List.range rows.length).filterMap (errorAt (validate t) (naturalKey t) rows)).length =
        (List.range rows.length).length :=
    length_add_length fun i hi => List.mem_range.1 hi
  rw [← rows_eq, ← errors_eq, List.length_range] at htotal
  exact ⟨hrejected ▸ List.nodup_range.filter _, fun i hi => (mem_rejected.1 hi).1,
    fun i hi hnot => rowAt_isSome hi ((hnone i hi).2 hnot), hrows, rfl, (List.length_map _).symm, htotal⟩

/-- A valid row is rejected as a duplicate exactly if an earlier valid row has its key text. -/
theorem duplicate_iff {i : Nat} {row : Row μ t} (h : rowAt (validate t) rows i = some row) :
    Duplicate (importNormalizedRows validate t rows) i ↔
      Seen (validate t) (naturalKey t) rows i (naturalKey t row) := by
  rw [Duplicate, errors_eq]
  constructor
  · rintro ⟨e, he, hindex, -⟩
    obtain ⟨j, -, herror⟩ := List.mem_filterMap.1 he
    rw [← rowIndex_errorAt herror, hindex, errorAt_of_valid h] at herror
    exact (Option.ite_none_right_eq_some.1 herror).1
  · intro hseen
    have herror : errorAt (validate t) (naturalKey t) rows i = some (duplicateError i (naturalKey t row)) :=
      (errorAt_of_valid h).trans (if_pos hseen)
    exact ⟨_, List.mem_filterMap.2 ⟨i, List.mem_range.2 (lt_of_rowAt h), herror⟩, rfl, rfl⟩

/-- A valid row is accepted exactly if no earlier valid row has its key text. -/
theorem not_mem_rejected {i : Nat} {row : Row μ t} (h : rowAt (validate t) rows i = some row) :
    i ∉ (importNormalizedRows validate t rows).rejected ↔
      ¬ Seen (validate t) (naturalKey t) rows i (naturalKey t row) := by
  rw [mem_rejected, not_and, not_not, forall_prop_of_true (lt_of_rowAt h), errorAt_of_valid h]
  split
  case isTrue hseen => exact iff_of_false (Option.some_ne_none _) (not_not.2 hseen)
  case isFalse hseen => exact iff_of_true rfl hseen

variable (validate t rows)

/-- The duplicates are the rows with the parts of an earlier accepted row exactly if valid rows with one key text have
the same parts. -/
theorem import_iff :
    (Partitioned validate t rows (importNormalizedRows validate t rows) ∧
      ∀ i row, rowAt (validate t) rows i = some row →
        (Duplicate (importNormalizedRows validate t rows) i ↔
          ∃ j < i, j ∉ (importNormalizedRows validate t rows).rejected ∧
            ∃ row', rowAt (validate t) rows j = some row' ∧ parts t row' = parts t row)) ↔
    ∀ i j row row', rowAt (validate t) rows i = some row → rowAt (validate t) rows j = some row' →
      naturalKey t row = naturalKey t row' → parts t row = parts t row' := by
  constructor
  · rintro ⟨-, hlaw⟩
    -- every row with a key has the parts of the first one
    have hfirst : ∀ i row, rowAt (validate t) rows i = some row → ∀ j row', rowAt (validate t) rows j = some row' →
        ¬ Seen (validate t) (naturalKey t) rows j (naturalKey t row') → naturalKey t row' = naturalKey t row →
        parts t row' = parts t row := by
      intro i row hi j row' hj hnot hkey
      rcases Nat.lt_trichotomy i j with hlt | rfl | hlt
      · exact absurd ⟨i, hlt, by rw [hi, Option.map_some, hkey]⟩ hnot
      · cases hi.symm.trans hj
        rfl
      · have hseen : Seen (validate t) (naturalKey t) rows i (naturalKey t row) :=
          ⟨j, hlt, by rw [hj, Option.map_some, hkey]⟩
        obtain ⟨k, -, hacc, row'', hk, hparts⟩ := (hlaw i row hi).1 ((duplicate_iff hi).2 hseen)
        have hnot' := (not_mem_rejected hk).1 hacc
        have hkey' : naturalKey t row'' = naturalKey t row' := (naturalKey_eq_of_parts hparts).trans hkey.symm
        rcases Nat.lt_trichotomy j k with hjk | rfl | hjk
        · exact absurd ⟨j, hjk, by rw [hj, Option.map_some, hkey']⟩ hnot'
        · cases hj.symm.trans hk
          exact hparts
        · exact absurd ⟨k, hjk, by rw [hk, Option.map_some, hkey']⟩ hnot
    intro i j row row' hi hj hkey
    by_cases hseen : Seen (validate t) (naturalKey t) rows i (naturalKey t row)
    · obtain ⟨k, -, row'', hacc, hk⟩ := exists_accepted hseen
      obtain ⟨hat, hnot⟩ := acceptedAt_eq_some.1 hacc
      exact (hfirst i row hi k row'' hat hnot hk).symm.trans (hfirst j row' hj k row'' hat hnot (hk.trans hkey))
    · exact hfirst j row' hj i row hi hseen hkey
  · intro hparts
    refine ⟨partitioned validate t rows, fun i row hi => (duplicate_iff hi).trans ⟨fun hseen => ?_, ?_⟩⟩
    · obtain ⟨j, hj, row', hacc, hkey⟩ := exists_accepted hseen
      obtain ⟨hat, hnot⟩ := acceptedAt_eq_some.1 hacc
      exact ⟨j, hj, (not_mem_rejected hat).2 hnot, row', hat, hparts j i row' row hat hi hkey⟩
    · rintro ⟨j, hj, -, row', hat, hsame⟩
      exact ⟨j, hj, by rw [hat, Option.map_some, naturalKey_eq_of_parts hsame]⟩

end Results

/-- Product rows that are valid as they are. -/
def validProducts : (t : NormalizedReportType) → TaobaoProductDailyNormalized Unit → Except String (Row Unit t)
  | .TAOBAO_PRODUCT_DAILY, row => .ok row
  | .TAOBAO_ORDER_LINE, _ | .TAOBAO_INVENTORY_SNAPSHOT, _ | .TAOBAO_ADS_DAILY, _ => .error "Field required"

/-- Another product with another SKU is rejected as a duplicate, and so is a row whose SKU is an underscore. -/
theorem import_colon :
    let row (itemId : String) (skuId : Option String) : TaobaoProductDailyNormalized Unit :=
      ⟨"2026-07-01", itemId, skuId, ()⟩
    let rows := [row "a:b" (some "c"), row "a" (some "b:c"), row "d" none, row "d" (some "_")]
    (importNormalizedRows validProducts .TAOBAO_PRODUCT_DAILY rows).errors =
        [⟨1, "duplicate_natural_key", "duplicate key: 2026-07-01:a:b:c"⟩,
          ⟨3, "duplicate_natural_key", "duplicate key: 2026-07-01:d:_"⟩] ∧
      parts .TAOBAO_PRODUCT_DAILY (row "a:b" (some "c")) ≠ parts .TAOBAO_PRODUCT_DAILY (row "a" (some "b:c")) ∧
      parts .TAOBAO_PRODUCT_DAILY (row "d" none) ≠ parts .TAOBAO_PRODUCT_DAILY (row "d" (some "_")) := by
  refine ⟨by decide, fun h => ?_, fun h => ?_⟩
  · exact absurd (congrArg (fun p : String × String × Option String => p.2.1) h) (by decide)
  · exact absurd (congrArg (fun p : String × String × Option String => p.2.2) h) (by decide)

end NexusStudio.ReportImport
