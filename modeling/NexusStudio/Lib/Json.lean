import Mathlib.Data.List.TakeWhile
import Mathlib.Data.List.Basic
import Mathlib.Logic.Function.Basic

/-!
# JSON values and their texts

* (values) Numbers are of any type with a text of their own; a dict has its fields in the order of their keys.
* (dicts) `insertField` sets a key, `ofFields` is a dict display, `List.lookup` reads a key.
* (texts) `write` with sorted keys and no ASCII escapes; no text of a value is the start of the text of another one that
  goes on after a `,`, `]` or `}`, so `write_injective`.
-/

namespace JsonText

/-! ### Values -/

/-- The characters that end a number. -/
def stops : List Char := [',', ']', '\x7d']

/-- The first characters of the other values. -/
def heads : List Char := ['n', 't', 'f', '"', '[', '\x7b']

/-- Numbers with their texts. -/
structure Numbers (ν : Type*) where
  ofInt : Int → ν
  write : ν → List Char
  ofInt_injective : Function.Injective ofInt
  write_injective : Function.Injective write
  chars : ∀ n, ∀ d ∈ write n, d ∉ stops
  first : ∀ n, ∃ d l, write n = d :: l ∧ d ∉ heads

section Integers

theorem toDigits_injective : Function.Injective (Nat.toDigits 10) := by
  intro m n h
  rw [← Nat.ofDigitChars_ten_toDigits (n := m), h, Nat.ofDigitChars_ten_toDigits]

theorem digit_of_mem {n : Nat} {d : Char} (h : d ∈ Nat.toDigits 10 n) : d.isDigit = true :=
  Nat.isDigit_of_mem_toDigits (by decide) (by decide) h

def intText : Int → List Char
  | .ofNat n => Nat.toDigits 10 n
  | .negSucc n => '-' :: Nat.toDigits 10 (n + 1)

theorem intText_injective : Function.Injective intText := by
  have hne : ∀ m n, Nat.toDigits 10 m ≠ '-' :: Nat.toDigits 10 n := fun m n h =>
    absurd (digit_of_mem (h ▸ List.mem_cons_self)) (by decide)
  intro m n h
  cases m with
  | ofNat m =>
    cases n with
    | ofNat n => rw [toDigits_injective h]
    | negSucc n => exact absurd h (hne m (n + 1))
  | negSucc m =>
    cases n with
    | ofNat n => exact absurd h.symm (hne n (m + 1))
    | negSucc n => rw [Nat.succ.inj (toDigits_injective (List.cons.inj h).2)]

theorem intText_char (n : Int) : ∀ d ∈ intText n, d.isDigit = true ∨ d = '-' := by
  intro d hd
  cases n with
  | ofNat n => exact .inl (digit_of_mem hd)
  | negSucc n => exact (List.mem_cons.1 hd).symm.imp_left digit_of_mem

theorem intText_ne_nil (n : Int) : intText n ≠ [] := by
  cases n with
  | ofNat n => exact Nat.toDigits_ne_nil
  | negSucc n => exact List.cons_ne_nil _ _

theorem not_mem_of_isDigit {d : Char} {l : List Char} (h : d.isDigit = true ∨ d = '-')
    (hl : (l.all fun e => !e.isDigit && e != '-') = true) : d ∉ l := by
  intro hd
  obtain ⟨hdigit, hminus⟩ := Bool.and_eq_true_iff.1 (List.all_eq_true.1 hl d hd)
  rcases h with h | h
  · rw [h] at hdigit
    cases hdigit
  · exact bne_iff_ne.1 hminus h

/-- Integers alone. -/
def integers : Numbers Int where
  ofInt := id
  write := intText
  ofInt_injective := Function.injective_id
  write_injective := intText_injective
  chars n d hd := not_mem_of_isDigit (intText_char n d hd) (by decide)
  first n := by
    obtain ⟨d, l, hl⟩ := List.exists_cons_of_ne_nil (intText_ne_nil n)
    exact ⟨d, l, hl, not_mem_of_isDigit (intText_char n d (hl ▸ List.mem_cons_self)) (by decide)⟩

end Integers

inductive Value (ν : Type*)
  | null
  | bool (b : Bool)
  | number (n : ν)
  | string (s : String)
  | array (l : List (Value ν))
  | dict (fields : List (String × Value ν))
  deriving Repr

/-! ### Dicts -/

section Dicts

variable {ν : Type*} {k k' : String} {v : Value ν} {l : List (String × Value ν)}

def insertField (k : String) (v : Value ν) : List (String × Value ν) → List (String × Value ν)
  | [] => [(k, v)]
  | (k', v') :: l =>
    if k < k' then (k, v) :: (k', v') :: l
    else if k = k' then (k, v) :: l
    else (k', v') :: insertField k v l

/-- The fields of a dict display, whose later entries win. -/
def fieldsOf (l : List (String × Value ν)) : List (String × Value ν) :=
  l.foldl (fun d f => insertField f.1 f.2 d) []

theorem lookup_insertField_self : (insertField k v l).lookup k = some v := by
  induction l with
  | nil => simp [insertField]
  | cons f l ih =>
    obtain ⟨k', v'⟩ := f
    rw [insertField]
    split
    case isTrue => simp
    case isFalse =>
      split
      case isTrue => simp
      case isFalse hne =>
        rw [List.lookup_cons, beq_false_of_ne hne]
        exact ih

theorem lookup_insertField_of_ne (h : k' ≠ k) : (insertField k v l).lookup k' = l.lookup k' := by
  induction l with
  | nil => simp [insertField, List.lookup_cons, beq_false_of_ne h]
  | cons f l ih =>
    obtain ⟨k₀, v₀⟩ := f
    rw [insertField]
    split
    case isTrue => rw [List.lookup_cons, beq_false_of_ne h]
    case isFalse =>
      split
      case isTrue he =>
        subst he
        rw [List.lookup_cons, List.lookup_cons, beq_false_of_ne h]
      case isFalse => rw [List.lookup_cons, List.lookup_cons, ih]

theorem lookup_insertField (k k' : String) (v : Value ν) (l : List (String × Value ν)) :
    (insertField k v l).lookup k' = if k' = k then some v else l.lookup k' := by
  split
  case isTrue h => rw [h, lookup_insertField_self]
  case isFalse h => exact lookup_insertField_of_ne h

end Dicts

/-! ### Strings -/

def hexDigit (n : Nat) : Char := if n < 10 then Char.ofNat (48 + n) else Char.ofNat (87 + n)

def hexValue (d : Char) : Nat := if d.toNat < 58 then d.toNat - 48 else d.toNat - 87

def escapeChar (d : Char) : List Char :=
  if d = '"' then ['\\', '"']
  else if d = '\\' then ['\\', '\\']
  else if d = '\n' then ['\\', 'n']
  else if d = '\r' then ['\\', 'r']
  else if d = '\t' then ['\\', 't']
  else if d = '\x08' then ['\\', 'b']
  else if d = '\x0c' then ['\\', 'f']
  else if d.toNat < 32 then ['\\', 'u', '0', '0', hexDigit (d.toNat / 16), hexDigit (d.toNat % 16)]
  else [d]

def escape (l : List Char) : List Char := l.flatMap escapeChar

def writeString (s : String) : List Char := '"' :: (escape s.toList ++ ['"'])

/-- The first character of an escaped text, with what follows it. -/
def unescapeChar : List Char → Option (Char × List Char)
  | '\\' :: 'u' :: '0' :: '0' :: a :: b :: l => some (Char.ofNat (16 * hexValue a + hexValue b), l)
  | '\\' :: 'n' :: l => some ('\n', l)
  | '\\' :: 'r' :: l => some ('\r', l)
  | '\\' :: 't' :: l => some ('\t', l)
  | '\\' :: 'b' :: l => some ('\x08', l)
  | '\\' :: 'f' :: l => some ('\x0c', l)
  | '\\' :: d :: l => some (d, l)
  | '\\' :: [] => none
  | '"' :: _ => none
  | d :: l => some (d, l)
  | [] => none

theorem control_read : ∀ n < 32, 16 * hexValue (hexDigit (n / 16)) + hexValue (hexDigit (n % 16)) = n := by
  decide

theorem unescapeChar_escapeChar (d : Char) (l : List Char) : unescapeChar (escapeChar d ++ l) = some (d, l) := by
  unfold escapeChar
  by_cases h₁ : d = '"'
  · subst h₁
    rfl
  rw [if_neg h₁]
  by_cases h₂ : d = '\\'
  · subst h₂
    rfl
  rw [if_neg h₂]
  by_cases h₃ : d = '\n'
  · subst h₃
    rfl
  rw [if_neg h₃]
  by_cases h₄ : d = '\r'
  · subst h₄
    rfl
  rw [if_neg h₄]
  by_cases h₅ : d = '\t'
  · subst h₅
    rfl
  rw [if_neg h₅]
  by_cases h₆ : d = '\x08'
  · subst h₆
    rfl
  rw [if_neg h₆]
  by_cases h₇ : d = '\x0c'
  · subst h₇
    rfl
  rw [if_neg h₇]
  split
  case isTrue h =>
    rw [List.cons_append, List.cons_append, List.cons_append, List.cons_append, List.cons_append, List.cons_append,
      List.nil_append, unescapeChar, control_read _ h, Char.ofNat_toNat]
  case isFalse =>
    rw [List.singleton_append]
    unfold unescapeChar
    split <;> simp_all

theorem unescapeChar_quote (l : List Char) : unescapeChar ('"' :: l) = none := rfl

/-- A text before its closing quote is the text of one string. -/
theorem escape_cancel {s s' r r' : List Char} (h : escape s ++ '"' :: r = escape s' ++ '"' :: r') : s = s' ∧ r = r' := by
  induction s generalizing s' with
  | nil =>
    cases s' with
    | nil => exact ⟨rfl, (List.cons.inj h).2⟩
    | cons d s' =>
      have hread := unescapeChar_escapeChar d (escape s' ++ '"' :: r')
      rw [escape, escape, List.flatMap_nil, List.flatMap_cons, List.nil_append, List.append_assoc] at h
      rw [escape, ← h, unescapeChar_quote] at hread
      cases hread
  | cons d s ih =>
    have hread := unescapeChar_escapeChar d (escape s ++ '"' :: r)
    rw [escape, List.flatMap_cons, List.append_assoc] at h
    rw [escape, h] at hread
    cases s' with
    | nil => cases hread
    | cons d' s' =>
      rw [escape, List.flatMap_cons, List.append_assoc, unescapeChar_escapeChar] at hread
      obtain ⟨rfl, hrest⟩ := Prod.mk.inj (Option.some.inj hread)
      obtain ⟨rfl, rfl⟩ := ih hrest.symm
      exact ⟨rfl, rfl⟩

theorem writeString_cancel {s s' : String} {r r' : List Char} (h : writeString s ++ r = writeString s' ++ r') :
    s = s' ∧ r = r' := by
  rw [writeString, writeString, List.cons_append, List.cons_append, List.append_assoc, List.append_assoc] at h
  obtain ⟨hs, hr⟩ := escape_cancel (List.cons.inj h).2
  exact ⟨String.toList_inj.1 hs, hr⟩

/-! ### Texts -/

section Texts

variable {ν : Type*} (N : Numbers ν) (space : List Char)

mutual

/-- `json.dumps` with `sort_keys` and `ensure_ascii=False`; `space` follows a comma or a colon. -/
def write : Value ν → List Char
  | .null => ['n', 'u', 'l', 'l']
  | .bool true => ['t', 'r', 'u', 'e']
  | .bool false => ['f', 'a', 'l', 's', 'e']
  | .number n => N.write n
  | .string s => writeString s
  | .array [] => ['[', ']']
  | .array (v :: l) => '[' :: (write v ++ writeItems l)
  | .dict [] => ['\x7b', '\x7d']
  | .dict ((k, v) :: l) => '\x7b' :: (writeString k ++ ':' :: (space ++ (write v ++ writeFields l)))

def writeItems : List (Value ν) → List Char
  | [] => [']']
  | v :: l => ',' :: (space ++ (write v ++ writeItems l))

def writeFields : List (String × Value ν) → List Char
  | [] => ['\x7d']
  | (k, v) :: l => ',' :: (space ++ (writeString k ++ ':' :: (space ++ (write v ++ writeFields l))))

end

/-! ### Texts of different values -/

/-- What follows a value inside of another one. -/
def Stops (r : List Char) : Prop := ∀ d ∈ r.head?, d ∈ stops

def Value.kind : Value ν → Nat
  | .null => 0
  | .bool true => 1
  | .bool false => 2
  | .string _ => 3
  | .array _ => 4
  | .dict _ => 5
  | .number _ => 6

/-- The kind of a value, by the first character of its text. -/
theorem write_head (a : Value ν) : ∃ d l, write N space a = d :: l ∧ heads.idxOf d = a.kind := by
  cases a with
  | null => exact ⟨_, _, rfl, rfl⟩
  | bool b =>
    cases b with
    | true => exact ⟨_, _, rfl, rfl⟩
    | false => exact ⟨_, _, rfl, rfl⟩
  | string s => exact ⟨_, _, rfl, rfl⟩
  | array l =>
    cases l with
    | nil => exact ⟨_, _, rfl, rfl⟩
    | cons v l => exact ⟨_, _, rfl, rfl⟩
  | dict l =>
    cases l with
    | nil => exact ⟨_, _, rfl, rfl⟩
    | cons f l => exact ⟨_, _, rfl, rfl⟩
  | number n =>
    obtain ⟨d, l, hl, hd⟩ := N.first n
    exact ⟨d, l, hl, List.idxOf_eq_length hd⟩

/-- Values of one kind. -/
inductive Alike : Value ν → Value ν → Prop
  | null : Alike .null .null
  | bool (b : Bool) : Alike (.bool b) (.bool b)
  | number (n n' : ν) : Alike (.number n) (.number n')
  | string (s s' : String) : Alike (.string s) (.string s')
  | array (l l' : List (Value ν)) : Alike (.array l) (.array l')
  | dict (l l' : List (String × Value ν)) : Alike (.dict l) (.dict l')

theorem alike_of_kind {a b : Value ν} (h : a.kind = b.kind) : Alike a b := by
  cases a with
  | null => cases b with
    | null => exact .null
    | bool b => cases b <;> cases h
    | _ => cases h
  | bool a => cases b with
    | bool b =>
      obtain rfl : a = b := by
        cases a <;> cases b <;> first | rfl | cases h
      exact .bool a
    | _ => cases a <;> cases h
  | number n => cases b with
    | number n' => exact .number n n'
    | bool b => cases b <;> cases h
    | _ => cases h
  | string s => cases b with
    | string s' => exact .string s s'
    | bool b => cases b <;> cases h
    | _ => cases h
  | array l => cases b with
    | array l' => exact .array l l'
    | bool b => cases b <;> cases h
    | _ => cases h
  | dict l => cases b with
    | dict l' => exact .dict l l'
    | bool b => cases b <;> cases h
    | _ => cases h

theorem alike_of_write {a b : Value ν} {r r' : List Char} (h : write N space a ++ r = write N space b ++ r') :
    Alike a b := by
  obtain ⟨d, l, ha, hd⟩ := write_head N space a
  obtain ⟨d', l', hb, hd'⟩ := write_head N space b
  rw [ha, hb] at h
  exact alike_of_kind (by rw [← hd, ← hd', (List.cons.inj h).1])

/-- No value starts with a closing bracket. -/
theorem not_stops_write (v : Value ν) {r r' : List Char} {d : Char} (hd : d ∈ stops) :
    write N space v ++ r ≠ d :: r' := by
  intro h
  obtain ⟨d', l', hv, hkind⟩ := write_head N space v
  rw [hv] at h
  obtain rfl := (List.cons.inj h).1
  cases v with
  | number n =>
    have hmem : d' ∈ N.write n := by
      rw [show N.write n = d' :: l' from hv]
      exact List.mem_cons_self
    exact N.chars n d' hmem hd
  | bool b =>
    cases b with
    | _ =>
      cases hv
      revert hd
      decide
  | null | string s =>
    cases hv
    revert hd
    decide
  | array l | dict l =>
    cases l with
    | _ =>
      cases hv
      revert hd
      decide

theorem number_cancel {n n' : ν} {r r' : List Char} (hr : Stops r) (hr' : Stops r')
    (h : N.write n ++ r = N.write n' ++ r') : n = n' ∧ r = r' := by
  have htake : ∀ m x, Stops x → (N.write m ++ x).takeWhile (fun d => d ∉ stops) = N.write m := by
    intro m x hx
    rw [List.takeWhile_append_of_pos fun d hd => decide_eq_true (N.chars m d hd)]
    cases x with
    | nil => exact List.append_nil _
    | cons d x =>
      have hd : d ∈ stops := hx d rfl
      rw [List.takeWhile_cons_of_neg, List.append_nil]
      rw [decide_eq_true_eq]
      exact not_not.2 hd
  have hwrite : N.write n = N.write n' := by
    rw [← htake n r hr, ← htake n' r' hr', h]
  refine ⟨N.write_injective hwrite, ?_⟩
  rw [hwrite] at h
  exact List.append_cancel_left h

theorem stops_writeItems (l : List (Value ν)) (r : List Char) : Stops (writeItems N space l ++ r) := by
  cases l with
  | _ =>
    rintro d ⟨⟩
    decide

theorem stops_writeFields (l : List (String × Value ν)) (r : List Char) : Stops (writeFields N space l ++ r) := by
  cases l with
  | _ =>
    rintro d ⟨⟩
    decide

theorem tail_eq {d d' : Char} {x x' r r' : List Char} (h : d :: x ++ r = d' :: x' ++ r') : x ++ r = x' ++ r' :=
  (List.cons.inj h).2

/-- What follows a comma or a colon. -/
theorem after_space {d d' : Char} {x x' y y' r r' : List Char}
    (h : d :: (space ++ (x ++ y)) ++ r = d' :: (space ++ (x' ++ y')) ++ r') : x ++ (y ++ r) = x' ++ (y' ++ r') := by
  have hrest := tail_eq h
  rw [List.append_assoc, List.append_assoc space, List.append_assoc, List.append_assoc x'] at hrest
  exact List.append_cancel_left hrest

mutual

theorem write_cancel (a b : Value ν) {r r' : List Char} (hr : Stops r) (hr' : Stops r')
    (h : write N space a ++ r = write N space b ++ r') : a = b ∧ r = r' := by
  have halike := alike_of_write N space h
  match a with
  | .null =>
    cases halike
    exact ⟨rfl, List.append_cancel_left h⟩
  | .bool a =>
    cases halike
    exact ⟨rfl, List.append_cancel_left h⟩
  | .number n =>
    cases halike with
    | number _ n' =>
      obtain ⟨rfl, rfl⟩ := number_cancel N hr hr' h
      exact ⟨rfl, rfl⟩
  | .string s =>
    cases halike with
    | string _ s' =>
      obtain ⟨rfl, rfl⟩ := writeString_cancel h
      exact ⟨rfl, rfl⟩
  | .array [] =>
    cases halike with
    | array _ l' =>
      cases l' with
      | nil => exact ⟨rfl, List.append_cancel_left h⟩
      | cons v' l' =>
        have hbody := tail_eq h
        rw [List.append_assoc] at hbody
        exact absurd hbody.symm (not_stops_write N space v' (by decide))
  | .array (v :: l) =>
    cases halike with
    | array _ l' =>
      cases l' with
      | nil =>
        have hbody := tail_eq h
        rw [List.append_assoc] at hbody
        exact absurd hbody (not_stops_write N space v (by decide))
      | cons v' l' =>
        have hbody := tail_eq h
        rw [List.append_assoc, List.append_assoc] at hbody
        obtain ⟨rfl, hitems⟩ := write_cancel v v' (stops_writeItems N space l r) (stops_writeItems N space l' r') hbody
        obtain ⟨rfl, rfl⟩ := writeItems_cancel l l' hitems
        exact ⟨rfl, rfl⟩
  | .dict [] =>
    cases halike with
    | dict _ l' =>
      cases l' with
      | nil => exact ⟨rfl, List.append_cancel_left h⟩
      | cons f' l' => exact absurd (List.cons.inj (List.cons.inj h).2).1 (by decide)
  | .dict ((k, v) :: l) =>
    cases halike with
    | dict _ l' =>
      cases l' with
      | nil => exact absurd (List.cons.inj (List.cons.inj h).2).1 (by decide)
      | cons f' l' =>
        obtain ⟨k', v'⟩ := f'
        have hbody := tail_eq h
        rw [List.append_assoc, List.append_assoc] at hbody
        obtain ⟨rfl, hvalue⟩ := writeString_cancel hbody
        obtain ⟨rfl, hfields⟩ := write_cancel v v' (stops_writeFields N space l r) (stops_writeFields N space l' r')
          (after_space space hvalue)
        obtain ⟨rfl, rfl⟩ := writeFields_cancel l l' hfields
        exact ⟨rfl, rfl⟩

theorem writeItems_cancel (l l' : List (Value ν)) {r r' : List Char}
    (h : writeItems N space l ++ r = writeItems N space l' ++ r') : l = l' ∧ r = r' := by
  match l, l' with
  | [], [] => exact ⟨rfl, (List.cons.inj h).2⟩
  | [], v :: l' => exact absurd (List.cons.inj h).1 (by decide)
  | v :: l, [] => exact absurd (List.cons.inj h).1 (by decide)
  | v :: l, v' :: l' =>
    obtain ⟨rfl, hrest⟩ := write_cancel v v' (stops_writeItems N space l r) (stops_writeItems N space l' r')
      (after_space space h)
    obtain ⟨rfl, rfl⟩ := writeItems_cancel l l' hrest
    exact ⟨rfl, rfl⟩

theorem writeFields_cancel (l l' : List (String × Value ν)) {r r' : List Char}
    (h : writeFields N space l ++ r = writeFields N space l' ++ r') : l = l' ∧ r = r' := by
  match l, l' with
  | [], [] => exact ⟨rfl, (List.cons.inj h).2⟩
  | [], f :: l' => exact absurd (List.cons.inj h).1 (by decide)
  | f :: l, [] => exact absurd (List.cons.inj h).1 (by decide)
  | (k, v) :: l, (k', v') :: l' =>
    obtain ⟨rfl, hvalue⟩ := writeString_cancel (after_space space h)
    obtain ⟨rfl, hfields⟩ := write_cancel v v' (stops_writeFields N space l r) (stops_writeFields N space l' r')
      (after_space space hvalue)
    obtain ⟨rfl, rfl⟩ := writeFields_cancel l l' hfields
    exact ⟨rfl, rfl⟩

end

/-- Different values have different texts. -/
theorem write_injective : Function.Injective (write N space) := by
  intro a b h
  have hnil : Stops [] := by
    rintro d ⟨⟩
  exact (write_cancel N space a b hnil hnil (congrArg (· ++ []) h)).1

end Texts

end JsonText
