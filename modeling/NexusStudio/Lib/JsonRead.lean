import Mathlib
import NexusStudio.Lib.Json

/-!
# Reading JSON texts

`json.loads` with strict strings.

* (reader) `readValue`, with `readItems` and `readFields` for what follows an item or a field; the number bounds the
  depth of the calls.
* (round trip) `loads_write`: the text of a value with distinct keys is read back.
* (cut texts) `loads_cut`: a text of a value that is cut before a character beyond ASCII, at its end or with a control
  character in the place of the cut, is not read.
-/

namespace JsonText

/-! ### White space -/

def blanks : List Char := [' ', '\t', '\n', '\r']

def skipBlanks (l : List Char) : List Char := l.dropWhile (· ∈ blanks)

theorem skipBlanks_cons {d : Char} {l : List Char} (h : d ∉ blanks) : skipBlanks (d :: l) = d :: l :=
  List.dropWhile_cons_of_neg (by rwa [decide_eq_true_eq])

theorem skipBlanks_space (l : List Char) : skipBlanks (' ' :: l) = skipBlanks l :=
  List.dropWhile_cons_of_pos (by decide)

/-! ### Strings -/

def hexOf (d : Char) : Option Nat :=
  if '0' ≤ d ∧ d ≤ '9' then some (d.toNat - 48)
  else if 'a' ≤ d ∧ d ≤ 'f' then some (d.toNat - 87)
  else if 'A' ≤ d ∧ d ≤ 'F' then some (d.toNat - 55)
  else none

/-- Four hexadecimal digits. -/
def readUnit : List Char → Option (Nat × List Char)
  | a :: b :: c :: d :: l => do
    let a ← hexOf a
    let b ← hexOf b
    let c ← hexOf c
    let d ← hexOf d
    return (4096 * a + 256 * b + 16 * c + d, l)
  | _ => none

/-- What follows a backslash and `u`: a code point of its own or two surrogates. A lone surrogate is no `Char`. -/
def readCodePoint (l : List Char) : Option (Char × List Char) := do
  let (u, l) ← readUnit l
  if u < 0xd800 ∨ 0xdfff < u then
    return (Char.ofNat u, l)
  match l with
  | '\\' :: 'u' :: l => do
    let (w, l) ← readUnit l
    if u < 0xdc00 ∧ 0xdc00 ≤ w ∧ w ≤ 0xdfff then
      return (Char.ofNat (0x10000 + 1024 * (u - 0xd800) + (w - 0xdc00)), l)
    none
  | _ => none

/-- What follows a backslash. -/
def readEscape : List Char → Option (Char × List Char)
  | [] => none
  | d :: l =>
    if d = '"' ∨ d = '\\' ∨ d = '/' then some (d, l)
    else if d = 'b' then some ('\x08', l)
    else if d = 'f' then some ('\x0c', l)
    else if d = 'n' then some ('\n', l)
    else if d = 'r' then some ('\r', l)
    else if d = 't' then some ('\t', l)
    else if d = 'u' then readCodePoint l
    else none

/-- The characters up to the closing quote. -/
def readChars : Nat → List Char → Option (List Char × List Char)
  | 0, _ => none
  | _ + 1, [] => none
  | n + 1, d :: l =>
    if d = '"' then some ([], l)
    else if d = '\\' then do
      let (c, l) ← readEscape l
      let (s, l) ← readChars n l
      return (c :: s, l)
    else if d.toNat < 32 then none
    else do
      let (s, l) ← readChars n l
      return (d :: s, l)

/-- What follows an opening quote. -/
def readString (l : List Char) : Option (String × List Char) := do
  let (s, l) ← readChars (l.length + 1) l
  return (String.ofList s, l)

theorem readUnit_control : ∀ n < 32, ∀ l,
    readUnit ('0' :: '0' :: hexDigit (n / 16) :: hexDigit (n % 16) :: l) = some (n, l) := by
  have hdigits : ∀ n < 32, (do
      let c ← hexOf (hexDigit (n / 16))
      let d ← hexOf (hexDigit (n % 16))
      return 16 * c + d) = some n := by
    decide
  intro n hn l
  have h := hdigits n hn
  cases hc : hexOf (hexDigit (n / 16)) with
  | none =>
    rw [hc] at h
    cases h
  | some c =>
    cases hd : hexOf (hexDigit (n % 16)) with
    | none =>
      rw [hc, hd] at h
      cases h
    | some d =>
      rw [hc, hd] at h
      have hn' : 16 * c + d = n := Option.some.inj h
      have hzero : hexOf '0' = some 0 := by decide
      simp only [readUnit, hzero, hc, hd, Option.bind_eq_bind, Option.bind_some, Option.pure_def]
      rw [← hn', Nat.zero_add]

theorem readEscape_control {n : Nat} (h : n < 32) (l : List Char) :
    readEscape ('u' :: '0' :: '0' :: hexDigit (n / 16) :: hexDigit (n % 16) :: l) = some (Char.ofNat n, l) := by
  have hunit : readCodePoint ('0' :: '0' :: hexDigit (n / 16) :: hexDigit (n % 16) :: l) = some (Char.ofNat n, l) := by
    rw [readCodePoint, readUnit_control n h]
    exact if_pos (.inl (by omega))
  exact hunit

/-- The printable characters of ASCII. -/
def Printable (d : Char) : Prop := 32 ≤ d.toNat ∧ d.toNat < 127

instance decidablePrintable (d : Char) : Decidable (Printable d) :=
  inferInstanceAs (Decidable (32 ≤ d.toNat ∧ d.toNat < 127))

/-- A character is escaped by one character or as a control character, or it stands for itself. -/
theorem escapeChar_cases (d : Char) :
    (∃ c, Printable c ∧ d.toNat < 127 ∧ escapeChar d = ['\\', c] ∧ ∀ l, readEscape (c :: l) = some (d, l)) ∨
    (d.toNat < 32 ∧
      escapeChar d = ['\\', 'u', '0', '0', hexDigit (d.toNat / 16), hexDigit (d.toNat % 16)]) ∨
    (32 ≤ d.toNat ∧ d ≠ '"' ∧ d ≠ '\\' ∧ escapeChar d = [d]) := by
  unfold escapeChar
  split_ifs with h₁ h₂ h₃ h₄ h₅ h₆ h₇ h₈
  · exact .inl ⟨'"', by decide, by rw [h₁]; decide, rfl, fun l => by rw [h₁]; rfl⟩
  · exact .inl ⟨'\\', by decide, by rw [h₂]; decide, rfl, fun l => by rw [h₂]; rfl⟩
  · exact .inl ⟨'n', by decide, by rw [h₃]; decide, rfl, fun l => by rw [h₃]; rfl⟩
  · exact .inl ⟨'r', by decide, by rw [h₄]; decide, rfl, fun l => by rw [h₄]; rfl⟩
  · exact .inl ⟨'t', by decide, by rw [h₅]; decide, rfl, fun l => by rw [h₅]; rfl⟩
  · exact .inl ⟨'b', by decide, by rw [h₆]; decide, rfl, fun l => by rw [h₆]; rfl⟩
  · exact .inl ⟨'f', by decide, by rw [h₇]; decide, rfl, fun l => by rw [h₇]; rfl⟩
  · exact .inr (.inl ⟨h₈, rfl⟩)
  · exact .inr (.inr ⟨Nat.not_lt.1 h₈, h₁, h₂, rfl⟩)

theorem readChars_backslash {n : Nat} {x l : List Char} {d : Char} (h : readEscape x = some (d, l)) :
    readChars (n + 1) ('\\' :: x) = (readChars n l).map fun r => (d :: r.1, r.2) := by
  rw [readChars, if_neg (by decide), if_pos rfl, h]
  change (readChars n l).bind (fun r => some (d :: r.1, r.2)) = _
  cases readChars n l with
  | none => rfl
  | some r => rfl

/-- One character of a string. -/
theorem readChars_escapeChar (n : Nat) (d : Char) (l : List Char) :
    readChars (n + 1) (escapeChar d ++ l) = (readChars n l).map fun r => (d :: r.1, r.2) := by
  rcases escapeChar_cases d with ⟨c, _, _, hd, hread⟩ | ⟨hlt, hd⟩ | ⟨hle, hquote, hback, hd⟩
  · rw [hd]
    exact readChars_backslash (hread l)
  · have hread := readEscape_control hlt l
    rw [Char.ofNat_toNat] at hread
    rw [hd]
    exact readChars_backslash hread
  · rw [hd, List.singleton_append, readChars, if_neg hquote, if_neg hback, if_neg (Nat.not_lt.2 hle)]
    cases readChars n l with
    | none => rfl
    | some r => rfl

theorem readChars_escape {s : List Char} {n : Nat} (h : s.length < n) (r : List Char) :
    readChars n (escape s ++ '"' :: r) = some (s, r) := by
  induction s generalizing n with
  | nil =>
    obtain ⟨n, rfl⟩ := Nat.exists_eq_add_one_of_ne_zero (Nat.ne_of_gt h)
    rfl
  | cons d s ih =>
    obtain ⟨n, rfl⟩ := Nat.exists_eq_add_one_of_ne_zero (Nat.ne_of_gt (Nat.zero_lt_of_lt h))
    rw [escape, List.flatMap_cons, List.append_assoc, readChars_escapeChar, ← escape, ih (Nat.lt_of_succ_lt_succ h)]
    rfl

theorem length_le_escape (s : List Char) : s.length ≤ (escape s).length := by
  induction s with
  | nil => exact Nat.zero_le _
  | cons d s ih =>
    have hd : escapeChar d ≠ [] := by
      unfold escapeChar
      split_ifs <;> exact List.cons_ne_nil _ _
    have hpos := List.length_pos_iff.2 hd
    rw [escape, List.flatMap_cons, List.length_append, ← escape, List.length_cons]
    omega

theorem readString_write (s : String) (r : List Char) :
    readString (escape s.toList ++ '"' :: r) = some (s, r) := by
  have hlen : s.toList.length < (escape s.toList ++ '"' :: r).length + 1 := by
    rw [List.length_append]
    exact Nat.lt_succ_of_le (Nat.le_add_right_of_le (length_le_escape _))
  rw [readString, readChars_escape hlen]
  exact congrArg (fun t => some (t, r)) String.ofList_toList

/-- What a text goes on with where a string is cut: nothing or a control character. -/
def Cuts (t : List Char) : Prop := ∀ d ∈ t.head?, d.toNat < 32

theorem readChars_cut (s : List Char) {t : List Char} (ht : Cuts t) (n : Nat) : readChars n (escape s ++ t) = none := by
  induction s generalizing n with
  | nil =>
    cases n with
    | zero => rfl
    | succ n =>
      cases t with
      | nil => rfl
      | cons d t =>
        have hd : d.toNat < 32 := ht d rfl
        rw [escape, List.flatMap_nil, List.nil_append, readChars, if_neg, if_neg, if_pos hd]
        · rintro rfl
          exact absurd hd (by decide)
        · rintro rfl
          exact absurd hd (by decide)
  | cons d s ih =>
    cases n with
    | zero => rfl
    | succ n =>
      rw [escape, List.flatMap_cons, List.append_assoc, readChars_escapeChar, ← escape, ih]
      rfl

theorem readString_cut (s : List Char) {t : List Char} (ht : Cuts t) : readString (escape s ++ t) = none := by
  rw [readString, readChars_cut s ht]
  rfl

/-- The characters beyond ASCII stand for themselves. -/
theorem escapeChar_of_le {d : Char} (hd : 127 ≤ d.toNat) : escapeChar d = [d] := by
  rcases escapeChar_cases d with ⟨_, _, hlt, _⟩ | ⟨hlt, _⟩ | ⟨_, _, _, h⟩
  · omega
  · omega
  · exact h

theorem printable_hexDigit : ∀ n < 16, Printable (hexDigit n) := by
  decide

theorem mem_escapeChar {d e : Char} (h : e ∈ escapeChar d) : (e = d ∧ 32 ≤ d.toNat) ∨ Printable e := by
  rcases escapeChar_cases d with ⟨c, hc, _, hd, _⟩ | ⟨hlt, hd⟩ | ⟨hle, _, _, hd⟩
  · rw [hd] at h
    rcases List.mem_pair.1 h with rfl | rfl
    · exact .inr (by decide)
    · exact .inr hc
  · refine .inr ?_
    simp only [hd, List.mem_cons, List.not_mem_nil, or_false] at h
    rcases h with rfl | rfl | rfl | rfl | rfl | rfl
    · decide
    · decide
    · decide
    · decide
    · exact printable_hexDigit _ (by omega)
    · exact printable_hexDigit _ (by omega)
  · rw [hd] at h
    exact .inl ⟨List.mem_singleton.1 h, hle⟩

theorem le_of_mem_escape {s : List Char} {d : Char} (h : d ∈ escape s) : 32 ≤ d.toNat := by
  obtain ⟨e, _, he⟩ := List.mem_flatMap.1 h
  rcases mem_escapeChar he with ⟨rfl, hle⟩ | hprint
  · exact hle
  · exact hprint.1

theorem mem_escape {s : List Char} {d : Char} (hd : 127 ≤ d.toNat) : d ∈ escape s ↔ d ∈ s := by
  rw [escape, List.mem_flatMap]
  constructor
  · rintro ⟨e, he, h⟩
    rcases mem_escapeChar h with ⟨rfl, _⟩ | hprint
    · exact he
    · exact absurd hprint.2 (Nat.not_lt.2 hd)
  · intro h
    refine ⟨d, h, ?_⟩
    rw [escapeChar_of_le hd]
    exact List.mem_singleton_self d

/-- Before a character beyond ASCII, a string is cut between two of its characters. -/
theorem escape_cut {s p q : List Char} {d : Char} (hd : 127 ≤ d.toNat) (h : escape s = p ++ d :: q) :
    ∃ s₁, p = escape s₁ := by
  induction s generalizing p with
  | nil => exact absurd h.symm (List.append_ne_nil_of_right_ne_nil _ (List.cons_ne_nil _ _))
  | cons e s ih =>
    rw [escape, List.flatMap_cons, ← escape] at h
    rcases List.append_eq_append_iff.1 h with ⟨p', rfl, hs⟩ | ⟨q', he, hq⟩
    · obtain ⟨s₁, rfl⟩ := ih hs
      exact ⟨e :: s₁, rfl⟩
    · cases q' with
      | nil =>
        refine ⟨[e], ?_⟩
        rw [escape, List.flatMap_singleton, he, List.append_nil]
      | cons d' q' =>
        obtain ⟨rfl, _⟩ := List.cons.inj hq
        have hmem : d ∈ escapeChar e := by
          rw [he]
          exact List.mem_append_right _ List.mem_cons_self
        rcases mem_escapeChar hmem with ⟨rfl, _⟩ | hprint
        · rw [escapeChar_of_le hd] at he
          cases p with
          | nil => exact ⟨[], rfl⟩
          | cons c p =>
            have hnil := (List.cons.inj he).2.symm
            exact absurd hnil (List.append_ne_nil_of_right_ne_nil _ (List.cons_ne_nil _ _))
        · exact absurd hprint.2 (Nat.not_lt.2 hd)

/-! ### Values -/

section Reader

/-- Numbers with a reader of the number at the start of a text. -/
structure Reader (ν : Type) extends Numbers ν where
  read : List Char → Option (ν × List Char)
  read_write : ∀ n r, Stops r → read (write n ++ r) = some (n, r)
  printable : ∀ n, ∀ d ∈ write n, 32 < d.toNat ∧ d.toNat < 127

variable {ν : Type}

/-- `d[k] = v` for a dict in the order of insertion. -/
def setField (k : String) (v : Value ν) : List (String × Value ν) → List (String × Value ν)
  | [] => [(k, v)]
  | (k', v') :: l => if k' = k then (k, v) :: l else (k', v') :: setField k v l

def ofPairs (l : List (String × Value ν)) : List (String × Value ν) :=
  l.foldl (fun d f => setField f.1 f.2 d) []

variable (N : Reader ν)

def readKey : List Char → Option (String × List Char)
  | [] => none
  | d :: l =>
    if d = '"' then do
      let (k, l) ← readString l
      match skipBlanks l with
      | ':' :: l => return (k, skipBlanks l)
      | _ => none
    else none

mutual

def readValue : Nat → List Char → Option (Value ν × List Char)
  | 0, _ => none
  | _ + 1, [] => none
  | n + 1, d :: l =>
    if d = '"' then (readString l).map fun r => (.string r.1, r.2)
    else if d = '[' then
      if (skipBlanks l).head? = some ']' then some (.array [], (skipBlanks l).tail)
      else (readValues n (skipBlanks l)).map fun r => (.array r.1, r.2)
    else if d = '\x7b' then
      if (skipBlanks l).head? = some '\x7d' then some (.dict [], (skipBlanks l).tail)
      else (readPairs n (skipBlanks l)).map fun r => (.dict (ofPairs r.1), r.2)
    else if d = 'n' then (List.isPrefixOf? ['u', 'l', 'l'] l).map fun l => (.null, l)
    else if d = 't' then (List.isPrefixOf? ['r', 'u', 'e'] l).map fun l => (.bool true, l)
    else if d = 'f' then (List.isPrefixOf? ['a', 'l', 's', 'e'] l).map fun l => (.bool false, l)
    else (N.read (d :: l)).map fun r => (.number r.1, r.2)

/-- An item of an array with what follows it. -/
def readValues : Nat → List Char → Option (List (Value ν) × List Char)
  | 0, _ => none
  | n + 1, l => do
    let (v, l) ← readValue n l
    let (vs, l) ← readItems n l
    return (v :: vs, l)

/-- What follows an item of an array. -/
def readItems : Nat → List Char → Option (List (Value ν) × List Char)
  | 0, _ => none
  | n + 1, l =>
    match skipBlanks l with
    | ',' :: l => readValues n (skipBlanks l)
    | ']' :: l => some ([], l)
    | _ => none

/-- A field of a dict with what follows it. -/
def readPairs : Nat → List Char → Option (List (String × Value ν) × List Char)
  | 0, _ => none
  | n + 1, l => do
    let (k, l) ← readKey l
    let (v, l) ← readValue n l
    let (fs, l) ← readFields n l
    return ((k, v) :: fs, l)

/-- What follows a field of a dict. -/
def readFields : Nat → List Char → Option (List (String × Value ν) × List Char)
  | 0, _ => none
  | n + 1, l =>
    match skipBlanks l with
    | ',' :: l => readPairs n (skipBlanks l)
    | '\x7d' :: l => some ([], l)
    | _ => none

end

/-- `json.loads`. -/
def loads (l : List Char) : Option (Value ν) := do
  if l.head? = some '\ufeff' then
    none
  let (v, l) ← readValue N (2 * l.length + 1) (skipBlanks l)
  if skipBlanks l = [] then
    return v
  none

/-! ### Keys and strings -/

mutual

/-- No dict has a key twice. -/
def Value.Keyed : Value ν → Prop
  | .null => True
  | .bool _ => True
  | .number _ => True
  | .string _ => True
  | .array l => KeyedItems l
  | .dict l => (l.map Prod.fst).Nodup ∧ KeyedFields l

def KeyedItems : List (Value ν) → Prop
  | [] => True
  | v :: l => v.Keyed ∧ KeyedItems l

def KeyedFields : List (String × Value ν) → Prop
  | [] => True
  | (_, v) :: l => v.Keyed ∧ KeyedFields l

end

mutual

/-- The strings of a value, with the keys. -/
def Value.strings : Value ν → List String
  | .null => []
  | .bool _ => []
  | .number _ => []
  | .string s => [s]
  | .array l => stringsOfItems l
  | .dict l => stringsOfFields l

def stringsOfItems : List (Value ν) → List String
  | [] => []
  | v :: l => v.strings ++ stringsOfItems l

def stringsOfFields : List (String × Value ν) → List String
  | [] => []
  | (k, v) :: l => k :: (v.strings ++ stringsOfFields l)

end

theorem setField_of_notMem {k : String} {v : Value ν} {l : List (String × Value ν)} (h : k ∉ l.map Prod.fst) :
    setField k v l = l ++ [(k, v)] := by
  induction l with
  | nil => rfl
  | cons f l ih =>
    obtain ⟨k', v'⟩ := f
    rw [List.map_cons, List.mem_cons, not_or] at h
    rw [setField, if_neg (Ne.symm h.1), ih h.2, List.cons_append]

theorem ofPairs_of_nodup {l : List (String × Value ν)} (h : (l.map Prod.fst).Nodup) : ofPairs l = l := by
  have hfold : ∀ d : List (String × Value ν), ((d ++ l).map Prod.fst).Nodup →
      l.foldl (fun d f => setField f.1 f.2 d) d = d ++ l := by
    clear h
    induction l with
    | nil =>
      intro d _
      exact (List.append_nil d).symm
    | cons f l ih =>
      intro d hd
      have hnew : f.1 ∉ d.map Prod.fst := by
        rw [List.map_append, List.map_cons] at hd
        exact fun hf => List.disjoint_of_nodup_append hd hf List.mem_cons_self
      rw [List.foldl_cons, setField_of_notMem hnew, ih, List.append_assoc, List.singleton_append]
      rwa [List.append_assoc, List.singleton_append]
  exact hfold [] h

/-! ### The characters of a text -/

omit N in
theorem mem_writeString {d : Char} {s : String} (h : d ∈ writeString s) : Printable d ∨ d ∈ escape s.toList := by
  rcases List.mem_cons.1 h with rfl | h
  · exact .inl (by decide)
  rcases List.mem_append.1 h with h | h
  · exact .inr h
  · obtain rfl := List.mem_singleton.1 h
    exact .inl (by decide)

omit N in
theorem printable_of_all {d : Char} {l : List Char} (hl : (l.all fun e => decide (Printable e)) = true) (h : d ∈ l) :
    Printable d :=
  of_decide_eq_true (List.all_eq_true.1 hl d h)

mutual

/-- A character of a text is printable ASCII or from one of the strings. -/
theorem mem_write {d : Char} (v : Value ν) (h : d ∈ write N.toNumbers [' '] v) :
    Printable d ∨ ∃ s ∈ v.strings, d ∈ escape s.toList := by
  match v with
  | .null | .bool true | .bool false | .array [] | .dict [] => exact .inl (printable_of_all rfl h)
  | .number n =>
    obtain ⟨hlow, hhigh⟩ := N.printable n d h
    exact .inl ⟨Nat.le_of_lt hlow, hhigh⟩
  | .string s => exact (mem_writeString h).imp_right fun hs => ⟨s, List.mem_singleton_self s, hs⟩
  | .array (v :: l) =>
    rw [write, List.mem_cons, List.mem_append] at h
    rcases h with rfl | h | h
    · exact .inl (by decide)
    · exact (mem_write v h).imp_right fun ⟨s, hs, hd⟩ => ⟨s, List.mem_append_left _ hs, hd⟩
    · exact (mem_writeItems l h).imp_right fun ⟨s, hs, hd⟩ => ⟨s, List.mem_append_right _ hs, hd⟩
  | .dict ((k, v) :: l) =>
    simp only [write, List.mem_cons, List.mem_append, List.not_mem_nil, or_false] at h
    rcases h with rfl | h | rfl | rfl | h | h
    · exact .inl (by decide)
    · exact (mem_writeString h).imp_right fun hs => ⟨k, List.mem_cons_self, hs⟩
    · exact .inl (by decide)
    · exact .inl (by decide)
    · exact (mem_write v h).imp_right fun ⟨s, hs, hd⟩ => ⟨s, List.mem_cons_of_mem _ (List.mem_append_left _ hs), hd⟩
    · exact (mem_writeFields l h).imp_right fun ⟨s, hs, hd⟩ =>
        ⟨s, List.mem_cons_of_mem _ (List.mem_append_right _ hs), hd⟩

theorem mem_writeItems {d : Char} (l : List (Value ν)) (h : d ∈ writeItems N.toNumbers [' '] l) :
    Printable d ∨ ∃ s ∈ stringsOfItems l, d ∈ escape s.toList := by
  match l with
  | [] => exact .inl (printable_of_all rfl h)
  | v :: l =>
    simp only [writeItems, List.mem_cons, List.mem_append, List.not_mem_nil, or_false] at h
    rcases h with rfl | rfl | h | h
    · exact .inl (by decide)
    · exact .inl (by decide)
    · exact (mem_write v h).imp_right fun ⟨s, hs, hd⟩ => ⟨s, List.mem_append_left _ hs, hd⟩
    · exact (mem_writeItems l h).imp_right fun ⟨s, hs, hd⟩ => ⟨s, List.mem_append_right _ hs, hd⟩

theorem mem_writeFields {d : Char} (l : List (String × Value ν)) (h : d ∈ writeFields N.toNumbers [' '] l) :
    Printable d ∨ ∃ s ∈ stringsOfFields l, d ∈ escape s.toList := by
  match l with
  | [] => exact .inl (printable_of_all rfl h)
  | (k, v) :: l =>
    simp only [writeFields, List.mem_cons, List.mem_append, List.not_mem_nil, or_false] at h
    rcases h with rfl | rfl | h | rfl | rfl | h | h
    · exact .inl (by decide)
    · exact .inl (by decide)
    · exact (mem_writeString h).imp_right fun hs => ⟨k, List.mem_cons_self, hs⟩
    · exact .inl (by decide)
    · exact .inl (by decide)
    · exact (mem_write v h).imp_right fun ⟨s, hs, hd⟩ => ⟨s, List.mem_cons_of_mem _ (List.mem_append_left _ hs), hd⟩
    · exact (mem_writeFields l h).imp_right fun ⟨s, hs, hd⟩ =>
        ⟨s, List.mem_cons_of_mem _ (List.mem_append_right _ hs), hd⟩

end

mutual

/-- The strings of a value stand in its text. -/
theorem escape_subset (v : Value ν) {s : String} (h : s ∈ v.strings) {d : Char} (hd : d ∈ escape s.toList) :
    d ∈ write N.toNumbers [' '] v := by
  match v with
  | .null | .bool _ | .number _ | .array [] | .dict [] => cases h
  | .string s' =>
    obtain rfl := List.mem_singleton.1 h
    exact List.mem_cons_of_mem _ (List.mem_append_left _ hd)
  | .array (v :: l) =>
    rw [write, List.mem_cons, List.mem_append]
    rcases List.mem_append.1 h with h | h
    · exact .inr (.inl (escape_subset v h hd))
    · exact .inr (.inr (escapeItems_subset l h hd))
  | .dict ((k, v) :: l) =>
    rw [write, writeString]
    simp only [List.mem_cons, List.mem_append]
    rcases List.mem_cons.1 h with rfl | h
    · exact .inr (.inl (.inr (.inl hd)))
    rcases List.mem_append.1 h with h | h
    · exact .inr (.inr (.inr (.inr (.inl (escape_subset v h hd)))))
    · exact .inr (.inr (.inr (.inr (.inr (escapeFields_subset l h hd)))))

theorem escapeItems_subset (l : List (Value ν)) {s : String} (h : s ∈ stringsOfItems l) {d : Char}
    (hd : d ∈ escape s.toList) : d ∈ writeItems N.toNumbers [' '] l := by
  match l with
  | [] => cases h
  | v :: l =>
    simp only [writeItems, List.mem_cons, List.mem_append]
    rcases List.mem_append.1 h with h | h
    · exact .inr (.inr (.inl (escape_subset v h hd)))
    · exact .inr (.inr (.inr (escapeItems_subset l h hd)))

theorem escapeFields_subset (l : List (String × Value ν)) {s : String} (h : s ∈ stringsOfFields l) {d : Char}
    (hd : d ∈ escape s.toList) : d ∈ writeFields N.toNumbers [' '] l := by
  match l with
  | [] => cases h
  | (k, v) :: l =>
    rw [writeFields, writeString]
    simp only [List.mem_cons, List.mem_append]
    rcases List.mem_cons.1 h with rfl | h
    · exact .inr (.inr (.inl (.inr (.inl hd))))
    rcases List.mem_append.1 h with h | h
    · exact .inr (.inr (.inr (.inr (.inr (.inl (escape_subset v h hd))))))
    · exact .inr (.inr (.inr (.inr (.inr (.inr (escapeFields_subset l h hd))))))

end

theorem mem_write_iff {d : Char} (hd : 127 ≤ d.toNat) (v : Value ν) :
    d ∈ write N.toNumbers [' '] v ↔ ∃ s ∈ v.strings, d ∈ s.toList := by
  constructor
  · intro h
    rcases mem_write N v h with hprint | ⟨s, hs, hmem⟩
    · exact absurd hprint.2 (Nat.not_lt.2 hd)
    · exact ⟨s, hs, (mem_escape hd).1 hmem⟩
  · rintro ⟨s, hs, hmem⟩
    exact escape_subset N v hs ((mem_escape hd).2 hmem)

theorem le_of_mem_write {d : Char} {v : Value ν} (h : d ∈ write N.toNumbers [' '] v) : 32 ≤ d.toNat := by
  rcases mem_write N v h with hprint | ⟨s, _, hmem⟩
  · exact hprint.1
  · exact le_of_mem_escape hmem

/-! ### Reading back -/

/-- The first character of a text. -/
theorem write_first (v : Value ν) :
    ∃ d l, write N.toNumbers [' '] v = d :: l ∧ d ∉ blanks ∧ d ∉ stops ∧ d.toNat < 127 := by
  cases v with
  | null => exact ⟨_, _, rfl, by decide, by decide, by decide⟩
  | bool b =>
    cases b with
    | true => exact ⟨_, _, rfl, by decide, by decide, by decide⟩
    | false => exact ⟨_, _, rfl, by decide, by decide, by decide⟩
  | string s => exact ⟨_, _, rfl, by decide, by decide, by decide⟩
  | array l =>
    cases l with
    | nil => exact ⟨_, _, rfl, by decide, by decide, by decide⟩
    | cons v l => exact ⟨_, _, rfl, by decide, by decide, by decide⟩
  | dict l =>
    cases l with
    | nil => exact ⟨_, _, rfl, by decide, by decide, by decide⟩
    | cons f l => exact ⟨_, _, rfl, by decide, by decide, by decide⟩
  | number n =>
    obtain ⟨d, l, hl, _⟩ := N.first n
    have hmem : d ∈ N.write n := hl ▸ List.mem_cons_self
    obtain ⟨hlow, hhigh⟩ := N.printable n d hmem
    refine ⟨d, l, hl, ?_, N.chars n d hmem, hhigh⟩
    intro hblank
    simp only [blanks, List.mem_cons, List.not_mem_nil, or_false] at hblank
    rcases hblank with rfl | rfl | rfl | rfl
    all_goals exact absurd hlow (by decide)

theorem skipBlanks_write (v : Value ν) (r : List Char) :
    skipBlanks (write N.toNumbers [' '] v ++ r) = write N.toNumbers [' '] v ++ r := by
  obtain ⟨d, l, hv, hd, _⟩ := write_first N v
  rw [hv]
  exact skipBlanks_cons hd

theorem skipBlanks_writeString (s : String) (r : List Char) : skipBlanks (writeString s ++ r) = writeString s ++ r :=
  skipBlanks_cons (by decide)

omit N in
theorem readKey_write (k : String) {x : List Char} (hx : skipBlanks x = x) :
    readKey (writeString k ++ ':' :: ' ' :: x) = some (k, x) := by
  have hstring := readString_write k (':' :: ' ' :: x)
  have hspace : skipBlanks (' ' :: x) = x := by
    rw [skipBlanks_space, hx]
  rw [writeString, List.cons_append, List.append_assoc, List.singleton_append, readKey, if_pos rfl, hstring]
  exact congrArg (fun t => some (k, t)) hspace

variable {N} in
theorem readValues_of {n : Nat} {v : Value ν} {l : List (Value ν)} {x y r : List Char}
    (hv : readValue N n x = some (v, y)) (hl : readItems N n y = some (l, r)) :
    readValues N (n + 1) x = some (v :: l, r) := by
  simp only [readValues, hv, hl, Option.bind_eq_bind, Option.bind_some, Option.pure_def]

variable {N} in
theorem readPairs_of {n : Nat} {k : String} {v : Value ν} {l : List (String × Value ν)} {x y z r : List Char}
    (hk : readKey x = some (k, y)) (hv : readValue N n y = some (v, z)) (hl : readFields N n z = some (l, r)) :
    readPairs N (n + 1) x = some ((k, v) :: l, r) := by
  simp only [readPairs, hk, hv, hl, Option.bind_eq_bind, Option.bind_some, Option.pure_def]

theorem head?_write_ne {d : Char} (hd : d ∈ stops) (v : Value ν) (r : List Char) :
    (write N.toNumbers [' '] v ++ r).head? ≠ some d := by
  obtain ⟨e, l, hv, _, he, _⟩ := write_first N v
  rw [hv]
  intro h
  obtain rfl := Option.some.inj h
  exact he hd

omit N in
theorem head?_writeString_ne {d : Char} (hd : d ≠ '"') (s : String) (r : List Char) :
    (writeString s ++ r).head? ≠ some d := by
  intro h
  exact hd (Option.some.inj h).symm

theorem length_write_pos (v : Value ν) : 0 < (write N.toNumbers [' '] v).length := by
  obtain ⟨d, l, hv, _⟩ := write_first N v
  rw [hv]
  exact Nat.succ_pos _

mutual

theorem readValue_write (v : Value ν) (hv : v.Keyed) {r : List Char} (hr : Stops r) {n : Nat}
    (hn : (write N.toNumbers [' '] v).length < n) :
    readValue N n (write N.toNumbers [' '] v ++ r) = some (v, r) := by
  obtain ⟨n, rfl⟩ := Nat.exists_eq_add_one_of_ne_zero (Nat.ne_of_gt (Nat.zero_lt_of_lt hn))
  match v with
  | .null => rfl
  | .bool true => rfl
  | .bool false => rfl
  | .number m =>
    obtain ⟨d, l, hl, hd⟩ := N.first m
    have hread := N.read_write m r hr
    have hne : ∀ e ∈ heads, d ≠ e := fun e he h => hd (h ▸ he)
    rw [write, hl, List.cons_append] at *
    rw [readValue, if_neg (hne _ (by decide)), if_neg (hne _ (by decide)), if_neg (hne _ (by decide)),
      if_neg (hne _ (by decide)), if_neg (hne _ (by decide)), if_neg (hne _ (by decide)), hread]
    rfl
  | .string s =>
    rw [write, writeString, List.cons_append, List.append_assoc, List.singleton_append, readValue, if_pos rfl,
      readString_write]
    rfl
  | .array [] => rfl
  | .array (v :: l) =>
    obtain ⟨hv, hl⟩ := hv
    rw [write, List.length_cons, List.length_append] at hn
    have hpos := length_write_pos N v
    have hlpos : 0 < (writeItems N.toNumbers [' '] l).length := by
      cases l with
      | nil => exact Nat.succ_pos _
      | cons v l => exact Nat.succ_pos _
    obtain ⟨n, rfl⟩ := Nat.exists_eq_add_one_of_ne_zero (show n ≠ 0 by omega)
    have hitem := readValue_write v hv (stops_writeItems N.toNumbers [' '] l r) (n := n) (by omega)
    have hitems := readItems_write l hl r (n := n) (by omega)
    rw [write, List.cons_append, List.append_assoc, readValue, if_neg (by decide), if_pos rfl, skipBlanks_write,
      if_neg (head?_write_ne N (by decide) v _), readValues_of hitem hitems]
    rfl
  | .dict [] => rfl
  | .dict ((k, v) :: l) =>
    obtain ⟨hnodup, hv, hl⟩ := hv
    simp only [write, List.length_cons, List.length_append, List.length_nil] at hn
    obtain ⟨n, rfl⟩ := Nat.exists_eq_add_one_of_ne_zero (show n ≠ 0 by omega)
    have hkey := readKey_write k (skipBlanks_write N v (writeFields N.toNumbers [' '] l ++ r))
    have hvalue := readValue_write v hv (stops_writeFields N.toNumbers [' '] l r) (n := n) (by omega)
    have hfields := readFields_write l hl r (n := n) (by omega)
    simp only [write, List.cons_append, List.nil_append, List.append_assoc]
    rw [readValue, if_neg (by decide), if_neg (by decide), if_pos rfl, skipBlanks_writeString,
      if_neg (head?_writeString_ne (by decide) k _), readPairs_of hkey hvalue hfields]
    exact congrArg (fun d => some (Value.dict d, r)) (ofPairs_of_nodup hnodup)

theorem readItems_write (l : List (Value ν)) (hl : KeyedItems l) (r : List Char) {n : Nat}
    (hn : (writeItems N.toNumbers [' '] l).length < n) :
    readItems N n (writeItems N.toNumbers [' '] l ++ r) = some (l, r) := by
  obtain ⟨n, rfl⟩ := Nat.exists_eq_add_one_of_ne_zero (Nat.ne_of_gt (Nat.zero_lt_of_lt hn))
  match l with
  | [] => rfl
  | v :: l =>
    obtain ⟨hv, hl⟩ := hl
    simp only [writeItems, List.length_cons, List.length_append, List.length_nil] at hn
    obtain ⟨n, rfl⟩ := Nat.exists_eq_add_one_of_ne_zero (show n ≠ 0 by omega)
    have hitem := readValue_write v hv (stops_writeItems N.toNumbers [' '] l r) (n := n) (by omega)
    have hitems := readItems_write l hl r (n := n) (by omega)
    have hvalues := readValues_of hitem hitems
    rw [← skipBlanks_write, ← skipBlanks_space] at hvalues
    simp only [writeItems, List.cons_append, List.nil_append, List.append_assoc]
    rw [readItems, skipBlanks_cons (by decide)]
    exact hvalues

theorem readFields_write (l : List (String × Value ν)) (hl : KeyedFields l) (r : List Char) {n : Nat}
    (hn : (writeFields N.toNumbers [' '] l).length < n) :
    readFields N n (writeFields N.toNumbers [' '] l ++ r) = some (l, r) := by
  obtain ⟨n, rfl⟩ := Nat.exists_eq_add_one_of_ne_zero (Nat.ne_of_gt (Nat.zero_lt_of_lt hn))
  match l with
  | [] => rfl
  | (k, v) :: l =>
    obtain ⟨hv, hl⟩ := hl
    simp only [writeFields, List.length_cons, List.length_append, List.length_nil] at hn
    obtain ⟨n, rfl⟩ := Nat.exists_eq_add_one_of_ne_zero (show n ≠ 0 by omega)
    have hkey := readKey_write k (skipBlanks_write N v (writeFields N.toNumbers [' '] l ++ r))
    have hvalue := readValue_write v hv (stops_writeFields N.toNumbers [' '] l r) (n := n) (by omega)
    have hfields := readFields_write l hl r (n := n) (by omega)
    have hpairs := readPairs_of hkey hvalue hfields
    rw [← skipBlanks_writeString, ← skipBlanks_space] at hpairs
    simp only [writeFields, List.cons_append, List.nil_append, List.append_assoc]
    rw [readFields, skipBlanks_cons (by decide)]
    exact hpairs

end

/-- The text of a value is read back. -/
theorem loads_write {v : Value ν} (hv : v.Keyed) : loads N (write N.toNumbers [' '] v) = some v := by
  have hread := readValue_write N v hv (r := []) (by rintro d ⟨⟩)
    (n := 2 * (write N.toNumbers [' '] v).length + 1) (by omega)
  have hskip := skipBlanks_write N v []
  rw [List.append_nil] at hread hskip
  have hfirst : (write N.toNumbers [' '] v).head? ≠ some '\ufeff' := by
    obtain ⟨d, l, hl, _, _, hd⟩ := write_first N v
    rw [hl]
    intro h
    obtain rfl := Option.some.inj h
    exact absurd hd (by decide)
  rw [loads, if_neg hfirst, hskip, hread]
  rfl

/-! ### The bound -/

variable {N} in
theorem readValues_parts {n : Nat} {x : List Char} {y : List (Value ν) × List Char}
    (h : readValues N (n + 1) x = some y) :
    ∃ v z l r, readValue N n x = some (v, z) ∧ readItems N n z = some (l, r) ∧ y = (v :: l, r) := by
  obtain ⟨⟨v, z⟩, hv, h⟩ := Option.bind_eq_some_iff.1 h
  obtain ⟨⟨l, r⟩, hl, h⟩ := Option.bind_eq_some_iff.1 h
  exact ⟨v, z, l, r, hv, hl, (Option.some.inj h).symm⟩

variable {N} in
theorem readPairs_parts {n : Nat} {x : List Char} {y : List (String × Value ν) × List Char}
    (h : readPairs N (n + 1) x = some y) :
    ∃ k x' v z l r, readKey x = some (k, x') ∧ readValue N n x' = some (v, z) ∧ readFields N n z = some (l, r) ∧
      y = ((k, v) :: l, r) := by
  obtain ⟨⟨k, x'⟩, hk, h⟩ := Option.bind_eq_some_iff.1 h
  obtain ⟨⟨v, z⟩, hv, h⟩ := Option.bind_eq_some_iff.1 h
  obtain ⟨⟨l, r⟩, hl, h⟩ := Option.bind_eq_some_iff.1 h
  exact ⟨k, x', v, z, l, r, hk, hv, hl, (Option.some.inj h).symm⟩

/-- What is read with a bound is read with a larger one. -/
theorem read_succ (n : Nat) :
    (∀ x y, readValue N n x = some y → readValue N (n + 1) x = some y) ∧
    (∀ x y, readValues N n x = some y → readValues N (n + 1) x = some y) ∧
    (∀ x y, readItems N n x = some y → readItems N (n + 1) x = some y) ∧
    (∀ x y, readPairs N n x = some y → readPairs N (n + 1) x = some y) ∧
    (∀ x y, readFields N n x = some y → readFields N (n + 1) x = some y) := by
  induction n with
  | zero => exact ⟨nofun, nofun, nofun, nofun, nofun⟩
  | succ n ih =>
    obtain ⟨ihValue, ihValues, ihItems, ihPairs, ihFields⟩ := ih
    refine ⟨?_, ?_, ?_, ?_, ?_⟩
    · intro x y h
      cases x with
      | nil => cases h
      | cons d x =>
        rw [readValue] at h ⊢
        split_ifs at h ⊢
        · exact h
        · exact h
        · obtain ⟨z, hz, rfl⟩ := Option.map_eq_some_iff.1 h
          rw [ihValues _ _ hz]
          rfl
        · exact h
        · obtain ⟨z, hz, rfl⟩ := Option.map_eq_some_iff.1 h
          rw [ihPairs _ _ hz]
          rfl
        all_goals exact h
    · intro x y h
      obtain ⟨v, z, l, r, hv, hl, rfl⟩ := readValues_parts h
      exact readValues_of (ihValue _ _ hv) (ihItems _ _ hl)
    · intro x y h
      rw [readItems] at h ⊢
      split at h
      · exact ihValues _ _ h
      · exact h
      · cases h
    · intro x y h
      obtain ⟨k, x', v, z, l, r, hk, hv, hl, rfl⟩ := readPairs_parts h
      exact readPairs_of hk (ihValue _ _ hv) (ihFields _ _ hl)
    · intro x y h
      rw [readFields] at h ⊢
      split at h
      · exact ihPairs _ _ h
      · exact h
      · cases h

theorem readValue_of_le {m n : Nat} (h : m ≤ n) {x : List Char} {y : Value ν × List Char}
    (hm : readValue N m x = some y) : readValue N n x = some y := by
  induction h with
  | refl => exact hm
  | step _ ih => exact (read_succ N _).1 _ _ ih

/-- With any bound, a text is read as the value that it is the text of. -/
theorem readValue_write_eq {v : Value ν} (hv : v.Keyed) {r : List Char} (hr : Stops r) {n : Nat}
    {y : Value ν × List Char} (h : readValue N n (write N.toNumbers [' '] v ++ r) = some y) : y = (v, r) := by
  have hread := readValue_write N v hv hr (n := n + (write N.toNumbers [' '] v).length + 1) (by omega)
  have hmore := readValue_of_le N (n := n + (write N.toNumbers [' '] v).length + 1) (by omega) h
  exact Option.some.inj (hmore.symm.trans hread)

/-! ### Cut texts -/

/-- A cut of two texts is in the first one or in the second one. -/
theorem cut_append {x y p q : List Char} {d : Char} (h : x ++ y = p ++ d :: q) :
    (∃ q', x = p ++ d :: q') ∨ ∃ p', p = x ++ p' ∧ y = p' ++ d :: q := by
  rcases List.append_eq_append_iff.1 h with ⟨p', hp, hy⟩ | ⟨x', hx, hq⟩
  · exact .inr ⟨p', hp, hy⟩
  · cases x' with
    | nil => exact .inr ⟨[], by rw [hx, List.append_nil, List.append_nil], hq.symm⟩
    | cons e x' =>
      obtain ⟨rfl, _⟩ := List.cons.inj hq
      exact .inl ⟨x', hx⟩

theorem cut_cons {y p q : List Char} {c d : Char} (hc : c.toNat < 127) (hd : 127 ≤ d.toNat)
    (h : c :: y = p ++ d :: q) : ∃ p', p = c :: p' ∧ y = p' ++ d :: q := by
  cases p with
  | nil =>
    obtain ⟨rfl, _⟩ := List.cons.inj h
    exact absurd hc (Nat.not_lt.2 hd)
  | cons e p =>
    obtain ⟨rfl, hy⟩ := List.cons.inj h
    exact ⟨p, rfl, hy⟩

variable {t : List Char} {d : Char}

omit N in
theorem writeString_cut (hd : 127 ≤ d.toNat) (ht : Cuts t) {s : String} {p q : List Char}
    (h : writeString s = p ++ d :: q) : ∃ p', p = '"' :: p' ∧ readString (p' ++ t) = none := by
  obtain ⟨p, rfl, hp⟩ := cut_cons (by decide) hd h
  rcases cut_append hp with ⟨q', hq'⟩ | ⟨p', rfl, hp'⟩
  · obtain ⟨s, rfl⟩ := escape_cut hd hq'
    exact ⟨_, rfl, readString_cut s ht⟩
  · obtain ⟨p', _, hnil⟩ := cut_cons (by decide) hd hp'
    exact absurd hnil.symm (List.append_ne_nil_of_right_ne_nil _ (List.cons_ne_nil _ _))

omit N in
theorem readKey_cut (hd : 127 ≤ d.toNat) (ht : Cuts t) {k : String} {y p q : List Char}
    (h : writeString k ++ ':' :: ' ' :: y = p ++ d :: q) :
    readKey (p ++ t) = none ∨ ∃ p', p = writeString k ++ ':' :: ' ' :: p' ∧ y = p' ++ d :: q := by
  rcases cut_append h with ⟨q', hq'⟩ | ⟨p', rfl, hp'⟩
  · obtain ⟨p', rfl, hread⟩ := writeString_cut hd ht hq'
    refine .inl ?_
    rw [List.cons_append, readKey, if_pos rfl, hread]
    rfl
  · obtain ⟨p₁, rfl, hp₁⟩ := cut_cons (by decide) hd hp'
    obtain ⟨p₂, rfl, hp₂⟩ := cut_cons (by decide) hd hp₁
    exact .inr ⟨p₂, rfl, hp₂⟩

theorem cut_first (hd : 127 ≤ d.toNat) {v : Value ν} {y p q : List Char}
    (h : write N.toNumbers [' '] v ++ y = p ++ d :: q) :
    skipBlanks (p ++ t) = p ++ t ∧ ∀ e ∈ stops, (p ++ t).head? ≠ some e := by
  obtain ⟨e, l, hv, hblank, hstop, he⟩ := write_first N v
  rw [hv] at h
  obtain ⟨p', rfl, _⟩ := cut_cons he hd h
  refine ⟨skipBlanks_cons hblank, fun c hc hhead => ?_⟩
  obtain rfl := Option.some.inj hhead
  exact hstop hc

omit N in
theorem cut_quote (hd : 127 ≤ d.toNat) {k : String} {y p q : List Char} (h : writeString k ++ y = p ++ d :: q) :
    skipBlanks (p ++ t) = p ++ t ∧ (p ++ t).head? ≠ some '\x7d' := by
  obtain ⟨p', rfl, _⟩ := cut_cons (by decide) hd h
  refine ⟨skipBlanks_cons (by decide), fun hhead => ?_⟩
  exact absurd (Option.some.inj hhead) (by decide)

omit N in
theorem notMem_of_ascii (hd : 127 ≤ d.toNat) {l : List Char} (hl : (l.all fun e => e.toNat < 127) = true) : d ∉ l := by
  intro h
  exact absurd (of_decide_eq_true (List.all_eq_true.1 hl d h)) (Nat.not_lt.2 hd)

theorem stops_cutItems (hd : 127 ≤ d.toNat) {l : List (Value ν)} {p q : List Char}
    (h : writeItems N.toNumbers [' '] l = p ++ d :: q) : Stops (p ++ t) := by
  cases l with
  | _ =>
    obtain ⟨p', rfl, _⟩ := cut_cons (by decide) hd h
    rintro e ⟨⟩
    decide

theorem stops_cutFields (hd : 127 ≤ d.toNat) {l : List (String × Value ν)} {p q : List Char}
    (h : writeFields N.toNumbers [' '] l = p ++ d :: q) : Stops (p ++ t) := by
  cases l with
  | _ =>
    obtain ⟨p', rfl, _⟩ := cut_cons (by decide) hd h
    rintro e ⟨⟩
    decide

theorem readValues_cut (hd : 127 ≤ d.toNat) {v : Value ν} {l : List (Value ν)} (hv : v.Keyed) {p q : List Char}
    (h : write N.toNumbers [' '] v ++ writeItems N.toNumbers [' '] l = p ++ d :: q)
    (hvalue : ∀ p q, write N.toNumbers [' '] v = p ++ d :: q → ∀ n, readValue N n (p ++ t) = none)
    (hitems : ∀ p q, writeItems N.toNumbers [' '] l = p ++ d :: q → ∀ n, readItems N n (p ++ t) = none) (n : Nat) :
    readValues N n (p ++ t) = none := by
  refine Option.eq_none_iff_forall_ne_some.2 fun y hy => ?_
  cases n with
  | zero => cases hy
  | succ n =>
    obtain ⟨v', z, l', r, hv', hl', _⟩ := readValues_parts hy
    rcases cut_append h with ⟨q', hq'⟩ | ⟨p', rfl, hp'⟩
    · rw [hvalue p q' hq'] at hv'
      cases hv'
    · rw [List.append_assoc] at hv'
      obtain ⟨rfl, rfl⟩ := Prod.mk.inj (readValue_write_eq N hv (stops_cutItems N hd hp') hv')
      rw [hitems p' q hp'] at hl'
      cases hl'

theorem readPairs_cut (hd : 127 ≤ d.toNat) (ht : Cuts t) {k : String} {v : Value ν} {l : List (String × Value ν)}
    (hv : v.Keyed) {p q : List Char}
    (h : writeString k ++ ':' :: ' ' :: (write N.toNumbers [' '] v ++ writeFields N.toNumbers [' '] l) = p ++ d :: q)
    (hvalue : ∀ p q, write N.toNumbers [' '] v = p ++ d :: q → ∀ n, readValue N n (p ++ t) = none)
    (hfields : ∀ p q, writeFields N.toNumbers [' '] l = p ++ d :: q → ∀ n, readFields N n (p ++ t) = none) (n : Nat) :
    readPairs N n (p ++ t) = none := by
  refine Option.eq_none_iff_forall_ne_some.2 fun y hy => ?_
  cases n with
  | zero => cases hy
  | succ n =>
    obtain ⟨k', x, v', z, l', r, hk', hv', hl', _⟩ := readPairs_parts hy
    rcases readKey_cut hd ht h with hnone | ⟨p₁, rfl, hp₁⟩
    · rw [hnone] at hk'
      cases hk'
    obtain ⟨hskip, _⟩ := cut_first N hd hp₁
    rw [List.append_assoc, List.cons_append, List.cons_append, readKey_write k hskip] at hk'
    obtain ⟨rfl, rfl⟩ := Prod.mk.inj (Option.some.inj hk')
    rcases cut_append hp₁ with ⟨q', hq'⟩ | ⟨p₃, hp₃, hl₃⟩
    · rw [hvalue _ q' hq'] at hv'
      cases hv'
    · rw [hp₃, List.append_assoc] at hv'
      obtain ⟨rfl, rfl⟩ := Prod.mk.inj (readValue_write_eq N hv (stops_cutFields N hd hl₃) hv')
      rw [hfields p₃ q hl₃] at hl'
      cases hl'

mutual

theorem readValue_cut (hd : 127 ≤ d.toNat) (ht : Cuts t) (v : Value ν) (hv : v.Keyed) (p q : List Char)
    (h : write N.toNumbers [' '] v = p ++ d :: q) (n : Nat) : readValue N n (p ++ t) = none := by
  have hin : d ∈ write N.toNumbers [' '] v := by
    rw [h]
    exact List.mem_append_right _ List.mem_cons_self
  cases n with
  | zero => rfl
  | succ n =>
    match v with
    | .null | .bool true | .bool false => exact absurd hin (notMem_of_ascii hd rfl)
    | .number m => exact absurd (N.printable m d hin).2 (Nat.not_lt.2 hd)
    | .string s =>
      obtain ⟨p, rfl, hread⟩ := writeString_cut hd ht h
      rw [List.cons_append, readValue, if_pos rfl, hread]
      rfl
    | .array [] => exact absurd hin (notMem_of_ascii hd rfl)
    | .array (v :: l) =>
      obtain ⟨hv, hl⟩ := hv
      obtain ⟨p, rfl, hp⟩ := cut_cons (by decide) hd h
      have hcut := readValues_cut N hd hv hp (readValue_cut hd ht v hv) (readItems_cut hd ht l hl) n
      obtain ⟨hskip, hfirst⟩ := cut_first N hd hp
      rw [List.cons_append, readValue, if_neg (by decide), if_pos rfl, hskip, if_neg (hfirst _ (by decide)), hcut]
      rfl
    | .dict [] => exact absurd hin (notMem_of_ascii hd rfl)
    | .dict ((k, v) :: l) =>
      obtain ⟨_, hv, hl⟩ := hv
      obtain ⟨p, rfl, hp⟩ := cut_cons (by decide) hd h
      have hcut := readPairs_cut N hd ht hv hp (readValue_cut hd ht v hv) (readFields_cut hd ht l hl) n
      obtain ⟨hskip, hfirst⟩ := cut_quote hd hp
      rw [List.cons_append, readValue, if_neg (by decide), if_neg (by decide), if_pos rfl, hskip, if_neg hfirst, hcut]
      rfl

theorem readItems_cut (hd : 127 ≤ d.toNat) (ht : Cuts t) (l : List (Value ν)) (hl : KeyedItems l) (p q : List Char)
    (h : writeItems N.toNumbers [' '] l = p ++ d :: q) (n : Nat) : readItems N n (p ++ t) = none := by
  cases n with
  | zero => rfl
  | succ n =>
    match l with
    | [] =>
      obtain ⟨p, rfl, hnil⟩ := cut_cons (by decide) hd h
      exact absurd hnil.symm (List.append_ne_nil_of_right_ne_nil _ (List.cons_ne_nil _ _))
    | v :: l =>
      obtain ⟨hv, hl⟩ := hl
      obtain ⟨p₁, rfl, hp₁⟩ := cut_cons (by decide) hd h
      obtain ⟨p₂, rfl, hp₂⟩ := cut_cons (by decide) hd hp₁
      have hcut := readValues_cut N hd hv hp₂ (readValue_cut hd ht v hv) (readItems_cut hd ht l hl) n
      obtain ⟨hskip, _⟩ := cut_first N hd hp₂
      rw [← hskip, ← skipBlanks_space] at hcut
      rw [List.cons_append, readItems, skipBlanks_cons (by decide)]
      exact hcut

theorem readFields_cut (hd : 127 ≤ d.toNat) (ht : Cuts t) (l : List (String × Value ν)) (hl : KeyedFields l)
    (p q : List Char) (h : writeFields N.toNumbers [' '] l = p ++ d :: q) (n : Nat) :
    readFields N n (p ++ t) = none := by
  cases n with
  | zero => rfl
  | succ n =>
    match l with
    | [] =>
      obtain ⟨p, rfl, hnil⟩ := cut_cons (by decide) hd h
      exact absurd hnil.symm (List.append_ne_nil_of_right_ne_nil _ (List.cons_ne_nil _ _))
    | (k, v) :: l =>
      obtain ⟨hv, hl⟩ := hl
      obtain ⟨p₁, rfl, hp₁⟩ := cut_cons (by decide) hd h
      obtain ⟨p₂, rfl, hp₂⟩ := cut_cons (by decide) hd hp₁
      have hcut := readPairs_cut N hd ht hv hp₂ (readValue_cut hd ht v hv) (readFields_cut hd ht l hl) n
      obtain ⟨hskip, _⟩ := cut_quote hd hp₂
      rw [← hskip, ← skipBlanks_space] at hcut
      rw [List.cons_append, readFields, skipBlanks_cons (by decide)]
      exact hcut

end

/-- A text that is cut in one of its strings is not read. -/
theorem loads_cut (hd : 127 ≤ d.toNat) (ht : Cuts t) {v : Value ν} (hv : v.Keyed) {p q : List Char}
    (h : write N.toNumbers [' '] v = p ++ d :: q) : loads N (p ++ t) = none := by
  obtain ⟨hskip, _⟩ := cut_first N hd (y := []) ((List.append_nil _).trans h)
  have hcut := readValue_cut N hd ht v hv p q h
  rw [loads, hskip, hcut]
  split
  case isTrue => rfl
  case isFalse => rfl

end Reader

/-! ### Integers -/

section Integers

/-- The digits at the start of a text, with no zero before other digits. -/
def readNat (l : List Char) : Option (Nat × List Char) :=
  if l.head? = some '0' then some (0, l.tail)
  else if l.takeWhile Char.isDigit = [] then none
  else some (Nat.ofDigitChars 10 (l.takeWhile Char.isDigit) 0, l.dropWhile Char.isDigit)

def readInt (l : List Char) : Option (Int × List Char) :=
  if l.head? = some '-' then (readNat l.tail).map fun r => (-r.1, r.2)
  else (readNat l).map fun r => (r.1, r.2)

theorem head?_toDigits {n : Nat} (h : (Nat.toDigits 10 n).head? = some '0') : n = 0 := by
  induction n using Nat.strong_induction_on with
  | _ n ih =>
    rcases Nat.lt_or_ge n 10 with hn | hn
    · rw [Nat.toDigits_of_lt_base hn] at h
      have hdigit : ∀ m < 10, m.digitChar = '0' → m = 0 := by decide
      exact hdigit n hn (Option.some.inj h)
    · rw [Nat.toDigits_of_base_le (by decide) hn, List.head?_append_of_ne_nil _ Nat.toDigits_ne_nil] at h
      have hzero := ih (n / 10) (Nat.div_lt_self (by omega) (by decide)) h
      omega

theorem takeWhile_digits (n : Nat) {r : List Char} (hr : Stops r) :
    (Nat.toDigits 10 n ++ r).takeWhile Char.isDigit = Nat.toDigits 10 n ∧
      (Nat.toDigits 10 n ++ r).dropWhile Char.isDigit = r := by
  have hall : ∀ d ∈ Nat.toDigits 10 n, Char.isDigit d = true := fun d => digit_of_mem
  rw [List.takeWhile_append_of_pos hall, List.dropWhile_append_of_pos hall]
  cases r with
  | nil => exact ⟨List.append_nil _, rfl⟩
  | cons e r =>
    have hstop : e ∈ stops := hr e rfl
    have he : ¬ Char.isDigit e = true := fun h => not_mem_of_isDigit (.inl h) (by decide) hstop
    exact ⟨by rw [List.takeWhile_cons_of_neg he, List.append_nil], List.dropWhile_cons_of_neg he⟩

theorem readNat_write (n : Nat) {r : List Char} (hr : Stops r) : readNat (Nat.toDigits 10 n ++ r) = some (n, r) := by
  obtain ⟨htake, hdrop⟩ := takeWhile_digits n hr
  have hne : Nat.toDigits 10 n ≠ [] := Nat.toDigits_ne_nil
  by_cases hzero : n = 0
  · subst hzero
    rfl
  · have hhead : ¬ (Nat.toDigits 10 n ++ r).head? = some '0' := by
      rw [List.head?_append_of_ne_nil _ hne]
      exact fun h => hzero (head?_toDigits h)
    rw [readNat, if_neg hhead, htake, if_neg hne, hdrop, Nat.ofDigitChars_ten_toDigits]

theorem readInt_write (n : Int) {r : List Char} (hr : Stops r) : readInt (intText n ++ r) = some (n, r) := by
  cases n with
  | ofNat n =>
    have hhead : ¬ (Nat.toDigits 10 n ++ r).head? = some '-' := by
      rw [List.head?_append_of_ne_nil _ Nat.toDigits_ne_nil]
      exact fun h => absurd (digit_of_mem (List.mem_of_mem_head? h)) (by decide)
    rw [readInt, intText, if_neg hhead, readNat_write n hr]
    rfl
  | negSucc n =>
    rw [readInt, intText, List.cons_append, List.head?_cons, if_pos rfl, List.tail_cons, readNat_write _ hr]
    rfl

theorem intText_printable (n : Int) {d : Char} (h : d ∈ intText n) : 32 < d.toNat ∧ d.toNat < 127 := by
  rcases intText_char n d h with hdigit | rfl
  · rw [Char.isDigit, Bool.and_eq_true, decide_eq_true_eq, decide_eq_true_eq] at hdigit
    obtain ⟨hlow, hhigh⟩ := hdigit
    have hlow' : 48 ≤ d.toNat := hlow
    have hhigh' : d.toNat ≤ 57 := hhigh
    omega
  · decide

def integersReader : Reader Int where
  toNumbers := integers
  read := readInt
  read_write n _ hr := readInt_write n hr
  printable n _ h := intText_printable n h

end Integers

end JsonText
