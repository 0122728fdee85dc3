import Mathlib
import NexusStudio.Lib.Recency

/-!
# The local level of the cache

`LRUCache`: entries that expire, in the order of their last use. Every method holds the lock of the cache, so that a
history of calls, of any number of tasks, is a list of operations with the times at which they read the clock.

* (methods) `get` moves a hit to the end and deletes what has expired; `set` drops the first entry when a new key finds
  no room. With a `maxsize` that is not positive there is nothing to drop, and `popitem` raises.
* (larger caches) What a cache has, a larger one has: `cache_sublist`; and it has no other entries than a dict without a
  bound (`cache_plain`).
* (retention) An entry stays while fewer other keys than there is room for are asked for or set (`kept`), and sets of so
  many other keys drop it (`hit_iff`).
-/

namespace NexusStudio.LruCache

open Recency (find discard use room push Within Aged Follow)

/-! ### Methods -/

structure Entry (ν : Type*) where
  value : ν
  -- zero for an entry that does not expire
  expiresAt : ℚ
  deriving DecidableEq

/-- `expires_at and time.time() > expires_at` -/
def Entry.expired {ν : Type*} (now : ℚ) (e : Entry ν) : Bool := decide (e.expiresAt ≠ 0 ∧ e.expiresAt < now)

abbrev Table (ν : Type*) := List (String × Entry ν)

structure Cache (ν : Type*) where
  maxsize : ℤ
  defaultTtl : ℤ
  cache : Table ν

inductive KeyError
  | dictionaryIsEmpty

def expiresAt (now : ℚ) (ttl : ℤ) : ℚ := if 0 < ttl then now + ttl else 0

namespace Cache

variable {ν : Type*}

def new (maxsize defaultTtl : ℤ) : Cache ν := ⟨maxsize, defaultTtl, []⟩

def get (now : ℚ) (key : String) (c : Cache ν) : Option ν × Cache ν :=
  match find key c.cache with
  | none => (none, c)
  | some e =>
    if e.expired now then (none, { c with cache := discard key c.cache })
    else (some e.value, { c with cache := use key e c.cache })

def set (now : ℚ) (key : String) (value : ν) (ttl : Option ℤ) (c : Cache ν) : Except KeyError (Cache ν) :=
  let e : Entry ν := ⟨value, expiresAt now (ttl.getD c.defaultTtl)⟩
  if (find key c.cache).isSome then .ok { c with cache := use key e c.cache }
  else if c.maxsize ≤ c.cache.length then
    -- `popitem(last=False)`
    match c.cache with
    | [] => .error .dictionaryIsEmpty
    | _ :: rest => .ok { c with cache := rest ++ [(key, e)] }
  else .ok { c with cache := c.cache ++ [(key, e)] }

def delete (key : String) (c : Cache ν) : Bool × Cache ν :=
  if (find key c.cache).isSome then (true, { c with cache := discard key c.cache }) else (false, c)

def clear (c : Cache ν) : Cache ν := { c with cache := [] }

def cleanupExpired (now : ℚ) (c : Cache ν) : ℕ × Cache ν :=
  let expired := c.cache.filter fun e => e.2.expired now
  (expired.length, { c with cache := c.cache.filter fun e => !e.2.expired now })

end Cache

/-! ### Histories -/

inductive Op (ν : Type*)
  | get (key : String)
  | set (key : String) (value : ν) (ttl : Option ℤ)
  | delete (key : String)
  | clear
  | cleanupExpired

/-- A call with the time that it reads. -/
abbrev Call (ν : Type*) := ℚ × Op ν

namespace Cache

variable {ν : Type*}

/-- The cache after a call; a call that raises leaves it as it is. -/
def apply (c : Cache ν) (call : Call ν) : Cache ν :=
  match call.2 with
  | .get key => (c.get call.1 key).2
  | .set key value ttl =>
    match c.set call.1 key value ttl with
    | .ok c => c
    | .error _ => c
  | .delete key => (c.delete key).2
  | .clear => c.clear
  | .cleanupExpired => (c.cleanupExpired call.1).2

def run (c : Cache ν) (h : List (Call ν)) : Cache ν := h.foldl apply c

end Cache

/-- A dict of entries without a bound. -/
abbrev Plain (ν : Type*) := String → Option (Entry ν)

namespace Plain

variable {ν : Type*}

def get (now : ℚ) (key : String) (p : Plain ν) : Option ν := ((p key).filter fun e => !e.expired now).map Entry.value

/-- `get` deletes what has expired, as in the cache. -/
def apply (defaultTtl : ℤ) (p : Plain ν) (call : Call ν) : Plain ν :=
  match call.2 with
  | .get key => Function.update p key ((p key).filter fun e => !e.expired call.1)
  | .set key value ttl => Function.update p key (some ⟨value, expiresAt call.1 (ttl.getD defaultTtl)⟩)
  | .delete key => Function.update p key none
  | .clear => fun _ => none
  | .cleanupExpired => fun key => (p key).filter fun e => !e.expired call.1

def run (defaultTtl : ℤ) (h : List (Call ν)) : Plain ν := h.foldl (apply defaultTtl) fun _ => none

end Plain

/-! ### What the methods leave -/

namespace Cache

variable {ν : Type*} {c : Cache ν} {now : ℚ} {key : String} {value : ν} {ttl : Option ℤ} {e : Entry ν}

/-- The entry that a call of `set` stores. -/
def entry (c : Cache ν) (now : ℚ) (value : ν) (ttl : Option ℤ) : Entry ν :=
  ⟨value, expiresAt now (ttl.getD c.defaultTtl)⟩

theorem set_eq_push (h : 0 < c.maxsize) :
    c.set now key value ttl = .ok { c with cache := push c.maxsize.toNat key (c.entry now value ttl) c.cache } := by
  unfold set push
  dsimp only
  split
  case isTrue => rfl
  case isFalse =>
    unfold room
    by_cases hfull : c.maxsize ≤ c.cache.length
    · rw [if_pos hfull, if_pos (by omega)]
      cases hc : c.cache with
      | nil =>
        rw [hc, List.length_nil] at hfull
        omega
      | cons x rest => rfl
    · rw [if_neg hfull, if_neg (by omega)]
      rfl

/-- Without room there is never an entry: the first `set` raises, and so do all. -/
theorem set_error (h : c.maxsize ≤ 0) (hc : c.cache = []) (now : ℚ) (key : String) (value : ν) (ttl : Option ℤ) :
    c.set now key value ttl = .error .dictionaryIsEmpty := by
  simp [set, hc, find, h]

/-- What a call does to a cache with room. -/
inductive Change (c : Cache ν) : Call ν → Table ν → Prop
  | stay (now : ℚ) (key : String) (h : key ∉ c.cache.map Prod.fst) : Change c (now, .get key) c.cache
  | lapse (now : ℚ) (key : String) (e : Entry ν) (h : (key, e) ∈ c.cache) (hexp : e.expired now = true) :
      Change c (now, .get key) (discard key c.cache)
  | hit (now : ℚ) (key : String) (e : Entry ν) (h : (key, e) ∈ c.cache) (hexp : e.expired now = false) :
      Change c (now, .get key) (use key e c.cache)
  | push (now : ℚ) (key : String) (value : ν) (ttl : Option ℤ) :
      Change c (now, .set key value ttl) (push c.maxsize.toNat key (c.entry now value ttl) c.cache)
  | delete (now : ℚ) (key : String) : Change c (now, .delete key) (discard key c.cache)
  | clear (now : ℚ) : Change c (now, .clear) []
  | cleanup (now : ℚ) : Change c (now, .cleanupExpired) (c.cache.filter fun e => !e.2.expired now)

theorem change_apply (h : 0 < c.maxsize) (call : Call ν) :
    Change c call (c.apply call).cache ∧ (c.apply call).maxsize = c.maxsize ∧
      (c.apply call).defaultTtl = c.defaultTtl := by
  obtain ⟨now, op⟩ := call
  cases op with
  | get key =>
    unfold apply get
    dsimp only
    cases hfind : find key c.cache with
    | none => exact ⟨.stay now key (Recency.find_eq_none.1 hfind), rfl, rfl⟩
    | some e =>
      have hmem := Recency.mem_of_find hfind
      dsimp only
      cases hexp : e.expired now with
      | true => exact ⟨.lapse now key e hmem hexp, rfl, rfl⟩
      | false => exact ⟨.hit now key e hmem hexp, rfl, rfl⟩
  | set key value ttl =>
    unfold apply
    dsimp only
    rw [set_eq_push h]
    exact ⟨.push now key value ttl, rfl, rfl⟩
  | delete key =>
    unfold apply delete
    dsimp only
    split
    case isTrue => exact ⟨.delete now key, rfl, rfl⟩
    case isFalse hnone =>
      have hdiscard : discard key c.cache = c.cache :=
        Recency.discard_of_not_mem (Recency.find_eq_none.1 (Option.not_isSome_iff_eq_none.1 hnone))
      have hchange := Change.delete (c := c) now key
      rw [hdiscard] at hchange
      exact ⟨hchange, rfl, rfl⟩
  | clear => exact ⟨.clear now, rfl, rfl⟩
  | cleanupExpired => exact ⟨.cleanup now, rfl, rfl⟩

/-! ### Every history -/

/-- Distinct keys, and no more of them than there is room for. -/
structure Bounded (c : Cache ν) : Prop where
  nodup : (c.cache.map Prod.fst).Nodup
  length : c.cache.length ≤ c.maxsize.toNat

theorem Bounded.apply (hb : Bounded c) (h : 0 < c.maxsize) (call : Call ν) : Bounded (c.apply call) := by
  obtain ⟨hchange, hmax, -⟩ := change_apply h call
  have hsub : ∀ {l : Table ν}, l.Sublist c.cache → (l.map Prod.fst).Nodup ∧ l.length ≤ c.maxsize.toNat := fun hl =>
    ⟨hb.nodup.sublist (hl.map _), hl.length_le.trans hb.length⟩
  suffices hall : ((c.apply call).cache.map Prod.fst).Nodup ∧ (c.apply call).cache.length ≤ c.maxsize.toNat from
    ⟨hall.1, hmax ▸ hall.2⟩
  generalize (c.apply call).cache = l at hchange ⊢
  cases hchange with
  | stay => exact hsub (List.Sublist.refl _)
  | lapse now key e => exact hsub Recency.discard_sublist
  | hit now key e hmem =>
    have hkey : key ∈ c.cache.map Prod.fst := List.mem_map_of_mem hmem
    exact ⟨Recency.nodup_use hb.nodup, (Recency.length_use hb.nodup hkey).le.trans hb.length⟩
  | push => exact ⟨Recency.nodup_push hb.nodup, Recency.length_push_le (by omega) hb.nodup hb.length⟩
  | delete => exact hsub Recency.discard_sublist
  | clear => exact hsub (List.nil_sublist _)
  | cleanup => exact hsub List.filter_sublist

theorem run_append (c : Cache ν) (h h' : List (Call ν)) : c.run (h ++ h') = (c.run h).run h' := List.foldl_append

/-- What every call of a history keeps, for a cache with room. -/
theorem run_induct {P : Cache ν → Prop} {h : List (Call ν)} (hmax : 0 < c.maxsize) (hc : P c)
    (hstep : ∀ c call, 0 < c.maxsize → P c → call ∈ h → P (c.apply call)) : P (c.run h) := by
  induction h generalizing c with
  | nil => exact hc
  | cons call h ih =>
    refine ih ?_ (hstep c call hmax hc List.mem_cons_self) fun c' call' hmax' hc' hmem => ?_
    · rw [(change_apply hmax call).2.1]
      exact hmax
    · exact hstep c' call' hmax' hc' (List.mem_cons_of_mem _ hmem)

theorem run_fields (hmax : 0 < c.maxsize) (h : List (Call ν)) :
    (c.run h).maxsize = c.maxsize ∧ (c.run h).defaultTtl = c.defaultTtl := by
  refine run_induct (P := fun d => d.maxsize = c.maxsize ∧ d.defaultTtl = c.defaultTtl) hmax ⟨rfl, rfl⟩ ?_
  intro d call hd hsame _
  obtain ⟨-, hmaxsize, httl⟩ := change_apply hd call
  exact ⟨hmaxsize.trans hsame.1, httl.trans hsame.2⟩

theorem bounded_new (maxsize defaultTtl : ℤ) : Bounded (new maxsize defaultTtl : Cache ν) :=
  ⟨List.nodup_nil, Nat.zero_le _⟩

theorem bounded_run (hmax : 0 < c.maxsize) (hb : Bounded c) (h : List (Call ν)) : Bounded (c.run h) :=
  run_induct hmax hb fun _ call hd hb _ => hb.apply hd call

/-- Without room the cache stays empty. -/
theorem run_empty (hmax : c.maxsize ≤ 0) (hc : c.cache = []) (h : List (Call ν)) : c.run h = c := by
  induction h with
  | nil => rfl
  | cons call h ih =>
    have hstay : c.apply call = c := by
      obtain ⟨now, op⟩ := call
      obtain ⟨maxsize, defaultTtl, cache⟩ := c
      obtain rfl : cache = [] := hc
      cases op with
      | set key value ttl =>
        have herror := set_error hmax rfl now key value ttl
        simp only [apply, herror]
      | _ => rfl
    rw [run, List.foldl_cons, hstay]
    exact ih

/-! ### Larger caches -/

section Larger

variable {d : Cache ν}

theorem within_apply {call : Call ν} (hw : Within c.maxsize.toNat d.maxsize.toNat c.cache d.cache)
    (httl : d.defaultTtl = c.defaultTtl) (hc : 0 < c.maxsize) (hd : 0 < d.maxsize) (hbc : Bounded c) (hbd : Bounded d) :
    Within c.maxsize.toNat d.maxsize.toNat (c.apply call).cache (d.apply call).cache := by
  have hchange := (change_apply hc call).1
  have hchange' := (change_apply hd call).1
  generalize (c.apply call).cache = l at hchange ⊢
  generalize (d.apply call).cache = l' at hchange' ⊢
  -- an entry of both tables is one entry
  have hsame : ∀ {key : String} {e e' : Entry ν}, (key, e) ∈ c.cache → (key, e') ∈ d.cache → e = e' := fun he he' =>
    Recency.eq_of_mem hbd.nodup (hw.sublist.subset he) he'
  cases hchange with
  | stay now key hnot =>
    cases hchange' with
    | stay => exact hw
    | lapse _ _ e' he' hexp' =>
      have hfilter := hw.filter fun e => e.1 ≠ key
      rw [← Recency.discard, ← Recency.discard, Recency.discard_of_not_mem hnot] at hfilter
      exact hfilter
    | hit _ _ e' he' hexp' => exact hw.use_right hbd.nodup (List.mem_map_of_mem he') hnot
  | lapse now key e he hexp =>
    cases hchange' with
    | stay _ _ hnot => exact absurd (List.mem_map_of_mem he) (hw.not_mem hnot)
    | lapse => exact hw.filter _
    | hit _ _ e' he' hexp' =>
      rw [← hsame he he', hexp] at hexp'
      cases hexp'
  | hit now key e he hexp =>
    cases hchange' with
    | stay _ _ hnot => exact absurd (List.mem_map_of_mem he) (hw.not_mem hnot)
    | lapse _ _ e' he' hexp' =>
      rw [← hsame he he', hexp] at hexp'
      cases hexp'
    | hit _ _ e' he' hexp' =>
      rw [← hsame he he']
      exact hw.use_both hbd.nodup (List.mem_map_of_mem he)
  | push now key value ttl =>
    cases hchange' with
    | push =>
      rw [show d.entry now value ttl = c.entry now value ttl by rw [entry, entry, httl]]
      exact hw.push (by omega) hbc.length hbd.length hbd.nodup
  | delete now key => cases hchange' with
    | delete => exact hw.filter _
  | clear now => cases hchange' with
    | clear => exact hw.nil
  | cleanup now => cases hchange' with
    | cleanup => exact hw.filter _

theorem within_run (hc : 0 < c.maxsize) (hd : 0 < d.maxsize) (httl : d.defaultTtl = c.defaultTtl)
    (hbc : Bounded c) (hbd : Bounded d) (hw : Within c.maxsize.toNat d.maxsize.toNat c.cache d.cache)
    (h : List (Call ν)) : (c.run h).cache.Sublist (d.run h).cache := by
  induction h generalizing c d with
  | nil => exact hw.sublist
  | cons call h ih =>
    obtain ⟨-, hcmax, hcttl⟩ := change_apply hc call
    obtain ⟨-, hdmax, hdttl⟩ := change_apply hd call
    refine ih (hcmax ▸ hc) (hdmax ▸ hd) (by rw [hdttl, hcttl, httl]) (hbc.apply hc call) (hbd.apply hd call) ?_
    rw [hcmax, hdmax]
    exact within_apply hw httl hc hd hbc hbd

theorem cache_sublist {m n : ℤ} (hmn : m ≤ n) (ttl : ℤ) (h : List (Call ν)) :
    ((new m ttl).run h).cache.Sublist ((new n ttl).run h).cache := by
  by_cases hm : 0 < m
  · have hlacks : Within m.toNat n.toNat ([] : Table ν) [] := by
      refine ⟨List.Sublist.refl _, ?_⟩
      rw [List.length_nil]
      omega
    exact within_run (c := new m ttl) (d := new n ttl) hm (hm.trans_le hmn) rfl (bounded_new m ttl) (bounded_new n ttl)
      hlacks h
  · rw [run_empty (not_lt.1 hm) rfl]
    exact List.nil_sublist _

end Larger

/-! ### The dict without a bound -/

def Agrees (c : Cache ν) (p : Plain ν) : Prop := ∀ e ∈ c.cache, p e.1 = some e.2

theorem Agrees.apply {p : Plain ν} (ha : Agrees c p) (h : 0 < c.maxsize) (call : Call ν) :
    Agrees (c.apply call) (p.apply c.defaultTtl call) := by
  have hchange := (change_apply h call).1
  unfold Agrees
  generalize (c.apply call).cache = l at hchange ⊢
  -- an entry of another key is one of before
  have hother : ∀ {key : String} {x : String × Entry ν} {v : Option (Entry ν)}, x ∈ discard key c.cache →
      Function.update p key v x.1 = some x.2 := by
    intro key x v hx
    obtain ⟨hx, hne⟩ := Recency.mem_discard.1 hx
    rw [Function.update_of_ne hne]
    exact ha x hx
  cases hchange with
  | stay now key hnot =>
    intro x hx
    refine hother ?_
    rwa [Recency.discard_of_not_mem hnot]
  | lapse now key e he hexp => exact fun x hx => hother hx
  | hit now key e he hexp =>
    intro x hx
    rcases List.mem_append.1 hx with hx | hx
    · exact hother hx
    · obtain rfl := List.mem_singleton.1 hx
      simp [Plain.apply, ha (key, e) he, hexp]
  | push now key value ttl =>
    intro x hx
    rcases List.mem_append.1 (Recency.push_sublist_use.subset hx) with hx | hx
    · exact hother hx
    · obtain rfl := List.mem_singleton.1 hx
      exact Function.update_self ..
  | delete now key => exact fun x hx => hother hx
  | clear now => exact fun x hx => absurd hx List.not_mem_nil
  | cleanup now =>
    intro x hx
    obtain ⟨hx, hexp⟩ := List.mem_filter.1 hx
    simp [Plain.apply, ha x hx, hexp]

theorem agrees_run {m : ℤ} (hm : 0 < m) (ttl : ℤ) (h : List (Call ν)) :
    Agrees ((new m ttl).run h) (Plain.run ttl h) := by
  suffices hall : ∀ (c : Cache ν) (p : Plain ν), 0 < c.maxsize → c.defaultTtl = ttl → Agrees c p →
      Agrees (c.run h) (h.foldl (Plain.apply ttl) p) from
    hall (new m ttl) (fun _ => none) hm rfl fun e he => absurd he List.not_mem_nil
  induction h with
  | nil => exact fun c p _ _ ha => ha
  | cons call h ih =>
    rintro c p hc rfl ha
    obtain ⟨-, hmax, httl⟩ := change_apply hc call
    exact ih _ _ (hmax ▸ hc) httl (ha.apply hc call)

theorem cache_plain (m ttl : ℤ) (h : List (Call ν)) : Agrees ((new m ttl).run h) (Plain.run ttl h) := by
  by_cases hm : 0 < m
  · exact agrees_run hm ttl h
  · rw [run_empty (not_lt.1 hm) rfl]
    exact fun e he => absurd he List.not_mem_nil

/-! ### Hits -/

theorem get_eq_some (hb : Bounded c) :
    (c.get now key).1 = some value ↔ ∃ e, (key, e) ∈ c.cache ∧ e.expired now = false ∧ e.value = value := by
  unfold get
  constructor
  · intro h
    cases hfind : find key c.cache with
    | none =>
      rw [hfind] at h
      cases h
    | some e =>
      rw [hfind] at h
      cases hexp : e.expired now with
      | true =>
        simp only [hexp] at h
        cases h
      | false =>
        simp only [hexp] at h
        exact ⟨e, Recency.mem_of_find hfind, hexp, Option.some.inj h⟩
  · rintro ⟨e, he, hexp, rfl⟩
    simp [(Recency.find_eq_some_iff hb.nodup).2 he, hexp]

theorem bounded_history (m ttl : ℤ) (h : List (Call ν)) : Bounded ((new m ttl : Cache ν).run h) := by
  by_cases hm : 0 < m
  · exact bounded_run hm (bounded_new m ttl) h
  · rw [run_empty (not_lt.1 hm) rfl]
    exact bounded_new m ttl

/-- A cache never exceeds its size; what it returns after a history, a larger one and a dict without a bound return
after the same history. -/
theorem bounded_and_included {m n : ℤ} (hmn : m ≤ n) (ttl : ℤ) (h : List (Call ν)) (now : ℚ) (key : String) :
    (((new m ttl : Cache ν).run h).cache.length : ℤ) ≤ max 0 m ∧
      ∀ value, (((new m ttl).run h).get now key).1 = some value →
        (((new n ttl).run h).get now key).1 = some value ∧ (Plain.run ttl h).get now key = some value := by
  have hmax : ((new m ttl : Cache ν).run h).cache.length ≤ m.toNat := by
    by_cases hm : 0 < m
    · have hlength := (bounded_history m ttl h).length
      rwa [(run_fields hm h).1] at hlength
    · rw [run_empty (not_lt.1 hm) rfl]
      exact Nat.zero_le _
  refine ⟨by omega, fun value hget => ?_⟩
  obtain ⟨e, he, hexp, rfl⟩ := (get_eq_some (bounded_history m ttl h)).1 hget
  refine ⟨(get_eq_some (bounded_history n ttl h)).2 ⟨e, (cache_sublist hmn ttl h).subset he, hexp, rfl⟩, ?_⟩
  simp [Plain.get, cache_plain m ttl h (key, e) he, hexp]

theorem included_two : (((new 1 0 : Cache ℕ).run [(0, .set "a" 1 none), (1, .set "b" 2 none)]).cache.length : ℤ) ≤ 1 ∧
    (((new 2 0).run [(0, .set "a" 1 none), (1, .set "b" 2 none)]).get 30 "b").1 = some 2 := by
  obtain ⟨hlength, hincluded⟩ := bounded_and_included (m := 1) (n := 2) (by decide) 0
    [(0, .set "a" 1 none), (1, .set "b" (2 : ℕ) none)] 30 "b"
  exact ⟨hlength, (hincluded 2 (by decide)).1⟩

/-! ### Retention -/

/-- The key that a call asks for or sets. -/
def used : Op ν → Option String
  | .get key => some key
  | .set key _ _ => some key
  | _ => none

/-- The other keys that a history asks for or sets. -/
def others (key : String) (h : List (Call ν)) : Finset String :=
  ((h.filterMap fun call => used call.2).filter fun k => k ≠ key).toFinset

/-- The call does not set, delete or clear the key, and does not find its entry expired. -/
def Spares (key : String) (e : Entry ν) : Call ν → Prop
  | (now, .get k) => k = key → e.expired now = false
  | (_, .set k _ _) => k ≠ key
  | (_, .delete k) => k ≠ key
  | (_, .clear) => False
  | (now, .cleanupExpired) => e.expired now = false

theorem mem_others {k : String} {h : List (Call ν)} :
    k ∈ others key h ↔ (∃ call ∈ h, used call.2 = some k) ∧ k ≠ key := by
  rw [others, List.mem_toFinset, List.mem_filter, List.mem_filterMap, decide_eq_true_eq]

theorem aged_apply {used' : Finset String} {call : Call ν} (ha : Aged key e used' c.cache) (hb : Bounded c)
    (hmax : 0 < c.maxsize) (hspares : Spares key e call) (hused : ∀ k, used call.2 = some k → k ≠ key → k ∈ used')
    (hfew : used'.card < c.maxsize.toNat) : Aged key e used' (c.apply call).cache := by
  have hchange := (change_apply hmax call).1
  generalize (c.apply call).cache = l at hchange ⊢
  cases hchange with
  | stay => exact ha
  | lapse now k e' he' hexp =>
    have hne : key ≠ k := by
      rintro rfl
      rw [Recency.eq_of_mem hb.nodup he' ha.mem, hspares rfl] at hexp
      cases hexp
    exact ha.filter (decide_eq_true hne)
  | hit now k e' he' hexp =>
    by_cases hk : k = key
    · subst hk
      rw [Recency.eq_of_mem hb.nodup he' ha.mem]
      exact Aged.of_use.mono (Finset.empty_subset _)
    · exact ha.use hk (hused k rfl hk)
  | push now k value ttl => exact ha.push hb.nodup hspares (hused k rfl hspares) hfew
  | delete now k => exact ha.filter (decide_eq_true (Ne.symm hspares))
  | clear now => exact absurd hspares id
  | cleanup now =>
    have hexp : e.expired now = false := hspares
    exact ha.filter (by rw [hexp]; rfl)

theorem aged_of_used {call : Call ν} (hb : Bounded c) (hmax : 0 < c.maxsize) (hused : used call.2 = some key)
    (hmem : (key, e) ∈ (c.apply call).cache) : Aged key e ∅ (c.apply call).cache := by
  have hnodup := (hb.apply hmax call).nodup
  have hchange := (change_apply hmax call).1
  generalize (c.apply call).cache = l at hchange hmem hnodup ⊢
  cases hchange with
  | stay now k hnot =>
    obtain rfl : k = key := Option.some.inj hused
    exact absurd (List.mem_map_of_mem hmem) hnot
  | lapse now k e' he' hexp =>
    obtain rfl : k = key := Option.some.inj hused
    exact absurd rfl (Recency.mem_discard.1 hmem).2
  | hit now k e' he' hexp =>
    obtain rfl : k = key := Option.some.inj hused
    rw [Recency.eq_of_mem hnodup hmem Aged.of_use.mem]
    exact Aged.of_use
  | push now k value ttl =>
    obtain rfl : k = key := Option.some.inj hused
    rw [Recency.eq_of_mem hnodup hmem Aged.of_push.mem]
    exact Aged.of_push
  | delete | clear | cleanup => cases hused

/-- The entry that a call has left for its key is there after calls that spare it, if they use fewer other keys than
there is room for. -/
theorem kept {maxsize defaultTtl : ℤ} {h h' : List (Call ν)} {call : Call ν} (hused : used call.2 = some key)
    (hmem : (key, e) ∈ ((new maxsize defaultTtl).run (h ++ [call])).cache)
    (hspares : ∀ call' ∈ h', Spares key e call') (hfew : ((others key h').card : ℤ) < maxsize) :
    (key, e) ∈ ((new maxsize defaultTtl).run (h ++ call :: h')).cache := by
  have hroom : 0 < maxsize := (Int.natCast_nonneg _).trans_lt hfew
  have hsplit : h ++ call :: h' = h ++ [call] ++ h' := by rw [List.append_assoc, List.singleton_append]
  have hlast : (new maxsize defaultTtl).run (h ++ [call]) = ((new maxsize defaultTtl).run h).apply call :=
    run_append ..
  have hmax : 0 < ((new maxsize defaultTtl : Cache ν).run h).maxsize := (run_fields (c := new maxsize defaultTtl) hroom h).1.symm ▸ hroom
  have hstart : Aged key e ∅ ((new maxsize defaultTtl).run (h ++ [call])).cache := by
    rw [hlast] at hmem ⊢
    exact aged_of_used (bounded_history maxsize defaultTtl h) hmax hused hmem
  rw [hsplit, run_append]
  have hsize := (run_fields (c := (new maxsize defaultTtl : Cache ν)) hroom (h ++ [call])).1
  refine (run_induct (P := fun c => c.maxsize = maxsize ∧ Bounded c ∧ Aged key e (others key h') c.cache) (hsize ▸ hroom)
    ⟨hsize, bounded_history maxsize defaultTtl _, hstart.mono (Finset.empty_subset _)⟩ ?_).2.2.mem
  rintro c call' hc ⟨rfl, hb, ha⟩ hcall'
  refine ⟨(change_apply hc call').2.1, hb.apply hc call', aged_apply ha hb hc (hspares call' hcall') ?_ (by omega)⟩
  exact fun k hk hne => mem_others.2 ⟨⟨call', hcall', hk⟩, hne⟩

/-- What a call has left for its key, a `get` after such calls returns until it expires. -/
theorem retained {maxsize defaultTtl : ℤ} {h h' : List (Call ν)} {call : Call ν} (hused : used call.2 = some key)
    (hmem : (key, e) ∈ ((new maxsize defaultTtl).run (h ++ [call])).cache)
    (hspares : ∀ call' ∈ h', Spares key e call') (hfew : ((others key h').card : ℤ) < maxsize)
    (hexp : e.expired now = false) :
    (((new maxsize defaultTtl).run (h ++ call :: h')).get now key).1 = some e.value :=
  (get_eq_some (bounded_history maxsize defaultTtl _)).2 ⟨e, kept hused hmem hspares hfew, hexp, rfl⟩

/-- A hit counts as a use: the key that is asked for between two others outlives them in a cache for two. -/
theorem retained_hit : (((new 2 0).run
      ([(0, .set "a" 1 none), (1, .set "b" 2 none)] ++ (2, .get "a") :: [(3, .set "c" 3 none)])).get 60 "a").1 =
    some 1 := by
  refine retained (e := ⟨1, 0⟩) rfl ?_ ?_ (by decide) (by decide)
  · decide
  · intro call hcall
    obtain rfl := List.mem_singleton.1 hcall
    exact (by decide : "c" ≠ "a")

/-- Calls that set other keys than this one. -/
def SetsOthers (key : String) (h : List (Call ν)) : Prop := ∀ call ∈ h, ∃ k v ttl, call.2 = .set k v ttl ∧ k ≠ key

theorem follow_run {h : List (Call ν)} {used' : Finset String} (hf : Follow key used' c.cache) (hmax : 0 < c.maxsize)
    (hsets : SetsOthers key h) : Follow key (used' ∪ others key h) (c.run h).cache := by
  induction h generalizing c used' with
  | nil => exact hf.anti (Finset.union_subset (Finset.Subset.refl _) (Finset.empty_subset _))
  | cons call h ih =>
    obtain ⟨now, op⟩ := call
    obtain ⟨k, v, ttl, rfl, hne⟩ := hsets (now, op) List.mem_cons_self
    obtain ⟨hchange, hmaxsize, -⟩ := change_apply hmax (now, .set k v ttl)
    have hnext : Follow key (Insert.insert k used') (c.apply (now, .set k v ttl)).cache := by
      generalize (c.apply (now, .set k v ttl)).cache = l at hchange ⊢
      cases hchange with
      | push => exact hf.push hne
    have hrest : SetsOthers key h := fun call hcall => hsets call (List.mem_cons_of_mem _ hcall)
    refine (ih hnext (hmaxsize ▸ hmax) hrest).anti fun u hu => ?_
    rw [Finset.mem_union, mem_others] at hu
    rw [Finset.mem_union, Finset.mem_insert, mem_others]
    rcases hu with hu | ⟨⟨call, hcall, hused⟩, hkey⟩
    · exact .inl (.inr hu)
    · rcases List.mem_cons.1 hcall with rfl | hcall
      · exact .inl (.inl (Option.some.inj hused).symm)
      · exact .inr ⟨⟨call, hcall, hused⟩, hkey⟩

theorem plain_setsOthers {h : List (Call ν)} {p : Plain ν} (defaultTtl : ℤ) (hsets : SetsOthers key h) :
    h.foldl (Plain.apply defaultTtl) p key = p key := by
  induction h generalizing p with
  | nil => rfl
  | cons call h ih =>
    obtain ⟨now, op⟩ := call
    obtain ⟨k, v, ttl, rfl, hne⟩ := hsets (now, op) List.mem_cons_self
    rw [List.foldl_cons, ih fun call hcall => hsets call (List.mem_cons_of_mem _ hcall)]
    exact Function.update_of_ne hne.symm ..

/-- After a `set` and sets of other keys, `get` returns the value exactly if these are fewer keys than there is room
for and the value has not expired. -/
theorem hit_iff {maxsize : ℤ} (defaultTtl : ℤ) (h : List (Call ν)) {h' : List (Call ν)} (t : ℚ) (key : String)
    (value : ν) (ttl : Option ℤ) (now : ℚ) (hroom : 0 < maxsize) (hsets : SetsOthers key h') :
    (((new maxsize defaultTtl).run (h ++ (t, .set key value ttl) :: h')).get now key).1 = some value ↔
      ((others key h').card : ℤ) < maxsize ∧
        Entry.expired now ⟨value, expiresAt t (ttl.getD defaultTtl)⟩ = false := by
  set e : Entry ν := ⟨value, expiresAt t (ttl.getD defaultTtl)⟩
  rw [get_eq_some (bounded_history maxsize defaultTtl _)]
  obtain ⟨hmax, httl⟩ := run_fields (c := (new maxsize defaultTtl : Cache ν)) hroom h
  have hroom' : 0 < ((new maxsize defaultTtl : Cache ν).run h).maxsize := hmax.symm ▸ hroom
  constructor
  · rintro ⟨e', hmem, hexp, -⟩
    have hplain := cache_plain maxsize defaultTtl (h ++ (t, .set key value ttl) :: h') (key, e') hmem
    rw [Plain.run, List.foldl_append, List.foldl_cons, plain_setsOthers defaultTtl hsets] at hplain
    simp only [Plain.apply, Function.update_self] at hplain
    obtain rfl : e = e' := Option.some.inj hplain
    refine ⟨?_, hexp⟩
    have hlength := (bounded_history maxsize defaultTtl (h ++ (t, .set key value ttl) :: h')).length
    rw [(run_fields (c := (new maxsize defaultTtl : Cache ν)) hroom _).1] at hlength
    have hnext : 0 < (((new maxsize defaultTtl : Cache ν).run h).apply (t, .set key value ttl)).maxsize :=
      (change_apply hroom' _).2.1.symm ▸ hroom'
    have hfollow : Follow key (∅ ∪ others key h') _ := follow_run Follow.empty hnext hsets
    rw [run_append] at hmem hlength
    have hcard := (hfollow.anti Finset.subset_union_right).card_lt hlength hmem
    change (_ : ℕ) < maxsize.toNat at hcard
    omega
  · rintro ⟨hfew, hexp⟩
    have hused : used (t, Op.set key value ttl).2 = some key := rfl
    refine ⟨e, kept hused ?_ ?_ hfew, hexp, rfl⟩
    · rw [run_append]
      obtain ⟨hchange, -⟩ := change_apply hroom' (t, .set key value ttl)
      change (key, e) ∈ (((new maxsize defaultTtl).run h).apply (t, .set key value ttl)).cache
      generalize (((new maxsize defaultTtl).run h).apply (t, .set key value ttl)).cache = l at hchange ⊢
      cases hchange with
      | push =>
        have hentry : ((new maxsize defaultTtl).run h).entry t value ttl = e := by
          rw [entry, httl]
          rfl
        rw [hentry]
        exact Aged.of_push.mem
    · intro call hcall
      obtain ⟨now', op⟩ := call
      obtain ⟨k, v, ttl', rfl, hne⟩ := hsets (now', op) hcall
      exact hne

/-- One key too many: two sets of other keys drop a value from a cache for two, long before it expires. -/
theorem miss_of_two : (((new 2 60).run ([] ++ (0, .set "a" 1 none) :: [(1, .set "b" 2 none), (2, .set "c" 3 none)])).get
    3 "a").1 ≠ some 1 := by
  have hsets : SetsOthers (ν := ℕ) "a" [(1, .set "b" 2 none), (2, .set "c" 3 none)] := by
    intro call hcall
    simp only [List.mem_cons, List.not_mem_nil, or_false] at hcall
    rcases hcall with rfl | rfl
    · exact ⟨"b", 2, none, rfl, by decide⟩
    · exact ⟨"c", 3, none, rfl, by decide⟩
  intro hget
  exact absurd ((hit_iff 60 [] 0 "a" 1 none 3 (by decide) hsets).1 hget).1 (by decide)

end Cache

end NexusStudio.LruCache
