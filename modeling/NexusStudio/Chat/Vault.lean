import NexusStudio.Lib.Machine
import Mathlib.Data.Fintype.Basic
import Mathlib.Data.List.Nodup

/-!
# The vault of a gate

The secrets that a user has submitted to a gate, and the bridge tokens that bring cookies there: `create_secret`, `put`,
`take`, `consume_secret` and `import_bridge_cookies`, each a sequence of Redis commands.

* (machine) Every command is one step of the call that sends it.
* (ledgers) The state also lists which secrets have been created and which have been read by a call that returns them.
* (defect) Single use is a read followed by a delete or a write, and the table of handles is read, changed and written
  back, so calls that overlap hand a secret out twice, import a token twice or lose a secret.
* (condition) `Safe`: a read finds no call between its own read and write, and a write loses no pending secret.
-/

set_option linter.unusedSectionVars false

namespace NexusStudio.Vault

open Concurrent

/-- `gate_id:field_name:nonce` of the one gate; no nonce is drawn twice. -/
structure Handle where
  fieldName : String
  nonce : Nat
  deriving DecidableEq, Repr

/-- The handles of a gate by the names of their fields, in the order of insertion. -/
abbrev Table := List (String × Handle)

/-- `mapping[field_name] = handle`. -/
def Table.setItem (h : Handle) : Table → Table
  | [] => [(h.fieldName, h)]
  | p :: m => if p.1 = h.fieldName then (h.fieldName, h) :: m else p :: setItem h m

theorem mem_setItem_self (h : Handle) (m : Table) : (h.fieldName, h) ∈ m.setItem h := by
  induction m with
  | nil => exact List.mem_singleton_self _
  | cons p m ih =>
    rw [Table.setItem]
    split
    · exact List.mem_cons_self
    · exact List.mem_cons_of_mem _ ih

theorem mem_setItem_of_mem {h : Handle} {m : Table} {p : String × Handle} (hp : p ∈ m) (hne : p.1 ≠ h.fieldName) :
    p ∈ m.setItem h := by
  induction m with
  | nil => cases hp
  | cons q m ih =>
    rw [Table.setItem]
    rcases List.mem_cons.1 hp with rfl | hp
    · rw [if_neg hne]
      exact List.mem_cons_self
    · split
      · exact List.mem_cons_of_mem _ hp
      · exact List.mem_cons_of_mem _ (ih hp)

/-- The record of a bridge token. -/
structure BridgeRecord where
  expectedDomain : String
  imported : Bool
  consumed : Bool
  deriving DecidableEq, Repr

inductive Call (τ : Type*)
  -- `host` is the lower-case host of the page
  | importBridgeCookies (token : τ) (cookies : String) (host : String)
  | put (fields : List (String × Option String))
  | take
  | consumeSecret (h : Handle)
  deriving DecidableEq

/-- Where a call is: the Redis command that it sends next, with what it needs for it. -/
inductive Pc (τ : Type*)
  | start
  -- `create_secret` of the first field, the read of the table and the write; an import goes on with its record
  | creating (field value : String) (todo : List (String × String)) (bridge : Option (τ × BridgeRecord))
  | stored (h : Handle) (todo : List (String × String)) (bridge : Option (τ × BridgeRecord))
  | mapped (h : Handle) (m : Table) (todo : List (String × String)) (bridge : Option (τ × BridgeRecord))
  | marking (token : τ) (r : BridgeRecord)
  | marked (token : τ)
  -- `take`: the next handle, or the delete of the table
  | taking (todo : Table) (out : List (String × String))
  -- the delete of a secret that has been read
  | deleting (h : Handle) (field value : String) (todo : Table) (out : List (String × String))
  | consuming (h : Handle) (value : String)
  -- what a call has returned
  | imported (token : τ)
  | submitted
  | took (out : List (String × String))
  | consumed (value : Option String)
  | raised
  deriving DecidableEq

structure State (ι τ : Type*) where
  secrets : Handle → Option String
  table : Option Table
  records : τ → Option BridgeRecord
  -- the token in `chat:bridge_gate`, once imported
  gateStatus : Option τ
  nextNonce : Nat
  pc : ι → Pc τ
  -- the secrets whose creation is complete, the ones read by a call that returns them, and those complete at the
  -- beginning of a `take`
  created : List Handle
  handed : List Handle
  before : ι → List Handle

/-- The domain check of `import_bridge_cookies`. -/
def allowed (expected host : String) : Bool :=
  expected = "" || host = expected || ('.' :: expected.toList).isSuffixOf host.toList

section Model

variable {ι τ : Type*} [DecidableEq ι] [DecidableEq τ]

namespace State

variable (s : State ι τ)

def setPc (i : ι) (c : Pc τ) : State ι τ := { s with pc := Function.update s.pc i c }

def handles : Table := s.table.getD []

/-- The record with which an import goes on. -/
def accepted (token : τ) (host : String) : Option BridgeRecord :=
  (s.records token).filter fun r => !r.consumed && allowed r.expectedDomain host

end State

/-- After a field: the next one, or what follows the loop of `put`. -/
def afterField (todo : List (String × String)) (bridge : Option (τ × BridgeRecord)) : Pc τ :=
  match todo, bridge with
  | (f, v) :: todo, bridge => .creating f v todo bridge
  | [], some (t, r) => .marking t r
  | [], none => .submitted

/-- The next Redis command of a call. -/
def step (R : ι → Call τ) (s : State ι τ) (i : ι) : Option (State ι τ) :=
  match s.pc i with
  | .start =>
    match R i with
    | .importBridgeCookies t cookies host =>
      match s.accepted t host with
      | none => some (s.setPc i .raised)
      | some r => some (s.setPc i (.creating "_bridge_cookies" cookies [] (some (t, r))))
    | .put fields => some (s.setPc i (afterField (fields.filterMap fun p => p.2.map fun v => (p.1, v)) none))
    | .take =>
      let s := { s with before := Function.update s.before i s.created }
      if s.handles = [] then some (s.setPc i (.took [])) else some (s.setPc i (.taking s.handles []))
    | .consumeSecret h =>
      match s.secrets h with
      | none => some (s.setPc i (.consumed none))
      | some v => some { s.setPc i (.consuming h v) with handed := s.handed ++ [h] }
  | .creating f v todo bridge =>
    let h := ⟨f, s.nextNonce⟩
    some { s.setPc i (.stored h todo bridge) with
      secrets := Function.update s.secrets h (some v)
      nextNonce := s.nextNonce + 1 }
  | .stored h todo bridge => some (s.setPc i (.mapped h s.handles todo bridge))
  | .mapped h m todo bridge =>
    some { s.setPc i (afterField todo bridge) with
      table := some (m.setItem h)
      created := s.created ++ [h] }
  | .marking t r =>
    some { s.setPc i (.marked t) with
      records := Function.update s.records t (some { r with imported := true, consumed := true }) }
  | .marked t => some { s.setPc i (.imported t) with gateStatus := some t }
  | .taking [] out => some { s.setPc i (.took out) with table := none }
  | .taking ((f, h) :: todo) out =>
    match s.secrets h with
    | none => some (s.setPc i (.taking todo out))
    | some v => some { s.setPc i (.deleting h f v todo out) with handed := s.handed ++ [h] }
  | .deleting h f v todo out =>
    some { s.setPc i (.taking todo (out ++ [(f, v)])) with secrets := Function.update s.secrets h none }
  | .consuming h v => some { s.setPc i (.consumed (some v)) with secrets := Function.update s.secrets h none }
  | .imported _ | .submitted | .took _ | .consumed _ | .raised => none

/-- The calls on a gate without secrets, with any bridge tokens. -/
def vault (R : ι → Call τ) : Machine (State ι τ) ι where
  init s := ∃ records, s = ⟨fun _ => none, none, records, none, 0, fun _ => .start, [], [], fun _ => []⟩
  step := step R

/-! ### The law and its condition -/

/-- What single use asks for. -/
structure Law (s : State ι τ) : Prop where
  importedOnce : ∀ t i j, s.pc i = .imported t → s.pc j = .imported t → i = j
  handedOnce : s.handed.Nodup
  taken : ∀ i out, s.pc i = .took out → ∀ h ∈ s.before i, h ∈ s.handed

/-- The secret that a call has read and not yet deleted. -/
def Pc.reading : Pc τ → Option Handle
  | deleting h .. | consuming h _ => some h
  | _ => none

/-- The secret that a call has stored and not yet entered into the table. -/
def Pc.storing : Pc τ → Option Handle
  | stored h .. | mapped h .. => some h
  | _ => none

/-- The handles that a `take` has still to look up. -/
def Pc.todo : Pc τ → Table
  | taking m _ | deleting _ _ _ m _ => m
  | _ => []

/-- The token whose record an import has still to write. -/
def Pc.importing : Pc τ → Option τ
  | creating _ _ _ b | stored _ _ b | mapped _ _ _ b => b.map Prod.fst
  | marking t _ => some t
  | _ => none

/-- The token whose record the import has written. -/
def Pc.done : Pc τ → Option τ
  | marked t | imported t => some t
  | _ => none

/-- No call is between the read and the delete of the secret. -/
def Unread (s : State ι τ) (h : Handle) : Prop := ∀ j, (s.pc j).reading ≠ some h

/-- The secret is stored for a `take` to come. -/
def Pending (s : State ι τ) (h : Handle) : Prop := s.secrets h ≠ none ∧ Unread s h

/-- The read of a token or a secret finds no other call after the same read, and the write or the delete of the table
leaves no pending secret out. -/
def Safe (R : ι → Call τ) (s : State ι τ) (i : ι) : Prop :=
  match s.pc i with
  | .start =>
    match R i with
    | .importBridgeCookies t _ host => s.accepted t host ≠ none → ∀ j, (s.pc j).importing ≠ some t
    | .consumeSecret h => s.secrets h ≠ none → Unread s h
    | _ => True
  | .mapped h m _ _ => ∀ p ∈ s.handles, Pending s p.2 → p ∈ m ∧ p.1 ≠ h.fieldName
  | .taking [] _ => ∀ p ∈ s.handles, ¬ Pending s p.2
  | .taking ((_, h) :: _) _ => s.secrets h ≠ none → Unread s h
  | _ => True

instance [Fintype ι] (s : State ι τ) (h : Handle) : Decidable (Unread s h) :=
  inferInstanceAs (Decidable (∀ j, (s.pc j).reading ≠ some h))

instance [Fintype ι] (s : State ι τ) (h : Handle) : Decidable (Pending s h) :=
  inferInstanceAs (Decidable (s.secrets h ≠ none ∧ Unread s h))

instance [Fintype ι] (R : ι → Call τ) (s : State ι τ) (i : ι) : Decidable (Safe R s i) := by
  unfold Safe
  repeat' split
  all_goals infer_instance

/-! ### The invariant -/

variable {R : ι → Call τ} {s s' : State ι τ} {i : ι} {c : Pc τ}

/-- The import of the token has been accepted. -/
def Pc.Imports (c : Pc τ) (t : τ) : Prop := c.importing = some t ∨ c.done = some t

/-- What a call with the position `c` relies on, where `b` was created before it began. -/
structure Local (s : State ι τ) (b : List Handle) (c : Pc τ) : Prop where
  reading : ∀ h, c.reading = some h → h ∈ s.handed
  storing : ∀ h, c.storing = some h → h ∈ s.handed ∨ s.secrets h ≠ none
  todo : ∀ h ∈ b, h ∈ s.handed ∨ s.secrets h ≠ none ∧ h ∈ c.todo.map Prod.snd
  done : ∀ t, c.done = some t → ∃ r, s.records t = some r ∧ r.consumed = true

structure Inv (s : State ι τ) : Prop where
  fresh : ∀ h, s.secrets h ≠ none ∨ h ∈ s.handed → h.nonce < s.nextNonce
  nodup : s.handed.Nodup
  read : ∀ h ∈ s.handed, s.secrets h ≠ none → ∃ j, (s.pc j).reading = some h
  created : ∀ h ∈ s.created, h ∈ s.handed ∨ s.secrets h ≠ none ∧ (h.fieldName, h) ∈ s.handles
  once : ∀ t i j, (s.pc i).Imports t → (s.pc j).Imports t → i = j
  calls : ∀ i, Local s (s.before i) (s.pc i)

/-- What no step takes away: a secret is deleted only when it has been handed out. -/
structure Kept (s s' : State ι τ) : Prop where
  handed : ∀ h ∈ s.handed, h ∈ s'.handed
  secrets : ∀ h, h ∈ s.handed ∨ s.secrets h ≠ none → h ∈ s'.handed ∨ s'.secrets h ≠ none
  records : ∀ t r, s.records t = some r → r.consumed = true → ∃ r, s'.records t = some r ∧ r.consumed = true

theorem Local.kept {b : List Handle} (h : Local s b c) (hk : Kept s s') : Local s' b c where
  reading g hg := hk.handed g (h.reading g hg)
  storing g hg := hk.secrets g (h.storing g hg)
  todo g hg := by
    rcases h.todo g hg with hg | ⟨hs, ht⟩
    · exact .inl (hk.handed g hg)
    · exact (hk.secrets g (.inr hs)).imp_right fun hs => ⟨hs, ht⟩
  done t ht := by
    obtain ⟨r, hr, hc⟩ := h.done t ht
    exact hk.records t r hr hc

/-- A pending secret has not been handed out, and the other way round while it is stored. -/
theorem pending_iff (hI : Inv s) {h : Handle} : Pending s h ↔ s.secrets h ≠ none ∧ h ∉ s.handed := by
  refine and_congr_right fun hs => ⟨fun hu hh => ?_, fun hh j hj => hh ((hI.calls j).reading h hj)⟩
  obtain ⟨j, hj⟩ := hI.read h hh hs
  exact hu j hj

/-- The invariant after a step of `i` to the position `c`. -/
theorem inv_of (hI : Inv s) (hpc : s'.pc = Function.update s.pc i c) (hb : ∀ j, j ≠ i → s'.before j = s.before j)
    (hk : Kept s s') (hl : Local s' (s'.before i) c)
    (hfresh : ∀ h, s'.secrets h ≠ none ∨ h ∈ s'.handed → h.nonce < s'.nextNonce) (hnodup : s'.handed.Nodup)
    (hread : ∀ h ∈ s'.handed, s'.secrets h ≠ none →
      c.reading = some h ∨ h ∈ s.handed ∧ s.secrets h ≠ none ∧ (s.pc i).reading ≠ some h)
    (hcreated : ∀ h ∈ s'.created, h ∈ s'.handed ∨ s'.secrets h ≠ none ∧ (h.fieldName, h) ∈ s'.handles)
    (honce : ∀ t, c.Imports t → (s.pc i).Imports t ∨ ∀ j, ¬ (s.pc j).Imports t) : Inv s' := by
  have hown : s'.pc i = c := by rw [hpc, Function.update_self]
  have hother : ∀ j, j ≠ i → s'.pc j = s.pc j := fun j hj => by rw [hpc, Function.update_of_ne hj]
  have honly : ∀ t j, j ≠ i → c.Imports t → ¬ (s.pc j).Imports t := by
    intro t j hj ht hjt
    rcases honce t ht with h | h
    · exact hj (hI.once t j i hjt h)
    · exact h j hjt
  refine ⟨hfresh, hnodup, fun h hh hs => ?_, hcreated, fun t j k hj hk => ?_, fun j => ?_⟩
  · rcases hread h hh hs with hc | ⟨hh, hs, hne⟩
    · exact ⟨i, by rw [hown, hc]⟩
    · obtain ⟨j, hj⟩ := hI.read h hh hs
      refine ⟨j, ?_⟩
      rw [hother j fun hji => hne (hji ▸ hj), hj]
  · by_cases hji : j = i
    · subst hji
      by_contra hne
      rw [hown] at hj
      rw [hother k (Ne.symm hne)] at hk
      exact honly t k (Ne.symm hne) hj hk
    · rw [hother j hji] at hj
      by_cases hki : k = i
      · subst hki
        rw [hown] at hk
        exact absurd hj (honly t j hji hk)
      · rw [hother k hki] at hk
        exact hI.once t j k hj hk
  · by_cases hj : j = i
    · subst hj
      rw [hown]
      exact hl
    · rw [hother j hj, hb j hj]
      exact (hI.calls j).kept hk

theorem Kept.of_eq (hh : s'.handed = s.handed) (hs : s'.secrets = s.secrets) (hr : s'.records = s.records) :
    Kept s s' := by
  refine ⟨fun h => ?_, fun h => ?_, fun t r h hc => ⟨r, ?_, hc⟩⟩
  · rw [hh]
    exact id
  · rw [hh, hs]
    exact id
  · rw [hr]
    exact h

/-- A step that changes no key. -/
theorem inv_setPc (hI : Inv s) (hread : (s.pc i).reading = none) (hl : Local s (s.before i) c)
    (honce : ∀ t, c.Imports t → (s.pc i).Imports t ∨ ∀ j, ¬ (s.pc j).Imports t) : Inv (s.setPc i c) := by
  refine inv_of hI rfl (fun _ _ => rfl) (.of_eq rfl rfl rfl) ⟨hl.reading, hl.storing, hl.todo, hl.done⟩ hI.fresh
    hI.nodup (fun h hh hs => .inr ⟨hh, hs, ?_⟩) hI.created honce
  rw [hread]
  nofun

/-- A position that holds neither a secret nor a token. -/
theorem local_of_idle {b : List Handle} (hr : c.reading = none) (hs : c.storing = none) (hd : c.done = none)
    (hb : ∀ h ∈ b, h ∈ s.handed ∨ s.secrets h ≠ none ∧ h ∈ c.todo.map Prod.snd) : Local s b c := by
  refine ⟨?_, ?_, hb, ?_⟩
  · rw [hr]
    nofun
  · rw [hs]
    nofun
  · rw [hd]
    nofun

theorem not_imports (hi : c.importing = none) (hd : c.done = none) {P : τ → Prop} : ∀ t, c.Imports t → P t := by
  rintro t (h | h)
  · rw [hi] at h
    cases h
  · rw [hd] at h
    cases h

/-- Nothing is left to look up for a call that is not a `take`, or one that has looked all up. -/
theorem before_handed (hI : Inv s) (h : (s.pc i).todo = []) : ∀ g ∈ s.before i, g ∈ s.handed := by
  intro g hg
  have hcall := (hI.calls i).todo g hg
  rw [h] at hcall
  exact hcall.resolve_right fun hcall => List.not_mem_nil hcall.2

/-- The read of a stored secret that is pending. -/
theorem inv_read (hI : Inv s) {h : Handle} (hpc : (s.pc i).reading = none) (hs : s.secrets h ≠ none) (hu : Unread s h)
    (hread : c.reading = some h) (hstoring : c.storing = none) (hi : c.importing = none) (hd : c.done = none)
    (hb : ∀ g ∈ s.before i, g ∈ s.handed ++ [h] ∨ s.secrets g ≠ none ∧ g ∈ c.todo.map Prod.snd) :
    Inv { s.setPc i c with handed := s.handed ++ [h] } := by
  have hnew : h ∉ s.handed := ((pending_iff hI).1 ⟨hs, hu⟩).2
  have hsub : ∀ g ∈ s.handed, g ∈ s.handed ++ [h] := fun g hg => List.mem_append_left _ hg
  refine inv_of hI rfl (fun _ _ => rfl) ⟨hsub, fun g => Or.imp_left (hsub g), fun t r hr hc => ⟨r, hr, hc⟩⟩
    ⟨fun g hg => ?_, ?_, hb, ?_⟩ (fun g hg => ?_) ?_ (fun g hg hgs => ?_) (fun g hg => ?_) (not_imports hi hd)
  · rw [hread] at hg
    exact List.mem_append_right _ (List.mem_singleton.2 (Option.some.inj hg).symm)
  · rw [hstoring]
    nofun
  · rw [hd]
    nofun
  · rcases hg with hg | hg
    · exact hI.fresh g (.inl hg)
    · rcases List.mem_append.1 hg with hg | hg
      · exact hI.fresh g (.inr hg)
      · rw [List.mem_singleton.1 hg]
        exact hI.fresh h (.inl hs)
  · exact hI.nodup.append (List.nodup_singleton h) (List.disjoint_singleton.2 hnew)
  · rcases List.mem_append.1 hg with hg | hg
    · refine .inr ⟨hg, hgs, ?_⟩
      rw [hpc]
      nofun
    · rw [List.mem_singleton.1 hg]
      exact .inl hread
  · exact (hI.created g hg).imp_left (hsub g)

/-- The delete of a secret by the call that has read it. -/
theorem inv_delete (hI : Inv s) {h : Handle} (hread : (s.pc i).reading = some h) (hr : c.reading = none)
    (hstoring : c.storing = none) (hi : c.importing = none) (hd : c.done = none)
    (hb : ∀ g ∈ s.before i, g ∈ s.handed ∨ s.secrets g ≠ none ∧ g ∈ c.todo.map Prod.snd) :
    Inv { s.setPc i c with secrets := Function.update s.secrets h none } := by
  have hh : h ∈ s.handed := (hI.calls i).reading h hread
  have hsecrets : ∀ g, Function.update s.secrets h none g ≠ none → g ≠ h ∧ s.secrets g ≠ none := by
    intro g hg
    by_cases hgh : g = h
    · subst hgh
      rw [Function.update_self] at hg
      exact absurd rfl hg
    · rw [Function.update_of_ne hgh] at hg
      exact ⟨hgh, hg⟩
  have hkeep : ∀ g, g ∈ s.handed ∨ s.secrets g ≠ none → g ∈ s.handed ∨ Function.update s.secrets h none g ≠ none := by
    rintro g (hg | hg)
    · exact .inl hg
    · by_cases hgh : g = h
      · exact .inl (hgh ▸ hh)
      · exact .inr (by rw [Function.update_of_ne hgh]; exact hg)
  refine inv_of hI rfl (fun _ _ => rfl) ⟨fun _ hg => hg, hkeep, fun t r hr hc => ⟨r, hr, hc⟩⟩
    (local_of_idle hr hstoring hd fun g hg => ?_)
    (fun g hg => hI.fresh g (hg.imp_left fun hg => (hsecrets g hg).2)) hI.nodup
    (fun g hg hgs => .inr ⟨hg, (hsecrets g hgs).2, fun he => ?_⟩) (fun g hg => ?_) (not_imports hi hd)
  · rcases hb g hg with hg | ⟨hs, ht⟩
    · exact .inl hg
    · exact (hkeep g (.inr hs)).imp_right fun hs => ⟨hs, ht⟩
  · rw [hread] at he
    exact (hsecrets g hgs).1 (Option.some.inj he).symm
  · rcases hI.created g hg with hg | ⟨hs, ht⟩
    · exact .inl hg
    · exact (hkeep g (.inr hs)).imp_right fun hs => ⟨hs, ht⟩

theorem afterField_eq (todo : List (String × String)) (bridge : Option (τ × BridgeRecord)) :
    (afterField todo bridge).reading = none ∧ (afterField todo bridge).storing = none ∧
      (afterField todo bridge).todo = [] ∧ (afterField todo bridge).done = none ∧
      (afterField todo bridge).importing = bridge.map Prod.fst := by
  cases todo with
  | nil =>
    cases bridge with
    | none => exact ⟨rfl, rfl, rfl, rfl, rfl⟩
    | some b => exact ⟨rfl, rfl, rfl, rfl, rfl⟩
  | cons p todo => exact ⟨rfl, rfl, rfl, rfl, rfl⟩

/-- A step within the creation of a secret, for the import that it belongs to. -/
theorem imports_of_importing {c' : Pc τ} (hi : c'.importing = c.importing) (hd : c'.done = none) {P : τ → Prop} :
    ∀ t, c'.Imports t → c.Imports t ∨ P t := by
  rintro t (h | h)
  · exact .inl (.inl (hi ▸ h))
  · rw [hd] at h
    cases h

theorem inv_create (hI : Inv s) {f v : String} {todo : List (String × String)} {bridge : Option (τ × BridgeRecord)}
    (hpc : s.pc i = .creating f v todo bridge) :
    Inv { s.setPc i (.stored ⟨f, s.nextNonce⟩ todo bridge) with
      secrets := Function.update s.secrets ⟨f, s.nextNonce⟩ (some v)
      nextNonce := s.nextNonce + 1 } := by
  have hself : Function.update s.secrets ⟨f, s.nextNonce⟩ (some v) ⟨f, s.nextNonce⟩ ≠ none := by
    rw [Function.update_self]
    nofun
  have hsecrets : ∀ h, s.secrets h ≠ none → Function.update s.secrets ⟨f, s.nextNonce⟩ (some v) h ≠ none := by
    intro h hs
    by_cases hh : h = ⟨f, s.nextNonce⟩
    · rw [hh]
      exact hself
    · rw [Function.update_of_ne hh]
      exact hs
  have hnew : ∀ h, Function.update s.secrets ⟨f, s.nextNonce⟩ (some v) h ≠ none →
      h = ⟨f, s.nextNonce⟩ ∨ s.secrets h ≠ none := by
    intro h hs
    by_cases hh : h = ⟨f, s.nextNonce⟩
    · exact .inl hh
    · rw [Function.update_of_ne hh] at hs
      exact .inr hs
  have hb := before_handed hI (i := i) (by rw [hpc]; rfl)
  refine inv_of hI rfl (fun _ _ => rfl) ⟨fun _ h => h, fun h => Or.imp_right (hsecrets h), fun t r hr hc => ⟨r, hr, hc⟩⟩
    ⟨nofun, fun h hs => .inr ?_, fun h hh => .inl (hb h hh), nofun⟩ (fun h hh => ?_) hI.nodup (fun h hh hs => ?_)
    (fun h hh => ?_) (by rw [hpc]; exact imports_of_importing rfl rfl)
  · obtain rfl := Option.some.inj hs
    exact hself
  · rcases hh with hs | hh
    · rcases hnew h hs with rfl | hs
      · exact Nat.lt_succ_self _
      · exact Nat.lt_succ_of_lt (hI.fresh h (.inl hs))
    · exact Nat.lt_succ_of_lt (hI.fresh h (.inr hh))
  · rcases hnew h hs with rfl | hs
    · exact absurd (hI.fresh _ (.inr hh)) (Nat.lt_irrefl _)
    · refine .inr ⟨hh, hs, ?_⟩
      rw [hpc]
      nofun
  · exact (hI.created h hh).imp_right fun ⟨hs, ht⟩ => ⟨hsecrets h hs, ht⟩

theorem inv_enter (hI : Inv s) {h : Handle} {m : Table} {todo : List (String × String)}
    {bridge : Option (τ × BridgeRecord)} (hpc : s.pc i = .mapped h m todo bridge)
    (hsafe : ∀ p ∈ s.handles, Pending s p.2 → p ∈ m ∧ p.1 ≠ h.fieldName) :
    Inv { s.setPc i (afterField todo bridge) with table := some (m.setItem h), created := s.created ++ [h] } := by
  obtain ⟨hread, hstoring, htodo, hdone, himporting⟩ := afterField_eq todo bridge
  have hb := before_handed hI (i := i) (by rw [hpc]; rfl)
  refine inv_of hI rfl (fun _ _ => rfl) (.of_eq rfl rfl rfl)
    (local_of_idle hread hstoring hdone fun g hg => .inl (hb g hg)) hI.fresh hI.nodup
    (fun g hg hgs => .inr ⟨hg, hgs, ?_⟩) (fun g hg => ?_) (by rw [hpc]; exact imports_of_importing himporting hdone)
  · rw [hpc]
    nofun
  · rcases List.mem_append.1 hg with hg | hg
    · rcases hI.created g hg with hg | ⟨hs, ht⟩
      · exact .inl hg
      · by_cases hh : g ∈ s.handed
        · exact .inl hh
        · obtain ⟨hm, hne⟩ := hsafe _ ht ((pending_iff hI).2 ⟨hs, hh⟩)
          exact .inr ⟨hs, mem_setItem_of_mem hm hne⟩
    · rw [List.mem_singleton.1 hg]
      exact ((hI.calls i).storing h (by rw [hpc]; rfl)).imp_right fun hs => ⟨hs, mem_setItem_self h m⟩

theorem inv_clear (hI : Inv s) {out : List (String × String)} (hpc : s.pc i = .taking [] out)
    (hsafe : ∀ p ∈ s.handles, ¬ Pending s p.2) : Inv { s.setPc i (.took out) with table := none } := by
  have hb := before_handed hI (i := i) (by rw [hpc]; rfl)
  refine inv_of hI rfl (fun _ _ => rfl) (.of_eq rfl rfl rfl)
    (local_of_idle rfl rfl rfl fun g hg => .inl (hb g hg)) hI.fresh hI.nodup (fun g hg hgs => .inr ⟨hg, hgs, ?_⟩)
    (fun g hg => ?_) (not_imports rfl rfl)
  · rw [hpc]
    nofun
  · rcases hI.created g hg with hg | ⟨hs, ht⟩
    · exact .inl hg
    · by_contra hg
      exact hsafe _ ht ((pending_iff hI).2 ⟨hs, fun hh => hg (.inl hh)⟩)

theorem inv_mark (hI : Inv s) {t : τ} {r : BridgeRecord} (hpc : s.pc i = .marking t r) :
    Inv { s.setPc i (.marked t) with
      records := Function.update s.records t (some { r with imported := true, consumed := true }) } := by
  have hb := before_handed hI (i := i) (by rw [hpc]; rfl)
  refine inv_of hI rfl (fun _ _ => rfl) ⟨fun _ h => h, fun _ h => h, fun t' r' hr hc => ?_⟩
    ⟨nofun, nofun, fun g hg => .inl (hb g hg), fun t' ht => ?_⟩ hI.fresh hI.nodup (fun g hg hgs => .inr ⟨hg, hgs, ?_⟩)
    hI.created (fun t' ht => .inl (.inl ?_))
  · by_cases ht : t' = t
    · subst ht
      exact ⟨_, Function.update_self .., rfl⟩
    · exact ⟨r', (Function.update_of_ne ht ..).trans hr, hc⟩
  · obtain rfl := Option.some.inj ht
    exact ⟨_, Function.update_self .., rfl⟩
  · rw [hpc]
    nofun
  · rw [hpc]
    exact ht.resolve_left nofun

theorem inv_begin (hI : Inv s) (hread : (s.pc i).reading = none) (hr : c.reading = none) (hs : c.storing = none)
    (hi : c.importing = none) (hd : c.done = none) (htodo : c.todo = s.handles) :
    Inv { s.setPc i c with before := Function.update s.before i s.created } := by
  have hown : Function.update s.before i s.created i = s.created := Function.update_self ..
  refine inv_of hI rfl (fun j hj => Function.update_of_ne hj ..) (.of_eq rfl rfl rfl)
    (local_of_idle hr hs hd fun g hg => ?_) hI.fresh hI.nodup (fun g hg hgs => .inr ⟨hg, hgs, ?_⟩) hI.created
    (not_imports hi hd)
  · rw [htodo]
    refine (hI.created g (hown ▸ hg)).imp_right fun ⟨hs, ht⟩ => ⟨hs, ?_⟩
    exact List.mem_map_of_mem ht
  · rw [hread]
    nofun

/-- What an accepted record tells: nobody has imported the token. -/
theorem not_imports_of_accepted (hI : Inv s) {t : τ} {host : String} {r : BridgeRecord}
    (hr : s.accepted t host = some r) (hsafe : ∀ j, (s.pc j).importing ≠ some t) : ∀ j, ¬ (s.pc j).Imports t := by
  rintro j (h | h)
  · exact hsafe j h
  · obtain ⟨r', hr', hc⟩ := (hI.calls j).done t h
    obtain ⟨hrec, hp⟩ := Option.filter_eq_some_iff.1 hr
    obtain rfl := Option.some.inj (hr'.symm.trans hrec)
    rw [hc] at hp
    cases hp

/-- The first command of a call. -/
theorem inv_start (hI : Inv s) (hpc : s.pc i = .start) (hsafe : Safe R s i) (h : step R s i = some s') : Inv s' := by
  have hread : (s.pc i).reading = none := by rw [hpc]; rfl
  have hb := before_handed hI (i := i) (by rw [hpc]; rfl)
  simp only [step, hpc] at h
  simp only [Safe, hpc] at hsafe
  cases hR : R i with
  | importBridgeCookies t cookies host =>
    simp only [hR] at h hsafe
    cases hr : s.accepted t host with
    | none =>
      simp only [hr] at h
      obtain rfl := Option.some.inj h
      exact inv_setPc hI hread (local_of_idle rfl rfl rfl fun g hg => .inl (hb g hg)) (not_imports rfl rfl)
    | some r =>
      simp only [hr] at h
      obtain rfl := Option.some.inj h
      refine inv_setPc hI hread (local_of_idle rfl rfl rfl fun g hg => .inl (hb g hg)) fun t' ht => .inr ?_
      obtain rfl := Option.some.inj (ht.resolve_right nofun)
      exact not_imports_of_accepted hI hr (hsafe (by rw [hr]; nofun))
  | put fields =>
    simp only [hR] at h
    obtain rfl := Option.some.inj h
    obtain ⟨hr, hs, -, hd, hi⟩ := afterField_eq (τ := τ) (fields.filterMap fun p => p.2.map fun v => (p.1, v)) none
    exact inv_setPc hI hread (local_of_idle hr hs hd fun g hg => .inl (hb g hg)) (not_imports hi hd)
  | take =>
    simp only [hR] at h
    split at h
    · next hempty =>
      obtain rfl := Option.some.inj h
      exact inv_begin hI hread rfl rfl rfl rfl hempty.symm
    · obtain rfl := Option.some.inj h
      exact inv_begin hI hread rfl rfl rfl rfl rfl
  | consumeSecret g =>
    simp only [hR] at h hsafe
    cases hs : s.secrets g with
    | none =>
      simp only [hs] at h
      obtain rfl := Option.some.inj h
      exact inv_setPc hI hread (local_of_idle rfl rfl rfl fun g hg => .inl (hb g hg)) (not_imports rfl rfl)
    | some v =>
      simp only [hs] at h
      obtain rfl := Option.some.inj h
      have hne : s.secrets g ≠ none := by rw [hs]; nofun
      exact inv_read hI hread hne (hsafe hne) rfl rfl rfl rfl fun g' hg => .inl (List.mem_append_left _ (hb g' hg))

theorem inv_step (hI : Inv s) (hsafe : Safe R s i) (h : step R s i = some s') : Inv s' := by
  have hb := (hI.calls i).todo
  cases hpc : s.pc i with
  | start => exact inv_start hI hpc hsafe h
  | creating f v todo bridge =>
    simp only [step, hpc] at h
    obtain rfl := Option.some.inj h
    exact inv_create hI hpc
  | stored g todo bridge =>
    simp only [step, hpc] at h
    obtain rfl := Option.some.inj h
    have hc := hI.calls i
    rw [hpc] at hc
    refine inv_setPc hI (by rw [hpc]; rfl) ⟨nofun, hc.storing, hc.todo, nofun⟩ ?_
    rw [hpc]
    exact imports_of_importing rfl rfl
  | mapped g m todo bridge =>
    simp only [step, hpc] at h
    simp only [Safe, hpc] at hsafe
    obtain rfl := Option.some.inj h
    exact inv_enter hI hpc hsafe
  | marking t r =>
    simp only [step, hpc] at h
    obtain rfl := Option.some.inj h
    exact inv_mark hI hpc
  | marked t =>
    simp only [step, hpc] at h
    obtain rfl := Option.some.inj h
    have hc := hI.calls i
    rw [hpc] at hc
    refine inv_of hI rfl (fun _ _ => rfl) (.of_eq rfl rfl rfl) ⟨nofun, nofun, hc.todo, hc.done⟩ hI.fresh hI.nodup
      (fun g hg hgs => .inr ⟨hg, hgs, ?_⟩) hI.created (fun t ht => .inl ?_)
    · rw [hpc]
      nofun
    · rw [hpc]
      exact .inr (ht.resolve_left nofun)
  | taking todo out =>
    have hread : (s.pc i).reading = none := by rw [hpc]; rfl
    rw [hpc] at hb
    cases todo with
    | nil =>
      simp only [step, hpc] at h
      simp only [Safe, hpc] at hsafe
      obtain rfl := Option.some.inj h
      exact inv_clear hI hpc hsafe
    | cons p todo =>
      obtain ⟨f, g⟩ := p
      simp only [step, hpc] at h
      simp only [Safe, hpc] at hsafe
      cases hs : s.secrets g with
      | none =>
        simp only [hs] at h
        obtain rfl := Option.some.inj h
        refine inv_setPc hI hread (local_of_idle rfl rfl rfl fun k hk => ?_) (not_imports rfl rfl)
        rcases hb k hk with hk | ⟨hks, ht⟩
        · exact .inl hk
        · rcases List.mem_cons.1 ht with rfl | ht
          · exact absurd hs hks
          · exact .inr ⟨hks, ht⟩
      | some v =>
        simp only [hs] at h
        obtain rfl := Option.some.inj h
        have hne : s.secrets g ≠ none := by rw [hs]; nofun
        refine inv_read hI hread hne (hsafe hne) rfl rfl rfl rfl fun k hk => ?_
        rcases hb k hk with hk | ⟨hks, ht⟩
        · exact .inl (List.mem_append_left _ hk)
        · rcases List.mem_cons.1 ht with rfl | ht
          · exact .inl (List.mem_append_right _ (List.mem_singleton_self _))
          · exact .inr ⟨hks, ht⟩
  | deleting g f v todo out =>
    simp only [step, hpc] at h
    obtain rfl := Option.some.inj h
    rw [hpc] at hb
    exact inv_delete hI (by rw [hpc]; rfl) rfl rfl rfl rfl hb
  | consuming g v =>
    simp only [step, hpc] at h
    obtain rfl := Option.some.inj h
    rw [hpc] at hb
    exact inv_delete hI (by rw [hpc]; rfl) rfl rfl rfl rfl hb
  | imported t => simp [step, hpc] at h
  | submitted => simp [step, hpc] at h
  | took out => simp [step, hpc] at h
  | consumed v => simp [step, hpc] at h
  | raised => simp [step, hpc] at h

theorem inv_reach (h : (vault R).Reach (Safe R) s) : Inv s := by
  refine h.induct ?_ fun _ _ _ hI hsafe ht => inv_step hI hsafe ht
  rintro _ ⟨records, rfl⟩
  refine ⟨fun h hh => ?_, List.nodup_nil, nofun, nofun, fun t i j hi => ?_, fun i => ⟨nofun, nofun, nofun, nofun⟩⟩
  · exact absurd hh (by simp)
  · exact fun _ => not_imports (P := fun _ => i = j) rfl rfl t hi

/-- Where no read finds another call after the same read, and no write of the table leaves a pending secret out, single
use holds in every state. -/
theorem singleUse_of_safe (h : (vault R).Reach (Safe R) s) : Law s := by
  have hI := inv_reach h
  refine ⟨fun t i j hi hj => ?_, hI.nodup, fun i out hi => ?_⟩
  · exact hI.once t i j (.inr (by rw [hi]; rfl)) (.inr (by rw [hj]; rfl))
  · exact before_handed hI (by rw [hi]; rfl)

end Model

/-! ### Runs -/

/-- A gate with two fields and the cookies of a bridge, and two calls of `take`. -/
def calls : Fin 4 → Call Unit
  | 0 => .put [("user", some "ann"), ("note", none), ("code", some "1234")]
  | 1 => .importBridgeCookies () "[]" "www.shop.com"
  | 2 | 3 => .take

def fresh : State (Fin 4) Unit where
  secrets _ := none
  table := none
  records _ := some ⟨"shop.com", false, false⟩
  gateStatus := none
  nextNonce := 0
  pc _ := .start
  created := []
  handed := []
  before _ := []

/-- The fields and the import one after the other, then a `take` of all. -/
theorem singleUse_after_take : ∃ s, (vault calls).Reach (Safe calls) s ∧
    s.pc 2 = .took [("user", "ann"), ("code", "1234"), ("_bridge_cookies", "[]")] ∧ s.pc 1 = .imported () ∧ Law s := by
  obtain ⟨s, -, hr, hp⟩ := Machine.reach_of_exec (M := vault calls) (C := Safe calls) (s := fresh)
    (p := fun s => decide (s.pc 2 = .took [("user", "ann"), ("code", "1234"), ("_bridge_cookies", "[]")] ∧
      s.pc 1 = .imported ()))
    (List.replicate 7 0 ++ List.replicate 6 1 ++ List.replicate 8 2) ⟨_, rfl⟩ (by decide)
  obtain ⟨htook, himported⟩ := of_decide_eq_true hp
  exact ⟨s, hr, htook, himported, singleUse_of_safe hr⟩

/-- Two takes read the same secret before either deletes it. -/
theorem not_singleUse : ¬ ∀ s, (vault calls).Reach Free s → Law s := by
  intro h
  obtain ⟨s, -, hr, hp⟩ := Machine.reach_of_exec (M := vault calls) (C := Free) (s := fresh)
    (p := fun s => decide (¬ s.handed.Nodup))
    (List.replicate 4 0 ++ [2, 3, 2, 3]) ⟨_, rfl⟩ (by decide)
  exact of_decide_eq_true hp (h s hr).handedOnce

end NexusStudio.Vault
