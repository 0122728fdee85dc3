import NexusStudio.Files.FileOps
import NexusStudio.Lib.Json
import NexusStudio.Lib.Machine

/-!
# Attachments in the workspace

`materialize_turn_assets_to_workspace` downloads the assets of a turn into the workspace of its conversation. A download
runs in a thread of its own, and a call that gives up removes the file and leaves the thread.

* (paths) The path of a file says whose it is: `binaryRel_inj`.
* (machine) The calls of a conversation, one after the other, with the threads that they have left behind. A thread
  writes to the file that it has opened, whatever has become of its name.
* (defect) A thread that is given up before it opens its file truncates the file of a later call.
* (result) In `Kept` runs, which have no such thread, a call returns the paths of whole files: `materialized_whole`.
-/

set_option linter.unusedSectionVars false

namespace NexusStudio.Materialize

open Concurrent Files

/-! ### Paths -/

/-- What is read of a row of `chat_attachments`; it does not change. -/
structure Attachment where
  filename : String
  storageKey : String
  fileSha256 : Option String

/-- The rows and the objects. The filename of an asset can be updated, its key cannot. -/
structure Storage where
  attachment : ℕ → Attachment
  assetKey : ℕ → String
  object : String → List UInt8

/-- An asset of a turn: its attachment in the conversation, or the asset itself with its present filename. -/
inductive Item
  | attachment (id : ℕ)
  | asset (id : ℕ) (filename : String)
  deriving DecidableEq

namespace Storage

variable (D : Storage)

def safeName : Item → String
  | .attachment id => name (D.attachment id).filename
  | .asset _ filename => name filename

def storageKey : Item → String
  | .attachment id => (D.attachment id).storageKey
  | .asset id _ => D.assetKey id

def content (m : Item) : List UInt8 := D.object (D.storageKey m)

def idText (id : ℕ) : String := String.ofList (Nat.toDigits 10 id)

/-- The first part of the name of a file. -/
def stem : Item → String
  | .attachment id => idText id
  | .asset id _ => "asset_" ++ idText id

def binaryRel (m : Item) : String := "attachments/" ++ stem m ++ "_" ++ D.safeName m

def manifestKey (id : ℕ) : String := idText id ++ ":" ++ (D.attachment id).fileSha256.getD ""

end Storage

/-- A number ends where a character that is no digit follows. -/
theorem idText_append_inj {id id' : ℕ} {d e : Char} {l l' : List Char} (hd : d.isDigit = false)
    (he : e.isDigit = false) (h : Nat.toDigits 10 id ++ d :: l = Nat.toDigits 10 id' ++ e :: l') : id = id' := by
  have htake : ∀ {n : ℕ} {c : Char} {k : List Char}, c.isDigit = false →
      (Nat.toDigits 10 n ++ c :: k).takeWhile Char.isDigit = Nat.toDigits 10 n := by
    intro n c k hc
    rw [List.takeWhile_append_of_pos fun f hf => JsonText.digit_of_mem hf, List.takeWhile_cons, hc]
    exact List.append_nil _
  have hdigits := congrArg (List.takeWhile Char.isDigit) h
  rw [htake hd, htake he] at hdigits
  exact JsonText.toDigits_injective hdigits

variable {D : Storage}

theorem binaryRel_toList (m : Item) : (D.binaryRel m).toList =
    "attachments/".toList ++ ((Storage.stem m).toList ++ '_' :: (D.safeName m).toList) := by
  have hunderscore : "_".toList = ['_'] := rfl
  rw [Storage.binaryRel, String.toList_append, String.toList_append, String.toList_append, hunderscore,
    List.append_assoc, List.append_assoc, List.singleton_append]

theorem idText_toList (id : ℕ) : (Storage.idText id).toList = Nat.toDigits 10 id := String.toList_ofList

theorem stem_attachment (id : ℕ) : (Storage.stem (.attachment id)).toList = Nat.toDigits 10 id := idText_toList id

theorem stem_asset (id : ℕ) (filename : String) :
    (Storage.stem (.asset id filename)).toList = "asset_".toList ++ Nat.toDigits 10 id := by
  rw [Storage.stem, String.toList_append, idText_toList]

/-- No number begins with the letter of `asset_`. -/
theorem digits_ne_asset {id : ℕ} {l k : List Char} : Nat.toDigits 10 id ++ l ≠ "asset_".toList ++ k := by
  intro h
  obtain ⟨d, ds, hd⟩ := List.exists_cons_of_ne_nil (Nat.toDigits_ne_nil (n := id) (b := 10))
  rw [hd] at h
  have hdigit := JsonText.digit_of_mem (n := id) (hd ▸ List.mem_cons_self)
  rw [(List.cons.inj h).1] at hdigit
  cases hdigit

/-- A path says whose file it is. -/
theorem binaryRel_inj {m m' : Item} (h : D.binaryRel m = D.binaryRel m') :
    (∃ id, m = .attachment id ∧ m' = .attachment id) ∨
      ∃ id filename filename', m = .asset id filename ∧ m' = .asset id filename' := by
  have hstems := congrArg String.toList h
  rw [binaryRel_toList, binaryRel_toList] at hstems
  replace hstems := List.append_cancel_left hstems
  cases m with
  | attachment id =>
    rw [stem_attachment] at hstems
    cases m' with
    | attachment id' =>
      rw [stem_attachment] at hstems
      rw [idText_append_inj (by decide) (by decide) hstems]
      exact .inl ⟨id', rfl, rfl⟩
    | asset id' filename' =>
      rw [stem_asset, List.append_assoc] at hstems
      exact absurd hstems digits_ne_asset
  | asset id filename =>
    rw [stem_asset, List.append_assoc] at hstems
    cases m' with
    | attachment id' =>
      rw [stem_attachment] at hstems
      exact absurd hstems.symm digits_ne_asset
    | asset id' filename' =>
      rw [stem_asset, List.append_assoc] at hstems
      rw [idText_append_inj (by decide) (by decide) (List.append_cancel_left hstems)]
      exact .inr ⟨id', filename, filename', rfl, rfl⟩

theorem content_of_binaryRel {m m' : Item} (h : D.binaryRel m = D.binaryRel m') : D.content m = D.content m' := by
  rcases binaryRel_inj h with ⟨id, rfl, rfl⟩ | ⟨id, filename, filename', rfl, rfl⟩ <;> rfl

theorem manifestKey_injective : Function.Injective D.manifestKey := by
  intro id id' h
  have hlist := congrArg String.toList h
  simp only [Storage.manifestKey, Storage.idText, String.toList_append, String.toList_ofList,
    List.append_assoc] at hlist
  exact idText_append_inj (d := ':') (e := ':') (by decide) (by decide) hlist

/-! ### Machine -/

inductive Phase
  | queued
  -- in `get_object`
  | running
  -- the file that is open, and how much has been written
  | writing (inode written : ℕ)
  | finished (inode : ℕ)
  deriving DecidableEq

def Phase.isWriting : Phase → Bool
  | writing .. => true
  | _ => false

/-- What a call leaves behind when it gives up: a thread that has not started is cancelled. -/
def Phase.isOpen : Phase → Bool
  | running | writing .. => true
  | _ => false

/-- A thread with `_download_file`. -/
structure Thread where
  path : String
  object : List UInt8
  phase : Phase

/-- Where the call is, with the items that are left and those that it has materialized. -/
inductive Pc
  | idle
  | working (rest : List Item) (done : List (Item × String))
  | waiting (thread : ℕ) (item : Item) (rest : List Item) (done : List (Item × String))
  -- `record_materialized`
  | recording (id : ℕ) (rest : List Item) (done : List (Item × String))

structure State where
  names : String → Option ℕ
  data : ℕ → List UInt8
  nextInode : ℕ
  -- the `binary_rel` in what `load_manifest` returns
  manifest : String → Option String
  threads : ℕ → Option Thread
  nextThread : ℕ
  pc : Pc
  -- the items of the last call
  asked : List Item

inductive Act
  | start (items : List Item)
  | next
  -- the executor starts a thread, and what the thread does
  | run (thread : ℕ)
  | openFile (thread : ℕ)
  | write (thread size : ℕ)
  | close (thread : ℕ)
  | fail (thread : ℕ)
  -- the call is cancelled, or its download takes too long
  | giveUp
  -- `save_manifest` raises; a text that it leaves half written is not JSON
  | failSave (lost : Bool)
  -- the process ends
  | kill

/-- Writing at an offset of a file, as after a `truncate` of another thread. -/
def writeAt (bytes : List UInt8) (offset : ℕ) (chunk : List UInt8) : List UInt8 :=
  bytes.takeD offset 0 ++ chunk ++ bytes.drop (offset + chunk.length)

namespace State

variable (D : Storage) (s : State)

def file (path : String) : Option (List UInt8) := (s.names path).map s.data

/-- The path of a file that needs no download. -/
def hit : Item → Option String
  | .attachment id => (s.manifest (D.manifestKey id)).filter fun path => (s.names path).isSome
  | .asset id filename =>
    if (s.names (D.binaryRel (.asset id filename))).isSome then some (D.binaryRel (.asset id filename)) else none

def setThread (t : ℕ) (o : Option Thread) : State := { s with threads := Function.update s.threads t o }

def unlink (path : String) : State := { s with names := Function.update s.names path none }

/-- The call after its thread has ended. -/
def collect (t : ℕ) (m : Item) (rest : List Item) (done : List (Item × String)) : Option State :=
  match (s.threads t).map Thread.phase, m with
  | some (.finished _), .attachment id => some { s.setThread t none with pc := .recording id rest done }
  | some (.finished _), .asset .. =>
    some { s.setThread t none with pc := .working rest (done ++ [(m, D.binaryRel m)]) }
  | _, _ => none

/-- The next lines of the call. -/
def advance : Pc → Option State
  | .idle => none
  | .working [] _ => some { s with pc := .idle }
  | .working (m :: rest) done =>
    if D.safeName m = "" then some { s with pc := .idle }
    else match s.hit D m with
      | some path => some { s with pc := .working rest (done ++ [(m, path)]) }
      | none =>
        some { s.setThread s.nextThread (some ⟨D.binaryRel m, D.content m, .queued⟩) with
          nextThread := s.nextThread + 1, pc := .waiting s.nextThread m rest done }
  | .waiting t m rest done => s.collect D t m rest done
  | .recording id rest done =>
    some { s with
      manifest := Function.update s.manifest (D.manifestKey id) (some (D.binaryRel (.attachment id)))
      pc := .working rest (done ++ [(.attachment id, D.binaryRel (.attachment id))]) }

/-- `open(dest, "wb")`. -/
def openFile (t : ℕ) (th : Thread) : State :=
  match s.names th.path with
  | some n => { s.setThread t (some { th with phase := .writing n 0 }) with data := Function.update s.data n [] }
  | none =>
    { s.setThread t (some { th with phase := .writing s.nextInode 0 }) with
      names := Function.update s.names th.path (some s.nextInode)
      data := Function.update s.data s.nextInode []
      nextInode := s.nextInode + 1 }

/-- The next chunk of the object. -/
def write (t : ℕ) (th : Thread) (n written size : ℕ) : State :=
  let chunk := (th.object.drop written).take size
  { s.setThread t (some { th with phase := .writing n (written + chunk.length) }) with
    data := Function.update s.data n (writeAt (s.data n) written chunk) }

end State

/-- The thread that the call waits for. -/
def Pc.thread : Pc → Option ℕ
  | waiting t .. => some t
  | _ => none

/-- `wait_for` raises in the call: the partial file is removed. -/
def State.abandon (D : Storage) (s : State) : Pc → Option State
  | .waiting t m _ _ =>
    some { s.unlink (D.binaryRel m) with
      threads := if (s.threads t).any (!·.phase.isOpen) then Function.update s.threads t none else s.threads
      pc := .idle }
  | _ => none

def step (D : Storage) (s : State) : Act → Option State
  | .start items =>
    match s.pc with
    | .idle => some { s with pc := .working items [], asked := items }
    | _ => none
  | .next => s.advance D s.pc
  | .run t =>
    match s.threads t with
    | some ⟨path, object, .queued⟩ => some (s.setThread t (some ⟨path, object, .running⟩))
    | _ => none
  | .openFile t =>
    match s.threads t with
    | some ⟨path, object, .running⟩ => some (s.openFile t ⟨path, object, .running⟩)
    | _ => none
  | .write t size =>
    match s.threads t with
    | some ⟨path, object, .writing n written⟩ => some (s.write t ⟨path, object, .writing n written⟩ n written size)
    | _ => none
  | .close t =>
    match s.threads t with
    | some ⟨path, object, .writing n written⟩ =>
      if written < object.length then none else some (s.setThread t (some ⟨path, object, .finished n⟩))
    | _ => none
  | .fail t =>
    match s.threads t with
    | some ⟨path, _, .running⟩ | some ⟨path, _, .writing ..⟩ =>
      if s.pc.thread = some t then some { (s.unlink path).setThread t none with pc := .idle }
      else some (s.setThread t none)
    | _ => none
  | .giveUp => s.abandon D s.pc
  | .failSave lost =>
    match s.pc with
    | .recording .. => some { s with manifest := if lost then fun _ => none else s.manifest, pc := .idle }
    | _ => none
  | .kill => some { s with threads := fun _ => none, pc := .idle }

/-- An empty workspace. -/
def State.empty : State := ⟨fun _ => none, fun _ => [], 0, fun _ => none, fun _ => none, 0, .idle, []⟩

def workspace (D : Storage) : Machine State Act where
  init s := s = .empty
  step := step D

/-- The thread that the call waits for has opened its file when the call gives up, and is not writing to it when the
process ends. -/
def Kept (s : State) : Act → Prop
  | .giveUp => ∀ t ∈ s.pc.thread, ∀ th ∈ s.threads t, th.phase ≠ .running
  | .kill => ∀ t ∈ s.pc.thread, ∀ th ∈ s.threads t, th.phase.isWriting = false
  | _ => True

instance (s : State) (a : Act) : Decidable (Kept s a) := by
  cases a <;> unfold Kept <;> infer_instance

/-! ### What a step can do -/

inductive Steps (D : Storage) (s : State) : Act → State → Prop
  | start (items : List Item) (h : s.pc = .idle) :
      Steps D s (.start items) { s with pc := .working items [], asked := items }
  | return_ {done : List (Item × String)} (h : s.pc = .working [] done) : Steps D s .next { s with pc := .idle }
  | missing {m : Item} {rest : List Item} {done : List (Item × String)} (h : s.pc = .working (m :: rest) done) :
      Steps D s .next { s with pc := .idle }
  | hit {m : Item} {rest : List Item} {done : List (Item × String)} {path : String}
      (h : s.pc = .working (m :: rest) done) (hhit : s.hit D m = some path) :
      Steps D s .next { s with pc := .working rest (done ++ [(m, path)]) }
  | download {m : Item} {rest : List Item} {done : List (Item × String)} (h : s.pc = .working (m :: rest) done)
      (hhit : s.hit D m = none) : Steps D s .next
        { s.setThread s.nextThread (some ⟨D.binaryRel m, D.content m, .queued⟩) with
          nextThread := s.nextThread + 1, pc := .waiting s.nextThread m rest done }
  | resume {t n : ℕ} {m : Item} {rest : List Item} {done : List (Item × String)} {th : Thread} {c : Pc}
      (h : s.pc = .waiting t m rest done) (ht : s.threads t = some th) (hphase : th.phase = .finished n)
      (hc : (∃ id, m = .attachment id ∧ c = .recording id rest done) ∨
        (∃ id filename, m = .asset id filename) ∧ c = .working rest (done ++ [(m, D.binaryRel m)])) :
      Steps D s .next { s.setThread t none with pc := c }
  | record {id : ℕ} {rest : List Item} {done : List (Item × String)} (h : s.pc = .recording id rest done) :
      Steps D s .next { s with
        manifest := Function.update s.manifest (D.manifestKey id) (some (D.binaryRel (.attachment id)))
        pc := .working rest (done ++ [(.attachment id, D.binaryRel (.attachment id))]) }
  | run {t : ℕ} {th : Thread} (ht : s.threads t = some th) (hphase : th.phase = .queued) :
      Steps D s (.run t) (s.setThread t (some { th with phase := .running }))
  | openFile {t : ℕ} {th : Thread} (ht : s.threads t = some th) (hphase : th.phase = .running) :
      Steps D s (.openFile t) (s.openFile t th)
  | write {t n written size : ℕ} {th : Thread} (ht : s.threads t = some th) (hphase : th.phase = .writing n written) :
      Steps D s (.write t size) (s.write t th n written size)
  | close {t n written : ℕ} {th : Thread} (ht : s.threads t = some th) (hphase : th.phase = .writing n written)
      (hend : th.object.length ≤ written) : Steps D s (.close t) (s.setThread t (some { th with phase := .finished n }))
  | failWaited {t : ℕ} {th : Thread} (ht : s.threads t = some th) (h : s.pc.thread = some t) :
      Steps D s (.fail t) { (s.unlink th.path).setThread t none with pc := .idle }
  | failAlone {t : ℕ} (h : s.pc.thread ≠ some t) : Steps D s (.fail t) (s.setThread t none)
  | giveUp {t : ℕ} {m : Item} {rest : List Item} {done : List (Item × String)} {threads : ℕ → Option Thread}
      (h : s.pc = .waiting t m rest done) (hothers : ∀ t', t' ≠ t → threads t' = s.threads t')
      (hthread : threads t = none ∨ threads t = s.threads t ∧ ∀ th ∈ s.threads t, th.phase ≠ .queued) :
      Steps D s .giveUp { s.unlink (D.binaryRel m) with threads, pc := .idle }
  | failSave (lost : Bool) (h : s.pc.thread = none) : Steps D s (.failSave lost)
      { s with manifest := if lost then fun _ => none else s.manifest, pc := .idle }
  | kill : Steps D s .kill { s with threads := fun _ => none, pc := .idle }

variable {s s' : State}

theorem steps_of_advance {c : Pc} (hpc : s.pc = c) (h : s.advance D c = some s') : Steps D s .next s' := by
  cases c with
  | idle => cases h
  | working rest done =>
    cases rest with
    | nil =>
      cases h
      exact .return_ hpc
    | cons m rest =>
      rw [State.advance] at h
      split at h
      · cases h
        exact .missing hpc
      · split at h
        · next path hhit =>
          cases h
          exact .hit hpc hhit
        · next hhit =>
          cases h
          exact .download hpc hhit
  | waiting t m rest done =>
    rw [State.advance] at h
    unfold State.collect at h
    split at h
    · next n id hphase =>
      cases h
      obtain ⟨th, ht, hphase⟩ := Option.map_eq_some_iff.1 hphase
      exact .resume hpc ht hphase (.inl ⟨id, rfl, rfl⟩)
    · next n id filename hphase =>
      cases h
      obtain ⟨th, ht, hphase⟩ := Option.map_eq_some_iff.1 hphase
      exact .resume hpc ht hphase (.inr ⟨⟨id, filename, rfl⟩, rfl⟩)
    · cases h
  | recording id rest done =>
    cases h
    exact .record hpc

theorem steps_of_abandon {c : Pc} (hpc : s.pc = c) (h : s.abandon D c = some s') : Steps D s .giveUp s' := by
  cases c with
  | idle | working | recording => cases h
  | waiting t m rest done =>
    rw [State.abandon] at h
    cases h
    by_cases hopen : (s.threads t).any (!·.phase.isOpen) = true
    · rw [if_pos hopen]
      exact .giveUp hpc (fun t' ht' => Function.update_of_ne ht' ..) (.inl (Function.update_self ..))
    · rw [if_neg hopen]
      refine .giveUp hpc (fun _ _ => rfl) (.inr ⟨rfl, fun th hth hphase => hopen ?_⟩)
      rw [Option.mem_def.1 hth, Option.any_some, hphase]
      rfl

theorem steps_of_step {a : Act} (h : step D s a = some s') : Steps D s a s' := by
  cases a with
  | start items =>
    rw [step] at h
    split at h
    · next hpc =>
      cases h
      exact .start items hpc
    · cases h
  | next => exact steps_of_advance rfl h
  | run t =>
    rw [step] at h
    split at h
    · next ht =>
      cases h
      exact .run ht rfl
    · cases h
  | openFile t =>
    rw [step] at h
    split at h
    · next ht =>
      cases h
      exact .openFile ht rfl
    · cases h
  | write t size =>
    rw [step] at h
    split at h
    · next ht =>
      cases h
      exact .write ht rfl
    · cases h
  | close t =>
    rw [step] at h
    split at h
    · next ht =>
      obtain ⟨hend, h⟩ := Option.ite_none_left_eq_some.1 h
      cases h
      exact .close ht rfl (Nat.le_of_not_lt hend)
    · cases h
  | fail t =>
    have hfail : ∀ {th : Thread}, s.threads t = some th →
        (if s.pc.thread = some t then some { (s.unlink th.path).setThread t none with pc := .idle }
          else some (s.setThread t none)) = some s' → Steps D s (.fail t) s' := by
      intro th ht h
      split at h
      · next hpc =>
        cases h
        exact .failWaited ht hpc
      · next hpc =>
        cases h
        exact .failAlone hpc
    rw [step] at h
    split at h
    · next ht => exact hfail ht h
    · next ht => exact hfail ht h
    · cases h
  | giveUp => exact steps_of_abandon rfl h
  | failSave lost =>
    rw [step] at h
    split at h
    · next hpc =>
      cases h
      exact .failSave lost (by rw [hpc]; rfl)
    · cases h
  | kill =>
    cases h
    exact .kill

/-! ### Files -/

def Phase.inode : Phase → Option ℕ
  | writing n _ | finished n => some n
  | _ => none

/-- What the thread that the call waits for has done. -/
def Progress (s : State) (th : Thread) : Phase → Prop
  | .queued | .running => True
  | .writing n written => s.names th.path = some n ∧ s.data n = th.object.take written ∧ written ≤ th.object.length
  | .finished n => s.names th.path = some n ∧ s.data n = th.object

structure Inv (D : Storage) (s : State) : Prop where
  names_lt : ∀ p n, s.names p = some n → n < s.nextInode
  names_inj : ∀ p p' n, s.names p = some n → s.names p' = some n → p = p'
  thread_lt : ∀ t th, s.threads t = some th → t < s.nextThread
  inode_lt : ∀ t th n, s.threads t = some th → th.phase.inode = some n → n < s.nextInode
  -- a thread that has been left behind writes to a file without a name
  alone : ∀ t th, s.threads t = some th → s.pc.thread ≠ some t →
    th.phase ≠ .queued ∧ th.phase ≠ .running ∧ ∀ n, th.phase.inode = some n → ∀ p, s.names p ≠ some n
  waited : ∀ t m rest done, s.pc = .waiting t m rest done →
    ∃ th, s.threads t = some th ∧ th.path = D.binaryRel m ∧ th.object = D.content m ∧ Progress s th th.phase
  whole : ∀ p n, s.names p = some n → (∃ m, D.binaryRel m = p ∧ s.data n = D.content m) ∨
    ∃ t th k, s.pc.thread = some t ∧ s.threads t = some th ∧ th.phase = .writing n k

variable {t : ℕ} {th : Thread}

theorem exists_waiting {c : Pc} (h : c.thread = some t) : ∃ m rest done, c = .waiting t m rest done := by
  cases c with
  | waiting t' m rest done =>
    cases h
    exact ⟨m, rest, done, rfl⟩
  | idle | working | recording => cases h

theorem Inv.progress (hI : Inv D s) (hpc : s.pc.thread = some t) (ht : s.threads t = some th) :
    ∃ m rest done, s.pc = .waiting t m rest done ∧ th.path = D.binaryRel m ∧ th.object = D.content m ∧
      Progress s th th.phase := by
  obtain ⟨m, rest, done, hwait⟩ := exists_waiting hpc
  obtain ⟨th', ht', h⟩ := hI.waited t m rest done hwait
  cases ht.symm.trans ht'
  exact ⟨m, rest, done, hwait, h⟩

/-- While no thread is waited for, every file is whole. -/
theorem Inv.whole_of_none (hI : Inv D s) (hpc : s.pc.thread = none) {p : String} {n : ℕ} (hn : s.names p = some n) :
    ∃ m, D.binaryRel m = p ∧ s.data n = D.content m := by
  refine (hI.whole p n hn).resolve_right ?_
  rintro ⟨t, th, k, hwait, -⟩
  rw [hpc] at hwait
  cases hwait

/-- A step of the call that leaves the files and the threads. -/
theorem Inv.quiet (hI : Inv D s) (hpc : s.pc.thread = none) {c : Pc} (hc : c.thread = none)
    (manifest : String → Option String) (asked : List Item) : Inv D { s with manifest, pc := c, asked } := by
  refine ⟨hI.names_lt, hI.names_inj, hI.thread_lt, hI.inode_lt, fun t th ht _ => hI.alone t th ht (by rw [hpc]; nofun),
    fun t m rest done hwait => ?_, fun p n hn => .inl (hI.whole_of_none hpc hn)⟩
  rw [show c = .waiting t m rest done from hwait] at hc
  cases hc

/-- A step of the thread that the call waits for. -/
theorem Inv.of_waited (hI : Inv D s) (ht : s.threads t = some th) (hpc : s.pc.thread = some t) {phase : Phase}
    {names : String → Option ℕ} {data : ℕ → List UInt8} {nextInode : ℕ} (hnext : s.nextInode ≤ nextInode)
    (hlt : ∀ p n, names p = some n → n < nextInode)
    (hinj : ∀ p p' n, names p = some n → names p' = some n → p = p')
    (hnames : ∀ p n, names p = some n → s.names p = some n ∨ s.nextInode ≤ n)
    (hinode : ∀ n, phase.inode = some n → n < nextInode)
    (hprogress : Progress { s with names, data } { th with phase } phase)
    (hwhole : ∀ p n, names p = some n → (∃ m, D.binaryRel m = p ∧ data n = D.content m) ∨ ∃ k, phase = .writing n k) :
    Inv D { s.setThread t (some { th with phase }) with names, data, nextInode } := by
  have hof : ∀ {t' th'}, Function.update s.threads t (some { th with phase }) t' = some th' →
      (t' = t ∧ th' = { th with phase }) ∨ (t' ≠ t ∧ s.threads t' = some th') := by
    intro t' th' h
    by_cases htt : t' = t
    · subst htt
      rw [Function.update_self] at h
      exact .inl ⟨rfl, (Option.some.inj h).symm⟩
    · rw [Function.update_of_ne htt] at h
      exact .inr ⟨htt, h⟩
  have hself : Function.update s.threads t (some { th with phase }) t = some { th with phase } :=
    Function.update_self ..
  refine ⟨hlt, hinj, fun t' th' h => ?_, fun t' th' n h hn => ?_, fun t' th' h hne => ?_,
    fun t' m rest done hwait => ?_, fun p n hn => ?_⟩
  · rcases hof h with ⟨rfl, -⟩ | ⟨-, h⟩
    · exact hI.thread_lt _ _ ht
    · exact hI.thread_lt _ _ h
  · rcases hof h with ⟨-, rfl⟩ | ⟨-, h⟩
    · exact hinode n hn
    · exact (hI.inode_lt _ _ n h hn).trans_le hnext
  · rcases hof h with ⟨rfl, -⟩ | ⟨-, h⟩
    · exact absurd hpc hne
    · obtain ⟨hqueued, hrunning, hfree⟩ := hI.alone t' th' h hne
      refine ⟨hqueued, hrunning, fun n hn p hp => ?_⟩
      rcases hnames p n hp with hp | hp
      · exact hfree n hn p hp
      · exact absurd (hI.inode_lt _ _ n h hn) (Nat.not_lt.2 hp)
  · obtain ⟨m', rest', done', hwait', hpath, hobject, -⟩ := hI.progress hpc ht
    cases hwait'.symm.trans hwait
    exact ⟨_, hself, hpath, hobject, hprogress⟩
  · exact (hwhole p n hn).imp_right fun ⟨k, hk⟩ => ⟨t, _, k, hpc, hself, hk⟩

/-- A step of a thread that has been left behind. -/
theorem Inv.of_alone (hI : Inv D s) (hpc : s.pc.thread ≠ some t) {o : Option Thread} {data : ℕ → List UInt8}
    (ho : ∀ th ∈ o, ∃ th', s.threads t = some th' ∧ th.phase.inode = th'.phase.inode ∧ th.phase ≠ .queued ∧
      th.phase ≠ .running)
    (hdata : ∀ p n, s.names p = some n → data n = s.data n) : Inv D { s.setThread t o with data } := by
  have hof : ∀ {t' th}, Function.update s.threads t o t' = some th → ∃ th', s.threads t' = some th' ∧
      th.phase.inode = th'.phase.inode ∧ (t' = t → th.phase ≠ .queued ∧ th.phase ≠ .running) ∧ (t' ≠ t → th = th') := by
    intro t' th h
    by_cases htt : t' = t
    · subst htt
      rw [Function.update_self] at h
      obtain ⟨th', ht', hinode, hphase⟩ := ho th h
      exact ⟨th', ht', hinode, fun _ => hphase, fun hne => absurd rfl hne⟩
    · rw [Function.update_of_ne htt] at h
      exact ⟨th, h, rfl, fun htt' => absurd htt' htt, fun _ => rfl⟩
  refine ⟨hI.names_lt, hI.names_inj, fun t' th h => ?_, fun t' th n h hn => ?_, fun t' th h hne => ?_,
    fun t' m rest done hwait => ?_, fun p n hn => ?_⟩
  · obtain ⟨th', ht', -⟩ := hof h
    exact hI.thread_lt t' th' ht'
  · obtain ⟨th', ht', hinode, -⟩ := hof h
    exact hI.inode_lt t' th' n ht' (hinode ▸ hn)
  · obtain ⟨th', ht', hinode, hown, hother⟩ := hof h
    obtain ⟨hqueued, hrunning, hfree⟩ := hI.alone t' th' ht' hne
    rw [hinode]
    by_cases htt : t' = t
    · exact ⟨(hown htt).1, (hown htt).2, hfree⟩
    · rw [hother htt]
      exact ⟨hqueued, hrunning, hfree⟩
  · obtain ⟨th', ht', hpath, hobject, hprogress⟩ := hI.waited t' m rest done hwait
    have htt : t' ≠ t := by
      rintro rfl
      exact hpc (by rw [show s.pc = _ from hwait]; rfl)
    refine ⟨th', (Function.update_of_ne htt ..).trans ht', hpath, hobject, ?_⟩
    cases hphase : th'.phase with
    | queued | running => trivial
    | writing n k =>
      rw [hphase] at hprogress
      exact ⟨hprogress.1, (hdata _ _ hprogress.1).trans hprogress.2.1, hprogress.2.2⟩
    | finished n =>
      rw [hphase] at hprogress
      exact ⟨hprogress.1, (hdata _ _ hprogress.1).trans hprogress.2⟩
  · rcases hI.whole p n hn with ⟨m, hm, hwhole⟩ | ⟨t', th', k, hwait, ht', hphase⟩
    · exact .inl ⟨m, hm, (hdata p n hn).trans hwhole⟩
    · have htt : t' ≠ t := by
        rintro rfl
        exact hpc hwait
      exact .inr ⟨t', th', k, hwait, (Function.update_of_ne htt ..).trans ht', hphase⟩

/-- The end of a call, with the threads that it leaves behind. -/
theorem Inv.idle (hI : Inv D s) {names : String → Option ℕ} {threads : ℕ → Option Thread}
    (hnames : ∀ p n, names p = some n → s.names p = some n)
    (hthreads : ∀ t th, threads t = some th → s.threads t = some th)
    (hleft : ∀ t th, threads t = some th → s.pc.thread = some t →
      th.phase ≠ .queued ∧ th.phase ≠ .running ∧ ∀ n, th.phase.inode = some n → ∀ p, names p ≠ some n)
    (hwhole : ∀ t th p n k, s.pc.thread = some t → s.threads t = some th → th.phase = .writing n k → names p ≠ some n) :
    Inv D { s with names, threads, pc := .idle } := by
  refine ⟨fun p n hn => hI.names_lt p n (hnames p n hn),
    fun p p' n hn hn' => hI.names_inj p p' n (hnames p n hn) (hnames p' n hn'),
    fun t th ht => hI.thread_lt t th (hthreads t th ht), fun t th n ht hn => hI.inode_lt t th n (hthreads t th ht) hn,
    fun t th ht _ => ?_, nofun, fun p n hn => .inl ?_⟩
  · by_cases hpc : s.pc.thread = some t
    · exact hleft t th ht hpc
    · obtain ⟨hqueued, hrunning, hfree⟩ := hI.alone t th (hthreads t th ht) hpc
      exact ⟨hqueued, hrunning, fun n hn p hp => hfree n hn p (hnames p n hp)⟩
  · refine (hI.whole p n (hnames p n hn)).resolve_right ?_
    rintro ⟨t, th, k, hpc, ht, hphase⟩
    exact hwhole t th p n k hpc ht hphase hn

/-- The bytes that a thread writes go on from those that it has written. -/
theorem writeAt_take {object : List UInt8} {written size : ℕ} (h : written ≤ object.length) :
    writeAt (object.take written) written ((object.drop written).take size) =
      object.take (written + ((object.drop written).take size).length) := by
  have hlength : (object.take written).length = written := by rw [List.length_take, Nat.min_eq_left h]
  have hchunk : (object.drop written).take size =
      (object.drop written).take ((object.drop written).take size).length := by
    rw [List.length_take, ← List.take_eq_take_min]
  have hrest : (object.take written).drop (written + ((object.drop written).take size).length) = [] :=
    List.drop_eq_nil_of_le (by omega)
  rw [writeAt, hrest, List.append_nil, List.takeD_eq_take _ hlength.ge, List.take_of_length_le hlength.le,
    List.take_add, ← hchunk]

/-- The file of the thread that the call waits for has no other name. -/
theorem Inv.unlinked (hI : Inv D s) {path : String} {n : ℕ} (hn : s.names path = some n) (p : String) :
    Function.update s.names path none p ≠ some n := by
  intro hp
  by_cases hpath : p = path
  · subst hpath
    rw [Function.update_self] at hp
    cases hp
  · rw [Function.update_of_ne hpath] at hp
    exact hpath (hI.names_inj p path n hp hn)

theorem names_of_unlink {path p : String} {n : ℕ} (h : Function.update s.names path none p = some n) :
    s.names p = some n := by
  by_cases hp : p = path
  · subst hp
    rw [Function.update_self] at h
    cases h
  · rwa [Function.update_of_ne hp] at h

theorem inode_of_progress {phase : Phase} {n : ℕ} (h : Progress s th phase) (hn : phase.inode = some n) :
    s.names th.path = some n := by
  cases phase with
  | queued | running => cases hn
  | writing n' k =>
    cases hn
    exact h.1
  | finished n' =>
    cases hn
    exact h.1

theorem Inv.openFile (hI : Inv D s) (ht : s.threads t = some th) (hpc : s.pc.thread = some t)
    (hrunning : th.phase = .running) : Inv D (s.openFile t th) := by
  have hlt := hI.names_lt
  have hwhole : ∀ p n, s.names p = some n → ∃ m, D.binaryRel m = p ∧ s.data n = D.content m := by
    intro p n hn
    refine (hI.whole p n hn).resolve_right ?_
    rintro ⟨t', th', k, hpc', ht', hphase⟩
    cases hpc.symm.trans hpc'
    cases ht.symm.trans ht'
    rw [hrunning] at hphase
    cases hphase
  unfold State.openFile
  split
  · next n hn =>
    have hself : Function.update s.data n [] n = [] := Function.update_self ..
    refine hI.of_waited ht hpc (Nat.le_refl _) hlt hI.names_inj (fun p n' hn' => .inl hn') (fun n' hn' => ?_)
      ⟨hn, hself, Nat.zero_le _⟩ fun p n' hn' => ?_
    · cases hn'
      exact hlt _ _ hn
    · by_cases hnn : n' = n
      · exact .inr ⟨0, by rw [hnn]⟩
      · rw [Function.update_of_ne hnn]
        exact .inl (hwhole p n' hn')
  · next hnone =>
    have hself : Function.update s.data s.nextInode [] s.nextInode = [] := Function.update_self ..
    have hnew : ∀ {p n}, Function.update s.names th.path (some s.nextInode) p = some n →
        (p = th.path ∧ n = s.nextInode) ∨ s.names p = some n := by
      intro p n hn
      by_cases hp : p = th.path
      · subst hp
        rw [Function.update_self] at hn
        exact .inl ⟨rfl, (Option.some.inj hn).symm⟩
      · rw [Function.update_of_ne hp] at hn
        exact .inr hn
    refine hI.of_waited ht hpc (Nat.le_succ _) (fun p n hn => ?_) (fun p p' n hn hn' => ?_) (fun p n hn => ?_)
      (fun n hn => ?_) ⟨Function.update_self .., hself, Nat.zero_le _⟩ fun p n hn => ?_
    · rcases hnew hn with ⟨-, rfl⟩ | hn
      · exact Nat.lt_succ_self _
      · exact (hlt p n hn).trans (Nat.lt_succ_self _)
    · rcases hnew hn with ⟨rfl, rfl⟩ | hn
      · rcases hnew hn' with ⟨rfl, -⟩ | hn'
        · rfl
        · exact absurd (hlt _ _ hn') (Nat.lt_irrefl _)
      · rcases hnew hn' with ⟨-, rfl⟩ | hn'
        · exact absurd (hlt _ _ hn) (Nat.lt_irrefl _)
        · exact hI.names_inj p p' n hn hn'
    · rcases hnew hn with ⟨-, rfl⟩ | hn
      · exact .inr (Nat.le_refl _)
      · exact .inl hn
    · cases hn
      exact Nat.lt_succ_self _
    · rcases hnew hn with ⟨-, rfl⟩ | hn
      · exact .inr ⟨0, rfl⟩
      · rw [Function.update_of_ne (hlt p n hn).ne]
        exact .inl (hwhole p n hn)

theorem Inv.write (hI : Inv D s) (ht : s.threads t = some th) {n written : ℕ} (hphase : th.phase = .writing n written)
    (size : ℕ) : Inv D (s.write t th n written size) := by
  by_cases hpc : s.pc.thread = some t
  · obtain ⟨m, rest, done, -, -, hobject, hprogress⟩ := hI.progress hpc ht
    rw [hphase] at hprogress
    obtain ⟨hname, hdata, hwritten⟩ := hprogress
    have hself : Function.update s.data n (writeAt (s.data n) written ((th.object.drop written).take size)) n =
        th.object.take (written + ((th.object.drop written).take size).length) := by
      rw [Function.update_self, hdata, writeAt_take hwritten]
    refine hI.of_waited ht hpc (Nat.le_refl _) hI.names_lt hI.names_inj (fun _ _ => .inl) (fun n' hn' => ?_)
      ⟨hname, hself, ?_⟩ fun p n' hn' => ?_
    · cases hn'
      exact hI.names_lt _ _ hname
    · have hle : ((th.object.drop written).take size).length ≤ th.object.length - written := by
        rw [List.length_take, List.length_drop]
        exact Nat.min_le_right ..
      exact (Nat.add_le_add_left hle written).trans (Nat.add_sub_of_le hwritten).le
    · by_cases hnn : n' = n
      · exact .inr ⟨_, by rw [hnn]⟩
      · rw [Function.update_of_ne hnn]
        refine .inl ((hI.whole p n' hn').resolve_right ?_)
        rintro ⟨t', th', k, hpc', ht', hphase'⟩
        cases hpc.symm.trans hpc'
        cases ht.symm.trans ht'
        cases hphase.symm.trans hphase'
        exact hnn rfl
  · obtain ⟨-, -, hfree⟩ := hI.alone t th ht hpc
    refine hI.of_alone hpc (fun th' hth' => ?_) fun p n' hn' => ?_
    · cases hth'
      exact ⟨th, ht, by rw [hphase]; rfl, nofun, nofun⟩
    · refine Function.update_of_ne ?_ ..
      rintro rfl
      exact hfree n' (by rw [hphase]; rfl) p hn'

theorem Inv.close (hI : Inv D s) (ht : s.threads t = some th) {n written : ℕ} (hphase : th.phase = .writing n written)
    (hend : th.object.length ≤ written) : Inv D (s.setThread t (some { th with phase := .finished n })) := by
  by_cases hpc : s.pc.thread = some t
  · obtain ⟨m, rest, done, -, hpath, hobject, hprogress⟩ := hI.progress hpc ht
    rw [hphase] at hprogress
    obtain ⟨hname, hdata, -⟩ := hprogress
    rw [List.take_of_length_le hend] at hdata
    refine hI.of_waited ht hpc (Nat.le_refl _) hI.names_lt hI.names_inj (fun _ _ => .inl) (fun n' hn' => ?_)
      ⟨hname, hdata⟩ fun p n' hn' => .inl ?_
    · cases hn'
      exact hI.names_lt _ _ hname
    · rcases hI.whole p n' hn' with hwhole | ⟨t', th', k, hpc', ht', hphase'⟩
      · exact hwhole
      · cases hpc.symm.trans hpc'
        cases ht.symm.trans ht'
        cases hphase.symm.trans hphase'
        exact ⟨m, hpath.symm.trans (hI.names_inj _ p n hname hn'), hdata.trans hobject⟩
  · refine hI.of_alone hpc (fun th' hth' => ?_) fun _ _ _ => rfl
    cases hth'
    exact ⟨th, ht, by rw [hphase]; rfl, nofun, nofun⟩

theorem Inv.giveUp (hI : Inv D s) {m : Item} {rest : List Item} {done : List (Item × String)}
    {threads : ℕ → Option Thread} (hpc : s.pc = .waiting t m rest done)
    (hothers : ∀ t', t' ≠ t → threads t' = s.threads t')
    (hthread : threads t = none ∨
      threads t = s.threads t ∧ ∀ th ∈ s.threads t, th.phase ≠ .queued ∧ th.phase ≠ .running) :
    Inv D { s.unlink (D.binaryRel m) with threads, pc := .idle } := by
  obtain ⟨th, ht, hpath, -, hprogress⟩ := hI.waited t m rest done hpc
  have hwait : s.pc.thread = some t := by
    rw [hpc]
    rfl
  have hfree : ∀ n, th.phase.inode = some n → ∀ p, Function.update s.names (D.binaryRel m) none p ≠ some n := by
    intro n hn p
    exact hI.unlinked (hpath ▸ inode_of_progress hprogress hn) p
  refine hI.idle (fun p n hn => names_of_unlink hn) (fun t' th' ht' => ?_) (fun t' th' ht' hwait' => ?_)
    fun t' th' p n k hwait' ht' hphase => ?_
  · by_cases htt : t' = t
    · subst htt
      rcases hthread with hnone | ⟨hsame, -⟩
      · rw [hnone] at ht'
        cases ht'
      · rw [← hsame]
        exact ht'
    · exact (hothers t' htt).symm.trans ht'
  · cases hwait.symm.trans hwait'
    rcases hthread with hnone | ⟨hsame, hopen⟩
    · rw [hnone] at ht'
      cases ht'
    · cases (hsame.symm.trans ht').symm.trans ht
      exact ⟨(hopen _ ht).1, (hopen _ ht).2, hfree⟩
  · cases hwait.symm.trans hwait'
    cases ht.symm.trans ht'
    exact hfree n (by rw [hphase]; rfl) p

theorem inv_step (hI : Inv D s) {a : Act} (hC : Kept s a) (h : Steps D s a s') : Inv D s' := by
  cases h with
  | start items hpc => exact hI.quiet (by rw [hpc]; rfl) rfl s.manifest items
  | return_ hpc | missing hpc | hit hpc | record hpc => exact hI.quiet (by rw [hpc]; rfl) rfl _ s.asked
  | failSave lost hpc => exact hI.quiet hpc rfl _ s.asked
  | @download m rest done hpc hhit =>
    have hnone : s.pc.thread = none := by
      rw [hpc]
      rfl
    have hof : ∀ {t th}, Function.update s.threads s.nextThread
        (some ⟨D.binaryRel m, D.content m, .queued⟩) t = some th →
        (t = s.nextThread ∧ th = ⟨D.binaryRel m, D.content m, .queued⟩) ∨ s.threads t = some th := by
      intro t th h
      by_cases ht : t = s.nextThread
      · subst ht
        rw [Function.update_self] at h
        exact .inl ⟨rfl, (Option.some.inj h).symm⟩
      · rw [Function.update_of_ne ht] at h
        exact .inr h
    refine ⟨hI.names_lt, hI.names_inj, fun t th ht => ?_, fun t th n ht hn => ?_, fun t th ht hne => ?_,
      fun t m' rest' done' hwait => ?_, fun p n hn => .inl (hI.whole_of_none hnone hn)⟩
    · rcases hof ht with ⟨rfl, -⟩ | ht
      · exact Nat.lt_succ_self _
      · exact (hI.thread_lt t th ht).trans (Nat.lt_succ_self _)
    · rcases hof ht with ⟨-, rfl⟩ | ht
      · cases hn
      · exact hI.inode_lt t th n ht hn
    · rcases hof ht with ⟨rfl, -⟩ | ht
      · exact absurd rfl hne
      · exact hI.alone t th ht (by rw [hnone]; nofun)
    · cases hwait
      exact ⟨_, Function.update_self .., rfl, rfl, trivial⟩
  | @resume t n m rest done th c hpc ht hphase hc =>
    have hwait : s.pc.thread = some t := by
      rw [hpc]
      rfl
    have hthread : c.thread = none := by
      rcases hc with ⟨id, -, rfl⟩ | ⟨-, rfl⟩ <;> rfl
    have hidle : Inv D { s with threads := Function.update s.threads t none, pc := .idle } := by
      refine hI.idle (fun _ _ hn => hn) (fun t' th' ht' => ?_) (fun t' th' ht' hwait' => ?_)
        fun t' th' p n' k hwait' ht' hphase' => ?_
      · by_cases htt : t' = t
        · subst htt
          rw [Function.update_self] at ht'
          cases ht'
        · rwa [Function.update_of_ne htt] at ht'
      · cases hwait.symm.trans hwait'
        rw [Function.update_self] at ht'
        cases ht'
      · cases hwait.symm.trans hwait'
        cases ht.symm.trans ht'
        rw [hphase] at hphase'
        cases hphase'
    exact hidle.quiet rfl hthread s.manifest s.asked
  | @run t th ht hphase =>
    have hpc : s.pc.thread = some t := by
      by_contra hne
      exact (hI.alone t th ht hne).1 hphase
    refine hI.of_waited ht hpc (Nat.le_refl _) hI.names_lt hI.names_inj (fun _ _ => .inl) nofun trivial
      fun p n hn => .inl ((hI.whole p n hn).resolve_right ?_)
    rintro ⟨t', th', k, hpc', ht', hphase'⟩
    cases hpc.symm.trans hpc'
    cases ht.symm.trans ht'
    rw [hphase] at hphase'
    cases hphase'
  | @openFile t th ht hphase =>
    refine hI.openFile ht ?_ hphase
    by_contra hne
    exact (hI.alone t th ht hne).2.1 hphase
  | write ht hphase => exact hI.write ht hphase _
  | close ht hphase hend => exact hI.close ht hphase hend
  | @failWaited t th ht hpc =>
    obtain ⟨m, rest, done, hwait, hpath, -⟩ := hI.progress hpc ht
    rw [hpath]
    exact hI.giveUp hwait (fun t' htt => Function.update_of_ne htt ..) (.inl (Function.update_self ..))
  | @failAlone t hpc => exact hI.of_alone hpc nofun fun _ _ _ => rfl
  | @giveUp t m rest done threads hpc hothers hthread =>
    have hrunning := hC t (by rw [hpc]; rfl)
    exact hI.giveUp hpc hothers (hthread.imp_right fun ⟨hsame, hqueued⟩ =>
      ⟨hsame, fun th hth => ⟨hqueued th hth, hrunning th hth⟩⟩)
  | kill =>
    refine hI.idle (fun _ _ hn => hn) nofun nofun fun t th p n k hpc ht hphase => ?_
    have hwriting := hC t hpc th ht
    rw [hphase] at hwriting
    cases hwriting

/-! ### Calls -/

namespace Pc

def done : Pc → List (Item × String)
  | working _ done | waiting _ _ _ done | recording _ _ done => done
  | idle => []

def left : Pc → List Item
  | working rest _ => rest
  | waiting _ m rest _ => m :: rest
  | recording id rest _ => .attachment id :: rest
  | idle => []

/-- The item that is downloaded. -/
def item : Pc → Option Item
  | waiting _ m .. => some m
  | _ => none

end Pc

/-- The item has been materialized, and is not downloaded again. -/
structure Settled (D : Storage) (s : State) (m : Item) (path : String) : Prop where
  path_eq : path = D.binaryRel m
  file : s.file path = some (D.content m)
  recorded : ∀ id, m = .attachment id → s.manifest (D.manifestKey id) = some path

structure Calls (D : Storage) (s : State) : Prop where
  manifest : ∀ id path, s.manifest (D.manifestKey id) = some path → path = D.binaryRel (.attachment id)
  settled : ∀ m path, (m, path) ∈ s.pc.done → Settled D s m path
  others : ∀ m path m', (m, path) ∈ s.pc.done → s.pc.item = some m' → D.binaryRel m' ≠ path
  recording : ∀ id rest done, s.pc = .recording id rest done →
    s.file (D.binaryRel (.attachment id)) = some (D.content (.attachment id))
  asked : s.pc ≠ .idle → s.pc.done.map Prod.fst ++ s.pc.left = s.asked

theorem file_congr {p : String} (hnames : s'.names p = s.names p)
    (hdata : ∀ n, s.names p = some n → s'.data n = s.data n) : s'.file p = s.file p := by
  rw [State.file, State.file, hnames]
  cases hn : s.names p with
  | none => rfl
  | some n => rw [Option.map_some, Option.map_some, hdata n hn]

theorem item_of_thread (hI : Inv D s) (hpc : s.pc.thread = some t) (ht : s.threads t = some th) {p : String}
    (hp : ∀ m, s.pc.item = some m → D.binaryRel m ≠ p) : th.path ≠ p := by
  obtain ⟨m, rest, done, hwait, hpath, -⟩ := hI.progress hpc ht
  rw [hpath]
  exact hp m (by rw [hwait]; rfl)

/-- Only the file of the item that is downloaded changes. -/
theorem file_step (hI : Inv D s) {a : Act} (h : Steps D s a s') {p : String}
    (hp : ∀ m, s.pc.item = some m → D.binaryRel m ≠ p) : s'.file p = s.file p := by
  cases h with
  | start | return_ | missing | hit | record | failSave | download | resume | run | close | failAlone | kill => rfl
  | @openFile t th ht hphase =>
    have hpc : s.pc.thread = some t := by
      by_contra hne
      exact (hI.alone t th ht hne).2.1 hphase
    have hpath := item_of_thread hI hpc ht hp
    unfold State.openFile
    split
    · next n hn =>
      refine file_congr rfl fun n' hn' => Function.update_of_ne ?_ ..
      rintro rfl
      exact hpath (hI.names_inj _ _ n' hn hn')
    · exact file_congr (Function.update_of_ne hpath.symm ..) fun n hn =>
        Function.update_of_ne (hI.names_lt p n hn).ne ..
  | @write t n written size th ht hphase =>
    refine file_congr rfl fun n' hn' => Function.update_of_ne ?_ ..
    rintro rfl
    by_cases hpc : s.pc.thread = some t
    · obtain ⟨m, rest, done, -, -, -, hprogress⟩ := hI.progress hpc ht
      rw [hphase] at hprogress
      exact item_of_thread hI hpc ht hp (hI.names_inj _ _ n' hprogress.1 hn')
    · exact (hI.alone t th ht hpc).2.2 n' (by rw [hphase]; rfl) p hn'
  | failWaited ht hpc =>
    exact file_congr (Function.update_of_ne (item_of_thread hI hpc ht hp).symm ..) fun _ _ => rfl
  | giveUp hpc =>
    have hpath := hp _ (by rw [hpc]; rfl)
    exact file_congr (Function.update_of_ne hpath.symm ..) fun _ _ => rfl

theorem Settled.mono {m : Item} {path : String} (h : Settled D s m path) (hfile : s'.file path = s.file path)
    (hmanifest : ∀ id, s.manifest (D.manifestKey id) = some path → s'.manifest (D.manifestKey id) = some path) :
    Settled D s' m path :=
  ⟨h.path_eq, hfile.trans h.file, fun id hm => hmanifest id (h.recorded id hm)⟩

theorem Calls.keep (hI : Inv D s) (hR : Calls D s) {a : Act} (h : Steps D s a s') (hpc : s'.pc = s.pc)
    (hmanifest : s'.manifest = s.manifest) (hasked : s'.asked = s.asked) : Calls D s' := by
  refine ⟨hmanifest ▸ hR.manifest, fun m path hm => ?_, fun m path m' hm hm' => ?_, fun id rest done hrec => ?_, ?_⟩
  · rw [hpc] at hm
    exact (hR.settled m path hm).mono (file_step hI h fun m' hm' => hR.others m path m' hm hm')
      fun id hid => hmanifest ▸ hid
  · rw [hpc] at hm hm'
    exact hR.others m path m' hm hm'
  · rw [hpc] at hrec
    exact (file_step hI h fun m hm => by rw [hrec] at hm; cases hm).trans (hR.recording id rest done hrec)
  · rw [hpc, hasked]
    exact hR.asked

theorem Calls.idle (hpc : s'.pc = .idle)
    (hmanifest : ∀ id path, s'.manifest (D.manifestKey id) = some path → path = D.binaryRel (.attachment id)) :
    Calls D s' := by
  refine ⟨hmanifest, fun m path hm => ?_, fun m path m' hm => ?_, fun id rest done hrec => ?_,
    fun hne => absurd hpc hne⟩
  · rw [hpc] at hm
    exact absurd hm List.not_mem_nil
  · rw [hpc] at hm
    exact absurd hm List.not_mem_nil
  · rw [hpc] at hrec
    cases hrec

/-- One more item. -/
theorem Calls.push (hI : Inv D s) (hR : Calls D s) {a : Act} (h : Steps D s a s') {m : Item} {rest : List Item}
    {path : String} (hpc : s'.pc = .working rest (s.pc.done ++ [(m, path)])) (hleft : s.pc.left = m :: rest)
    (hidle : s.pc ≠ .idle) (hasked : s'.asked = s.asked) (hm : Settled D s' m path)
    (hmanifest : ∀ id path, s'.manifest (D.manifestKey id) = some path → path = D.binaryRel (.attachment id))
    (hold : ∀ m path, (m, path) ∈ s.pc.done → ∀ id, s.manifest (D.manifestKey id) = some path →
      s'.manifest (D.manifestKey id) = some path) : Calls D s' := by
  refine ⟨hmanifest, fun m' path' hm' => ?_, fun m' path' m'' _ hm'' => ?_, fun id rest' done hrec => ?_, fun _ => ?_⟩
  · rw [hpc] at hm'
    rcases List.mem_append.1 hm' with hm' | hm'
    · exact (hR.settled m' path' hm').mono (file_step hI h fun m'' hm'' => hR.others m' path' m'' hm' hm'')
        (hold m' path' hm')
    · cases List.mem_singleton.1 hm'
      exact hm
  · rw [hpc] at hm''
    cases hm''
  · rw [hpc] at hrec
    cases hrec
  · have hall := hR.asked hidle
    rw [hleft] at hall
    rw [hpc, hasked, ← hall]
    simp [Pc.done, Pc.left]

/-- A file that needs no download is the file of its item. -/
theorem settled_of_hit (hI : Inv D s) (hR : Calls D s) (hpc : s.pc.thread = none) {m : Item} {path : String}
    (hhit : s.hit D m = some path) : Settled D s m path := by
  have hsettled : path = D.binaryRel m → (s.names path).isSome = true →
      (∀ id, m = .attachment id → s.manifest (D.manifestKey id) = some path) → Settled D s m path := by
    intro hpath hsome hrecorded
    obtain ⟨n, hn⟩ := Option.isSome_iff_exists.1 hsome
    obtain ⟨m', hm', hdata⟩ := hI.whole_of_none hpc hn
    refine ⟨hpath, ?_, hrecorded⟩
    rw [State.file, hn, Option.map_some, hdata, content_of_binaryRel (hm'.trans hpath)]
  cases m with
  | attachment id =>
    rw [State.hit] at hhit
    obtain ⟨hmanifest, hsome⟩ := Option.filter_eq_some_iff.1 hhit
    refine hsettled (hR.manifest id path hmanifest) hsome fun id' hid => ?_
    cases hid
    exact hmanifest
  | asset id filename =>
    rw [State.hit] at hhit
    obtain ⟨hsome, hpath⟩ := Option.ite_none_right_eq_some.1 hhit
    cases hpath
    exact hsettled rfl hsome nofun

/-- An item that has been materialized is not downloaded again. -/
theorem hit_of_settled {m m' : Item} {path : String} (h : Settled D s m path) (heq : D.binaryRel m' = path) :
    s.hit D m' ≠ none := by
  have hsome : (s.names path).isSome = true := by
    have hfile := h.file
    rw [State.file] at hfile
    obtain ⟨n, hn, -⟩ := Option.map_eq_some_iff.1 hfile
    rw [hn]
    rfl
  rcases binaryRel_inj (heq.trans h.path_eq) with ⟨id, rfl, rfl⟩ | ⟨id, filename, filename', rfl, rfl⟩
  · rw [State.hit, h.recorded id rfl, Option.filter_some, if_pos hsome]
    nofun
  · rw [State.hit, heq, if_pos hsome]
    nofun

theorem calls_step (hI : Inv D s) (hR : Calls D s) {a : Act} (h : Steps D s a s') : Calls D s' := by
  have hstep := h
  cases h with
  | return_ | missing | failWaited | giveUp | kill => exact .idle rfl hR.manifest
  | run | write | close | failAlone => exact hR.keep hI hstep rfl rfl rfl
  | openFile =>
    refine hR.keep hI hstep ?_ ?_ ?_ <;> (unfold State.openFile; split <;> rfl)
  | failSave lost =>
    cases lost with
    | true => exact .idle rfl nofun
    | false => exact .idle rfl hR.manifest
  | start items hpc => exact ⟨hR.manifest, nofun, nofun, nofun, fun _ => rfl⟩
  | @hit m rest done path hpc hhit =>
    have hsettled := settled_of_hit hI hR (by rw [hpc]; rfl) hhit
    exact hR.push hI hstep (by rw [hpc]; rfl) (by rw [hpc]; rfl) (by rw [hpc]; nofun) rfl
      (hsettled.mono rfl fun _ hid => hid) hR.manifest fun _ _ _ _ hid => hid
  | @download m rest done hpc hhit =>
    have hdone : ∀ {m' path}, (m', path) ∈ done → (m', path) ∈ s.pc.done := fun hm => by rw [hpc]; exact hm
    refine ⟨hR.manifest, fun m' path hm => (hR.settled m' path (hdone hm)).mono rfl fun _ hid => hid,
      fun m' path m'' hm hm'' heq => ?_, nofun, fun _ => ?_⟩
    · cases hm''
      exact hit_of_settled (hR.settled m' path (hdone hm)) heq hhit
    · have hall := hR.asked (by rw [hpc]; nofun)
      rw [hpc] at hall
      exact hall
  | @resume t n m rest done th c hpc ht hphase hc =>
    obtain ⟨th', ht', hpath, hobject, hprogress⟩ := hI.waited t m rest done hpc
    cases ht.symm.trans ht'
    rw [hphase] at hprogress
    have hfile : s.file (D.binaryRel m) = some (D.content m) := by
      rw [State.file, ← hpath, hprogress.1, Option.map_some, hprogress.2, hobject]
    rcases hc with ⟨id, rfl, rfl⟩ | ⟨⟨id, filename, rfl⟩, rfl⟩
    · have hdone : ∀ {m' path}, (m', path) ∈ done → (m', path) ∈ s.pc.done := fun hm => by rw [hpc]; exact hm
      refine ⟨hR.manifest, fun m' path hm => (hR.settled m' path (hdone hm)).mono rfl fun _ hid => hid, nofun,
        fun id' rest' done' hrec => ?_, fun _ => ?_⟩
      · cases hrec
        exact hfile
      · have hall := hR.asked (by rw [hpc]; nofun)
        rw [hpc] at hall
        exact hall
    · exact hR.push hI hstep (by rw [hpc]; rfl) (by rw [hpc]; rfl) (by rw [hpc]; nofun) rfl ⟨rfl, hfile, nofun⟩
        hR.manifest fun _ _ _ _ hid => hid
  | @record id rest done hpc =>
    have hself : Function.update s.manifest (D.manifestKey id) (some (D.binaryRel (.attachment id)))
        (D.manifestKey id) = some (D.binaryRel (.attachment id)) := Function.update_self ..
    have hother : ∀ {id'}, id' ≠ id → Function.update s.manifest (D.manifestKey id)
        (some (D.binaryRel (.attachment id))) (D.manifestKey id') = s.manifest (D.manifestKey id') :=
      fun hne => Function.update_of_ne (manifestKey_injective.ne hne) ..
    refine hR.push hI hstep (m := .attachment id) (by rw [hpc]; rfl) (by rw [hpc]; rfl) (by rw [hpc]; nofun) rfl
      ⟨rfl, hR.recording id rest done hpc, fun id' hid => ?_⟩ (fun id' path hpath => ?_) fun m path hm id' hpath => ?_
    · cases hid
      exact hself
    · by_cases hid : id' = id
      · subst hid
        exact (Option.some.inj (hself.symm.trans hpath)).symm
      · exact hR.manifest id' path ((hother hid).symm.trans hpath)
    · by_cases hid : id' = id
      · subst hid
        rw [hR.manifest id' path hpath]
        exact hself
      · exact (hother hid).trans hpath

theorem inv_empty : Inv D .empty := ⟨nofun, nofun, nofun, nofun, nofun, nofun, nofun⟩

theorem calls_empty : Calls D .empty := ⟨nofun, nofun, nofun, nofun, fun hne => absurd rfl hne⟩

/-- A call that is about to return has a path for every item that it was asked for, in order, and the file there is the
whole object of the item. -/
theorem materialized_whole {s : State} (h : (workspace D).Reach Kept s) {done : List (Item × String)}
    (hpc : s.pc = .working [] done) :
    done.map Prod.fst = s.asked ∧ ∀ m path, (m, path) ∈ done → s.file path = some (D.content m) := by
  have hboth : Inv D s ∧ Calls D s := h.induct (P := fun s => Inv D s ∧ Calls D s)
    (fun s h₀ => by cases h₀; exact ⟨inv_empty, calls_empty⟩) fun _ _ _ ⟨hI, hR⟩ hC hstep =>
      have h := steps_of_step hstep
      ⟨inv_step hI hC h, calls_step hI hR h⟩
  have hasked := hboth.2.asked (by rw [hpc]; nofun)
  have hsettled := hboth.2.settled
  rw [hpc] at hasked hsettled
  exact ⟨(List.append_nil _).symm.trans hasked, fun m path hm => (hsettled m path hm).file⟩

/-- What a call that is about to return has materialized. -/
def Pc.returns : Pc → Option (List (Item × String))
  | working [] done => some done
  | _ => none

theorem eq_of_returns {c : Pc} {done : List (Item × String)} (h : c.returns = some done) : c = .working [] done := by
  cases c with
  | working rest done' =>
    cases rest with
    | nil =>
      cases h
      rfl
    | cons => cases h
  | idle | waiting | recording => cases h

/-- One object for everything. -/
def notes : Storage where
  attachment _ := ⟨"notes.txt", "chat/7/notes.txt", none⟩
  assetKey _ := "assets/7"
  object _ := [104, 105]

/-- A download that takes too long while it writes, and a second call. -/
theorem materialized_whole_again :
    ∃ s done, (workspace notes).Reach Kept s ∧ s.pc = .working [] done ∧ done.map Prod.fst = [.attachment 3] ∧
      ∀ m path, (m, path) ∈ done → s.file path = some [104, 105] := by
  obtain ⟨s, -, hr, hp⟩ := Machine.reach_of_exec (M := workspace notes) (C := Kept) (s := .empty)
    (p := fun s => decide (s.pc.returns.isSome = true ∧ s.asked = [.attachment 3]))
    [.start [.attachment 3], .next, .run 0, .openFile 0, .write 0 1, .giveUp, .start [.attachment 3], .next, .run 1,
      .openFile 1, .write 0 5, .write 1 5, .close 1, .next, .next] rfl (by decide)
  obtain ⟨hreturns, hitems⟩ := of_decide_eq_true hp
  obtain ⟨done, hdone⟩ := Option.isSome_iff_exists.1 hreturns
  have hpc := eq_of_returns hdone
  obtain ⟨hasked, hwhole⟩ := materialized_whole hr hpc
  exact ⟨s, done, hr, hpc, hasked.trans hitems, hwhole⟩

-- the thread of the first call opens the file after the second call has returned
example : ((workspace notes).exec Free .empty [.start [.asset 3 "a"], .next, .run 0, .giveUp, .start [.asset 3 "a"],
    .next, .run 1, .openFile 1, .write 1 5, .close 1, .next, .next, .openFile 0, .write 0 1, .start [.asset 3 "a"],
    .next]).any (fun s => (s.pc.returns.any fun done => done.all fun m => s.file m.2 = some [104])) = true := by
  decide

end NexusStudio.Materialize
