import NexusStudio.Generation.TaskStore
import NexusStudio.Lib.KeepFirst

/-!
# The status of many tasks at once

`get_tasks_status` joins the requested tasks with what the gateway says of them, their reference assets and the
favourites, on the tables of tasks and assets that submits, callbacks, queries and deletions leave.

* (answer) `Answers`: one item for each distinct requested id that is an undeleted task of the user, in the order of the
  requests, and the other distinct ids as missing.
* (condition) `KeepsReferences`: a submit stores undeleted assets of the user only, and no deletion takes an asset away
  that an undeleted task refers to.
* (result) In a run under the condition every query answers, unless a result that it has to store is too long for its
  columns. In any state, one task with a deleted or foreign reference makes every query with this task fail
  (`tasks_status_law`).
-/

namespace NexusStudio.StatusQuery

open Concurrent KeepFirst
open Generation (GatewayTaskStatus GatewayReport GatewayResultItem GenerateTask GenerationKind GenerationTerminal Proc
  observeOneNonTerminalTask)
open Generation.GatewayTaskStatus

/-! ### What a query answers -/

/-- The requested id is an undeleted task of the user. -/
def isTask (db : Db) (userId : Nat) (i : Int) : Bool :=
  db.tasks.any fun t => (t.id : Int) = i ∧ t.userId = userId ∧ t.deleted = false

/-- One item for each distinct requested task of the user, in the order of the requests; the other ids are missing. -/
def Answers (db : Db) (userId : Nat) (taskIds : List Int)
    (out : Except (Failure (List Int)) GenerateTasksStatusResponse) : Prop :=
  ∃ response, out = .ok response ∧
    response.items.map (fun v => (v.taskId : Int)) = taskIds.eraseDups.filter (isTask db userId) ∧
    response.missingTaskIds = taskIds.eraseDups.filter fun i => !isTask db userId i

/-- An undeleted asset of the user. -/
def Live (assets : List AssetRow) (userId : Nat) (i : Int) : Prop :=
  ∃ a ∈ assets, (a.id : Int) = i ∧ a.userId = userId ∧ a.deleted = false

instance (assets : List AssetRow) (userId : Nat) (i : Int) : Decidable (Live assets userId i) :=
  inferInstanceAs (Decidable (∃ a ∈ assets, _))

/-- The results that the query stores for the task. -/
def reported (gw : Gateway) (observations : GatewayObservationBatch) (t : TaskRow) : List GatewayResultItem :=
  match observed gw observations t with
  | .apply _ _ res callbackSent =>
    let updated := t.update res callbackSent
    if res.status = SUCCEEDED ∧ updated.hasNothingToEnsure = false then updated.resultKeys.getD [] else []
  | _ => []

/-- The asset of the task for the key is there already. -/
def HasAsset (assets : List AssetRow) (t : TaskRow) (key : String) : Prop :=
  ∃ a ∈ assets, a.userId = t.userId ∧ a.storageKey = key ∧ a.sourceType = "generate_result" ∧
    a.sourceId = some (toString t.id) ∧ a.deleted = false

/-- The results that the query stores for the task fit their columns. -/
def Storable (gw : Gateway) (observations : GatewayObservationBatch) (assets : List AssetRow) (t : TaskRow) : Prop :=
  ∀ item ∈ reported gw observations t, FitsColumns item.url ∨ HasAsset assets t item.url

/-! ### Tables -/

section Tables

variable {db db' db'' : Db} {t row : TaskRow} {row' : AssetRow} {assets assets' assets'' : List AssetRow} {gw : Gateway}
  {observations : GatewayObservationBatch} {userId : Nat} {i : Int} {taskIds : List Int}

/-- What the writers of a task leave as it is. -/
def TaskRow.frame (t : TaskRow) : Nat × Nat × Bool × Option (List Int) := (t.id, t.userId, t.deleted, t.refAssetIds)

/-- The ids are given one after the other. -/
structure Numbered (db : Db) : Prop where
  tasks : db.tasks.map TaskRow.id = List.range' 1 db.tasks.length
  assets : db.assets.map AssetRow.id = List.range' 1 db.assets.length

/-- New assets behind the old ones. -/
def Extends (assets assets' : List AssetRow) : Prop :=
  ∃ new, assets' = assets ++ new ∧ new.map AssetRow.id = List.range' (assets.length + 1) new.length ∧
    ∀ a ∈ new, FitsColumns a.storageKey

/-- What writers of tasks do to the tables. -/
structure Keeps (db db' : Db) : Prop where
  frames : db'.tasks.map TaskRow.frame = db.tasks.map TaskRow.frame
  assets : Extends db.assets db'.assets

/-- What a writer of one task does to the tables. -/
structure Writes (db : Db) (id : Nat) (db' : Db) : Prop extends Keeps db db' where
  others : ∀ j ≠ id, db'.task j = db.task j

theorem Extends.refl (assets : List AssetRow) : Extends assets assets :=
  ⟨[], by simp, rfl, by simp⟩

theorem Extends.trans (h : Extends assets assets') (h' : Extends assets' assets'') : Extends assets assets'' := by
  obtain ⟨new, rfl, hids, hfit⟩ := h
  obtain ⟨new', rfl, hids', hfit'⟩ := h'
  refine ⟨new ++ new', by rw [List.append_assoc], ?_, ?_⟩
  · have hstart : (assets ++ new).length + 1 = assets.length + 1 + 1 * new.length := by
      rw [List.length_append]
      omega
    rw [List.map_append, hids, hids', hstart, List.range'_append, List.length_append]
  · intro a ha
    exact (List.mem_append.1 ha).elim (hfit a) (hfit' a)

theorem Extends.numbered (h : Extends assets assets') (hn : assets.map AssetRow.id = List.range' 1 assets.length) :
    assets'.map AssetRow.id = List.range' 1 assets'.length := by
  obtain ⟨new, rfl, hids, -⟩ := h
  have hstart : assets.length + 1 = 1 + 1 * assets.length := by omega
  rw [List.map_append, hn, hids, hstart, List.range'_append, List.length_append]

theorem task_mem {id : Nat} (h : db.task id = some t) : t ∈ db.tasks ∧ t.id = id :=
  ⟨List.mem_of_find?_eq_some h, by simpa using List.find?_some h⟩

theorem Numbered.eq_of_id (hn : Numbered db) (ht : t ∈ db.tasks) (hrow : row ∈ db.tasks) (h : t.id = row.id) :
    t = row := by
  have hnodup : (db.tasks.map TaskRow.id).Nodup := by
    rw [hn.tasks]
    exact List.nodup_range'
  exact List.inj_on_of_nodup_map hnodup ht hrow h

theorem Numbered.task (hn : Numbered db) (ht : t ∈ db.tasks) : db.task t.id = some t := by
  have hsome : (db.task t.id).isSome := List.find?_isSome.2 ⟨t, ht, by simp⟩
  obtain ⟨row, hrow⟩ := Option.isSome_iff_exists.1 hsome
  obtain ⟨hmem, hid⟩ := task_mem hrow
  rw [hrow, hn.eq_of_id hmem ht hid]

theorem id_of_frame (h : row.frame = t.frame) : row.id = t.id := congrArg Prod.fst h

theorem map_id_of_frames {l l' : List TaskRow} (h : l.map TaskRow.frame = l'.map TaskRow.frame) :
    l.map TaskRow.id = l'.map TaskRow.id := by
  have hfst := congrArg (List.map Prod.fst) h
  rwa [List.map_map, List.map_map] at hfst

theorem keeps_refl (db : Db) : Keeps db db := ⟨rfl, Extends.refl _⟩

theorem Keeps.trans (h : Keeps db db') (h' : Keeps db' db'') : Keeps db db'' :=
  ⟨h'.frames.trans h.frames, h.assets.trans h'.assets⟩

theorem Keeps.exists_frame (h : Keeps db db') (ht : t ∈ db.tasks) : ∃ u ∈ db'.tasks, u.frame = t.frame := by
  have hframe : t.frame ∈ db'.tasks.map TaskRow.frame := h.frames ▸ List.mem_map_of_mem ht
  exact List.mem_map.1 hframe

theorem Keeps.numbered (h : Keeps db db') (hn : Numbered db) : Numbered db' := by
  have hlength : db'.tasks.length = db.tasks.length := by
    have := congrArg List.length h.frames
    rwa [List.length_map, List.length_map] at this
  refine ⟨?_, h.assets.numbered hn.assets⟩
  rw [map_id_of_frames h.frames, hn.tasks, hlength]

theorem writes_refl (id : Nat) : Writes db id db := ⟨keeps_refl db, fun _ _ => rfl⟩

/-- An update of one row that leaves its frame. -/
theorem writes_setTask (hn : Numbered db) (ht : t ∈ db.tasks) (hf : row.frame = t.frame)
    (ha : Extends db.assets assets) : Writes db t.id ({ db with assets := assets }.setTask row) := by
  have hid := id_of_frame hf
  refine ⟨⟨?_, ha⟩, fun j hj => ?_⟩
  · show (db.tasks.map _).map TaskRow.frame = _
    rw [List.map_map]
    refine List.map_congr_left fun u hu => ?_
    show (if u.id = row.id then row else u).frame = u.frame
    split
    case isTrue h => rw [hf, hn.eq_of_id hu ht (h.trans hid)]
    case isFalse => rfl
  · have hother : ∀ u : TaskRow, u.id = j → (if u.id = row.id then row else u) = u := by
      intro u hu
      rw [if_neg fun h => hj (by rw [← hu, h, hid])]
    have hsame : ∀ u : TaskRow, (if u.id = row.id then row else u).id = j ↔ u.id = j := by
      intro u
      split
      case isTrue h => rw [h]
      case isFalse => rfl
    show (db.tasks.map _).find? _ = db.tasks.find? _
    rw [List.find?_map, Function.comp_def]
    simp only [hsame]
    cases hfind : db.tasks.find? fun u => decide (u.id = j) with
    | none => rfl
    | some u => rw [Option.map_some, hother u (by simpa using List.find?_some hfind)]

/-- An update of a row after its writer. -/
theorem Keeps.setTask (h : Keeps db db') (hn : Numbered db) (ht : t ∈ db.tasks) (hf : row.frame = t.frame) :
    Keeps db (db'.setTask row) := by
  obtain ⟨u, hu, hut⟩ := h.exists_frame ht
  exact h.trans (writes_setTask (h.numbered hn) hu (hf.trans hut.symm) (Extends.refl _)).toKeeps

/-! ### Results -/

theorem createAsset_cases {id : Nat} (h : createAsset assets row' = .ok (assets', id)) : Extends assets assets' := by
  unfold createAsset at h
  split at h
  · cases h
    exact Extends.refl _
  · split at h
    case isTrue hfit =>
      cases h
      exact ⟨[_], rfl, rfl, by simpa using hfit⟩
    case isFalse => cases h

theorem hasAsset_append {a : AssetRow} {key : String} (hfit : FitsColumns a.storageKey) :
    FitsColumns key ∨ HasAsset (assets ++ [a]) t key ↔ FitsColumns key ∨ HasAsset assets t key := by
  constructor
  · rintro (h | ⟨b, hb, huser, hkey, hrest⟩)
    · exact .inl h
    · rcases List.mem_append.1 hb with hb | hb
      · exact .inr ⟨b, hb, huser, hkey, hrest⟩
      · rw [List.mem_singleton] at hb
        subst hb
        exact .inl (hkey ▸ hfit)
  · rintro (h | ⟨b, hb, hrest⟩)
    · exact .inl h
    · exact .inr ⟨b, List.mem_append_left _ hb, hrest⟩

theorem hasAsset_of_extends {key : String} (h : Extends assets assets') :
    FitsColumns key ∨ HasAsset assets' t key ↔ FitsColumns key ∨ HasAsset assets t key := by
  obtain ⟨new, rfl, -, hfit⟩ := h
  induction new using List.reverseRecOn with
  | nil => rw [List.append_nil]
  | append_singleton new a ih =>
    rw [← List.append_assoc, hasAsset_append (hfit a (by simp))]
    exact ih fun b hb => hfit b (List.mem_append_left _ hb)

/-- Whether an asset of a result is found or created. -/
theorem createAsset_ok (index : Nat) {item : GatewayResultItem} :
    (∃ r, createAsset assets (resultRow t index item) = .ok r) ↔ FitsColumns item.url ∨ HasAsset assets t item.url := by
  unfold createAsset
  cases hfind : assets.find? fun a => a.userId = (resultRow t index item).userId ∧
      a.storageKey = (resultRow t index item).storageKey ∧ a.sourceType = (resultRow t index item).sourceType ∧
      a.sourceId = (resultRow t index item).sourceId ∧ a.deleted = false with
  | some a =>
    have ha := List.find?_some hfind
    exact ⟨fun _ => .inr ⟨a, List.mem_of_find?_eq_some hfind, of_decide_eq_true ha⟩, fun _ => ⟨_, rfl⟩⟩
  | none =>
    have hnone : ¬ HasAsset assets t item.url := by
      rintro ⟨a, ha, hrest⟩
      exact List.find?_eq_none.1 hfind a ha (decide_eq_true hrest)
    by_cases hfit : FitsColumns item.url
    · have hrow : FitsColumns (resultRow t index item).storageKey := hfit
      simp only [if_pos hrow, hfit, true_or, iff_true]
      exact ⟨_, rfl⟩
    · have hrow : ¬ FitsColumns (resultRow t index item).storageKey := hfit
      simp [if_neg hrow, hfit, hnone]

theorem createAssets_extends {items : List GatewayResultItem} {index : Nat} {ids : List Nat}
    (h : createAssets t index assets items = .ok (assets', ids)) : Extends assets assets' := by
  induction items generalizing index assets ids with
  | nil =>
    cases h
    exact Extends.refl _
  | cons item rest ih =>
    unfold createAssets at h
    split at h
    · cases h
    case h_2 hone =>
      split at h
      · cases h
      case h_2 hrest =>
        cases h
        exact (createAsset_cases hone).trans (ih hrest)

theorem createAssets_ok (index : Nat) {items : List GatewayResultItem} :
    (∃ r, createAssets t index assets items = .ok r) ↔
      ∀ item ∈ items, FitsColumns item.url ∨ HasAsset assets t item.url := by
  induction items generalizing index assets with
  | nil => exact ⟨by simp, fun _ => ⟨_, rfl⟩⟩
  | cons item rest ih =>
    rw [List.forall_mem_cons, ← createAsset_ok index]
    unfold createAssets
    cases hone : createAsset assets (resultRow t index item) with
    | error e => simp
    | ok r =>
      obtain ⟨assets', id⟩ := r
      have hkeys : (∀ item ∈ rest, FitsColumns item.url ∨ HasAsset assets' t item.url) ↔
          ∀ item ∈ rest, FitsColumns item.url ∨ HasAsset assets t item.url :=
        forall₂_congr fun item _ => hasAsset_of_extends (createAsset_cases hone)
      rw [← hkeys, ← ih (index + 1)]
      cases hrest : createAssets t (index + 1) assets' rest with
      | error e => simp [hrest]
      | ok r => simp [hrest]

theorem ensureResultAssets_spec {r : List AssetRow × TaskRow} (h : ensureResultAssets t assets = .ok r) :
    Extends assets r.1 ∧ r.2.frame = t.frame := by
  unfold ensureResultAssets at h
  split at h
  · cases h
    exact ⟨Extends.refl _, rfl⟩
  · split at h
    · cases h
    case h_2 hcreate =>
      cases h
      exact ⟨createAssets_extends hcreate, rfl⟩

theorem ensureResultAssets_ok (t : TaskRow) (assets : List AssetRow) : (∃ r, ensureResultAssets t assets = .ok r) ↔
    ∀ item ∈ if t.hasNothingToEnsure = false then t.resultKeys.getD [] else [],
      FitsColumns item.url ∨ HasAsset assets t item.url := by
  unfold ensureResultAssets
  cases t.hasNothingToEnsure with
  | true => simp
  | false =>
    rw [if_neg Bool.false_ne_true, if_pos rfl, ← createAssets_ok 0]
    cases createAssets t 0 assets (t.resultKeys.getD []) with
    | error e => simp
    | ok r => simp

/-- The transaction of a row that is as it was read. -/
theorem applyResult_spec (hn : Numbered db) (ht : t ∈ db.tasks) (expected : GatewayTaskStatus)
    (res : GenerationTerminal) (callbackSent : Bool) :
    Writes db t.id (applyResult db t expected res callbackSent).1 ∧
      ∀ r, (applyResult db t expected res callbackSent).2 = .ok r → r.1.frame = t.frame := by
  cases hupdate : t.updateIfStatus expected res callbackSent with
  | none =>
    have hout : applyResult db t expected res callbackSent = (db, .ok (t, false)) := by
      simp only [applyResult, hn.task ht, hupdate]
    rw [hout]
    refine ⟨writes_refl _, fun r hr => ?_⟩
    cases hr
    rfl
  | some updated =>
    have hframe : ({ t with toGenerateTask := updated } : TaskRow).frame = t.frame := by
      unfold GenerateTask.updateIfStatus at hupdate
      split at hupdate
      · cases hupdate
        rfl
      · cases hupdate
    by_cases hs : res.status = SUCCEEDED
    · cases hensure : ensureResultAssets { t with toGenerateTask := updated } db.assets with
      | error e =>
        have hout : applyResult db t expected res callbackSent = (db, .error e) := by
          simp only [applyResult, hn.task ht, hupdate, hs, if_true, hensure]
        rw [hout]
        exact ⟨writes_refl _, fun r hr => by cases hr⟩
      | ok r =>
        have hout : applyResult db t expected res callbackSent =
            ({ db with assets := r.1 }.setTask r.2, .ok (r.2, true)) := by
          simp only [applyResult, hn.task ht, hupdate, hs, if_true, hensure]
        obtain ⟨hext, hr⟩ := ensureResultAssets_spec hensure
        rw [hout]
        refine ⟨writes_setTask hn ht (hr.trans hframe) hext, fun r' hr' => ?_⟩
        cases hr'
        exact hr.trans hframe
    · have hout : applyResult db t expected res callbackSent =
          (db.setTask { t with toGenerateTask := updated }, .ok ({ t with toGenerateTask := updated }, true)) := by
        simp only [applyResult, hn.task ht, hupdate, hs, if_false]
      rw [hout]
      refine ⟨writes_setTask hn ht hframe (Extends.refl _), fun r hr => ?_⟩
      cases hr
      exact hframe

/-! ### Observations -/

theorem observed_apply {callback : Option GatewayTaskStatus} {expected : GatewayTaskStatus} {res : GenerationTerminal}
    {callbackSent : Bool} (h : observed gw observations t = .apply callback expected res callbackSent) :
    expected = t.status ∧ t.deleted = false := by
  unfold observed at h
  split at h
  case h_1 => cases h
  case h_2 =>
    unfold observeOneNonTerminalTask at h
    split at h
    case isTrue => cases h
    case isFalse hactive =>
      have hdeleted : t.deleted = false := by simpa using fun hd => hactive (.inl hd)
      have happly : ∀ {res' : GenerationTerminal} {sent : Bool},
          Generation.applyResult none t.toGenerateTask res' sent = .apply callback expected res callbackSent →
            expected = t.status := by
        intro res' sent h
        unfold Generation.applyResult at h
        split at h
        · cases h
        · cases h
          rfl
      refine ⟨?_, hdeleted⟩
      split at h
      · split at h
        · cases h
        · split at h
          · cases h
          · exact happly h
      · split at h
        · cases h
        · exact happly h

/-- The observation of a row raises exactly if a result that it stores does not fit. -/
theorem observeOne_ok (gw : Gateway) (observations : GatewayObservationBatch) (hn : Numbered db) (ht : t ∈ db.tasks) :
    (∃ r, (observeOne gw observations db t).2 = .ok r) ↔ Storable gw observations db.assets t := by
  unfold observeOne Storable reported
  cases hobserved : observed gw observations t with
  | apply callback expected res callbackSent =>
    obtain ⟨rfl, hdeleted⟩ := observed_apply hobserved
    have hupdate : t.updateIfStatus t.status res callbackSent = some (t.update res callbackSent) :=
      if_pos ⟨rfl, hdeleted⟩
    by_cases hs : res.status = SUCCEEDED
    · have hstore := ensureResultAssets_ok { t with toGenerateTask := t.update res callbackSent } db.assets
      simp only [applyResult, hn.task ht, hupdate, hs, if_true, true_and]
      refine Iff.trans ?_ hstore
      cases ensureResultAssets { t with toGenerateTask := t.update res callbackSent } db.assets with
      | error e => simp
      | ok r => simp
    · simp only [applyResult, hn.task ht, hupdate, hs, if_false, false_and]
      simp
  | _ => simp

theorem observeOne_spec (gw : Gateway) (observations : GatewayObservationBatch) (hn : Numbered db) (ht : t ∈ db.tasks) :
    Writes db t.id (observeOne gw observations db t).1 ∧
      ∀ r, (observeOne gw observations db t).2 = .ok r → r.frame = t.frame := by
  unfold observeOne
  cases observed gw observations t with
  | apply callback expected res callbackSent =>
    obtain ⟨hwrites, hframe⟩ := applyResult_spec hn ht expected res callbackSent
    cases hout : applyResult db t expected res callbackSent with
    | mk db' out =>
      rw [hout] at hwrites hframe
      simp only [hout]
      cases out with
      | error e => exact ⟨hwrites, fun r hr => by cases hr⟩
      | ok r =>
        refine ⟨hwrites, fun r' hr' => ?_⟩
        cases hr'
        exact hframe r rfl
  | _ =>
    refine ⟨writes_refl _, fun r hr => ?_⟩
    cases hr
    rfl

/-- What the observation of some rows does, and when it raises. -/
theorem observeAll_spec (gw : Gateway) (observations : GatewayObservationBatch) {ts : List TaskRow} (hn : Numbered db)
    (hts : ∀ t ∈ ts, t ∈ db.tasks) (hnodup : (ts.map TaskRow.id).Nodup) :
    Keeps db (observeAll gw observations db ts).1 ∧
      (∀ r, (observeAll gw observations db ts).2 = .ok r → r.map TaskRow.frame = ts.map TaskRow.frame) ∧
      ((∃ r, (observeAll gw observations db ts).2 = .ok r) ↔ ∀ t ∈ ts, Storable gw observations db.assets t) := by
  induction ts generalizing db with
  | nil =>
    refine ⟨⟨rfl, Extends.refl _⟩, fun r hr => ?_, by simp, fun _ => ⟨_, rfl⟩⟩
    cases hr
    rfl
  | cons t ts ih =>
    obtain ⟨ht, hrest⟩ := List.forall_mem_cons.1 hts
    obtain ⟨hnot, hnodup⟩ := List.nodup_cons.1 hnodup
    have hok := observeOne_ok gw observations hn ht
    obtain ⟨hwrites, hframe⟩ := observeOne_spec gw observations hn ht
    rw [List.forall_mem_cons, ← hok]
    cases hone : observeOne gw observations db t with
    | mk db' out =>
      rw [hone] at hwrites hframe
      cases out with
      | error e =>
        simp only [observeAll, hone]
        exact ⟨hwrites.toKeeps, fun r hr => (by cases hr), by simp⟩
      | ok t' =>
        have hrest' : ∀ u ∈ ts, u ∈ db'.tasks := by
          intro u hu
          have hne : u.id ≠ t.id := fun h => hnot (h ▸ List.mem_map_of_mem hu)
          have hkept : db'.task u.id = some u := (hwrites.others u.id hne).trans (hn.task (hrest u hu))
          exact (task_mem hkept).1
        obtain ⟨hkeeps, hresult, hall⟩ := ih (hwrites.toKeeps.numbered hn) hrest' hnodup
        have hstorable : (∀ u ∈ ts, Storable gw observations db'.assets u) ↔
            ∀ u ∈ ts, Storable gw observations db.assets u :=
          forall₂_congr fun u _ => forall₂_congr fun item _ => hasAsset_of_extends hwrites.assets
        rw [← hstorable, ← hall]
        cases htail : observeAll gw observations db' ts with
        | mk db'' out' =>
          rw [htail] at hkeeps hresult
          have hkeeps' := hwrites.toKeeps.trans hkeeps
          cases out' with
          | error e =>
            simp only [observeAll, hone, htail]
            exact ⟨hkeeps', fun r hr => (by cases hr), by simp⟩
          | ok ts' =>
            simp only [observeAll, hone, htail]
            refine ⟨hkeeps', fun r hr => ?_, by simp⟩
            cases hr
            rw [List.map_cons, List.map_cons, hframe t' rfl, hresult ts' rfl]

/-! ### References -/

theorem mem_active {a : AssetRow} {ids : List Int} :
    a ∈ getActiveByIdsForUser assets ids userId ↔
      a ∈ assets ∧ (a.id : Int) ∈ ids ∧ a.userId = userId ∧ a.deleted = false := by
  simp [getActiveByIdsForUser]

/-- The references are loaded exactly if all of them are undeleted assets of the user. -/
theorem loadReferences_ok (presign : String → String) {tasks : List TaskRow} :
    (∃ r, loadReferenceMaterialsByTaskId presign assets tasks userId = .ok r) ↔
      ∀ t ∈ tasks, ∀ i ∈ t.refs, Live assets userId i := by
  have hids : (∀ i ∈ collectRefAssetIds tasks, Live assets userId i) ↔
      ∀ t ∈ tasks, ∀ i ∈ t.refs, Live assets userId i := by
    simp only [collectRefAssetIds, List.mem_eraseDups, List.mem_flatMap]
    exact ⟨fun h t ht i hi => h i ⟨t, ht, hi⟩, fun h i ⟨t, ht, hi⟩ => h t ht i hi⟩
  rw [← hids]
  unfold loadReferenceMaterialsByTaskId
  set ids := collectRefAssetIds tasks
  by_cases hnil : ids = []
  · simp [hnil]
  · set rows := getActiveByIdsForUser assets ids userId
    set missing := (ids.filter fun i => rows.all fun a => (a.id : Int) ≠ i).insertionSort (· ≤ ·)
    have hmissing : missing = [] ↔ ∀ i ∈ ids, Live assets userId i := by
      have hfilter : missing = [] ↔
          (ids.filter fun i => rows.all fun a => (a.id : Int) ≠ i) = [] := by
        rw [← List.length_eq_zero_iff, List.length_insertionSort, List.length_eq_zero_iff]
      rw [hfilter, List.filter_eq_nil_iff]
      refine forall₂_congr fun i hi => ?_
      simp only [List.all_eq_true, decide_eq_true_eq, not_forall, not_not, rows, mem_active]
      constructor
      · rintro ⟨a, ⟨ha, -, huser, hdeleted⟩, hid⟩
        exact ⟨a, ha, hid, huser, hdeleted⟩
      · rintro ⟨a, ha, rfl, huser, hdeleted⟩
        exact ⟨a, ⟨ha, hi, huser, hdeleted⟩, rfl⟩
    rw [← hmissing]
    simp only [if_neg hnil]
    split
    case isTrue hm => exact iff_of_false (by simp) hm
    case isFalse hm => exact iff_of_true ⟨_, rfl⟩ (not_not.1 hm)

theorem live_of_extends (h : Extends db.assets assets') (hi : i ≤ db.assets.length) :
    Live assets' userId i ↔ Live db.assets userId i := by
  obtain ⟨new, rfl, hids, -⟩ := h
  constructor
  · rintro ⟨a, ha, hid, hrest⟩
    rcases List.mem_append.1 ha with ha | ha
    · exact ⟨a, ha, hid, hrest⟩
    · have hmem : a.id ∈ List.range' (db.assets.length + 1) new.length := hids ▸ List.mem_map_of_mem ha
      have hlt := (List.mem_range'_1.1 hmem).1
      omega
  · rintro ⟨a, ha, hrest⟩
    exact ⟨a, List.mem_append_left _ ha, hrest⟩

/-! ### The answer -/

theorem mem_selected : t ∈ selected db userId taskIds →
    t ∈ db.tasks ∧ t.userId = userId ∧ t.deleted = false ∧ (t.id : Int) ∈ taskIds := by
  intro h
  obtain ⟨i, -, hfind⟩ := List.mem_filterMap.1 h
  have ht := List.mem_of_find?_eq_some hfind
  simp only [getByIdsForUser, List.mem_filter, decide_eq_true_eq, List.mem_eraseDups] at ht
  exact ⟨ht.1, ht.2.2.1, ht.2.2.2, ht.2.1⟩

theorem isTask_iff_find (hi : i ∈ taskIds) :
    ((getByIdsForUser db.tasks taskIds.eraseDups userId).find? fun t => (t.id : Int) = i).map (fun t => (t.id : Int)) =
      if isTask db userId i then some i else none := by
  cases hfind : (getByIdsForUser db.tasks taskIds.eraseDups userId).find? fun t => (t.id : Int) = i with
  | some t =>
    have hid : (t.id : Int) = i := by simpa using List.find?_some hfind
    have ht := List.mem_of_find?_eq_some hfind
    simp only [getByIdsForUser, List.mem_filter, decide_eq_true_eq] at ht
    have htask : isTask db userId i = true :=
      List.any_eq_true.2 ⟨t, ht.1, by simpa using ⟨hid, ht.2.2⟩⟩
    rw [if_pos htask, Option.map_some, hid]
  | none =>
    have htask : ¬ isTask db userId i = true := by
      intro h
      obtain ⟨t, ht, hrest⟩ := List.any_eq_true.1 h
      simp only [decide_eq_true_eq] at hrest
      refine List.find?_eq_none.1 hfind t ?_ (by simpa using hrest.1)
      simpa [getByIdsForUser, ht, hrest] using hi
    rw [if_neg htask, Option.map_none]

/-- The ids of the selected tasks. -/
theorem map_id_selected :
    (selected db userId taskIds).map (fun t => (t.id : Int)) = taskIds.eraseDups.filter (isTask db userId) := by
  rw [selected, List.map_filterMap]
  rw [← List.filterMap_eq_filter]
  refine List.filterMap_congr fun i hi => ?_
  rw [isTask_iff_find (List.mem_eraseDups.1 hi)]
  simp [Option.guard]

theorem nodup_selected : ((selected db userId taskIds).map TaskRow.id).Nodup := by
  have hcast : ((selected db userId taskIds).map (fun t => (t.id : Int))).Nodup := by
    rw [map_id_selected]
    exact nodup_eraseDups.filter _
  have hmap : (selected db userId taskIds).map (fun t => (t.id : Int)) =
      ((selected db userId taskIds).map TaskRow.id).map Nat.cast := by
    rw [List.map_map]
    rfl
  rw [hmap] at hcast
  exact hcast.of_map _

/-- The ids that are missing. -/
theorem missing_eq :
    (taskIds.eraseDups.filter fun i =>
        (getByIdsForUser db.tasks taskIds.eraseDups userId).all fun t => (t.id : Int) ≠ i) =
      taskIds.eraseDups.filter fun i => !isTask db userId i := by
  refine List.filter_congr fun i hi => ?_
  have hid := List.mem_eraseDups.1 hi
  rw [Bool.eq_iff_iff]
  simp only [getByIdsForUser, isTask, List.all_eq_true, List.mem_filter, decide_eq_true_eq, List.mem_eraseDups, ne_eq,
    Bool.not_eq_true', List.any_eq_false, not_and]
  constructor
  · intro h t ht hti huser hdeleted
    exact h t ⟨ht, hti ▸ hid, huser, hdeleted⟩ hti
  · rintro h t ⟨ht, -, huser, hdeleted⟩ hti
    exact h t ht hti huser hdeleted

theorem getTasksStatus_fst {presign : String → String} : (getTasksStatus presign gw db userId taskIds).1 =
    (observeAll gw (fetchObservations gw (observable (selected db userId taskIds))) db
      (selected db userId taskIds)).1 := by
  unfold getTasksStatus
  cases hout : observeAll gw (fetchObservations gw (observable (selected db userId taskIds))) db
      (selected db userId taskIds) with
  | mk db' out =>
    simp only [hout]
    cases out with
    | error e => rfl
    | ok ts => cases hload : loadReferenceMaterialsByTaskId presign db'.assets ts userId <;> simp only [hload]

theorem getTasksStatus_keeps (presign : String → String) (gw : Gateway) (userId : Nat) (taskIds : List Int)
    (hn : Numbered db) : Keeps db (getTasksStatus presign gw db userId taskIds).1 := by
  rw [getTasksStatus_fst]
  exact (observeAll_spec gw _ hn (fun t ht => (mem_selected ht).1) nodup_selected).1

theorem refs_of_frames {p : Int → Prop} {ts ts' : List TaskRow} (h : ts.map TaskRow.frame = ts'.map TaskRow.frame) :
    (∀ t ∈ ts, ∀ i ∈ t.refs, p i) ↔ ∀ t ∈ ts', ∀ i ∈ t.refs, p i := by
  have hframes : ∀ l : List TaskRow,
      (∀ t ∈ l, ∀ i ∈ t.refs, p i) ↔ ∀ f ∈ l.map TaskRow.frame, ∀ i ∈ f.2.2.2.getD [], p i := by
    intro l
    rw [List.forall_mem_map]
    rfl
  rw [hframes, hframes, h]

/-- A query answers exactly if the results fit their columns and all references are there when it loads them. -/
theorem getTasksStatus_answers {presign : String → String} (hn : Numbered db) :
    Answers db userId taskIds (getTasksStatus presign gw db userId taskIds).2 ↔
      (∀ t ∈ selected db userId taskIds,
        Storable gw (fetchObservations gw (observable (selected db userId taskIds))) db.assets t) ∧
      ∀ t ∈ selected db userId taskIds, ∀ i ∈ t.refs,
        Live (getTasksStatus presign gw db userId taskIds).1.assets userId i := by
  rw [getTasksStatus_fst]
  obtain ⟨-, hresult, hok⟩ := observeAll_spec gw (fetchObservations gw (observable (selected db userId taskIds))) hn
    (fun t ht => (mem_selected ht).1) nodup_selected
  rw [← hok]
  unfold getTasksStatus
  cases hout : observeAll gw (fetchObservations gw (observable (selected db userId taskIds))) db
      (selected db userId taskIds) with
  | mk db' out =>
    rw [hout] at hresult
    simp only [hout]
    cases out with
    | error e => simp [Answers]
    | ok ts =>
      have hframes := hresult ts rfl
      rw [← refs_of_frames hframes, ← loadReferences_ok presign]
      cases hload : loadReferenceMaterialsByTaskId presign db'.assets ts userId with
      | error e => simp [Answers, hload]
      | ok refs =>
        simp only [hload]
        refine iff_of_true ⟨_, rfl, ?_, missing_eq⟩ ⟨⟨_, rfl⟩, _, rfl⟩
        have hids : (ts.map fun t => (t.id : Int)) = (selected db userId taskIds).map fun t => (t.id : Int) := by
          have := congrArg (List.map (Nat.cast : Nat → Int)) (map_id_of_frames hframes)
          rwa [List.map_map, List.map_map] at this
        rw [← map_id_selected, ← hids, List.map_map]
        rfl

/-! ### Every step -/

variable {admits : SubmitGenerateRequest → List (String × String) → Bool} {presign : String → String} {a : Action}

/-- The references of the undeleted tasks are undeleted assets of their users. -/
def RefsLive (db : Db) : Prop :=
  ∀ t ∈ db.tasks, t.deleted = false → ∀ i ∈ t.refs, Live db.assets t.userId i

/-- A submit stores undeleted assets of the user only, and no deletion takes an asset away that an undeleted task of the
user refers to. -/
def KeepsReferences (db : Db) : Action → Prop
  | .submit userId req _ => ∀ i ∈ req.refAssetIds, Live db.assets userId i
  | .deleteAssets userId assetIds =>
    ∀ t ∈ db.tasks, t.userId = userId → t.deleted = false → ∀ i ∈ t.refs, i ∉ assetIds
  | _ => True

/-- Writers of tasks leave the references and the assets behind them. -/
theorem Keeps.refsLive (h : Keeps db db') (hlive : RefsLive db) : RefsLive db' := by
  intro t ht hdeleted i hi
  have hframe : t.frame ∈ db.tasks.map TaskRow.frame := h.frames ▸ List.mem_map_of_mem ht
  obtain ⟨u, hu, hut⟩ := List.mem_map.1 hframe
  simp only [TaskRow.frame, Prod.mk.injEq] at hut
  obtain ⟨-, huser, hudeleted, hrefs⟩ := hut
  have hi' : i ∈ u.refs := by rwa [TaskRow.refs, hrefs]
  obtain ⟨a, ha, hrest⟩ := hlive u hu (hudeleted.trans hdeleted) i hi'
  obtain ⟨new, hnew, -⟩ := h.assets
  exact ⟨a, hnew ▸ List.mem_append_left new ha, huser ▸ hrest⟩

theorem refs_submittedRow {req : SubmitGenerateRequest} {createdAt : Nat} :
    (submittedRow db userId req createdAt).refs = req.refAssetIds.eraseDups := by
  show (if req.refAssetIds.eraseDups = [] then none else some req.refAssetIds.eraseDups).getD [] = _
  split
  case isTrue hnil => rw [hnil, Option.getD_none]
  case isFalse => rfl

theorem handleCallback_keeps {unionTaskId : Nat} {report : GatewayReport} (hn : Numbered db) :
    Keeps db (handleCallback db unionTaskId report) := by
  have hmark : ∀ u : TaskRow, ({ u with toGenerateTask := u.markCallbackSent } : TaskRow).frame = u.frame := by
    intro u
    unfold GenerateTask.markCallbackSent
    split <;> rfl
  unfold handleCallback
  split
  case h_1 t hfilter =>
    have ht : t ∈ db.tasks := (List.mem_filter.1 (hfilter ▸ List.mem_singleton_self t)).1
    split
    case h_1 callback expected res callbackSent _ =>
      obtain ⟨hwrites, hframe⟩ := applyResult_spec hn ht expected res callbackSent
      split
      case h_1 hout =>
        rw [hout] at hwrites hframe
        exact hwrites.toKeeps.setTask hn ht ((hmark _).trans (hframe _ rfl))
      case h_2 hout =>
        rw [hout] at hwrites
        exact hwrites.toKeeps
    case h_2 => exact (keeps_refl db).setTask hn ht (hmark t)
    case h_3 => exact keeps_refl db
  case h_2 => exact keeps_refl db

/-- What a step does: a writer of a task, a new task, a new asset, a deletion, or a mark of favourites. -/
theorem step_cases (hn : Numbered db) (h : step admits presign db a = some db') :
    Keeps db db' ∨
    (∃ t, db' = { db with tasks := db.tasks ++ [t] } ∧ t.id = db.tasks.length + 1 ∧
      ∃ req createdAt, a = .submit t.userId req createdAt ∧ t.refs = req.refAssetIds.eraseDups) ∨
    (∃ row, db' = { db with assets := db.assets ++ [row] } ∧ row.id = db.assets.length + 1) ∨
    (∃ t ∈ db.tasks, db' = db.setTask { t with deleted := true }) ∨
    (∃ userId assetIds, a = .deleteAssets userId assetIds ∧ db' = softDeleteAssets db userId assetIds) ∨
    ∃ userId assetIds favorited, db' = setFavorite db userId assetIds favorited := by
  cases a with
  | upload row =>
    cases h
    exact .inr (.inr (.inl ⟨_, rfl, rfl⟩))
  | submit userId req createdAt =>
    change submit admits db userId req createdAt = some db' at h
    unfold submit at h
    split at h
    · cases h
    · split at h
      · cases h
        exact .inr (.inl ⟨_, rfl, rfl, req, createdAt, rfl, refs_submittedRow⟩)
      · cases h
  | submitted taskId answer =>
    obtain ⟨t, ht, rfl⟩ := Option.map_eq_some_iff.1 h
    obtain ⟨hmem, -⟩ := task_mem ht
    cases answer with
    | error message =>
      refine .inl ((keeps_refl db).setTask hn hmem ?_)
      unfold GenerateTask.markFailedIfNonTerminal
      split <;> rfl
    | ok unionTaskId =>
      refine .inl ((keeps_refl db).setTask hn hmem ?_)
      unfold GenerateTask.bindQueued
      split <;> rfl
  | callback unionTaskId report =>
    cases h
    exact .inl (handleCallback_keeps hn)
  | status userId taskIds gw =>
    cases h
    exact .inl (getTasksStatus_keeps presign gw userId taskIds hn)
  | cancel userId taskId =>
    cases hactive : activeForUser db userId taskId with
    | none =>
      simp only [step, hactive] at h
      cases h
    | some t =>
      have ht := (task_mem (Option.filter_eq_some_iff.1 hactive).1).1
      simp only [step, hactive] at h
      split at h
      · cases h
      · obtain ⟨g, hg, rfl⟩ := Option.map_eq_some_iff.1 h
        have hframe : ({ t with toGenerateTask := g } : TaskRow).frame = t.frame := by
          unfold GenerateTask.cancelIfNonTerminal at hg
          split at hg
          · cases hg
          · cases hg
            rfl
        exact .inl ((keeps_refl db).setTask hn ht hframe)
  | deleteTask userId taskId =>
    obtain ⟨t, ht, rfl⟩ := Option.map_eq_some_iff.1 h
    exact .inr (.inr (.inr (.inl ⟨t, (task_mem (Option.filter_eq_some_iff.1 ht).1).1, rfl⟩)))
  | deleteAssets userId assetIds =>
    cases h
    exact .inr (.inr (.inr (.inr (.inl ⟨userId, assetIds, rfl, rfl⟩))))
  | favorite userId assetIds favorited =>
    cases h
    exact .inr (.inr (.inr (.inr (.inr ⟨userId, assetIds, favorited, rfl⟩))))

theorem setTask_ids : (db.setTask row).tasks.map TaskRow.id = db.tasks.map TaskRow.id := by
  show (db.tasks.map _).map TaskRow.id = _
  rw [List.map_map]
  refine List.map_congr_left fun u _ => ?_
  show (if u.id = row.id then row else u).id = u.id
  split
  case isTrue h => exact h.symm
  case isFalse => rfl

theorem setTask_length : (db.setTask row).tasks.length = db.tasks.length := List.length_map _

/-- A change of the assets that leaves their ids. -/
theorem Numbered.map_assets (hn : Numbered db) {f : AssetRow → AssetRow} (hf : ∀ a, (f a).id = a.id) :
    Numbered { db with assets := db.assets.map f } := by
  refine ⟨hn.tasks, ?_⟩
  rw [List.map_map, List.length_map, ← hn.assets]
  exact List.map_congr_left fun a _ => hf a

/-- A row with the next number. -/
theorem numbered_append {α : Type} {f : α → Nat} {l : List α} {x : α} (h : l.map f = List.range' 1 l.length)
    (hx : f x = l.length + 1) : (l ++ [x]).map f = List.range' 1 (l ++ [x]).length := by
  rw [List.map_append, h, List.length_append, List.length_singleton, List.range'_concat, List.map_singleton, hx,
    Nat.one_mul, Nat.add_comm]

theorem step_numbered (hn : Numbered db) (h : step admits presign db a = some db') : Numbered db' := by
  rcases step_cases hn h with hk | ⟨t, rfl, hid, -⟩ | ⟨row, rfl, hid⟩ | ⟨t, -, rfl⟩ | ⟨userId, assetIds, -, rfl⟩ |
    ⟨userId, assetIds, favorited, rfl⟩
  · exact hk.numbered hn
  · exact ⟨numbered_append hn.tasks hid, hn.assets⟩
  · exact ⟨hn.tasks, numbered_append hn.assets hid⟩
  · refine ⟨?_, hn.assets⟩
    rw [setTask_ids, hn.tasks, setTask_length]
  · refine hn.map_assets fun a => ?_
    split <;> rfl
  · refine hn.map_assets fun a => ?_
    split <;> rfl

theorem numbered_reach {C : Db → Action → Prop} (h : (store admits presign).Reach C db) : Numbered db := by
  refine h.induct (fun db hinit => ?_) fun db a db' hn _ hstep => step_numbered hn hstep
  cases hinit
  exact ⟨rfl, rfl⟩

/-- A change of the assets that keeps the live ones that are referred to. -/
theorem RefsLive.map_assets (hlive : RefsLive db) {f : AssetRow → AssetRow}
    (hf : ∀ t ∈ db.tasks, t.deleted = false → ∀ a ∈ db.assets, (a.id : Int) ∈ t.refs → a.userId = t.userId →
      (f a).id = a.id ∧ (f a).userId = a.userId ∧ (f a).deleted = a.deleted) :
    RefsLive { db with assets := db.assets.map f } := by
  intro t ht hdeleted i hi
  obtain ⟨a, ha, rfl, huser, hadeleted⟩ := hlive t ht hdeleted i hi
  obtain ⟨hid, huser', hdeleted'⟩ := hf t ht hdeleted a ha hi huser
  exact ⟨f a, List.mem_map_of_mem ha, by rw [hid], huser'.trans huser, hdeleted'.trans hadeleted⟩

theorem step_refsLive (hn : Numbered db) (hlive : RefsLive db) (hC : KeepsReferences db a)
    (h : step admits presign db a = some db') : RefsLive db' := by
  rcases step_cases hn h with hk | ⟨t, rfl, -, req, createdAt, rfl, hrefs⟩ | ⟨row, rfl, -⟩ |
    ⟨t, ht, rfl⟩ | ⟨userId, assetIds, rfl, rfl⟩ | ⟨userId, assetIds, favorited, rfl⟩
  · exact hk.refsLive hlive
  · intro u hu hdeleted i hi
    rcases List.mem_append.1 hu with hu | hu
    · exact hlive u hu hdeleted i hi
    · rw [List.mem_singleton] at hu
      subst hu
      rw [hrefs, List.mem_eraseDups] at hi
      exact hC i hi
  · intro u hu hdeleted i hi
    obtain ⟨a, ha, hrest⟩ := hlive u hu hdeleted i hi
    exact ⟨a, List.mem_append_left _ ha, hrest⟩
  · intro u hu hdeleted i hi
    obtain ⟨v, hv, rfl⟩ := List.mem_map.1 hu
    by_cases hid : v.id = t.id
    · -- this one is the deleted task
      rw [if_pos hid] at hdeleted
      cases hdeleted
    · rw [if_neg hid] at hdeleted hi ⊢
      exact hlive v hv hdeleted i hi
  · refine hlive.map_assets fun t ht hdeleted a ha hi huser => ?_
    split
    case isTrue hsel =>
      exact absurd hsel.2 (hC t ht (huser.symm.trans hsel.1) hdeleted a.id hi)
    case isFalse => exact ⟨rfl, rfl, rfl⟩
  · refine hlive.map_assets fun t _ _ a _ _ _ => ?_
    split <;> exact ⟨rfl, rfl, rfl⟩

/-- In a run that keeps the references, those of the undeleted tasks are undeleted assets of their users. -/
theorem refsLive_reach (h : (store admits presign).Reach KeepsReferences db) : RefsLive db := by
  have hboth : Numbered db ∧ RefsLive db := by
    refine h.induct (P := fun db => Numbered db ∧ RefsLive db) (fun db hinit => ?_) fun db a db' hI hC hstep =>
      ⟨step_numbered hI.1 hstep, step_refsLive hI.1 hI.2 hC hstep⟩
    cases hinit
    exact ⟨⟨rfl, rfl⟩, fun t ht => absurd ht List.not_mem_nil⟩
  exact hboth.2

end Tables

/-! ### The law -/

/-- The results that the query stores fit their columns. -/
def ResultsFit (gw : Gateway) (db : Db) (userId : Nat) (taskIds : List Int) : Prop :=
  ∀ t ∈ selected db userId taskIds,
    Storable gw (fetchObservations gw (observable (selected db userId taskIds))) db.assets t

/-- In a run that keeps the references, a query answers when the results that it stores fit their columns. In every
state whose requested tasks refer to no asset that is still to come, it answers exactly if these results fit and all
references of the requested tasks are undeleted assets of the user. -/
theorem tasks_status_law (admits : SubmitGenerateRequest → List (String × String) → Bool) (presign : String → String) :
    (∀ db, (store admits presign).Reach KeepsReferences db → ∀ gw userId taskIds, ResultsFit gw db userId taskIds →
      Answers db userId taskIds (getTasksStatus presign gw db userId taskIds).2) ∧
    ∀ db, (store admits presign).Reach Free db → ∀ gw userId taskIds,
      (∀ t ∈ selected db userId taskIds, ∀ i ∈ t.refs, i ≤ db.assets.length) →
      (Answers db userId taskIds (getTasksStatus presign gw db userId taskIds).2 ↔
        ResultsFit gw db userId taskIds ∧
          ∀ t ∈ selected db userId taskIds, ∀ i ∈ t.refs, Live db.assets userId i) := by
  constructor
  · intro db h gw userId taskIds hfit
    have hn := numbered_reach h
    refine (getTasksStatus_answers hn).2 ⟨hfit, fun t ht i hi => ?_⟩
    obtain ⟨hmem, rfl, hdeleted, -⟩ := mem_selected ht
    obtain ⟨a, ha, hrest⟩ := refsLive_reach h t hmem hdeleted i hi
    obtain ⟨new, hnew, -⟩ := (getTasksStatus_keeps presign gw t.userId taskIds hn).assets
    exact ⟨a, hnew ▸ List.mem_append_left new ha, hrest⟩
  · intro db h gw userId taskIds hgiven
    have hn := numbered_reach h
    rw [getTasksStatus_answers hn]
    refine and_congr_right fun _ => forall₂_congr fun t ht => forall₂_congr fun i hi => ?_
    exact live_of_extends (getTasksStatus_keeps presign gw userId taskIds hn).assets (hgiven t ht i hi)

/-! ### A task whose reference is deleted -/

instance (assets : List AssetRow) (t : TaskRow) (key : String) : Decidable (HasAsset assets t key) :=
  inferInstanceAs (Decidable (∃ a ∈ assets, _))

instance (gw : Gateway) (observations : GatewayObservationBatch) (assets : List AssetRow) (t : TaskRow) :
    Decidable (Storable gw observations assets t) :=
  inferInstanceAs (Decidable (∀ item ∈ reported gw observations t, _))

instance (gw : Gateway) (db : Db) (userId : Nat) (taskIds : List Int) : Decidable (ResultsFit gw db userId taskIds) :=
  inferInstanceAs (Decidable (∀ t ∈ selected db userId taskIds, _))

instance (db : Db) : (a : Action) → Decidable (KeepsReferences db a)
  | .submit userId req _ => inferInstanceAs (Decidable (∀ i ∈ req.refAssetIds, Live db.assets userId i))
  | .deleteAssets userId assetIds =>
    inferInstanceAs (Decidable (∀ t ∈ db.tasks, t.userId = userId → t.deleted = false → ∀ i ∈ t.refs, i ∉ assetIds))
  | .upload _ | .submitted _ _ | .callback _ _ | .status _ _ _ | .cancel _ _ | .deleteTask _ _ | .favorite _ _ _ =>
    isTrue trivial

/-- A gateway that answers no query. -/
def silent : Gateway := ⟨fun _ => none, fun _ _ => none⟩

/-- A picture of the user. -/
def picture : AssetRow := ⟨0, 7, "u/7/p.png", "p.png", "image/png", "image", "manual_upload", none, false, false⟩

def request (refAssetIds : List Int) : SubmitGenerateRequest :=
  ⟨.IMAGE, "a lake", "painter", some "1:1", some "2k", none, none, refAssetIds⟩

/-- Two tasks; the second one refers to the picture. -/
def submits : List Action :=
  [.upload picture, .submit 7 (request []) 1, .submitted 1 (.ok 101), .submit 7 (request [1]) 2, .submitted 2 (.ok 102)]

/-- After the picture is deleted, the query for both tasks raises. -/
theorem reference_deleted : ∃ db, (store (fun _ _ => true) id).Reach Free db ∧
    isTask db 7 1 = true ∧ isTask db 7 2 = true ∧ ¬ Answers db 7 [1, 2] (getTasksStatus id silent db 7 [1, 2]).2 := by
  obtain ⟨db, -, hreach, hdb⟩ := Machine.reach_of_exec
    (M := store (fun _ _ => true) id) (C := Free)
    (p := fun db => isTask db 7 1 && isTask db 7 2 && !(getTasksStatus id silent db 7 [1, 2]).2.isOk)
    (submits ++ [.deleteAssets 7 [1]]) rfl (by decide)
  simp only [Bool.and_eq_true, Bool.not_eq_true'] at hdb
  obtain ⟨⟨hone, htwo⟩, hraises⟩ := hdb
  refine ⟨db, hreach, hone, htwo, ?_⟩
  rintro ⟨response, hok, -⟩
  rw [hok] at hraises
  cases hraises

/-- Before that, it answers. -/
theorem reference_kept : ∃ db, isTask db 7 1 = true ∧ isTask db 7 2 = true ∧
    Answers db 7 [2, 1, 9, 2] (getTasksStatus id silent db 7 [2, 1, 9, 2]).2 := by
  obtain ⟨db, -, hreach, hdb⟩ := Machine.reach_of_exec
    (M := store (fun _ _ => true) id) (C := KeepsReferences)
    (p := fun db => isTask db 7 1 && isTask db 7 2 && decide (ResultsFit silent db 7 [2, 1, 9, 2]))
    submits rfl (by decide)
  simp only [Bool.and_eq_true, decide_eq_true_eq] at hdb
  obtain ⟨⟨hone, htwo⟩, hfit⟩ := hdb
  exact ⟨db, hone, htwo, (tasks_status_law _ id).1 db hreach silent 7 [2, 1, 9, 2] hfit⟩

end NexusStudio.StatusQuery
