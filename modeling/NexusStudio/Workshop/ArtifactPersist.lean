import NexusStudio.Lib.FirstCome
import NexusStudio.Server.Errors
import Mathlib.Data.List.Lex
import Mathlib.Data.List.Sort
import Mathlib.Data.String.Basic

/-!
# The files that the nodes of a run leave

`persist_workflow_output_files` uploads the files of a run's output directory, after each node of the run.

* (store) The objects of the object storage, the assets, and the rows of the run's artifacts, whose names are unique.
* (scan) Each file has the name of its path's last part. A file whose name is taken is passed over.
* (names) Over a run the names go to the files that come first: the artifacts are a registry of names
  (`runNodes_owner`).
* (law) All non-empty files are stored exactly if no two of them share a name and no artifact had one before
  (`stored_iff`).
* (kept) What is not stored is still in the directory, also where a call raises (`persist_kept`).
-/

namespace NexusStudio.ArtifactPersist

/-! ### Files -/

/-- A file that a node has written: which writing it was, the parts of its absolute path, and its size. -/
structure OutputFile where
  written : Nat
  parts : List String
  sizeBytes : Nat
  deriving DecidableEq, Repr

/-- A path below the directory for which `is_file` holds, and the file that it resolves to. -/
structure Entry where
  parts : List String
  file : OutputFile
  deriving DecidableEq, Repr

/-- `root` and `out_dir`, resolved, and the files of the directory where there is one. -/
structure Directory where
  root : List String
  outDir : List String
  entries : Option (List Entry)
  deriving DecidableEq, Repr

/-- `str(path)` of an absolute path. -/
def pathText (parts : List String) : String := "/" ++ "/".intercalate parts

/-- `str(path).startswith(str(directory))`. -/
def isBelow (path directory : List String) : Bool := (pathText directory).toList.isPrefixOf (pathText path).toList

/-- `safe_filename(resolved.name)`, where it does not raise. -/
def safeName (f : OutputFile) : String := strip (f.parts.getLastD "")

def safeFilename (f : OutputFile) : Except (Failure Unit) String :=
  if safeName f = "" then .error (.app .invalidParams "文件名无效" none) else .ok (safeName f)

/-! ### The store -/

/-- `workshop/{user_id}/{project_id}/{run_id}/{uuid4().hex}/{name}` of a run. -/
structure StorageKey where
  uuid : Nat
  name : String
  deriving DecidableEq, Repr

inductive Storage
  | db (content : String)
  | oss (key : StorageKey)
  | filesystem (key : String)
  deriving DecidableEq, Repr

structure Artifact where
  id : Nat
  name : String
  storage : Storage
  sizeBytes : Option Nat
  deriving DecidableEq, Repr

structure Asset where
  storageKey : StorageKey
  mimeType : String
  filename : String
  sourceId : Nat
  size : Nat
  deriving DecidableEq, Repr

/-- What is stored of a run. The ids that are drawn are those below `next`. -/
structure Store where
  objects : StorageKey → Option OutputFile
  assets : List Asset
  artifacts : List Artifact
  next : Nat
  -- `uk_workshop_artifacts_task_name`
  distinct : (artifacts.map Artifact.name).Nodup
  issued : ∀ a ∈ artifacts, ∀ key, a.storage = .oss key → key.uuid < next

namespace Store

variable (s : Store)

/-- The file that an artifact is of. -/
def held (a : Artifact) : Option OutputFile :=
  match a.storage with
  | .oss key => s.objects key
  | _ => none

/-- `list_artifacts_for_project`, as the set of the names. -/
def names : List String := s.artifacts.map Artifact.name

/-- The ids of an upload are drawn. -/
def draw : Store :=
  { s with next := s.next + 1, issued := fun a ha key hkey => Nat.lt_succ_of_lt (s.issued a ha key hkey) }

/-- `put_file_path` with the ids drawn. -/
def putFilePath (f : OutputFile) : Store :=
  { s.draw with objects := Function.update s.objects ⟨s.next, safeName f⟩ (some f) }

def createAsset (asset : Asset) : Store := { s with assets := s.assets ++ [asset] }

/-- `create_artifact` for a name that is free. -/
def createArtifact (a : Artifact) (hname : a.name ∉ s.names) (hkey : ∀ key, a.storage = .oss key → key.uuid < s.next) :
    Store :=
  { s with
    artifacts := s.artifacts ++ [a]
    distinct := by
      rw [List.map_append, List.map_singleton, List.nodup_append]
      refine ⟨s.distinct, List.nodup_singleton a.name, fun b hb c hc hbc => hname ?_⟩
      rw [List.mem_singleton] at hc
      exact hc ▸ hbc ▸ hb
    issued := fun b hb key hkey' => by
      rcases List.mem_append.1 hb with hb | hb
      · exact s.issued b hb key hkey'
      · exact hkey key (List.mem_singleton.1 hb ▸ hkey') }

end Store

/-! ### The scan -/

/-- The calls for a file that may raise. -/
inductive Stage
  | upload
  | asset
  | artifact
  | unlink
  deriving DecidableEq, Repr

/-- What the calls do: whether the object storage is configured, `guess_type`, and what raises. -/
structure Environment where
  configured : Bool
  guessType : String → Option String
  listing : Option String
  raises : OutputFile → Option (Stage × String)
  removal : Option String

structure PersistedWorkflowFile where
  artifactId : Nat
  name : String
  storageKey : StorageKey
  sizeBytes : Nat
  deriving DecidableEq, Repr

/-- The state of the loop: the store, the files of the directory, `existing_names` and `persisted`. -/
structure Scan where
  store : Store
  files : List OutputFile
  existingNames : List String
  persisted : List PersistedWorkflowFile

/-- The result of a step that may raise; what is done before stays. -/
abbrev Step (σ : Type) := σ × Option (Failure Unit)

/-- The store once a file with a free name is uploaded and its asset is created. -/
def registered (env : Environment) (s : Store) (f : OutputFile) : Store :=
  (s.putFilePath f).createAsset
    ⟨⟨s.next, safeName f⟩, (env.guessType (safeName f)).getD "application/octet-stream", safeName f, s.next,
      f.sizeBytes⟩

/-- The row of its artifact. -/
def artifactOf (s : Store) (f : OutputFile) : Artifact :=
  ⟨s.next, strip (safeName f), .oss ⟨s.next, safeName f⟩, some f.sizeBytes⟩

theorem uuid_artifactOf {env : Environment} {s : Store} {f : OutputFile} :
    ∀ key, (artifactOf s f).storage = .oss key → key.uuid < (registered env s f).next := by
  intro key hkey
  cases hkey
  exact Nat.lt_succ_self s.next

/-- The store once its artifact is created, too. -/
def created (env : Environment) (s : Store) (f : OutputFile)
    (h : (artifactOf s f).name ∉ (registered env s f).names) : Store :=
  (registered env s f).createArtifact (artifactOf s f) h uuid_artifactOf

/-- `existing_names.add` and `persisted.append`, once the artifact is created. -/
def Scan.register (scan : Scan) (store : Store) (f : OutputFile) : Scan :=
  { scan with
    store := store
    existingNames := safeName f :: scan.existingNames
    persisted := scan.persisted ++ [⟨scan.store.next, safeName f, ⟨scan.store.next, safeName f⟩, f.sizeBytes⟩] }

/-- `resolved.unlink()`. -/
def Scan.unlink (scan : Scan) (f : OutputFile) : Scan := { scan with files := scan.files.filter (· ≠ f) }

/-- A file with a name that is free: its upload, asset and artifact, and then it is removed. -/
def uploadFile (env : Environment) (scan : Scan) (f : OutputFile) : Step Scan :=
  match env.raises f with
  | some (.upload, message) => ({ scan with store := scan.store.draw }, some (.other message))
  | some (.asset, message) => ({ scan with store := scan.store.putFilePath f }, some (.other message))
  | some (.artifact, message) => ({ scan with store := registered env scan.store f }, some (.other message))
  | raises =>
    if h : (artifactOf scan.store f).name ∈ (registered env scan.store f).names then
      -- `WorkshopArtifactConflictError`
      ({ scan with store := registered env scan.store f }, some (.other (artifactOf scan.store f).name))
    else
      match raises with
      | some (_, message) => (scan.register (created env scan.store f h) f, some (.other message))
      | none => ((scan.register (created env scan.store f h) f).unlink f, none)

/-- The body of the loop. -/
def persistFile (env : Environment) (outDir : List String) (scan : Scan) (f : OutputFile) : Step Scan :=
  if !isBelow f.parts outDir then (scan, some (.other "output path escapes run directory"))
  else
    match safeFilename f with
    | .error failure => (scan, some failure)
    | .ok name =>
      if name ∈ scan.existingNames then (scan, none)
      else if f ∉ scan.files then (scan, some (.other "FileNotFoundError"))
      else if f.sizeBytes = 0 then (scan, none)
      else if !env.configured then (scan, some (.other "object storage not configured"))
      else uploadFile env scan f

/-- The loop. -/
def persistFiles (env : Environment) (outDir : List String) : Scan → List OutputFile → Step Scan
  | scan, [] => (scan, none)
  | scan, f :: rest =>
    match persistFile env outDir scan f with
    | (scan, some failure) => (scan, some failure)
    | (scan, none) => persistFiles env outDir scan rest

/-- `sorted(path for path in out_dir.rglob("*") if path.is_file())`, as the files that they resolve to. -/
def pendingFiles (entries : List Entry) : List OutputFile :=
  (entries.insertionSort fun a b => a.parts ≤ b.parts).map Entry.file

/-- `persist_workflow_output_files`. -/
def persistWorkflowOutputFiles (env : Environment) (s : Store) (d : Directory) : Step Scan :=
  let files := (d.entries.getD []).map Entry.file
  if !isBelow d.outDir d.root then (⟨s, files, [], []⟩, some (.other "output path escapes workspace"))
  else
    match d.entries, env.listing with
    | none, _ => (⟨s, files, [], []⟩, none)
    | some _, some message => (⟨s, files, [], []⟩, some (.other message))
    | some entries, none =>
      match persistFiles env d.outDir ⟨s, files, s.names, []⟩ (pendingFiles entries) with
      | (scan, some failure) => (scan, some failure)
      -- `_remove_empty_run_output_dir`
      | (scan, none) => (scan, if scan.files = [] then env.removal.map .other else none)

/-- What a node leaves in the directory, and the environment of the call after it. -/
structure NodeTurn where
  env : Environment
  directory : Directory

/-- The calls after the nodes of a run; the first one that raises ends it. -/
def runNodes : Store → List NodeTurn → Step Store
  | s, [] => (s, none)
  | s, turn :: rest =>
    match persistWorkflowOutputFiles turn.env s turn.directory with
    | (scan, some failure) => (scan.store, some failure)
    | (scan, none) => runNodes scan.store rest

/-- The non-empty files of a run. -/
def outputFiles (turns : List NodeTurn) : List OutputFile :=
  turns.flatMap fun turn => ((turn.directory.entries.getD []).map Entry.file).filter fun f => 0 < f.sizeBytes

/-! ### The registry of names -/

namespace Store

variable {s : Store} {f : OutputFile} {a : Artifact} {n : String} {o : Option OutputFile}

/-- The file has an artifact of its own, under its name. -/
def Stored (s : Store) (f : OutputFile) : Prop := ∃ a ∈ s.artifacts, a.name = safeName f ∧ s.held a = some f

/-- Whose artifact has a name. -/
def owner (s : Store) : FirstCome.Registry String OutputFile :=
  fun n => (s.artifacts.find? fun a => a.name = n).map s.held

theorem owner_eq_some_iff : s.owner n = some o ↔ ∃ a ∈ s.artifacts, a.name = n ∧ s.held a = o := by
  constructor
  · intro h
    obtain ⟨a, ha, ho⟩ := Option.map_eq_some_iff.1 h
    have hname : a.name = n := of_decide_eq_true (List.find?_some ha :)
    exact ⟨a, List.mem_of_find?_eq_some ha, hname, ho⟩
  · rintro ⟨a, ha, hn, ho⟩
    have hsome : (s.artifacts.find? fun b => b.name = n).isSome := List.find?_isSome.2 ⟨a, ha, decide_eq_true hn⟩
    obtain ⟨b, hb⟩ := Option.isSome_iff_exists.1 hsome
    have hname : b.name = n := of_decide_eq_true (List.find?_some hb :)
    have hba : b = a :=
      List.inj_on_of_nodup_map s.distinct (List.mem_of_find?_eq_some hb) ha (hname.trans hn.symm)
    rw [owner, hb, hba, Option.map_some, ho]

theorem stored_iff_has : s.Stored f ↔ FirstCome.Has safeName s.owner f := owner_eq_some_iff.symm

theorem mem_names_iff : n ∈ s.names ↔ (s.owner n).isSome := by
  rw [names, List.mem_map, Option.isSome_iff_exists]
  constructor
  · rintro ⟨a, ha, hn⟩
    exact ⟨s.held a, owner_eq_some_iff.2 ⟨a, ha, hn, rfl⟩⟩
  · rintro ⟨o, ho⟩
    obtain ⟨a, ha, hn, -⟩ := owner_eq_some_iff.1 ho
    exact ⟨a, ha, hn⟩

theorem owner_createAsset (s : Store) (asset : Asset) : (s.createAsset asset).owner = s.owner := rfl

/-- An upload has a key of its own. -/
theorem held_putFilePath (ha : a ∈ s.artifacts) : (s.putFilePath f).held a = s.held a := by
  unfold held
  cases hs : a.storage with
  | db content => rfl
  | filesystem key => rfl
  | oss key =>
    have hne : key ≠ ⟨s.next, safeName f⟩ := by
      rintro rfl
      exact Nat.lt_irrefl s.next (s.issued a ha _ hs)
    exact Function.update_of_ne hne (some f) s.objects

theorem owner_putFilePath (s : Store) (f : OutputFile) : (s.putFilePath f).owner = s.owner := by
  funext n
  refine Option.ext fun o => ?_
  rw [owner_eq_some_iff, owner_eq_some_iff]
  exact exists_congr fun a => and_congr_right fun ha => by rw [held_putFilePath (s := s) ha]

theorem owner_createArtifact (hname : a.name ∉ s.names) (hkey : ∀ key, a.storage = .oss key → key.uuid < s.next) :
    (s.createArtifact a hname hkey).owner = Function.update s.owner a.name (some (s.held a)) := by
  funext n
  have hfind : (s.createArtifact a hname hkey).owner n =
      ((s.artifacts ++ [a]).find? fun b => b.name = n).map s.held := rfl
  rw [hfind, List.find?_append, Option.map_or, List.find?_singleton]
  by_cases hn : n = a.name
  · have hfree : s.owner n = none := by
      rw [← Option.not_isSome_iff_eq_none, ← mem_names_iff, hn]
      exact hname
    rw [← owner, hfree, hn, Function.update_self, if_pos (decide_eq_true rfl)]
    rfl
  · rw [Function.update_of_ne hn, if_neg (by simpa using Ne.symm hn), Option.map_none, Option.or_none]
    rfl

end Store

/-! ### Steps -/

section Steps

variable {env : Environment} {outDir : List String} {s : Store} {d : Directory} {scan scan' : Scan} {f : OutputFile}
  {files : List OutputFile}

theorem owner_registered (env : Environment) (s : Store) (f : OutputFile) : (registered env s f).owner = s.owner := by
  rw [registered, Store.owner_createAsset, Store.owner_putFilePath]

/-- The artifact of an upload takes its name. -/
theorem owner_created (h : (artifactOf s f).name ∉ (registered env s f).names) :
    (created env s f h).owner = Function.update s.owner (safeName f) (some (some f)) := by
  have hheld : (registered env s f).held (artifactOf s f) = some f := by
    change Function.update s.objects ⟨s.next, safeName f⟩ (some f) ⟨s.next, safeName f⟩ = some f
    exact Function.update_self ..
  have hname : (artifactOf s f).name = safeName f := strip_strip _
  rw [created, Store.owner_createArtifact, hheld, hname, owner_registered]

/-- `existing_names` are the names of the artifacts. -/
def Scan.Tracks (scan : Scan) : Prop := ∀ n, n ∈ scan.existingNames ↔ n ∈ scan.store.names

theorem tracks_register (htracks : scan.Tracks)
    (h : (artifactOf scan.store f).name ∉ (registered env scan.store f).names) :
    (scan.register (created env scan.store f h) f).Tracks := by
  intro n
  have hnames := htracks n
  change n ∈ safeName f :: scan.existingNames ↔ n ∈ (created env scan.store f h).names
  rw [Store.mem_names_iff] at hnames ⊢
  rw [owner_created h, List.mem_cons, hnames]
  by_cases hn : n = safeName f
  · rw [hn, Function.update_self]
    exact iff_of_true (.inl rfl) rfl
  · rw [Function.update_of_ne hn]
    exact or_iff_right hn

/-- A file with a free name gets an artifact, unless a call raises. -/
theorem uploadFile_ok (h : uploadFile env scan f = (scan', none)) :
    ∃ hfree, scan' = (scan.register (created env scan.store f hfree) f).unlink f := by
  unfold uploadFile at h
  split at h
  case h_1 => cases h
  case h_2 => cases h
  case h_3 => cases h
  case h_4 =>
    split at h
    case isTrue => cases h
    case isFalse hfree =>
      split at h
      case h_1 => cases h
      case h_2 => exact ⟨hfree, (congrArg Prod.fst h).symm⟩

/-- A step that returns has passed over the file, or uploaded it. -/
theorem persistFile_cases (h : persistFile env outDir scan f = (scan', none)) :
    (scan' = scan ∧ (safeName f ∈ scan.existingNames ∨ f.sizeBytes = 0)) ∨
    (safeName f ∉ scan.existingNames ∧ 0 < f.sizeBytes ∧ uploadFile env scan f = (scan', none)) := by
  unfold persistFile safeFilename at h
  split at h
  · cases h
  · split at h
    case h_1 => cases h
    case h_2 name hname =>
      split at hname
      · cases hname
      · cases hname
        split at h
        case isTrue htaken => exact .inl ⟨(congrArg Prod.fst h).symm, .inl htaken⟩
        case isFalse hfree =>
          split at h
          · cases h
          · split at h
            case isTrue hempty => exact .inl ⟨(congrArg Prod.fst h).symm, .inr hempty⟩
            case isFalse hsize =>
              split at h
              · cases h
              · exact .inr ⟨hfree, Nat.pos_of_ne_zero hsize, h⟩

/-- A step registers the name of a file that is not empty. -/
theorem persistFile_ok (htracks : scan.Tracks) (h : persistFile env outDir scan f = (scan', none)) :
    scan'.Tracks ∧ scan'.store.owner =
      if 0 < f.sizeBytes then FirstCome.register safeName scan.store.owner f else scan.store.owner := by
  rcases persistFile_cases h with ⟨rfl, htaken | hempty⟩ | ⟨hfree, hsize, hupload⟩
  · rw [htracks, Store.mem_names_iff] at htaken
    obtain ⟨o, ho⟩ := Option.isSome_iff_exists.1 htaken
    refine ⟨htracks, ?_⟩
    rw [FirstCome.register_of_taken ho, ite_self]
  · refine ⟨htracks, ?_⟩
    rw [hempty, if_neg (Nat.lt_irrefl 0)]
  · obtain ⟨hname, rfl⟩ := uploadFile_ok hupload
    rw [htracks, Store.mem_names_iff, Option.not_isSome_iff_eq_none] at hfree
    refine ⟨tracks_register htracks hname, ?_⟩
    rw [if_pos hsize, FirstCome.register_of_free hfree]
    exact owner_created hname

/-- The loop registers the names of the files that are not empty. -/
theorem persistFiles_ok (htracks : scan.Tracks) (h : persistFiles env outDir scan files = (scan', none)) :
    scan'.store.owner =
      FirstCome.registerAll safeName scan.store.owner (files.filter fun f => 0 < f.sizeBytes) := by
  induction files generalizing scan with
  | nil =>
    cases h
    rfl
  | cons f files ih =>
    rw [persistFiles] at h
    split at h
    case h_1 => cases h
    case h_2 next hstep =>
      obtain ⟨hnext, howner⟩ := persistFile_ok htracks hstep
      rw [ih hnext h, howner, List.filter_cons]
      by_cases hsize : 0 < f.sizeBytes
      · rw [if_pos hsize, if_pos (decide_eq_true hsize), FirstCome.registerAll_cons]
      · rw [if_neg hsize, if_neg (by simpa using hsize)]

/-- The files that a call looks at, in their order. -/
def scanned (d : Directory) : List OutputFile :=
  (pendingFiles (d.entries.getD [])).filter fun f => 0 < f.sizeBytes

theorem persist_owner (h : persistWorkflowOutputFiles env s d = (scan, none)) :
    scan.store.owner = FirstCome.registerAll safeName s.owner (scanned d) := by
  unfold persistWorkflowOutputFiles at h
  dsimp only at h
  split at h
  · cases h
  · split at h
    case h_1 hd =>
      cases h
      rw [scanned, hd]
      rfl
    case h_2 => cases h
    case h_3 entries hd _ =>
      split at h
      · cases h
      case h_2 last hfiles =>
        have hlast : last = scan := congrArg Prod.fst h
        have htracks : Scan.Tracks ⟨s, (d.entries.getD []).map Entry.file, s.names, []⟩ := fun _ => Iff.rfl
        rw [← hlast, persistFiles_ok htracks hfiles, scanned, hd]
        rfl

end Steps

/-! ### What is kept -/

section Kept

variable {env : Environment} {outDir : List String} {s : Store} {d : Directory} {scan scan' scan'' : Scan}
  {f : OutputFile} {files : List OutputFile}

/-- Names stay with their owners, and each file stays or is stored. -/
structure Keeps (scan scan' : Scan) : Prop where
  owner : ∀ n o, scan.store.owner n = some o → scan'.store.owner n = some o
  files : ∀ f ∈ scan.files, f ∈ scan'.files ∨ scan'.store.Stored f

theorem Keeps.of_eq (howner : scan'.store.owner = scan.store.owner) (hfiles : scan'.files = scan.files) :
    Keeps scan scan' :=
  ⟨fun _ _ h => howner ▸ h, fun _ h => .inl (hfiles ▸ h)⟩

theorem Keeps.stored (h : Keeps scan scan') (hf : scan.store.Stored f) : scan'.store.Stored f :=
  Store.stored_iff_has.2 (h.owner _ _ (Store.stored_iff_has.1 hf))

theorem Keeps.trans (h : Keeps scan scan') (h' : Keeps scan' scan'') : Keeps scan scan'' :=
  ⟨fun n o ho => h'.owner n o (h.owner n o ho),
    fun f hf => (h.files f hf).elim (h'.files f) fun hs => .inr (h'.stored hs)⟩

theorem keeps_register (h : (artifactOf scan.store f).name ∉ (registered env scan.store f).names) :
    Keeps scan (scan.register (created env scan.store f h) f) := by
  refine ⟨fun n o ho => ?_, fun g hg => .inl hg⟩
  have hname : (artifactOf scan.store f).name = safeName f := strip_strip _
  have hne : n ≠ safeName f := by
    rintro rfl
    rw [hname, Store.mem_names_iff, owner_registered, ho] at h
    exact h rfl
  change (created env scan.store f h).owner n = some o
  rw [owner_created, Function.update_of_ne hne, ho]

/-- A file is removed once it is stored. -/
theorem keeps_unlink (h : scan.store.Stored f) : Keeps scan (scan.unlink f) := by
  refine ⟨fun n o ho => ho, fun g hg => ?_⟩
  by_cases hgf : g = f
  · rw [hgf]
    exact .inr h
  · exact .inl (List.mem_filter.2 ⟨hg, decide_eq_true hgf⟩)

theorem stored_created (h : (artifactOf s f).name ∉ (registered env s f).names) : (created env s f h).Stored f := by
  rw [Store.stored_iff_has, FirstCome.Has, owner_created, Function.update_self]

theorem uploadFile_keeps : Keeps scan (uploadFile env scan f).1 := by
  unfold uploadFile
  split
  case h_1 => exact .of_eq rfl rfl
  case h_2 => exact .of_eq (Store.owner_putFilePath scan.store f) rfl
  case h_3 => exact .of_eq (owner_registered env scan.store f) rfl
  case h_4 =>
    split
    case isTrue => exact .of_eq (owner_registered env scan.store f) rfl
    case isFalse h =>
      split
      case h_1 => exact keeps_register h
      case h_2 => exact (keeps_register h).trans (keeps_unlink (stored_created h))

theorem persistFile_keeps : Keeps scan (persistFile env outDir scan f).1 := by
  have hself : Keeps scan scan := .of_eq rfl rfl
  unfold persistFile
  split
  · exact hself
  · split
    case h_1 => exact hself
    case h_2 =>
      split
      · exact hself
      · split
        · exact hself
        · split
          · exact hself
          · split
            · exact hself
            · exact uploadFile_keeps

theorem persistFiles_keeps : Keeps scan (persistFiles env outDir scan files).1 := by
  induction files generalizing scan with
  | nil => exact .of_eq rfl rfl
  | cons f files ih =>
    have hstep : Keeps scan (persistFile env outDir scan f).1 := persistFile_keeps
    rw [persistFiles]
    split
    case h_1 next failure hnext =>
      rw [hnext] at hstep
      exact hstep
    case h_2 next hnext =>
      rw [hnext] at hstep
      exact hstep.trans ih

/-- Whether a call returns or raises: a file of the directory is still there, or it is stored. -/
theorem persist_kept (env : Environment) (s : Store) (d : Directory) : ∀ f ∈ (d.entries.getD []).map Entry.file,
    f ∈ (persistWorkflowOutputFiles env s d).1.files ∨ (persistWorkflowOutputFiles env s d).1.store.Stored f := by
  intro f hf
  unfold persistWorkflowOutputFiles
  dsimp only
  split
  · exact .inl hf
  · split
    case h_1 => exact .inl hf
    case h_2 => exact .inl hf
    case h_3 entries _ _ =>
      have hloop : Keeps ⟨s, (d.entries.getD []).map Entry.file, s.names, []⟩
          (persistFiles env d.outDir ⟨s, (d.entries.getD []).map Entry.file, s.names, []⟩ (pendingFiles entries)).1 :=
        persistFiles_keeps
      split
      case h_1 scan failure hscan =>
        rw [hscan] at hloop
        exact hloop.files f hf
      case h_2 scan hscan =>
        rw [hscan] at hloop
        exact hloop.files f hf

end Kept

/-! ### Calls that return -/

section Returns

variable {env : Environment} {outDir : List String} {scan : Scan} {f : OutputFile} {files : List OutputFile}

/-- Nothing raises: the calls do what they are for, and the files are below the directory, under valid names. -/
structure Works (env : Environment) (d : Directory) : Prop where
  configured : env.configured = true
  listing : env.listing = none
  raises : ∀ f, env.raises f = none
  removal : env.removal = none
  root : isBelow d.outDir d.root = true
  below : ∀ f ∈ (d.entries.getD []).map Entry.file, isBelow f.parts d.outDir = true
  named : ∀ f ∈ (d.entries.getD []).map Entry.file, safeName f ≠ ""

/-- A file of the loop is still in the directory, or its name is known. -/
def Scan.Sees (scan : Scan) (f : OutputFile) : Prop := f ∈ scan.files ∨ safeName f ∈ scan.existingNames

theorem sees_unlink (store : Store) {g : OutputFile} (h : scan.Sees g) :
    ((scan.register store f).unlink f).Sees g := by
  rcases h with hg | hg
  · by_cases hgf : g = f
    · exact .inr (hgf ▸ List.mem_cons_self)
    · exact .inl (List.mem_filter.2 ⟨hg, decide_eq_true hgf⟩)
  · exact .inr (List.mem_cons_of_mem _ hg)

theorem uploadFile_returns (hraises : env.raises f = none) (htracks : scan.Tracks)
    (hfree : safeName f ∉ scan.existingNames) :
    ∃ hfree, uploadFile env scan f = ((scan.register (created env scan.store f hfree) f).unlink f, none) := by
  have hname : (artifactOf scan.store f).name = safeName f := strip_strip _
  have hnames : (artifactOf scan.store f).name ∉ (registered env scan.store f).names := by
    rw [hname, Store.mem_names_iff, owner_registered, ← Store.mem_names_iff, ← htracks]
    exact hfree
  refine ⟨hnames, ?_⟩
  unfold uploadFile
  rw [hraises]
  exact dif_neg hnames

theorem persistFile_returns (hconfigured : env.configured = true) (hraises : env.raises f = none)
    (hbelow : isBelow f.parts outDir = true) (hnamed : safeName f ≠ "") (htracks : scan.Tracks) (hsees : scan.Sees f) :
    ∃ next, persistFile env outDir scan f = (next, none) ∧ ∀ g, scan.Sees g → next.Sees g := by
  unfold persistFile safeFilename
  rw [hbelow, Bool.not_true, if_neg Bool.false_ne_true, if_neg hnamed]
  dsimp only
  split
  · exact ⟨scan, rfl, fun _ h => h⟩
  · next hfree =>
    rw [if_neg (not_not.2 (hsees.resolve_right hfree))]
    split
    · exact ⟨scan, rfl, fun _ h => h⟩
    · rw [hconfigured, Bool.not_true, if_neg Bool.false_ne_true]
      obtain ⟨hname, hupload⟩ := uploadFile_returns hraises htracks hfree
      exact ⟨_, hupload, fun g hg => sees_unlink _ hg⟩

theorem persistFiles_returns (hconfigured : env.configured = true) (hraises : ∀ f, env.raises f = none)
    (hfiles : ∀ f ∈ files, isBelow f.parts outDir = true ∧ safeName f ≠ "") (htracks : scan.Tracks)
    (hsees : ∀ f ∈ files, scan.Sees f) : (persistFiles env outDir scan files).2 = none := by
  induction files generalizing scan with
  | nil => rfl
  | cons f files ih =>
    obtain ⟨hbelow, hnamed⟩ := hfiles f List.mem_cons_self
    obtain ⟨next, hstep, hnext⟩ :=
      persistFile_returns hconfigured (hraises f) hbelow hnamed htracks (hsees f List.mem_cons_self)
    rw [persistFiles, hstep]
    exact ih (fun g hg => hfiles g (List.mem_cons_of_mem f hg)) (persistFile_ok htracks hstep).1
      fun g hg => hnext g (hsees g (List.mem_cons_of_mem f hg))

/-- A call in which nothing raises returns. -/
theorem persist_returns {d : Directory} (h : Works env d) (s : Store) :
    (persistWorkflowOutputFiles env s d).2 = none := by
  unfold persistWorkflowOutputFiles
  dsimp only
  rw [h.root, h.listing, h.removal, Bool.not_true, if_neg Bool.false_ne_true]
  cases hd : d.entries with
  | none => rfl
  | some entries =>
    have hmem : ∀ f ∈ pendingFiles entries, f ∈ (d.entries.getD []).map Entry.file := by
      intro f hf
      rw [hd, Option.getD_some]
      rw [pendingFiles, List.mem_map] at hf
      simpa only [List.mem_insertionSort, List.mem_map] using hf
    have hloop : (persistFiles env d.outDir ⟨s, (d.entries.getD []).map Entry.file, s.names, []⟩
        (pendingFiles entries)).2 = none :=
      persistFiles_returns h.configured h.raises (fun f hf => ⟨h.below f (hmem f hf), h.named f (hmem f hf)⟩)
        (fun _ => Iff.rfl) fun f hf => .inl (hmem f hf)
    rw [hd] at hloop
    dsimp only
    split
    case h_1 scan failure hscan =>
      rw [hscan] at hloop
      cases hloop
    case h_2 scan hscan =>
      dsimp only
      split
      · rfl
      · rfl

end Returns

/-! ### Runs -/

section Runs

variable {s : Store} {turns : List NodeTurn} {f : OutputFile}

/-- A run in which nothing raises returns. -/
theorem runNodes_returns (h : ∀ turn ∈ turns, Works turn.env turn.directory) : (runNodes s turns).2 = none := by
  induction turns generalizing s with
  | nil => rfl
  | cons turn turns ih =>
    have hcall := persist_returns (h turn List.mem_cons_self) s
    rw [runNodes]
    split
    case h_1 scan failure hscan =>
      rw [hscan] at hcall
      cases hcall
    case h_2 => exact ih fun turn' hturn => h turn' (List.mem_cons_of_mem turn hturn)

/-- Over a run the names go to the files that come first. -/
theorem runNodes_owner (h : (runNodes s turns).2 = none) : (runNodes s turns).1.owner =
    FirstCome.registerAll safeName s.owner (turns.flatMap fun turn => scanned turn.directory) := by
  induction turns generalizing s with
  | nil => rfl
  | cons turn turns ih =>
    rw [runNodes] at h ⊢
    split at h
    case h_1 => cases h
    case h_2 scan hcall =>
      rw [List.flatMap_cons, FirstCome.registerAll_append, ← persist_owner hcall]
      exact ih h

theorem mem_scanned_iff {d : Directory} :
    f ∈ scanned d ↔ f ∈ ((d.entries.getD []).map Entry.file).filter fun f => 0 < f.sizeBytes := by
  rw [scanned, pendingFiles, List.mem_filter, List.mem_filter, List.mem_map, List.mem_map]
  simp only [List.mem_insertionSort]

theorem mem_outputFiles_iff : f ∈ outputFiles turns ↔ f ∈ turns.flatMap fun turn => scanned turn.directory := by
  rw [outputFiles, List.mem_flatMap, List.mem_flatMap]
  exact exists_congr fun turn => and_congr_right fun _ => mem_scanned_iff.symm

/-- No two files share a name, and an artifact that had one before is of the very file. -/
structure Apart (s : Store) (files : List OutputFile) : Prop where
  names : ∀ f ∈ files, ∀ g ∈ files, safeName f = safeName g → f = g
  before : ∀ f ∈ files, ∀ a ∈ s.artifacts, a.name = safeName f → s.held a = some f

/-- **No file is lost.** Whatever is stored before and whatever the nodes leave: once all calls have returned, each
non-empty file has an artifact of its own exactly if no two of them share a name and no other artifact had one. -/
theorem stored_iff (s : Store) (turns : List NodeTurn) (h : (runNodes s turns).2 = none) :
    (∀ f ∈ outputFiles turns, (runNodes s turns).1.Stored f) ↔ Apart s (outputFiles turns) := by
  have hstored : (∀ f ∈ outputFiles turns, (runNodes s turns).1.Stored f) ↔
      ∀ f ∈ turns.flatMap fun turn => scanned turn.directory,
        FirstCome.Has safeName (FirstCome.registerAll safeName s.owner
          (turns.flatMap fun turn => scanned turn.directory)) f := by
    simp only [mem_outputFiles_iff, Store.stored_iff_has, runNodes_owner h]
  have hbefore : ∀ f, (∀ o, s.owner (safeName f) = some o → o = some f) ↔
      ∀ a ∈ s.artifacts, a.name = safeName f → s.held a = some f := by
    intro f
    simp only [Store.owner_eq_some_iff]
    exact ⟨fun h a ha hn => h _ ⟨a, ha, hn, rfl⟩, fun h o ⟨a, ha, hn, ho⟩ => ho ▸ h a ha hn⟩
  rw [hstored, FirstCome.has_iff]
  simp only [← mem_outputFiles_iff, hbefore]
  exact ⟨fun ⟨hnames, h⟩ => ⟨hnames, h⟩, fun ⟨hnames, h⟩ => ⟨hnames, h⟩⟩

/-- A store without artifacts. -/
def Store.empty : Store := ⟨fun _ => none, [], [], 0, List.nodup_nil, fun _ h => (by cases h)⟩

/-- A node that leaves a file `script.txt` in each of two directories. -/
def twoScripts : NodeTurn where
  env := ⟨true, fun _ => some "text/plain", none, fun _ => none, none⟩
  directory := ⟨["w"], ["w", "workflow_outputs", "run"], some
    [⟨["draft", "script.txt"], ⟨0, ["w", "workflow_outputs", "run", "draft", "script.txt"], 5⟩⟩,
      ⟨["final", "script.txt"], ⟨1, ["w", "workflow_outputs", "run", "final", "script.txt"], 8⟩⟩]⟩

instance (s : Store) (f : OutputFile) : Decidable (s.Stored f) :=
  inferInstanceAs (Decidable (∃ a ∈ s.artifacts, a.name = safeName f ∧ s.held a = some f))

theorem stored_iff_twoScripts : (∀ f ∈ outputFiles [twoScripts], (runNodes Store.empty [twoScripts]).1.Stored f) ↔
    Apart Store.empty (outputFiles [twoScripts]) :=
  stored_iff Store.empty [twoScripts] (by decide)

/-- The call returns, and one of the files is not stored. -/
theorem stored_passedOver : (runNodes Store.empty [twoScripts]).2 = none ∧
    ¬ ∀ f ∈ outputFiles [twoScripts], (runNodes Store.empty [twoScripts]).1.Stored f := by
  decide

end Runs

end NexusStudio.ArtifactPersist
