import NexusStudio.Skills.Tree

/-!
# Moving and removing entries of a skill tree

`move_path` and `remove_path` on the rows of one scope, with the paths as the texts that the table stores.

* (texts) A row is below a path when its text begins with the path and a slash; a row that moves gets the new path
  and the rest of its text.
* (parts) On stored paths this is a move of parts: `graft` (`below_iff`, `parts_newPath`).
* (result) An accepted move re-roots exactly the subtree; the result is a tree of accepted paths exactly when no moved
  entry gets deeper than the limit (`operations_iff`). Only the two paths of the request are checked against it.
-/

namespace NexusStudio.SkillEntries

open Skills PathTrees
open Files (parts)

/-! ### Paths -/

/-- `normalize_skill_path`, with the text that it returns. -/
def normalizePath (path : String) : Except SkillFailure String := (normalizeSkillPath path).map SkillPath.text

/-- `path.rsplit("/", 1)[0]`, where there is a slash. -/
def parentOf (path : String) : Option String :=
  if '/' ∈ path.toList then some (String.ofList ((path.toList.reverse.dropWhile (· ≠ '/')).drop 1).reverse) else none

/-- `parent_path`. -/
def parentPath (path : String) : Except SkillFailure (Option String) := (normalizePath path).map parentOf

/-- `path.startswith(f"{prefix}/")`. -/
def below (p path : String) : Bool := (p ++ "/").toList.isPrefixOf path.toList

/-- `is_prefix_path`. -/
def isPrefixPath (p path : String) : Except SkillFailure Bool :=
  match normalizePath p, normalizePath path with
  | .error e, _ => .error e
  | _, .error e => .error e
  | .ok p, .ok path => .ok (path = p || below p path)

/-- `f"{to_path}{row.path[len(from_path):]}"`. -/
def newPath (source target path : String) : String := target ++ String.ofList (path.toList.drop source.length)

/-! ### Entries -/

/-- A row of `user_skill_entries` in the scope. -/
structure Entry where
  id : Nat
  path : String
  isDir : Bool
  content : Option String
  name : Option String
  description : Option String
  enabled : Bool
  revision : Int
  deriving DecidableEq

abbrev Entries := List Entry

namespace Entries

def getByPath (es : Entries) (path : String) : Option Entry := es.find? fun e => e.path = path

def getById (es : Entries) (id : Nat) : Option Entry := es.find? fun e => e.id = id

/-- `_raise_revision_conflict`. -/
def conflict {β : Type} (id : Nat) (path : String) : Except SkillFailure β :=
  .error (.revisionConflict id (some ⟨parts path, parts_ne_nil path⟩))

/-- An update of the selected rows: how many there are, and the table, where its paths are still distinct. -/
def update (es : Entries) (sel : Entry → Bool) (f : Entry → Entry) : Except SkillFailure (Nat × Entries) :=
  let es' := es.map fun e => if sel e then f e else e
  if (es'.map Entry.path).Nodup then .ok (es.countP sel, es') else .error .integrityError

/-- The loop over the descendants. -/
def moveDescendants (source target : String) : Entries → Entries → Except SkillFailure Entries
  | es, [] => .ok es
  | es, row :: todo =>
    match es.update (fun e => e.id = row.id) (fun e => { e with path := newPath source target row.path }) with
    | .error e => .error e
    | .ok (n, es) => if n ≠ 1 then conflict row.id row.path else moveDescendants source target es todo

/-- The transaction of `move`. -/
def move (es : Entries) (source target : String) (revision : Int) : Except SkillFailure Entries :=
  match es.getByPath source with
  | none => .error (.app .resourceNotFound "user skill entry not found")
  | some row =>
    match es.update (fun e => e.id = row.id ∧ e.revision = revision)
        (fun e => { e with path := target, revision := revision + 1 }) with
    | .error e => .error e
    | .ok (n, es) =>
      if n ≠ 1 then conflict row.id source
      else
        match moveDescendants source target es (es.filter fun e => below source e.path) with
        | .error e => .error e
        | .ok es =>
          if (es.getByPath target).isNone then .error (.app .internalError "user skill move failed") else .ok es

/-- The transaction of `delete_entry_cas`. -/
def deleteEntry (es : Entries) (id : Nat) (revision : Int) (path : String) : Except SkillFailure Entries :=
  if es.countP (fun e => e.id = id ∧ e.revision = revision) ≠ 1 then
    conflict id (((es.getById id).map Entry.path).getD path)
  else .ok ((es.filter fun e => ¬ (e.id = id ∧ e.revision = revision)).filter fun e => !below path e.path)

/-- `move_path`. -/
def movePath (es : Entries) (fromPath toPath : String) (revision : Int) : Except SkillFailure Entries :=
  match normalizePath fromPath, normalizePath toPath with
  | .error e, _ => .error e
  | _, .error e => .error e
  | .ok source, .ok target =>
    if source = target then invalid "source and destination paths are identical"
    else
      match isPrefixPath source target with
      | .error e => .error e
      | .ok true => invalid "cannot move directory into its descendant"
      | .ok false =>
        if (es.getByPath source).isNone then .error (.app .resourceNotFound "user skill entry not found")
        else if (es.getByPath target).isSome then invalid "destination path already exists"
        else
          match parentPath target with
          | .error e => .error e
          | .ok parent =>
            if parent.any fun p => !(es.getByPath p).any Entry.isDir then
              invalid "destination parent directory not found"
            else es.move source target revision

/-- `remove_path`. -/
def removePath (es : Entries) (path : String) (revision : Int) : Except SkillFailure Entries :=
  match normalizePath path with
  | .error e => .error e
  | .ok p =>
    match es.getByPath p with
    | none => .error (.app .resourceNotFound "user skill entry not found")
    | some row => es.deleteEntry row.id revision p

end Entries

/-! ### The law -/

/-- A skill tree: the two keys, paths that are accepted as they are stored, and a directory above each entry. -/
structure Tree (es : Entries) : Prop where
  ids : (es.map Entry.id).Nodup
  paths : (es.map Entry.path).Nodup
  accepted : ∀ e ∈ es, normalizePath e.path = .ok e.path
  parents : ∀ e ∈ es, ∀ p ∈ parentOf e.path, ∃ d ∈ es, d.path = p ∧ d.isDir = true

instance (es : Entries) : Decidable (Tree es) :=
  decidable_of_iff ((es.map Entry.id).Nodup ∧ (es.map Entry.path).Nodup ∧
      (∀ e ∈ es, normalizePath e.path = .ok e.path) ∧
      ∀ e ∈ es, ∀ p ∈ parentOf e.path, ∃ d ∈ es, d.path = p ∧ d.isDir = true)
    ⟨fun h => ⟨h.1, h.2.1, h.2.2.1, h.2.2.2⟩, fun h => ⟨h.ids, h.paths, h.accepted, h.parents⟩⟩

/-- The entry after its tree has been re-rooted: what is at or below `source` is at or below `target`. The entry at
`source` gets a new revision. -/
def Entry.rerooted (source target : String) (e : Entry) : Entry :=
  { e with
    path := "/".intercalate (graft (parts source) (parts target) (parts e.path))
    revision := if e.path = source then e.revision + 1 else e.revision }

/-- The entries are those of the tree with exactly the subtree of `source` re-rooted, and are a tree. -/
structure Moved (es : Entries) (source target : String) (es' : Entries) : Prop where
  rerooted : es' = es.map (Entry.rerooted source target)
  tree : Tree es'

/-- No entry at or below `source` gets deeper than the limit. -/
def Shallow (es : Entries) (source target : String) : Prop :=
  ∀ e ∈ es, parts source <+: parts e.path →
    (parts target).length + ((parts e.path).length - (parts source).length) ≤ MAX_PATH_DEPTH

instance (es : Entries) (source target : String) : Decidable (Shallow es source target) :=
  inferInstanceAs (Decidable (∀ e ∈ es, _))

/-! ### Texts and parts -/

theorem text_parts (path : String) : "/".intercalate (parts path) = path := by
  apply String.toList_inj.1
  rw [String.toList_intercalate, parts, List.map_map]
  have hid : String.toList ∘ String.ofList = id := funext fun l => String.toList_ofList
  rw [hid, List.map_id]
  exact List.intercalate_splitOn '/'

theorem parts_inj {p q : String} (h : parts p = parts q) : p = q := by
  rw [← text_parts p, h, text_parts]

theorem slash_not_mem_parts (path : String) : ∀ part ∈ parts path, '/' ∉ part.toList := by
  intro part hpart
  obtain ⟨l, hl, rfl⟩ := List.mem_map.1 hpart
  rw [String.toList_ofList]
  exact Files.not_mem_of_mem_splitOn _ l hl

theorem parts_intercalate {l : List String} (hne : l ≠ []) (hl : ∀ part ∈ l, '/' ∉ part.toList) :
    parts ("/".intercalate l) = l := by
  have hslash : ∀ x ∈ l.map String.toList, '/' ∉ x := by
    intro x hx
    obtain ⟨part, hpart, rfl⟩ := List.mem_map.1 hx
    exact hl part hpart
  rw [parts, String.toList_intercalate]
  change ((['/'].intercalate (l.map String.toList)).splitOn '/').map String.ofList = l
  rw [List.splitOn_intercalate '/' hslash (by simpa using hne), List.map_map]
  simp [Function.comp_def]

theorem parts_slash (p q : String) : parts (p ++ "/" ++ q) = parts p ++ parts q := by
  have hl : (p ++ "/" ++ q).toList = p.toList ++ '/' :: q.toList := by simp
  rw [parts, hl, List.splitOn_append_cons_self, List.map_append]
  rfl

/-- What begins with a path and a slash goes on after it. -/
theorem below_eq_true {p path : String} : below p path = true ↔ ∃ rest, path = p ++ "/" ++ rest := by
  rw [below, List.isPrefixOf_iff_prefix]
  constructor
  · rintro ⟨r, hr⟩
    refine ⟨String.ofList r, String.toList_inj.1 ?_⟩
    rw [← hr, String.toList_append (t := String.ofList r), String.toList_ofList]
  · rintro ⟨rest, rfl⟩
    rw [String.toList_append (t := rest)]
    exact List.prefix_append _ _

theorem below_iff {p path : String} : below p path = true ↔ Below (parts p) (parts path) := by
  have h := SkillPath.startsWith_iff (p := ⟨parts p, parts_ne_nil p⟩) (q := ⟨parts path, parts_ne_nil path⟩)
    (slash_not_mem_parts p) (slash_not_mem_parts path)
  simp only [SkillPath.text, text_parts] at h
  rw [below, List.isPrefixOf_iff_prefix, h]

theorem newPath_slash (source target rest : String) :
    newPath source target (source ++ "/" ++ rest) = target ++ "/" ++ rest := by
  apply String.toList_inj.1
  have hdrop : (source ++ "/" ++ rest).toList.drop source.length = '/' :: rest.toList := by
    rw [← String.length_toList]
    simp
  rw [newPath, String.toList_append, String.toList_ofList, hdrop]
  simp

theorem parts_of_not_mem {a : String} (ha : '/' ∉ a.toList) : parts a = [a] := by
  rw [parts, List.splitOn_eq_singleton ha, List.map_singleton, String.ofList_toList]

theorem parentOf_slash (p : String) {a : String} (ha : '/' ∉ a.toList) : parentOf (p ++ "/" ++ a) = some p := by
  have hl : (p ++ "/" ++ a).toList = p.toList ++ '/' :: a.toList := by simp
  have hdrop : (p.toList ++ '/' :: a.toList).reverse.dropWhile (· ≠ '/') = '/' :: p.toList.reverse := by
    rw [List.reverse_append, List.reverse_cons, List.append_assoc, List.dropWhile_append_of_pos]
    · rfl
    · intro c hc
      refine decide_eq_true fun heq => ha ?_
      exact heq ▸ List.mem_reverse.1 hc
  rw [parentOf, hl, if_pos (List.mem_append_right _ List.mem_cons_self), hdrop]
  simp

theorem parentOf_eq_some {path p : String} : parentOf path = some p ↔ ∃ a, parts path = parts p ++ [a] := by
  have hslash : ∀ q a, parts path = parts q ++ [a] → '/' ∉ a.toList ∧ path = q ++ "/" ++ a := by
    intro q a h
    have ha : '/' ∉ a.toList := by
      refine slash_not_mem_parts path a ?_
      rw [h]
      exact List.mem_append_right _ List.mem_cons_self
    refine ⟨ha, parts_inj ?_⟩
    rw [h, parts_slash, parts_of_not_mem ha]
  constructor
  · intro h
    obtain hnil | ⟨l, a, hla⟩ := List.eq_nil_or_concat (parts path)
    · exact absurd hnil (parts_ne_nil path)
    · rw [List.concat_eq_append] at hla
      have hmem : ∀ part ∈ l ++ [a], '/' ∉ part.toList := by
        intro part hpart
        exact slash_not_mem_parts path part (hla ▸ hpart)
      have hlne : l ≠ [] := by
        rintro rfl
        -- one part only: the path is that part
        have hpath : path = a := by
          rw [← text_parts path, hla]
          simp
        rw [parentOf, if_neg (hpath ▸ hmem a (by simp))] at h
        cases h
      have hparts : parts ("/".intercalate l) = l :=
        parts_intercalate hlne fun part hpart => hmem part (List.mem_append_left _ hpart)
      obtain ⟨ha, hpath⟩ := hslash ("/".intercalate l) a (by rw [hparts, hla])
      rw [hpath, parentOf_slash _ ha] at h
      cases h
      exact ⟨a, by rw [hparts, hla]⟩
  · rintro ⟨a, h⟩
    obtain ⟨ha, rfl⟩ := hslash p a h
    exact parentOf_slash p ha

/-! ### Stored paths -/

/-- A part of an accepted path. -/
def Segment (part : String) : Prop := part ≠ "" ∧ part ≠ "." ∧ part ≠ ".." ∧ part.length ≤ MAX_SEGMENT_LEN

theorem of_not_invalid {β : Type} {c : Prop} [Decidable c] {message : String} {x : Except SkillFailure β} {b : β}
    (h : (if c then invalid message else x) = .ok b) : ¬ c ∧ x = .ok b := by
  refine ⟨fun hc => ?_, of_check h⟩
  rw [if_pos hc] at h
  cases h

theorem normalize_ok {path : String} {p : SkillPath} (h : normalizeSkillPath path = .ok p) :
    p.segments = parts (strip path) ∧ (∀ part ∈ parts (strip path), Segment part) ∧
      (parts (strip path)).length ≤ MAX_PATH_DEPTH := by
  unfold normalizeSkillPath at h
  dsimp only at h
  iterate 3 replace h := of_check h
  obtain ⟨hempty, h⟩ := of_not_invalid h
  obtain ⟨hdots, h⟩ := of_not_invalid h
  obtain ⟨hdepth, h⟩ := of_not_invalid h
  obtain ⟨hlen, h⟩ := of_not_invalid h
  have hp := Except.ok.inj h
  have hsegments : p.segments = parts (strip path) := by rw [← hp]
  refine ⟨hsegments, fun part hpart => ⟨?_, ?_, ?_, ?_⟩, Nat.le_of_not_gt hdepth⟩
  · rintro rfl
    exact hempty hpart
  · rintro rfl
    exact hdots (.inr hpart)
  · rintro rfl
    exact hdots (.inl hpart)
  · refine Nat.le_of_not_gt fun hlt => hlen ?_
    exact List.any_eq_true.2 ⟨part, hpart, decide_eq_true hlt⟩

theorem normalize_of_parts {path : String} (hseg : ∀ part ∈ parts (strip path), Segment part)
    (hdepth : (parts (strip path)).length ≤ MAX_PATH_DEPTH) :
    normalizeSkillPath path = .ok ⟨parts (strip path), parts_ne_nil (strip path)⟩ := by
  have hempty : "" ∉ parts (strip path) := fun h => (hseg _ h).1 rfl
  have hcut : ∀ p q : String, strip path = p ++ "/" ++ q → p ≠ "" ∧ q ≠ "" := by
    intro p q h
    rw [h, parts_slash] at hempty
    constructor
    · rintro rfl
      exact hempty (List.mem_append_left _ (by decide))
    · rintro rfl
      exact hempty (List.mem_append_right _ (by decide))
  have hne : strip path ≠ "" := by
    intro h
    rw [h] at hempty
    exact hempty (by decide)
  have hhead : (strip path).toList.head? ≠ some '/' := by
    intro h
    obtain ⟨l, hl⟩ := List.head?_eq_some_iff.1 h
    exact (hcut "" (String.ofList l) (String.toList_inj.1 (by simp [hl]))).1 rfl
  have hlast : (strip path).toList.getLast? ≠ some '/' := by
    intro h
    obtain ⟨l, hl⟩ := List.getLast?_eq_some_iff.1 h
    exact (hcut (String.ofList l) "" (String.toList_inj.1 (by simp [hl]))).2 rfl
  have hdots : ¬ (".." ∈ parts (strip path) ∨ "." ∈ parts (strip path)) := by
    rintro (h | h)
    · exact (hseg _ h).2.2.1 rfl
    · exact (hseg _ h).2.1 rfl
  have hlen : ¬ (parts (strip path)).any (fun segment => segment.length > MAX_SEGMENT_LEN) = true := by
    intro h
    obtain ⟨part, hpart, hlt⟩ := List.any_eq_true.1 h
    exact absurd (of_decide_eq_true hlt) (not_lt.2 (hseg part hpart).2.2.2)
  unfold normalizeSkillPath
  rw [if_neg hne, if_neg hhead, if_neg hlast, if_neg hempty, if_neg hdots, if_neg (not_lt.2 hdepth), if_neg hlen]

theorem normalizePath_of_parts {path : String} (hseg : ∀ part ∈ parts (strip path), Segment part)
    (hdepth : (parts (strip path)).length ≤ MAX_PATH_DEPTH) : normalizePath path = .ok (strip path) := by
  rw [normalizePath, normalize_of_parts hseg hdepth, Except.map, SkillPath.text, text_parts]

theorem normalizePath_ok {path raw : String} (h : normalizePath path = .ok raw) :
    raw = strip path ∧ normalizePath raw = .ok raw := by
  have hraw : ∀ q r, normalizePath q = .ok r → r = strip q := by
    intro q r hq
    obtain ⟨p, hp, rfl⟩ := map_eq_ok hq
    rw [SkillPath.text, (normalize_ok hp).1, text_parts]
  obtain rfl := hraw path raw h
  refine ⟨rfl, ?_⟩
  obtain ⟨p, hp, -⟩ := map_eq_ok h
  obtain ⟨-, hseg, hdepth⟩ := normalize_ok hp
  rw [← strip_strip path] at hseg hdepth
  rw [normalizePath_of_parts hseg hdepth, strip_strip]

theorem normalizePath_self_iff {path : String} :
    normalizePath path = .ok path ↔
      strip path = path ∧ (∀ part ∈ parts path, Segment part) ∧ (parts path).length ≤ MAX_PATH_DEPTH := by
  constructor
  · intro h
    have hstrip : strip path = path := (normalizePath_ok h).1.symm
    obtain ⟨p, hp, -⟩ := map_eq_ok h
    have hparts := (normalize_ok hp).2
    rw [hstrip] at hparts
    exact ⟨hstrip, hparts⟩
  · rintro ⟨hstrip, hseg, hdepth⟩
    rw [← hstrip] at hseg hdepth
    rw [normalizePath_of_parts hseg hdepth, hstrip]

theorem stored_ne_nil {path : String} (h : ∀ part ∈ parts path, Segment part) : path.toList ≠ [] := by
  intro hnil
  obtain rfl : path = "" := String.toList_inj.1 hnil
  exact (h "" (by decide)).1 rfl

/-- A stored path begins like `p` and ends like the other stored path. -/
theorem strip_slash {p q rest : String} (hp : normalizePath p = .ok p)
    (hq : normalizePath (q ++ "/" ++ rest) = .ok (q ++ "/" ++ rest)) : strip (p ++ "/" ++ rest) = p ++ "/" ++ rest := by
  obtain ⟨hpstrip, hpseg, -⟩ := normalizePath_self_iff.1 hp
  obtain ⟨hqstrip, hqseg, -⟩ := normalizePath_self_iff.1 hq
  rw [parts_slash] at hqseg
  have hpne : p.toList ≠ [] := stored_ne_nil hpseg
  have hrne : rest.toList ≠ [] := stored_ne_nil fun part hpart => hqseg part (List.mem_append_right _ hpart)
  refine strip_eq_self (fun c hc => ?_) fun c hc => ?_
  · refine head?_strip p c ?_
    rw [String.toList_append, String.toList_append, List.append_assoc, List.head?_append_of_ne_nil _ hpne] at hc
    rwa [hpstrip]
  · refine getLast?_strip (q ++ "/" ++ rest) c ?_
    rw [hqstrip]
    simpa [List.getLast?_append, List.getLast?_eq_some_getLast, hrne] using hc

/-- With another stored path in the place of its front, only the depth of a stored path can be refused. -/
theorem stored_slash {p q rest : String} (hp : normalizePath p = .ok p)
    (hq : normalizePath (q ++ "/" ++ rest) = .ok (q ++ "/" ++ rest)) :
    normalizePath (p ++ "/" ++ rest) = .ok (p ++ "/" ++ rest) ↔
      (parts p).length + (parts rest).length ≤ MAX_PATH_DEPTH := by
  have hpseg := (normalizePath_self_iff.1 hp).2.1
  have hqseg := (normalizePath_self_iff.1 hq).2.1
  rw [parts_slash] at hqseg
  rw [normalizePath_self_iff, parts_slash, List.length_append]
  constructor
  · exact fun h => h.2.2
  · intro hdepth
    refine ⟨strip_slash hp hq, fun part hpart => ?_, hdepth⟩
    rcases List.mem_append.1 hpart with hpart | hpart
    · exact hpseg part hpart
    · exact hqseg part (List.mem_append_right _ hpart)

/-! ### Moves -/

section Moves

variable {es es' : Entries} {source target : String} {revision : Int}

theorem rerooted_of_below {e : Entry} {rest : String} (he : e.path = source ++ "/" ++ rest) :
    e.rerooted source target = { e with path := target ++ "/" ++ rest } := by
  have hpath : "/".intercalate (graft (parts source) (parts target) (parts e.path)) = target ++ "/" ++ rest := by
    rw [he, parts_slash, graft_append, ← parts_slash, text_parts]
  have hne : e.path ≠ source := by
    intro heq
    have hlen := congrArg String.length (heq.symm.trans he)
    simp only [String.length_append] at hlen
    have hone : "/".length = 1 := rfl
    omega
  rw [Entry.rerooted, hpath, if_neg hne]

theorem rerooted_of_source {e : Entry} (he : e.path = source) :
    e.rerooted source target = { e with path := target, revision := e.revision + 1 } := by
  rw [Entry.rerooted, he, graft_self, text_parts, if_pos rfl]

theorem rerooted_of_not {e : Entry} (hbelow : below source e.path = false) (hne : e.path ≠ source) :
    e.rerooted source target = e := by
  have hnot : ¬ parts source <+: parts e.path := by
    intro h
    refine Bool.false_ne_true (hbelow.symm.trans (below_iff.2 ⟨h, fun heq => hne ?_⟩))
    exact (parts_inj heq).symm
  rw [Entry.rerooted, graft_of_not hnot, text_parts, if_neg hne]

theorem update_ok {sel : Entry → Bool} {f : Entry → Entry} {n : Nat} (h : es.update sel f = .ok (n, es')) :
    n = es.countP sel ∧ es' = (es.map fun e => if sel e then f e else e) ∧ (es'.map Entry.path).Nodup := by
  unfold Entries.update at h
  dsimp only at h
  split at h
  · next hnodup =>
    cases h
    exact ⟨rfl, rfl, hnodup⟩
  · cases h

/-- An update that selects one row. -/
theorem update_one {sel : Entry → Bool} {f : Entry → Entry} {n : Nat} (row : Entry)
    (hsel : ∀ e ∈ es, sel e = true ↔ e = row) (hid : (f row).id = row.id) (h : es.update sel f = .ok (n, es')) :
    es' = (es.map fun e => if e = row then f row else e) ∧ es'.map Entry.id = es.map Entry.id ∧
      (es'.map Entry.path).Nodup := by
  obtain ⟨-, hes', hpaths⟩ := update_ok h
  have hmap : es' = es.map fun e => if e = row then f row else e := by
    rw [hes']
    refine List.map_congr_left fun e he => ?_
    by_cases her : e = row
    · rw [if_pos ((hsel e he).2 her), if_pos her, her]
    · rw [if_neg fun hs => her ((hsel e he).1 hs), if_neg her]
  refine ⟨hmap, ?_, hpaths⟩
  rw [hmap, List.map_map]
  refine List.map_congr_left fun e _ => ?_
  rw [Function.comp_apply]
  split
  · next her => rw [hid, her]
  · rfl

theorem eq_of_id (hids : (es.map Entry.id).Nodup) {e d : Entry} (he : e ∈ es) (hd : d ∈ es) (heq : e.id = d.id) :
    e = d :=
  List.inj_on_of_nodup_map hids he hd heq

theorem eq_of_path (hpaths : (es.map Entry.path).Nodup) {e d : Entry} (he : e ∈ es) (hd : d ∈ es)
    (heq : e.path = d.path) : e = d :=
  List.inj_on_of_nodup_map hpaths he hd heq

/-- A statement that selects a row by its key and a revision has hit one. -/
theorem revision_of_count (ht : Tree es) {row : Entry} (hrow : row ∈ es)
    (hcount : es.countP (fun e => decide (e.id = row.id ∧ e.revision = revision)) = 1) : row.revision = revision := by
  have hpos : 0 < es.countP fun e => decide (e.id = row.id ∧ e.revision = revision) := by
    rw [hcount]
    exact Nat.one_pos
  obtain ⟨e, he, hsel⟩ := List.countP_pos_iff.1 hpos
  obtain ⟨hid, hrev⟩ := of_decide_eq_true hsel
  rw [← eq_of_id ht.ids he hrow hid, hrev]

theorem moveDescendants_ok {todo : Entries} (hids : (es.map Entry.id).Nodup) (hpaths : (es.map Entry.path).Nodup)
    (htodo : ∀ e ∈ todo, e ∈ es) (hnodup : todo.Nodup)
    (hok : Entries.moveDescendants source target es todo = .ok es') :
    (es'.map Entry.path).Nodup ∧
      es' = es.map fun e => if e ∈ todo then { e with path := newPath source target e.path } else e := by
  induction todo generalizing es with
  | nil =>
    cases hok
    exact ⟨hpaths, by simp⟩
  | cons row todo ih =>
    unfold Entries.moveDescendants at hok
    split at hok
    · cases hok
    · next n es₁ hupdate =>
      split at hok
      · cases hok
      · have hrow : row ∈ es := htodo row List.mem_cons_self
        obtain ⟨hsel, hsame, hpaths₁⟩ := update_one row (fun e he => by
          rw [decide_eq_true_eq]
          exact ⟨eq_of_id hids he hrow, fun h => h ▸ rfl⟩) rfl hupdate
        have hids₁ : (es₁.map Entry.id).Nodup := hsame ▸ hids
        have hkept : ∀ e ∈ todo, e ≠ row ∧ e ∈ es₁ := by
          intro e he
          have hne : e ≠ row := fun heq => (List.nodup_cons.1 hnodup).1 (heq ▸ he)
          rw [hsel]
          exact ⟨hne, List.mem_map.2 ⟨e, htodo e (List.mem_cons_of_mem row he), if_neg hne⟩⟩
        obtain ⟨hpaths', hes'⟩ := ih hids₁ hpaths₁ (fun e he => (hkept e he).2) (List.nodup_cons.1 hnodup).2 hok
        refine ⟨hpaths', ?_⟩
        rw [hes', hsel, List.map_map]
        refine List.map_congr_left fun e he => ?_
        rw [Function.comp_apply]
        by_cases her : e = row
        · subst her
          have hnew : ({ e with path := newPath source target e.path } : Entry) ∉ todo := by
            intro hmem
            obtain ⟨hne, -⟩ := hkept _ hmem
            exact hne (eq_of_id hids (htodo _ (List.mem_cons_of_mem e hmem)) hrow rfl)
          rw [if_pos rfl, if_neg hnew, if_pos List.mem_cons_self]
        · rw [if_neg her]
          simp [her]

theorem getByPath_eq_some {path : String} {e : Entry} (h : es.getByPath path = some e) : e ∈ es ∧ e.path = path := by
  rw [Entries.getByPath] at h
  have hpath := List.find?_some h
  exact ⟨List.mem_of_find?_eq_some h, of_decide_eq_true hpath⟩

/-- The row and then its descendants, moved in the table, are its subtree re-rooted. -/
theorem map_moved (ht : Tree es) {row : Entry} (hrow : row ∈ es) (hpath : row.path = source)
    (happart : below source target = false) {es₁ : Entries}
    (hmap : es₁ = es.map fun e => if e = row then { row with path := target, revision := row.revision + 1 } else e) :
    (es₁.map fun e => if e ∈ es₁.filter (fun d => below source d.path) then
      { e with path := newPath source target e.path } else e) = es.map (Entry.rerooted source target) := by
  rw [hmap, List.map_map]
  refine List.map_congr_left fun d hd => ?_
  rw [Function.comp_apply]
  by_cases hdr : d = row
  · subst hdr
    rw [if_pos rfl, rerooted_of_source hpath]
    refine if_neg fun hmem => Bool.false_ne_true ?_
    exact happart.symm.trans (List.mem_filter.1 hmem).2
  · rw [if_neg hdr]
    have hne : d.path ≠ source := fun h => hdr (eq_of_path ht.paths hd hrow (h.trans hpath.symm))
    cases hbelow : below source d.path with
    | true =>
      obtain ⟨rest, hrest⟩ := below_eq_true.1 hbelow
      have hmem : d ∈ (es.map fun x => if x = row then
          { row with path := target, revision := row.revision + 1 } else x).filter fun x => below source x.path :=
        List.mem_filter.2 ⟨List.mem_map.2 ⟨d, hd, if_neg hdr⟩, hbelow⟩
      rw [if_pos hmem, rerooted_of_below hrest, hrest, newPath_slash]
    | false =>
      rw [rerooted_of_not hbelow hne]
      refine if_neg fun hmem => Bool.false_ne_true ?_
      exact hbelow.symm.trans (List.mem_filter.1 hmem).2

/-- The transaction of a move that is not into its own subtree re-roots the subtree. -/
theorem move_ok (ht : Tree es) (happart : below source target = false)
    (hok : es.move source target revision = .ok es') :
    (es'.map Entry.path).Nodup ∧ (∃ d ∈ es, d.path = source) ∧ es' = es.map (Entry.rerooted source target) := by
  unfold Entries.move at hok
  split at hok
  · cases hok
  · next row hget =>
    obtain ⟨hrow, hpath⟩ := getByPath_eq_some hget
    split at hok
    · cases hok
    · next n es₁ hupdate =>
      split at hok
      · cases hok
      · next hcount =>
        obtain rfl : row.revision = revision := by
          refine revision_of_count ht hrow ?_
          rw [← (update_ok hupdate).1, not_not.1 hcount]
        obtain ⟨hmap, hsame, hpaths₁⟩ := update_one row (fun d hd => by
          rw [decide_eq_true_eq]
          exact ⟨fun h => eq_of_id ht.ids hd hrow h.1, fun h => h ▸ ⟨rfl, rfl⟩⟩) rfl hupdate
        have hids₁ : (es₁.map Entry.id).Nodup := hsame ▸ ht.ids
        split at hok
        · cases hok
        · next es₂ hloop =>
          split at hok
          · cases hok
          · cases hok
            obtain ⟨hpaths₂, hes₂⟩ := moveDescendants_ok hids₁ hpaths₁ (fun d hd => (List.mem_filter.1 hd).1)
              ((List.Nodup.of_map _ hids₁).filter _) hloop
            exact ⟨hpaths₂, ⟨row, hrow, hpath⟩, hes₂.trans (map_moved ht hrow hpath happart hmap)⟩

/-! ### Trees -/

/-- The paths of the entries, by their parts. -/
def entryPaths (es : Entries) : Set (List String) := {p | ∃ e ∈ es, parts e.path = p}

def dirPaths (es : Entries) : Set (List String) := {p | ∃ d ∈ es, d.isDir = true ∧ parts d.path = p}

theorem rooted_iff :
    Rooted (entryPaths es) (dirPaths es) ↔
      ∀ e ∈ es, ∀ p ∈ parentOf e.path, ∃ d ∈ es, d.path = p ∧ d.isDir = true := by
  constructor
  · intro h e he p hp
    obtain ⟨a, ha⟩ := parentOf_eq_some.1 hp
    obtain ⟨d, hd, hdir, heq⟩ := h (parts p) a (parts_ne_nil p) ⟨e, he, ha⟩
    exact ⟨d, hd, parts_inj heq, hdir⟩
  · rintro h p a hp ⟨e, he, heq⟩
    have hparts : parts ("/".intercalate p) = p := by
      refine parts_intercalate hp fun part hpart => slash_not_mem_parts e.path part ?_
      rw [heq]
      exact List.mem_append_left _ hpart
    obtain ⟨d, hd, hpath, hdir⟩ := h e he ("/".intercalate p) (parentOf_eq_some.2 ⟨a, by rw [hparts, heq]⟩)
    exact ⟨d, hd, hdir, by rw [hpath, hparts]⟩

theorem parts_rerooted (e : Entry) :
    parts (e.rerooted source target).path = graft (parts source) (parts target) (parts e.path) := by
  refine parts_intercalate ?_ fun part hpart => ?_
  · unfold graft
    split
    · exact List.append_ne_nil_of_left_ne_nil (parts_ne_nil target) _
    · exact parts_ne_nil e.path
  · unfold graft at hpart
    split at hpart
    · rcases List.mem_append.1 hpart with hpart | hpart
      · exact slash_not_mem_parts target part hpart
      · exact slash_not_mem_parts e.path part (List.mem_of_mem_drop hpart)
    · exact slash_not_mem_parts e.path part hpart

theorem rerooted_accepted_iff (ht : Tree es) (htarget : normalizePath target = .ok target) {e : Entry} (he : e ∈ es) :
    normalizePath (e.rerooted source target).path = .ok (e.rerooted source target).path ↔
      (parts source <+: parts e.path →
        (parts target).length + ((parts e.path).length - (parts source).length) ≤ MAX_PATH_DEPTH) := by
  have hstored := ht.accepted e he
  by_cases hsource : e.path = source
  · -- the entry itself: the target was checked
    rw [rerooted_of_source hsource, hsource, Nat.sub_self, Nat.add_zero]
    exact iff_of_true htarget fun _ => (normalizePath_self_iff.1 htarget).2.2
  · cases hbelow : below source e.path with
    | true =>
      obtain ⟨rest, hrest⟩ := below_eq_true.1 hbelow
      rw [hrest] at hstored
      rw [rerooted_of_below hrest, stored_slash htarget hstored, hrest, parts_slash, List.length_append,
        Nat.add_sub_cancel_left]
      exact ⟨fun h _ => h, fun h => h (List.prefix_append _ _)⟩
    | false =>
      rw [rerooted_of_not hbelow hsource]
      refine iff_of_true hstored fun hpre => ?_
      have hb : below source e.path = true := below_iff.2 ⟨hpre, fun heq => hsource (parts_inj heq).symm⟩
      rw [hbelow] at hb
      cases hb

/-- What is re-rooted at an accepted path, in a directory, is a tree when it is not too deep. -/
theorem tree_rerooted_iff (ht : Tree es) (htarget : normalizePath target = .ok target) (hne : source ≠ target)
    (happart : below source target = false)
    (hparent : ∀ p ∈ parentOf target, ∃ d ∈ es, d.path = p ∧ d.isDir = true)
    (hpaths : ((es.map (Entry.rerooted source target)).map Entry.path).Nodup) :
    Tree (es.map (Entry.rerooted source target)) ↔ Shallow es source target := by
  have haccepted : (∀ e ∈ es.map (Entry.rerooted source target), normalizePath e.path = .ok e.path) ↔
      Shallow es source target := by
    rw [List.forall_mem_map]
    exact forall₂_congr fun e he => rerooted_accepted_iff ht htarget he
  have hnot : ¬ parts source <+: parts target := by
    intro hpre
    have hb : below source target = true := below_iff.2 ⟨hpre, fun heq => hne (parts_inj heq)⟩
    rw [happart] at hb
    cases hb
  have hentries : entryPaths (es.map (Entry.rerooted source target)) =
      graft (parts source) (parts target) '' entryPaths es := by
    ext p
    constructor
    · rintro ⟨e', he', rfl⟩
      obtain ⟨e, he, rfl⟩ := List.mem_map.1 he'
      exact ⟨_, ⟨e, he, rfl⟩, (parts_rerooted e).symm⟩
    · rintro ⟨_, ⟨e, he, rfl⟩, rfl⟩
      exact ⟨_, List.mem_map_of_mem he, parts_rerooted e⟩
  have hdirs : dirPaths (es.map (Entry.rerooted source target)) =
      graft (parts source) (parts target) '' dirPaths es := by
    ext p
    constructor
    · rintro ⟨d', hd', hdir, rfl⟩
      obtain ⟨d, hd, rfl⟩ := List.mem_map.1 hd'
      exact ⟨_, ⟨d, hd, hdir, rfl⟩, (parts_rerooted d).symm⟩
    · rintro ⟨_, ⟨d, hd, hdir, rfl⟩, rfl⟩
      exact ⟨_, List.mem_map_of_mem hd, hdir, parts_rerooted d⟩
  refine ⟨fun h => haccepted.1 h.accepted, fun h => ⟨?_, hpaths, haccepted.2 h, ?_⟩⟩
  · rw [List.map_map]
    exact ht.ids
  · rw [← rooted_iff, hentries, hdirs]
    refine rooted_graft (rooted_iff.2 ht.parents) (parts_ne_nil source) hnot fun p a hp htp => ?_
    have hslash : parts ("/".intercalate p) = p := by
      refine parts_intercalate hp fun part hpart => slash_not_mem_parts target part ?_
      rw [htp]
      exact List.mem_append_left _ hpart
    obtain ⟨d, hd, hpath, hdir⟩ := hparent ("/".intercalate p) (parentOf_eq_some.2 ⟨a, by rw [hslash, htp]⟩)
    exact ⟨d, hd, hdir, by rw [hpath, hslash]⟩

/-- Without an entry and what is below it, a tree is a tree. -/
theorem tree_removed (ht : Tree es) (path : String) :
    Tree (es.filter fun e => ¬ parts path <+: parts e.path) where
  ids := ht.ids.sublist (List.filter_sublist.map _)
  paths := ht.paths.sublist (List.filter_sublist.map _)
  accepted e he := ht.accepted e (List.mem_filter.1 he).1
  parents e he p hp := by
    obtain ⟨hmem, hstay⟩ := List.mem_filter.1 he
    obtain ⟨d, hd, rfl, hdir⟩ := ht.parents e hmem p hp
    obtain ⟨a, ha⟩ := parentOf_eq_some.1 hp
    refine ⟨d, List.mem_filter.2 ⟨hd, decide_eq_true fun hpre => of_decide_eq_true hstay ?_⟩, rfl, hdir⟩
    rw [ha]
    exact hpre.trans (List.prefix_append _ _)

/-! ### Operations -/

theorem movePath_ok {fromPath toPath : String} (hok : es.movePath fromPath toPath revision = .ok es') :
    ∃ source target, normalizePath fromPath = .ok source ∧ normalizePath toPath = .ok target ∧ source ≠ target ∧
      below source target = false ∧ (∀ p ∈ parentOf target, ∃ d ∈ es, d.path = p ∧ d.isDir = true) ∧
      es.move source target revision = .ok es' := by
  unfold Entries.movePath at hok
  split at hok
  · cases hok
  · cases hok
  · next source target hsource htarget =>
    obtain ⟨hne, hok⟩ := of_not_invalid hok
    have hs := (normalizePath_ok hsource).2
    have ht := (normalizePath_ok htarget).2
    have hinside₀ : isPrefixPath source target = .ok (target = source || below source target) := by
      rw [isPrefixPath, hs, ht]
    have hparent : parentPath target = .ok (parentOf target) := by rw [parentPath, ht]; rfl
    rw [hinside₀, hparent] at hok
    split at hok
    · cases hok
    · cases hok
    · next hinside =>
      have happart : below source target = false := (Bool.or_eq_false_iff.1 (Except.ok.inj hinside)).2
      split at hok
      · cases hok
      · obtain ⟨-, hok⟩ := of_not_invalid hok
        obtain ⟨hdir, hok⟩ := of_not_invalid hok
        refine ⟨source, target, hsource, htarget, hne, happart, fun p hp => ?_, hok⟩
        rw [Bool.not_eq_true, Option.any_eq_false] at hdir
        have hany : (es.getByPath p).any Entry.isDir = true := by simpa using hdir p hp
        obtain ⟨d, hd, hisDir⟩ := (Option.any_eq_true _ _).1 hany
        obtain ⟨hmem, hpath⟩ := getByPath_eq_some hd
        exact ⟨d, hmem, hpath, hisDir⟩

theorem removePath_ok (ht : Tree es) {path : String} (hok : es.removePath path revision = .ok es') :
    ∃ p, normalizePath path = .ok p ∧ (∃ e ∈ es, e.path = p) ∧
      es' = es.filter fun e => ¬ parts p <+: parts e.path := by
  unfold Entries.removePath at hok
  split at hok
  · cases hok
  · next p hp =>
    split at hok
    · cases hok
    · next row hget =>
      obtain ⟨hrow, hpath⟩ := getByPath_eq_some hget
      unfold Entries.deleteEntry at hok
      split at hok
      · cases hok
      · next hcount =>
        cases hok
        refine ⟨p, hp, ⟨row, hrow, hpath⟩, ?_⟩
        have hrev : row.revision = revision := revision_of_count ht hrow (not_not.1 hcount)
        rw [List.filter_filter]
        refine List.filter_congr fun e he => ?_
        have hself : (e.id = row.id ∧ e.revision = revision) ↔ parts p = parts e.path := by
          constructor
          · rintro ⟨hid, -⟩
            rw [eq_of_id ht.ids he hrow hid, hpath]
          · intro heq
            obtain rfl : e = row := eq_of_path ht.paths he hrow ((parts_inj heq).symm.trans hpath.symm)
            exact ⟨rfl, hrev⟩
        have hpre : parts p <+: parts e.path ↔ parts p = parts e.path ∨ below p e.path = true := by
          rw [below_iff]
          by_cases heq : parts p = parts e.path
          · simp [heq]
          · exact ⟨fun h => .inr ⟨h, heq⟩, fun h => (h.resolve_left heq).1⟩
        simp [hself, hpre, Bool.and_comm]

/-- An accepted move re-roots exactly the subtree of the source; what results is a tree of accepted paths if and only if
no entry of the subtree gets deeper than the limit. An accepted removal deletes exactly the entry and its subtree. -/
theorem operations_iff (ht : Tree es) :
    (∀ fromPath toPath revision es', es.movePath fromPath toPath revision = .ok es' →
      ∃ source target, normalizePath fromPath = .ok source ∧ normalizePath toPath = .ok target ∧
        es' = es.map (Entry.rerooted source target) ∧ (es'.map Entry.path).Nodup ∧
        (Moved es source target es' ↔ Shallow es source target)) ∧
    ∀ path revision es', es.removePath path revision = .ok es' →
      ∃ p, normalizePath path = .ok p ∧ (es' = es.filter fun e => ¬ parts p <+: parts e.path) ∧ Tree es' := by
  constructor
  · intro fromPath toPath revision es' hok
    obtain ⟨source, target, hsource, htarget, hne, happart, hparent, hmove⟩ := movePath_ok hok
    obtain ⟨hpaths, -, rfl⟩ := move_ok ht happart hmove
    have htree := tree_rerooted_iff ht (normalizePath_ok htarget).2 hne happart hparent hpaths
    exact ⟨source, target, hsource, htarget, rfl, hpaths, fun h => htree.1 h.tree, fun h => ⟨rfl, htree.2 h⟩⟩
  · intro path revision es' hok
    obtain ⟨p, hp, -, rfl⟩ := removePath_ok ht hok
    exact ⟨p, hp, rfl, tree_removed ht p⟩

/-! ### Acceptance -/

theorem countP_id (hids : (es.map Entry.id).Nodup) {row : Entry} (hrow : row ∈ es) {sel : Entry → Bool}
    (hsel : ∀ e ∈ es, sel e = true ↔ e = row) : es.countP sel = 1 := by
  have hcongr : es.countP sel = es.countP fun e => e == row := by
    refine List.countP_congr fun e he => ?_
    rw [hsel e he, beq_iff_eq]
  rw [hcongr]
  exact List.count_eq_one_of_mem (List.Nodup.of_map _ hids) hrow

/-- An update of one row to a path that no row has. -/
theorem update_accepted (hids : (es.map Entry.id).Nodup) (hpaths : (es.map Entry.path).Nodup) {row : Entry}
    (hrow : row ∈ es) {sel : Entry → Bool} (hsel : ∀ e ∈ es, sel e = true ↔ e = row) {f : Entry → Entry}
    (hfree : ∀ e ∈ es, e.path ≠ (f row).path) : ∃ es', es.update sel f = .ok (1, es') := by
  have hnodup : ((es.map fun e => if sel e then f e else e).map Entry.path).Nodup := by
    rw [List.map_map]
    refine List.Nodup.map_on (fun e he d hd heq => ?_) (List.Nodup.of_map _ hids)
    rw [Function.comp_apply, Function.comp_apply] at heq
    by_cases hes : sel e = true
    · by_cases hds : sel d = true
      · exact ((hsel e he).1 hes).trans ((hsel d hd).1 hds).symm
      · rw [if_pos hes, if_neg hds, (hsel e he).1 hes] at heq
        exact absurd heq.symm (hfree d hd)
    · by_cases hds : sel d = true
      · rw [if_neg hes, if_pos hds, (hsel d hd).1 hds] at heq
        exact absurd heq (hfree e he)
      · rw [if_neg hes, if_neg hds] at heq
        exact eq_of_path hpaths he hd heq
  exact ⟨_, by rw [Entries.update, if_pos hnodup, countP_id hids hrow hsel]⟩

theorem moveDescendants_accepted {todo : Entries} (hids : (es.map Entry.id).Nodup)
    (hpaths : (es.map Entry.path).Nodup) (htodo : ∀ e ∈ todo, e ∈ es) (hnodup : todo.Nodup)
    (hbelow : ∀ e ∈ todo, below source e.path = true)
    (hfree : ∀ d ∈ todo, ∀ e ∈ es, e.path ≠ newPath source target d.path) :
    ∃ es', Entries.moveDescendants source target es todo = .ok es' := by
  induction todo generalizing es with
  | nil => exact ⟨es, rfl⟩
  | cons row todo ih =>
    have hrow : row ∈ es := htodo row List.mem_cons_self
    have hsel : ∀ e ∈ es, decide (e.id = row.id) = true ↔ e = row := by
      intro e he
      rw [decide_eq_true_eq]
      exact ⟨eq_of_id hids he hrow, fun h => h ▸ rfl⟩
    obtain ⟨es₁, hupdate⟩ := update_accepted (f := fun e => { e with path := newPath source target row.path })
      hids hpaths hrow hsel (hfree row List.mem_cons_self)
    obtain ⟨hmap, hsame, hpaths₁⟩ := update_one row hsel rfl hupdate
    have hkept : ∀ e ∈ todo, e ≠ row ∧ e ∈ es₁ := by
      intro e he
      have hne : e ≠ row := fun heq => (List.nodup_cons.1 hnodup).1 (heq ▸ he)
      rw [hmap]
      exact ⟨hne, List.mem_map.2 ⟨e, htodo e (List.mem_cons_of_mem row he), if_neg hne⟩⟩
    have hfree₁ : ∀ d ∈ todo, ∀ e ∈ es₁, e.path ≠ newPath source target d.path := by
      intro d hd e he heq
      rw [hmap] at he
      obtain ⟨e', he', rfl⟩ := List.mem_map.1 he
      split at heq
      · -- two descendants with the same rest are one
        obtain ⟨r, hr⟩ := below_eq_true.1 (hbelow row List.mem_cons_self)
        obtain ⟨r', hr'⟩ := below_eq_true.1 (hbelow d (List.mem_cons_of_mem row hd))
        have hparts := congrArg parts heq
        simp only [hr, hr', newPath_slash, parts_slash, List.append_cancel_left_eq] at hparts
        refine (hkept d hd).1 (eq_of_path hpaths (htodo d (List.mem_cons_of_mem row hd)) hrow ?_)
        rw [hr, hr', parts_inj hparts]
      · exact hfree d (List.mem_cons_of_mem row hd) e' he' heq
    obtain ⟨es', hloop⟩ := ih (hsame ▸ hids) hpaths₁ (fun e he => (hkept e he).2) (List.nodup_cons.1 hnodup).2
      (fun e he => hbelow e (List.mem_cons_of_mem row he)) hfree₁
    refine ⟨es', ?_⟩
    rw [Entries.moveDescendants, hupdate]
    exact hloop

theorem getByPath_of_mem (hpaths : (es.map Entry.path).Nodup) {row : Entry} (hrow : row ∈ es) :
    es.getByPath row.path = some row := by
  cases hget : es.getByPath row.path with
  | none => exact absurd (decide_eq_true rfl) (List.find?_eq_none.1 hget row hrow)
  | some e =>
    obtain ⟨he, hpath⟩ := getByPath_eq_some hget
    rw [eq_of_path hpaths he hrow hpath]

theorem getByPath_eq_none {path : String} (h : ∀ e ∈ es, e.path ≠ path) : es.getByPath path = none :=
  List.find?_eq_none.2 fun e he hpath => h e he (of_decide_eq_true hpath)

/-- In a tree nothing is below a path that is free. -/
theorem not_below_of_free (ht : Tree es) (hfree : ∀ e ∈ es, e.path ≠ target) :
    ∀ e ∈ es, below target e.path = false := by
  intro e he
  by_contra hbelow
  rw [Bool.not_eq_false, below_iff] at hbelow
  have hsub : dirPaths es ⊆ entryPaths es := fun p ⟨d, hd, _, heq⟩ => ⟨d, hd, heq⟩
  obtain ⟨d, hd, -, heq⟩ :=
    (rooted_iff.2 ht.parents).mem_of_below hsub (parts_ne_nil target) ⟨e, he, rfl⟩ hbelow
  exact hfree d hd (parts_inj heq)

theorem move_accepted (ht : Tree es) {row : Entry} (hrow : row ∈ es) (happart : below row.path target = false)
    (hfree : ∀ e ∈ es, e.path ≠ target) : ∃ es', es.move row.path target row.revision = .ok es' := by
  have hsel : ∀ e ∈ es, decide (e.id = row.id ∧ e.revision = row.revision) = true ↔ e = row := by
    intro e he
    rw [decide_eq_true_eq]
    exact ⟨fun h => eq_of_id ht.ids he hrow h.1, fun h => h ▸ ⟨rfl, rfl⟩⟩
  obtain ⟨es₁, hupdate⟩ := update_accepted (f := fun e => { e with path := target, revision := row.revision + 1 })
    ht.ids ht.paths hrow hsel hfree
  obtain ⟨hmap, hsame, hpaths₁⟩ := update_one row hsel rfl hupdate
  have hmoved : { row with path := target, revision := row.revision + 1 } ∈ es₁ := by
    rw [hmap]
    exact List.mem_map.2 ⟨row, hrow, if_pos rfl⟩
  have hids₁ : (es₁.map Entry.id).Nodup := hsame ▸ ht.ids
  obtain ⟨es₂, hloop⟩ : ∃ es₂, Entries.moveDescendants row.path target es₁
      (es₁.filter fun e => below row.path e.path) = .ok es₂ := by
    refine moveDescendants_accepted hids₁ hpaths₁ (fun e he => (List.mem_filter.1 he).1)
      ((List.Nodup.of_map _ hids₁).filter _) (fun e he => (List.mem_filter.1 he).2) fun d hd e he heq => ?_
    obtain ⟨rest, hrest⟩ := below_eq_true.1 (List.mem_filter.1 hd).2
    rw [hrest, newPath_slash] at heq
    have hbelow : below target e.path = true := below_eq_true.2 ⟨rest, heq⟩
    rw [hmap] at he
    obtain ⟨e', he', rfl⟩ := List.mem_map.1 he
    split at hbelow
    · exact (below_iff.1 hbelow).2 rfl
    · rw [not_below_of_free ht hfree e' he'] at hbelow
      cases hbelow
  obtain ⟨-, hes₂⟩ := moveDescendants_ok hids₁ hpaths₁ (fun e he => (List.mem_filter.1 he).1)
    ((List.Nodup.of_map _ hids₁).filter _) hloop
  have hthere : ({ row with path := target, revision := row.revision + 1 } : Entry) ∈ es₂ := by
    rw [hes₂]
    refine List.mem_map.2 ⟨_, hmoved, if_neg fun hmem => Bool.false_ne_true ?_⟩
    exact happart.symm.trans (List.mem_filter.1 hmem).2
  have hget : (es₂.getByPath target).isNone = false := by
    cases h : es₂.getByPath target with
    | none => exact absurd (decide_eq_true rfl) (List.find?_eq_none.1 h _ hthere)
    | some e => rfl
  refine ⟨es₂, ?_⟩
  rw [Entries.move, getByPath_of_mem ht.paths hrow]
  simp only [hupdate, hloop, hget]
  rfl

/-- A move is accepted when its source is there at the given revision, its target is free, has a directory above it and
is not in the subtree that moves. -/
theorem movePath_accepted (ht : Tree es) {fromPath toPath : String} {row : Entry} (hrow : row ∈ es)
    (hsource : normalizePath fromPath = .ok row.path) (htarget : normalizePath toPath = .ok target)
    (happart : below row.path target = false) (hfree : ∀ e ∈ es, e.path ≠ target)
    (hparent : ∀ p ∈ parentOf target, ∃ d ∈ es, d.path = p ∧ d.isDir = true) :
    ∃ es', es.movePath fromPath toPath row.revision = .ok es' := by
  obtain ⟨es', hmove⟩ := move_accepted ht hrow happart hfree
  have hinside : isPrefixPath row.path target = .ok false := by
    have hne : target ≠ row.path := (hfree row hrow).symm
    rw [isPrefixPath, ht.accepted row hrow, (normalizePath_ok htarget).2]
    simp [hne, happart]
  have hdir : ((parentOf target).any fun p => !(es.getByPath p).any Entry.isDir) = false := by
    rw [Option.any_eq_false]
    intro p hp
    obtain ⟨d, hd, rfl, hisDir⟩ := hparent p hp
    rw [getByPath_of_mem ht.paths hd]
    simp [hisDir]
  have hpar : parentPath target = .ok (parentOf target) := by
    rw [parentPath, (normalizePath_ok htarget).2, Except.map]
  refine ⟨es', ?_⟩
  rw [Entries.movePath, hsource, htarget]
  simp only [if_neg (hfree row hrow), hinside, getByPath_of_mem ht.paths hrow, getByPath_eq_none hfree, hpar, hdir]
  exact hmove

end Moves

/-! ### Trees at the limit -/

def directory (id : Nat) (path : String) : Entry := ⟨id, path, true, none, none, none, true, 1⟩

def document (id : Nat) (path : String) (enabled : Bool) : Entry :=
  ⟨id, path, false, some "# Lamps", some "Lamps", some "Lamps of the desk", enabled, 1⟩

/-- The path of `n + 1` parts `x`. -/
def deep : Nat → String
  | 0 => "x"
  | n + 1 => deep n ++ "/" ++ "x"

/-- A chain of directories that ends above the limit, and a directory with one file. -/
def chain : Entries :=
  [directory 64 "desk", document 65 "desk/lamp" false] ++ (List.range 63).map fun n => directory (n + 1) (deep n)

/-- Names that begin alike: `desk` moves with what is below it, `desktop` stays. -/
def office : Entries :=
  [directory 1 "desk", document 2 "desk/lamp" false, directory 3 "desktop", document 4 "desktop/lamp" true,
    directory 5 "old"]

/-- A directory moves with its file, and is removed with it; the one whose name begins like its name stays. -/
theorem office_operations :
    (∃ es', office.movePath "desk" " old/desk " 1 = .ok es' ∧ Moved office "desk" "old/desk" es') ∧
    ∃ es', office.removePath "desk" 1 = .ok es' ∧ es' = office.drop 2 ∧ Tree es' := by
  have ht : Tree office := by decide
  obtain ⟨hmove, hremove⟩ := operations_iff ht
  constructor
  · obtain ⟨es', hok, -⟩ := ok_of_any (r := office.movePath "desk" " old/desk " 1) (p := fun _ => true)
      (by decide)
    obtain ⟨source, target, hsource, htarget, -, -, hiff⟩ := hmove _ _ _ _ hok
    have hs : normalizePath "desk" = .ok "desk" := by decide
    have ht : normalizePath " old/desk " = .ok "old/desk" := by decide
    obtain rfl : "desk" = source := Except.ok.inj (hs.symm.trans hsource)
    obtain rfl : "old/desk" = target := Except.ok.inj (ht.symm.trans htarget)
    exact ⟨es', hok, hiff.2 (by decide)⟩
  · obtain ⟨es', hok, hdrop⟩ := ok_of_any (r := office.removePath "desk" 1) (p := fun es' => es' = office.drop 2)
      (by decide)
    obtain ⟨p, -, -, htree⟩ := hremove _ _ _ hok
    exact ⟨es', hok, of_decide_eq_true hdrop, htree⟩

theorem parts_deep (n : Nat) : parts (deep n) = List.replicate (n + 1) "x" := by
  induction n with
  | zero => decide
  | succ n ih =>
    rw [deep, parts_slash, ih, List.replicate_succ' (n := n + 1)]
    rfl

theorem length_parts_deep (n : Nat) : (parts (deep n)).length = n + 1 := by
  rw [parts_deep, List.length_replicate]

theorem deep_inj {m n : Nat} (h : deep m = deep n) : m = n := by
  have hlen := length_parts_deep m
  rw [h, length_parts_deep n] at hlen
  omega

theorem parentOf_deep_succ (n : Nat) : parentOf (deep (n + 1)) = some (deep n) := parentOf_slash _ (by decide)

theorem deep_accepted {n : Nat} (h : n < MAX_PATH_DEPTH) : normalizePath (deep n) = .ok (deep n) := by
  induction n with
  | zero => decide
  | succ n ih =>
    have hslash : normalizePath ("x" ++ "/" ++ "x") = .ok ("x" ++ "/" ++ "x") := by decide
    refine (stored_slash (ih (Nat.lt_of_succ_lt h)) hslash).2 ?_
    rw [length_parts_deep]
    exact h

theorem deep_ne_desk (n : Nat) : deep n ≠ "desk" ∧ deep n ≠ "desk/lamp" := by
  rcases n with _ | _ | n
  · decide
  · decide
  · have hlen := length_parts_deep (n + 2)
    constructor
    · intro h
      have hdesk : (parts "desk").length = 1 := by decide
      rw [h, hdesk] at hlen
      omega
    · intro h
      have hlamp : (parts "desk/lamp").length = 2 := by decide
      rw [h, hlamp] at hlen
      omega

theorem mem_chain {e : Entry} (he : e ∈ chain) :
    e = directory 64 "desk" ∨ e = document 65 "desk/lamp" false ∨ ∃ n < 63, e = directory (n + 1) (deep n) := by
  rcases List.mem_append.1 he with he | he
  · rcases List.mem_cons.1 he with rfl | he
    · exact .inl rfl
    · exact .inr (.inl (List.mem_singleton.1 he))
  · obtain ⟨n, hn, rfl⟩ := List.mem_map.1 he
    exact .inr (.inr ⟨n, List.mem_range.1 hn, rfl⟩)

theorem tree_chain : Tree chain where
  ids := by decide
  paths := by
    have hpaths : chain.map Entry.path = ["desk", "desk/lamp"] ++ (List.range 63).map deep := by
      rw [chain, List.map_append, List.map_map]
      rfl
    rw [hpaths]
    refine List.Nodup.append (by decide) (List.nodup_range.map fun _ _ => deep_inj) ?_
    intro p hp hdeep
    obtain ⟨n, -, rfl⟩ := List.mem_map.1 hdeep
    simp only [List.mem_cons, List.not_mem_nil, or_false] at hp
    exact hp.elim (deep_ne_desk n).1 (deep_ne_desk n).2
  accepted e he := by
    rcases mem_chain he with rfl | rfl | ⟨n, hn, rfl⟩
    · decide
    · decide
    · exact deep_accepted (hn.trans (by decide))
  parents e he p hp := by
    rcases mem_chain he with rfl | rfl | ⟨n, hn, rfl⟩
    · revert hp
      decide +revert
    · have hdesk : parentOf "desk/lamp" = some "desk" := by decide
      obtain rfl : "desk" = p := Option.some.inj (hdesk.symm.trans hp)
      exact ⟨directory 64 "desk", List.mem_cons_self, rfl, rfl⟩
    · cases n with
      | zero =>
        have hnone : parentOf "x" = none := by decide
        cases hnone.symm.trans hp
      | succ n =>
        obtain rfl : deep n = p := Option.some.inj ((parentOf_deep_succ n).symm.trans hp)
        refine ⟨directory (n + 1) (deep n), List.mem_append_right _ (List.mem_map.2 ⟨n, ?_, rfl⟩), rfl, rfl⟩
        exact List.mem_range.2 (Nat.lt_of_succ_lt hn)

theorem desk_mem_chain : directory 64 "desk" ∈ chain := List.mem_cons_self

theorem lamp_mem_chain : document 65 "desk/lamp" false ∈ chain := List.mem_cons_of_mem _ List.mem_cons_self

theorem desk_accepted : normalizePath (directory 64 "desk").path = .ok (directory 64 "desk").path :=
  tree_chain.accepted _ desk_mem_chain

/-- The directory moves below the end of the chain. -/
theorem chain_moved {n : Nat} (hn : n = 62) :
    ∃ es', chain.movePath "desk" (deep (n + 1)) 1 = .ok es' ∧
      es' = chain.map (Entry.rerooted "desk" (deep (n + 1))) := by
  have hlast : normalizePath (deep (n + 1)) = .ok (deep (n + 1)) := deep_accepted (by rw [hn]; decide)
  have happart : below (directory 64 "desk").path (deep (n + 1)) = false := by
    rw [← Bool.not_eq_true, below_iff, parts_deep, hn]
    decide
  have hfree : ∀ e ∈ chain, e.path ≠ deep (n + 1) := by
    intro e he heq
    rcases mem_chain he with rfl | rfl | ⟨m, hm, rfl⟩
    · exact (deep_ne_desk (n + 1)).1 heq.symm
    · exact (deep_ne_desk (n + 1)).2 heq.symm
    · have hmn : m = n + 1 := deep_inj heq
      omega
  have hparent : ∀ p ∈ parentOf (deep (n + 1)), ∃ d ∈ chain, d.path = p ∧ d.isDir = true := by
    intro p hp
    obtain rfl : deep n = p := Option.some.inj ((parentOf_deep_succ n).symm.trans hp)
    refine ⟨directory (n + 1) (deep n), List.mem_append_right _ (List.mem_map.2 ⟨n, ?_, rfl⟩), rfl, rfl⟩
    exact List.mem_range.2 (by omega)
  obtain ⟨es', hok⟩ := movePath_accepted tree_chain desk_mem_chain desk_accepted hlast happart hfree hparent
  refine ⟨es', hok, ?_⟩
  obtain ⟨source, target, hsource, htarget, -, hbelow, -, hmove⟩ := movePath_ok hok
  obtain rfl : "desk" = source := Except.ok.inj (desk_accepted.symm.trans hsource)
  obtain rfl : deep (n + 1) = target := Except.ok.inj (hlast.symm.trans htarget)
  exact (move_ok tree_chain hbelow hmove).2.2

/-- A directory moves to the last depth that is accepted, and its file with it to a path that is not. -/
theorem chain_too_deep :
    Tree chain ∧ ∃ es', chain.movePath "desk" (deep 63) 1 = .ok es' ∧
      ∃ e ∈ es', ∀ path, normalizePath e.path ≠ .ok path := by
  obtain ⟨es', hok, rfl⟩ := chain_moved (n := 62) rfl
  refine ⟨tree_chain, _, hok, _, List.mem_map_of_mem lamp_mem_chain, fun path hpath => ?_⟩
  have hlast : normalizePath (deep 63) = .ok (deep 63) := deep_accepted (by decide)
  have hlamp : (document 65 "desk/lamp" false).path = "desk" ++ "/" ++ "lamp" := by decide
  have hstored := tree_chain.accepted _ lamp_mem_chain
  rw [hlamp] at hstored
  rw [rerooted_of_below hlamp] at hpath
  obtain ⟨rfl, hself⟩ := normalizePath_ok hpath
  rw [strip_slash hlast hstored, stored_slash hlast hstored, length_parts_deep] at hself
  revert hself
  decide

end NexusStudio.SkillEntries
